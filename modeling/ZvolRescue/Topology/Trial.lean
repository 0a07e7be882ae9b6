import ZvolRescue.Dsl.Walk
import ZvolRescue.Lib.Greedy
import ZvolRescue.Timeline.Candidates
import ZvolRescue.Topology.Binding

/-!
# Which leaf a member is

A device whose labels are gone is tried in every vacant leaf.  As many of its siblings are withheld
as the vdev can spare, and the pool is walked through what is left.  No sibling that was kept could
have been spared as well (`candidatesFor_leans`).
-/

namespace ZvolRescue
namespace Topology

open Lib Ondisk Scan Dmu
open ZvolRescue.Timeline (uberblockCandidates)

/-! ## Bases -/

/-- Where partitioning tools put a member. -/
def baseAlign : Nat := 1048576

/-- How many bases are tried at either end of a device. -/
def baseTrialsEachEnd : Nat := 512

/-- Bytes that a leaf takes, as the labels of its siblings put it. -/
def leafPsize (pool : PoolAssembly) (top : Nat) : Option Nat :=
  match pool.tops[top]? with
  | none => none
  | some t => t.tree.asize.map (fun asize =>
      let perLeaf :=
        if t.kind = "raidz" ∨ t.kind = "draid" then asize / max t.members.length 1 else asize
      add64 perLeaf (labelStartSize + 2 * labelSize))

/-- One base more, unless it is the last one again. -/
def pushBase (out : List Nat) (k : Nat) : List Nat :=
  if out.getLast? = some (k * baseAlign) then out else out ++ [k * baseAlign]

/-- The bases worth trying for a member that confirms none. -/
def baseCandidates (pool : PoolAssembly) (top size : Nat) : List Nat :=
  let need := (leafPsize pool top).getD (labelStartSize + 2 * labelSize)
  let last := (size - need) / baseAlign
  if last ≤ 2 * baseTrialsEachEnd then (List.range' 1 last).foldl pushBase [0]
  else (List.range' (last - baseTrialsEachEnd + 1) baseTrialsEachEnd).foldl pushBase
    ((List.range' 1 baseTrialsEachEnd).foldl pushBase [0])

theorem foldl_pushBase {out : List Nat} {n : Nat} (hlast : out.getLast? = some (n * baseAlign))
    {start : Nat} (hstart : n < start) (len : Nat) : (List.range' start len).foldl pushBase out =
      out ++ (List.range' start len).map (· * baseAlign) := by
  induction len generalizing out n start with
  | zero => simp
  | succ len ih =>
    have hne : ¬ out.getLast? = some (start * baseAlign) := by
      rw [hlast, Option.some.injEq, baseAlign]
      omega
    rw [List.range'_succ, List.foldl_cons, pushBase, if_neg hne,
      ih List.getLast?_concat (Nat.lt_succ_self start), List.map_cons, List.append_assoc,
      List.singleton_append]

/-- The bases are zero and the multiples of the alignment that leave room for the leaf, the first
and the last of them where there are many; each is tried once, from the front on. -/
theorem baseCandidates_spec (pool : PoolAssembly) (top size : Nat) :
    (baseCandidates pool top size).Pairwise (· < ·) ∧ ∀ b, b ∈ baseCandidates pool top size ↔
      b = 0 ∨ ∃ k, 0 < k ∧ b = k * baseAlign ∧
        b + (leafPsize pool top).getD (labelStartSize + 2 * labelSize) ≤ size ∧
        ((size - (leafPsize pool top).getD (labelStartSize + 2 * labelSize)) / baseAlign ≤
            2 * baseTrialsEachEnd ∨ k ≤ baseTrialsEachEnd ∨
          (size - (leafPsize pool top).getD (labelStartSize + 2 * labelSize)) / baseAlign <
            k + baseTrialsEachEnd) := by
  rw [baseCandidates]
  generalize (leafPsize pool top).getD (labelStartSize + 2 * labelSize) = need
  have hroom : ∀ k, 0 < k → (k ≤ (size - need) / baseAlign ↔ k * baseAlign + need ≤ size) := by
    intro k hk
    rw [Nat.le_div_iff_mul_le (by decide), baseAlign]
    omega
  generalize (size - need) / baseAlign = last at hroom ⊢
  have hsorted : ∀ ks : List Nat, ks.Pairwise (· < ·) → (∀ k ∈ ks, 0 < k) →
      (0 :: ks.map (· * baseAlign)).Pairwise (· < ·) := by
    intro ks hks hpos
    refine List.pairwise_cons.mpr ⟨fun b hb => ?_, List.pairwise_map.mpr (hks.imp (fun hlt => ?_))⟩
    · obtain ⟨k, hk, rfl⟩ := List.mem_map.mp hb
      have := hpos k hk
      rw [baseAlign]
      omega
    · rw [baseAlign]
      omega
  by_cases hfew : last ≤ 2 * baseTrialsEachEnd
  · rw [if_pos hfew, foldl_pushBase (n := 0) rfl Nat.zero_lt_one, List.singleton_append]
    refine ⟨hsorted _ List.pairwise_lt_range' (fun k hk => (List.mem_range'_1.mp hk).1),
      fun b => ?_⟩
    simp only [List.mem_cons, List.mem_map, List.mem_range'_1, hfew, true_or, and_true]
    refine or_congr_right ⟨?_, ?_⟩
    · rintro ⟨k, hk, rfl⟩
      exact ⟨k, by omega, rfl, (hroom k (by omega)).mp (by omega)⟩
    · rintro ⟨k, hk, rfl, hfits⟩
      exact ⟨k, ⟨hk, by have := (hroom k hk).mpr hfits; omega⟩, rfl⟩
  · have hlast : ([0] ++ (List.range' 1 baseTrialsEachEnd).map (· * baseAlign)).getLast? =
        some (baseTrialsEachEnd * baseAlign) := by
      obtain ⟨m, hm⟩ : ∃ m, baseTrialsEachEnd = m + 1 := ⟨511, rfl⟩
      rw [hm, List.range'_concat, List.map_append, ← List.append_assoc, List.map_singleton,
        List.getLast?_concat, Nat.one_mul, Nat.add_comm]
    have hends : 2 * baseTrialsEachEnd < last := by omega
    have hone : 0 < baseTrialsEachEnd := by decide
    rw [if_neg hfew, foldl_pushBase (n := 0) rfl Nat.zero_lt_one, foldl_pushBase hlast (by omega),
      List.append_assoc, ← List.map_append, List.singleton_append]
    refine ⟨hsorted _ ?_ ?_, fun b => ?_⟩
    · refine List.pairwise_append.mpr ⟨List.pairwise_lt_range', List.pairwise_lt_range', ?_⟩
      intro j hj k hk
      have := List.mem_range'_1.mp hj
      have := List.mem_range'_1.mp hk
      omega
    · intro k hk
      rcases List.mem_append.mp hk with hk | hk
      · exact (List.mem_range'_1.mp hk).1
      · have := (List.mem_range'_1.mp hk).1
        omega
    · simp only [List.mem_cons, List.mem_map, List.mem_append, List.mem_range'_1, hfew, false_or]
      refine or_congr_right ⟨?_, ?_⟩
      · rintro ⟨k, hk, rfl⟩
        exact ⟨k, by omega, rfl, (hroom k (by omega)).mp (by omega), by omega⟩
      · rintro ⟨k, hk, rfl, hfits, hend⟩
        have := (hroom k hk).mpr hfits
        exact ⟨k, by omega, rfl⟩

/-! ## Trials -/

/-- A leaf that a device was found to be. -/
structure Binding where
  device : Nat
  top : Nat
  leaf : Nat
  guid : Nat
  /-- The pool could not be walked without what the member holds. -/
  used : Bool
  /-- Where the vdev begins on the device. -/
  base : Nat

/-- What the trials concluded about a device. -/
inductive Verdict where
  | bound (b : Binding) (fitting : Nat)
  | ambiguous (fits : List Binding)
  | nothing

/-- The vdev of a tree that a leaf hangs under. -/
def parentKind (guid : Nat) : VdevNode → Option String
  | { kind, children, .. } =>
    if children.any (fun c => c.guid = guid) then some kind else parentKindIn guid children
where
  parentKindIn (guid : Nat) : List VdevNode → Option String
    | [] => none
    | c :: rest => (parentKind guid c).or (parentKindIn guid rest)

namespace PoolAssembly

/-- The pool without the device in a leaf. -/
def vacate (p : PoolAssembly) (s : Slot) : PoolAssembly :=
  { p with
    tops := p.tops.modify s.1 (fun top =>
      { top with members := top.members.modify s.2 (fun m => { m with present := none }) }) }

/-- The other members of the top of a leaf that are there, by their places, and their devices. -/
def siblings (p : PoolAssembly) (s : Slot) : List (Nat × Nat) :=
  match p.tops[s.1]? with
  | none => []
  | some top => (top.members.zipIdx.filter (fun m => m.2 ≠ s.2)).filterMap (fun m =>
      m.1.present.map (fun d => (m.2, d)))

/-- The pool without the siblings that its top can do without, and those siblings. -/
def withhold (p : PoolAssembly) (s : Slot) : PoolAssembly × List (Nat × Nat) :=
  greedy (fun without => without.topReadable s.1) (fun i without => without.vacate (s.1, i.1)) p
    (p.siblings s)

end PoolAssembly

section Trials

variable {δ : Type} (sizeOf : δ → Nat) (zeros : Nat → δ)
  (newReader : PoolAssembly → List (Option δ) → List Nat → PoolReader Id)
  (scans : List (Option DeviceScan))

/-- The pool can be walked from one of its uberblocks. -/
def walks (pool : PoolAssembly) (devices : List (Option δ)) (bases : List Nat) : Bool :=
  (uberblockCandidates scans pool.devices).any (fun c =>
    match (Dsl.openMos (newReader pool devices bases) c.ub).run with
    | .error _ => false
    | .ok mos =>
      match (Dsl.walk mos pool.name).run with
      | .error _ => false
      | .ok _ => true)

/-- Nothing on the member says where its vdev begins. -/
def unanchored (device : Nat) : Bool :=
  match scans[device]? with
  | some (some s) =>
    !s.configVerified && !s.labels.any (fun l =>
      l.uberblocks.any (fun slot => slot.checksum = .ok ∧ slot.ub.txg ≠ 0)) && s.baseSource.isNone
  | _ => true

/-- The bases at which a device is tried as a leaf of a top. -/
def trialBases (pool : PoolAssembly) (devices : List (Option δ)) (bases : List Nat)
    (device top : Nat) : List Nat :=
  if unanchored scans device ∧ bases.getD device 0 = 0 then
    baseCandidates pool top ((devices.getD device none).elim 0 sizeOf)
  else [bases.getD device 0]

/-- What is left to read a pool through: the devices but those withheld. -/
def mask (devices : List (Option δ)) (withheld : List (Nat × Nat)) : List (Option δ) :=
  withheld.foldl (fun devices w => devices.set w.2 none) devices

/-- Try a device as a leaf. -/
def tryLeaf (pool : PoolAssembly) (devices : List (Option δ)) (bases : List Nat) (device : Nat)
    (s : Slot) : Option Binding :=
  let guid := ((pool.memberAt s).map Member.guid).getD 0
  match pool.bindMember device (some guid) with
  | (.error _, _) => none
  | (.ok _, trial) =>
    let left := trial.withhold s
    let masked := mask devices left.2
    match (trialBases sizeOf scans pool devices bases device s.1).find? (fun b =>
        walks newReader scans left.1 masked (bases.set device b)) with
    | none => none
    | some base =>
      let blanked :=
        masked.set device (some (zeros ((devices.getD device none).elim 0 sizeOf)))
      some
        { device
          top := s.1
          leaf := s.2
          guid
          used := !walks newReader scans left.1 blanked (bases.set device base)
          base }

/-- The leaves that the pool can be read through. -/
def candidatesFor (pool : PoolAssembly) (devices : List (Option δ)) (bases : List Nat)
    (device : Nat) : List Binding :=
  pool.vacantLeaves.filterMap (tryLeaf sizeOf zeros newReader scans pool devices bases device)

/-- Leaves of one mirror hold the same bytes. -/
def interchangeable (pool : PoolAssembly) (b : Binding) : Bool :=
  match (pool.tops[b.top]?).bind (fun top => parentKind b.guid top.tree) with
  | some kind => kind = "mirror" ∨ kind = "replacing" ∨ kind = "spare"
  | none => false

/-- The candidates that count: those that are needed, or else all. -/
def fitting (candidates : List Binding) : List Binding :=
  if (candidates.filter Binding.used).isEmpty then candidates else candidates.filter Binding.used

/-- Bind a device to the leaf that the pool reads as, when the trials point at one. -/
def bindByReading (pool : PoolAssembly) (devices : List (Option δ)) (bases : List Nat)
    (device : Nat) : Verdict × PoolAssembly :=
  let fits := fitting (candidatesFor sizeOf zeros newReader scans pool devices bases device)
  match fits with
  | [] => (.nothing, pool)
  | pick :: rest =>
    if rest.isEmpty ∨ fits.all (interchangeable pool) then
      match pool.bindMember device (some pick.guid) with
      | (.ok _, pool) => (.bound pick fits.length, pool)
      | (.error _, _) => (.nothing, pool)
    else (.ambiguous fits, pool)

end Trials

/-! ## Siblings that are withheld -/

section Vacate

variable {p p' : PoolAssembly} {s s' : Slot}

theorem memberAt_vacate : (p.vacate s).memberAt s' =
    if s = s' then (p.memberAt s').map (fun m => { m with present := none })
    else p.memberAt s' := by
  obtain ⟨t, i⟩ := s
  obtain ⟨t', i'⟩ := s'
  simp only [PoolAssembly.memberAt, PoolAssembly.vacate, List.getElem?_modify, Prod.mk.injEq]
  by_cases ht : t = t'
  · subst ht
    simp only [if_true, true_and]
    cases p.tops[t]? with
    | none => simp
    | some top =>
      by_cases hi : i = i'
      · simp [hi]
      · simp [hi]
  · simp [ht]

theorem holder_vacate : (p.vacate s).holder s' = if s = s' then none else p.holder s' := by
  rw [PoolAssembly.holder, memberAt_vacate]
  by_cases hs : s = s'
  · rw [if_pos hs, if_pos hs]
    cases p.memberAt s' <;> rfl
  · rw [if_neg hs, if_neg hs, PoolAssembly.holder]

theorem named_vacate : ((p.vacate s).memberAt s').map (fun m => (m.guid, m.path)) =
    (p.memberAt s').map (fun m => (m.guid, m.path)) := by
  rw [memberAt_vacate]
  split
  · cases p.memberAt s' <;> rfl
  · rfl

theorem tops_vacate : (p.vacate s).tops.map (fun top => { top with members := [] }) =
    p.tops.map (fun top => { top with members := [] }) := by
  rw [PoolAssembly.vacate]
  refine List.ext_getElem? (fun i => ?_)
  rw [List.getElem?_map, List.getElem?_map, List.getElem?_modify]
  cases p.tops[i]? with
  | none => rfl
  | some top =>
    simp only [Option.map_some]
    split <;> rfl

theorem vacate_below (p : PoolAssembly) (s : Slot) : Below (p.vacate s) p where
  keeps := by
    intro s' d hd
    rw [holder_vacate] at hd
    split at hd
    · cases hd
    · exact hd
  named := fun s' => named_vacate.symm
  tops := tops_vacate.symm

theorem Below.vacate (h : Below p p') (s : Slot) : Below (p.vacate s) (p'.vacate s) where
  keeps := by
    intro s' d hd
    rw [holder_vacate] at hd ⊢
    split at hd
    · cases hd
    · rename_i hs
      rw [if_neg hs]
      exact h.keeps s' d hd
  named := fun s' => by rw [named_vacate, named_vacate, h.named]
  tops := by rw [tops_vacate, tops_vacate, h.tops]

/-- The pool that a trial is walked through. -/
structure Leans (p : PoolAssembly) (s : Slot) (left : PoolAssembly) (withheld : List (Nat × Nat)) :
    Prop where
  /-- Siblings were withheld, and nothing else. -/
  siblings : withheld.Sublist (p.siblings s)
  left_eq : left = withheld.foldl (fun p w => p.vacate (s.1, w.1)) p
  /-- The top can be read as before. -/
  readable : p.topReadable s.1 = true → left.topReadable s.1 = true
  /-- A sibling that was kept is needed. -/
  minimal : ∀ w ∈ p.siblings s, w ∉ withheld → (left.vacate (s.1, w.1)).topReadable s.1 = false

theorem withhold_leans (p : PoolAssembly) (s : Slot) :
    Leans p s (p.withhold s).1 (p.withhold s).2 where
  siblings := greedy_sublist _ _ p _
  left_eq := greedy_foldl _ _ p _
  readable := by
    intro h
    rw [PoolAssembly.withhold]
    exact greedy_holds (p := fun left : PoolAssembly => left.topReadable s.1) h
  minimal := by
    intro w hw hkept
    rw [PoolAssembly.withhold] at hkept ⊢
    exact greedy_minimal (p := fun left : PoolAssembly => left.topReadable s.1) Below.refl
      (fun _ _ _ => Below.trans) (fun i p => vacate_below p (s.1, i.1))
      (fun i _ _ h => h.vacate (s.1, i.1)) (fun _ _ h => h.topReadable) hw hkept

end Vacate

/-! ## What the trials show -/

section Evidence

variable {δ : Type} {sizeOf : δ → Nat} {zeros : Nat → δ}
  {newReader : PoolAssembly → List (Option δ) → List Nat → PoolReader Id}
  {scans : List (Option DeviceScan)} {pool : PoolAssembly} {devices : List (Option δ)}
  {bases : List Nat} {device : Nat}

variable (sizeOf zeros newReader scans pool devices bases device) in
/-- What stands behind a binding. -/
structure Evidence (b : Binding) : Prop where
  device_eq : b.device = device
  vacant : (b.top, b.leaf) ∈ pool.vacantLeaves
  guid : ∃ m, pool.memberAt (b.top, b.leaf) = some m ∧ m.guid = b.guid
  base : b.base ∈ trialBases sizeOf scans pool devices bases device b.top
  /-- The pool walks through the device where its siblings are withheld, from the first of the
  bases from which it does, and the member is used if it does not without what it holds. -/
  trial : ∃ left withheld,
    Leans (pool.bindMember device (some b.guid)).2 (b.top, b.leaf) left withheld ∧
    (trialBases sizeOf scans pool devices bases device b.top).find? (fun base =>
      walks newReader scans left (mask devices withheld) (bases.set device base)) = some b.base ∧
    b.used = !walks newReader scans left ((mask devices withheld).set device
      (some (zeros ((devices.getD device none).elim 0 sizeOf)))) (bases.set device b.base)

/-- A leaf of the GUID of a vacant leaf can be bound. -/
theorem bindMember_vacant {s : Slot} (hs : s ∈ pool.vacantLeaves) {m : Member}
    (hm : pool.memberAt s = some m) (device : Nat) :
    ∃ s' m', pool.memberAt s' = some m' ∧ m'.present = none ∧ m'.guid = m.guid ∧
      pool.bindMember device (some m.guid) = (.ok m'.guid, pool.occupy s' device) := by
  rcases bindMember_cases pool device (some m.guid) with ⟨e, hrefused⟩ | ⟨s', m', hm', hvacant,
    hguid, -, hbound⟩
  · exfalso
    rw [PoolAssembly.bindMember, PoolAssembly.vacantLeaf] at hrefused
    cases hfind : pool.vacantLeaves.find? (fun s => (pool.memberAt s).any
        (fun m' => m'.guid = m.guid)) with
    | none =>
      have hnone := List.find?_eq_none.mp hfind s hs
      rw [hm] at hnone
      simp at hnone
    | some s' =>
      rw [hfind] at hrefused
      cases hrefused
  · exact ⟨s', m', hm', hvacant, hguid _ rfl, hbound⟩

theorem tryLeaf_eq {s : Slot} (hs : s ∈ pool.vacantLeaves) {m : Member}
    (hm : pool.memberAt s = some m) {left : PoolAssembly × List (Nat × Nat)}
    (hleft : (pool.bindMember device (some m.guid)).2.withhold s = left) :
    tryLeaf sizeOf zeros newReader scans pool devices bases device s =
      ((trialBases sizeOf scans pool devices bases device s.1).find? (fun base =>
        walks newReader scans left.1 (mask devices left.2) (bases.set device base))).map
      (fun base =>
        { device
          top := s.1
          leaf := s.2
          guid := m.guid
          used := !walks newReader scans left.1 ((mask devices left.2).set device
            (some (zeros ((devices.getD device none).elim 0 sizeOf)))) (bases.set device base)
          base }) := by
  obtain ⟨s', m', -, -, -, hbound⟩ := bindMember_vacant hs hm device
  have hguid : ((pool.memberAt s).map Member.guid).getD 0 = m.guid := by
    rw [hm]
    rfl
  rw [hbound] at hleft
  unfold tryLeaf
  rw [hguid]
  dsimp only
  rw [hbound]
  dsimp only at hleft ⊢
  rw [hleft]
  cases (trialBases sizeOf scans pool devices bases device s.1).find? (fun base =>
    walks newReader scans left.1 (mask devices left.2) (bases.set device base)) <;> rfl

theorem tryLeaf_evidence {s : Slot} (hs : s ∈ pool.vacantLeaves) {b : Binding}
    (htry : tryLeaf sizeOf zeros newReader scans pool devices bases device s = some b) :
    (b.top, b.leaf) = s ∧ Evidence sizeOf zeros newReader scans pool devices bases device b := by
  obtain ⟨m, hm, -⟩ := mem_vacantLeaves.mp hs
  rw [tryLeaf_eq hs hm rfl, Option.map_eq_some_iff] at htry
  obtain ⟨base, hfind, rfl⟩ := htry
  exact ⟨rfl,
    { device_eq := rfl
      vacant := hs
      guid := ⟨m, hm, rfl⟩
      base := List.mem_of_find?_eq_some hfind
      trial := ⟨_, _, withhold_leans _ s, hfind, rfl⟩ }⟩

theorem evidence_of_mem {b : Binding}
    (hb : b ∈ candidatesFor sizeOf zeros newReader scans pool devices bases device) :
    Evidence sizeOf zeros newReader scans pool devices bases device b := by
  obtain ⟨s, hs, htry⟩ := List.mem_filterMap.mp hb
  exact (tryLeaf_evidence hs htry).2

/-- A leaf is a candidate exactly when the pool can be walked through the device in it, with no
sibling left that the top can do without. -/
theorem candidatesFor_leans (sizeOf : δ → Nat) (zeros : Nat → δ)
    (newReader : PoolAssembly → List (Option δ) → List Nat → PoolReader Id)
    (scans : List (Option DeviceScan)) (pool : PoolAssembly) (devices : List (Option δ))
    (bases : List Nat) (device : Nat) :
    (∀ b ∈ candidatesFor sizeOf zeros newReader scans pool devices bases device,
      Evidence sizeOf zeros newReader scans pool devices bases device b) ∧
    ∀ s ∈ pool.vacantLeaves, ∃ m, pool.memberAt s = some m ∧ ∃ left withheld,
      Leans (pool.bindMember device (some m.guid)).2 s left withheld ∧
      ((∃ b ∈ candidatesFor sizeOf zeros newReader scans pool devices bases device,
          (b.top, b.leaf) = s) ↔
        ∃ base ∈ trialBases sizeOf scans pool devices bases device s.1,
          walks newReader scans left (mask devices withheld) (bases.set device base) = true) := by
  refine ⟨fun b hb => evidence_of_mem hb, fun s hs => ?_⟩
  obtain ⟨m, hm, -⟩ := mem_vacantLeaves.mp hs
  refine ⟨m, hm, _, _, withhold_leans _ s, ?_⟩
  have htry := @tryLeaf_eq δ sizeOf zeros newReader scans pool devices bases device s hs m hm _ rfl
  rw [← List.find?_isSome]
  constructor
  · rintro ⟨b, hb, hat⟩
    obtain ⟨s', hs', hb⟩ := List.mem_filterMap.mp hb
    obtain rfl : s' = s := (tryLeaf_evidence hs' hb).1.symm.trans hat
    rw [htry] at hb
    rw [← Option.isSome_map, hb, Option.isSome_some]
  · intro hsome
    rw [← Option.isSome_map, ← htry] at hsome
    obtain ⟨b, hb⟩ := Option.isSome_iff_exists.mp hsome
    exact ⟨b, List.mem_filterMap.mpr ⟨s, hs, hb⟩, (tryLeaf_evidence hs hb).1⟩

theorem mem_candidates {candidates : List Binding} {b : Binding} (hb : b ∈ fitting candidates) :
    b ∈ candidates := by
  rw [fitting] at hb
  split at hb
  · exact hb
  · exact (List.mem_filter.mp hb).1

/-- A leaf that fits can be bound. -/
theorem fitting_binds {b : Binding}
    (hb : b ∈ fitting (candidatesFor sizeOf zeros newReader scans pool devices bases device)) :
    ∃ s m, pool.memberAt s = some m ∧ m.present = none ∧ m.guid = b.guid ∧
      pool.bindMember device (some b.guid) = (.ok b.guid, pool.occupy s device) := by
  have hevidence := evidence_of_mem (mem_candidates hb)
  obtain ⟨m, hm, hguid⟩ := hevidence.guid
  obtain ⟨s, m', hm', hvacant, hguid', hbound⟩ := bindMember_vacant hevidence.vacant hm device
  rw [hguid] at hguid' hbound
  exact ⟨s, m', hm', hvacant, hguid', hguid' ▸ hbound⟩

/-- What a device is bound to is a vacant leaf that the pool reads as, and the pool is as it was
otherwise; it is not bound where several leaves fit that are not of one mirror, or none. -/
theorem bindByReading_spec (sizeOf : δ → Nat) (zeros : Nat → δ)
    (newReader : PoolAssembly → List (Option δ) → List Nat → PoolReader Id)
    (scans : List (Option DeviceScan)) (pool : PoolAssembly) (devices : List (Option δ))
    (bases : List Nat) (device : Nat) :
    ∃ fits, fits = fitting (candidatesFor sizeOf zeros newReader scans pool devices bases device) ∧
      ((∃ b rest s, fits = b :: rest ∧ (rest = [] ∨ ∀ c ∈ fits, interchangeable pool c = true) ∧
        (∃ m, pool.memberAt s = some m ∧ m.present = none ∧ m.guid = b.guid) ∧
        bindByReading sizeOf zeros newReader scans pool devices bases device =
          (.bound b fits.length, pool.occupy s device)) ∨
      (∃ b c rest, fits = b :: c :: rest ∧ (∃ x ∈ fits, interchangeable pool x = false) ∧
        bindByReading sizeOf zeros newReader scans pool devices bases device =
          (.ambiguous fits, pool)) ∨
      candidatesFor sizeOf zeros newReader scans pool devices bases device = [] ∧
        bindByReading sizeOf zeros newReader scans pool devices bases device =
          (.nothing, pool)) := by
  refine ⟨_, rfl, ?_⟩
  unfold bindByReading
  dsimp only
  have hbinds : ∀ b ∈ fitting
        (candidatesFor sizeOf zeros newReader scans pool devices bases device),
      ∃ s m, pool.memberAt s = some m ∧ m.present = none ∧ m.guid = b.guid ∧
        pool.bindMember device (some b.guid) = (.ok b.guid, pool.occupy s device) :=
    fun _ hb => fitting_binds hb
  generalize candidatesFor sizeOf zeros newReader scans pool devices bases device = candidates
    at hbinds ⊢
  cases hfits : fitting candidates with
  | nil =>
    refine Or.inr (Or.inr ⟨?_, rfl⟩)
    rw [fitting] at hfits
    split at hfits
    · exact hfits
    · rename_i hsome
      rw [hfits] at hsome
      exact absurd rfl hsome
  | cons b rest =>
    obtain ⟨s, m, hm, hvacant, hguid, hbound⟩ := hbinds b (hfits ▸ List.mem_cons_self)
    by_cases hpick : rest.isEmpty = true ∨ (b :: rest).all (interchangeable pool) = true
    · refine Or.inl ⟨b, rest, s, rfl, ?_, ⟨m, hm, hvacant, hguid⟩, ?_⟩
      · exact hpick.imp List.isEmpty_iff.mp List.all_eq_true.mp
      · dsimp only
        rw [if_pos hpick, hbound]
    · refine Or.inr (Or.inl ?_)
      rw [not_or, List.isEmpty_iff, List.all_eq_true] at hpick
      cases rest with
      | nil => exact absurd rfl hpick.1
      | cons c rest =>
        refine ⟨b, c, rest, rfl, ?_, ?_⟩
        · by_contra hall
          refine hpick.2 (fun x hx => ?_)
          by_contra hx'
          exact hall ⟨x, hx, by simpa using hx'⟩
        · dsimp only
          rw [if_neg (by rw [List.all_eq_true]; simpa using hpick.2)]

end Evidence

end Topology
end ZvolRescue
