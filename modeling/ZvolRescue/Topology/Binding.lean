import ZvolRescue.Lib.Fill
import ZvolRescue.Topology.Readable

/-!
# Members in vacant leaves

A leaf that the configuration names and no scanned device carries is vacant, and a device can be
put into it on somebody's word.  Over any run of such requests leaves are only filled
(`bindAll_filled`), and what could be read still can (`Filled.readable`).
-/

namespace ZvolRescue
namespace Topology

open Lib Ondisk

/-! ## Leaves -/

/-- A leaf, by its top-level vdev and its place among the members. -/
abbrev Slot := Nat × Nat

/-- Why a member could not be bound to a vacant leaf. -/
inductive BindError where
  | nothingVacant
  | ambiguous (vacant : Nat)
  | noSuchVacantLeaf (guid : Nat)
  deriving DecidableEq, Repr

def BindError.text : BindError → String
  | nothingVacant => "every leaf of this pool is already accounted for"
  | ambiguous n => s!"{n} leaves are missing; name the one this member is, by guid"
  | noSuchVacantLeaf g => "no missing leaf has guid 0x" ++ hexDigits 16 g

namespace PoolAssembly

variable (p : PoolAssembly)

def memberAt (s : Slot) : Option Member := p.tops[s.1]?.bind (fun top => top.members[s.2]?)

/-- The device in a leaf. -/
def holder (s : Slot) : Option Nat := (p.memberAt s).bind Member.present

/-- Every leaf, in the order of the tops. -/
def slots : List Slot :=
  p.tops.zipIdx.flatMap (fun top => top.1.members.zipIdx.map (fun m => (top.2, m.2)))

/-- The leaves that no scanned device carries. -/
def vacantLeaves : List Slot :=
  p.tops.zipIdx.flatMap (fun top =>
    (top.1.members.zipIdx.filter (fun m => m.1.present.isNone)).map (fun m => (top.2, m.2)))

/-- The vacant leaf that is meant: the first of a GUID, or else the only one. -/
def vacantLeaf (guid : Option Nat) : Except BindError Slot :=
  match guid with
  | some g =>
    match p.vacantLeaves.find? (fun s => (p.memberAt s).any (fun m => m.guid = g)) with
    | some s => .ok s
    | none => .error (.noSuchVacantLeaf g)
  | none =>
    match p.vacantLeaves with
    | [] => .error .nothingVacant
    | [s] => .ok s
    | s :: s' :: rest => .error (.ambiguous (s :: s' :: rest).length)

/-- A device in a leaf. -/
def occupy (s : Slot) (device : Nat) : PoolAssembly :=
  { p with
    tops := p.tops.modify s.1 (fun top =>
      { top with members := top.members.modify s.2 (fun m => { m with present := some device }) })
    devices :=
      if device ∈ p.devices then p.devices
      else (p.devices ++ [device]).insertionSort (· ≤ ·) }

/-- Put a device into a vacant leaf; the GUID of the leaf, and the pool as it is then. -/
def bindMember (device : Nat) (guid : Option Nat) : Except BindError Nat × PoolAssembly :=
  match p.vacantLeaf guid with
  | .error e => (.error e, p)
  | .ok s => (.ok (((p.memberAt s).map Member.guid).getD 0), p.occupy s device)

/-- One request after another; one that is refused changes nothing. -/
def bindAll (requests : List (Nat × Option Nat)) : PoolAssembly :=
  requests.foldl (fun p r => (p.bindMember r.1 r.2).2) p

/-- The top-level vdevs that no label describes and that were not removed. -/
def missingTops : List Nat :=
  match p.vdevChildren with
  | none => []
  | some n =>
    ((List.range n).filter (fun id => !p.tops.any (fun t => t.id = id))).filter
      (fun id => !p.removedTops.contains id)

/-- Remember which of the top-level vdevs that no label describes were removed. -/
def noteRemovedTops (removed : List Nat) : PoolAssembly :=
  { p with
    removedTops :=
      ((removed.filter (fun id => !p.tops.any (fun t => t.id = id))).dedup).insertionSort
        (· ≤ ·) }

/-- The top-level vdev at this place can be read. -/
def topReadable (t : Nat) : Bool := p.tops[t]?.any TopVdev.readable

/-- Every top-level vdev is known and can be read. -/
def readable : Bool := p.missingTops.isEmpty && p.tops.all TopVdev.readable

end PoolAssembly

/-! ## One request -/

section Leaves

variable {p : PoolAssembly} {s s' : Slot} {device : Nat}

theorem mem_slots : s ∈ p.slots ↔ ∃ m, p.memberAt s = some m := by
  obtain ⟨t, i⟩ := s
  simp only [PoolAssembly.slots, List.mem_flatMap, List.mem_map, Prod.exists, Prod.mk.injEq,
    List.mem_zipIdx_iff_getElem?, PoolAssembly.memberAt, Option.bind_eq_some_iff]
  constructor
  · rintro ⟨top, _, htop, m, _, hm, rfl, rfl⟩
    exact ⟨m, top, htop, hm⟩
  · rintro ⟨m, top, htop, hm⟩
    exact ⟨top, t, htop, m, i, hm, rfl, rfl⟩

theorem nodup_slots (p : PoolAssembly) : p.slots.Nodup := by
  refine List.nodup_flatMap.mpr ⟨fun top _ => ?_, ?_⟩
  · have hindices : (top.1.members.zipIdx.map Prod.snd).Nodup := by
      rw [List.zipIdx_map_snd]
      exact List.nodup_range'
    have hmap : top.1.members.zipIdx.map (fun m => (top.2, m.2)) =
        (top.1.members.zipIdx.map Prod.snd).map (Prod.mk top.2) := by
      rw [List.map_map]
      rfl
    rw [hmap]
    exact hindices.map (Prod.mk_right_injective top.2)
  · have hindices : (p.tops.zipIdx.map Prod.snd).Nodup := by
      rw [List.zipIdx_map_snd]
      exact List.nodup_range'
    refine (List.pairwise_map.mp hindices).imp (fun hne => ?_)
    rw [Function.onFun, List.disjoint_left]
    rintro x hx hy
    obtain ⟨_, -, rfl⟩ := List.mem_map.mp hx
    obtain ⟨_, -, heq⟩ := List.mem_map.mp hy
    exact hne (Prod.mk.inj heq).1.symm

theorem vacantLeaves_eq (p : PoolAssembly) :
    p.vacantLeaves = p.slots.filter (fun s => (p.holder s).isNone) := by
  rw [PoolAssembly.vacantLeaves, PoolAssembly.slots, List.filter_flatMap]
  refine List.flatMap_congr (fun top htop => ?_)
  rw [List.filter_map]
  refine congrArg _ (List.filter_congr (fun m hm => ?_))
  rw [List.mem_zipIdx_iff_getElem?] at htop hm
  simp [PoolAssembly.holder, PoolAssembly.memberAt, htop, hm]

theorem mem_vacantLeaves :
    s ∈ p.vacantLeaves ↔ ∃ m, p.memberAt s = some m ∧ m.present = none := by
  rw [vacantLeaves_eq, List.mem_filter, mem_slots, PoolAssembly.holder]
  constructor
  · rintro ⟨⟨m, hm⟩, hnone⟩
    rw [hm] at hnone
    exact ⟨m, hm, by simpa using hnone⟩
  · rintro ⟨m, hm, hnone⟩
    exact ⟨⟨m, hm⟩, by simp [hm, hnone]⟩

theorem memberAt_occupy : (p.occupy s device).memberAt s' =
    if s = s' then (p.memberAt s').map (fun m => { m with present := some device })
    else p.memberAt s' := by
  obtain ⟨t, i⟩ := s
  obtain ⟨t', i'⟩ := s'
  simp only [PoolAssembly.memberAt, PoolAssembly.occupy, List.getElem?_modify, Prod.mk.injEq]
  by_cases ht : t = t'
  · subst ht
    simp only [if_true, true_and]
    cases p.tops[t]? with
    | none => simp
    | some top =>
      by_cases hi : i = i'
      · simp [hi]
      · simp [hi]
  · simp [ht]

theorem holder_occupy {m : Member} (hm : p.memberAt s = some m) :
    (p.occupy s device).holder = Function.update p.holder s (some device) := by
  funext s'
  rw [PoolAssembly.holder, memberAt_occupy]
  by_cases hs : s = s'
  · subst hs
    rw [if_pos rfl, hm, Function.update_self]
    rfl
  · rw [if_neg hs, Function.update_of_ne (Ne.symm hs), PoolAssembly.holder]

/-- What a request can do. -/
theorem bindMember_cases (p : PoolAssembly) (device : Nat) (guid : Option Nat) :
    (∃ e, p.bindMember device guid = (.error e, p)) ∨
      ∃ s m, p.memberAt s = some m ∧ m.present = none ∧ (∀ g, guid = some g → m.guid = g) ∧
        p.vacantLeaf guid = .ok s ∧ p.bindMember device guid = (.ok m.guid, p.occupy s device) := by
  rw [PoolAssembly.bindMember]
  cases hleaf : p.vacantLeaf guid with
  | error e => exact Or.inl ⟨e, rfl⟩
  | ok s =>
    have hvacant : s ∈ p.vacantLeaves ∧
        ∀ g, guid = some g → (p.memberAt s).any (fun m => m.guid = g) = true := by
      unfold PoolAssembly.vacantLeaf at hleaf
      split at hleaf
      · rename_i g
        split at hleaf
        · rename_i hfind
          cases hleaf
          refine ⟨List.mem_of_find?_eq_some hfind, fun g' hg' => ?_⟩
          cases hg'
          have hguid := List.find?_some hfind
          exact hguid
        · cases hleaf
      · split at hleaf
        · cases hleaf
        · rename_i hall
          cases hleaf
          refine ⟨hall ▸ List.mem_cons_self, fun g' hg' => ?_⟩
          cases hg'
        · cases hleaf
    obtain ⟨m, hm, hnone⟩ := mem_vacantLeaves.mp hvacant.1
    refine Or.inr ⟨s, m, hm, hnone, fun g hg => ?_, rfl, by simp [hm]⟩
    have hany := hvacant.2 g hg
    rw [hm] at hany
    simpa using hany

end Leaves

/-! ## Runs -/

/-- `p'` is `p` with these leaves filled. -/
structure Filled (p : PoolAssembly) (filled : List (Slot × Nat)) (p' : PoolAssembly) : Prop where
  fills : Fills p.holder filled p'.holder
  /-- The leaves are those of the configuration. -/
  leaves : ∀ s ∈ filled, s.1 ∈ p.slots
  named : ∀ s, (p'.memberAt s).map (fun m => (m.guid, m.path)) =
    (p.memberAt s).map (fun m => (m.guid, m.path))
  tops : p'.tops.map (fun top => { top with members := [] }) =
    p.tops.map (fun top => { top with members := [] })
  others : { p' with tops := [], devices := [] } = { p with tops := [], devices := [] }
  devices : ∀ d, d ∈ p'.devices ↔ d ∈ p.devices ∨ ∃ s ∈ filled, s.2 = d

section Runs

variable {p p' p'' : PoolAssembly} {filled filled' : List (Slot × Nat)} {s : Slot}

theorem Filled.refl (p : PoolAssembly) : Filled p [] p where
  fills := .nil _
  leaves := by simp
  named := fun _ => rfl
  tops := rfl
  others := rfl
  devices := by simp

/-- One leaf more at the beginning. -/
theorem Filled.cons {device : Nat} {m : Member} (hm : p.memberAt s = some m)
    (hvacant : m.present = none) (h : Filled (p.occupy s device) filled p') :
    Filled p ((s, device) :: filled) p' := by
  have hslots : ∀ s', s' ∈ (p.occupy s device).slots ↔ s' ∈ p.slots := by
    intro s'
    rw [mem_slots, mem_slots, memberAt_occupy]
    split
    · cases p.memberAt s' <;> simp
    · rfl
  constructor
  · have hnone : p.holder s = none := by
      rw [PoolAssembly.holder, hm]
      exact hvacant
    have hfills := h.fills
    rw [holder_occupy hm] at hfills
    exact .cons hnone hfills
  · intro x hx
    rcases List.mem_cons.mp hx with rfl | hx
    · exact mem_slots.mpr ⟨m, hm⟩
    · exact (hslots _).mp (h.leaves x hx)
  · intro s'
    rw [h.named s', memberAt_occupy]
    split
    · cases p.memberAt s' <;> rfl
    · rfl
  · rw [h.tops, PoolAssembly.occupy]
    refine List.ext_getElem? (fun i => ?_)
    rw [List.getElem?_map, List.getElem?_map, List.getElem?_modify]
    cases p.tops[i]? with
    | none => rfl
    | some top =>
      simp only [Option.map_some]
      split <;> rfl
  · rw [h.others]
    rfl
  · intro d
    have hdevices : d ∈ (p.occupy s device).devices ↔ d ∈ p.devices ∨ device = d := by
      rw [PoolAssembly.occupy]
      by_cases hmem : device ∈ p.devices
      · rw [if_pos hmem]
        exact ⟨Or.inl, fun h => h.elim id (fun h => h ▸ hmem)⟩
      · rw [if_neg hmem, List.mem_insertionSort, List.mem_append, List.mem_singleton, eq_comm]
    rw [h.devices, hdevices, List.exists_mem_cons_iff, or_assoc]

/-- Over any run of requests leaves are only filled, each as a request asked. -/
theorem bindAll_filled (p : PoolAssembly) (requests : List (Nat × Option Nat)) :
    ∃ filled, Filled p filled (p.bindAll requests) ∧ ∀ x ∈ filled, ∃ r ∈ requests, r.1 = x.2 ∧
      ∀ g, r.2 = some g → ∃ m, p.memberAt x.1 = some m ∧ m.guid = g := by
  induction requests generalizing p with
  | nil => exact ⟨[], Filled.refl p, by simp⟩
  | cons r rest ih =>
    rw [PoolAssembly.bindAll, List.foldl_cons]
    rcases bindMember_cases p r.1 r.2 with ⟨e, hrefused⟩ | ⟨s, m, hm, hvacant, hguid, -, hbound⟩
    · rw [hrefused]
      obtain ⟨filled, hfilled, hasked⟩ := ih p
      refine ⟨filled, hfilled, fun x hx => ?_⟩
      obtain ⟨r', hr', hasked⟩ := hasked x hx
      exact ⟨r', List.mem_cons_of_mem _ hr', hasked⟩
    · rw [hbound]
      obtain ⟨filled, hfilled, hasked⟩ := ih (p.occupy s r.1)
      refine ⟨(s, r.1) :: filled, hfilled.cons hm hvacant, fun x hx => ?_⟩
      rcases List.mem_cons.mp hx with rfl | hx
      · exact ⟨r, List.mem_cons_self, rfl, fun g hg => ⟨m, hm, hguid g hg⟩⟩
      · obtain ⟨r', hr', hdevice, hleaf⟩ := hasked x hx
        refine ⟨r', List.mem_cons_of_mem _ hr', hdevice, fun g hg => ?_⟩
        obtain ⟨m', hm', hguid'⟩ := hleaf g hg
        rw [memberAt_occupy] at hm'
        split at hm'
        · rename_i hs
          rw [← hs, hm] at hm'
          cases hm'
          exact ⟨m, hs ▸ hm, hguid'⟩
        · exact ⟨m', hm', hguid'⟩

/-- As many leaves are vacant fewer as were filled. -/
theorem Filled.vacantLeaves_length (h : Filled p filled p') :
    p'.vacantLeaves.length + filled.length = p.vacantLeaves.length := by
  have hslots : ∀ s', s' ∈ p'.slots ↔ s' ∈ p.slots := by
    intro s'
    have hnamed := h.named s'
    rw [mem_slots, mem_slots]
    cases hm : p.memberAt s' <;> cases hm' : p'.memberAt s' <;> simp [hm, hm'] at hnamed ⊢
  have hperm : p'.slots.Perm p.slots :=
    (List.perm_ext_iff_of_nodup (nodup_slots p') (nodup_slots p)).mpr hslots
  rw [vacantLeaves_eq, vacantLeaves_eq, ← List.countP_eq_length_filter,
    ← List.countP_eq_length_filter, hperm.countP_eq]
  exact h.fills.countP_vacant (nodup_slots p) h.leaves

/-! ## What can be read -/

theorem judge_mono {tree : VdevNode} {count readable readable' : Nat} (hle : readable ≤ readable')
    (h : judge tree count readable = true) : judge tree count readable' = true := by
  unfold judge at h ⊢
  dsimp only at h ⊢
  split at h
  · rename_i hkind
    rw [if_pos hkind]
    simp only [ge_iff_le, decide_eq_true_iff] at h ⊢
    omega
  · rename_i hkind
    rw [if_neg hkind]
    split at h
    · rename_i hparity
      rw [if_pos hparity]
      simp only [decide_eq_true_iff] at h ⊢
      omega
    · rename_i hparity
      rw [if_neg hparity]
      simp only [decide_eq_true_iff] at h ⊢
      omega

section Readable

variable {members members' : List Member}

mutual

/-- Where no leaf is lost, no less is readable. -/
theorem nodeReadable_mono
    (h : ∀ g, members.any (fun m => m.guid = g ∧ m.present.isSome) = true →
      members'.any (fun m => m.guid = g ∧ m.present.isSome) = true) :
    ∀ tree : VdevNode, nodeReadable members tree = true → nodeReadable members' tree = true
  | tree@{ children, .. } => by
    intro hreadable
    rw [nodeReadable] at hreadable ⊢
    by_cases hleaf : children.isEmpty = true
    · rw [if_pos hleaf] at hreadable ⊢
      exact h _ hreadable
    · rw [if_neg hleaf] at hreadable ⊢
      exact judge_mono (countReadable_mono h children) hreadable

theorem countReadable_mono
    (h : ∀ g, members.any (fun m => m.guid = g ∧ m.present.isSome) = true →
      members'.any (fun m => m.guid = g ∧ m.present.isSome) = true) :
    ∀ trees : List VdevNode, countReadable members trees ≤ countReadable members' trees
  | [] => Nat.le_refl _
  | tree :: trees => by
    have hrest := countReadable_mono h trees
    have htree := nodeReadable_mono h tree
    rw [countReadable, countReadable]
    by_cases hreadable : nodeReadable members tree = true
    · rw [if_pos hreadable, if_pos (htree hreadable)]
      omega
    · rw [if_neg hreadable]
      omega

end

end Readable

/-- `p'` holds what `p` holds, and is the same pool otherwise. -/
structure Below (p p' : PoolAssembly) : Prop where
  keeps : ∀ s d, p.holder s = some d → p'.holder s = some d
  named : ∀ s, (p'.memberAt s).map (fun m => (m.guid, m.path)) =
    (p.memberAt s).map (fun m => (m.guid, m.path))
  tops : p'.tops.map (fun top => { top with members := [] }) =
    p.tops.map (fun top => { top with members := [] })

namespace Below

theorem refl (p : PoolAssembly) : Below p p := ⟨fun _ _ h => h, fun _ => rfl, rfl⟩

theorem trans (h : Below p p') (h' : Below p' p'') : Below p p'' where
  keeps := fun s d hs => h'.keeps s d (h.keeps s d hs)
  named := fun s => (h'.named s).trans (h.named s)
  tops := h'.tops.trans h.tops

theorem top (h : Below p p') (t : Nat) :
    p'.tops[t]?.map (fun top => { top with members := [] }) =
      p.tops[t]?.map (fun top => { top with members := [] }) := by
  rw [← List.getElem?_map, ← List.getElem?_map, h.tops]

/-- A leaf of a top that is there is there in the other. -/
theorem present (h : Below p p') {t : Nat} {top top' : TopVdev}
    (htop : p.tops[t]? = some top) (htop' : p'.tops[t]? = some top') (g : Nat)
    (hany : top.members.any (fun m => m.guid = g ∧ m.present.isSome) = true) :
    top'.members.any (fun m => m.guid = g ∧ m.present.isSome) = true := by
  simp only [List.any_eq_true, decide_eq_true_iff] at hany ⊢
  obtain ⟨m, hm, hguid, hpresent⟩ := hany
  obtain ⟨i, hi⟩ := List.mem_iff_getElem?.mp hm
  obtain ⟨d, hd⟩ := Option.isSome_iff_exists.mp hpresent
  have hat : p.memberAt (t, i) = some m := by
    rw [PoolAssembly.memberAt, htop, Option.bind_some, hi]
  have hholder : p'.holder (t, i) = some d := by
    apply h.keeps
    rw [PoolAssembly.holder, hat, Option.bind_some, hd]
  have hnamed := h.named (t, i)
  rw [hat] at hnamed
  cases hat' : p'.memberAt (t, i) with
  | none => simp [hat'] at hnamed
  | some m' =>
    rw [hat', Option.map_some, Option.map_some, Option.some.injEq, Prod.mk.injEq] at hnamed
    rw [PoolAssembly.holder, hat', Option.bind_some] at hholder
    rw [PoolAssembly.memberAt, htop', Option.bind_some] at hat'
    exact ⟨m', List.mem_of_getElem? hat', hnamed.1.trans hguid, by simp [hholder]⟩

theorem topReadable (h : Below p p') {t : Nat} (hreadable : p.topReadable t = true) :
    p'.topReadable t = true := by
  have hsame := h.top t
  unfold PoolAssembly.topReadable at hreadable ⊢
  cases htop : p.tops[t]? with
  | none => simp [htop] at hreadable
  | some top =>
    cases htop' : p'.tops[t]? with
    | none => simp [htop, htop'] at hsame
    | some top' =>
      rw [htop, htop', Option.map_some, Option.map_some, Option.some.injEq,
        TopVdev.mk.injEq] at hsame
      rw [htop, Option.any_some, TopVdev.readable] at hreadable
      rw [Option.any_some, TopVdev.readable, hsame.2.2.2.2.2.2.2]
      exact nodeReadable_mono (h.present htop htop') _ hreadable

end Below

theorem Filled.below (h : Filled p filled p') : Below p p' :=
  ⟨fun _ _ => h.fills.keeps, h.named, h.tops⟩

theorem Filled.missingTops (h : Filled p filled p') : p'.missingTops = p.missingTops := by
  have hids : p'.tops.map TopVdev.id = p.tops.map TopVdev.id := by
    have := congrArg (List.map TopVdev.id) h.tops
    simpa [Function.comp_def] using this
  have hany : ∀ id, p'.tops.any (fun t => t.id = id) = p.tops.any (fun t => t.id = id) := by
    intro id
    have := congrArg (List.any · (fun i => i = id)) hids
    simpa [List.any_map, Function.comp_def] using this
  have hothers := h.others
  simp only [PoolAssembly.mk.injEq] at hothers
  unfold PoolAssembly.missingTops
  simp only [hany, hothers]

/-- What could be read still can. -/
theorem Filled.readable (h : Filled p filled p') (hreadable : p.readable = true) :
    p'.readable = true := by
  rw [PoolAssembly.readable, Bool.and_eq_true] at hreadable ⊢
  refine ⟨h.missingTops ▸ hreadable.1, List.all_eq_true.mpr (fun top' htop' => ?_)⟩
  obtain ⟨t, ht⟩ := List.mem_iff_getElem?.mp htop'
  have hsame := h.below.top t
  rw [ht] at hsame
  cases htop : p.tops[t]? with
  | none => simp [htop] at hsame
  | some top =>
    have hall := List.all_eq_true.mp hreadable.2 top (List.mem_of_getElem? htop)
    have hstill : p'.topReadable t = true := by
      apply h.below.topReadable
      rw [PoolAssembly.topReadable, htop]
      exact hall
    rwa [PoolAssembly.topReadable, ht] at hstill

end Runs

end Topology
end ZvolRescue
