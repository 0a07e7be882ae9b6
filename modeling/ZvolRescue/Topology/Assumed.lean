import ZvolRescue.Extract.Dump
import ZvolRescue.Topology.Trial

/-!
# Members asserted into a pool

A member whose labels are gone is put into a vacant leaf on the operator's word: the leaf that is
named, or the one that the pool reads as.  A run that succeeds fills vacant leaves of one pool,
one for each assertion, and touches nothing else; it blames the evidence only where there were
fewer leaves to fill than members asserted (`bindAssumed_spec`).
-/

namespace ZvolRescue
namespace Topology

open Lib Ondisk Scan Dmu
open ZvolRescue.Extract (Exit.usage Exit.evidence)

/-- The pools that are short of a leaf, by their places. -/
def takers (pools : List PoolAssembly) : List Nat :=
  (pools.zipIdx.filter (fun p => !p.1.vacantLeaves.isEmpty)).map Prod.snd

/-- The first pool that is short of a whole top-level vdev, and the vdevs that nothing describes. -/
def poolMissingAWholeTop (pools : List PoolAssembly) : Option (String × List Nat) :=
  pools.findSome? (fun p => if p.missingTops.isEmpty then none else some (p.name, p.missingTops))

section Assertions

variable {π δ : Type} [DecidableEq π] (sizeOf : δ → Nat) (zeros : Nat → δ)
  (newReader : PoolAssembly → List (Option δ) → List Nat → PoolReader Id)
  (scans : List (Option DeviceScan)) (devices : List (Option δ))

/-- Put a device into the leaf that is named, or into the one that it reads as: the pool and the
bases then.  There is no answer where the source stops. -/
def placeMember (device : Nat) (guid : Option Nat) (pool : PoolAssembly) (bases : List Nat) :
    Option (Except Nat (PoolAssembly × List Nat)) :=
  match guid with
  | some g =>
    match pool.bindMember device (some g) with
    | (.ok _, pool) => some (.ok (pool, bases))
    | (.error _, _) => some (.error Exit.usage)
  | none =>
    match bindByReading sizeOf zeros newReader scans pool devices bases device with
    | (.bound b _, pool) => some (.ok (pool, bases.set device b.base))
    | (.ambiguous [], _) => none
    | (.ambiguous (b :: _), pool) =>
      -- Every one of them reads; the first is taken, and the operator is told.
      match pool.bindMember device (some b.guid) with
      | (.ok _, pool) => some (.ok (pool, bases.set device b.base))
      | (.error _, _) => some (.error Exit.usage)
    | (.nothing, _) => some (.error Exit.usage)

/-- Apply every assertion in turn, to the one pool that is short of a leaf. -/
def bindAssumed (paths : List π) : List (π × Option Nat) → List PoolAssembly → List Nat →
    Option (Except Nat (List PoolAssembly × List Nat))
  | [], pools, bases => some (.ok (pools, bases))
  | (path, guid) :: rest, pools, bases =>
    match paths.findIdx? (fun p => p = path) with
    | none => some (.error Exit.usage)
    | some device =>
      match takers pools with
      | [] =>
        some (.error (if pools.isEmpty ∨ (poolMissingAWholeTop pools).isSome then Exit.evidence
          else Exit.usage))
      | [i] =>
        match pools[i]? with
        | none => none
        | some pool =>
          match placeMember sizeOf zeros newReader scans devices device guid pool bases with
          | none => none
          | some (.error code) => some (.error code)
          | some (.ok placed) => bindAssumed paths rest (pools.set i placed.1) placed.2
      | _ :: _ :: _ => some (.error Exit.usage)

end Assertions

/-! ## The pool that is short of a leaf -/

section Takers

variable {pools : List PoolAssembly} {p q : PoolAssembly} {i : Nat}

theorem mem_takers : i ∈ takers pools ↔ ∃ p, pools[i]? = some p ∧ p.vacantLeaves ≠ [] := by
  rw [takers, List.mem_map]
  constructor
  · rintro ⟨⟨p, j⟩, hmem, rfl⟩
    obtain ⟨hin, hvacant⟩ := List.mem_filter.mp hmem
    exact ⟨p, List.mk_mem_zipIdx_iff_getElem?.mp hin, by simpa using hvacant⟩
  · rintro ⟨p, hp, hvacant⟩
    exact ⟨(p, i), List.mem_filter.mpr ⟨List.mk_mem_zipIdx_iff_getElem?.mpr hp,
      by simpa using hvacant⟩, rfl⟩

theorem takers_eq_nil : takers pools = [] ↔ ∀ p ∈ pools, p.vacantLeaves = [] := by
  rw [List.eq_nil_iff_forall_not_mem]
  constructor
  · intro h p hp
    obtain ⟨i, hi⟩ := List.mem_iff_getElem?.mp hp
    by_contra hvacant
    exact h i (mem_takers.mpr ⟨p, hi, hvacant⟩)
  · intro h i hi
    obtain ⟨p, hp, hvacant⟩ := mem_takers.mp hi
    exact hvacant (h p (List.mem_of_getElem? hp))

/-- Another pool in the place of the only one that is short of a leaf. -/
theorem mem_takers_set (h : takers pools = [i]) {j : Nat} (hj : j ∈ takers (pools.set i q)) :
    j = i ∧ (pools.set i q)[j]? = some q := by
  obtain ⟨p, hp, hvacant⟩ := mem_takers.mp hj
  by_cases hij : i = j
  · subst hij
    have hlt : i < pools.length := by
      have hlt' := (List.getElem?_eq_some_iff.mp hp).1
      rwa [List.length_set] at hlt'
    exact ⟨rfl, List.getElem?_set_self hlt⟩
  · rw [List.getElem?_set_ne hij] at hp
    have hother : j ∈ takers pools := mem_takers.mpr ⟨p, hp, hvacant⟩
    rw [h, List.mem_singleton] at hother
    exact absurd hother.symm hij

end Takers

/-! ## One assertion -/

section Assertions

variable {π δ : Type} [DecidableEq π] {sizeOf : δ → Nat} {zeros : Nat → δ}
  {newReader : PoolAssembly → List (Option δ) → List Nat → PoolReader Id}
  {scans : List (Option DeviceScan)} {devices : List (Option δ)}

theorem set_getD (bases : List Nat) (device : Nat) :
    bases.set device (bases.getD device 0) = bases := by
  by_cases hlt : device < bases.length
  · rw [List.getD_eq_getElem bases 0 hlt, List.set_getElem_self]
  · exact List.set_eq_of_length_le (Nat.not_lt.mp hlt)

/-- What one assertion can do: a usage error, or a vacant leaf filled as it was named. -/
theorem placeMember_cases (device : Nat) (guid : Option Nat) (pool : PoolAssembly)
    (bases : List Nat) :
    placeMember sizeOf zeros newReader scans devices device guid pool bases =
        some (.error Exit.usage) ∨
      ∃ s m base, pool.memberAt s = some m ∧ m.present = none ∧
        (∀ g, guid = some g → m.guid = g ∧ base = bases.getD device 0) ∧
        placeMember sizeOf zeros newReader scans devices device guid pool bases =
          some (.ok (pool.occupy s device, bases.set device base)) := by
  cases guid with
  | some g =>
    rcases bindMember_cases pool device (some g) with ⟨e, hrefused⟩ | ⟨s, m, hm, hvacant, hguid, -,
      hbound⟩
    · refine Or.inl ?_
      rw [placeMember, hrefused]
    · refine Or.inr ⟨s, m, bases.getD device 0, hm, hvacant, fun g' hg' => ⟨hguid g' hg', rfl⟩, ?_⟩
      rw [placeMember, hbound, set_getD]
  | none =>
    unfold placeMember bindByReading
    dsimp only
    have hbinds : ∀ b ∈ fitting
          (candidatesFor sizeOf zeros newReader scans pool devices bases device),
        ∃ s m, pool.memberAt s = some m ∧ m.present = none ∧ m.guid = b.guid ∧
          pool.bindMember device (some b.guid) = (.ok b.guid, pool.occupy s device) :=
      fun _ hb => fitting_binds hb
    cases hfits : fitting
        (candidatesFor sizeOf zeros newReader scans pool devices bases device) with
    | nil => exact Or.inl rfl
    | cons b rest =>
      obtain ⟨s, m, hm, hvacant, -, hbound⟩ := hbinds b (hfits ▸ List.mem_cons_self)
      refine Or.inr ⟨s, m, b.base, hm, hvacant, fun g hg => ?_, ?_⟩
      · cases hg
      · by_cases hpick : rest.isEmpty = true ∨ (b :: rest).all (interchangeable pool) = true
        · dsimp only
          rw [if_pos hpick, hbound]
        · dsimp only
          rw [if_neg hpick]
          dsimp only
          rw [hbound]

/-! ## Runs -/

/-- The assertions, each with the leaf that was filled for it. -/
def Answers (paths : List π) (p : PoolAssembly) (assumed : List (π × Option Nat))
    (filled : List (Slot × Nat)) : Prop :=
  List.Forall₂ (fun a x => paths.findIdx? (fun path => path = a.1) = some x.2 ∧
    ∀ g, a.2 = some g → ∃ m, p.memberAt x.1 = some m ∧ m.guid = g) assumed filled

/-- The same GUIDs are at the same places where a pool differs in its devices only. -/
theorem Answers.of_filled {paths : List π} {p q : PoolAssembly} {assumed : List (π × Option Nat)}
    {filled before : List (Slot × Nat)} (h : Answers paths q assumed filled)
    (hq : Filled p before q) : Answers paths p assumed filled := by
  refine h.imp (fun a x hx => ⟨hx.1, fun g hg => ?_⟩)
  obtain ⟨m, hm, hguid⟩ := hx.2 g hg
  have hnamed := hq.named x.1
  rw [hm] at hnamed
  cases hat : p.memberAt x.1 with
  | none => simp [hat] at hnamed
  | some m' =>
    rw [hat, Option.map_some, Option.map_some, Option.some.injEq, Prod.mk.injEq] at hnamed
    exact ⟨m', rfl, hnamed.1.symm.trans hguid⟩

variable (sizeOf zeros newReader scans devices) in
/-- One step of a run: it ends there, or the one pool that is short of a leaf has a leaf less to
fill. -/
theorem bindAssumed_cons (paths : List π) (path : π) (guid : Option Nat)
    (rest : List (π × Option Nat)) (pools : List PoolAssembly) (bases : List Nat) :
    bindAssumed sizeOf zeros newReader scans devices paths ((path, guid) :: rest) pools bases =
        some (.error Exit.usage) ∨
      (bindAssumed sizeOf zeros newReader scans devices paths ((path, guid) :: rest) pools bases =
          some (.error Exit.evidence) ∧
        takers pools = [] ∧ (pools = [] ∨ ∃ p ∈ pools, p.missingTops ≠ [])) ∨
      ∃ device i p s m base, paths.findIdx? (fun p => p = path) = some device ∧
        takers pools = [i] ∧ pools[i]? = some p ∧ p.memberAt s = some m ∧ m.present = none ∧
        (∀ g, guid = some g → m.guid = g ∧ base = bases.getD device 0) ∧
        bindAssumed sizeOf zeros newReader scans devices paths ((path, guid) :: rest) pools bases =
          bindAssumed sizeOf zeros newReader scans devices paths rest
            (pools.set i (p.occupy s device)) (bases.set device base) := by
  rw [bindAssumed]
  cases hpath : paths.findIdx? (fun p => p = path) with
  | none => exact Or.inl rfl
  | some device =>
    cases htakers : takers pools with
    | nil =>
      dsimp only
      by_cases hshort : pools.isEmpty = true ∨ (poolMissingAWholeTop pools).isSome = true
      · rw [if_pos hshort]
        refine Or.inr (Or.inl ⟨rfl, rfl, hshort.imp List.isEmpty_iff.mp (fun hsome => ?_)⟩)
        rw [poolMissingAWholeTop, List.findSome?_isSome_iff] at hsome
        obtain ⟨p, hp, htops⟩ := hsome
        refine ⟨p, hp, fun hnone => ?_⟩
        rw [hnone] at htops
        cases htops
      · rw [if_neg hshort]
        exact Or.inl rfl
    | cons i others =>
      cases others with
      | cons j others => exact Or.inl rfl
      | nil =>
        obtain ⟨p, hp, -⟩ := mem_takers.mp (htakers ▸ List.mem_singleton_self i)
        dsimp only
        rw [hp]
        dsimp only
        rcases placeMember_cases device guid p bases with hrefused | ⟨s, m, base, hm, hvacant,
          hguid, hplaced⟩
        · rw [hrefused]
          exact Or.inl rfl
        · rw [hplaced]
          exact Or.inr (Or.inr ⟨device, i, p, s, m, base, rfl, rfl, hp, hm, hvacant, hguid, rfl⟩)

variable (sizeOf zeros newReader scans devices) in
/-- The whole run.  By induction on the assertions, of which each fills a leaf of the pool that the
one before it left. -/
theorem bindAssumed_run (paths : List π) (assumed : List (π × Option Nat))
    (pools : List PoolAssembly) (bases : List Nat) :
    (∃ pools' bases', bindAssumed sizeOf zeros newReader scans devices paths assumed pools bases =
        some (.ok (pools', bases')) ∧
      (assumed = [] ∧ pools' = pools ∨ ∃ i p p' filled, takers pools = [i] ∧ pools[i]? = some p ∧
        pools' = pools.set i p' ∧ Filled p filled p' ∧ Answers paths p assumed filled) ∧
      ∀ d, bases'[d]? ≠ bases[d]? →
        ∃ a ∈ assumed, a.2 = none ∧ paths.findIdx? (fun p => p = a.1) = some d) ∨
    bindAssumed sizeOf zeros newReader scans devices paths assumed pools bases =
      some (.error Exit.usage) ∨
    (bindAssumed sizeOf zeros newReader scans devices paths assumed pools bases =
        some (.error Exit.evidence) ∧
      (takers pools).length ≤ 1 ∧ (∀ p ∈ pools, p.vacantLeaves.length < assumed.length) ∧
      (pools = [] ∨ ∃ p ∈ pools, p.missingTops ≠ [])) := by
  induction assumed generalizing pools bases with
  | nil =>
    exact Or.inl ⟨pools, bases, rfl, Or.inl ⟨rfl, rfl⟩, fun d hd => absurd rfl hd⟩
  | cons a rest ih =>
    obtain ⟨path, guid⟩ := a
    rcases bindAssumed_cons sizeOf zeros newReader scans devices paths path guid rest pools
      bases with hend | ⟨hend, hnone, hshort⟩ |
        ⟨device, i, p, s, m, base, hpath, htakers, hp, hm, hvacant, hguid, hnext⟩
    · exact Or.inr (Or.inl hend)
    · refine Or.inr (Or.inr ⟨hend, by rw [hnone]; exact Nat.zero_le 1, fun p hp => ?_, hshort⟩)
      rw [takers_eq_nil.mp hnone p hp]
      exact Nat.succ_pos _
    · rw [hnext]
      have hfilled : Filled p [(s, device)] (p.occupy s device) := (Filled.refl _).cons hm hvacant
      have hnamed : ∀ g, guid = some g → ∃ m, p.memberAt s = some m ∧ m.guid = g :=
        fun g hg => ⟨m, hm, (hguid g hg).1⟩
      rcases ih (pools.set i (p.occupy s device)) (bases.set device base) with
        ⟨pools', bases', hend, hcases, hbases⟩ | hend | ⟨hend, -, hfew, hshort⟩
      · refine Or.inl ⟨pools', bases', hend, Or.inr ?_, fun d hd => ?_⟩
        · rcases hcases with ⟨rfl, rfl⟩ | ⟨j, q, p', filled, hj, hq, rfl, hfilled', hanswers⟩
          · exact ⟨i, p, _, _, htakers, hp, rfl, hfilled, .cons ⟨hpath, hnamed⟩ .nil⟩
          · obtain ⟨rfl, hself⟩ := mem_takers_set htakers (hj ▸ List.mem_singleton_self j)
            obtain rfl := Option.some.inj (hself.symm.trans hq)
            exact ⟨j, p, p', (s, device) :: filled, htakers, hp, List.set_set _,
              hfilled'.cons hm hvacant, .cons ⟨hpath, hnamed⟩ (hanswers.of_filled hfilled)⟩
        · by_cases hrest : bases'[d]? = (bases.set device base)[d]?
          · rw [hrest] at hd
            refine ⟨(path, guid), List.mem_cons_self, ?_, ?_⟩
            · cases guid with
              | none => rfl
              | some g =>
                rw [(hguid g rfl).2, set_getD] at hd
                exact absurd rfl hd
            · by_cases hdevice : device = d
              · exact hdevice ▸ hpath
              · rw [List.getElem?_set_ne hdevice] at hd
                exact absurd rfl hd
          · obtain ⟨a, ha, hread⟩ := hbases d hrest
            exact ⟨a, List.mem_cons_of_mem _ ha, hread⟩
      · exact Or.inr (Or.inl hend)
      · refine Or.inr (Or.inr ⟨hend, by rw [htakers]; exact Nat.le_refl 1, fun p' hp' => ?_, ?_⟩)
        · obtain ⟨j, hj⟩ := List.mem_iff_getElem?.mp hp'
          by_cases hij : i = j
          · subst hij
            obtain rfl := Option.some.inj (hp.symm.trans hj)
            have hlt := (List.getElem?_eq_some_iff.mp hp).1
            have hone := hfilled.vacantLeaves_length
            have hleft := hfew _ (List.mem_of_getElem? (List.getElem?_set_self hlt))
            rw [List.length_singleton] at hone
            rw [List.length_cons]
            omega
          · rw [← List.getElem?_set_ne hij] at hj
            exact Nat.lt_succ_of_lt (hfew _ (List.mem_of_getElem? hj))
        · refine Or.inr ?_
          rcases hshort with hempty | ⟨q, hq, hmissing⟩
          · rw [List.set_eq_nil_iff] at hempty
            rw [hempty] at hp
            cases hp
          · rcases List.mem_or_eq_of_mem_set hq with hq | rfl
            · exact ⟨q, hq, hmissing⟩
            · exact ⟨p, List.mem_of_getElem? hp, hfilled.missingTops ▸ hmissing⟩

/-- A run that succeeds fills a vacant leaf of the one pool that is short of any for each assertion,
that of the GUID where one was named; every other leaf and every other pool is as it was, and only
the bases of members without a GUID change.  The evidence is at fault only where fewer leaves were
vacant than members were asserted, in pools that lack a whole vdev or are not there at all. -/
theorem bindAssumed_spec (sizeOf : δ → Nat) (zeros : Nat → δ)
    (newReader : PoolAssembly → List (Option δ) → List Nat → PoolReader Id)
    (scans : List (Option DeviceScan)) (devices : List (Option δ)) (paths : List π)
    (assumed : List (π × Option Nat)) (pools : List PoolAssembly) (bases : List Nat) :
    (∃ pools' bases', bindAssumed sizeOf zeros newReader scans devices paths assumed pools bases =
        some (.ok (pools', bases')) ∧
      (assumed = [] ∧ pools' = pools ∨ ∃ i p p' filled, takers pools = [i] ∧ pools[i]? = some p ∧
        pools' = pools.set i p' ∧ Filled p filled p' ∧ Answers paths p assumed filled ∧
        (filled.map Prod.fst).Nodup ∧
        p'.vacantLeaves.length + assumed.length = p.vacantLeaves.length ∧
        (p.readable = true → p'.readable = true)) ∧
      ∀ d, bases'[d]? ≠ bases[d]? →
        ∃ a ∈ assumed, a.2 = none ∧ paths.findIdx? (fun p => p = a.1) = some d) ∨
    bindAssumed sizeOf zeros newReader scans devices paths assumed pools bases =
      some (.error Exit.usage) ∨
    (bindAssumed sizeOf zeros newReader scans devices paths assumed pools bases =
        some (.error Exit.evidence) ∧
      (takers pools).length ≤ 1 ∧ (∀ p ∈ pools, p.vacantLeaves.length < assumed.length) ∧
      (pools = [] ∨ ∃ p ∈ pools, p.missingTops ≠ [])) := by
  rcases bindAssumed_run sizeOf zeros newReader scans devices paths assumed pools bases with
    ⟨pools', bases', hend, hcases, hbases⟩ | hend | hend
  · refine Or.inl ⟨pools', bases', hend, hcases.imp_right ?_, hbases⟩
    rintro ⟨i, p, p', filled, htakers, hp, hpools, hfilled, hanswers⟩
    have hcount : assumed.length = filled.length := hanswers.length_eq
    exact ⟨i, p, p', filled, htakers, hp, hpools, hfilled, hanswers, hfilled.fills.nodup,
      hcount ▸ hfilled.vacantLeaves_length, hfilled.readable⟩
  · exact Or.inr (Or.inl hend)
  · exact Or.inr (Or.inr hend)

end Assertions

end Topology
end ZvolRescue
