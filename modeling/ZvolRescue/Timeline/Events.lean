import ZvolRescue.Dsl.Dataset
import ZvolRescue.Lib.Keyed

/-!
# What changed between two transaction groups

`diff` compares two lists of datasets by GUID.  Each list is put into a map first, so of the
datasets that share a GUID only the last one counts.  Where those differ in what is compared, the
events depend on the order of the lists and say nothing of the others (`diff_tells_iff`).
-/

namespace ZvolRescue
namespace Timeline

open Lib
open Dsl (Dataset)

inductive Kind where
  | created
  | snapshot
  | clone
  | renamed
  | destroyed
  | snapshotDestroyed
  | property
  | host
  | pending
  | unreadable
  deriving DecidableEq, Ord, Repr

/-- One line of the history. -/
structure Event where
  /-- The transaction group the change was first visible at. -/
  txg : Nat
  time : Option Nat
  kind : Kind
  object : Option String
  guid : Nat
  details : String
  /-- For a destroyed object, the last transaction group that still had it. -/
  lastSeenTxg : Option Nat
  deriving DecidableEq, Repr

def Event.order (a b : Event) : Ordering :=
  (compare a.txg b.txg).then ((compare a.kind b.kind).then
    ((compare a.guid b.guid).then (compare a.object b.object)))

def sort (events : List Event) : List Event := events.mergeSort (fun a b => (a.order b).isLE)

/-- What about a dataset is worth reporting a change to. -/
def describe (d : Dataset) : String :=
  " ".intercalate
    ((match d.volsize with
      | some v => [s!"volsize {v}"]
      | none => []) ++
    (match d.volblocksize with
      | some b => [s!"volblocksize {b}"]
      | none => []) ++
    (match d.encryption with
      | some e => [s!"encryption {e.suiteName}"]
      | none => []))

/-- What a dataset was when it first appeared. -/
def appearedAs (d : Dataset) : Kind :=
  if d.snapshot then .snapshot else if d.clone then .clone else .created

section Diff

variable (txg : Nat) (time : Option Nat)

def appeared (guid : Nat) (d : Dataset) : Event :=
  { txg, time, kind := appearedAs d, object := some d.name, guid, details := describe d
    lastSeenTxg := none }

def renamed (guid : Nat) (was d : Dataset) : Event :=
  { txg, time, kind := .renamed, object := some d.name, guid, details := s!"was {was.name}"
    lastSeenTxg := none }

def propertyChanged (guid : Nat) (was d : Dataset) : Event :=
  { txg, time, kind := .property, object := some d.name, guid
    details := s!"{describe was} -> {describe d}", lastSeenTxg := none }

def gone (guid : Nat) (d : Dataset) : Event :=
  { txg, time, kind := if d.snapshot then .snapshotDestroyed else .destroyed
    object := some d.name, guid, details := describe d, lastSeenTxg := none }

/-- What is reported of a GUID that is in the later list. -/
def present (guid : Nat) : (was now : Option Dataset) → List Event
  | _, none => []
  | none, some d => [appeared txg time guid d]
  | some was, some d =>
    (if was.name ≠ d.name then [renamed txg time guid was d] else []) ++
    (if describe was ≠ describe d then [propertyChanged txg time guid was d] else [])

/-- What is reported of a GUID that is in the earlier list. -/
def absent (guid : Nat) : (was now : Option Dataset) → List Event
  | some d, none => [gone txg time guid d]
  | _, _ => []

/-- Compare the datasets at `before` with those at `after`. -/
def diff (before after : List Dataset) : List Event :=
  let old := lastOf Dataset.guid before
  let new := lastOf Dataset.guid after
  sort
    ((sortedKeys Dataset.guid after).flatMap
        (fun guid => present txg time guid (old guid) (new guid)) ++
      (sortedKeys Dataset.guid before).flatMap
        (fun guid => absent txg time guid (old guid) (new guid)))

/-! ## What a comparison should tell -/

/-- The events are the same in every order of the lists, nothing that came or went is left out,
and a list does not differ from itself. -/
structure Tells (before after : List Dataset) : Prop where
  orderFree : ∀ before' after', before'.Perm before → after'.Perm after →
    diff txg time before' after' = diff txg time before after
  came : ∀ d ∈ after, (∀ b ∈ before, b.guid = d.guid → b.name ≠ d.name) →
    ∃ e ∈ diff txg time before after, e.guid = d.guid ∧ e.object = some d.name ∧
      (e.kind = .created ∨ e.kind = .clone ∨ e.kind = .snapshot ∨ e.kind = .renamed)
  went : ∀ b ∈ before, (∀ d ∈ after, d.guid = b.guid → d.name ≠ b.name) →
    ∃ e ∈ diff txg time before after, e.guid = b.guid ∧
      (e.object = some b.name ∧ (e.kind = .destroyed ∨ e.kind = .snapshotDestroyed) ∨
        e.kind = .renamed ∧ e.details = s!"was {b.name}")
  stayed : ∀ l, l = before ∨ l = after → ∀ l', l'.Perm l → diff txg time l l' = []

end Diff

/-- Datasets of one GUID have one name and one description. -/
def Agree (l : List Dataset) : Prop :=
  ∀ a ∈ l, ∀ b ∈ l, a.guid = b.guid → a.name = b.name ∧ describe a = describe b

/-- Datasets of one GUID do not differ in what is compared. -/
structure Consistent (before after : List Dataset) : Prop where
  earlier : Agree before
  later : Agree after
  came : ∀ a ∈ after, ∀ b ∈ after, a.guid = b.guid → (∀ d ∈ before, d.guid ≠ a.guid) →
    appearedAs a = appearedAs b
  went : ∀ a ∈ before, ∀ b ∈ before, a.guid = b.guid → (∀ d ∈ after, d.guid ≠ a.guid) →
    a.snapshot = b.snapshot

/-! ## The events of one GUID -/

section Proofs

variable {txg : Nat} {time : Option Nat} {before after : List Dataset}

theorem mem_present {guid : Nat} {was now : Option Dataset} {e : Event}
    (h : e ∈ present txg time guid was now) :
    (∃ d, was = none ∧ now = some d ∧ e = appeared txg time guid d) ∨
      ∃ b d, was = some b ∧ now = some d ∧
        (e = renamed txg time guid b d ∨ e = propertyChanged txg time guid b d) := by
  rcases now with _ | d
  · cases was <;> cases h
  · rcases was with _ | b
    · exact Or.inl ⟨d, rfl, rfl, List.mem_singleton.mp h⟩
    · refine Or.inr ⟨b, d, rfl, rfl, ?_⟩
      rw [present, List.mem_append] at h
      rcases h with h | h
      · by_cases hname : b.name = d.name
        · simp [hname] at h
        · rw [if_pos hname] at h
          exact Or.inl (List.mem_singleton.mp h)
      · by_cases hdescribe : describe b = describe d
        · simp [hdescribe] at h
        · rw [if_pos hdescribe] at h
          exact Or.inr (List.mem_singleton.mp h)

theorem mem_absent {guid : Nat} {was now : Option Dataset} {e : Event}
    (h : e ∈ absent txg time guid was now) :
    ∃ b, was = some b ∧ now = none ∧ e = gone txg time guid b := by
  rcases was with _ | b <;> rcases now with _ | d
  · cases h
  · cases h
  · exact ⟨b, rfl, rfl, List.mem_singleton.mp h⟩
  · cases h

theorem present_txg {guid : Nat} {was now : Option Dataset} {e : Event}
    (h : e ∈ present txg time guid was now) : e.txg = txg ∧ e.guid = guid := by
  rcases mem_present h with ⟨d, -, -, rfl⟩ | ⟨b, d, -, -, rfl | rfl⟩ <;> exact ⟨rfl, rfl⟩

theorem absent_txg {guid : Nat} {was now : Option Dataset} {e : Event}
    (h : e ∈ absent txg time guid was now) : e.txg = txg ∧ e.guid = guid := by
  obtain ⟨b, -, -, rfl⟩ := mem_absent h
  exact ⟨rfl, rfl⟩

/-- An event of a GUID is told by the last datasets of that GUID. -/
theorem mem_diff {e : Event} : e ∈ diff txg time before after ↔
    e ∈ present txg time e.guid (lastOf Dataset.guid before e.guid)
        (lastOf Dataset.guid after e.guid) ∨
      e ∈ absent txg time e.guid (lastOf Dataset.guid before e.guid)
        (lastOf Dataset.guid after e.guid) := by
  rw [diff, sort, List.mem_mergeSort, List.mem_append, List.mem_flatMap, List.mem_flatMap]
  constructor
  · rintro (⟨guid, -, he⟩ | ⟨guid, -, he⟩)
    · have hguid := (present_txg he).2
      subst hguid
      exact Or.inl he
    · have hguid := (absent_txg he).2
      subst hguid
      exact Or.inr he
  · rintro (he | he)
    · refine Or.inl ⟨e.guid, ?_, he⟩
      rcases mem_present he with ⟨d, -, hnow, -⟩ | ⟨b, d, -, hnow, -⟩
      · exact mem_sortedKeys.mpr ⟨d, mem_of_lastOf hnow⟩
      · exact mem_sortedKeys.mpr ⟨d, mem_of_lastOf hnow⟩
    · obtain ⟨b, hwas, -, -⟩ := mem_absent he
      exact Or.inr ⟨e.guid, mem_sortedKeys.mpr ⟨b, mem_of_lastOf hwas⟩, he⟩

theorem present_eq_nil {guid : Nat} {was now : Dataset} :
    present txg time guid (some was) (some now) = [] ↔
      was.name = now.name ∧ describe was = describe now := by
  simp [present]

/-- A list in another order has, for each GUID, a last dataset where it has one. -/
theorem lastOf_perm_cases {l l' : List Dataset} (hperm : l'.Perm l) (guid : Nat) :
    (lastOf Dataset.guid l' guid = none ∧ lastOf Dataset.guid l guid = none) ∨
      ∃ a' ∈ l, ∃ a ∈ l, a'.guid = guid ∧ a.guid = guid ∧
        lastOf Dataset.guid l' guid = some a' ∧ lastOf Dataset.guid l guid = some a := by
  cases hlast : lastOf Dataset.guid l guid with
  | none => exact Or.inl ⟨lastOf_none_perm hperm.symm hlast, rfl⟩
  | some a =>
    obtain ⟨ha, rfl⟩ := mem_of_lastOf hlast
    obtain ⟨a', hlast'⟩ := exists_lastOf Dataset.guid (hperm.mem_iff.mpr ha)
    obtain ⟨ha', hguid⟩ := mem_of_lastOf hlast'
    exact Or.inr ⟨a', hperm.mem_iff.mp ha', a, ha, hguid, rfl, hlast', rfl⟩

theorem diff_eq_nil : diff txg time before after = [] ↔ ∀ guid,
    present txg time guid (lastOf Dataset.guid before guid) (lastOf Dataset.guid after guid) = [] ∧
      absent txg time guid (lastOf Dataset.guid before guid) (lastOf Dataset.guid after guid) =
        [] := by
  constructor
  · intro hnil guid
    constructor
    · refine List.eq_nil_iff_forall_not_mem.mpr (fun e he => ?_)
      have hguid := (present_txg he).2
      subst hguid
      have hmem := mem_diff.mpr (Or.inl he)
      rw [hnil] at hmem
      cases hmem
    · refine List.eq_nil_iff_forall_not_mem.mpr (fun e he => ?_)
      have hguid := (absent_txg he).2
      subst hguid
      have hmem := mem_diff.mpr (Or.inr he)
      rw [hnil] at hmem
      cases hmem
  · intro hnil
    refine List.eq_nil_iff_forall_not_mem.mpr (fun e he => ?_)
    rcases mem_diff.mp he with he | he
    · rw [(hnil e.guid).1] at he
      cases he
    · rw [(hnil e.guid).2] at he
      cases he

/-! ## From consistent lists to what is told -/

/-- A list whose datasets agree does not differ from itself in another order. -/
theorem Agree.stayed {l l' : List Dataset} (h : Agree l) (hperm : l'.Perm l) :
    diff txg time l l' = [] := by
  refine diff_eq_nil.mpr (fun guid => ?_)
  rcases lastOf_perm_cases hperm guid with ⟨hnow, hwas⟩ |
    ⟨a', ha', a, ha, hguid', hguid, hnow, hwas⟩
  · rw [hnow, hwas]
    exact ⟨rfl, rfl⟩
  · rw [hnow, hwas]
    exact ⟨present_eq_nil.mpr (h a ha a' ha' (hguid.trans hguid'.symm)), rfl⟩

namespace Consistent

variable (h : Consistent before after)

include h

theorem present_perm {before' after' : List Dataset} (hbefore : before'.Perm before)
    (hafter : after'.Perm after) (guid : Nat) :
    present txg time guid (lastOf Dataset.guid before' guid) (lastOf Dataset.guid after' guid) =
      present txg time guid (lastOf Dataset.guid before guid) (lastOf Dataset.guid after guid) := by
  rcases lastOf_perm_cases hafter guid with ⟨hnow', hnow⟩ |
    ⟨d', hd', d, hd, hguid', hguid, hnow', hnow⟩
  · rw [hnow', hnow]
    rcases lastOf_perm_cases hbefore guid with ⟨hwas', hwas⟩ | ⟨a', -, a, -, -, -, hwas', hwas⟩
    · rw [hwas', hwas]
    · rw [hwas', hwas]
      rfl
  · obtain ⟨hname, hdescribe⟩ := h.later d' hd' d hd (hguid'.trans hguid.symm)
    rw [hnow', hnow]
    rcases lastOf_perm_cases hbefore guid with ⟨hwas', hwas⟩ |
      ⟨a', ha', a, ha, haguid', haguid, hwas', hwas⟩
    · have hkind := h.came d' hd' d hd (hguid'.trans hguid.symm)
        (fun b hb => hguid' ▸ lastOf_eq_none.mp hwas b hb)
      rw [hwas', hwas]
      simp [present, appeared, hname, hdescribe, hkind]
    · obtain ⟨haname, hadescribe⟩ := h.earlier a' ha' a ha (haguid'.trans haguid.symm)
      rw [hwas', hwas]
      simp [present, renamed, propertyChanged, hname, hdescribe, haname, hadescribe]

theorem absent_perm {before' after' : List Dataset} (hbefore : before'.Perm before)
    (hafter : after'.Perm after) (guid : Nat) :
    absent txg time guid (lastOf Dataset.guid before' guid) (lastOf Dataset.guid after' guid) =
      absent txg time guid (lastOf Dataset.guid before guid) (lastOf Dataset.guid after guid) := by
  rcases lastOf_perm_cases hbefore guid with ⟨hwas', hwas⟩ |
    ⟨a', ha', a, ha, haguid', haguid, hwas', hwas⟩
  · rw [hwas', hwas]
    rfl
  · obtain ⟨hname, hdescribe⟩ := h.earlier a' ha' a ha (haguid'.trans haguid.symm)
    rw [hwas', hwas]
    rcases lastOf_perm_cases hafter guid with ⟨hnow', hnow⟩ | ⟨d', -, d, -, -, -, hnow', hnow⟩
    · have hkind := h.went a' ha' a ha (haguid'.trans haguid.symm)
        (fun b hb => haguid' ▸ lastOf_eq_none.mp hnow b hb)
      rw [hnow', hnow]
      simp [absent, gone, hname, hdescribe, hkind]
    · rw [hnow', hnow]
      rfl

theorem diff_perm {before' after' : List Dataset} (hbefore : before'.Perm before)
    (hafter : after'.Perm after) :
    diff txg time before' after' = diff txg time before after := by
  simp only [diff, sortedKeys_perm hbefore, sortedKeys_perm hafter, h.present_perm hbefore hafter,
    h.absent_perm hbefore hafter]

theorem told_came {d : Dataset} (hd : d ∈ after)
    (hnew : ∀ b ∈ before, b.guid = d.guid → b.name ≠ d.name) :
    ∃ e ∈ diff txg time before after, e.guid = d.guid ∧ e.object = some d.name ∧
      (e.kind = .created ∨ e.kind = .clone ∨ e.kind = .snapshot ∨ e.kind = .renamed) := by
  obtain ⟨d', hlast⟩ := exists_lastOf Dataset.guid hd
  obtain ⟨hd', hguid⟩ := mem_of_lastOf hlast
  obtain ⟨hname, -⟩ := h.later d' hd' d hd hguid
  cases hwas : lastOf Dataset.guid before d.guid with
  | none =>
    refine ⟨appeared txg time d.guid d', mem_diff.mpr (Or.inl ?_), rfl, ?_, ?_⟩
    · show _ ∈ present txg time d.guid (lastOf Dataset.guid before d.guid)
        (lastOf Dataset.guid after d.guid)
      rw [hwas, hlast]
      exact List.mem_singleton_self _
    · show some d'.name = _
      rw [hname]
    · show appearedAs d' = _ ∨ appearedAs d' = _ ∨ appearedAs d' = _ ∨ appearedAs d' = _
      rw [appearedAs]
      cases d'.snapshot <;> cases d'.clone <;> simp
  | some b =>
    obtain ⟨hb, hbguid⟩ := mem_of_lastOf hwas
    have hne : b.name ≠ d'.name := hname ▸ hnew b hb hbguid
    refine ⟨renamed txg time d.guid b d', mem_diff.mpr (Or.inl ?_), rfl, ?_, ?_⟩
    · show _ ∈ present txg time d.guid (lastOf Dataset.guid before d.guid)
        (lastOf Dataset.guid after d.guid)
      rw [hwas, hlast, present, if_pos hne]
      exact List.mem_append_left _ (List.mem_singleton_self _)
    · show some d'.name = _
      rw [hname]
    · exact Or.inr (Or.inr (Or.inr rfl))

theorem told_went {b : Dataset} (hb : b ∈ before)
    (hold : ∀ d ∈ after, d.guid = b.guid → d.name ≠ b.name) :
    ∃ e ∈ diff txg time before after, e.guid = b.guid ∧
      (e.object = some b.name ∧ (e.kind = .destroyed ∨ e.kind = .snapshotDestroyed) ∨
        e.kind = .renamed ∧ e.details = s!"was {b.name}") := by
  obtain ⟨b', hlast⟩ := exists_lastOf Dataset.guid hb
  obtain ⟨hb', hguid⟩ := mem_of_lastOf hlast
  obtain ⟨hname, -⟩ := h.earlier b' hb' b hb hguid
  cases hnow : lastOf Dataset.guid after b.guid with
  | none =>
    refine ⟨gone txg time b.guid b', mem_diff.mpr (Or.inr ?_), rfl, Or.inl ⟨?_, ?_⟩⟩
    · show _ ∈ absent txg time b.guid (lastOf Dataset.guid before b.guid)
        (lastOf Dataset.guid after b.guid)
      rw [hlast, hnow]
      exact List.mem_singleton_self _
    · show some b'.name = _
      rw [hname]
    · rw [gone]
      cases b'.snapshot <;> simp
  | some d =>
    obtain ⟨hd, hdguid⟩ := mem_of_lastOf hnow
    have hne : b'.name ≠ d.name := hname ▸ (hold d hd hdguid).symm
    refine ⟨renamed txg time b.guid b' d, mem_diff.mpr (Or.inl ?_), rfl, Or.inr ⟨rfl, ?_⟩⟩
    · show _ ∈ present txg time b.guid (lastOf Dataset.guid before b.guid)
        (lastOf Dataset.guid after b.guid)
      rw [hlast, hnow, present, if_pos hne]
      exact List.mem_append_left _ (List.mem_singleton_self _)
    · simp [renamed, hname]

theorem tells : Tells txg time before after where
  orderFree _ _ hbefore hafter := h.diff_perm hbefore hafter
  came _ hd hnew := h.told_came hd hnew
  went _ hb hold := h.told_went hb hold
  stayed := by
    rintro l (rfl | rfl) l' hperm
    · exact h.earlier.stayed hperm
    · exact h.later.stayed hperm

end Consistent

/-! ## From what is told to consistent lists -/

/-- A list that never differs from itself has datasets that agree. -/
theorem agree_of_stayed {l : List Dataset}
    (h : ∀ l', l'.Perm l → diff txg time l l' = []) : Agree l := by
  have hsame : ∀ a ∈ l, ∀ c, lastOf Dataset.guid l a.guid = some c →
      c.name = a.name ∧ describe c = describe a := by
    intro a ha c hc
    obtain ⟨l', hperm, hlast⟩ := exists_perm_lastOf Dataset.guid ha
    have hnil := (diff_eq_nil.mp (h l' hperm) a.guid).1
    rw [hc, hlast] at hnil
    exact present_eq_nil.mp hnil
  intro a ha b hb hguid
  obtain ⟨c, hc⟩ := exists_lastOf Dataset.guid ha
  obtain ⟨haname, hadescribe⟩ := hsame a ha c hc
  obtain ⟨hbname, hbdescribe⟩ := hsame b hb c (hguid ▸ hc)
  exact ⟨haname.symm.trans hbname, hadescribe.symm.trans hbdescribe⟩

namespace Tells

variable (h : Tells txg time before after)

include h

theorem kind_of_came {a b : Dataset} (ha : a ∈ after) (hb : b ∈ after) (hguid : a.guid = b.guid)
    (hnew : ∀ d ∈ before, d.guid ≠ a.guid) : appearedAs a = appearedAs b := by
  obtain ⟨la, hpa, hlasta⟩ := exists_perm_lastOf Dataset.guid ha
  obtain ⟨lb, hpb, hlastb⟩ := exists_perm_lastOf Dataset.guid hb
  have hwas : lastOf Dataset.guid before a.guid = none := lastOf_eq_none.mpr hnew
  have hmem : appeared txg time a.guid a ∈ diff txg time before la := by
    refine mem_diff.mpr (Or.inl ?_)
    show _ ∈ present txg time a.guid (lastOf Dataset.guid before a.guid)
      (lastOf Dataset.guid la a.guid)
    rw [hwas, hlasta]
    exact List.mem_singleton_self _
  rw [h.orderFree before la (List.Perm.refl _) hpa,
    ← h.orderFree before lb (List.Perm.refl _) hpb, mem_diff] at hmem
  rw [← hguid] at hlastb
  simp only [appeared, hwas, hlastb, present, absent, List.mem_singleton, List.not_mem_nil,
    or_false, Event.mk.injEq] at hmem
  exact hmem.2.2.1

theorem snapshot_of_went {a b : Dataset} (ha : a ∈ before) (hb : b ∈ before)
    (hguid : a.guid = b.guid) (hold : ∀ d ∈ after, d.guid ≠ a.guid) : a.snapshot = b.snapshot := by
  obtain ⟨la, hpa, hlasta⟩ := exists_perm_lastOf Dataset.guid ha
  obtain ⟨lb, hpb, hlastb⟩ := exists_perm_lastOf Dataset.guid hb
  have hnow : lastOf Dataset.guid after a.guid = none := lastOf_eq_none.mpr hold
  have hmem : gone txg time a.guid a ∈ diff txg time la after := by
    refine mem_diff.mpr (Or.inr ?_)
    show _ ∈ absent txg time a.guid (lastOf Dataset.guid la a.guid)
      (lastOf Dataset.guid after a.guid)
    rw [hlasta, hnow]
    exact List.mem_singleton_self _
  rw [h.orderFree la after hpa (List.Perm.refl _),
    ← h.orderFree lb after hpb (List.Perm.refl _), mem_diff] at hmem
  rw [← hguid] at hlastb
  simp only [gone, hnow, hlastb, present, absent, List.mem_singleton, List.not_mem_nil,
    false_or, Event.mk.injEq] at hmem
  have hkind := hmem.2.2.1
  cases hsnapa : a.snapshot <;> cases hsnapb : b.snapshot <;> simp_all

theorem consistent : Consistent before after where
  earlier := agree_of_stayed (h.stayed before (Or.inl rfl))
  later := agree_of_stayed (h.stayed after (Or.inr rfl))
  came _ ha _ hb hguid hnew := h.kind_of_came ha hb hguid hnew
  went _ ha _ hb hguid hold := h.snapshot_of_went ha hb hguid hold

end Tells

variable (txg time before after) in
/-- A comparison tells all there is to tell, in every order of the lists, exactly where datasets
that share a GUID do not differ in what is compared. -/
theorem diff_tells_iff : Tells txg time before after ↔ Consistent before after :=
  ⟨Tells.consistent, Consistent.tells⟩

end Proofs

/-! ## A snapshot and its copy -/

/-- A dataset with nothing on it but a name and an identity. -/
def bare (name : String) (guid : Nat) (snapshot : Bool) : Dataset :=
  let hole : Ondisk.BlkPtr :=
    { dva0 := Ondisk.Dva.empty, dva1 := Ondisk.Dva.empty, dva2 := Ondisk.Dva.empty, lsize := 512
      psize := 512, compression := .off, checksum := .off, objectType := 0, level := 0
      endian := .big, encrypted := false, embedded := false, physicalBirth := 0, birth := 0
      cksum := { w0 := 0, w1 := 0, w2 := 0, w3 := 0 }, raw := List.replicate 128 0 }
  { name, object := 0, dirObject := 0, guid, kind := none, snapshot, creationTxg := 0
    creationTime := 0, referencedBytes := 0, prevSnapObj := 0, originObj := 0, clone := false
    propsZapobj := 0, volsize := none, volblocksize := none, encryption := none
    phys :=
      { dirObj := 0, prevSnapObj := 0, nextSnapObj := 0, snapnamesZapobj := 0, creationTime := 0
        creationTxg := 0, referencedBytes := 0, guid, bp := hole, propsObj := 0 }
    warnings := [] }

/-- A snapshot and the one that was received of it. -/
def sent : Dataset := bare "tank/data@daily" 7 true

def received : Dataset := bare "tank/copy@daily" 7 true

/-- Only the snapshot that the walk met last is reported. -/
theorem received_hides_sent : ¬ Tells 100 none [] [sent, received] := by
  intro h
  obtain ⟨e, he, -, hobject, -⟩ := h.came sent List.mem_cons_self (fun b hb => by cases hb)
  have hdiff : diff 100 none [] [sent, received] = [appeared 100 none 7 received] := by
    decide +kernel
  rw [hdiff, List.mem_singleton] at he
  rw [he] at hobject
  simp [appeared, received, sent, bare] at hobject

end Timeline
end ZvolRescue
