import ZvolRescue.Dsl.Tree
import ZvolRescue.Lib.Text
import ZvolRescue.Timeline.Candidates
import ZvolRescue.Timeline.Events

/-!
# The history of a pool

`run` walks the datasets of every transaction group that can still be read, the oldest first, and
compares each list with the last one there was.  What a walk could not read is not in its list, and
looks as if it were destroyed.  That happens to nothing exactly where each walk reaches whatever of
the last list is still there (`destroyed_gone_iff`).
-/

namespace ZvolRescue
namespace Timeline

open Ondisk Dmu Scan
open Lib (fromHex)
open Dsl (Dataset)

/-- The options of a run. -/
structure Options where
  /-- The oldest transaction group to read. -/
  from_ : Option Nat
  /-- The newest transaction group to read. -/
  to_ : Option Nat
  /-- Report only this object, by its name or by its GUID in hexadecimal. -/
  dataset : Option String

/-- What a run takes from the labels. -/
structure Pool where
  name : String
  txg : Option Nat
  /-- The hosts that had it imported, as they are reported. -/
  hosts : List String
  devices : List Nat

/-- What a run reports. -/
structure TimelineOut where
  txgs : List Nat
  unreadableTxgs : List Nat
  events : List Event

/-! ## Selecting -/

def wantedGuid (want : String) : Option Nat :=
  match want.toList with
  | '0' :: 'x' :: rest => fromHex rest
  | _ => none

/-- The event is about the object that was asked for. -/
def wanted (want : String) (e : Event) : Bool :=
  e.object = some want || wantedGuid want = some e.guid

/-- The transaction groups to read, the oldest first. -/
def selected (scans : List (Option DeviceScan)) (pool : Pool) (opts : Options) : List Candidate :=
  ((uberblockCandidates scans pool.devices).reverse).filter (fun c =>
    opts.from_.all (fun f => f ≤ c.ub.txg) && opts.to_.all (fun t => c.ub.txg ≤ t))

/-! ## The events of one transaction group -/

/-- The datasets at one transaction group; none where its MOS cannot be walked. -/
def datasetsAt (reader : PoolReader Id) (c : Candidate) (poolName : String) :
    Option (List Dataset) :=
  match (Dsl.openMos reader c.ub).run with
  | .error _ => none
  | .ok mos =>
    match (Dsl.walk mos poolName).run with
    | .error _ => none
    | .ok tree => some tree.datasets

def unreadableEvent (c : Candidate) : Event :=
  { txg := c.ub.txg, time := some c.ub.timestamp, kind := .unreadable, object := none, guid := 0
    details := "the MOS at this transaction group could not be walked", lastSeenTxg := none }

def pendingEvent (c : Candidate) (details : String) : Event :=
  { txg := c.ub.txg, time := some c.ub.timestamp, kind := .pending, object := none, guid := 0
    details, lastSeenTxg := none }

/-- A dataset of the oldest transaction group, where there is nothing to compare with. -/
def baselineEvent (c : Candidate) (d : Dataset) : Event :=
  let details :=
    if d.creationTxg < c.ub.txg then
      (if describe d = "" then "" else describe d ++ ", ") ++
        s!"already there at the oldest readable txg {c.ub.txg}"
    else describe d
  { txg := min d.creationTxg c.ub.txg
    time := if d.creationTime ≠ 0 then some d.creationTime else none
    kind := appearedAs d, object := some d.name, guid := d.guid, details, lastSeenTxg := none }

/-- The event says that an object is no longer there. -/
def Destroys (e : Event) : Prop := e.kind = .destroyed ∨ e.kind = .snapshotDestroyed

instance (e : Event) : Decidable (Destroys e) := inferInstanceAs (Decidable (_ ∨ _))

/-- Note the last transaction group that had a destroyed object. -/
def seenAt (txg : Nat) (e : Event) : Event :=
  if Destroys e then { e with lastSeenTxg := some txg } else e

def hostEvent (pool : Pool) (details : String) : Event :=
  { txg := pool.txg.getD 0, time := none, kind := .host, object := none, guid := 0, details
    lastSeenTxg := none }

/-! ## The run -/

/-- The events so far, and the last list of datasets there was. -/
structure History where
  events : List Event
  unreadable : List Nat
  previous : Option (Nat × List Dataset)

section Run

variable (reader : Nat → PoolReader Id) (pool : Pool)
  (pending : Option (Candidate → List Dataset → String))

namespace History

def start : History := { events := [], unreadable := [], previous := none }

/-- What is reported of a transaction group with these datasets. -/
def eventsAt (s : History) (c : Candidate) (now : List Dataset) : List Event :=
  (match pending with
    | none => []
    | some details => [pendingEvent c (details c now)]) ++
  (match s.previous with
    | none => now.map (baselineEvent c)
    | some (txg, before) =>
      (diff c.ub.txg (some c.ub.timestamp) before now).map (seenAt txg))

/-- One more transaction group. -/
def step (s : History) (c : Candidate) : History :=
  match datasetsAt (reader c.ub.txg) c pool.name with
  | none =>
    { s with events := s.events ++ [unreadableEvent c], unreadable := s.unreadable ++ [c.ub.txg] }
  | some now =>
    { s with
      events := s.events ++ eventsAt pending s c now
      previous := some (c.ub.txg, now) }

theorem step_previous (s : History) {c : Candidate} {now : List Dataset}
    (h : datasetsAt (reader c.ub.txg) c pool.name = some now) :
    (s.step reader pool pending c).previous = some (c.ub.txg, now) := by
  rw [step, h]

end History

/-- Every transaction group in turn. -/
def history (candidates : List Candidate) : History :=
  candidates.foldl (History.step reader pool pending) History.start

/-- The report; none where no transaction group can be read at all. -/
def run (scans : List (Option DeviceScan)) (opts : Options) : Option TimelineOut :=
  let candidates := selected scans pool opts
  if candidates.isEmpty then none
  else
    let s := history reader pool pending candidates
    let events := s.events ++ pool.hosts.map (hostEvent pool)
    some
      { txgs := candidates.map (fun c => c.ub.txg)
        unreadableTxgs := s.unreadable
        events := sort
          (match opts.dataset with
            | none => events
            | some want => events.filter (wanted want)) }

end Run

/-! ## What is destroyed -/

section Destroyed

theorem present_not_destroys {txg : Nat} {time : Option Nat} {guid : Nat}
    {was now : Option Dataset} {e : Event} (h : e ∈ present txg time guid was now) :
    ¬ Destroys e := by
  rcases mem_present h with ⟨d, -, -, rfl⟩ | ⟨b, d, -, -, rfl | rfl⟩
  · show ¬ (appearedAs d = .destroyed ∨ appearedAs d = .snapshotDestroyed)
    rw [appearedAs]
    cases d.snapshot <;> cases d.clone <;> simp
  · simp [renamed, Destroys]
  · simp [propertyChanged, Destroys]

/-- What is destroyed is of a GUID of the earlier list that the later one does not have. -/
theorem diff_destroys {txg : Nat} {time : Option Nat} {before after : List Dataset} {guid : Nat} :
    (∃ e ∈ diff txg time before after, Destroys e ∧ e.guid = guid) ↔
      (∃ d ∈ before, d.guid = guid) ∧ ∀ d ∈ after, d.guid ≠ guid := by
  constructor
  · rintro ⟨e, he, hdestroys, rfl⟩
    rcases mem_diff.mp he with hpresent | habsent
    · exact absurd hdestroys (present_not_destroys hpresent)
    · obtain ⟨d, hwas, hnow, -⟩ := mem_absent habsent
      exact ⟨⟨d, Lib.mem_of_lastOf hwas⟩, Lib.lastOf_eq_none.mp hnow⟩
  · rintro ⟨⟨d, hd, rfl⟩, hnone⟩
    obtain ⟨b, hlast⟩ := Lib.exists_lastOf Dataset.guid hd
    have hnow : Lib.lastOf Dataset.guid after d.guid = none := Lib.lastOf_eq_none.mpr hnone
    refine ⟨gone txg time d.guid b, mem_diff.mpr (Or.inr ?_), ?_, rfl⟩
    · show _ ∈ absent txg time d.guid (Lib.lastOf Dataset.guid before d.guid)
        (Lib.lastOf Dataset.guid after d.guid)
      rw [hlast, hnow]
      exact List.mem_singleton_self _
    · rw [Destroys, gone]
      cases b.snapshot <;> simp

theorem diff_txg {txg : Nat} {time : Option Nat} {before after : List Dataset} {e : Event}
    (h : e ∈ diff txg time before after) : e.txg = txg := by
  rcases mem_diff.mp h with h | h
  · exact (present_txg h).1
  · exact (absent_txg h).1

end Destroyed

/-! ## Where nothing is destroyed that is still there -/

section Walked

variable (reader : PoolReader Id) (c : Candidate)

/-- The MOS of a transaction group and its root directory can be found. -/
def Opens (mos : DnodeArray Id) (root : Nat) : Prop :=
  (Dsl.openMos reader c.ub).run = .ok mos ∧ (Dsl.rootDataset mos).run = .ok root

/-- The tree of a transaction group has an object of this GUID. -/
def InPool (guid : Nat) : Prop :=
  ∃ mos root, Opens reader c mos root ∧ Dsl.InTree mos root guid

variable {reader c}

theorem datasetsAt_eq_none {poolName : String} (h : datasetsAt reader c poolName = none)
    (mos : DnodeArray Id) (root : Nat) : ¬ Opens reader c mos root := by
  rintro ⟨hmos, hroot⟩
  rw [datasetsAt, hmos] at h
  simp only at h
  rw [Dsl.walk] at h
  simp only [Id.run_bind, hroot] at h
  cases h

/-- The GUIDs of the datasets at a transaction group are those that a walk reaches. -/
theorem datasetsAt_guids {poolName : String} {now : List Dataset}
    (h : datasetsAt reader c poolName = some now) :
    ∃ mos root, Opens reader c mos root ∧
      ∀ guid, (∃ d ∈ now, d.guid = guid) ↔ Dsl.Reached mos poolName root guid := by
  rw [datasetsAt] at h
  cases hmos : (Dsl.openMos reader c.ub).run with
  | error e =>
    rw [hmos] at h
    cases h
  | ok mos =>
    rw [hmos] at h
    simp only at h
    cases hwalk : (Dsl.walk mos poolName).run with
    | error e =>
      rw [hwalk] at h
      cases h
    | ok tree =>
      rw [hwalk] at h
      cases h
      obtain ⟨root, hroot, rfl⟩ := Dsl.walk_ok hwalk
      exact ⟨mos, root, ⟨hmos, hroot⟩, fun guid => Dsl.walkFrom_guids⟩

theorem Opens.unique {mos mos' : DnodeArray Id} {root root' : Nat} (h : Opens reader c mos root)
    (h' : Opens reader c mos' root') : mos = mos' ∧ root = root' := by
  obtain ⟨hmos, hroot⟩ := h
  obtain ⟨hmos', hroot'⟩ := h'
  rw [hmos] at hmos'
  cases hmos'
  rw [hroot] at hroot'
  cases hroot'
  exact ⟨rfl, rfl⟩

end Walked

section Truth

variable (reader intact : Nat → PoolReader Id) (pool : Pool)
  (pending : Option (Candidate → List Dataset → String))

/-- No event destroys what the intact metadata of its transaction group still has. -/
def OnlyGone (candidates : List Candidate) (events : List Event) : Prop :=
  ∀ e ∈ events, Destroys e → ∀ c ∈ candidates, c.ub.txg = e.txg →
    ¬ InPool (intact c.ub.txg) c e.guid

/-- A walk reaches what there still is of the last list, where it can begin. -/
def Complete (s : History) (c : Candidate) : Prop :=
  ∀ txg before, s.previous = some (txg, before) →
    ∀ mos root, Opens (reader c.ub.txg) c mos root →
      ∀ d ∈ before, InPool (intact c.ub.txg) c d.guid → Dsl.Reached mos pool.name root d.guid

/-- Every walk of a run is complete. -/
def EachComplete : History → List Candidate → Prop
  | _, [] => True
  | s, c :: rest =>
    Complete reader intact pool s c ∧ EachComplete (s.step reader pool pending c) rest

variable {reader intact pool pending}

theorem onlyGone_append {candidates : List Candidate} {l l' : List Event} :
    OnlyGone intact candidates (l ++ l') ↔
      OnlyGone intact candidates l ∧ OnlyGone intact candidates l' := by
  constructor
  · intro h
    exact ⟨fun e he => h e (List.mem_append_left _ he),
      fun e he => h e (List.mem_append_right _ he)⟩
  · rintro ⟨hl, hl'⟩ e he
    rcases List.mem_append.mp he with he | he
    · exact hl e he
    · exact hl' e he

/-- What destroys nothing is no matter. -/
theorem onlyGone_of_none {candidates : List Candidate} {l : List Event}
    (h : ∀ e ∈ l, ¬ Destroys e) : OnlyGone intact candidates l :=
  fun e he hdestroys => absurd hdestroys (h e he)

@[simp] theorem seenAt_destroys {txg : Nat} {e : Event} : Destroys (seenAt txg e) ↔ Destroys e := by
  rw [seenAt]
  by_cases h : Destroys e
  · rw [if_pos h]
    rfl
  · rw [if_neg h]

@[simp] theorem seenAt_guid {txg : Nat} {e : Event} : (seenAt txg e).guid = e.guid := by
  rw [seenAt]
  split <;> rfl

@[simp] theorem seenAt_txg {txg : Nat} {e : Event} : (seenAt txg e).txg = e.txg := by
  rw [seenAt]
  split <;> rfl

theorem baselineEvent_not_destroys {c : Candidate} {d : Dataset} :
    ¬ Destroys (baselineEvent c d) := by
  show ¬ (appearedAs d = .destroyed ∨ appearedAs d = .snapshotDestroyed)
  rw [appearedAs]
  cases d.snapshot <;> cases d.clone <;> simp

/-- What a transaction group destroys are the GUIDs that its list has no more. -/
theorem eventsAt_destroys {s : History} {c : Candidate} {now : List Dataset} {guid : Nat} :
    (∃ e ∈ s.eventsAt pending c now, Destroys e ∧ e.txg = c.ub.txg ∧ e.guid = guid) ↔
      ∃ txg before, s.previous = some (txg, before) ∧ (∃ d ∈ before, d.guid = guid) ∧
        ∀ d ∈ now, d.guid ≠ guid := by
  have hpending : ∀ e ∈ (match pending with
      | none => []
      | some details => [pendingEvent c (details c now)]), ¬ Destroys e := by
    intro e he
    cases pending with
    | none => cases he
    | some details =>
      rw [List.mem_singleton.mp he]
      simp [pendingEvent, Destroys]
  constructor
  · rintro ⟨e, he, hdestroys, -, rfl⟩
    rcases List.mem_append.mp he with he | he
    · exact absurd hdestroys (hpending e he)
    · cases hprevious : s.previous with
      | none =>
        rw [hprevious] at he
        obtain ⟨d, -, rfl⟩ := List.mem_map.mp he
        exact absurd hdestroys baselineEvent_not_destroys
      | some p =>
        obtain ⟨txg, before⟩ := p
        rw [hprevious] at he
        obtain ⟨e', he', rfl⟩ := List.mem_map.mp he
        rw [seenAt_destroys] at hdestroys
        exact ⟨txg, before, rfl, diff_destroys.mp ⟨e', he', hdestroys, seenAt_guid.symm⟩⟩
  · rintro ⟨txg, before, hprevious, hgone⟩
    obtain ⟨e, he, hdestroys, hguid⟩ := diff_destroys.mpr hgone
    refine ⟨seenAt txg e, List.mem_append_right _ ?_, seenAt_destroys.mpr hdestroys, ?_, ?_⟩
    · rw [hprevious]
      exact List.mem_map_of_mem he
    · rw [seenAt_txg]
      exact diff_txg he
    · rw [seenAt_guid]
      exact hguid

theorem eventsAt_txg {s : History} {c : Candidate} {now : List Dataset} {e : Event}
    (he : e ∈ s.eventsAt pending c now) (hdestroys : Destroys e) : e.txg = c.ub.txg := by
  rcases List.mem_append.mp he with he | he
  · cases pending with
    | none => cases he
    | some details => rw [List.mem_singleton.mp he, pendingEvent]
  · cases hprevious : s.previous with
    | none =>
      rw [hprevious] at he
      obtain ⟨d, -, rfl⟩ := List.mem_map.mp he
      exact absurd hdestroys baselineEvent_not_destroys
    | some p =>
      rw [hprevious] at he
      obtain ⟨e', he', rfl⟩ := List.mem_map.mp he
      rw [seenAt_txg]
      exact diff_txg he'

variable {candidates : List Candidate}

theorem OnePerTxg.eq_of_txg (h : OnePerTxg candidates) {c c' : Candidate} (hc : c ∈ candidates)
    (hc' : c' ∈ candidates) (htxg : c.ub.txg = c'.ub.txg) : c = c' :=
  List.inj_on_of_nodup_map h hc hc' htxg

/-- One transaction group destroys only what is gone exactly where its walk is complete. -/
theorem step_onlyGone (hone : OnePerTxg candidates) {c : Candidate} (hc : c ∈ candidates)
    (s : History) :
    OnlyGone intact candidates (s.step reader pool pending c).events ↔
      OnlyGone intact candidates s.events ∧ Complete reader intact pool s c := by
  rw [History.step]
  cases hnow : datasetsAt (reader c.ub.txg) c pool.name with
  | none =>
    simp only
    rw [onlyGone_append]
    have hevent : OnlyGone intact candidates [unreadableEvent c] := by
      refine onlyGone_of_none (fun e he => ?_)
      rw [List.mem_singleton.mp he]
      simp [unreadableEvent, Destroys]
    have hcomplete : Complete reader intact pool s c := by
      intro txg before _ mos root hopens
      exact absurd hopens (datasetsAt_eq_none hnow mos root)
    exact ⟨fun h => ⟨h.1, hcomplete⟩, fun h => ⟨h.1, hevent⟩⟩
  | some now =>
    simp only
    rw [onlyGone_append]
    obtain ⟨mos, root, hopens, hguids⟩ := datasetsAt_guids hnow
    refine and_congr_right (fun _ => ?_)
    constructor
    · intro h txg before hprevious mos' root' hopens' d hd hpool
      obtain ⟨rfl, rfl⟩ := hopens.unique hopens'
      by_contra hreached
      have hgone : ∀ d' ∈ now, d'.guid ≠ d.guid :=
        fun d' hd' heq => hreached ((hguids d.guid).mp ⟨d', hd', heq⟩)
      obtain ⟨e, he, hdestroys, htxg, hguid⟩ := eventsAt_destroys.mpr
        ⟨txg, before, hprevious, ⟨d, hd, rfl⟩, hgone⟩
      exact h e he hdestroys c hc htxg.symm (hguid ▸ hpool)
    · intro h e he hdestroys c' hc' htxg hpool
      have htxg' := eventsAt_txg he hdestroys
      have heq := hone.eq_of_txg hc' hc (htxg.trans htxg')
      subst heq
      obtain ⟨txg, before, hprevious, ⟨d, hd, hguid⟩, hgone⟩ := eventsAt_destroys.mp
        ⟨e, he, hdestroys, htxg', rfl⟩
      have hreached := h txg before hprevious mos root hopens d hd (hguid ▸ hpool)
      obtain ⟨d', hd', heq'⟩ := (hguids d.guid).mpr hreached
      exact hgone d' hd' (heq'.trans hguid)

/-- A run destroys only what is gone exactly where each of its walks is complete. -/
theorem history_onlyGone (hone : OnePerTxg candidates) : ∀ (rest : List Candidate) (s : History),
    (∀ c ∈ rest, c ∈ candidates) →
    (OnlyGone intact candidates (rest.foldl (History.step reader pool pending) s).events ↔
      OnlyGone intact candidates s.events ∧ EachComplete reader intact pool pending s rest) := by
  intro rest
  induction rest with
  | nil =>
    intro s _
    exact ⟨fun h => ⟨h, trivial⟩, fun h => h.1⟩
  | cons c rest ih =>
    intro s hin
    rw [List.foldl_cons, ih _ (fun c hc => hin c (List.mem_cons_of_mem _ hc)),
      step_onlyGone hone (hin c List.mem_cons_self), EachComplete, and_assoc]

theorem selected_onePerTxg (scans : List (Option Scan.DeviceScan)) (opts : Options) :
    OnePerTxg (selected scans pool opts) := by
  have hall := uberblockCandidates_onePerTxg scans pool.devices
  rw [OnePerTxg, ← List.nodup_reverse, ← List.map_reverse] at hall
  exact hall.sublist (List.filter_sublist.map _)

/-- A run reports the events of its history and of the hosts that are about what was asked for. -/
theorem mem_run {scans : List (Option Scan.DeviceScan)} {opts : Options} {out : TimelineOut}
    (h : run reader pool pending scans opts = some out) {e : Event} :
    e ∈ out.events ↔
      e ∈ (history reader pool pending (selected scans pool opts)).events ++
          pool.hosts.map (hostEvent pool) ∧
        ∀ want, opts.dataset = some want → wanted want e = true := by
  rw [run] at h
  by_cases hempty : (selected scans pool opts).isEmpty = true
  · rw [if_pos hempty] at h
    cases h
  · rw [if_neg hempty] at h
    cases h
    show e ∈ sort _ ↔ _
    rw [sort, List.mem_mergeSort]
    cases opts.dataset with
    | none => simp
    | some want =>
      rw [List.mem_filter]
      simp

/-- There is no report only where there is nothing to read. -/
theorem run_eq_none {scans : List (Option Scan.DeviceScan)} {opts : Options}
    (h : run reader pool pending scans opts = none) : selected scans pool opts = [] := by
  rw [run] at h
  by_contra hne
  rw [if_neg (fun hempty => hne (List.isEmpty_iff.mp hempty))] at h
  cases h

theorem hosts_onlyGone : OnlyGone intact candidates (pool.hosts.map (hostEvent pool)) := by
  refine onlyGone_of_none (fun e he => ?_)
  obtain ⟨details, -, rfl⟩ := List.mem_map.mp he
  simp [hostEvent, Destroys]

/-- A report without a filter destroys only what is gone where its history does. -/
theorem run_onlyGone {scans : List (Option Scan.DeviceScan)} {opts : Options} {out : TimelineOut}
    (h : run reader pool pending scans opts = some out) (hall : opts.dataset = none) :
    OnlyGone intact candidates out.events ↔ OnlyGone intact candidates
      (history reader pool pending (selected scans pool opts)).events := by
  have hmem : ∀ e, e ∈ out.events ↔
      e ∈ (history reader pool pending (selected scans pool opts)).events ++
        pool.hosts.map (hostEvent pool) := by
    intro e
    rw [mem_run h, hall]
    simp
  constructor
  · exact fun hout e he => hout e ((hmem e).mpr (List.mem_append_left _ he))
  · exact fun hhistory e he =>
      onlyGone_append.mpr ⟨hhistory, hosts_onlyGone⟩ e ((hmem e).mp he)

variable (reader intact pool pending) in
/-- Whatever object is asked for, a run reports nothing destroyed that is still there exactly where
each walk reaches what is still there of the list before it. -/
theorem destroyed_gone_iff (scans : List (Option Scan.DeviceScan)) (opts : Options) :
    (∀ (dataset : Option String) (out : TimelineOut),
      run reader pool pending scans { opts with dataset } = some out →
        OnlyGone intact (selected scans pool opts) out.events) ↔
      EachComplete reader intact pool pending History.start (selected scans pool opts) := by
  have hhistory : OnlyGone intact (selected scans pool opts)
      (history reader pool pending (selected scans pool opts)).events ↔
        EachComplete reader intact pool pending History.start (selected scans pool opts) := by
    rw [history, history_onlyGone (selected_onePerTxg scans opts) _ _ (fun c hc => hc)]
    exact ⟨fun h => h.2, fun h => ⟨fun e he => (by cases he), h⟩⟩
  rw [← hhistory]
  constructor
  · intro h
    cases hout : run reader pool pending scans { opts with dataset := none } with
    | some out => exact (run_onlyGone hout rfl).mp (h none out hout)
    | none =>
      have hnothing := run_eq_none hout
      have hempty : selected scans pool opts = [] := hnothing
      rw [hempty]
      exact fun e he => by cases he
  · intro h dataset out hout e he
    exact onlyGone_append.mpr ⟨h, hosts_onlyGone⟩ e ((mem_run hout).mp he).1

end Truth

/-! ## A map of children that cannot be read -/

section Example

open Dsl (padded words pointerBytes dnodeBytes dirBytes datasetBytes zapBytes microzapBytes
  sectorReader)

/-- The blocks of a pool with a dataset `vm`, from a sector on. -/
def vmBlocks (base : Nat) : List (Nat × List UInt8) :=
  [(base, padded 1024 (padded 704 (dnodeBytes 10 8 (base + 1) []) ++ words [1])),
    (base + 1, padded 4096 (padded dnodeSize [] ++ zapBytes (base + 10) ++ dirBytes 3 4 ++
      datasetBytes 2 0 7 ++ zapBytes (base + 11) ++ dirBytes 6 0 ++ datasetBytes 5 0 8)),
    (base + 10, microzapBytes [("root_dataset", 2)]),
    (base + 11, microzapBytes [("vm", 5)])]

/-- The uberblock of a transaction group whose blocks lie from that sector on. -/
def vmUberblock (txg base : Nat) : Uberblock :=
  { endian := .little, version := 5000, txg, guidSum := 0, timestamp := txg
    rootbp := pointerBytes base, softwareVersion := 5000, mmpMagic := 0, mmpDelay := 0
    mmpConfig := 0, checkpointTxg := 0 }

def vmCandidate (txg base : Nat) : Candidate :=
  { ub := vmUberblock txg base, device := 0, label := 0 }

/-- A device with the uberblocks of two transaction groups. -/
def vmScan : Scan.DeviceScan :=
  { size := 0, psize := 0, base := 0, baseSource := none, bestLabel := none
    surfaceScanRefused := false, lastSector := none
    labels :=
      [{ index := 0, offset := 0, physChecksum := .ok, config := none, configError := none
         slotShift := 10
         uberblocks :=
           [{ slot := 101, ub := vmUberblock 101 80, checksum := .ok },
             { slot := 100, ub := vmUberblock 100 40, checksum := .ok }]
         invalid := [], slots := 128 }] }

def vmPool : Pool := { name := "tank", txg := some 101, hosts := [], devices := [0] }

def everything : Options := { from_ := none, to_ := none, dataset := none }

def vmIntact : PoolReader Id := sectorReader (vmBlocks 40 ++ vmBlocks 80)

/-- The map of children of the later transaction group cannot be read. -/
def vmReader : PoolReader Id :=
  sectorReader ((vmBlocks 40 ++ vmBlocks 80).filter (fun b => b.1 ≠ 91))

theorem vm_selected : selected [some vmScan] vmPool everything =
    [vmCandidate 100 40, vmCandidate 101 80] := by
  have hslots : (poolSlots [some vmScan] [0]).foldl addSlot [] =
      [vmCandidate 101 80, vmCandidate 100 40] := by decide
  have hsorted : uberblockCandidates [some vmScan] [0] =
      [vmCandidate 101 80, vmCandidate 100 40] := by
    rw [uberblockCandidates, hslots]
    exact List.mergeSort_of_pairwise (by simp [vmCandidate, vmUberblock])
  rw [selected]
  show (((uberblockCandidates [some vmScan] [0]).reverse).filter _) = _
  rw [hsorted]
  rfl

theorem lookup_without {β : Type} (sector key : Nat) (blocks : List (Nat × β)) :
    (blocks.filter (fun b => b.1 ≠ sector)).lookup key =
      if key = sector then none else blocks.lookup key := by
  induction blocks with
  | nil => simp
  | cons b blocks ih =>
    obtain ⟨k, data⟩ := b
    by_cases hlost : k = sector
    · rw [List.filter_cons_of_neg (by simp [hlost]), ih, hlost]
      by_cases hkey : key = sector
      · rw [if_pos hkey, if_pos hkey]
      · have hne : (key == sector) = false := by simp [hkey]
        rw [if_neg hkey, if_neg hkey, List.lookup_cons, hne]
    · rw [List.filter_cons_of_pos (by simp [hlost]), List.lookup_cons, List.lookup_cons, ih]
      by_cases hkey : key = k
      · have heq : (key == k) = true := by simp [hkey]
        have hne : key ≠ sector := hkey ▸ hlost
        rw [heq, if_neg hne, if_neg hne]
      · have hne : (key == k) = false := by simp [hkey]
        rw [hne]

/-- A block is read as it is or not at all. -/
theorem vm_readBlock (bp : BlkPtr) : vmReader.readBlock bp = vmIntact.readBlock bp ∨
    ∃ e, vmReader.readBlock bp = .error e := by
  have hlookup := lookup_without 91 (bp.dva0.offset / 512) (vmBlocks 40 ++ vmBlocks 80)
  by_cases hlost : bp.dva0.offset / 512 = 91
  · rw [if_pos hlost] at hlookup
    refine Or.inr ⟨.allCopiesBad, ?_⟩
    simp only [vmReader, sectorReader, hlookup]
  · rw [if_neg hlost] at hlookup
    refine Or.inl ?_
    simp only [vmReader, vmIntact, sectorReader, hlookup]

theorem of_guids {reader : PoolReader Id} {c : Candidate} {poolName : String} {guids : List Nat}
    (h : (datasetsAt reader c poolName).map (fun l => l.map Dataset.guid) = some guids) :
    ∃ now, datasetsAt reader c poolName = some now ∧
      ∀ guid, (∃ d ∈ now, d.guid = guid) ↔ guid ∈ guids := by
  obtain ⟨now, hnow, rfl⟩ := Option.map_eq_some_iff.mp h
  exact ⟨now, hnow, fun guid => List.mem_map.symm⟩

/-- The dataset `vm` is reported destroyed in a transaction group that still has it. -/
theorem vm_destroyed :
    (∀ bp, vmReader.readBlock bp = vmIntact.readBlock bp ∨
      ∃ e, vmReader.readBlock bp = .error e) ∧
    ∃ out, run (fun _ => vmReader) vmPool none [some vmScan] everything = some out ∧
      ¬ OnlyGone (fun _ => vmIntact) (selected [some vmScan] vmPool everything) out.events := by
  refine ⟨vm_readBlock, ?_⟩
  cases hout : run (fun _ => vmReader) vmPool none [some vmScan] everything with
  | none =>
    have hnothing := run_eq_none hout
    rw [vm_selected] at hnothing
    cases hnothing
  | some out =>
    refine ⟨out, rfl, fun honly => ?_⟩
    rw [run_onlyGone hout rfl, history,
      history_onlyGone (selected_onePerTxg _ _) _ _ (fun c hc => hc), vm_selected] at honly
    obtain ⟨-, -, hcomplete, -⟩ := honly
    have hbeforeList :
        (datasetsAt vmReader (vmCandidate 100 40) "tank").map (fun l => l.map Dataset.guid) =
          some [7, 8] := by decide +kernel
    obtain ⟨before, hbefore, hbeforeGuids⟩ := of_guids hbeforeList
    have hnowList :
        (datasetsAt vmReader (vmCandidate 101 80) "tank").map (fun l => l.map Dataset.guid) =
          some [7] := by decide +kernel
    obtain ⟨now, hnow, hnowGuids⟩ := of_guids hnowList
    have hwholeList :
        (datasetsAt vmIntact (vmCandidate 101 80) "tank").map (fun l => l.map Dataset.guid) =
          some [7, 8] := by decide +kernel
    obtain ⟨whole, hwhole, hwholeGuids⟩ := of_guids hwholeList
    obtain ⟨d, hd, hguid⟩ := (hbeforeGuids 8).mpr (by simp)
    obtain ⟨mos, root, hopens, hreached⟩ := datasetsAt_guids hnow
    obtain ⟨mos', root', hopens', hreached'⟩ := datasetsAt_guids hwhole
    have hpool : InPool vmIntact (vmCandidate 101 80) d.guid := by
      rw [hguid]
      have hwhole := (hreached' 8).mp ((hwholeGuids 8).mpr (by simp))
      exact ⟨mos', root', hopens', Dsl.Reached.inTree hwhole⟩
    have hprevious := History.step_previous (fun _ => vmReader) vmPool none History.start hbefore
    have hmet := hcomplete 100 before hprevious mos root hopens d hd hpool
    rw [hguid] at hmet
    have hlisted := (hnowGuids 8).mp ((hreached 8).mpr hmet)
    simp at hlisted

end Example

end Timeline
end ZvolRescue
