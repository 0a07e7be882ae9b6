import ZvolRescue.Source.Ledger

/-!
# Reads of a range that was refused

A device that may fail is read on after a refusal, and what it refused is not remembered.  One
more request of a file repeats none of the refused reads exactly where it is allowed: it does not
reach the file, or meets nothing that was skipped (`readAt_askedOnce`).
-/

namespace ZvolRescue
namespace Source

open Lib


/-- Two ranges have a byte in common. -/
def meets (offset len offset' len' : Nat) : Bool :=
  decide (max offset offset' < min (offset + len) (offset' + len'))

/-- The second read asks for what the first one was refused, and skipped. -/
def Access.repeats (a b : Access) : Bool :=
  a.incident.any (fun i => !i.stopped && b.path == i.path && meets i.offset i.len b.offset b.len)

/-- No range that was refused and skipped is asked for again. -/
def AskedOnce (log : List Access) : Prop := log.Pairwise (fun a b => a.repeats b = false)

instance (log : List Access) : Decidable (AskedOnce log) :=
  inferInstanceAs (Decidable (log.Pairwise _))

/-- A read of this range was refused, and skipped. -/
def World.skipped (w : World) (path : String) (offset len : Nat) : Bool :=
  w.ledger.incidents.any
    (fun i => !i.stopped && path == i.path && meets i.offset i.len offset len)

namespace FileSource

variable (h : Host) (source : Nat) (f : FileSource)

/-- The request ends before the file is read: the device is closed, or a recent read covers it. -/
def answered (offset len : Nat) (w : World) : Bool :=
  (decide (f.kind h = .device) && (w.ledger.stoppedOn f.path).isSome) ||
    (w.servedFromWindows source offset len).isSome

/-- The request does not reach the file, or meets nothing that was skipped. -/
def allowed (offset len : Nat) (w : World) : Bool :=
  f.refused offset len || f.answered h source offset len w || !w.skipped f.path offset len

end FileSource

section Step

variable {h : Host} {w : World}

/-- One more read repeats none exactly when the ledger has nothing skipped there. -/
theorem Recorded.askedOnce_append (hw : Recorded h w) (a : Access) :
    AskedOnce (w.log ++ [a]) ↔ AskedOnce w.log ∧ w.skipped a.path a.offset a.len = false := by
  have hskipped : w.skipped a.path a.offset a.len = false ↔ ∀ b ∈ w.log, b.repeats a = false := by
    rw [World.skipped, hw.incidents, List.any_eq_false]
    constructor
    · intro hnone b hb
      rw [Access.repeats]
      cases hi : b.incident with
      | none => rfl
      | some i =>
        have hin : i ∈ w.log.filterMap Access.incident := List.mem_filterMap.mpr ⟨b, hb, hi⟩
        simpa using hnone i hin
    · intro hnone i hi
      obtain ⟨b, hb, hbi⟩ := List.mem_filterMap.mp hi
      have hb := hnone b hb
      rw [Access.repeats, hbi] at hb
      simpa using hb
  rw [AskedOnce, AskedOnce, List.pairwise_append, hskipped]
  simp

/-- The path of an image has no incident. -/
theorem Recorded.image_spared (hw : Recorded h w) {path : String} (himage : h.kind path = .image)
    (offset len : Nat) : w.skipped path offset len = false := by
  rw [World.skipped, List.any_eq_false]
  intro i hi
  obtain ⟨a, ha, hai⟩ := hw.mem_incidents.mp hi
  obtain ⟨hpath, hdevice⟩ := hw.own a ha i hai
  have hne : path ≠ i.path := by
    intro heq
    rw [← hpath, ← heq, himage] at hdevice
    cases hdevice
  simp [hne]

theorem World.remember_log (source offset : Nat) (bytes : List UInt8) :
    (w.remember source offset bytes).log = w.log := by
  rw [World.remember]
  split
  · rfl
  · rfl

namespace FileSource

variable (f : FileSource)

/-- A read that is not answered is issued. -/
theorem readOnce_log (source offset len : Nat) :
    if f.answered h source offset len w then (f.readOnce h source offset len w).2.log = w.log
    else ∃ incident, (f.readOnce h source offset len w).2.log =
      w.log ++ [{ path := f.path, offset, len, incident }] := by
  rw [readOnce, answered]
  by_cases hclosed : f.kind h = .device ∧ (w.ledger.stoppedOn f.path).isSome
  · obtain ⟨hdevice, hstopped⟩ := hclosed
    obtain ⟨i, hi⟩ := Option.isSome_iff_exists.mp hstopped
    simp [hdevice, hi]
  · have hopen : (if f.kind h = .device then w.ledger.stoppedOn f.path else none) = none := by
      by_cases hdevice : f.kind h = .device
      · rw [if_pos hdevice]
        simpa [hdevice] using hclosed
      · rw [if_neg hdevice]
    have hunclosed : (decide (f.kind h = .device) && (w.ledger.stoppedOn f.path).isSome) =
        false := by
      simpa using hclosed
    rw [hopen, hunclosed, Bool.false_or]
    cases w.servedFromWindows source offset len with
    | some bytes => simp
    | none =>
      simp only [Option.isSome_none, Bool.false_eq_true, ↓reduceIte]
      split
      · exact ⟨none, World.remember_log _ _ _⟩
      · exact ⟨none, rfl⟩
      · split
        · exact ⟨_, rfl⟩
        · exact ⟨none, rfl⟩

/-- What a read does to the promise. -/
theorem readAt_askedOnce (hw : Recorded h w) (source offset len : Nat) :
    AskedOnce (f.readAt h source offset len w).2.log ↔
      AskedOnce w.log ∧ f.allowed h source offset len w = true := by
  rw [readAt, allowed]
  cases f.refused offset len with
  | true => exact (and_iff_left rfl).symm
  | false =>
    have hlog := f.readOnce_log (h := h) (w := w) source offset len
    cases hanswered : f.answered h source offset len w with
    | true =>
      rw [hanswered, if_pos rfl] at hlog
      simp [hlog]
    | false =>
      rw [hanswered, if_neg (by simp)] at hlog
      obtain ⟨incident, hlog⟩ := hlog
      simp [hlog, hw.askedOnce_append]

/-- A salvage of a device is one read of it; what is read of an image was never refused. -/
theorem readAtSalvaging_askedOnce (hw : Recorded h w) (source offset len : Nat) :
    AskedOnce (f.readAtSalvaging h source offset len w).2.log ↔
      AskedOnce w.log ∧ f.allowed h source offset len w = true := by
  rw [readAtSalvaging]
  cases hkind : f.kind h with
  | device => exact f.readAt_askedOnce hw source offset len
  | image =>
    have hadmits : Admits h f (fun w' => Recorded h w' ∧ (AskedOnce w'.log ↔ AskedOnce w.log)) := by
      refine ⟨fun w' source offset bytes hw' => ?_, fun w' offset len hw' hopen => ?_,
        fun w' offset len error at_ hw' hdevice _ => ?_⟩
      · rw [World.remember_log]
        exact ⟨hw'.1.remember source offset bytes, hw'.2⟩
      · refine ⟨hw'.1.access_quiet rfl hopen, ?_⟩
        rw [← hw'.2]
        have happend := hw'.1.askedOnce_append { path := f.path, offset, len, incident := none }
        rw [hw'.1.image_spared hkind] at happend
        exact happend.trans (and_iff_left rfl)
      · rw [hkind] at hdevice
        cases hdevice
    have hkept := (salvage_keeps (hadmits.readImage hkind) SourceError.eof offset len w
      ⟨hw, Iff.rfl⟩).2.2
    have hallowed : f.allowed h source offset len w = true := by
      rw [allowed, hw.image_spared hkind]
      simp
    rw [hallowed]
    simpa using hkept

end FileSource

end Step

end Source
end ZvolRescue
