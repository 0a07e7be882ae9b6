import ZvolRescue.Lib.Word
import ZvolRescue.Source.Salvage

/-!
# The medium and its ledger

A read that a device refuses is an incident.  All sources of a run share one ledger of
incidents, which decides whether an incident stops the run; a device that stopped the run is not
read again (`medium_safe`).
-/

namespace ZvolRescue
namespace Source

open Lib

/-- The smallest sector any disk has. -/
def lbaSector : Nat := 512

/-- What an input is. -/
inductive Kind where
  | image
  | device
  deriving DecidableEq, Repr

/-- One read that a device refused. -/
structure Incident where
  path : String
  offset : Nat
  len : Nat
  error : String
  at_ : String
  stopped : Bool
  deriving DecidableEq, Repr

namespace Incident

def lba (i : Incident) : Nat := i.offset / lbaSector

def sectors (i : Incident) : Nat := divCeil i.len lbaSector

def text (i : Incident) : String :=
  s!"{i.path} refused {i.len} byte(s) at byte {i.offset} (LBA {i.lba}, {i.sectors} sector(s) of " ++
    s!"{lbaSector}): {i.error} at {i.at_}"

end Incident

/-- The incidents of a run, and the policy that judges the next one. -/
structure Ledger where
  mayFail : Bool
  incidents : List Incident

namespace Ledger

/-- How many incidents a device that may fail is allowed. -/
def mayFailLimit : Nat := 8

def start (mayFail : Bool) : Ledger := { mayFail, incidents := [] }

/-- The incident that a refused read is. -/
def judge (l : Ledger) (path : String) (offset len : Nat) (error at_ : String) : Incident :=
  { path, offset, len, error, at_
    stopped := !l.mayFail || decide (l.incidents.length + 1 ≥ mayFailLimit) }

def record (l : Ledger) (i : Incident) : Ledger := { l with incidents := l.incidents ++ [i] }

/-- The incident that closed the device at `path` for the rest of the run. -/
def stoppedOn (l : Ledger) (path : String) : Option Incident :=
  l.incidents.find? (fun i => i.stopped && i.path == path)

theorem stoppedOn_eq_none {l : Ledger} {path : String} :
    l.stoppedOn path = none ↔ ∀ i ∈ l.incidents, i.stopped = true → i.path ≠ path := by
  simp [stoppedOn, List.find?_eq_none]

theorem stoppedOn_some {l : Ledger} {path : String} {i : Incident}
    (h : l.stoppedOn path = some i) : i ∈ l.incidents ∧ i.stopped = true ∧ i.path = path := by
  have hsome := List.find?_some h
  simp only [Bool.and_eq_true, beq_iff_eq] at hsome
  exact ⟨List.mem_of_find?_eq_some h, hsome.1, hsome.2⟩

theorem stoppedOn_isSome {l : Ledger} {i : Incident} (hi : i ∈ l.incidents)
    (hstopped : i.stopped = true) : (l.stoppedOn i.path).isSome := by
  rw [Option.isSome_iff_ne_none]
  intro hnone
  exact stoppedOn_eq_none.mp hnone i hi hstopped rfl

end Ledger

/-! ## Sources -/

/-- How the operating system fails a read. -/
inductive OsError where
  | unexpectedEof
  | other (text : String)
  deriving DecidableEq, Repr

/-- How a source fails a read. -/
inductive SourceError where
  | os (e : OsError)
  /-- The imager could not read these bytes. -/
  | imager
  /-- The device refused the read, or one before it. -/
  | medium (i : Incident)
  deriving DecidableEq, Repr

def SourceError.eof : SourceError → Bool
  | os .unexpectedEof => true
  | _ => false

/-- What answers the reads: the `n`th read of all is answered by what the path holds then. -/
structure Host where
  kind : (path : String) → Kind
  answer : (n : Nat) → (path : String) → (offset len : Nat) → Except OsError (List UInt8)
  now : (n : Nat) → String
  length_of_answer : ∀ n path offset len b, answer n path offset len = .ok b → b.length = len

/-- A device or an image that was opened. -/
structure FileSource where
  path : String
  size : Nat
  /-- What the imager could not read, as start and length. -/
  map : Option (List (Nat × Nat))

/-- One read of the file system. -/
structure Access where
  path : String
  offset : Nat
  len : Nat
  /-- The incident that it was, if it was refused by a device. -/
  incident : Option Incident
  deriving DecidableEq, Repr

/-- What the reads change. -/
structure World where
  ledger : Ledger
  /-- The last few reads of each source, the oldest first. -/
  windows : Nat → List (Nat × List UInt8)
  /-- All reads of the file system. -/
  log : List Access

namespace World

def start (mayFail : Bool) : World :=
  { ledger := Ledger.start mayFail, windows := fun _ => [], log := [] }

/-- One more read, and its incident. -/
def access (w : World) (a : Access) : World :=
  { w with
    log := w.log ++ [a]
    ledger := match a.incident with
      | some i => w.ledger.record i
      | none => w.ledger }

/-- How many recent reads are kept. -/
def maxWindows : Nat := 8

/-- The largest read that is kept. -/
def windowMax : Nat := 512 * 1024

/-- A recent read that covers `len` bytes at `offset`. -/
def servedFromWindows (w : World) (source offset len : Nat) : Option (List UInt8) :=
  (w.windows source).findSome? (fun read =>
    if read.1 ≤ offset ∧ offset + len ≤ read.1 + read.2.length then
      some ((read.2.drop (offset - read.1)).take len)
    else none)

/-- Keep a read, and no more than there is room for. -/
def remember (w : World) (source offset : Nat) (bytes : List UInt8) : World :=
  if bytes.length > windowMax then w
  else
    let kept := w.windows source
    let kept := if kept.length ≥ maxWindows then kept.drop 1 else kept
    { w with windows := fun i => if i = source then kept ++ [(offset, bytes)] else w.windows i }

end World

/-- Some byte of the range is one that the imager could not read. -/
def touches (map : List (Nat × Nat)) (offset len : Nat) : Bool :=
  let end_ := min (offset + len) (2 ^ 64 - 1)
  map.any (fun r => decide (r.1 < end_ ∧ offset < r.1 + r.2))

namespace FileSource

variable (h : Host) (source : Nat) (f : FileSource)

def kind : Kind := h.kind f.path

/-- One read of the file. -/
def readOnce (offset len : Nat) : StateM World (Except SourceError (List UInt8)) := fun w =>
  match if f.kind h = .device then w.ledger.stoppedOn f.path else none with
  | some closed => (.error (.medium closed), w)
  | none =>
    match w.servedFromWindows source offset len with
    | some bytes => (.ok bytes, w)
    | none =>
      let a : Access := { path := f.path, offset, len, incident := none }
      match h.answer w.log.length f.path offset len with
      | .ok bytes => (.ok bytes, (w.access a).remember source offset bytes)
      | .error .unexpectedEof => (.error (.os .unexpectedEof), w.access a)
      | .error (.other text) =>
        if f.kind h = .device then
          let i := w.ledger.judge f.path offset len text (h.now w.log.length)
          (.error (.medium i), w.access { a with incident := some i })
        else (.error (.os (.other text)), w.access a)

/-- The imager's map refuses the range. -/
def refused (offset len : Nat) : Bool := f.map.any (fun map => touches map offset len)

def readAt (offset len : Nat) : StateM World (Except SourceError (List UInt8)) :=
  if f.refused offset len then pure (.error .imager) else f.readOnce h source offset len

/-- One read of an image around what its map refuses. -/
def readImage (offset len : Nat) : StateM World (Except SourceError (List UInt8)) := fun w =>
  if f.refused offset len then (.error .imager, w)
  else
    ((h.answer w.log.length f.path offset len).mapError .os,
      w.access { path := f.path, offset, len, incident := none })

def readAtSalvaging (offset len : Nat) :
    StateM World (Except SourceError (List UInt8 × List (Nat × Nat))) :=
  match f.kind h with
  | .device => (fun r => r.map (fun bytes => (bytes, []))) <$> f.readAt h source offset len
  | .image => salvage (f.readImage h) SourceError.eof offset len

end FileSource

/-! ## Runs -/

/-- A read of one of the sources. -/
structure Request where
  source : Nat
  salvaging : Bool
  offset : Nat
  len : Nat

/-- What a read does. -/
def step (h : Host) (sources : List FileSource) (r : Request) (w : World) : World :=
  match sources[r.source]? with
  | none => w
  | some f =>
    if r.salvaging then (f.readAtSalvaging h r.source r.offset r.len w).2
    else (f.readAt h r.source r.offset r.len w).2

/-- What reads do, one after the other. -/
def run (h : Host) (sources : List FileSource) : List Request → World → World
  | [], w => w
  | r :: rs, w => run h sources rs (step h sources r w)

/-! ## What every read keeps -/

section Safety

variable {h : Host}

/-- The ledger is the record of the refused reads, and a device is not read after one that
stopped it. -/
structure Recorded (h : Host) (w : World) : Prop where
  incidents : w.ledger.incidents = w.log.filterMap Access.incident
  own : ∀ a ∈ w.log, ∀ i, a.incident = some i → i.path = a.path ∧ h.kind a.path = .device
  closed : w.log.Pairwise (fun a b => ∀ i, a.incident = some i → i.stopped = true →
    b.path ≠ a.path)
  judged : ∀ k i, w.ledger.incidents[k]? = some i →
    (i.stopped = true ↔ w.ledger.mayFail = false ∨ Ledger.mayFailLimit ≤ k + 1)

namespace Recorded

variable {w : World}

theorem start (mayFail : Bool) : Recorded h (World.start mayFail) where
  incidents := rfl
  own a ha := by cases ha
  closed := List.Pairwise.nil
  judged k i hk := by cases hk

theorem remember (hw : Recorded h w) (source offset : Nat) (bytes : List UInt8) :
    Recorded h (w.remember source offset bytes) := by
  rw [World.remember]
  split
  · exact hw
  · exact ⟨hw.incidents, hw.own, hw.closed, hw.judged⟩

theorem mem_incidents (hw : Recorded h w) {i : Incident} :
    i ∈ w.ledger.incidents ↔ ∃ a ∈ w.log, a.incident = some i := by
  rw [hw.incidents, List.mem_filterMap]

/-- A path that no incident stopped may be read. -/
theorem closed_append (hw : Recorded h w) {a : Access}
    (hopen : h.kind a.path = .device → w.ledger.stoppedOn a.path = none) :
    (w.log ++ [a]).Pairwise (fun a b => ∀ i, a.incident = some i → i.stopped = true →
      b.path ≠ a.path) := by
  rw [List.pairwise_append]
  refine ⟨hw.closed, List.pairwise_singleton _ _, fun b hb a' ha' i hi hstopped => ?_⟩
  rw [List.mem_singleton.mp ha']
  obtain ⟨hpath, hdevice⟩ := hw.own b hb i hi
  intro heq
  rw [← heq] at hdevice
  have hnone := Ledger.stoppedOn_eq_none.mp (hopen hdevice)
  exact hnone i (hw.mem_incidents.mpr ⟨b, hb, hi⟩) hstopped (hpath.trans heq.symm)

/-- A read that is not refused by a device. -/
theorem access_quiet (hw : Recorded h w) {a : Access} (hnone : a.incident = none)
    (hopen : h.kind a.path = .device → w.ledger.stoppedOn a.path = none) :
    Recorded h (w.access a) := by
  have hledger : (w.access a).ledger = w.ledger := by rw [World.access, hnone]
  refine ⟨?_, ?_, hw.closed_append hopen, ?_⟩
  · rw [hledger, hw.incidents]
    simp [World.access, hnone]
  · intro b hb i hi
    rcases List.mem_append.mp hb with hb | hb
    · exact hw.own b hb i hi
    · rw [List.mem_singleton.mp hb, hnone] at hi
      cases hi
  · rw [hledger]
    exact hw.judged

/-- A read that a device refuses. -/
theorem access_refused (hw : Recorded h w) {path : String} {offset len : Nat} {error at_ : String}
    (hdevice : h.kind path = .device) (hopen : w.ledger.stoppedOn path = none) :
    Recorded h (w.access { path, offset, len
                           incident := some (w.ledger.judge path offset len error at_) }) := by
  refine ⟨?_, ?_, hw.closed_append (fun _ => hopen), ?_⟩
  · show w.ledger.incidents ++ [_] = _
    rw [hw.incidents]
    simp [World.access]
  · intro b hb i hi
    rcases List.mem_append.mp hb with hb | hb
    · exact hw.own b hb i hi
    · rw [List.mem_singleton.mp hb] at hi ⊢
      cases hi
      exact ⟨rfl, hdevice⟩
  · intro k i hk
    show i.stopped = true ↔ w.ledger.mayFail = false ∨ _
    have hk : (w.ledger.incidents ++ [w.ledger.judge path offset len error at_])[k]? = some i := hk
    rcases Nat.lt_trichotomy k w.ledger.incidents.length with hlt | heq | hgt
    · rw [List.getElem?_append_left hlt] at hk
      exact hw.judged k i hk
    · rw [heq, List.getElem?_concat_length] at hk
      cases hk
      rw [heq]
      simp [Ledger.judge]
    · rw [List.getElem?_eq_none (by simp; omega)] at hk
      cases hk

end Recorded

end Safety

/-! ## Each way to read -/

/-- A property of the world that one read of `f`, served or refused, does not end. -/
structure Admits (h : Host) (f : FileSource) (I : World → Prop) : Prop where
  remember : ∀ w source offset bytes, I w → I (w.remember source offset bytes)
  quiet : ∀ w offset len, I w →
    (f.kind h = .device → w.ledger.stoppedOn f.path = none) →
    I (w.access { path := f.path, offset, len, incident := none })
  refused : ∀ w offset len error at_, I w → f.kind h = .device →
    w.ledger.stoppedOn f.path = none →
    I (w.access { path := f.path, offset, len
                  incident := some (w.ledger.judge f.path offset len error at_) })

namespace Admits

variable {h : Host} {f : FileSource} {I : World → Prop} (hI : Admits h f I)

include hI

theorem readOnce (source offset len : Nat) :
    Keeps I (f.readOnce h source offset len) (fun _ => True) := by
  intro w hw
  refine ⟨True.intro, ?_⟩
  rw [FileSource.readOnce]
  split
  · exact hw
  · rename_i hclosed
    have hopen : f.kind h = .device → w.ledger.stoppedOn f.path = none := by
      intro hdevice
      rw [if_pos hdevice] at hclosed
      exact hclosed
    split
    · exact hw
    · split
      · exact hI.remember _ _ _ _ (hI.quiet w offset len hw hopen)
      · exact hI.quiet w offset len hw hopen
      · split
        · rename_i hdevice
          exact hI.refused w offset len _ _ hw hdevice (hopen hdevice)
        · exact hI.quiet w offset len hw hopen

theorem readAt (source offset len : Nat) :
    Keeps I (f.readAt h source offset len) (fun _ => True) := by
  rw [FileSource.readAt]
  split
  · exact Keeps.pure True.intro
  · exact hI.readOnce source offset len

theorem readImage (himage : f.kind h = .image) : Fills I (f.readImage h) := by
  intro offset len w hw
  rw [FileSource.readImage]
  split
  · refine ⟨fun b hb => ?_, hw⟩
    cases hb
  · have hopen : f.kind h = .device → w.ledger.stoppedOn f.path = none := by
      intro hdevice
      rw [himage] at hdevice
      cases hdevice
    refine ⟨fun b hb => ?_, hI.quiet w offset len hw hopen⟩
    cases hanswer : h.answer w.log.length f.path offset len with
    | error e =>
      rw [hanswer] at hb
      cases hb
    | ok bytes =>
      rw [hanswer] at hb
      cases hb
      exact h.length_of_answer _ _ _ _ _ hanswer

theorem readAtSalvaging (source offset len : Nat) :
    Keeps I (f.readAtSalvaging h source offset len) (fun _ => True) := by
  rw [FileSource.readAtSalvaging]
  cases hkind : f.kind h with
  | device => exact (hI.readAt source offset len).map (fun _ _ => True.intro)
  | image => exact (salvage_keeps (hI.readImage hkind) _ _ _).mono (fun _ _ => True.intro)

theorem step {sources : List FileSource} {r : Request} (hf : sources[r.source]? = some f)
    {w : World} (hw : I w) : I (step h sources r w) := by
  rw [Source.step, hf]
  simp only
  split
  · exact (hI.readAtSalvaging _ _ _ w hw).2
  · exact (hI.readAt _ _ _ w hw).2

end Admits

/-- What every read of every source admits holds after any run. -/
theorem run_of_admits {h : Host} {sources : List FileSource} {I : World → Prop}
    (hI : ∀ f ∈ sources, Admits h f I) :
    ∀ (rs : List Request) (w : World), I w → I (run h sources rs w) := by
  intro rs
  induction rs with
  | nil =>
    intro w hw
    exact hw
  | cons r rs ih =>
    intro w hw
    apply ih
    cases hf : sources[r.source]? with
    | none =>
      rw [step, hf]
      exact hw
    | some f => exact (hI f (List.mem_of_getElem? hf)).step hf hw

section Promise

variable {h : Host}

theorem Recorded.admits (f : FileSource) : Admits h f (Recorded h) where
  remember _ source offset bytes hw := hw.remember source offset bytes
  quiet _ _ _ hw hopen := hw.access_quiet rfl hopen
  refused _ _ _ _ _ hw hdevice hopen := hw.access_refused hdevice hopen

theorem mayFail_admits (mayFail : Bool) (f : FileSource) :
    Admits h f (fun w => w.ledger.mayFail = mayFail) where
  remember w source offset bytes hw := by
    rw [World.remember]
    split
    · exact hw
    · exact hw
  quiet _ _ _ hw _ := hw
  refused _ _ _ _ _ hw _ _ := hw

/-- A read of `f` leaves alone what stopped another path, and a read of an image what stopped
any. -/
theorem spares_admits (l : Ledger) (f : FileSource) {path : String}
    (hpath : path ≠ f.path ∨ f.kind h = .image) :
    Admits h f (fun w => w.ledger.stoppedOn path = l.stoppedOn path) where
  remember w source offset bytes hw := by
    rw [World.remember]
    split
    · exact hw
    · exact hw
  quiet _ _ _ hw _ := hw
  refused w offset len error at_ hw hdevice _ := by
    have hother : f.path ≠ path := by
      rcases hpath with hne | himage
      · exact Ne.symm hne
      · rw [himage] at hdevice
        cases hdevice
    rw [← hw]
    simp [World.access, Ledger.record, Ledger.stoppedOn, Ledger.judge, hother]

/-- What the policy of the medium promises. -/
structure MediumSafe (h : Host) (sources : List FileSource) (w : World) : Prop where
  /-- No read of a path is issued after an incident that stopped it. -/
  closed : w.log.Pairwise (fun a b => ∀ i, a.incident = some i → i.stopped = true →
    b.path ≠ a.path)
  /-- The ledger holds the incidents of the reads, each of its own device. -/
  recorded : w.ledger.incidents = w.log.filterMap Access.incident ∧
    ∀ a ∈ w.log, ∀ i, a.incident = some i → i.path = a.path ∧ h.kind a.path = .device
  /-- By default there is at most one incident of each path, and it stops it. -/
  first : w.ledger.mayFail = false → ∀ path,
    (w.ledger.incidents.filter (fun i => i.path = path)).length ≤ 1 ∧
      ∀ i ∈ w.ledger.incidents, i.path = path → w.ledger.stoppedOn path = some i
  /-- Of devices that may fail so many incidents are skipped, and the next stops its path. -/
  limit : (w.ledger.incidents.filter (fun i => !i.stopped)).length < Ledger.mayFailLimit ∧
    ∀ k i, w.ledger.incidents[k]? = some i → Ledger.mayFailLimit ≤ k + 1 →
      i.stopped = true ∧ (w.ledger.stoppedOn i.path).isSome
  /-- A path is stopped by an incident of its own, and only a device is. -/
  own : ∀ path i, w.ledger.stoppedOn path = some i →
    h.kind path = .device ∧ ∃ a ∈ w.log, a.path = path ∧ a.incident = some i
  /-- The next read stops no path but that of the device it reads. -/
  spares : ∀ r f path, sources[r.source]? = some f → path ≠ f.path ∨ f.kind h = .image →
    (step h sources r w).ledger.stoppedOn path = w.ledger.stoppedOn path

namespace Recorded

variable {w : World} (hw : Recorded h w)

include hw

/-- The incidents of the ledger are apart where they stop. -/
theorem apart : w.ledger.incidents.Pairwise (fun i j => i.stopped = true → j.path ≠ i.path) := by
  rw [hw.incidents, List.pairwise_filterMap]
  refine hw.closed.imp_of_mem (fun ha hb hclosed i hi j hj hstopped => ?_)
  rw [(hw.own _ ha i hi).1, (hw.own _ hb j hj).1]
  exact hclosed i hi hstopped

theorem first (hmay : w.ledger.mayFail = false) (path : String) :
    (w.ledger.incidents.filter (fun i => i.path = path)).length ≤ 1 ∧
      ∀ i ∈ w.ledger.incidents, i.path = path → w.ledger.stoppedOn path = some i := by
  have hstops : ∀ i ∈ w.ledger.incidents, i.stopped = true := by
    intro i hi
    obtain ⟨k, hk⟩ := List.getElem?_of_mem hi
    exact (hw.judged k i hk).mpr (Or.inl hmay)
  have hapart : (w.ledger.incidents.filter (fun i => i.path = path)).Pairwise
      (fun i j => j.path ≠ i.path) :=
    (hw.apart.imp_of_mem (fun hi _ h => h (hstops _ hi))).filter _
  have hall : ∀ i ∈ w.ledger.incidents.filter (fun i => i.path = path), i.path = path := by
    intro i hi
    simpa using (List.mem_filter.mp hi).2
  have hone : (w.ledger.incidents.filter (fun i => i.path = path)).length ≤ 1 := by
    generalize w.ledger.incidents.filter (fun i => i.path = path) = l at hapart hall
    match l with
    | [] => exact Nat.zero_le 1
    | [_] => exact le_refl 1
    | i :: j :: _ =>
      have hne := List.rel_of_pairwise_cons hapart List.mem_cons_self
      rw [hall i (by simp), hall j (by simp)] at hne
      exact absurd rfl hne
  refine ⟨hone, fun i hi hpath => ?_⟩
  have hsome := Ledger.stoppedOn_isSome hi (hstops i hi)
  rw [hpath] at hsome
  obtain ⟨j, hj⟩ := Option.isSome_iff_exists.mp hsome
  obtain ⟨hjin, -, hjpath⟩ := Ledger.stoppedOn_some hj
  have hi' : i ∈ w.ledger.incidents.filter (fun i => i.path = path) := by simp [hi, hpath]
  have hj' : j ∈ w.ledger.incidents.filter (fun i => i.path = path) := by simp [hjin, hjpath]
  generalize w.ledger.incidents.filter (fun i => i.path = path) = l at hone hi' hj'
  match l with
  | [] => cases hi'
  | [x] =>
    rw [List.mem_singleton.mp hi', ← List.mem_singleton.mp hj']
    exact hj
  | _ :: _ :: _ =>
    simp only [List.length_cons] at hone
    omega

theorem limit :
    (w.ledger.incidents.filter (fun i => !i.stopped)).length < Ledger.mayFailLimit := by
  have hlater : (w.ledger.incidents.drop (Ledger.mayFailLimit - 1)).filter
      (fun i => !i.stopped) = [] := by
    rw [List.filter_eq_nil_iff]
    intro i hi
    obtain ⟨k, hk⟩ := List.getElem?_of_mem hi
    rw [List.getElem?_drop] at hk
    have hstopped : i.stopped = true := (hw.judged _ i hk).mpr (Or.inr (by omega))
    simp [hstopped]
  have hsplit := List.take_append_drop (Ledger.mayFailLimit - 1) w.ledger.incidents
  rw [← hsplit, List.filter_append, hlater, List.append_nil]
  have hle := List.length_filter_le (fun i : Incident => !i.stopped)
    (w.ledger.incidents.take (Ledger.mayFailLimit - 1))
  have htake := List.length_take_le (Ledger.mayFailLimit - 1) w.ledger.incidents
  have hpos : 0 < Ledger.mayFailLimit := by decide
  omega

end Recorded

variable (h) in
/-- Whatever is read, in whatever order, the policy of the medium is kept. -/
theorem medium_safe (sources : List FileSource) (mayFail : Bool) (rs : List Request) :
    (run h sources rs (World.start mayFail)).ledger.mayFail = mayFail ∧
      MediumSafe h sources (run h sources rs (World.start mayFail)) := by
  have hw : Recorded h (run h sources rs (World.start mayFail)) :=
    run_of_admits (fun f _ => Recorded.admits f) rs _ (Recorded.start mayFail)
  refine ⟨run_of_admits (fun f _ => mayFail_admits mayFail f) rs _ rfl, ?_⟩
  generalize run h sources rs (World.start mayFail) = w at hw
  refine ⟨hw.closed, ⟨hw.incidents, hw.own⟩, hw.first,
    ⟨hw.limit, fun k i hk hlimit => ?_⟩, fun path i hi => ?_,
    fun r f path hf hpath => (spares_admits w.ledger f hpath).step hf rfl⟩
  · have hstopped := (hw.judged k i hk).mpr (Or.inr hlimit)
    exact ⟨hstopped, Ledger.stoppedOn_isSome (List.mem_of_getElem? hk) hstopped⟩
  · obtain ⟨hin, -, hpath⟩ := Ledger.stoppedOn_some hi
    obtain ⟨a, ha, hai⟩ := hw.mem_incidents.mp hin
    obtain ⟨hown, hdevice⟩ := hw.own a ha i hai
    rw [hown] at hpath
    rw [hpath] at hdevice
    exact ⟨hdevice, a, ha, hpath, hai⟩

end Promise

end Source
end ZvolRescue
