import ZvolRescue.Carve.Resume

/-!
# Runs over one workspace

The state of a workspace keeps one offset for each position of the command line.  Of a member
that stands at a position, a resumed run takes everything below that offset for read, whichever
member and range the offset came from (`performAll_kept`).
-/

namespace ZvolRescue
namespace Carve
namespace Member

open Lib Ondisk

/-! ## The chunks that a scan gets past -/

section Chunks

variable (c : Codecs) (src : Surface) (device ashift : Nat) (opts : Options)

/-- The chunks that the scan from `at_` on gets past, each with whether it could be read. -/
def passedFrom (stop : Nat → Bool) (end_ : Nat) : (fuel at_ : Nat) → Scan → List (Nat × Bool)
  | 0, _, _ => []
  | fuel + 1, at_, s =>
    if at_ < end_ then
      if stop at_ then []
      else if readable src opts end_ at_ < dnodeSize then []
      else
        match src.read at_ (readable src opts end_ at_) with
        | none =>
          (at_, false) ::
            passedFrom stop end_ fuel (at_ + opts.chunk) (s.reach (at_ + opts.chunk))
        | some window =>
          let s := scanChunk c device ashift opts end_ at_ window
            (s.addRead (readable src opts end_ at_))
          if s.stoppedEarly then []
          else
            (at_, true) ::
              passedFrom stop end_ fuel (at_ + opts.chunk) (s.reach (min (at_ + opts.chunk) end_))
    else []

/-- Chunk `k` of the scan from `start` on is not readable. -/
def BadChunk (start end_ k : Nat) : Prop :=
  k < end_ ∧ (∃ j, k = start + j * opts.chunk) ∧ src.read k (readable src opts end_ k) = none

/-- An offset lies in one of these chunks, or in an unreadable one beyond the end of the
range. -/
def Behind (start end_ : Nat) (chunks : List (Nat × Bool)) (o : Nat) : Prop :=
  (o < end_ ∧ ∃ p ∈ chunks, p.1 ≤ o ∧ o < p.1 + opts.chunk) ∨
    (end_ ≤ o ∧ ∃ k, BadChunk src opts start end_ k ∧ o < k + opts.chunk)

variable {c src device ashift opts} {stop : Nat → Bool} {end_ : Nat}

theorem Behind.cons {start o : Nat} {chunks : List (Nat × Bool)} {first : Nat × Bool}
    (h : Behind src opts (start + opts.chunk) end_ chunks o) :
    Behind src opts start end_ (first :: chunks) o := by
  rcases h with ⟨hend, p, hp, hle, hlt⟩ | ⟨hend, k, ⟨hk, ⟨j, hj⟩, hnone⟩, hlt⟩
  · exact Or.inl ⟨hend, p, List.mem_cons_of_mem _ hp, hle, hlt⟩
  · have hnext : k = start + (j + 1) * opts.chunk := by
      rw [hj, Nat.succ_mul]
      omega
    exact Or.inr ⟨hend, k, ⟨hk, ⟨j + 1, hnext⟩, hnone⟩, hlt⟩

theorem scanFrom_past_end {fuel at_ : Nat} {s s' : Scan} (hat : end_ ≤ at_)
    (h : scanFrom c src device ashift opts stop end_ fuel at_ s = some s') : s' = s := by
  cases fuel with
  | zero => cases h
  | succ fuel =>
    rw [scanFrom, if_neg (by omega)] at h
    exact (Option.some.inj h).symm

/-- What a scan leaves behind it lies in the chunks that it got past. -/
theorem scanFrom_behind {s' : Scan} :
    ∀ fuel at_ s, s.resumeAt ≤ at_ →
      scanFrom c src device ashift opts stop end_ fuel at_ s = some s' →
      ∀ o, at_ ≤ o → o < s'.resumeAt →
        Behind src opts at_ end_ (passedFrom c src device ashift opts stop end_ fuel at_ s) o := by
  intro fuel
  induction fuel with
  | zero =>
    intro at_ s _ hrun
    cases hrun
  | succ fuel ih =>
    intro at_ s hs hrun o hfrom ho
    rw [scanFrom] at hrun
    rw [passedFrom]
    by_cases hat : at_ < end_
    · rw [if_pos hat] at hrun
      rw [if_pos hat]
      by_cases hstop : stop at_ = true
      · rw [if_pos hstop] at hrun
        cases hrun
        have hreached : o < at_ := ho
        omega
      · rw [if_neg hstop] at hrun
        rw [if_neg hstop]
        by_cases hshort : readable src opts end_ at_ < dnodeSize
        · rw [if_pos hshort] at hrun
          cases hrun
          omega
        · rw [if_neg hshort] at hrun
          rw [if_neg hshort]
          by_cases hnext : at_ + opts.chunk ≤ o
          · cases hread : src.read at_ (readable src opts end_ at_) with
            | none =>
              simp only [hread] at hrun
              exact (ih (at_ + opts.chunk) (s.reach (at_ + opts.chunk)) (le_refl _) hrun o hnext
                ho).cons
            | some window =>
              simp only [hread] at hrun
              simp only
              split at hrun
              · cases hrun
                have hreached : o < at_ := ho
                omega
              · rename_i hgoes
                rw [if_neg hgoes]
                exact (ih _ _ (Nat.min_le_left _ _) hrun o hnext ho).cons
          · have hin : o < at_ + opts.chunk := Nat.lt_of_not_le hnext
            by_cases hend : o < end_
            · refine Or.inl ⟨hend, ?_⟩
              cases hread : src.read at_ (readable src opts end_ at_) with
              | none => exact ⟨_, List.mem_cons_self, hfrom, hin⟩
              | some window =>
                simp only [hread] at hrun
                simp only
                split at hrun
                · cases hrun
                  have hreached : o < at_ := ho
                  omega
                · rename_i hgoes
                  rw [if_neg hgoes]
                  exact ⟨_, List.mem_cons_self, hfrom, hin⟩
            · refine Or.inr ⟨by omega, at_, ⟨hat, ⟨0, by omega⟩, ?_⟩, hin⟩
              -- A chunk that was read records no more than the end of the range.
              cases hread : src.read at_ (readable src opts end_ at_) with
              | none => rfl
              | some window =>
                simp only [hread] at hrun
                split at hrun
                · cases hrun
                  have hreached : o < at_ := ho
                  omega
                · have hpast : end_ ≤ at_ + opts.chunk := by omega
                  rw [scanFrom_past_end hpast hrun] at ho
                  have hreached : o < min (at_ + opts.chunk) end_ := ho
                  omega
    · rw [if_neg hat] at hrun
      cases hrun
      omega

/-- All that a scan has found it has found on its device. -/
theorem scanFrom_device {s' : Scan} :
    ∀ fuel at_ s es, Shows opts s es → (∀ e ∈ es, e.device = device) →
      scanFrom c src device ashift opts stop end_ fuel at_ s = some s' →
      ∀ a ∈ s'.hits, a.device = device := by
  have hfound : ∀ s es, Shows opts s es → (∀ e ∈ es, e.device = device) →
      ∀ a ∈ s.hits, a.device = device := by
    intro s es hs hes a ha
    rw [hs.hits] at ha
    exact hes _ (mem_hitsOf.mp (List.mem_of_mem_take ha))
  intro fuel
  induction fuel with
  | zero =>
    intro at_ s es _ _ hrun
    cases hrun
  | succ fuel ih =>
    intro at_ s es hs hes hrun
    rw [scanFrom] at hrun
    by_cases hat : at_ < end_
    · simp only [if_pos hat] at hrun
      split at hrun
      · cases hrun
        intro a ha
        exact hfound s es hs hes a ha
      · split at hrun
        · cases hrun
          exact hfound _ es hs hes
        · cases hread : src.read at_ (readable src opts end_ at_) with
          | none =>
            simp only [hread] at hrun
            exact ih _ _ es (hs.reach _) hes hrun
          | some window =>
            simp only [hread] at hrun
            have hchunk : Shows opts (scanChunk c device ashift opts end_ at_ window
                (s.addRead (readable src opts end_ at_)))
                (es ++ chunkEvents opts device c ashift end_ at_ window) :=
              (hs.addRead _).scanChunk
            have hdevice : ∀ e ∈ es ++ chunkEvents opts device c ashift end_ at_ window,
                e.device = device := by
              intro e he
              rcases List.mem_append.mp he with he | he
              · exact hes e he
              · exact device_of_mem_chunkEvents he
            split at hrun
            · cases hrun
              exact hfound _ _ (hchunk.reach at_) hdevice
            · exact ih _ _ _ (hchunk.reach _) hdevice hrun
    · rw [if_neg hat] at hrun
      cases hrun
      exact hfound _ es hs hes

end Chunks

/-! ## A run on the command line -/

/-- How much of its output a run writes, the index before the state. -/
inductive Ending where
  | nothing
  /-- The index is cut off, so that it is none. -/
  | partOfIndex
  | index
  | partOfState
  | state
  deriving DecidableEq, Repr

/-- What a run is told, and what happens to it. -/
structure Command where
  /-- The members, each with what it reads as if it can be opened. -/
  members : List (String × Option Surface)
  request : Request
  resume : Bool
  ashift : Nat
  /-- The run is interrupted before the member at this position. -/
  skips : Nat → Bool
  /-- It is interrupted in this member, before this chunk. -/
  stops : Nat → Nat → Bool
  ending : Ending

/-- A candidate of the index, with the member that it names. -/
structure Candidate where
  path : String
  hit : Hit
  deriving DecidableEq

/-- What one run did with one member. -/
structure Pass where
  path : String
  /-- What was asked for of it. -/
  asked : Nat × Nat
  chunks : List (Nat × Bool)
  /-- The offset that is recorded. -/
  reached : Nat
  complete : Bool
  hits : List Hit
  deriving DecidableEq

/-- What the runs have left. -/
structure Store where
  /-- The offsets of the state, by position. -/
  reached : List Nat
  complete : Bool
  index : Option (List Candidate)
  /-- The members of the run that wrote the state. -/
  listed : List String
  /-- What all runs did. -/
  history : List Pass
  deriving DecidableEq

def Store.new : Store :=
  { reached := [], complete := false, index := none, listed := [], history := [] }

/-- What is asked for of a member. -/
def Request.asked (q : Request) (src : Surface) : Nat × Nat := rangeOf (q.options q.range) src.size

/-- What is scanned of a member of which a run has reached `from_`. -/
def Request.scanned (q : Request) (src : Surface) (from_ : Nat) : Nat × Nat :=
  rangeOf (q.options (memberRange q.range from_ src.size)) src.size

section Run

variable (c : Codecs) (better : Candidate → Candidate → Bool) (cmd : Command)

/-- The pass over the member at position `i`, from `from_` on; one that cannot be opened is
passed over. -/
def passOne (i from_ : Nat) (path : String) : Option Surface → Option Pass
  | none =>
    some { path, asked := (0, 0), chunks := [], reached := 0, complete := true, hits := [] }
  | some src =>
    if cmd.skips i then
      some { path, asked := cmd.request.asked src, chunks := [], reached := from_
             complete := false, hits := [] }
    else
      let opts := cmd.request.options (memberRange cmd.request.range from_ src.size)
      let range := cmd.request.scanned src from_
      (scanMember c src i cmd.ashift opts (cmd.stops i) (src.size + 1)).map (fun s =>
        { path, asked := cmd.request.asked src
          chunks := passedFrom c src i cmd.ashift opts (cmd.stops i) range.2 (src.size + 1) range.1
            (Scan.start range.1)
          reached := s.resumeAt, complete := !s.stoppedEarly, hits := s.hits })

/-- The passes over the members from position `i` on. -/
def passAll (reached : List Nat) : Nat → List (String × Option Surface) → Option (List Pass)
  | _, [] => some []
  | i, (path, src) :: rest => do
    let pass ← passOne c cmd i (reached.getD i 0) path src
    let passes ← passAll reached (i + 1) rest
    return pass :: passes

/-- The candidate that a hit becomes. -/
def Command.candidate (hit : Hit) : Candidate :=
  { path := (cmd.members.map Prod.fst).getD hit.device "", hit }

/-- The index of a run that adds to what it has found to `earlier`. -/
def Command.indexOf (earlier : List Candidate) (passes : List Pass) : List Candidate :=
  (dedup (fun a => siteOf a.hit)
    ((earlier ++ passes.flatMap (fun p => p.hits.map cmd.candidate)).mergeSort
      (fun a b => siteLe a.hit b.hit))).mergeSort better

/-- What is left after a run that has done these passes. -/
def Store.write (w : Store) (passes : List Pass) : Store :=
  let earlier := ((if cmd.resume then w.index else none).getD [])
  let index := some (cmd.indexOf better earlier passes)
  let w := { w with history := w.history ++ passes }
  match cmd.ending with
  | .nothing => w
  | .partOfIndex => { w with index := none }
  | .index => { w with index }
  | .partOfState => { w with index, reached := [], complete := false, listed := [] }
  | .state =>
    { w with
      index
      reached := passes.map Pass.reached
      complete := passes.all Pass.complete
      listed := cmd.members.map Prod.fst }

/-- The offsets that a run goes on from. -/
def Store.previous (w : Store) : List Nat := if cmd.resume then w.reached else []

def Store.perform (w : Store) : Option Store :=
  (passAll c cmd (w.previous cmd) 0 cmd.members).map (w.write better cmd)

def Store.performAll : List Command → Store → Option Store
  | [], w => some w
  | cmd :: cmds, w => (w.perform c better cmd).bind (performAll cmds)

end Run

/-! ## What must hold -/

/-- The pass got past the offset, in a chunk that it read or did not. -/
def Pass.Covers (p : Pass) (read : Bool) (o : Nat) : Prop :=
  ∃ k, (k, read) ∈ p.chunks ∧ k ≤ o ∧ o < k + 2 ^ 22 ∧ o < p.asked.2

def Pass.Asks (p : Pass) (o : Nat) : Prop := p.asked.1 ≤ o ∧ o < p.asked.2

namespace Store

variable (w : Store) (path : String) (o : Nat)

/-- Some run has asked for this offset of the member. -/
def Asked : Prop := ∃ p ∈ w.history, p.path = path ∧ p.Asks o

/-- Some run has read and examined it. -/
def Examined : Prop := ∃ p ∈ w.history, p.path = path ∧ p.Covers true o

/-- Some run could not read the chunk that it lies in. -/
def Unreadable : Prop := ∃ p ∈ w.history, p.path = path ∧ p.Covers false o

/-- Some run has asked for it and recorded an offset beyond it. -/
def Passed : Prop := ∃ p ∈ w.history, p.path = path ∧ p.Asks o ∧ o < p.reached

/-- Some run has examined it, or could not read the chunk that it lies in. -/
def Seen : Prop := w.Examined path o ∨ w.Unreadable path o

/-- The state takes for read what was read, and the index names the members. -/
structure Kept : Prop where
  offsets : ∀ (i : Nat) path r, w.listed[i]? = some path → w.reached[i]? = some r →
    ∀ o, o < r → w.Asked path o → w.Seen path o
  named : ∀ index, w.index = some index →
    ∀ a ∈ index, ∃ p ∈ w.history, p.path = a.path ∧ a.hit ∈ p.hits

end Store

namespace Command

variable (cmd : Command) (w : Store)

/-- The run asks for this offset of the member. -/
def Asks (path : String) (o : Nat) : Prop :=
  ∃ src, (path, some src) ∈ cmd.members ∧
    (cmd.request.asked src).1 ≤ o ∧ o < (cmd.request.asked src).2

/-- Where the run begins with the member at position `i`. -/
def beginsAt (i : Nat) (src : Surface) : Nat :=
  let from_ := (w.previous cmd).getD i 0
  if cmd.skips i then from_ else (cmd.request.scanned src from_).1

/-- Chunk `k` of the member at position `i` is not readable. -/
def Bad (i : Nat) (src : Surface) (k : Nat) : Prop :=
  let from_ := (w.previous cmd).getD i 0
  cmd.skips i = false ∧
    BadChunk src (cmd.request.options (memberRange cmd.request.range from_ src.size))
      (cmd.request.scanned src from_).1 (cmd.request.asked src).2 k

/-- Of what was asked for, a run passes over only what an earlier run on the same member had
passed, and leaves no offset behind that speaks for what it asks for first. -/
structure Meets : Prop where
  begins : ∀ (i : Nat) path src, cmd.members[i]? = some (path, some src) →
    ∀ o, w.Asked path o ∨ cmd.Asks path o → o < cmd.beginsAt w i src → w.Passed path o
  ends : ∀ (i : Nat) path src, cmd.members[i]? = some (path, some src) →
    ∀ o k, w.Asked path o ∨ cmd.Asks path o → cmd.Bad w i src k →
      (cmd.request.asked src).2 ≤ o → o < k + 2 ^ 22 → w.Passed path o
  unwritten : cmd.ending ≠ .state → cmd.ending ≠ .partOfState →
    ∀ (i : Nat) path r, w.listed[i]? = some path → w.reached[i]? = some r →
      ∀ o, o < r → cmd.Asks path o → w.Asked path o

end Command

/-! ## One run -/

section Step

variable {c : Codecs} {better : Candidate → Candidate → Bool} {cmd : Command} {w : Store}

theorem Request.scanned_end (q : Request) (src : Surface) (from_ : Nat) :
    (q.scanned src from_).2 = (q.asked src).2 := by
  unfold Request.scanned Request.asked memberRange rangeOf Request.options
  cases q.range with
  | some range => rfl
  | none =>
    by_cases hfrom : from_ = 0
    · simp [hfrom]
    · simp [hfrom]

/-- A pass leaves behind it what lies before its beginning and what it got past. -/
theorem passOne_behind {i : Nat} {path : String} {src : Surface} {p : Pass}
    (h : passOne c cmd i ((w.previous cmd).getD i 0) path (some src) = some p) {o : Nat}
    (ho : o < p.reached) (hfrom : cmd.beginsAt w i src ≤ o) :
    p.Covers true o ∨ p.Covers false o ∨
      (cmd.request.asked src).2 ≤ o ∧ ∃ k, cmd.Bad w i src k ∧ o < k + 2 ^ 22 := by
  rw [passOne] at h
  rw [Command.beginsAt] at hfrom
  by_cases hskip : cmd.skips i = true
  · simp only [if_pos hskip, Option.some.injEq] at h hfrom
    subst h
    have hreached : o < (w.previous cmd).getD i 0 := ho
    omega
  · simp only [if_neg hskip, Option.map_eq_some_iff] at h hfrom
    obtain ⟨s, hs, rfl⟩ := h
    rw [scanMember] at hs
    rcases scanFrom_behind _ _ (Scan.start _) (le_refl _) hs o hfrom ho with
      ⟨hend, ⟨k, read⟩, hk, hle, hlt⟩ | ⟨hend, k, hbad, hlt⟩
    · have hcovers : o < (cmd.request.asked src).2 := by
        rw [← Request.scanned_end]
        exact hend
      cases read with
      | true => exact Or.inl ⟨k, hk, hle, hlt, hcovers⟩
      | false => exact Or.inr (Or.inl ⟨k, hk, hle, hlt, hcovers⟩)
    · refine Or.inr (Or.inr ⟨?_, k, ⟨Bool.eq_false_iff.mpr hskip, ?_⟩, hlt⟩)
      · rw [← Request.scanned_end]
        exact hend
      · rw [← Request.scanned_end]
        exact hbad

/-- What a pass was told, and what it found. -/
theorem passOne_spec {i from_ : Nat} {path : String} {src : Option Surface} {p : Pass}
    (h : passOne c cmd i from_ path src = some p) :
    p.path = path ∧ (∀ a ∈ p.hits, a.device = i) ∧
      p.asked = (src.map cmd.request.asked).getD (0, 0) ∧ (src = none → p.reached = 0) := by
  cases src with
  | none =>
    rw [passOne] at h
    cases h
    exact ⟨rfl, fun a ha => absurd ha List.not_mem_nil, rfl, fun _ => rfl⟩
  | some src =>
    rw [passOne] at h
    by_cases hskip : cmd.skips i = true
    · simp only [if_pos hskip, Option.some.injEq] at h
      subst h
      exact ⟨rfl, fun a ha => absurd ha List.not_mem_nil, rfl, nofun⟩
    · simp only [if_neg hskip, Option.map_eq_some_iff] at h
      obtain ⟨s, hs, rfl⟩ := h
      rw [scanMember] at hs
      refine ⟨rfl, ?_, rfl, nofun⟩
      exact scanFrom_device _ _ _ [] (Shows.start _) (fun e he => absurd he List.not_mem_nil) hs

/-- The passes of a run are those over its members, in their order. -/
theorem passAll_spec {reached : List Nat} :
    ∀ ms i passes, passAll c cmd reached i ms = some passes →
      passes.map Pass.path = ms.map Prod.fst ∧
      ∀ (j : Nat) p, passes[j]? = some p → ∃ m, ms[j]? = some m ∧
        passOne c cmd (i + j) (reached.getD (i + j) 0) m.1 m.2 = some p := by
  intro ms
  induction ms with
  | nil =>
    intro i passes h
    rw [passAll] at h
    cases h
    refine ⟨rfl, fun j p hp => ?_⟩
    rw [List.getElem?_nil] at hp
    cases hp
  | cons m ms ih =>
    intro i passes h
    rw [passAll] at h
    obtain ⟨pass, hpass, h⟩ := Option.bind_eq_some_iff.mp h
    obtain ⟨rest, hrest, h⟩ := Option.bind_eq_some_iff.mp h
    cases h
    obtain ⟨hpaths, hall⟩ := ih (i + 1) rest hrest
    refine ⟨?_, fun j p hp => ?_⟩
    · rw [List.map_cons, List.map_cons, hpaths, (passOne_spec hpass).1]
    · cases j with
      | zero =>
        cases hp
        exact ⟨m, rfl, hpass⟩
      | succ j =>
        obtain ⟨m', hm', hone⟩ := hall j p hp
        have hi : i + (j + 1) = i + 1 + j := by omega
        rw [hi]
        exact ⟨m', hm', hone⟩

variable {w' : Store}

theorem write_history (passes : List Pass) :
    (w.write better cmd passes).history = w.history ++ passes := by
  rw [Store.write]
  cases cmd.ending with
  | nothing | partOfIndex | index | partOfState | state => rfl

/-- A run adds its passes to what the runs did. -/
theorem perform_spec (h : w.perform c better cmd = some w') :
    ∃ passes, passAll c cmd (w.previous cmd) 0 cmd.members = some passes ∧
      w' = w.write better cmd passes ∧ w'.history = w.history ++ passes := by
  rw [Store.perform, Option.map_eq_some_iff] at h
  obtain ⟨passes, hpasses, rfl⟩ := h
  exact ⟨passes, hpasses, rfl, write_history passes⟩

/-- A candidate that a run adds names the member that it was found on. -/
theorem candidate_path {passes : List Pass}
    (hpasses : passAll c cmd (w.previous cmd) 0 cmd.members = some passes) {p : Pass}
    (hp : p ∈ passes) {a : Hit} (ha : a ∈ p.hits) : (cmd.candidate a).path = p.path := by
  obtain ⟨hpaths, hall⟩ := passAll_spec _ _ _ hpasses
  obtain ⟨j, hj⟩ := List.mem_iff_getElem?.mp hp
  obtain ⟨m, -, hone⟩ := hall j p hj
  have hdevice : a.device = j := by
    have hthis := (passOne_spec hone).2.1 a ha
    omega
  show (cmd.members.map Prod.fst).getD a.device "" = p.path
  rw [← hpaths, hdevice, List.getD_eq_getElem?_getD, List.getElem?_map, hj]
  rfl

theorem mem_indexOf {earlier : List Candidate} {passes : List Pass} {a : Candidate}
    (h : a ∈ cmd.indexOf better earlier passes) :
    a ∈ earlier ∨ ∃ p ∈ passes, ∃ hit ∈ p.hits, cmd.candidate hit = a := by
  have hordered : Ordered (fun a : Candidate => siteOf a.hit) (fun a b => siteLe a.hit b.hit) :=
    { trans := fun a b d => siteLe_ordered.trans a.hit b.hit d.hit
      total := fun a b => siteLe_ordered.total a.hit b.hit
      antisymm := fun a b => siteLe_ordered.antisymm a.hit b.hit
      of_eq := fun a b => siteLe_ordered.of_eq a.hit b.hit }
  rw [Command.indexOf, List.mem_mergeSort, mem_dedup_mergeSort hordered] at h
  rcases List.mem_append.mp h.mem with h | h
  · exact Or.inl h
  · obtain ⟨p, hp, h⟩ := List.mem_flatMap.mp h
    obtain ⟨hit, hhit, heq⟩ := List.mem_map.mp h
    exact Or.inr ⟨p, hp, hit, hhit, heq⟩

/-- What an index holds after a run it held before, or the run has added it. -/
theorem index_write {passes : List Pass} {index : List Candidate} {a : Candidate}
    (h : (w.write better cmd passes).index = some index) (ha : a ∈ index) :
    (∃ index0, w.index = some index0 ∧ a ∈ index0) ∨
      ∃ p ∈ passes, ∃ hit ∈ p.hits, cmd.candidate hit = a := by
  have hadded : a ∈ cmd.indexOf better ((if cmd.resume then w.index else none).getD []) passes →
      (∃ index0, w.index = some index0 ∧ a ∈ index0) ∨
        ∃ p ∈ passes, ∃ hit ∈ p.hits, cmd.candidate hit = a := by
    intro ha
    rcases mem_indexOf ha with hearlier | hnew
    · left
      split at hearlier
      · cases hindex : w.index with
        | none =>
          rw [hindex] at hearlier
          cases hearlier
        | some index0 =>
          rw [hindex] at hearlier
          exact ⟨index0, rfl, hearlier⟩
      · cases hearlier
    · exact Or.inr hnew
  rw [Store.write] at h
  cases hending : cmd.ending with
  | nothing =>
    simp only [hending] at h
    exact Or.inl ⟨index, h, ha⟩
  | partOfIndex =>
    simp only [hending] at h
    cases h
  | index | partOfState | state =>
    simp only [hending, Option.some.injEq] at h
    rw [← h] at ha
    exact hadded ha

theorem Store.Seen.mono {path : String} {o : Nat} {passes : List Pass}
    (hhistory : w'.history = w.history ++ passes) (h : w.Seen path o) : w'.Seen path o := by
  have hmem : ∀ p ∈ w.history, p ∈ w'.history := by
    intro p hp
    rw [hhistory]
    exact List.mem_append_left _ hp
  rcases h with ⟨p, hp, hrest⟩ | ⟨p, hp, hrest⟩
  · exact Or.inl ⟨p, hmem p hp, hrest⟩
  · exact Or.inr ⟨p, hmem p hp, hrest⟩

/-- What a pass asks for its run asks for. -/
theorem asks_of_pass {passes : List Pass}
    (hpasses : passAll c cmd (w.previous cmd) 0 cmd.members = some passes) {p : Pass}
    (hp : p ∈ passes) {o : Nat} (ho : p.Asks o) : cmd.Asks p.path o := by
  obtain ⟨-, hall⟩ := passAll_spec _ _ _ hpasses
  obtain ⟨j, hj⟩ := List.mem_iff_getElem?.mp hp
  obtain ⟨⟨path, src⟩, hm, hone⟩ := hall j p hj
  obtain ⟨hpath, -, hasked, -⟩ := passOne_spec hone
  rw [Pass.Asks, hasked] at ho
  cases src with
  | none => exact absurd ho.2 (Nat.not_lt_zero o)
  | some src =>
    refine ⟨src, ?_, ho⟩
    rw [hpath]
    exact List.mem_of_getElem? hm

/-- What was passed was seen, and the state and the index tell the truth. -/
structure Store.Sound (w : Store) : Prop where
  kept : w.Kept
  passed : ∀ path o, w.Passed path o → w.Seen path o

theorem Store.Sound.new : Store.new.Sound where
  kept :=
    { offsets := fun i path r hi => by cases hi
      named := fun index hindex => by cases hindex }
  passed path o h := by
    obtain ⟨p, hp, -⟩ := h
    cases hp

/-- The pass over a member records only what was seen of it. -/
theorem Store.Sound.reached (hw : w.Sound) (hmeets : cmd.Meets w) {passes : List Pass}
    (hpasses : passAll c cmd (w.previous cmd) 0 cmd.members = some passes)
    (hhistory : w'.history = w.history ++ passes) {p : Pass} (hp : p ∈ passes) {o : Nat}
    (ho : o < p.reached) (hasked : w.Asked p.path o ∨ cmd.Asks p.path o) : w'.Seen p.path o := by
  obtain ⟨-, hall⟩ := passAll_spec _ _ _ hpasses
  obtain ⟨j, hj⟩ := List.mem_iff_getElem?.mp hp
  obtain ⟨⟨path, src⟩, hm, hone⟩ := hall j p hj
  obtain ⟨hpath, -, -, hclosed⟩ := passOne_spec hone
  rw [Nat.zero_add] at hone
  have hin : p ∈ w'.history := by
    rw [hhistory]
    exact List.mem_append_right _ hp
  cases src with
  | none =>
    rw [hclosed rfl] at ho
    exact absurd ho (Nat.not_lt_zero o)
  | some src =>
    rw [hpath] at hasked ⊢
    by_cases hbegins : o < cmd.beginsAt w j src
    · exact (hw.passed path o (hmeets.begins j path src hm o hasked hbegins)).mono hhistory
    · rcases passOne_behind hone ho (Nat.le_of_not_lt hbegins) with
        hread | hunread | ⟨hend, k, hbad, hlt⟩
      · exact Or.inl ⟨p, hin, hpath, hread⟩
      · exact Or.inr ⟨p, hin, hpath, hunread⟩
      · exact (hw.passed path o (hmeets.ends j path src hm o k hasked hbad hend hlt)).mono hhistory

/-- A run that meets the condition leaves a state and an index that tell the truth. -/
theorem Store.Sound.perform (hw : w.Sound) (hmeets : cmd.Meets w)
    (h : w.perform c better cmd = some w') : w'.Sound := by
  obtain ⟨passes, hpasses, hwrite, hhistory⟩ := perform_spec h
  have hreached : ∀ p ∈ passes, ∀ o, o < p.reached →
      w.Asked p.path o ∨ cmd.Asks p.path o → w'.Seen p.path o :=
    fun p hp o => hw.reached hmeets hpasses hhistory hp
  have hasked : ∀ path o, w'.Asked path o → w.Asked path o ∨ cmd.Asks path o := by
    rintro path o ⟨p, hp, rfl, ho⟩
    rw [hhistory] at hp
    rcases List.mem_append.mp hp with hp | hp
    · exact Or.inl ⟨p, hp, rfl, ho⟩
    · exact Or.inr (asks_of_pass hpasses hp ho)
  refine ⟨⟨fun i path r hi hr o ho hask => ?_, fun index hindex a ha => ?_⟩, ?_⟩
  · have hstanding : cmd.ending ≠ .state → cmd.ending ≠ .partOfState →
        w.listed[i]? = some path → w.reached[i]? = some r → w'.Seen path o := by
      intro hstate hpart hi hr
      have hbefore : w.Asked path o := by
        rcases hasked path o hask with hask | hask
        · exact hask
        · exact hmeets.unwritten hstate hpart i path r hi hr o ho hask
      exact (hw.kept.offsets i path r hi hr o ho hbefore).mono hhistory
    rw [hwrite, Store.write] at hi hr
    cases hending : cmd.ending with
    | nothing | partOfIndex | index =>
      simp only [hending] at hi hr
      exact hstanding (by simp [hending]) (by simp [hending]) hi hr
    | partOfState =>
      simp only [hending] at hr
      cases hr
    | state =>
      simp only [hending] at hi hr
      obtain ⟨hpaths, -⟩ := passAll_spec _ _ _ hpasses
      rw [← hpaths, List.getElem?_map, Option.map_eq_some_iff] at hi
      rw [List.getElem?_map, Option.map_eq_some_iff] at hr
      obtain ⟨p, hp, rfl⟩ := hi
      obtain ⟨p', hp', rfl⟩ := hr
      cases hp.symm.trans hp'
      exact hreached p (List.mem_of_getElem? hp) o ho (hasked p.path o hask)
  · rw [hwrite] at hindex
    rw [hhistory]
    rcases index_write hindex ha with ⟨index0, hindex0, ha0⟩ | ⟨p, hp, hit, hhit, rfl⟩
    · obtain ⟨p, hp, hpath, hhit⟩ := hw.kept.named index0 hindex0 a ha0
      exact ⟨p, List.mem_append_left _ hp, hpath, hhit⟩
    · exact ⟨p, List.mem_append_right _ hp, (candidate_path hpasses hp hhit).symm, hhit⟩
  · rintro path o ⟨p, hp, rfl, ho, hlt⟩
    rw [hhistory] at hp
    rcases List.mem_append.mp hp with hp | hp
    · exact (hw.passed p.path o ⟨p, hp, rfl, ho, hlt⟩).mono hhistory
    · exact hreached p hp o hlt (Or.inr (asks_of_pass hpasses hp ho))

theorem passOne_isSome {i from_ : Nat} {path : String} {src : Option Surface} :
    (passOne c cmd i from_ path src).isSome := by
  cases src with
  | none => rfl
  | some src =>
    rw [passOne]
    by_cases hskip : cmd.skips i = true
    · rw [if_pos hskip]
      rfl
    · simp only [if_neg hskip, Option.isSome_map, scanMember]
      refine scanFrom_isSome (Nat.two_pow_pos 22) src.size _ _ ?_
      have hend : (cmd.request.asked src).2 ≤ src.size := by
        rw [Request.asked, rangeOf]
        split
        · exact Nat.min_le_right _ _
        · exact le_refl _
      have hscanned := cmd.request.scanned_end src from_
      rw [Request.scanned] at hscanned
      omega

theorem passAll_isSome {reached : List Nat} :
    ∀ ms i, (passAll c cmd reached i ms).isSome := by
  intro ms
  induction ms with
  | nil =>
    intro i
    rfl
  | cons m ms ih =>
    intro i
    have hone : (passOne c cmd i (reached.getD i 0) m.1 m.2).isSome := passOne_isSome
    obtain ⟨p, hp⟩ := Option.isSome_iff_exists.mp hone
    obtain ⟨rest, hrest⟩ := Option.isSome_iff_exists.mp (ih (i + 1))
    rw [passAll, hp, hrest]
    rfl

theorem perform_isSome : (w.perform c better cmd).isSome := by
  rw [Store.perform, Option.isSome_map]
  exact passAll_isSome _ _

end Step

/-! ## All runs -/

section Runs

variable (c : Codecs) (better : Candidate → Candidate → Bool)

/-- Each of the runs meets the condition, in the state that it finds. -/
def AllMeet : List Command → Store → Prop
  | [], _ => True
  | cmd :: cmds, w => cmd.Meets w ∧ ∀ w', w.perform c better cmd = some w' → AllMeet cmds w'

variable {c better}

theorem Store.Sound.performAll :
    ∀ cmds (w : Store), w.Sound → AllMeet c better cmds w →
      ∃ w', w.performAll c better cmds = some w' ∧ w'.Sound := by
  intro cmds
  induction cmds with
  | nil =>
    intro w hw _
    exact ⟨w, rfl, hw⟩
  | cons cmd cmds ih =>
    intro w hw hmeets
    have hone : (w.perform c better cmd).isSome := perform_isSome
    obtain ⟨w1, hw1⟩ := Option.isSome_iff_exists.mp hone
    obtain ⟨w', hrest, hsound⟩ := ih w1 (hw.perform hmeets.1 hw1) (hmeets.2 w1 hw1)
    refine ⟨w', ?_, hsound⟩
    rw [Store.performAll, hw1]
    exact hrest

/-- A member without a dnode. -/
def blankSurface : Surface :=
  { size := 1024, read := fun _ n => some (List.replicate n 0) }

/-- A run over one such member to its end. -/
def scanBlank (path : String) (resume : Bool) : Command :=
  { members := [(path, some blankSurface)], request := anyDnode 1, resume, ashift := 9
    skips := fun _ => false, stops := fun _ _ => false, ending := .state }

/-- What one of these runs did. -/
def blankPass (path : String) (chunks : List (Nat × Bool)) : Pass :=
  { path, asked := (0, 1024), chunks, reached := 1024, complete := true, hits := [] }

/-- What they leave. -/
def blankStore (path : String) (history : List Pass) : Store :=
  { reached := [1024], complete := true, index := some [], listed := [path], history }

theorem scanBlank_perform :
    Store.new.perform noCodecs (fun _ _ => true) (scanBlank "a" false) =
      some (blankStore "a" [blankPass "a" [(0, true)]]) := by
  decide +kernel

theorem scanBlank_asked {path : String} {resume : Bool} {o : Nat} {other : String}
    (h : (scanBlank path resume).Asks other o) : other = path ∧ o < 1024 := by
  obtain ⟨src, hmem, -, hlt⟩ := h
  cases List.mem_singleton.mp hmem
  exact ⟨rfl, hlt⟩

end Runs

end Member
end Carve
end ZvolRescue
