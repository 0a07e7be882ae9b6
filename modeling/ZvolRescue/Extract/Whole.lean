import ZvolRescue.Extract.Resumed

/-!
# One image by several runs

Each run of a sequence takes up what the one before it left, or starts over.  `origin` says
what each block of the image came from; the file is made of it (`Sequence.image`).  The last
status is 0 with nothing lost exactly when the blocks taken over from earlier runs are whole
(`success_means_whole_iff`).
-/

namespace ZvolRescue
namespace Extract

open Lib Ondisk Zio Dmu

variable {σ : Type}

/-- A run of `dump`: its volume and options, where it is interrupted, when checkpoints are due
and what state the pool is in. -/
structure DumpRun (σ : Type) where
  target : Target (StateM σ)
  opts : DumpOptions
  stop : Nat → Bool
  due : Nat → Bool
  pool : σ

/-- What the runs so far left, and what the blocks of the image came from. -/
structure Dumped where
  out : Output
  origin : List BlockRead
  /-- The block the last run started at, and how it ended. -/
  start : Nat
  ending : Ending
  result : Except Nat DumpOut

/-- The status of the last run. -/
def Dumped.status (d : Dumped) : Nat :=
  match d.result with
  | .ok dump => exitCode dump.report
  | .error code => code

namespace DumpRun

variable (r : DumpRun σ) (out : Output)

def start : Nat := (r.target.opened r.opts out).1

def outcome : Nat × Ending := r.target.outcome r.opts r.stop (r.start out) r.pool

/-- What the blocks that the run takes in give. -/
def taken : List BlockRead :=
  (List.range' (r.start out) (r.outcome out).1).map
    (r.target.reads r.opts (r.start out) r.pool)

/-- A run without `--strict` that completes or is interrupted. -/
structure Allowed : Prop where
  sound : r.target.Sound
  strict : r.opts.strict = false
  ends : (r.outcome out).2 ≠ .stopped

/-- What is left once the run has gone over what was left. -/
def after (hashes : ImageHashes) (origin : List BlockRead) : Dumped :=
  let dumped := (dumpOne hashes r.target r.opts r.stop r.due out r.pool).1
  { out := dumped.2
    origin := origin.take (r.start out) ++ r.taken out
    start := r.start out
    ending := (r.outcome out).2
    result := dumped.1 }

end DumpRun

/-- Sequences of runs on one output. -/
inductive Sequence (σ : Type) (hashes : ImageHashes) : Dumped → Prop where
  /-- The first run starts a new image. -/
  | first {r : DumpRun σ} {out : Output} (h : r.Allowed out)
      (hnew : r.opts.resume = false ∨ out.state = none) : Sequence σ hashes (r.after out hashes [])
  | next {d : Dumped} {r : DumpRun σ} (hd : Sequence σ hashes d) (h : r.Allowed d.out)
      (hresume : r.opts.resume = true) : Sequence σ hashes (r.after d.out hashes d.origin)

/-- The image of a volume by what its blocks came from; what was not visited is zeros. -/
def madeOf (bs vol : Nat) (origin : List BlockRead) : List UInt8 :=
  setLen (writeBlocks bs (content bs vol (fun b => origin.getD b .hole)) 0 [] origin.length) vol

/-- A state next to an image claims the blocks that are there. -/
def Claims (out : Output) (origin : List BlockRead) : Prop :=
  ∀ st, out.state = some st → st.blocksDone = origin.length ∧
    st.blocksDone * st.blocksize ≤ st.volsize ∧
    out.image = some (madeOf st.blocksize st.volsize origin)

theorem claims_nil {out : Output} (h : out.state = none) : Claims out [] := by
  intro st hst
  rw [h] at hst
  cases hst

/-! ## One run -/

theorem getD_append_map (l : List BlockRead) (f : Nat → BlockRead) {n b : Nat}
    (hb : b < l.length + n) :
    (l ++ (List.range' l.length n).map f).getD b .hole =
      if b < l.length then l.getD b .hole else f b := by
  by_cases hlt : b < l.length
  · rw [if_pos hlt, List.getD_append _ _ _ _ hlt]
  · rw [if_neg hlt, List.getD_append_right _ _ _ _ (by omega), List.getD_eq_getElem?_getD,
      List.getElem?_map, List.getElem?_range' (by omega), Option.map_some, Option.getD_some]
    congr 1
    omega

/-- Blocks written from the end of an image on make the image of what it came from with the
new blocks. -/
theorem madeOf_append {bs vol : Nat} (origin : List BlockRead) (reads : Nat → BlockRead)
    (n : Nat) :
    setLen (writeBlocks bs (content bs vol reads) origin.length (madeOf bs vol origin) n) vol =
      madeOf bs vol (origin ++ (List.range' origin.length n).map reads) := by
  have hold : ∀ i, i < origin.length →
      content bs vol (fun b => origin.getD b .hole) (0 + i) =
        content bs vol (fun b => (origin ++ (List.range' origin.length n).map reads).getD b .hole)
          (0 + i) := by
    intro i hi
    simp only [content, Nat.zero_add, getD_append_map origin reads (show i < origin.length + n by omega),
      if_pos hi]
  have hnew : ∀ i, i < n → content bs vol reads (origin.length + i) =
      content bs vol (fun b => (origin ++ (List.range' origin.length n).map reads).getD b .hole)
        (origin.length + i) := by
    intro i hi
    have hge : ¬ origin.length + i < origin.length := by omega
    simp only [content, getD_append_map origin reads
      (show origin.length + i < origin.length + n by omega), if_neg hge]
  rw [madeOf, writeBlocks_congr 0 [] hold, writeBlocks_congr origin.length _ hnew,
    setLen_writeBlocks_add (content_cut bs vol _), madeOf, List.length_append, List.length_map,
    List.length_range']

theorem madeOf_nil (bs vol : Nat) : madeOf bs vol [] = setLen [] vol := rfl

namespace DumpRun

variable {r : DumpRun σ} {out : Output} {origin : List BlockRead}

theorem Allowed.starts (h : r.Allowed out)
    (hout : r.opts.resume = false ∨ Claims out origin) : r.target.Starts r.opts out := by
  rcases hout with hnew | hclaims
  · exact r.target.starts_fresh out hnew
  · apply h.sound.starts
    intro st hst hkey
    have hle := (hclaims st hst).2.1
    have hbs : st.blocksize = r.target.blocksize := congrArg State.blocksize hkey
    have hvol : st.volsize = r.target.volsize := congrArg State.volsize hkey
    rwa [hbs, hvol] at hle

/-- Where a run takes up an image, that is the image of what its blocks came from. -/
theorem Allowed.taken_up (h : r.Allowed out)
    (hout : r.opts.resume = false ∨ Claims out origin) :
    r.start out = 0 ∧ (r.target.opened r.opts out).2.2.file = [] ∨
      r.start out = origin.length ∧ (r.target.opened r.opts out).2.2.file =
        madeOf r.target.blocksize r.target.volsize origin := by
  have hopened := (h.starts hout).opened
  rcases hopened.origin with hzero | ⟨st, hst, hkey, hstart, himage⟩
  · exact Or.inl ⟨hzero, hopened.new hzero⟩
  · by_cases hzero : r.start out = 0
    · exact Or.inl ⟨hzero, hopened.new hzero⟩
    rcases hout with hnew | hclaims
    · have hfresh : r.start out = 0 := by
        rw [start, Target.opened, hnew, openOutput_fresh]
      exact absurd hfresh hzero
    · obtain ⟨hdone, -, hmade⟩ := hclaims st hst
      have hbs : st.blocksize = r.target.blocksize := congrArg State.blocksize hkey
      have hvol : st.volsize = r.target.volsize := congrArg State.volsize hkey
      rw [himage, Option.some.injEq, hbs, hvol] at hmade
      exact Or.inr ⟨hstart.trans hdone, hmade⟩

/-- What a run leaves of an output and of what its blocks came from. -/
structure Left (r : DumpRun σ) (hashes : ImageHashes) (out : Output) (origin : List BlockRead)
    (d : Dumped) (dump : DumpOut) (run : Run SparseFile) : Prop where
  result : d.result = .ok dump
  start : d.start = r.start out
  extracted : Extracted hashes (r.target.reads r.opts d.start r.pool) r.stop r.target.blocksize
    r.target.volsize r.target.blocks d.start (r.target.opened r.opts out).2.1
    (r.target.opened r.opts out).2.2.file (r.outcome out).1 d.ending dump.report run
  image : d.out.image = some (madeOf r.target.blocksize r.target.volsize d.origin)
  claims : Claims d.out d.origin
  earlier : d.origin.take d.start = origin.take d.start
  own : d.origin.drop d.start = r.taken out

theorem after_ending (r : DumpRun σ) (out : Output) (hashes : ImageHashes)
    (origin : List BlockRead) : (r.after out hashes origin).ending = (r.outcome out).2 := rfl

theorem Allowed.left (h : r.Allowed out) (hout : r.opts.resume = false ∨ Claims out origin)
    (hashes : ImageHashes) :
    ∃ dump run, r.Left hashes out origin (r.after out hashes origin) dump run := by
  have hpos := Nat.pos_of_ne_zero h.sound.blocksize
  obtain ⟨dump, run, hex, -, hdump⟩ := h.sound.dumpOne (h.starts hout) hashes r.stop r.due r.pool
  have hrun : run.sink.file = setLen (writeBlocks r.target.blocksize
      (content r.target.blocksize r.target.volsize (r.target.reads r.opts (r.start out) r.pool))
      (r.start out) (r.target.opened r.opts out).2.2.file (r.outcome out).1) r.target.volsize :=
    hex.file.trans (if_neg h.ends)
  -- What is kept of the earlier blocks ends where the run starts.
  obtain ⟨kept, hkept, hlen, hfile⟩ : ∃ kept, origin.take (r.start out) = kept ∧
      kept.length = r.start out ∧ run.sink.file =
        madeOf r.target.blocksize r.target.volsize (kept ++ r.taken out) := by
    rcases h.taken_up hout with ⟨hzero, hnew⟩ | ⟨hall, hold⟩
    · refine ⟨[], by rw [hzero, List.take_zero], hzero.symm, ?_⟩
      have hadd := setLen_writeBlocks_add
        (content_cut r.target.blocksize r.target.volsize
          (r.target.reads r.opts 0 r.pool)) 0 (r.outcome out).1
      rw [Nat.zero_add] at hadd
      rw [hrun, taken, hnew, hzero, ← hadd]
      exact madeOf_append [] _ _
    · refine ⟨origin, by rw [hall, List.take_length], hall.symm, ?_⟩
      rw [hrun, hold, taken, hall]
      exact madeOf_append origin _ _
  have horigin : (r.after out hashes origin).origin = kept ++ r.taken out := by
    rw [← hkept]
    rfl
  have hleft := congrArg Prod.snd hdump
  have himage : (r.after out hashes origin).out.image =
      some (madeOf r.target.blocksize r.target.volsize (r.after out hashes origin).origin) := by
    rw [horigin, ← hfile]
    exact congrArg Output.image hleft
  refine ⟨dump, run, ?_⟩
  refine
    { result := congrArg Prod.fst hdump
      start := rfl
      extracted := hex
      image := himage
      claims := ?_
      earlier := ?_
      own := ?_ }
  · intro st hst
    have hstate : (if (r.outcome out).2 = .complete then none
        else some { r.target.expected with
          blocksDone := doneBlocks dump.report (r.start out) }) = some st :=
      (congrArg Output.state hleft).symm.trans hst
    have hends : Ends _ _ _ _ (r.outcome out).1 (r.outcome out).2 := hex.ends
    cases hending : (r.outcome out).2 with
    | complete =>
      rw [hending, if_pos rfl] at hstate
      cases hstate
    | stopped => exact absurd hending h.ends
    | interrupted =>
      have hdone : doneBlocks dump.report (r.start out) = r.start out + (r.outcome out).1 := by
        have hex' := hex
        rw [show (r.target.outcome r.opts r.stop (r.target.opened r.opts out).1 r.pool).2 =
          .interrupted from hending] at hex'
        exact doneBlocks_interrupted hex'
      rw [hending, if_neg (by simp), hdone] at hstate
      cases hstate
      refine ⟨?_, ?_, himage⟩
      · rw [horigin, List.length_append, hlen, taken, List.length_map, List.length_range']
      · have hlt : (r.outcome out).1 < r.target.blocks - r.start out :=
          (hends.interrupted hending).1
        have hle : r.target.blocks ≤ divCeil r.target.volsize r.target.blocksize :=
          Nat.min_le_right _ _
        have hin : r.start out + (r.outcome out).1 <
            divCeil r.target.volsize r.target.blocksize := by
          omega
        exact Nat.le_of_lt (mul_lt_of_lt_divCeil hpos hin)
  · rw [horigin]
    show _ = origin.take (r.start out)
    rw [hkept]
    exact List.take_left' hlen
  · rw [horigin]
    exact List.drop_left' hlen

end DumpRun

/-! ## The status -/

theorem counts_damaged (bs vol : Nat) (reads : Nat → BlockRead) (l : List Nat) :
    let total := (l.map (fun b => (reads b).counts (blockLen bs vol b))).sum
    total.2.2.1 + total.2.2.2.1 = 0 ↔ ∀ b ∈ l, (reads b).damaged = false := by
  induction l with
  | nil => simp
  | cons b l ih =>
    simp only [List.map_cons, List.sum_cons, Prod.snd_add, Prod.fst_add, List.forall_mem_cons] at ih ⊢
    rw [← ih]
    cases hread : reads b <;> simp [BlockRead.counts, BlockRead.damaged]

/-- Status 0: every block was visited, and read. -/
theorem exitCode_eq_zero_iff {hashes : ImageHashes} {reads : Nat → BlockRead} {stop : Nat → Bool}
    {bs vol total start n : Nat} {digests : Digests} {file : List UInt8} {ending : Ending}
    {report : Report} {run : Run SparseFile}
    (h : Extracted hashes reads stop bs vol total start digests file n ending report run) :
    exitCode report = 0 ↔
      ending = .complete ∧ ∀ b ∈ List.range' start n, (reads b).damaged = false := by
  have hzeroed : report.blocksZeroed = (countsOf bs vol reads start n).2.2.1 :=
    congrArg (fun c => c.2.2.1) h.counters
  have hsalvaged : report.blocksSalvaged = (countsOf bs vol reads start n).2.2.2.1 :=
    congrArg (fun c => c.2.2.2.1) h.counters
  have hdamaged : report.blocksZeroed + report.blocksSalvaged = 0 ↔
      ∀ b ∈ List.range' start n, (reads b).damaged = false := by
    rw [hzeroed, hsalvaged]
    exact counts_damaged bs vol reads _
  rw [← hdamaged]
  cases ending with
  | complete =>
    have haborted : report.aborted = false := h.aborted
    have hat : report.interruptedAt = none := h.interruptedAt
    by_cases hlost : report.blocksZeroed + report.blocksSalvaged = 0
    · simp [exitCode, Exit.afterExtraction, haborted, hat, hlost]
    · simp [exitCode, Exit.afterExtraction, haborted, hat, Exit.part, Nat.pos_of_ne_zero hlost]
      omega
  | interrupted =>
    have hat : report.interruptedAt = some (start + n) := h.interruptedAt
    simp [exitCode, hat, Exit.interrupted]
  | stopped =>
    have haborted : report.aborted = true := h.aborted
    have hat : report.interruptedAt = none := h.interruptedAt
    simp [exitCode, Exit.afterExtraction, haborted, hat, Exit.part]

namespace Sequence

variable {hashes : ImageHashes} {d : Dumped}

/-- Every run of a sequence leaves an image of what its blocks came from. -/
theorem left (h : Sequence σ hashes d) :
    ∃ (r : DumpRun σ) (out : Output) (origin : List BlockRead) (dump : DumpOut)
      (run : Run SparseFile), d.ending ≠ .stopped ∧ r.Left hashes out origin d dump run := by
  induction h with
  | @first r out h hnew =>
    have hout : r.opts.resume = false ∨ Claims out [] := by
      rcases hnew with hnew | hnone
      · exact Or.inl hnew
      · exact Or.inr (claims_nil hnone)
    obtain ⟨dump, run, hleft⟩ := h.left hout hashes
    exact ⟨r, out, [], dump, run, h.ends, hleft⟩
  | @next d r hd h hresume ih =>
    obtain ⟨_, _, _, _, _, -, hbefore⟩ := ih
    obtain ⟨dump, run, hleft⟩ := h.left (Or.inr hbefore.claims) hashes
    exact ⟨r, d.out, d.origin, dump, run, h.ends, hleft⟩

/-- The file is made of what the blocks of the image came from. -/
theorem image (h : Sequence σ hashes d) :
    ∃ bs vol, d.out.image = some (madeOf bs vol d.origin) := by
  obtain ⟨r, out, origin, dump, run, -, hleft⟩ := h.left
  exact ⟨_, _, hleft.image⟩

end Sequence

/-- Status 0 means a whole image, unless the last run took over a block that an earlier one
had lost: it holds if and only if the last run is interrupted, loses a block of its own or
takes over whole blocks only. -/
theorem success_means_whole_iff {hashes : ImageHashes} {d : Dumped} (h : Sequence σ hashes d) :
    (d.status = 0 → ∀ read ∈ d.origin, read.damaged = false) ↔
      d.ending = .interrupted ∨ (∃ read ∈ d.origin.drop d.start, read.damaged = true) ∨
        ∀ read ∈ d.origin.take d.start, read.damaged = false := by
  obtain ⟨r, out, origin, dump, run, hends, hleft⟩ := h.left
  have hstatus : d.status = 0 ↔ d.ending = .complete ∧
      ∀ read ∈ d.origin.drop d.start, read.damaged = false := by
    rw [Dumped.status, hleft.result, hleft.own]
    simp only [DumpRun.taken, List.forall_mem_map]
    rw [← hleft.start]
    exact exitCode_eq_zero_iff hleft.extracted
  have hsplit : (∀ read ∈ d.origin, read.damaged = false) ↔
      (∀ read ∈ d.origin.take d.start, read.damaged = false) ∧
        ∀ read ∈ d.origin.drop d.start, read.damaged = false := by
    rw [← List.forall_mem_append, List.take_append_drop]
  rw [hstatus, hsplit]
  constructor
  · intro h
    by_cases hending : d.ending = .complete
    · by_cases hown : ∀ read ∈ d.origin.drop d.start, read.damaged = false
      · exact Or.inr (Or.inr (h ⟨hending, hown⟩).1)
      · refine Or.inr (Or.inl ?_)
        simpa using hown
    · refine Or.inl ?_
      cases hend : d.ending with
      | complete => exact absurd hend hending
      | interrupted => rfl
      | stopped => exact absurd hend hends
  · rintro (hinterrupted | ⟨read, hread, hlost⟩ | hearlier) ⟨hcomplete, hown⟩
    · rw [hcomplete] at hinterrupted
      cases hinterrupted
    · rw [hown read hread] at hlost
      cases hlost
    · exact ⟨hearlier, hown⟩

/-! ## A lost block and a second run -/

/-- A run over a block that gives `first` and a hole. -/
def pairRun (first : Except ReadError (List UInt8)) (stop : Nat → Bool) : DumpRun Unit :=
  { target := smallTarget [some first] 1024, opts := resumeOptions, stop, due := never, pool := () }

/-- What the run leaves that is interrupted at block 1. -/
def oneRun (first : Except ReadError (List UInt8)) : Dumped :=
  (pairRun first (fun b => decide (b = 1))).after ⟨none, none⟩ someHashes []

/-- What the run leaves that takes it up there. -/
def twoRuns (first : Except ReadError (List UInt8)) : Dumped :=
  (pairRun first never).after (oneRun first).out someHashes (oneRun first).origin

theorem twoRuns_sequence {first : Except ReadError (List UInt8)}
    (hone : (oneRun first).ending ≠ .stopped) (htwo : (twoRuns first).ending ≠ .stopped) :
    Sequence Unit someHashes (twoRuns first) := by
  rw [oneRun, DumpRun.after_ending] at hone
  rw [twoRuns, DumpRun.after_ending] at htwo
  have hsound : (smallTarget [some first] 1024).Sound := smallTarget_sound _ (by decide)
  have hnew : (pairRun first (fun b => decide (b = 1))).Allowed ⟨none, none⟩ :=
    ⟨hsound, rfl, hone⟩
  have hfirst : Sequence Unit someHashes (oneRun first) := Sequence.first hnew (Or.inr rfl)
  have hallowed : (pairRun first never).Allowed (oneRun first).out := ⟨hsound, rfl, htwo⟩
  exact Sequence.next hfirst hallowed rfl

theorem success_means_whole_iff_sevens :
    ((twoRuns (.ok (List.replicate 512 7))).status = 0 →
        ∀ read ∈ (twoRuns (.ok (List.replicate 512 7))).origin, read.damaged = false) ↔
      (twoRuns (.ok (List.replicate 512 7))).ending = .interrupted ∨
        (∃ read ∈ (twoRuns (.ok (List.replicate 512 7))).origin.drop
          (twoRuns (.ok (List.replicate 512 7))).start, read.damaged = true) ∨
        ∀ read ∈ (twoRuns (.ok (List.replicate 512 7))).origin.take
          (twoRuns (.ok (List.replicate 512 7))).start, read.damaged = false :=
  success_means_whole_iff (twoRuns_sequence (by decide) (by decide +kernel))

/-- The second run reports success over a block that the first one lost. -/
theorem success_hides_loss :
    ¬ ∀ (σ : Type) (hashes : ImageHashes) (d : Dumped), Sequence σ hashes d → d.status = 0 →
      ∀ read ∈ d.origin, read.damaged = false := by
  intro h
  have hsuccess : (twoRuns (.error (.io "input/output error"))).status = 0 := by decide +kernel
  have hlost : ∃ read ∈ (twoRuns (.error (.io "input/output error"))).origin,
      read.damaged = true := by
    decide +kernel
  obtain ⟨read, hread, hdamaged⟩ := hlost
  have hwhole := h Unit someHashes _ (twoRuns_sequence (by decide) (by decide +kernel))
    hsuccess read hread
  rw [hdamaged] at hwhole
  cases hwhole

end Extract
end ZvolRescue
