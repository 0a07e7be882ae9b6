import ZvolRescue.Carve.Index
import ZvolRescue.Extract.Departed
import ZvolRescue.Lib.Runs

/-!
# Scans and dumps over one workspace

A dump records in its state the identifier of the candidate, and every scan numbers the
candidates afresh.  The blocks that a later dump takes up come from the dnode it reads
wherever no scan gives the recorded number to another dnode and no killed dump leaves an
older state next to a new image (`dump_unmixed`).
-/

namespace ZvolRescue
namespace Carve

open Lib Ondisk Zio Dmu Extract

/-! ## Runs -/

/-- What is asked of a `dump`. -/
structure DumpRequest where
  candidate : String
  size : Option Nat
  size_lt : ∀ n, size = some n → n < word
  opts : DumpOptions

namespace DumpRequest

variable {σ : Type} (req : DumpRequest)

/-- What was asked for, then what the contents say, then what the dnode implies. -/
def volsize (c : Candidate) : Nat :=
  match req.size, c.contents.findSome? id with
  | some s, _ => s
  | none, some s => s
  | none, none => Profile.impliedSize c.dnode

/-- A candidate has no dataset GUID or TXG to record. -/
def target (reader : PoolReader (StateM σ)) (c : Candidate) : Target (StateM σ) :=
  { dataset := c.id
    datasetGuid := "candidate"
    txg := 0
    volsize := req.volsize c
    obj := { reader, dnode := c.dnode, endian := .little } }

theorem target_sound (reader : PoolReader (StateM σ)) (c : Candidate) :
    (req.target reader c).Sound := by
  refine ⟨?_, c.blocksize⟩
  show req.volsize c < word
  unfold volsize
  split
  · exact req.size_lt _ ‹_›
  · rename_i s _ hsome
    obtain ⟨x, hx, hid⟩ := List.exists_of_findSome?_eq_some hsome
    rw [show x = some s from hid] at hx
    exact c.contents_lt s hx
  · have hle : Profile.impliedSize c.dnode ≤ 2 ^ 64 - 1 := Nat.min_le_right _ _
    exact Nat.lt_of_le_of_lt hle (by decide)

end DumpRequest

/-- A run of the tool.  A dump is given its reader and the devices' state `s`; `stop` and
`due` are as in `dumpOne`. -/
inductive Invocation (σ : Type) where
  | scan (resume : Bool) (hits : List Hit)
  /-- Ends while the index is written. -/
  | scanKilled
  | dump (req : DumpRequest) (reader : PoolReader (StateM σ)) (s : σ) (stop due : Nat → Bool)
      (how : Departure)

/-- A workspace and the output that its candidates are dumped to. -/
structure Workspace where
  /-- None where there is none that can be read. -/
  index : Option Index
  out : Output
  /-- The dnode that a block of the image was extracted from, as far as the last dump got. -/
  origin : Nat → Option Site

namespace Workspace

/-- Nothing is scanned and no state lies next to the image. -/
def new (image : Option (List UInt8)) : Workspace :=
  { index := none, out := { image, state := none }, origin := fun _ => none }

variable {σ : Type} (w : Workspace)

def candidate (id : String) : Option Candidate := w.index.bind (fun i => i.named id)

/-- The candidates a scan ranks. -/
def scanned (resume : Bool) (hits : List Hit) : List Candidate :=
  distinct (found (((if resume then w.index else none).getD Index.empty).candidates) hits)

/-- The block a dump of this candidate starts at. -/
def startBlock (req : DumpRequest) (reader : PoolReader (StateM σ)) (c : Candidate) : Nat :=
  ((req.target reader c).opened req.opts w.out).1

/-- How many blocks it takes in. -/
def taken (req : DumpRequest) (reader : PoolReader (StateM σ)) (s : σ) (stop : Nat → Bool)
    (how : Departure) (c : Candidate) : Nat :=
  (req.target reader c).taken req.opts stop (w.startBlock req reader c) s how

/-- A run that finds no candidate leaves everything as it is. -/
def step (hashes : ImageHashes) (w : Workspace) : Invocation σ → Workspace
  | .scan resume hits =>
    { w with index := some (Index.scan (if resume then w.index else none) hits) }
  | .scanKilled => { w with index := none }
  | .dump req reader s stop due how =>
    match w.candidate req.candidate with
    | none => w
    | some c =>
      let start := w.startBlock req reader c
      let next := start + w.taken req reader s stop how c
      { w with
        out := (req.target reader c).leave req.opts stop hashes due w.out s how
        origin := fun b =>
          if b < start then w.origin b else if b < next then some c.site else none }

/-! ## What must not happen -/

/-- The blocks that this dump takes up were extracted from the dnode it reads. -/
def Unmixed (req : DumpRequest) (reader : PoolReader (StateM σ)) : Prop :=
  ∀ c, w.candidate req.candidate = some c →
    ∀ b, b < w.startBlock req reader c → w.origin b = some c.site

/-- The state next to the image claims blocks. -/
def Claims (st : State) : Prop := w.out.state = some st ∧ 0 < st.blocksDone

/-- What keeps dnodes apart.  A scan ranks no dnode but that of the image at the number the
state records.  A dump that starts over is killed only where it leaves a state of its own, or
one that claims no more than it took in of that dnode. -/
def Apart : Invocation σ → Prop
  | .scan resume hits =>
    ∀ st, w.Claims st → ∀ d ∈ w.scanned resume hits,
      candidateId (ahead (w.scanned resume hits) d + 1) = st.dataset → w.origin 0 = some d.site
  | .scanKilled => True
  | .dump req reader s stop due how =>
    ∀ c, w.candidate req.candidate = some c → ∀ st, w.Claims st → ∀ kill, how = .killed kill →
      0 < w.startBlock req reader c ∨
      (∃ b, 0 < b ∧ b ≤ w.taken req reader s stop how c ∧ b < (req.target reader c).blocks ∧
        due b = true) ∨
      w.origin 0 = some c.site ∧ st.blocksDone ≤ w.taken req reader s stop how c

/-- The blocks a state claims lie in the volume and come from one dnode, the one that the
index knows by the identifier in the state, if it knows any. -/
structure Owned (st : State) (site : Site) : Prop where
  within : st.blocksDone * st.blocksize ≤ st.volsize
  origin : ∀ b, b < st.blocksDone → w.origin b = some site
  named : ∀ c, w.candidate st.dataset = some c → c.site = site

def Sound : Prop := ∀ st, w.Claims st → ∃ site, w.Owned st site

/-! ## Steps -/

variable {w}

theorem sound_new (image : Option (List UInt8)) : (new image).Sound := by
  intro st hst
  cases hst.1

theorem Sound.starts (hw : w.Sound) (req : DumpRequest) (reader : PoolReader (StateM σ))
    (c : Candidate) : (req.target reader c).Starts req.opts w.out := by
  apply (req.target_sound reader c).starts
  intro st hst hkey
  rcases Nat.eq_zero_or_pos st.blocksDone with hzero | hpos
  · rw [hzero, Nat.zero_mul]
    exact Nat.zero_le _
  · obtain ⟨site, howned⟩ := hw st ⟨hst, hpos⟩
    have hvolsize : st.volsize = req.volsize c := congrArg State.volsize hkey
    have hblocksize : st.blocksize = c.dnode.datablksz := congrArg State.blocksize hkey
    have hwithin := howned.within
    rw [hvolsize, hblocksize] at hwithin
    exact hwithin

theorem candidate_id {id : String} {c : Candidate} (h : w.candidate id = some c) : c.id = id := by
  obtain ⟨i, -, hi⟩ := Option.bind_eq_some_iff.mp h
  exact Index.named_id hi

/-- A dump that starts past the first block takes up a state of its own candidate. -/
theorem Sound.unmixed (hw : w.Sound) (req : DumpRequest) (reader : PoolReader (StateM σ)) :
    w.Unmixed req reader := by
  intro c hc b hb
  rcases (hw.starts req reader c).opened.origin with hzero | ⟨st, hst, hkey, hstart, -⟩
  · rw [startBlock, hzero] at hb
    exact absurd hb (Nat.not_lt_zero b)
  · rw [startBlock, hstart] at hb
    obtain ⟨site, howned⟩ := hw st ⟨hst, by omega⟩
    have hdataset : st.dataset = c.id := congrArg State.dataset hkey
    have hnamed : w.candidate st.dataset = some c := by
      rw [hdataset, candidate_id hc]
      exact hc
    rw [howned.named c hnamed]
    exact howned.origin b hb

theorem Sound.scan (hw : w.Sound) (hashes : ImageHashes) (resume : Bool) (hits : List Hit)
    (h : w.Apart (σ := σ) (.scan resume hits)) :
    (w.step (σ := σ) hashes (.scan resume hits)).Sound := by
  intro st hst
  obtain ⟨site, howned⟩ := hw st hst
  refine ⟨site, howned.within, howned.origin, ?_⟩
  intro c hc
  obtain ⟨d, hd, hsite, hid⟩ := Index.named_scan hc
  have horigin := h st hst d hd hid
  rw [howned.origin 0 hst.2, hsite] at horigin
  exact (Option.some.inj horigin).symm

section Dump

variable {req : DumpRequest} {reader : PoolReader (StateM σ)} {c : Candidate}

/-- A dump that starts past the first block starts at the one the state names. -/
theorem Sound.startBlock_eq (hw : w.Sound) (h : 0 < w.startBlock req reader c) {st : State}
    (hst : w.out.state = some st) : w.startBlock req reader c = st.blocksDone := by
  rcases (hw.starts req reader c).opened.origin with hzero | ⟨st', hst', -, hstart, -⟩
  · rw [startBlock, hzero] at h
    exact absurd h (Nat.lt_irrefl 0)
  · rw [hst] at hst'
    cases hst'
    exact hstart

variable (hashes : ImageHashes) (s : σ) (stop due : Nat → Bool) (how : Departure)

theorem step_dump (hc : w.candidate req.candidate = some c) :
    w.step hashes (.dump req reader s stop due how) =
      { w with
        out := (req.target reader c).leave req.opts stop hashes due w.out s how
        origin := fun b =>
          if b < w.startBlock req reader c then w.origin b
          else if b < w.startBlock req reader c + w.taken req reader s stop how c then some c.site
          else none } := by
  simp only [step, hc]

/-- A state of the dumped candidate is owned by its dnode. -/
theorem Sound.owned_new (hw : w.Sound) (hc : w.candidate req.candidate = some c) {st : State}
    (hkey : st.key = (req.target reader c).expected.key)
    (hblocks : st.blocksDone < (req.target reader c).blocks)
    (htaken : st.blocksDone ≤ w.startBlock req reader c + w.taken req reader s stop how c) :
    (w.step hashes (.dump req reader s stop due how)).Owned st c.site := by
  have ht := req.target_sound reader c
  rw [step_dump hashes s stop due how hc]
  refine ⟨?_, ?_, ?_⟩
  · have hvolsize : st.volsize = (req.target reader c).volsize := congrArg State.volsize hkey
    have hblocksize : st.blocksize = (req.target reader c).blocksize :=
      congrArg State.blocksize hkey
    rw [hvolsize, hblocksize]
    exact (mul_lt_of_lt_divCeil (Nat.pos_of_ne_zero ht.blocksize)
      (Nat.lt_of_lt_of_le hblocks (Nat.min_le_right _ _))).le
  · intro b hb
    by_cases hstart : b < w.startBlock req reader c
    · simp only [if_pos hstart]
      exact hw.unmixed req reader c hc b hstart
    · simp only [if_neg hstart, if_pos (Nat.lt_of_lt_of_le hb htaken)]
  · intro c' hc'
    have hdataset : st.dataset = c.id := congrArg State.dataset hkey
    rw [hdataset, candidate_id hc] at hc'
    have heq : c = c' := Option.some.inj (hc.symm.trans hc')
    rw [heq]

/-- A state that a killed dump leaves as it was keeps its owner. -/
theorem Sound.owned_kept (hw : w.Sound) (hc : w.candidate req.candidate = some c) {st : State}
    (hst : w.Claims st)
    (h : 0 < w.startBlock req reader c ∨
      w.origin 0 = some c.site ∧ st.blocksDone ≤ w.taken req reader s stop how c) :
    ∃ site, (w.step hashes (.dump req reader s stop due how)).Owned st site := by
  obtain ⟨site, howned⟩ := hw st hst
  rw [step_dump hashes s stop due how hc]
  refine ⟨site, howned.within, ?_, howned.named⟩
  intro b hb
  by_cases hstart : b < w.startBlock req reader c
  · simp only [if_pos hstart]
    exact howned.origin b hb
  · rcases h with hpos | ⟨horigin, htaken⟩
    · rw [hw.startBlock_eq hpos hst.1] at hstart
      exact absurd hb hstart
    · rw [howned.origin 0 hst.2] at horigin
      simp only [if_neg hstart, if_pos (Nat.lt_of_lt_of_le (Nat.lt_of_lt_of_le hb htaken)
        (Nat.le_add_left _ _))]
      exact horigin.symm

theorem Sound.dump (hw : w.Sound) (h : w.Apart (.dump req reader s stop due how)) :
    (w.step hashes (.dump req reader s stop due how)).Sound := by
  cases hc : w.candidate req.candidate with
  | none =>
    simp only [step, hc]
    exact hw
  | some c =>
    intro st hst
    have hleave := hst.1
    rw [step_dump hashes s stop due how hc] at hleave
    rcases (req.target_sound reader c).leave_state (hw.starts req reader c) hashes stop due s how
      hleave with ⟨hkey, hblocks, htaken⟩ | ⟨hold, kill, hkill, hnone⟩
    · exact ⟨c.site, hw.owned_new hashes s stop due how hc hkey hblocks htaken⟩
    · refine hw.owned_kept hashes s stop due how hc ⟨hold, hst.2⟩ ?_
      rcases h c hc st ⟨hold, hst.2⟩ kill hkill with hpos | ⟨b, hb, hle, hlt, hdue⟩ | hown
      · exact Or.inl hpos
      · rcases Nat.eq_zero_or_pos (w.startBlock req reader c) with hzero | hpos
        · have hnot := hnone b (Nat.lt_of_le_of_lt hzero.le hb)
            (hle.trans (Nat.le_add_left _ _)) hlt
          rw [hdue] at hnot
          cases hnot
        · exact Or.inl hpos
      · exact Or.inr hown

end Dump

theorem Sound.step (hashes : ImageHashes) (w : Workspace) (run : Invocation σ) (hw : w.Sound)
    (h : w.Apart run) : (w.step hashes run).Sound := by
  cases run with
  | scan resume hits => exact hw.scan hashes resume hits h
  | scanKilled =>
    intro st hst
    obtain ⟨site, howned⟩ := hw st hst
    exact ⟨site, howned.within, howned.origin, fun c hc => by cases hc⟩
  | dump req reader s stop due how => exact hw.dump hashes s stop due how h

end Workspace

/-- After any runs that keep dnodes apart, the blocks that a dump takes up come from the dnode
it reads. -/
theorem dump_unmixed {σ : Type} (hashes : ImageHashes) (image : Option (List UInt8))
    (runs : List (Invocation σ))
    (h : Along (Workspace.step hashes) Workspace.Apart (Workspace.new image) runs)
    (req : DumpRequest) (reader : PoolReader (StateM σ)) :
    (runs.foldl (Workspace.step hashes) (Workspace.new image)).Unmixed req reader :=
  (h.invariant (Workspace.Sound.step hashes) (Workspace.sound_new image)).unmixed req reader

/-! ## Two dnodes of one size -/

/-- A hit on a dnode of three blocks. -/
def smallHit (offset : Nat) (score : ℚ) (births : List Nat) : Hit where
  device := 0
  path := "member.img"
  offset
  slot := 0
  score
  contents := []
  dnode := { holesTarget.obj.dnode with blkptr := births.map dataPointer }
  blocksize := holesTarget_sound.blocksize
  contents_lt := fun _ h => absurd h List.not_mem_nil

def firstHit : Hit := smallHit 65536 (1 / 2) [1, 2, 3]

/-- The blocks of every small hit. -/
def smallReader : PoolReader (StateM Unit) :=
  (smallTarget ((List.range 7).map (fun n => some (.ok (List.replicate 512 n.toUInt8)))) 0).obj.reader

def resumeFirst : DumpRequest where
  candidate := "c0001"
  size := none
  size_lt := fun _ h => by cases h
  opts := resumeOptions

/-- A dump of the best candidate that is interrupted before its second block. -/
def dumpOneBlock : Invocation Unit :=
  .dump resumeFirst smallReader () (fun b => b = 1) never .ended


def secondHit (score : ℚ) : Hit := smallHit 131072 score [4, 5, 6]

/-- The dump, and a scan that goes on and meets another dnode of this score. -/
def rescanned (score : ℚ) : List (Invocation Unit) :=
  [.scan false [firstHit], dumpOneBlock, .scan true [secondHit score]]

def dumpedWorkspace : Workspace :=
  [.scan false [firstHit], dumpOneBlock].foldl (Workspace.step someHashes) (Workspace.new none)

def rescannedWorkspace (score : ℚ) : Workspace :=
  (rescanned score).foldl (Workspace.step someHashes) (Workspace.new none)

/-- A dnode that ranks higher takes the number of the one that was dumped. -/
theorem rescan_mixes :
    ¬ ∀ (σ : Type) (hashes : ImageHashes) (image : Option (List UInt8))
        (runs : List (Invocation σ)) (req : DumpRequest) (reader : PoolReader (StateM σ)),
      (runs.foldl (Workspace.step hashes) (Workspace.new image)).Unmixed req reader := by
  intro h
  have hunmixed : (rescannedWorkspace 1).Unmixed resumeFirst smallReader :=
    h Unit someHashes none (rescanned 1) resumeFirst smallReader
  have hfound : ((rescannedWorkspace 1).candidate "c0001").map (fun c =>
      (c.site.offset, (rescannedWorkspace 1).startBlock resumeFirst smallReader c)) =
      some (131072, 1) := by
    decide +kernel
  obtain ⟨c, hc, hcase⟩ := Option.map_eq_some_iff.mp hfound
  obtain ⟨hoffset, hstart⟩ := Prod.mk.inj hcase
  have horigin := hunmixed c hc 0 (by omega)
  have hold : ((rescannedWorkspace 1).origin 0).map Site.offset = some 65536 := by decide
  rw [horigin, Option.map_some, hoffset] at hold
  cases hold

/-- A dnode that ranks lower leaves the one that was dumped its number. -/
theorem dump_unmixed_rescan :
    ((rescannedWorkspace (1 / 4)).candidate "c0001").map (fun c =>
        (rescannedWorkspace (1 / 4)).startBlock resumeFirst smallReader c) = some 1 ∧
      (rescannedWorkspace (1 / 4)).Unmixed resumeFirst smallReader := by
  refine ⟨by decide +kernel, dump_unmixed someHashes none (rescanned (1 / 4)) ?_ _ _⟩
  refine ⟨fun st hst => ?_, fun c hc st hst kill hkill => ?_, fun st hst => ?_, trivial⟩
  · cases hst.1
  · cases hkill
  · have hdataset : dumpedWorkspace.out.state.map State.dataset = some "c0001" := by decide
    have hst : dumpedWorkspace.out.state = some st := hst.1
    rw [hst] at hdataset
    rw [show st.dataset = "c0001" from Option.some.inj hdataset]
    show ∀ d ∈ dumpedWorkspace.scanned true [secondHit (1 / 4)],
      candidateId (ahead (dumpedWorkspace.scanned true [secondHit (1 / 4)]) d + 1) = "c0001" →
        dumpedWorkspace.origin 0 = some d.site
    decide +kernel

end Carve
end ZvolRescue
