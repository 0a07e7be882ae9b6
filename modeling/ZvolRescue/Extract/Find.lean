import ZvolRescue.Dsl.Installed
import ZvolRescue.Extract.Dump
import ZvolRescue.Lib.Tries

/-!
# Finding a dataset

A dataset is looked for at one transaction group after another, the newest first, until one names
it and still reads as far as a dump opens it.  One reader goes through them all.
-/

namespace ZvolRescue
namespace Extract

open Lib Ondisk Zio Dmu Dsl
open ZvolRescue.Scan (DeviceScan)
open ZvolRescue.Timeline (Candidate OnePerTxg uberblockCandidates uberblockCandidates_onePerTxg)
open ZvolRescue.Topology (candidates_sorted selectUberblock)

/-! ## Whether a dataset reads -/

section Reads

variable {m : Type → Type} [Monad m] (reader : PoolReader m)

/-- The data object of a volume, and its byte order. -/
def openVolume (ds : Dsl.Dataset) : m (Except ReadError (ObjectReader m × Endian)) :=
  if ds.phys.bp.isHole then pure (.error .hole)
  else do
    match ← reader.readBlock ds.phys.bp with
    | .error e => pure (.error e)
    | .ok block =>
      match ObjsetPhys.parse block.data ds.phys.bp.endian with
      | .error e => pure (.error (.ofParse e))
      | .ok os =>
        if os.osType ≠ .zvol then
          pure (.error (.io s!"{ds.name} is a {os.osType.name}, not a volume"))
        else do
          let objs : DnodeArray m :=
            { meta_ := { reader, dnode := os.metaDnode, endian := ds.phys.bp.endian } }
          match ← objs.object zvolObj with
          | .error e => pure (.error e)
          | .ok data =>
            if data.dnode.isFree then pure (.error (.io s!"{ds.name}: data object is free"))
            else pure (.ok (data, ds.phys.bp.endian))

/-- Read, or verified ciphertext that waits for a key. -/
def readsUnlocked {α : Type} : Except ReadError α → Except ReadError Unit
  | .ok _ => .ok ()
  | .error .encrypted => .ok ()
  | .error e => .error e

/-- The dataset is still there as far as a dump opens it before the first block of data. -/
def datasetReads (ds : Dsl.Dataset) : m (Except ReadError Unit) := do
  match readsUnlocked (← reader.readBlock ds.phys.bp) with
  | .error e => pure (.error e)
  | .ok () =>
    if ds.kind ≠ some .zvol then pure (.ok ())
    else do
      match readsUnlocked (← openVolume reader ds) with
      | .error e => pure (.error e)
      | .ok () =>
        let warnings := "; ".intercalate ds.warnings
        if ds.volsize = none ∧ ds.encryption = none then
          pure (.error (.io s!"volume size unknown ({warnings})"))
        else pure (.ok ())

end Reads

/-! ## The search -/

/-- What could not be read at a transaction group. -/
inductive Stage where
  | pool
  | dataset
  deriving DecidableEq, Repr

structure UnreadableAt where
  txg : Nat
  stage : Stage
  error : String
  deriving DecidableEq, Repr

structure Searched where
  txgs : List Nat
  unreadable : List UnreadableAt
  deriving DecidableEq, Repr

/-- A device refused a read. -/
def refusal : ReadError → Bool
  | .medium _ _ => true
  | _ => false

/-- What a transaction group comes to. -/
inductive Tried where
  | found (tree : DatasetTree)
  /-- It does not name the dataset. -/
  | absent
  | unreadable (stage : Stage) (e : ReadError)

/-- What is recorded of it. -/
def Tried.complaints (txg : Nat) : Tried → List UnreadableAt
  | .unreadable stage e => [{ txg, stage, error := e.text }]
  | _ => []

/-- The search so far, what is installed in the reader, and the state of the world. -/
structure Search (σ : Type) where
  searched : Searched
  installed : Installed
  world : σ

section Search

variable {σ : Type} (reader : Installed → PoolReader (StateM σ))

/-- The datasets at a transaction group. -/
def walkAt (i : Installed) (ub : Uberblock) (poolName : String) :
    StateM σ (Except ReadError DatasetTree × Installed) := do
  let (mos, i) ← openMosInstalling reader i ub
  match mos with
  | .error e => pure (.error e, i)
  | .ok mos => do
    let tree ← walk mos poolName
    pure (tree, i)

variable (poolName name : String)

def tryAt (i : Installed) (ub : Uberblock) : StateM σ (Tried × Installed) := do
  let (tree, i) ← walkAt reader i ub poolName
  match tree with
  | .error e => pure (.unreadable .pool e, i)
  | .ok tree =>
    match tree.datasets.find? (fun d => d.name = name) with
    | none => pure (.absent, i)
    | some ds => do
      match ← datasetReads (reader i) ds with
      | .error e => pure (.unreadable .dataset e, i)
      | .ok () => pure (.found tree, i)

/-- One round of the search: it ends with what was found, or without where a device refused a read;
else the next one is tried. -/
def settle (c : Candidate) : Tried → Option (Option (Candidate × DatasetTree))
  | .found tree => some (some (c, tree))
  | .absent => none
  | .unreadable _ e => if refusal e then some none else none

def attemptAt (x : Search σ) (c : Candidate) :
    Option (Option (Candidate × DatasetTree)) × Search σ :=
  let tried := tryAt reader poolName name x.installed c.ub x.world
  (settle c tried.1.1,
    { searched :=
        { txgs := x.searched.txgs ++ [c.ub.txg]
          unreadable := x.searched.unreadable ++ tried.1.1.complaints c.ub.txg }
      installed := tried.1.2
      world := tried.2 })

/-- The candidates that are asked for; none where there is no such transaction group. -/
def pick (candidates : List Candidate) : Option Nat → Option (List Candidate)
  | none => some candidates
  | some txg => (selectUberblock candidates (.exact_ txg)).map (fun c => [c])

/-- What the search gives when it is over. -/
def conclude {α S : Type} : Option (Option α) × S → Except Nat α × S
  | (some (some found), x) => (.ok found, x)
  | (_, x) => (.error Exit.unrecoverable, x)

/-- The newest transaction group that names the dataset and at which it still reads, or the one that
is asked for, if it does. -/
def findDataset (candidates : List Candidate) (sel : Option Nat) (i : Installed) (w : σ) :
    Except Nat (Candidate × DatasetTree) × Search σ :=
  let start : Search σ :=
    { searched := { txgs := [], unreadable := [] }, installed := i, world := w }
  match pick candidates sel with
  | none => (.error Exit.unrecoverable, start)
  | some picked => conclude (tryEach (attemptAt reader poolName name) picked start)

end Search

/-! ## What is found -/

section Found

variable {σ : Type} {reader : Installed → PoolReader (StateM σ)} {poolName name : String}
  {x y z : Search σ}

variable (poolName) in
theorem walkAt_installed (i : Installed) (ub : Uberblock) (w : σ) :
    (walkAt reader i ub poolName w).1.2 = afterOpening reader i ub w := by
  rw [walkAt, bind_run, afterOpening]
  cases openMosInstalling reader i ub w with
  | mk opened w' =>
    obtain ⟨mos, i'⟩ := opened
    cases mos with
    | error e => rfl
    | ok mos => rfl

theorem tryAt_installed (i : Installed) (ub : Uberblock) (w : σ) :
    (tryAt reader poolName name i ub w).1.2 = afterOpening reader i ub w := by
  rw [← walkAt_installed poolName, tryAt, bind_run]
  cases walkAt reader i ub poolName w with
  | mk walked w' =>
    obtain ⟨tree, i'⟩ := walked
    cases tree with
    | error e => rfl
    | ok tree =>
      dsimp only
      cases tree.datasets.find? (fun d => d.name = name) with
      | none => rfl
      | some ds =>
        dsimp only
        rw [bind_run]
        cases datasetReads (reader i') ds w' with
        | mk reads w'' =>
          cases reads with
          | error e => rfl
          | ok u => rfl

/-- These transaction groups were tried, and recorded. -/
structure Went (reader : Installed → PoolReader (StateM σ)) (x : Search σ) (tried : List Candidate)
    (y : Search σ) : Prop where
  txgs : y.searched.txgs = x.searched.txgs ++ tried.map (fun c => c.ub.txg)
  unreadable : ∃ us, y.searched.unreadable = x.searched.unreadable ++ us ∧
    (us.map UnreadableAt.txg).Sublist (tried.map (fun c => c.ub.txg))
  installed : ∃ opened : List (Uberblock × σ), opened.map Prod.fst = tried.map Candidate.ub ∧
    y.installed = openEach reader x.installed opened

theorem Went.nothing : Went reader x [] x where
  txgs := by simp
  unreadable := ⟨[], by simp⟩
  installed := ⟨[], rfl, rfl⟩

theorem Went.trans {tried tried' : List Candidate} (h : Went reader x tried y)
    (h' : Went reader y tried' z) : Went reader x (tried ++ tried') z where
  txgs := by rw [h'.txgs, h.txgs, List.map_append, List.append_assoc]
  unreadable := by
    obtain ⟨us, heq, hsub⟩ := h.unreadable
    obtain ⟨us', heq', hsub'⟩ := h'.unreadable
    refine ⟨us ++ us', by rw [heq', heq, List.append_assoc], ?_⟩
    rw [List.map_append, List.map_append]
    exact hsub.append hsub'
  installed := by
    obtain ⟨opened, hmap, heq⟩ := h.installed
    obtain ⟨opened', hmap', heq'⟩ := h'.installed
    refine ⟨opened ++ opened', by rw [List.map_append, List.map_append, hmap, hmap'], ?_⟩
    rw [heq', heq, openEach, openEach, openEach, List.foldl_append]

theorem Tried.complaints_txg (txg : Nat) (t : Tried) :
    ((t.complaints txg).map UnreadableAt.txg).Sublist [txg] := by
  cases t with
  | found tree => exact List.nil_sublist _
  | absent => exact List.nil_sublist _
  | unreadable stage e => exact List.Sublist.refl _

variable (reader poolName name) in
theorem attemptAt_went (x : Search σ) (c : Candidate) :
    Went reader x [c] (attemptAt reader poolName name x c).2 where
  txgs := rfl
  unreadable := ⟨_, rfl, Tried.complaints_txg c.ub.txg _⟩
  installed := ⟨[(c.ub, x.world)], rfl, tryAt_installed x.installed c.ub x.world⟩

variable (reader poolName name x) in
theorem passing_went (l : List Candidate) :
    Went reader x l (passing (attemptAt reader poolName name) x l) := by
  induction l generalizing x with
  | nil => exact Went.nothing
  | cons c l ih => exact (attemptAt_went reader poolName name x c).trans (ih _)

variable (reader poolName name x) in
/-- However a search goes, what it tried is recorded. -/
theorem tryEach_went (l : List Candidate) :
    ∃ tried, Went reader x tried (tryEach (attemptAt reader poolName name) l x).2 := by
  cases hrun : tryEach (attemptAt reader poolName name) l x with
  | mk result y =>
    cases result with
    | none =>
      obtain ⟨-, rfl⟩ := tryEach_eq_none.mp hrun
      exact ⟨l, passing_went reader poolName name x l⟩
    | some b =>
      obtain ⟨front, a, back, -, -, hsettles⟩ := tryEach_eq_some.mp hrun
      have hwent := (passing_went reader poolName name x front).trans
        (attemptAt_went reader poolName name _ a)
      rw [hsettles] at hwent
      exact ⟨front ++ [a], hwent⟩

theorem settle_eq_found {c d : Candidate} {t : Tried} {tree : DatasetTree} :
    settle c t = some (some (d, tree)) ↔ d = c ∧ t = .found tree := by
  cases t with
  | found tree' => simp [settle, eq_comm]
  | absent => simp [settle]
  | unreadable stage e => simp [settle]

/-- The candidates that a search is about. -/
def admitted (candidates : List Candidate) (sel : Option Nat) : List Candidate :=
  candidates.filter (fun c => sel.all (fun txg => txg = c.ub.txg))

theorem filter_txg {txg : Nat} {l : List Candidate} (h : OnePerTxg l) :
    l.filter (fun c => txg = c.ub.txg) = (l.find? (fun c => c.ub.txg = txg)).toList := by
  induction l with
  | nil => rfl
  | cons c l ih =>
    obtain ⟨hfirst, hrest⟩ := List.nodup_cons.mp h
    by_cases hc : txg = c.ub.txg
    · have hnone : l.filter (fun b => txg = b.ub.txg) = [] := by
        rw [List.filter_eq_nil_iff]
        intro b hb hbtxg
        refine hfirst (List.mem_map.mpr ⟨b, hb, ?_⟩)
        rw [← of_decide_eq_true hbtxg, hc]
      rw [List.filter_cons, List.find?_cons, if_pos (decide_eq_true hc), hnone,
        decide_eq_true hc.symm]
      rfl
    · have hne : ¬ decide (txg = c.ub.txg) = true := fun h => hc (of_decide_eq_true h)
      rw [List.filter_cons, List.find?_cons, if_neg hne, ih hrest,
        decide_eq_false (Ne.symm hc)]

/-- Where there is no such transaction group, none is tried. -/
theorem findDataset_eq {candidates : List Candidate} (h : OnePerTxg candidates) (sel : Option Nat)
    (i : Installed) (w : σ) :
    findDataset reader poolName name candidates sel i w =
      conclude (tryEach (attemptAt reader poolName name) (admitted candidates sel)
        { searched := { txgs := [], unreadable := [] }, installed := i, world := w }) := by
  rw [findDataset]
  cases sel with
  | none =>
    have hall : admitted candidates none = candidates := List.filter_eq_self.mpr (fun _ _ => rfl)
    rw [hall]
    rfl
  | some txg =>
    have hone : admitted candidates (some txg) =
        (candidates.find? (fun c => c.ub.txg = txg)).toList := filter_txg h
    rw [hone, pick, selectUberblock]
    cases candidates.find? (fun c => c.ub.txg = txg) with
    | none => rfl
    | some c => rfl

theorem conclude_ok {α S : Type} {found : Option (Option α) × S} {a : α} :
    (conclude found).1 = .ok a ↔ found.1 = some (some a) := by
  obtain ⟨r, x⟩ := found
  cases r with
  | none => simp [conclude]
  | some r =>
    cases r with
    | none => simp [conclude]
    | some b => simp [conclude]

theorem conclude_error {α S : Type} {found : Option (Option α) × S} {code : Nat}
    (h : (conclude found).1 = .error code) : code = Exit.unrecoverable := by
  obtain ⟨r, x⟩ := found
  cases r with
  | none =>
    cases h
    rfl
  | some r =>
    cases r with
    | none =>
      cases h
      rfl
    | some b => cases h

theorem conclude_state {α S : Type} {found : Option (Option α) × S} :
    (conclude found).2 = found.2 := by
  obtain ⟨r, x⟩ := found
  cases r with
  | none => rfl
  | some r => cases r <;> rfl

theorem admitted_sorted (scans : List (Option DeviceScan)) (devices : List Nat)
    (sel : Option Nat) : (admitted (uberblockCandidates scans devices) sel).Pairwise
      (fun b c => c.ub.txg < b.ub.txg) := by
  have hnodup := List.pairwise_map.mp (uberblockCandidates_onePerTxg scans devices)
  refine List.Pairwise.filter _ ((candidates_sorted.and hnodup).imp (fun h => ?_))
  exact lt_of_le_of_ne h.1 (Ne.symm h.2)

/-- A search ends at the newest transaction group that settles it, tried in the state that the newer
ones left.  Just those down to it are tried, nothing is recorded of it, and what is installed when
the search ends is what they told. -/
theorem findDataset_newest (reader : Installed → PoolReader (StateM σ))
    (scans : List (Option DeviceScan)) (devices : List Nat) (sel : Option Nat)
    (poolName name : String) (i : Installed) (w : σ) :
    let candidates := admitted (uberblockCandidates scans devices) sel
    let attempt := attemptAt reader poolName name
    let state := reached (fun c => c.ub.txg) attempt
      { searched := { txgs := [], unreadable := [] }, installed := i, world := w } candidates
    let found := findDataset reader poolName name (uberblockCandidates scans devices) sel i w
    (∀ c tree, found.1 = .ok (c, tree) ↔ c ∈ candidates ∧
      (∀ b ∈ candidates, c.ub.txg < b.ub.txg → (attempt (state b) b).1 = none) ∧
        (tryAt reader poolName name (state c).installed c.ub (state c).world).1.1 =
          .found tree) ∧
    (∀ c tree, found.1 = .ok (c, tree) →
      found.2.searched.txgs =
        (candidates.filter (fun b => c.ub.txg ≤ b.ub.txg)).map (fun b => b.ub.txg) ∧
      ∀ u ∈ found.2.searched.unreadable, c.ub.txg < u.txg) ∧
    (∀ code, found.1 = .error code → code = Exit.unrecoverable) ∧
    ∃ opened, opened.map (fun o => o.1.txg) = found.2.searched.txgs ∧
      found.2.installed = openEach reader i opened := by
  intro candidates attempt state found
  have hsorted := admitted_sorted scans devices sel
  have heq : found = _ := findDataset_eq (uberblockCandidates_onePerTxg scans devices) sel i w
  rw [heq]
  refine ⟨fun c tree => ?_, fun c tree h => ?_, fun code => conclude_error, ?_⟩
  · rw [conclude_ok]
    constructor
    · intro h
      obtain ⟨a, ha, hpassed, hsettles⟩ :=
        (tryEach_reached hsorted).mp (Prod.ext h rfl)
      obtain ⟨rfl, hfound⟩ := settle_eq_found.mp (congrArg Prod.fst hsettles)
      exact ⟨ha, hpassed, hfound⟩
    · intro h
      obtain ⟨hc, hpassed, hfound⟩ := h
      have hsettles : (attempt (state c) c).1 = some (some (c, tree)) :=
        settle_eq_found.mpr ⟨rfl, hfound⟩
      exact congrArg Prod.fst
        ((tryEach_reached hsorted).mpr ⟨c, hc, hpassed, Prod.ext hsettles rfl⟩)
  · obtain ⟨front, a, back, hsplit, hpasses, hsettles⟩ :=
      tryEach_eq_some.mp (Prod.ext (conclude_ok.mp h) rfl)
    obtain ⟨rfl, hfound⟩ := settle_eq_found.mp (congrArg Prod.fst hsettles)
    have hwent := passing_went reader poolName name
      { searched := { txgs := [], unreadable := [] }, installed := i, world := w } front
    rw [conclude_state, ← congrArg Prod.snd hsettles]
    have hcandidates : candidates = front ++ c :: back := hsplit
    rw [hsplit] at hsorted
    rw [hcandidates]
    constructor
    · have hwhole := hwent.trans (attemptAt_went reader poolName name _ c)
      rw [filter_upto hsorted]
      exact hwhole.txgs
    · intro u hu
      obtain ⟨us, hus, hsub⟩ := hwent.unreadable
      have hmem : u ∈ (passing (attemptAt reader poolName name) _ front).searched.unreadable ++
          Tried.complaints c.ub.txg _ := hu
      rw [hfound, hus] at hmem
      have hmem : u ∈ us := by simpa [Tried.complaints] using hmem
      have htxg : u.txg ∈ front.map (fun b => b.ub.txg) := hsub.mem (List.mem_map_of_mem hmem)
      obtain ⟨b, hb, hbtxg⟩ := List.mem_map.mp htxg
      rw [← hbtxg]
      exact (List.pairwise_append.mp hsorted).2.2 b hb c List.mem_cons_self
  · obtain ⟨tried, hwent⟩ := tryEach_went reader poolName name
      { searched := { txgs := [], unreadable := [] }, installed := i, world := w } candidates
    obtain ⟨opened, hmap, hinstalled⟩ := hwent.installed
    refine ⟨opened, ?_, ?_⟩
    · rw [conclude_state, hwent.txgs]
      show _ = [] ++ _
      have htxg := congrArg (List.map Uberblock.txg) hmap
      rw [List.map_map, List.map_map] at htxg
      exact htxg
    · rw [conclude_state, hinstalled]

end Found

end Extract
end ZvolRescue
