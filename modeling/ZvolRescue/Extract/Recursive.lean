import ZvolRescue.Extract.Recorded
import ZvolRescue.Ondisk.Objset

/-!
# Dumping every volume under a dataset

A recursive dump gives each volume a file of its own, named after the dataset with its slashes
replaced.  Two volumes share a file exactly when their names are alike but for slashes and
underscores, and then the one dumped last is what is left of both (`own_images_iff`).
-/

namespace ZvolRescue
namespace Extract

open Lib Ondisk Zio Dmu

/-! ## Names -/

/-- A dataset's name as one component of a path. -/
def flatten (name : String) : String :=
  String.ofList (name.toList.map (fun c => if c = '/' then '_' else c))

def joinPath (dir file : String) : String :=
  if dir = "" ∨ dir.toList.getLast? = some '/' then dir ++ file else dir ++ "/" ++ file

def imagePath (dir name : String) : String := joinPath dir (flatten name ++ ".img")

/-- Two characters that flatten to the same one. -/
def AlikeChar (c d : Char) : Prop := c = d ∨ c = '/' ∧ d = '_' ∨ c = '_' ∧ d = '/'

/-- Two names that differ in slashes and underscores only. -/
def Alike (a b : String) : Prop := List.Forall₂ AlikeChar a.toList b.toList

theorem alikeChar_iff (c d : Char) :
    (if c = '/' then '_' else c) = (if d = '/' then '_' else d) ↔ AlikeChar c d := by
  have hne : ('/' : Char) ≠ '_' := by decide
  unfold AlikeChar
  by_cases hc : c = '/' <;> by_cases hd : d = '/'
  · simp [hc, hd]
  · simp [hc, hd, hne, eq_comm]
  · simp [hc, hd, hne]
  · simp [hc, hd]

theorem flatten_eq_iff (a b : String) : flatten a = flatten b ↔ Alike a b := by
  rw [flatten, flatten, Alike]
  refine Iff.trans ⟨fun h => String.ofList_injective h, fun h => congrArg String.ofList h⟩ ?_
  generalize a.toList = a
  generalize b.toList = b
  induction a generalizing b with
  | nil => cases b <;> simp
  | cons c a ih =>
    cases b with
    | nil => simp
    | cons d b => simp only [List.map_cons, List.cons.injEq, List.forall₂_cons, alikeChar_iff, ih]

theorem append_inj_left {a b c : String} (h : a ++ b = a ++ c) : b = c := by
  have hlist := congrArg String.toList h
  rw [String.toList_append, String.toList_append] at hlist
  exact String.toList_inj.mp (List.append_cancel_left hlist)

theorem append_inj_right {a b c : String} (h : b ++ a = c ++ a) : b = c := by
  have hlist := congrArg String.toList h
  rw [String.toList_append, String.toList_append] at hlist
  exact String.toList_inj.mp (List.append_cancel_right hlist)

theorem imagePath_eq_iff (dir a b : String) : imagePath dir a = imagePath dir b ↔ Alike a b := by
  rw [← flatten_eq_iff]
  constructor
  · intro h
    simp only [imagePath, joinPath] at h
    split at h
    · exact append_inj_right (append_inj_left h)
    · exact append_inj_right (append_inj_left h)
  · intro h
    rw [imagePath, imagePath, h]

/-! ## Volumes -/

/-- A dataset of the tree. -/
structure Dataset where
  name : String
  guid : Nat
  snapshot : Bool
  kind : Option ObjsetType
  /-- The object of its key, when it is encrypted. -/
  cryptoKeyObj : Option Nat
  deriving DecidableEq, Repr

namespace Dataset

def underRoot (root : String) (d : Dataset) : Bool :=
  !d.snapshot && (d.name == root || (root ++ "/").toList.isPrefixOf d.name.toList)

def isVolume (d : Dataset) : Bool := d.kind == some .zvol

end Dataset

/-- Which datasets a recursive dump goes over, and where each one goes. -/
def targets (tree : List Dataset) (root dir : String) : List (Dataset × String) :=
  (tree.filter (Dataset.underRoot root)).map (fun d => (d, imagePath dir d.name))

/-- The volumes under a root. -/
def volumesUnder (tree : List Dataset) (root : String) : List Dataset :=
  (tree.filter (Dataset.underRoot root)).filter Dataset.isVolume

/-- Where the volumes of a list of targets go. -/
def volumePaths (l : List (Dataset × String)) : List String :=
  (l.filter (fun t => t.1.isVolume)).map Prod.snd

theorem volumePaths_targets (tree : List Dataset) (root dir : String) :
    volumePaths (targets tree root dir) =
      (volumesUnder tree root).map (fun d => imagePath dir d.name) := by
  rw [volumePaths, targets, volumesUnder, List.filter_map, List.map_map]
  rfl

/-! ## The run -/

/-- What the datasets of a pool come to, each of them at the transaction group that is dumped. -/
structure PoolDatasets (σ : Type) where
  /-- Derive the keys, or the exit code of why not. -/
  unlock : Dataset → Except Nat Unit
  /-- Open the volume's data object and find its size, or the exit code of why not. -/
  openVolume : Dataset → StateM σ (Except Nat (Target (StateM σ)))
  volsize_lt : ∀ ds s t, (openVolume ds s).1 = .ok t → t.volsize < word

/-- A volume of the manifest. -/
structure Listed where
  output : String
  dump : DumpOut
  /-- What its own extraction left at its output. -/
  left : Output
  deriving DecidableEq, Repr

/-- What a recursive dump comes to. -/
structure Bulk where
  volumes : List Listed
  skipped : List String
  code : Nat
  /-- What is at each path: an image and the state next to it. -/
  outputs : String → Output

def setOutput (outputs : String → Output) (path : String) (out : Output) : String → Output :=
  fun p => if p = path then out else outputs p

def Bulk.skip (b : Bulk) (why : String) (code : Nat) : Bulk :=
  { b with skipped := b.skipped ++ [why], code := max b.code code }

section Run

variable {σ : Type} (hashes : ImageHashes) (pool : PoolDatasets σ) (opts : DumpOptions)

/-- Take what the dump of a volume came to into the run; `false` ends it. -/
def Bulk.takeIn (b : Bulk) (ds : Dataset) (path : String) :
    Except Nat DumpOut × Output → Bulk × Bool
  | (.error c, out) =>
    (Bulk.skip { b with outputs := setOutput b.outputs path out } s!"{ds.name}: failed (exit {c})" c,
      true)
  | (.ok d, out) =>
    let code := Exit.afterExtraction b.code d.report.aborted
      (d.report.blocksZeroed + d.report.blocksSalvaged)
    let interrupted := d.report.interruptedAt.isSome
    ({ b with
        volumes := b.volumes ++ [{ output := path, dump := d, left := out }]
        code := if interrupted then max code Exit.interrupted else code
        outputs := setOutput b.outputs path out }, !interrupted)

/-- One dataset of a recursive dump. -/
def dumpVolume (stop due : Nat → Bool) (ds : Dataset) (path : String) (b : Bulk) :
    StateM σ (Bulk × Bool) :=
  if ds.isVolume = false then pure (b.skip s!"{ds.name}: not a volume" 0, true)
  else match pool.unlock ds with
  | .error c => pure (b.skip s!"{ds.name}: encrypted, not unlocked (exit {c})" c, true)
  | .ok () => do
    match ← pool.openVolume ds with
    | .error c => pure (b.skip s!"{ds.name}: failed (exit {c})" c, true)
    | .ok t => do
      let dumped ← dumpOne hashes t opts stop due (b.outputs path)
      pure (b.takeIn ds path dumped)

/-- The datasets in order; an interrupt ends the run, not just the volume. -/
def dumpAll (stop due : Nat → Nat → Bool) :
    List (Dataset × String) → Nat → Bulk → StateM σ Bulk
  | [], _, b => pure b
  | (ds, path) :: rest, i, b => do
    let (b, goesOn) ← dumpVolume hashes pool opts (stop i) (due i) ds path b
    if goesOn then dumpAll stop due rest (i + 1) b else pure b

/-- A recursive dump of what is under a root into a directory that holds `outputs`. -/
def dumpRecursive (stop due : Nat → Nat → Bool) (tree : List Dataset) (root dir : String)
    (outputs : String → Output) : StateM σ Bulk :=
  dumpAll hashes pool opts stop due (targets tree root dir) 0
    { volumes := [], skipped := [], code := 0, outputs }

end Run

/-! ## What the run leaves -/

theorem setOutput_self (outputs : String → Output) (path : String) (out : Output) :
    setOutput outputs path out path = out := if_pos rfl

theorem setOutput_other (outputs : String → Output) {path p : String} (out : Output)
    (h : p ≠ path) : setOutput outputs path out p = outputs p := if_neg h

section Left

variable {σ : Type} {hashes : ImageHashes} {opts : DumpOptions}

/-- An extraction that gives a report had blocks to extract. -/
theorem blocksize_of_dumpOne {t : Target (StateM σ)} {stop due : Nat → Bool} {out out' : Output}
    {s : σ} {d : DumpOut} (h : (dumpOne hashes t opts stop due out s).1 = (.ok d, out')) :
    t.blocksize ≠ 0 := by
  intro hbs
  have hzero : t.obj.dnode.datablksz = 0 := hbs
  simp only [dumpOne, extractFrom, if_pos hzero] at h
  cases congrArg Prod.fst h

/-- A fresh run that no block stops leaves the image that its report is about. -/
theorem verifies_of_fresh {t : Target (StateM σ)} (hvol : t.volsize < word)
    (hfresh : opts.resume = false) {stop due : Nat → Bool} {out out' : Output} {s : σ}
    {d : DumpOut} (h : (dumpOne hashes t opts stop due out s).1 = (.ok d, out'))
    (hwhole : d.report.aborted = false) (path : String) : Verifies hashes path d out' := by
  have ht : t.Sound := ⟨hvol, blocksize_of_dumpOne h⟩
  obtain ⟨d₁, run₁, hex, -, hrun⟩ := ht.dumpOne (t.starts_fresh out hfresh) hashes stop due s
  rw [h] at hrun
  cases hrun
  obtain ⟨d₂, run, out₂, hdump, hfile, hsha, hset, hiff⟩ :=
    ht.fresh_image hfresh hashes stop due out s
  rw [h] at hdump
  cases hdump
  have hopened : t.opened opts out = (0, Digests.new opts.hash, SparseFile.create) := by
    rw [Target.opened, hfresh, openOutput_fresh]
  have hend : (t.outcome opts stop 0 s).2 ≠ .stopped := by
    intro hend
    rw [hex.aborted, hopened, hend] at hwhole
    cases hwhole
  have heq : run.sink.file = run.digests.fed := by
    refine hiff.mpr ?_
    intro k hk
    exact absurd (congrArg Prod.snd (Target.stopsAt_iff.mp hk).2) hend
  refine ⟨run.sink.file, hfile, ?_, ?_⟩
  · rw [hsha, heq]
  · intro files kind hpath
    exact check_of_digests hashes kind hpath (hset heq)

/-- What a run adds to the manifest: its own file, which is what its report is about unless an
earlier run or an unreadable block has a part in it. -/
structure Listed.Own (hashes : ImageHashes) (opts : DumpOptions) (v : Listed) : Prop where
  verifies : opts.resume = false → v.dump.report.aborted = false →
    Verifies hashes v.output v.dump v.left

/-- What one dataset changes. -/
structure Step (hashes : ImageHashes) (opts : DumpOptions) (ds : Dataset) (path : String)
    (b b' : Bulk) : Prop where
  others : ∀ p, p ≠ path → b'.outputs p = b.outputs p
  skipped : ds.isVolume = false → b'.outputs = b.outputs
  volumes : b'.volumes = b.volumes ∨ ∃ v, b'.volumes = b.volumes ++ [v] ∧ v.output = path ∧
    ds.isVolume = true ∧ b'.outputs path = v.left ∧ v.Own hashes opts

theorem step_skip (ds : Dataset) (path : String) (b : Bulk) (why : String) (code : Nat) :
    Step hashes opts ds path b (b.skip why code) where
  others := fun _ _ => rfl
  skipped := fun _ => rfl
  volumes := Or.inl rfl

theorem dumpVolume_step (pool : PoolDatasets σ) (stop due : Nat → Bool) (ds : Dataset)
    (path : String) (b : Bulk) :
    Keeps (fun _ => True) (dumpVolume hashes pool opts stop due ds path b)
      (fun r => Step hashes opts ds path b r.1) := by
  rw [dumpVolume]
  by_cases hvolume : ds.isVolume = false
  · rw [if_pos hvolume]
    exact Keeps.pure (step_skip ds path b _ 0)
  rw [if_neg hvolume]
  have hvolume : ds.isVolume = true := by simpa using hvolume
  cases pool.unlock ds with
  | error c => exact Keeps.pure (step_skip ds path b _ c)
  | ok _ =>
    intro s _
    refine ⟨?_, True.intro⟩
    simp only [bind_run]
    have hvol := pool.volsize_lt ds s
    cases hopen : (pool.openVolume ds s).1 with
    | error c => exact step_skip ds path b _ c
    | ok t =>
      show Step hashes opts ds path b (b.takeIn ds path
        (dumpOne hashes t opts stop due (b.outputs path) (pool.openVolume ds s).2).1).1
      cases hdump : (dumpOne hashes t opts stop due (b.outputs path) (pool.openVolume ds s).2).1 with
      | mk result out =>
        cases result with
        | error c =>
          exact
            { others := fun p hp => setOutput_other _ _ hp
              skipped := fun h => absurd h (by simp [hvolume])
              volumes := Or.inl rfl }
        | ok d =>
          exact
            { others := fun p hp => setOutput_other _ _ hp
              skipped := fun h => absurd h (by simp [hvolume])
              volumes := Or.inr ⟨_, rfl, rfl, hvolume, setOutput_self _ _ _,
                ⟨fun hfresh hwhole => verifies_of_fresh (hvol t hopen) hfresh hdump hwhole path⟩⟩ }

/-- What the datasets from here on change. -/
structure Progress (hashes : ImageHashes) (opts : DumpOptions) (rest : List (Dataset × String))
    (b b' : Bulk) : Prop where
  others : ∀ p, p ∉ volumePaths rest → b'.outputs p = b.outputs p
  volumes : ∀ v ∈ b'.volumes, v ∈ b.volumes ∨ v.output ∈ volumePaths rest ∧ v.Own hashes opts ∧
    ((volumePaths rest).Nodup → b'.outputs v.output = v.left)

theorem dumpAll_progress (pool : PoolDatasets σ) (stop due : Nat → Nat → Bool)
    (l : List (Dataset × String)) : ∀ i b, Keeps (fun _ => True)
      (dumpAll hashes pool opts stop due l i b) (fun b' => Progress hashes opts l b b') := by
  induction l with
  | nil =>
    intro i b
    exact Keeps.pure { others := fun _ _ => rfl, volumes := fun v hv => Or.inl hv }
  | cons target rest ih =>
    intro i b
    obtain ⟨ds, path⟩ := target
    have hpaths : volumePaths ((ds, path) :: rest) =
        if ds.isVolume then path :: volumePaths rest else volumePaths rest := by
      cases hvolume : ds.isVolume <;> simp [volumePaths, hvolume]
    rw [dumpAll]
    apply Keeps.bind (dumpVolume_step pool (stop i) (due i) ds path b)
    rintro ⟨b₁, goesOn⟩ hstep
    -- Nothing more is dumped, or the rest is.
    have hrest : Keeps (fun _ => True)
        (if goesOn then dumpAll hashes pool opts stop due rest (i + 1) b₁ else pure b₁)
        (fun b' => Progress hashes opts rest b₁ b') := by
      cases goesOn with
      | true => exact ih (i + 1) b₁
      | false => exact Keeps.pure { others := fun _ _ => rfl, volumes := fun v hv => Or.inl hv }
    apply hrest.mono
    intro b' hrest
    cases hvolume : ds.isVolume with
    | false =>
      rw [hvolume, if_neg Bool.false_ne_true] at hpaths
      refine ⟨?_, ?_⟩
      · intro p hp
        rw [hpaths] at hp
        rw [hrest.others p hp, hstep.skipped hvolume]
      · intro v hv
        rw [hpaths]
        rcases hrest.volumes v hv with hold | hnew
        · rcases hstep.volumes with hsame | ⟨w, -, -, hw, -⟩
          · exact Or.inl (hsame ▸ hold)
          · rw [hvolume] at hw
            cases hw
        · exact Or.inr hnew
    | true =>
      rw [hvolume, if_pos rfl] at hpaths
      refine ⟨?_, ?_⟩
      · intro p hp
        rw [hpaths, List.mem_cons, not_or] at hp
        rw [hrest.others p hp.2, hstep.others p hp.1]
      · intro v hv
        rw [hpaths]
        rcases hrest.volumes v hv with hold | ⟨hmem, hown, hkept⟩
        · rcases hstep.volumes with hsame | ⟨w, hw, hpath, -, hleft, hown⟩
          · exact Or.inl (hsame ▸ hold)
          · rw [hw, List.mem_append, List.mem_singleton] at hold
            rcases hold with hold | rfl
            · exact Or.inl hold
            · refine Or.inr ⟨hpath ▸ List.mem_cons_self, hown, ?_⟩
              intro hnodup
              rw [hpath, hrest.others path (List.nodup_cons.mp hnodup).1, hleft]
        · exact Or.inr ⟨List.mem_cons_of_mem _ hmem, hown,
            fun hnodup => hkept (List.nodup_cons.mp hnodup).2⟩

/-- Every volume of the manifest has a file of its own: no other volume's path is its own, what
its extraction left there is there at the end, and that is what its digests are of where no
earlier run and no unreadable block has a part in it. -/
structure OwnImages (hashes : ImageHashes) (pool : PoolDatasets σ) (opts : DumpOptions)
    (stop due : Nat → Nat → Bool) (tree : List Dataset) (root dir : String)
    (outputs : String → Output) (s : σ) : Prop where
  distinct : (volumePaths (targets tree root dir)).Nodup
  kept : ∀ v ∈ (dumpRecursive hashes pool opts stop due tree root dir outputs s).1.volumes,
    (dumpRecursive hashes pool opts stop due tree root dir outputs s).1.outputs v.output = v.left
  verifies : opts.resume = false →
    ∀ v ∈ (dumpRecursive hashes pool opts stop due tree root dir outputs s).1.volumes,
      v.dump.report.aborted = false → Verifies hashes v.output v.dump
        ((dumpRecursive hashes pool opts stop due tree root dir outputs s).1.outputs v.output)

theorem nodup_volumePaths_iff (tree : List Dataset) (root dir : String) :
    (volumePaths (targets tree root dir)).Nodup ↔
      (volumesUnder tree root).Pairwise (fun a b => ¬ Alike a.name b.name) := by
  rw [volumePaths_targets, List.Nodup, List.pairwise_map]
  simp only [ne_eq, imagePath_eq_iff]

/-- The volumes of a recursive dump have files of their own if and only if no two volumes under
the root have names that differ in slashes and underscores only. -/
theorem own_images_iff (hashes : ImageHashes) (pool : PoolDatasets σ) (opts : DumpOptions)
    (stop due : Nat → Nat → Bool) (tree : List Dataset) (root dir : String)
    (outputs : String → Output) (s : σ) :
    OwnImages hashes pool opts stop due tree root dir outputs s ↔
      (volumesUnder tree root).Pairwise (fun a b => ¬ Alike a.name b.name) := by
  rw [← nodup_volumePaths_iff tree root dir]
  refine ⟨OwnImages.distinct, fun hnodup => ?_⟩
  have hprogress : Progress hashes opts (targets tree root dir)
      { volumes := [], skipped := [], code := 0, outputs }
      (dumpRecursive hashes pool opts stop due tree root dir outputs s).1 :=
    (dumpAll_progress pool stop due (targets tree root dir) 0 _ s True.intro).1
  have hlisted : ∀ v ∈ (dumpRecursive hashes pool opts stop due tree root dir outputs s).1.volumes,
      v.Own hashes opts ∧
        (dumpRecursive hashes pool opts stop due tree root dir outputs s).1.outputs v.output =
          v.left := by
    intro v hv
    rcases hprogress.volumes v hv with hnone | ⟨-, hown, hkept⟩
    · cases hnone
    · exact ⟨hown, hkept hnodup⟩
  refine ⟨hnodup, fun v hv => (hlisted v hv).2, ?_⟩
  intro hfresh v hv hwhole
  rw [(hlisted v hv).2]
  exact (hlisted v hv).1.verifies hfresh hwhole

end Left

/-! ## Two names for one file -/

def volumeNamed (name : String) : Dataset :=
  { name, guid := 1, snapshot := false, kind := some .zvol, cryptoKeyObj := none }

/-- `tank/a_b` and the volume `b` of the dataset `tank/a`. -/
def flatTree : List Dataset := [volumeNamed "tank/a_b", volumeNamed "tank/a/b"]

/-- A pool whose volumes are two holes each. -/
def holesPool : PoolDatasets Unit where
  unlock := fun _ => .ok ()
  openVolume := fun _ => pure (.ok holesTarget)
  volsize_lt := by
    intro ds s t h
    cases h
    decide

/-- The second volume is dumped over the first one. -/
theorem images_overwritten :
    ¬ ∀ (σ : Type) (hashes : ImageHashes) (pool : PoolDatasets σ) (opts : DumpOptions)
        (stop due : Nat → Nat → Bool) (tree : List Dataset) (root dir : String)
        (outputs : String → Output) (s : σ),
      OwnImages hashes pool opts stop due tree root dir outputs s := by
  intro h
  have hown := h Unit someHashes holesPool strictOptions (fun _ => never) (fun _ => never) flatTree
    "tank" "out" (fun _ => ⟨none, none⟩) ()
  have hsame : ¬ (volumePaths (targets flatTree "tank" "out")).Nodup := by decide
  exact hsame hown.distinct

end Extract
end ZvolRescue
