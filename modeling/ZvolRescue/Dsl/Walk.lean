import ZvolRescue.Dsl.Dataset
import ZvolRescue.Lib.Dfs
import ZvolRescue.Ondisk.Uberblock

/-!
# The walk of the datasets

`walk` goes down the directories of a pool from the root and lists the head dataset of each, with
its snapshots after it.  What it meets is what `dfs` meets of the graph that the children of the
directories make (`walkDir_stands`).
-/

namespace ZvolRescue
namespace Dsl

open Lib Ondisk Zio Dmu

/-- The object directory of a pool. -/
def objectDirectory : Nat := 1

/-- The deepest directory that is walked. -/
def maxDepth : Nat := 64

/-- What the walk could not read. -/
inductive WalkError where
  | revisited (name : String) (dirObj : Nat)
  | directory (name : String) (dirObj : Nat) (e : ReadError)
  | dataset (name : String) (obj : Nat) (e : ReadError)
  | children (name : String) (zapObj : Nat) (e : ReadError)
  deriving DecidableEq, Repr

def WalkError.text : WalkError → String
  | revisited name dirObj => s!"{name}: directory {dirObj} revisited or too deep"
  | directory name dirObj e => s!"{name}: DSL directory {dirObj}: {e.text}"
  | dataset name obj e => s!"{name}: dataset {obj}: {e.text}"
  | children name zapObj e => s!"{name}: children ZAP {zapObj}: {e.text}"

/-- Everything found in one walk. -/
structure DatasetTree where
  poolName : String
  /-- Parents before children, heads before their snapshots. -/
  datasets : List Dataset
  errors : List WalkError

/-- The walk so far, and the directories that were met. -/
structure Walk where
  tree : DatasetTree
  seen : List Nat

namespace Walk

def start (poolName : String) : Walk :=
  { tree := { poolName, datasets := [], errors := [] }, seen := [] }

def complain (w : Walk) (e : WalkError) : Walk :=
  { w with tree := { w.tree with errors := w.tree.errors ++ [e] } }

def list (w : Walk) (ds : List Dataset) : Walk :=
  { w with tree := { w.tree with datasets := w.tree.datasets ++ ds } }

def see (w : Walk) (dirObj : Nat) : Walk := { w with seen := w.seen ++ [dirObj] }

end Walk

/-- A directory of the bookkeeping, which is no dataset. -/
def isBookkeeping (name : String) : Bool := name.toList.head? = some '$'

section Program

variable {m : Type → Type} [Monad m] (mos : DnodeArray m)

/-- The array of the MOS behind a root pointer.  The salt and the mappings of removed vdevs that
it installs in the reader are part of what the reader gives. -/
def openMos (reader : PoolReader m) (ub : Uberblock) : m (Except ReadError (DnodeArray m)) :=
  match BlkPtr.parse ub.rootbp ub.endian with
  | .error e => pure (.error (.ofParse e))
  | .ok rootbp => do
    match ← reader.readBlock rootbp with
    | .error e => pure (.error e)
    | .ok block =>
      match ObjsetPhys.parse block.data rootbp.endian with
      | .error e => pure (.error (.ofParse e))
      | .ok os =>
        if os.osType ≠ .meta_ then
          pure (.error (.io s!"root objset is {os.osType.name} not meta"))
        else
          pure (.ok { meta_ := { reader, dnode := os.metaDnode, endian := rootbp.endian } })

/-- The snapshots among the entries that can be described; the others are passed over. -/
def describeEach (name : String) (dir : Owner) (originSnap : Nat) :
    List Zap.Entry → m (List Dataset)
  | [] => pure []
  | e :: rest =>
    match e.value with
    | .u64 obj => do
      match ← describe mos obj s!"{name}@{e.name}" dir originSnap with
      | .error _ => describeEach name dir originSnap rest
      | .ok d => ({ d with snapshot := true } :: ·) <$> describeEach name dir originSnap rest
    | _ => describeEach name dir originSnap rest

/-- The snapshots of a head dataset, the oldest first. -/
def snapshots (head : Dataset) (name : String) (originSnap : Nat) : m (List Dataset) :=
  if head.phys.snapnamesZapobj = 0 then pure []
  else do
    match ← mos.zap head.phys.snapnamesZapobj with
    | .error _ => pure []
    | .ok entries =>
      (List.mergeSort · (fun a b => a.creationTxg ≤ b.creationTxg)) <$>
        describeEach mos name { originObj := head.originObj, propsZapobj := head.propsZapobj }
          originSnap entries

/-- The head dataset of a directory with its snapshots, or what is wrong with it. -/
def listHead (originSnap : Nat) (name : String) (dir : DslDirPhys) (w : Walk) : m Walk :=
  if dir.headDatasetObj = 0 then pure w
  else do
    match ← describe mos dir.headDatasetObj name
        { originObj := dir.originObj, propsZapobj := dir.propsZapobj } originSnap with
    | .error e => pure (w.complain (.dataset name dir.headDatasetObj e))
    | .ok head => do
      let snaps ← snapshots mos head name originSnap
      pure (w.list (head :: snaps))

/-- Walk the children that are directories of datasets. -/
def visitChildren (visit : Nat → String → Walk → m Walk) (name : String) :
    List Zap.Entry → Walk → m Walk
  | [], w => pure w
  | e :: rest, w =>
    match e.value with
    | .u64 obj =>
      if isBookkeeping e.name then visitChildren visit name rest w
      else do
        let w ← visit obj s!"{name}/{e.name}" w
        visitChildren visit name rest w
    | _ => visitChildren visit name rest w

/-- Walk a directory, so many levels deep. -/
def walkDir (originSnap : Nat) : (levels dirObj : Nat) → String → Walk → m Walk
  | 0, dirObj, name, w => pure (w.complain (.revisited name dirObj))
  | levels + 1, dirObj, name, w =>
    if dirObj ∈ w.seen then pure (w.complain (.revisited name dirObj))
    else do
      let w := w.see dirObj
      match ← readDir mos dirObj with
      | .error e => pure (w.complain (.directory name dirObj e))
      | .ok dir => do
        let w ← listHead mos originSnap name dir w
        if dir.childDirZapobj = 0 then pure w
        else do
          match ← mos.zap dir.childDirZapobj with
          | .error e => pure (w.complain (.children name dir.childDirZapobj e))
          | .ok children => visitChildren (walkDir originSnap levels) name children w

/-- The numbers of the object directory, by name. -/
def objectDirectoryEntries : m (Except ReadError (List (String × Nat))) := do
  match ← mos.zap objectDirectory with
  | .error e => pure (.error e)
  | .ok entries =>
    pure (.ok (entries.filterMap (fun e => e.value.asU64.map (fun v => (e.name, v)))))

/-- The snapshot that every dataset but a clone descends from, or 0. -/
def originSnapshot (rootDirObj : Nat) : m Nat := do
  match ← readDir mos rootDirObj with
  | .error _ => pure 0
  | .ok root =>
    if root.childDirZapobj = 0 then pure 0
    else do
      match ← mos.zap root.childDirZapobj with
      | .error _ => pure 0
      | .ok children =>
        match u64Of children "$ORIGIN" with
        | none => pure 0
        | some dirObj => do
          match ← readDir mos dirObj with
          | .error _ => pure 0
          | .ok dir =>
            if dir.headDatasetObj = 0 then pure 0
            else do
              match ← readDataset mos dir.headDatasetObj with
              | .error _ => pure 0
              | .ok d => pure d.prevSnapObj

/-- The object of the root directory. -/
def rootDataset : m (Except ReadError Nat) := do
  match ← objectDirectoryEntries mos with
  | .error e => pure (.error e)
  | .ok dir =>
    match dir.find? (fun p => p.1 = "root_dataset") with
    | none => pure (.error (.io "object directory has no root_dataset"))
    | some (_, root) => pure (.ok root)

/-- The walk from the root directory, with all that was met. -/
def walkFrom (poolName : String) (root : Nat) : m Walk := do
  let originSnap ← originSnapshot mos root
  walkDir mos originSnap (maxDepth + 1) root poolName (Walk.start poolName)

def walk (poolName : String) : m (Except ReadError DatasetTree) := do
  match ← rootDataset mos with
  | .error e => pure (.error e)
  | .ok root => (fun w => .ok w.tree) <$> walkFrom mos poolName root

end Program

/-! ## The graph of the directories -/

section Graph

variable (mos : DnodeArray Id)

/-- A directory, by its object and its full name. -/
abbrev Node := Nat × String

/-- The entries of the children map of a directory, where both can be read. -/
def childEntries (dirObj : Nat) : List Zap.Entry :=
  match (readDir mos dirObj).run with
  | .error _ => []
  | .ok dir =>
    if dir.childDirZapobj = 0 then []
    else match (mos.zap dir.childDirZapobj).run with
    | .error _ => []
    | .ok children => children

/-- The directory of datasets that an entry names. -/
def childOf (name : String) (e : Zap.Entry) : Option Node :=
  match e.value with
  | .u64 obj => if isBookkeeping e.name then none else some (obj, s!"{name}/{e.name}")
  | _ => none

def next (a : Node) : List Node := (childEntries mos a.1).filterMap (childOf a.2)

/-- The head dataset of a directory, when it has one. -/
def headOf (originSnap : Nat) (name : String) (dir : DslDirPhys) :
    Option (Except ReadError Dataset) :=
  if dir.headDatasetObj = 0 then none
  else some (describe mos dir.headDatasetObj name
    { originObj := dir.originObj, propsZapobj := dir.propsZapobj } originSnap).run

/-- What the walk lists for a directory. -/
def listing (originSnap : Nat) (a : Node) : List Dataset :=
  match (readDir mos a.1).run with
  | .error _ => []
  | .ok dir =>
    match headOf mos originSnap a.2 dir with
    | some (.ok head) => head :: (snapshots mos head a.2 originSnap).run
    | _ => []

/-- What the walk complains of in a directory. -/
def complaints (originSnap : Nat) (a : Node) : List WalkError :=
  match (readDir mos a.1).run with
  | .error e => [.directory a.2 a.1 e]
  | .ok dir =>
    (match headOf mos originSnap a.2 dir with
      | some (.error e) => [.dataset a.2 dir.headDatasetObj e]
      | _ => []) ++
    (if dir.childDirZapobj = 0 then []
      else match (mos.zap dir.childDirZapobj).run with
      | .error e => [.children a.2 dir.childDirZapobj e]
      | .ok _ => [])

/-- The walk stands where the trip does. -/
structure Stands (originSnap : Nat) (w : Walk) (t : Trip Node) : Prop where
  seen : w.seen = t.keys Prod.fst
  datasets : w.tree.datasets = t.visited.flatMap (listing mos originSnap)
  errors : ∀ e, e ∈ w.tree.errors ↔ (∃ a ∈ t.refused, e = .revisited a.2 a.1) ∨
    ∃ a ∈ t.visited, e ∈ complaints mos originSnap a

variable {mos} {originSnap : Nat}

theorem Stands.refuse {w : Walk} {t : Trip Node} (h : Stands mos originSnap w t) (a : Node) :
    Stands mos originSnap (w.complain (.revisited a.2 a.1)) (t.refuse a) where
  seen := h.seen
  datasets := h.datasets
  errors := by
    intro e
    show e ∈ w.tree.errors ++ [_] ↔ (∃ b ∈ t.refused ++ [a], _) ∨ ∃ b ∈ t.visited, _
    rw [List.mem_append, h.errors, List.mem_singleton]
    simp only [List.mem_append, List.mem_singleton]
    constructor
    · rintro ((⟨b, hb, rfl⟩ | hvisited) | rfl)
      · exact Or.inl ⟨b, Or.inl hb, rfl⟩
      · exact Or.inr hvisited
      · exact Or.inl ⟨a, Or.inr rfl, rfl⟩
    · rintro (⟨b, hb | rfl, rfl⟩ | hvisited)
      · exact Or.inl (Or.inl ⟨b, hb, rfl⟩)
      · exact Or.inr rfl
      · exact Or.inl (Or.inr hvisited)

/-- One more directory, with what it gives and what is wrong with it. -/
theorem Stands.visit {w w' : Walk} {t : Trip Node} (h : Stands mos originSnap w t) {a : Node}
    (hseen : w'.seen = w.seen ++ [a.1])
    (hdatasets : w'.tree.datasets = w.tree.datasets ++ listing mos originSnap a)
    (herrors : w'.tree.errors = w.tree.errors ++ complaints mos originSnap a) :
    Stands mos originSnap w' (t.visit a) where
  seen := by
    rw [hseen, h.seen]
    simp [Trip.keys, Trip.visit]
  datasets := by
    rw [hdatasets, h.datasets]
    simp [Trip.visit]
  errors := by
    intro e
    show _ ↔ (∃ b ∈ t.refused, _) ∨ ∃ b ∈ t.visited ++ [a], _
    rw [herrors, List.mem_append, h.errors]
    simp only [List.mem_append, List.mem_singleton]
    constructor
    · rintro ((hrefused | ⟨b, hb, he⟩) | he)
      · exact Or.inl hrefused
      · exact Or.inr ⟨b, Or.inl hb, he⟩
      · exact Or.inr ⟨a, Or.inr rfl, he⟩
    · rintro (hrefused | ⟨b, hb | rfl, he⟩)
      · exact Or.inl (Or.inl hrefused)
      · exact Or.inl (Or.inr ⟨b, hb, he⟩)
      · exact Or.inr he

variable (mos) in
theorem visitChildren_eq (visit : Nat → String → Walk → Id Walk) (name : String)
    (l : List Zap.Entry) : ∀ w, (visitChildren visit name l w).run =
      (l.filterMap (childOf name)).foldl (fun w a => (visit a.1 a.2 w).run) w := by
  induction l with
  | nil =>
    intro w
    rfl
  | cons e l ih =>
    intro w
    rw [visitChildren, List.filterMap_cons, childOf]
    cases e.value with
    | u64 obj =>
      simp only
      by_cases hbook : isBookkeeping e.name = true
      · rw [if_pos hbook, if_pos hbook]
        exact ih w
      · rw [if_neg hbook, if_neg hbook]
        exact ih _
    | _ => exact ih w

variable (mos) in
theorem listHead_eq (originSnap : Nat) (name : String) (dir : DslDirPhys) (w : Walk) :
    (listHead mos originSnap name dir w).run.seen = w.seen ∧
      (listHead mos originSnap name dir w).run.tree.datasets = w.tree.datasets ++
        (match headOf mos originSnap name dir with
          | some (.ok head) => head :: (snapshots mos head name originSnap).run
          | _ => []) ∧
      (listHead mos originSnap name dir w).run.tree.errors = w.tree.errors ++
        (match headOf mos originSnap name dir with
          | some (.error e) => [WalkError.dataset name dir.headDatasetObj e]
          | _ => []) := by
  rw [listHead, headOf]
  by_cases hnone : dir.headDatasetObj = 0
  · rw [if_pos hnone, if_pos hnone]
    simp
  · rw [if_neg hnone, if_neg hnone]
    simp only [Id.run_bind]
    cases (describe mos dir.headDatasetObj name
        { originObj := dir.originObj, propsZapobj := dir.propsZapobj } originSnap).run with
    | error e => simp [Walk.complain]
    | ok head => simp [Walk.list]

theorem foldl_stands {levels : Nat}
    (ih : ∀ a w t, Stands mos originSnap w t →
      Stands mos originSnap (walkDir mos originSnap levels a.1 a.2 w).run
        (dfs Prod.fst (next mos) levels a t)) (l : List Node) :
    ∀ w t, Stands mos originSnap w t →
      Stands mos originSnap
        (l.foldl (fun w a => (walkDir mos originSnap levels a.1 a.2 w).run) w)
        (l.foldl (fun t a => dfs Prod.fst (next mos) levels a t) t) := by
  induction l with
  | nil =>
    intro w t h
    exact h
  | cons a l ihl =>
    intro w t h
    exact ihl _ _ (ih a w t h)

/-- The walk of a directory, as it is, and what `dfs` meets. -/
theorem walkDir_stands : ∀ (levels : Nat) (a : Node) (w : Walk) (t : Trip Node),
    Stands mos originSnap w t →
    Stands mos originSnap (walkDir mos originSnap levels a.1 a.2 w).run
      (dfs Prod.fst (next mos) levels a t) := by
  intro levels
  induction levels with
  | zero =>
    intro a w t h
    exact h.refuse a
  | succ levels ih =>
    intro a w t h
    rw [walkDir, dfs]
    by_cases hmet : a.1 ∈ w.seen
    · rw [if_pos hmet, if_pos (h.seen ▸ hmet)]
      exact h.refuse a
    · rw [if_neg hmet, if_neg (h.seen ▸ hmet)]
      -- What the head dataset adds, whatever is read of the children.
      have hdir : ∀ dir, (readDir mos a.1).run = .ok dir → ∀ more,
          complaints mos originSnap a = (match headOf mos originSnap a.2 dir with
            | some (.error e) => [WalkError.dataset a.2 dir.headDatasetObj e]
            | _ => []) ++ more →
          Stands mos originSnap
            { tree :=
                { (listHead mos originSnap a.2 dir (w.see a.1)).run.tree with
                  errors := (listHead mos originSnap a.2 dir (w.see a.1)).run.tree.errors ++ more }
              seen := (listHead mos originSnap a.2 dir (w.see a.1)).run.seen } (t.visit a) := by
        intro dir hread more hmore
        have hlisting : listing mos originSnap a = (match headOf mos originSnap a.2 dir with
            | some (.ok head) => head :: (snapshots mos head a.2 originSnap).run
            | _ => []) := by
          rw [listing, hread]
        have hhead := listHead_eq mos originSnap a.2 dir (w.see a.1)
        refine h.visit ?_ ?_ ?_
        · exact hhead.1
        · rw [hlisting]
          exact hhead.2.1
        · rw [hmore, ← List.append_assoc]
          exact congrArg (· ++ more) hhead.2.2
      simp only [Id.run_bind]
      cases hread : (readDir mos a.1).run with
      | error e =>
        have hnext : next mos a = [] := by rw [next, childEntries, hread]; rfl
        rw [hnext]
        refine h.visit rfl ?_ ?_
        · rw [listing, hread]
          exact (List.append_nil _).symm
        · rw [complaints, hread]
          rfl
      | ok dir =>
        have hclean : complaints mos originSnap a =
            (match headOf mos originSnap a.2 dir with
              | some (.error e) => [WalkError.dataset a.2 dir.headDatasetObj e]
              | _ => []) ++ [] →
            Stands mos originSnap (listHead mos originSnap a.2 dir (w.see a.1)).run
              (t.visit a) := by
          intro hmore
          have hstands := hdir dir hread [] hmore
          rwa [List.append_nil] at hstands
        simp only [Id.run_bind]
        by_cases hnone : dir.childDirZapobj = 0
        · have hnext : next mos a = [] := by
            rw [next, childEntries, hread]
            simp [hnone]
          rw [if_pos hnone, hnext]
          refine hclean ?_
          rw [complaints, hread]
          simp [hnone]
        · rw [if_neg hnone]
          simp only [Id.run_bind]
          cases hzap : (mos.zap dir.childDirZapobj).run with
          | error e =>
            have hnext : next mos a = [] := by
              rw [next, childEntries, hread]
              simp [hnone, hzap]
            rw [hnext]
            refine hdir dir hread [.children a.2 dir.childDirZapobj e] ?_
            rw [complaints, hread]
            simp [hnone, hzap]
          | ok children =>
            have hnext : next mos a = children.filterMap (childOf a.2) := by
              rw [next, childEntries, hread]
              simp [hnone, hzap]
            rw [hnext]
            simp only
            rw [visitChildren_eq]
            refine foldl_stands ih _ _ _ (hclean ?_)
            rw [complaints, hread]
            simp [hnone, hzap]

variable (mos) in
/-- What is met of the graph from the root directory on. -/
def trip (poolName : String) (root : Nat) : Trip Node :=
  dfs Prod.fst (next mos) (maxDepth + 1) (root, poolName) Trip.start

variable (mos) in
theorem trip_settled (poolName : String) (root : Nat) :
    (trip mos poolName root).Settled Prod.fst (next mos) [] :=
  dfs_settled (maxDepth + 1) (root, poolName) Trip.start [] (fun v hv => by cases hv)

variable (mos) in
theorem walkFrom_stands (poolName : String) (root : Nat) :
    Stands mos (originSnapshot mos root).run (walkFrom mos poolName root).run
      (trip mos poolName root) := by
  have hstart : Stands mos (originSnapshot mos root).run (Walk.start poolName) Trip.start :=
    ⟨rfl, rfl, fun e => by simp [Walk.start, Trip.start]⟩
  exact walkDir_stands (maxDepth + 1) (root, poolName) _ _ hstart

theorem walk_ok {poolName : String} {tree : DatasetTree}
    (h : (walk mos poolName).run = .ok tree) :
    ∃ root, (rootDataset mos).run = .ok root ∧ tree = (walkFrom mos poolName root).run.tree := by
  rw [walk] at h
  simp only [Id.run_bind] at h
  cases hroot : (rootDataset mos).run with
  | error e =>
    rw [hroot] at h
    cases h
  | ok root =>
    rw [hroot] at h
    cases h
    exact ⟨root, rfl, rfl⟩

end Graph

end Dsl
end ZvolRescue
