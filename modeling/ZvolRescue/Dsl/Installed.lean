import ZvolRescue.Dmu.Range
import ZvolRescue.Dsl.Walk
import ZvolRescue.Lib.Stateful
import ZvolRescue.Ondisk.Indirect
import ZvolRescue.Ondisk.LabelConfig
import ZvolRescue.Topology.Binding
import ZvolRescue.Topology.Select

/-!
# What opening a MOS installs

Opening the MOS of a transaction group tells the reader the salt of the checksums, and where the
blocks of the removed vdevs went.  A reader goes from one transaction group to the next, and a
mapping that one of them installed is there for all that follow.  So what an older one is read with
is its own exactly when those before it told of no other removed vdev (`openEach_honest_iff`).
-/

namespace ZvolRescue

namespace Ondisk

/-- Bytes of an entry of a mapping: the source word and a DVA. -/
def mappingEntrySize : Nat := 24

/-- The bonus of a mapping object. -/
structure MappingPhys where
  maxOffset : Nat
  bytesMapped : Nat
  numEntries : Nat
  countsObject : Nat
  deriving DecidableEq, Repr

def MappingPhys.parse (bonus : List UInt8) (endian : Endian) : Except ParseError MappingPhys :=
  if bonus.length < 32 then .error (.truncated 32 bonus.length)
  else
    let at_ := fun off => ((endian.u64At bonus off).map UInt64.toNat).getD 0
    .ok { maxOffset := at_ 0, bytesMapped := at_ 8, numEntries := at_ 16, countsObject := at_ 24 }

/-- The top bit of the source word is a mark and no part of the offset. -/
def Entry.parse (buf : List UInt8) (endian : Endian) : Except ParseError Entry :=
  if buf.length < mappingEntrySize then .error (.truncated mappingEntrySize buf.length)
  else
    let at_ := fun off => (endian.u64At buf off).getD 0
    let dst := Dva.fromWords (at_ 8) (at_ 16)
    .ok
      { src := Lib.shl64 ((at_ 0).toNat % 2 ^ 63) 9
        size := dst.asize
        dstVdev := dst.vdev
        dstOffset := dst.offset }

/-- As many of `count` entries as there is data for. -/
def Mapping.parse (data : List UInt8) (count : Nat) (endian : Endian) :
    Except ParseError Mapping :=
  Mapping.fromEntries <$> (List.range (min count (data.length / mappingEntrySize))).mapM
    (fun i => Entry.parse (data.drop (i * mappingEntrySize)) endian)

end Ondisk

namespace Dsl

open Lib Ondisk Zio Dmu
open ZvolRescue.Timeline (Candidate)
open ZvolRescue.Topology (PoolAssembly selectUberblock TxgSelect)

/-- What a reader was told by the MOSes that it opened. -/
structure Installed where
  /-- Of the checksums that need one. -/
  salt : Option (List UInt8)
  /-- The mapping of each vdev that is known to be removed. -/
  removed : List (Nat × Mapping)

namespace Installed

/-- A reader that has opened none. -/
def fresh : Installed := { salt := none, removed := [] }

def setSalt (i : Installed) (salt : Option (List UInt8)) : Installed := { i with salt }

def setRemovedMapping (i : Installed) (vdev : Nat) (mapping : Mapping) : Installed :=
  { i with removed := (vdev, mapping) :: i.removed.filter (fun p => p.1 ≠ vdev) }

/-- A mapping that cannot be read is passed over. -/
def learn (i : Installed) (vdev : Nat) : Except ReadError Mapping → Installed
  | .error _ => i
  | .ok mapping => i.setRemovedMapping vdev mapping

/-- The removed vdevs. -/
def removedVdevs (i : Installed) : List Nat :=
  (i.removed.map Prod.fst).insertionSort (· ≤ ·)

end Installed

section Read

variable {m : Type → Type} [Monad m] (mos : DnodeArray m)

/-- A packed list; the bonus says how much of the object it is. -/
def readPackedNvlist (object : Nat) : m (Except ReadError NvList) := do
  match ← mos.object object with
  | .error e => pure (.error e)
  | .ok obj => do
    let stored := (mos.endian.u64At obj.dnode.bonus 0).map UInt64.toNat
    let len := (stored.filter (fun n => 0 < n ∧ n ≤ obj.logicalSize)).getD obj.logicalSize
    match ← obj.readRange 0 len with
    | .error e => pure (.error e)
    | .ok bytes =>
      pure ((parsePacked bytes).mapError (fun e => .io s!"packed nvlist: {e.text}"))

/-- The mapping of one removed vdev. -/
def readIndirectMapping (object : Nat) : m (Except ReadError Mapping) := do
  match ← mos.object object with
  | .error e => pure (.error e)
  | .ok obj =>
    match MappingPhys.parse obj.dnode.bonus mos.endian with
    | .error e => pure (.error (.io s!"mapping bonus: {e.text}"))
    | .ok phys => do
      let len := min (min (phys.numEntries * mappingEntrySize) (word - 1)) obj.logicalSize
      match ← obj.readRange 0 len with
      | .error e => pure (.error e)
      | .ok data =>
        pure ((Mapping.parse data phys.numEntries mos.endian).mapError
          (fun e => .io s!"mapping entries: {e.text}"))

end Read

/-- The salt of the object directory; one of another length is none. -/
def saltOf (entries : List Zap.Entry) : Option (List UInt8) :=
  match valueOf entries "org.illumos:checksum_salt" with
  | some (.bytes b) => if b.length = 32 then some b else none
  | _ => none

section Open

variable {m : Type → Type} [Monad m] (reader : Installed → PoolReader m)

/-- The array of a MOS, read with what is installed. -/
def mosWith (i : Installed) (os : ObjsetPhys) (endian : Endian) : DnodeArray m :=
  { meta_ := { reader := reader i, dnode := os.metaDnode, endian } }

/-- The top-level vdevs that the pool's configuration `config` describes; none where it cannot be
read. -/
def configuredVdevs (os : ObjsetPhys) (endian : Endian) (config : Option Nat) (i : Installed) :
    m (List VdevNode) :=
  match config with
  | none => pure []
  | some config => do
    match ← readPackedNvlist (mosWith reader i os endian) config with
    | .error _ => pure []
    | .ok nv =>
      match nv.list "vdev_tree" with
      | none => pure []
      | some tree => pure (((tree.listArray "children").getD []).map VdevNode.fromNvlist)

/-- Install the mapping of a vdev, if it is an indirect one whose mapping can be read. -/
def installMapping (os : ObjsetPhys) (endian : Endian) (node : VdevNode) (i : Installed) :
    m Installed :=
  if node.kind ≠ "indirect" then pure i
  else
    match node.indirectObject with
    | none => pure i
    | some object =>
      i.learn (node.id % 2 ^ 32) <$> readIndirectMapping (mosWith reader i os endian) object

/-- Install the mappings of the removed vdevs; each is read with those before it. -/
def loadRemovedVdevs (os : ObjsetPhys) (endian : Endian) : List VdevNode → Installed → m Installed
  | [], i => pure i
  | node :: rest, i => do
    let i ← installMapping reader os endian node i
    loadRemovedVdevs os endian rest i

/-- What the object directory tells: the salt, and which object the configuration is.  A directory
that cannot be read leaves the salt as it was. -/
def Installed.enter (i : Installed) :
    Except ReadError (List Zap.Entry) → Installed × Option Nat
  | .error _ => (i, none)
  | .ok entries => (i.setSalt (saltOf entries), u64Of entries "config")

def loadDirectory (os : ObjsetPhys) (endian : Endian) (i : Installed) :
    m (Installed × Option Nat) :=
  i.enter <$> (mosWith reader i os endian).zap objectDirectory

/-- The array of a MOS whose object set is in hand, and what is installed by then. -/
def openMosObjset (i : Installed) (os : ObjsetPhys) (endian : Endian) :
    m (Except ReadError (DnodeArray m) × Installed) :=
  if os.osType ≠ .meta_ then
    pure (.error (.io s!"root objset is {os.osType.name} not meta"), i)
  else do
    let (i, config) ← loadDirectory reader os endian i
    let nodes ← configuredVdevs reader os endian config i
    let i ← loadRemovedVdevs reader os endian nodes i
    pure (.ok (mosWith reader i os endian), i)

/-- The array of the MOS behind a root pointer. -/
def openMosInstalling (i : Installed) (ub : Uberblock) :
    m (Except ReadError (DnodeArray m) × Installed) :=
  match BlkPtr.parse ub.rootbp ub.endian with
  | .error e => pure (.error (.ofParse e), i)
  | .ok rootbp => do
    match ← (reader i).readBlock rootbp with
    | .error e => pure (.error e, i)
    | .ok block =>
      match ObjsetPhys.parse block.data rootbp.endian with
      | .error e => pure (.error (.ofParse e), i)
      | .ok os => openMosObjset reader i os rootbp.endian

end Open

/-! ## Runs -/

section Runs

variable {σ : Type} (reader : Installed → PoolReader (StateM σ))

/-- The pointers that name this vdev are translated. -/
def Installed.Translates (i : Installed) (vdev : Nat) : Prop := (i.removed.lookup vdev).isSome

/-- The vdev is an indirect one whose mapping can be read. -/
def NodeTells (os : ObjsetPhys) (endian : Endian) (node : VdevNode) (i : Installed) (w : σ)
    (vdev : Nat) : Prop :=
  node.kind = "indirect" ∧ node.id % 2 ^ 32 = vdev ∧ ∃ object mapping,
    node.indirectObject = some object ∧
      (readIndirectMapping (mosWith reader i os endian) object w).1 = .ok mapping

/-- One of the vdevs does, read with those before it. -/
def NodesTell (os : ObjsetPhys) (endian : Endian) (nodes : List VdevNode) (i : Installed) (w : σ)
    (vdev : Nat) : Prop :=
  ∃ front node back, nodes = front ++ node :: back ∧
    NodeTells reader os endian node (loadRemovedVdevs reader os endian front i w).1
      (loadRemovedVdevs reader os endian front i w).2 vdev

/-- The configuration of a MOS tells that the vdev was removed, and where its blocks went. -/
def ObjsetTells (i : Installed) (os : ObjsetPhys) (endian : Endian) (w : σ) (vdev : Nat) : Prop :=
  let directory := loadDirectory reader os endian i w
  let nodes := configuredVdevs reader os endian directory.1.2 directory.1.1 directory.2
  os.osType = .meta_ ∧ NodesTell reader os endian nodes.1 directory.1.1 nodes.2 vdev

/-- The MOS behind a root pointer does. -/
def Tells (i : Installed) (ub : Uberblock) (w : σ) (vdev : Nat) : Prop :=
  ∃ rootbp block os w', BlkPtr.parse ub.rootbp ub.endian = .ok rootbp ∧
    (reader i).readBlock rootbp w = (.ok block, w') ∧
      ObjsetPhys.parse block.data rootbp.endian = .ok os ∧
        ObjsetTells reader i os rootbp.endian w' vdev

/-- What is installed after a MOS was opened. -/
def afterOpening (i : Installed) (ub : Uberblock) (w : σ) : Installed :=
  (openMosInstalling reader i ub w).1.2

/-- A reader goes through transaction groups; each is opened in some state of the world. -/
def openEach (i : Installed) (opened : List (Uberblock × σ)) : Installed :=
  opened.foldl (fun i o => afterOpening reader i o.1 o.2) i

variable {reader} {os : ObjsetPhys} {endian : Endian} {i : Installed} {w : σ} {vdev : Nat}

theorem lookup_setRemovedMapping (v : Nat) (mapping : Mapping) :
    (i.setRemovedMapping v mapping).removed.lookup vdev =
      if vdev = v then some mapping else i.removed.lookup vdev := by
  show List.lookup vdev ((v, mapping) :: i.removed.filter _) = _
  rw [List.lookup_cons]
  by_cases hv : vdev = v
  · rw [if_pos hv, beq_iff_eq.mpr hv]
  · rw [if_neg hv, beq_eq_false_iff_ne.mpr hv]
    show List.lookup vdev (i.removed.filter _) = _
    generalize i.removed = l
    induction l with
    | nil => rfl
    | cons e l ih =>
      obtain ⟨key, held⟩ := e
      by_cases hkey : key = v
      · have hother : vdev ≠ key := fun h => hv (h.trans hkey)
        rw [List.filter_cons_of_neg (by simpa using hkey), ih, List.lookup_cons,
          beq_eq_false_iff_ne.mpr hother]
      · rw [List.filter_cons_of_pos (by simpa using hkey), List.lookup_cons, List.lookup_cons, ih]

/-- Just these vdevs are newly told of; for the others nothing changes. -/
structure Learned (i i' : Installed) (told : Nat → Prop) : Prop where
  translates : ∀ vdev, i'.Translates vdev ↔ i.Translates vdev ∨ told vdev
  kept : ∀ vdev, ¬ told vdev → i'.removed.lookup vdev = i.removed.lookup vdev

theorem Learned.nothing {i' : Installed} {told : Nat → Prop} (hsame : i'.removed = i.removed)
    (hnone : ∀ vdev, ¬ told vdev) : Learned i i' told where
  translates vdev := by
    rw [Installed.Translates, Installed.Translates, hsame]
    exact ⟨Or.inl, fun h => h.resolve_right (hnone vdev)⟩
  kept vdev _ := by rw [hsame]

theorem Learned.set (v : Nat) (mapping : Mapping) :
    Learned i (i.setRemovedMapping v mapping) (fun vdev => vdev = v) where
  translates vdev := by
    rw [Installed.Translates, Installed.Translates, lookup_setRemovedMapping]
    by_cases hv : vdev = v
    · simp [hv]
    · simp [hv]
  kept vdev hnot := by rw [lookup_setRemovedMapping, if_neg hnot]

theorem Learned.trans {i' i'' : Installed} {told told' : Nat → Prop} (h : Learned i i' told)
    (h' : Learned i' i'' told') : Learned i i'' (fun vdev => told vdev ∨ told' vdev) where
  translates vdev := by rw [h'.translates, h.translates, or_assoc]
  kept vdev hnot := by
    rw [not_or] at hnot
    rw [h'.kept vdev hnot.2, h.kept vdev hnot.1]

theorem Learned.congr {i' : Installed} {told told' : Nat → Prop} (h : Learned i i' told)
    (htold : ∀ vdev, told vdev ↔ told' vdev) : Learned i i' told' where
  translates vdev := by rw [h.translates, htold]
  kept vdev hnot := h.kept vdev (fun ht => hnot ((htold vdev).mp ht))

theorem installMapping_learned (node : VdevNode) :
    Learned i (installMapping reader os endian node i w).1
      (NodeTells reader os endian node i w) := by
  by_cases hkind : node.kind = "indirect"
  · cases hobject : node.indirectObject with
    | none =>
      refine Learned.nothing ?_ (fun vdev h => ?_)
      · rw [installMapping, if_neg (not_not_intro hkind), hobject]
        rfl
      · obtain ⟨-, -, object, -, h, -⟩ := h
        rw [hobject] at h
        cases h
    | some object =>
      have hafter : (installMapping reader os endian node i w).1 = i.learn (node.id % 2 ^ 32)
          (readIndirectMapping (mosWith reader i os endian) object w).1 := by
        rw [installMapping, if_neg (not_not_intro hkind), hobject]
        rfl
      rw [hafter]
      cases hread : (readIndirectMapping (mosWith reader i os endian) object w).1 with
      | error e =>
        refine Learned.nothing rfl (fun vdev h => ?_)
        obtain ⟨-, -, object', mapping, h, hok⟩ := h
        rw [hobject] at h
        cases h
        rw [hread] at hok
        cases hok
      | ok mapping =>
        refine (Learned.set (node.id % 2 ^ 32) mapping).congr (fun vdev => ?_)
        constructor
        · exact fun h => ⟨hkind, h.symm, object, mapping, hobject, hread⟩
        · exact fun h => h.2.1.symm
  · refine Learned.nothing ?_ (fun vdev h => hkind h.1)
    rw [installMapping, if_pos hkind]
    rfl

theorem nodesTell_cons {node : VdevNode} {nodes : List VdevNode} :
    NodesTell reader os endian (node :: nodes) i w vdev ↔
      NodeTells reader os endian node i w vdev ∨
        NodesTell reader os endian nodes (installMapping reader os endian node i w).1
          (installMapping reader os endian node i w).2 vdev := by
  constructor
  · intro h
    obtain ⟨front, told, back, hsplit, htold⟩ := h
    cases front with
    | nil =>
      cases hsplit
      exact Or.inl htold
    | cons first front =>
      cases hsplit
      exact Or.inr ⟨front, told, back, rfl, htold⟩
  · intro h
    rcases h with h | h
    · exact ⟨[], node, nodes, rfl, h⟩
    · obtain ⟨front, told, back, rfl, htold⟩ := h
      exact ⟨node :: front, told, back, rfl, htold⟩

variable (reader os endian i w) in
theorem loadRemovedVdevs_learned (nodes : List VdevNode) :
    Learned i (loadRemovedVdevs reader os endian nodes i w).1
      (NodesTell reader os endian nodes i w) := by
  induction nodes generalizing i w with
  | nil =>
    refine Learned.nothing rfl (fun vdev h => ?_)
    obtain ⟨front, node, back, h, -⟩ := h
    simp at h
  | cons node nodes ih =>
    exact ((installMapping_learned node).trans (ih _ _)).congr (fun vdev => nodesTell_cons.symm)

theorem loadDirectory_removed :
    (loadDirectory reader os endian i w).1.1.removed = i.removed := by
  show (i.enter ((mosWith reader i os endian).zap objectDirectory w).1).1.removed = _
  cases ((mosWith reader i os endian).zap objectDirectory w).1 with
  | error e => rfl
  | ok entries => rfl

/-- What an opening comes to: an error where nothing was told, or an array that is read with what
was told. -/
def Opens (reader : Installed → PoolReader (StateM σ)) (i : Installed) (told : Nat → Prop)
    (opened : Except ReadError (DnodeArray (StateM σ)) × Installed) : Prop :=
  (∃ e, opened = (.error e, i) ∧ ∀ vdev, ¬ told vdev) ∨
    ∃ os endian, opened.1 = .ok (mosWith reader opened.2 os endian) ∧ Learned i opened.2 told

theorem Opens.learned {told : Nat → Prop}
    {opened : Except ReadError (DnodeArray (StateM σ)) × Installed}
    (h : Opens reader i told opened) : Learned i opened.2 told := by
  rcases h with ⟨e, rfl, hnone⟩ | ⟨os, endian, -, hlearned⟩
  · exact Learned.nothing rfl hnone
  · exact hlearned

variable (reader os endian i w) in
theorem openMosObjset_opens :
    Opens reader i (ObjsetTells reader i os endian w) (openMosObjset reader i os endian w).1 := by
  by_cases htype : os.osType = .meta_
  · obtain ⟨directory, hdirectory⟩ : ∃ directory,
        loadDirectory reader os endian i w = directory := ⟨_, rfl⟩
    obtain ⟨nodes, hnodes⟩ : ∃ nodes,
        configuredVdevs reader os endian directory.1.2 directory.1.1 directory.2 = nodes :=
      ⟨_, rfl⟩
    obtain ⟨known, hknown⟩ : ∃ known,
        loadRemovedVdevs reader os endian nodes.1 directory.1.1 nodes.2 = known := ⟨_, rfl⟩
    have hopened : (openMosObjset reader i os endian w).1 =
        (.ok (mosWith reader known.1 os endian), known.1) := by
      rw [openMosObjset, if_neg (not_not_intro htype), ← hknown, ← hnodes, ← hdirectory]
      rfl
    have hsalted : Learned i directory.1.1 (fun _ => False) := by
      rw [← hdirectory]
      exact Learned.nothing loadDirectory_removed (fun _ => id)
    have hlearned := hsalted.trans (loadRemovedVdevs_learned reader os endian directory.1.1
      nodes.2 nodes.1)
    rw [hknown] at hlearned
    rw [hopened]
    refine Or.inr ⟨os, endian, rfl, hlearned.congr (fun vdev => ?_)⟩
    rw [false_or, ObjsetTells, and_iff_right htype, hdirectory, hnodes]
  · rw [openMosObjset, if_pos htype]
    exact Or.inl ⟨_, rfl, fun vdev h => htype h.1⟩

variable (reader i w) in
theorem openMosInstalling_opens (ub : Uberblock) :
    Opens reader i (Tells reader i ub w) (openMosInstalling reader i ub w).1 := by
  rw [openMosInstalling]
  cases hroot : BlkPtr.parse ub.rootbp ub.endian with
  | error e =>
    refine Or.inl ⟨_, rfl, fun vdev h => ?_⟩
    obtain ⟨rootbp, -, -, -, h, -⟩ := h
    rw [hroot] at h
    cases h
  | ok rootbp =>
    dsimp only
    rw [bind_run]
    cases hread : (reader i).readBlock rootbp w with
    | mk read w' =>
      cases read with
      | error e =>
        refine Or.inl ⟨_, rfl, fun vdev h => ?_⟩
        obtain ⟨rootbp', block, os, w'', h, hblock, -⟩ := h
        rw [hroot] at h
        cases h
        rw [hread] at hblock
        cases hblock
      | ok block =>
        dsimp only
        have htells : ∀ vdev, Tells reader i ub w vdev ↔ ∃ os,
            ObjsetPhys.parse block.data rootbp.endian = .ok os ∧
              ObjsetTells reader i os rootbp.endian w' vdev := by
          intro vdev
          constructor
          · intro h
            obtain ⟨rootbp', block', os, w'', h, hblock, hos, htells⟩ := h
            rw [hroot] at h
            cases h
            rw [hread] at hblock
            cases hblock
            exact ⟨os, hos, htells⟩
          · intro h
            obtain ⟨os, hos, htells⟩ := h
            exact ⟨rootbp, block, os, w', hroot, hread, hos, htells⟩
        cases hos : ObjsetPhys.parse block.data rootbp.endian with
        | error e =>
          refine Or.inl ⟨_, rfl, fun vdev h => ?_⟩
          obtain ⟨os, hos', -⟩ := (htells vdev).mp h
          rw [hos] at hos'
          cases hos'
        | ok os =>
          have hopens := openMosObjset_opens reader os rootbp.endian i w'
          have heq : Tells reader i ub w = ObjsetTells reader i os rootbp.endian w' := by
            funext vdev
            rw [htells, hos]
            simp
          rw [heq]
          exact hopens

/-- The array that is opened, read with what is installed by then. -/
theorem openMosInstalling_array (ub : Uberblock) :
    (openMosInstalling reader i ub w).1.1 = ((openMos (reader i) ub w).1).map (fun mos =>
      { meta_ := { mos.meta_ with reader := reader (afterOpening reader i ub w) } }) := by
  rw [afterOpening, openMosInstalling, openMos]
  cases BlkPtr.parse ub.rootbp ub.endian with
  | error e => rfl
  | ok rootbp =>
    dsimp only
    rw [bind_run, bind_run]
    cases (reader i).readBlock rootbp w with
    | mk read w' =>
      cases read with
      | error e => rfl
      | ok block =>
        dsimp only
        cases ObjsetPhys.parse block.data rootbp.endian with
        | error e => rfl
        | ok os =>
          dsimp only
          rw [openMosObjset]
          by_cases htype : os.osType ≠ .meta_
          · rw [if_pos htype, if_pos htype]
            rfl
          · rw [if_neg htype, if_neg htype]
            rfl

variable (reader i w) in
/-- Opening a MOS tells of the removed vdevs in its configuration. -/
theorem afterOpening_learned (ub : Uberblock) :
    Learned i (afterOpening reader i ub w) (Tells reader i ub w) :=
  (openMosInstalling_opens reader i w ub).learned

/-- Some opening of a run tells of the vdev. -/
def Told (reader : Installed → PoolReader (StateM σ)) (i : Installed)
    (opened : List (Uberblock × σ)) (vdev : Nat) : Prop :=
  ∃ front ub w back, opened = front ++ (ub, w) :: back ∧
    Tells reader (openEach reader i front) ub w vdev

theorem told_cons {ub : Uberblock} {opened : List (Uberblock × σ)} :
    Told reader i ((ub, w) :: opened) vdev ↔
      Tells reader i ub w vdev ∨ Told reader (afterOpening reader i ub w) opened vdev := by
  constructor
  · intro h
    obtain ⟨front, ub', w', back, hsplit, htells⟩ := h
    cases front with
    | nil =>
      cases hsplit
      exact Or.inl htells
    | cons o front =>
      cases hsplit
      exact Or.inr ⟨front, ub', w', back, rfl, htells⟩
  · intro h
    rcases h with h | h
    · exact ⟨[], ub, w, opened, rfl, h⟩
    · obtain ⟨front, ub', w', back, rfl, htells⟩ := h
      exact ⟨(ub, w) :: front, ub', w', back, rfl, htells⟩

variable (reader i) in
/-- What a reader knows after a run is what the run told. -/
theorem openEach_learned (opened : List (Uberblock × σ)) :
    Learned i (openEach reader i opened) (Told reader i opened) := by
  induction opened generalizing i with
  | nil =>
    refine Learned.nothing rfl (fun vdev h => ?_)
    obtain ⟨front, ub, w, back, h, -⟩ := h
    simp at h
  | cons o opened ih =>
    exact ((afterOpening_learned reader i o.2 o.1).trans (ih _)).congr
      (fun vdev => told_cons.symm)

theorem fresh_translates : ¬ Installed.fresh.Translates vdev := by
  intro h
  cases h

/-- The pool with what is installed. -/
def Installed.into (i : Installed) (pool : Pool) : Pool :=
  { pool with salt := i.salt, removed := i.removed }

theorem locateVdev_into (pool : Pool) :
    (∃ mapping, (i.into pool).locateVdev vdev = some (.removed mapping)) ↔ i.Translates vdev := by
  rw [Installed.Translates]
  show (∃ mapping, (i.into pool).locateVdev vdev = some (.removed mapping)) ↔
    (List.lookup vdev (i.into pool).removed).isSome
  rw [Pool.locateVdev]
  cases List.lookup vdev (i.into pool).removed with
  | none => simp
  | some mapping => simp

theorem locateVdev_congr {i' : Installed} (pool : Pool)
    (h : i'.removed.lookup vdev = i.removed.lookup vdev) :
    (i'.into pool).locateVdev vdev = (i.into pool).locateVdev vdev := by
  have hinto : (i'.into pool).removed.lookup vdev = (i.into pool).removed.lookup vdev := h
  rw [Pool.locateVdev, Pool.locateVdev, hinto]
  rfl

/-- The mappings that transaction groups tell of stay for those that are opened after them.  So the
removed vdevs that one is read with are its own exactly when those before it told of no others. -/
theorem openEach_honest_iff (reader : Installed → PoolReader (StateM σ)) (pool : Pool)
    (opened : List (Uberblock × σ)) (ub : Uberblock) (w : σ) :
    let before := openEach reader .fresh opened
    let after := openEach reader .fresh (opened ++ [(ub, w)])
    (∀ vdev, (∃ mapping, (after.into pool).locateVdev vdev = some (.removed mapping)) ↔
      Told reader .fresh opened vdev ∨ Tells reader before ub w vdev) ∧
    (∀ vdev, ¬ Tells reader before ub w vdev →
      (after.into pool).locateVdev vdev = (before.into pool).locateVdev vdev) ∧
    ((∀ vdev, (∃ mapping, (after.into pool).locateVdev vdev = some (.removed mapping)) ↔
        Tells reader before ub w vdev) ↔
      ∀ vdev, Told reader .fresh opened vdev → Tells reader before ub w vdev) := by
  intro before after
  have hafter : after = afterOpening reader before ub w := by
    show openEach reader .fresh (opened ++ [(ub, w)]) = _
    rw [openEach, List.foldl_append]
    rfl
  have hbefore := openEach_learned reader .fresh opened
  have hopen := afterOpening_learned reader before w ub
  have hknown : ∀ vdev, (∃ mapping, (after.into pool).locateVdev vdev = some (.removed mapping)) ↔
      Told reader .fresh opened vdev ∨ Tells reader before ub w vdev := by
    intro vdev
    rw [locateVdev_into, hafter, hopen.translates, hbefore.translates,
      or_iff_right fresh_translates]
  refine ⟨hknown, fun vdev hnot => ?_, ?_⟩
  · rw [hafter]
    exact locateVdev_congr pool (hopen.kept vdev hnot)
  · constructor
    · intro h vdev htold
      exact (h vdev).mp ((hknown vdev).mpr (Or.inl htold))
    · intro h vdev
      rw [hknown vdev]
      exact ⟨fun hor => hor.elim (h vdev) id, Or.inr⟩

/-! ## Which vdevs were removed -/

/-- The removed vdevs that an opening told of. -/
def removedIn {α : Type} : Except ReadError α × Installed → List Nat
  | (.error _, _) => []
  | (.ok _, i) => i.removedVdevs

/-- Which of the top-level vdevs that no label describes were removed, asked of the newest MOS. -/
def removedTopsOf (reader : Installed → PoolReader (StateM σ)) (pool : PoolAssembly)
    (candidates : List Candidate) : StateM σ (List Nat) :=
  if pool.missingTops = [] ∨ "com.delphix:device_removal" ∉ pool.featuresForRead then pure []
  else
    match selectUberblock candidates .newest with
    | none => pure []
    | some chosen => removedIn <$> openMosInstalling reader .fresh chosen.ub

theorem mem_removedVdevs : vdev ∈ i.removedVdevs ↔ i.Translates vdev := by
  rw [Installed.removedVdevs, List.mem_insertionSort, Installed.Translates]
  simp

/-- The newest MOS is asked which vdevs were removed, and tells of this one. -/
def Removed (reader : Installed → PoolReader (StateM σ)) (pool : PoolAssembly)
    (candidates : List Candidate) (w : σ) (vdev : Nat) : Prop :=
  (pool.missingTops ≠ [] ∧ "com.delphix:device_removal" ∈ pool.featuresForRead) ∧
    ∃ chosen, candidates.head? = some chosen ∧ Tells reader .fresh chosen.ub w vdev

theorem mem_removedTopsOf (pool : PoolAssembly) (candidates : List Candidate) :
    vdev ∈ (removedTopsOf reader pool candidates w).1 ↔
      Removed reader pool candidates w vdev := by
  rw [removedTopsOf, Removed]
  by_cases hasked : pool.missingTops ≠ [] ∧ "com.delphix:device_removal" ∈ pool.featuresForRead
  · have hnot : ¬ (pool.missingTops = [] ∨
        "com.delphix:device_removal" ∉ pool.featuresForRead) := by
      rw [not_or, not_not]
      exact hasked
    rw [if_neg hnot, and_iff_right hasked, selectUberblock]
    cases hchosen : candidates.head? with
    | none =>
      constructor
      · intro h
        cases h
      · intro h
        obtain ⟨chosen, h, -⟩ := h
        cases h
    | some chosen =>
      have htells : (∃ c, some chosen = some c ∧ Tells reader .fresh c.ub w vdev) ↔
          Tells reader .fresh chosen.ub w vdev := by simp
      rw [htells]
      show vdev ∈ removedIn (openMosInstalling reader .fresh chosen.ub w).1 ↔ _
      have hopens := openMosInstalling_opens reader .fresh w chosen.ub
      revert hopens
      generalize (openMosInstalling reader .fresh chosen.ub w).1 = opened
      intro hopens
      rcases hopens with ⟨e, rfl, hnone⟩ | ⟨os, endian, hok, hlearned⟩
      · constructor
        · intro h
          cases h
        · exact fun h => absurd h (hnone vdev)
      · obtain ⟨array, i⟩ := opened
        dsimp only at hok hlearned
        subst hok
        show vdev ∈ i.removedVdevs ↔ _
        rw [mem_removedVdevs, hlearned.translates, or_iff_right fresh_translates]
  · have hnot : pool.missingTops = [] ∨ "com.delphix:device_removal" ∉ pool.featuresForRead := by
      by_cases hmissing : pool.missingTops = []
      · exact Or.inl hmissing
      · exact Or.inr (fun h => hasked ⟨hmissing, h⟩)
    rw [if_pos hnot]
    constructor
    · intro h
      cases h
    · exact fun h => absurd h.1 hasked

/-- A top-level vdev that no label describes is missing, unless the newest MOS tells that it was
removed. -/
theorem missingTops_noted_iff (reader : Installed → PoolReader (StateM σ)) (pool : PoolAssembly)
    (candidates : List Candidate) (w : σ) (id : Nat) :
    id ∈ (pool.noteRemovedTops (removedTopsOf reader pool candidates w).1).missingTops ↔
      (∃ n, pool.vdevChildren = some n ∧ id < n) ∧ (∀ top ∈ pool.tops, top.id ≠ id) ∧
        ¬ Removed reader pool candidates w id := by
  rw [← mem_removedTopsOf]
  generalize (removedTopsOf reader pool candidates w).1 = removed
  have hchildren : (pool.noteRemovedTops removed).vdevChildren = pool.vdevChildren := rfl
  have htops : (pool.noteRemovedTops removed).tops = pool.tops := rfl
  rw [PoolAssembly.missingTops, hchildren, htops]
  cases pool.vdevChildren with
  | none => simp
  | some n =>
    simp only [PoolAssembly.noteRemovedTops, List.mem_filter, List.mem_range, List.any_eq_true,
      decide_eq_true_eq, Bool.not_eq_true', Bool.eq_false_iff, ne_eq, List.contains_iff_mem,
      List.mem_insertionSort, List.mem_dedup, Option.some.injEq, exists_eq_left', not_and,
      not_not, and_assoc]
    refine and_congr_right (fun _ => ?_)
    constructor
    · intro h
      obtain ⟨hnone, hkept⟩ := h
      refine ⟨fun top htop heq => hnone ⟨top, htop, heq⟩, fun hid => hnone (hkept hid)⟩
    · intro h
      obtain ⟨hnone, hkept⟩ := h
      refine ⟨?_, fun hid => absurd hid hkept⟩
      intro hsome
      obtain ⟨top, htop, heq⟩ := hsome
      exact hnone top htop heq

end Runs

end Dsl
end ZvolRescue
