import ZvolRescue.Dmu.Range
import ZvolRescue.Ondisk.LabelConfig
import ZvolRescue.Ondisk.MapEntries

/-!
# Space that is given out

What the space maps of a pool say of a range: given out, free, or nothing.  A vdev of which every
map was read is taken at its word, even where a map is cut short or does not come to what it
declares (`honest_iff`).
-/

namespace ZvolRescue
namespace Dmu

open Lib Ondisk Zio

/-- The space of one top-level vdev that is given out. -/
structure VdevSpace where
  vdev : Nat
  allocated : Ranges
  /-- Metaslabs whose space map was read. -/
  metaslabs : Nat
  /-- Metaslabs whose space map could not be read. -/
  unreadable : Nat
  /-- What the maps that were read say they account for. -/
  declaredBytes : Int

/-- What the space maps of a pool say. -/
structure Space where
  /-- The vdevs that were read, the latest first. -/
  vdevs : List (Nat × VdevSpace)
  /-- Why a vdev is missing. -/
  skipped : List String
  mayLag : Bool

namespace VdevSpace

/-- The ranges come to what the maps declare. -/
def consistent (v : VdevSpace) : Bool :=
  v.unreadable = 0 ∧ (BitVec.ofNat 64 v.allocated.bytes).toInt = v.declaredBytes

end VdevSpace

namespace Space

/-- Whether some of a range is given out; none where nothing is known. -/
def allocated (s : Space) (vdev offset len : Nat) : Option Bool :=
  match s.vdevs.lookup vdev with
  | none => none
  | some v =>
    if v.unreadable > 0 ∧ v.allocated.intersects offset len = false then none
    else some (v.allocated.intersects offset len)

end Space

/-! ## Reading the maps -/

/-- Bytes of a header that are read. -/
def spaceMapMinLen : Nat := 24

/-- The header of a space map. -/
structure SpaceMapPhys where
  object : Nat
  /-- Bytes of the object that hold entries. -/
  length : Nat
  /-- The space that the map accounts for. -/
  alloc : Int
  deriving DecidableEq, Repr

def SpaceMapPhys.parse (bonus : List UInt8) (endian : Endian) : Except ParseError SpaceMapPhys :=
  if bonus.length < spaceMapMinLen then .error (.truncated spaceMapMinLen bonus.length)
  else
    let at_ := fun off => ((endian.u64At bonus off).map UInt64.toNat).getD 0
    .ok { object := at_ 0, length := at_ 8, alloc := (BitVec.ofNat 64 (at_ 16)).toInt }

/-- A sum of signed 64-bit numbers that stops at their bounds. -/
def satAddI64 (a b : Int) : Int := max (-2 ^ 63) (min (2 ^ 63 - 1) (a + b))

section Read

variable (mos : DnodeArray Id)

/-- The space map object of each metaslab, in order. -/
def metaslabObjects (array : Nat) : Except ReadError (List Nat) :=
  match mos.object array with
  | .error e => .error e
  | .ok obj =>
    match obj.readRange 0 obj.logicalSize with
    | .error e => .error e
    | .ok raw => .ok ((Spacemap.wordsOf raw obj.endian).map UInt64.toNat)

/-- The header and the entries of one map. -/
def readOne (object ashift : Nat) : Except ReadError (SpaceMapPhys × List Spacemap.Entry) :=
  match mos.get object with
  | .error e => .error e
  | .ok dnode =>
    match SpaceMapPhys.parse dnode.bonus mos.endian with
    | .error e => .error (.ofParse e)
    | .ok phys =>
      if phys.length = 0 then .ok (phys, [])
      else
        match mos.object object with
        | .error e => .error e
        | .ok obj =>
          match obj.readRange 0 (min phys.length obj.logicalSize) with
          | .error e => .error e
          | .ok raw =>
            .ok (phys, (Spacemap.entries Spacemap.Arith.release raw ashift mos.endian).getD [])

/-- The metaslabs from the `i`-th on. -/
def readMetaslabs (ashift shift : Nat) : List Nat → (i : Nat) → VdevSpace → VdevSpace
  | [], _, v => v
  | obj :: rest, i, v =>
    -- One that was never written has no map, and nothing is missing.
    if obj = 0 then readMetaslabs ashift shift rest (i + 1) { v with metaslabs := v.metaslabs + 1 }
    else
      match readOne mos obj (ashift % 2 ^ 32) with
      | .ok (phys, es) =>
        readMetaslabs ashift shift rest (i + 1)
          { v with
            allocated := v.allocated.replay es (shl64 i shift)
            declaredBytes := satAddI64 v.declaredBytes phys.alloc
            metaslabs := v.metaslabs + 1 }
      | .error _ =>
        readMetaslabs ashift shift rest (i + 1) { v with unreadable := v.unreadable + 1 }

/-- Of the objects of the array, those of metaslabs. -/
def metaslabsOf (node : VdevNode) (shift : Nat) (objects : List Nat) : List Nat :=
  match node.asize.map (fun asize => shr64 asize shift) with
  | none => objects
  | some n => if n > 0 then objects.take n else objects

/-- The maps of one vdev, or why it is left out. -/
def readTop (vdev : Nat) (node : VdevNode) : Except String VdevSpace :=
  match node.metaslabArray, node.metaslabShift, node.ashift with
  | some array, some shift, some ashift =>
    match metaslabObjects mos array with
    | .error e => .error s!"vdev {vdev}: metaslab array {array}: {e.text}"
    | .ok objects =>
      .ok (readMetaslabs mos ashift shift (metaslabsOf node shift objects) 0
        { vdev, allocated := Ranges.new, metaslabs := 0, unreadable := 0, declaredBytes := 0 })
  | _, _, _ => .error s!"vdev {vdev}: the configuration does not say where its metaslabs are"

def Space.note (s : Space) (top : Nat × VdevNode) : Space :=
  match readTop mos top.1 top.2 with
  | .error text => { s with skipped := s.skipped ++ [text] }
  | .ok v => { s with vdevs := (top.1, v) :: s.vdevs }

/-- The maps of every top-level vdev. -/
def Space.read (tops : List (Nat × VdevNode)) : Space :=
  tops.foldl (Space.note mos) { vdevs := [], skipped := [], mayLag := true }

/-! ## What the answers rest on -/

/-- The vdev of this number whose maps the answers come from, with its space. -/
def spaceOf (tops : List (Nat × VdevNode)) (vdev : Nat) : Option (VdevNode × VdevSpace) :=
  tops.reverse.findSome? (fun top =>
    if top.1 = vdev then (readTop mos top.1 top.2).toOption.map (fun v => (top.2, v)) else none)

/-- The objects of a vdev's metaslabs, as far as they are listed. -/
def Lists (node : VdevNode) (ashift : Nat) (objects : List Nat) : Prop :=
  ∃ array shift listed, node.metaslabArray = some array ∧ node.metaslabShift = some shift ∧
    node.ashift = some ashift ∧ metaslabObjects mos array = .ok listed ∧
    objects = metaslabsOf node shift listed

/-- Some map of the vdev could not be read. -/
def SomeLost (node : VdevNode) : Prop :=
  ∃ ashift objects, Lists mos node ashift objects ∧
    ∃ obj ∈ objects, obj ≠ 0 ∧ ∃ e, readOne mos obj (ashift % 2 ^ 32) = .error e

/-- Every metaslab of the vdev is listed, and its map was read up to its declared length. -/
def AllWhole (node : VdevNode) : Prop :=
  (∀ array shift listed asize, node.metaslabArray = some array → node.metaslabShift = some shift →
    metaslabObjects mos array = .ok listed → node.asize = some asize →
    shr64 asize shift ≤ listed.length) ∧
  ∀ ashift objects, Lists mos node ashift objects → ∀ obj ∈ objects, obj ≠ 0 →
    ∃ phys es, readOne mos obj (ashift % 2 ^ 32) = .ok (phys, es) ∧
      (0 < phys.length → ∃ o, mos.object obj = .ok o ∧ phys.length ≤ o.logicalSize)

/-- What is called free was accounted for, and is free in what the maps say. -/
def Honest (tops : List (Nat × VdevNode)) (vdev : Nat) : Prop :=
  ∀ offset len, offset < word → len < word → 0 < len →
    (Space.read mos tops).allocated vdev offset len = some false →
    ∃ node v, spaceOf mos tops vdev = some (node, v) ∧ AllWhole mos node ∧ v.consistent = true ∧
      ∀ r ∈ v.allocated.slice, ¬ (r.1 < satAdd64 offset len ∧ offset < r.2)

variable {mos}

theorem spaceOf_cons (top : Nat × VdevNode) (rest : List (Nat × VdevNode)) (vdev : Nat) :
    spaceOf mos (top :: rest) vdev =
      (spaceOf mos rest vdev).or
        (if top.1 = vdev then (readTop mos top.1 top.2).toOption.map (fun v => (top.2, v))
          else none) := by
  rw [spaceOf, List.reverse_cons, List.findSome?_append, ← spaceOf, List.findSome?_singleton]

/-- A later vdev takes the place of an earlier one of its number. -/
theorem foldl_note_lookup (vdev : Nat) (tops : List (Nat × VdevNode)) : ∀ s : Space,
    (tops.foldl (Space.note mos) s).vdevs.lookup vdev =
      ((spaceOf mos tops vdev).map Prod.snd).or (s.vdevs.lookup vdev) := by
  induction tops with
  | nil =>
    intro s
    rfl
  | cons top rest ih =>
    intro s
    have hone : (s.note mos top).vdevs.lookup vdev =
        ((if top.1 = vdev then (readTop mos top.1 top.2).toOption.map (fun v => (top.2, v))
          else none).map Prod.snd).or (s.vdevs.lookup vdev) := by
      cases hread : readTop mos top.1 top.2 with
      | error text => simp [Space.note, hread, Except.toOption]
      | ok v =>
        by_cases hid : top.1 = vdev
        · subst hid
          simp [Space.note, hread, Except.toOption]
        · have hne : (vdev == top.1) = false := by simpa using fun h => hid h.symm
          simp [Space.note, hread, hid, List.lookup_cons, hne]
    rw [List.foldl_cons, ih, hone, spaceOf_cons, Option.map_or, Option.or_assoc]

theorem lookup_read (tops : List (Nat × VdevNode)) (vdev : Nat) :
    (Space.read mos tops).vdevs.lookup vdev = (spaceOf mos tops vdev).map Prod.snd := by
  rw [Space.read, foldl_note_lookup]
  exact Option.or_none

/-- None of the maps is missing just where every object is read that is there. -/
theorem readMetaslabs_unreadable (ashift shift : Nat) (objects : List Nat) : ∀ i v,
    (readMetaslabs mos ashift shift objects i v).unreadable = 0 ↔ v.unreadable = 0 ∧
      ∀ obj ∈ objects, obj ≠ 0 → ∃ r, readOne mos obj (ashift % 2 ^ 32) = .ok r := by
  induction objects with
  | nil => simp [readMetaslabs]
  | cons obj rest ih =>
    intro i v
    rw [readMetaslabs, List.forall_mem_cons]
    by_cases hobj : obj = 0
    · rw [if_pos hobj, ih]
      simp [hobj]
    · rw [if_neg hobj]
      cases hread : readOne mos obj (ashift % 2 ^ 32) with
      | error e =>
        simp only [ih]
        simp [hobj]
      | ok r =>
        simp only [ih]
        simp

theorem readMetaslabs_end_lt (ashift shift : Nat) (objects : List Nat) : ∀ i v,
    (∀ r ∈ v.allocated.slice, r.2 < word) →
      ∀ r ∈ (readMetaslabs mos ashift shift objects i v).allocated.slice, r.2 < word := by
  induction objects with
  | nil =>
    intro i v h
    exact h
  | cons obj rest ih =>
    intro i v h
    rw [readMetaslabs]
    split
    · exact ih _ _ h
    · split
      · exact ih _ _ (Ranges.replay_end_lt _ h)
      · exact ih _ _ h

theorem readTop_ok {vdev : Nat} {node : VdevNode} {v : VdevSpace}
    (h : readTop mos vdev node = .ok v) :
    (v.unreadable = 0 ↔ ¬ SomeLost mos node) ∧ ∀ r ∈ v.allocated.slice, r.2 < word := by
  rw [readTop] at h
  split at h
  · rename_i array shift ashift harray hshift hashift
    split at h
    · cases h
    · rename_i listed hlisted
      obtain rfl := Except.ok.inj h
      have hlists : ∀ ashift' objects, Lists mos node ashift' objects ↔
          ashift' = ashift ∧ objects = metaslabsOf node shift listed := by
        intro ashift' objects
        constructor
        · rintro ⟨array', shift', listed', h1, h2, h3, h4, h5⟩
          rw [harray] at h1
          rw [hshift] at h2
          rw [hashift] at h3
          cases h1
          cases h2
          cases h3
          rw [hlisted] at h4
          cases h4
          exact ⟨rfl, h5⟩
        · rintro ⟨rfl, rfl⟩
          exact ⟨array, shift, listed, harray, hshift, hashift, hlisted, rfl⟩
      refine ⟨?_, readMetaslabs_end_lt _ _ _ _ _ (fun r hr => by cases hr)⟩
      rw [readMetaslabs_unreadable]
      constructor
      · rintro ⟨-, hall⟩ ⟨ashift', objects, hin, obj, hobj, hne, e, he⟩
        obtain ⟨rfl, rfl⟩ := (hlists _ _).mp hin
        obtain ⟨r, hr⟩ := hall obj hobj hne
        rw [he] at hr
        cases hr
      · intro hnone
        refine ⟨rfl, fun obj hobj hne => ?_⟩
        cases hread : readOne mos obj (ashift % 2 ^ 32) with
        | ok r => exact ⟨r, rfl⟩
        | error e =>
          exact absurd ⟨ashift, _, (hlists _ _).mpr ⟨rfl, rfl⟩, obj, hobj, hne, e, hread⟩ hnone
  · cases h

theorem spaceOf_read {tops : List (Nat × VdevNode)} {vdev : Nat} {node : VdevNode} {v : VdevSpace}
    (h : spaceOf mos tops vdev = some (node, v)) : readTop mos vdev node = .ok v := by
  obtain ⟨top, -, htop⟩ := List.exists_of_findSome?_eq_some h
  split at htop
  · rename_i hid
    cases hread : readTop mos top.1 top.2 with
    | error text =>
      rw [hread] at htop
      cases htop
    | ok v' =>
      rw [hread] at htop
      cases htop
      rw [← hid, hread]
  · cases htop

/-- Free space of a vdev whose maps were all read is what is outside the ranges. -/
theorem allocated_eq {tops : List (Nat × VdevNode)} {vdev : Nat} {node : VdevNode} {v : VdevSpace}
    (h : spaceOf mos tops vdev = some (node, v)) {offset len : Nat} :
    (Space.read mos tops).allocated vdev offset len = some false ↔
      ¬ SomeLost mos node ∧ v.allocated.intersects offset len = false := by
  have hlookup : (Space.read mos tops).vdevs.lookup vdev = some v := by
    rw [lookup_read, h]
    rfl
  have hlost := (readTop_ok (spaceOf_read h)).1
  rw [Space.allocated, hlookup, ← hlost]
  simp only
  split
  · rename_i hcond
    exact iff_of_false (by simp) (fun hsound => by omega)
  · rename_i hcond
    rw [Option.some_inj]
    constructor
    · intro hfree
      exact ⟨by by_contra hne; exact hcond ⟨by omega, hfree⟩, hfree⟩
    · exact fun hsound => hsound.2

/-- The answers are honest just where some map was missed, or all were read whole and the ranges
come to what the maps declare. -/
theorem honest_iff (mos : DnodeArray Id) (tops : List (Nat × VdevNode)) (vdev : Nat) :
    Honest mos tops vdev ↔ ∀ node v, spaceOf mos tops vdev = some (node, v) →
      SomeLost mos node ∨ (AllWhole mos node ∧ v.consistent = true) := by
  constructor
  · intro h node v hspace
    by_cases hlost : SomeLost mos node
    · exact Or.inl hlost
    · right
      have hends := (readTop_ok (spaceOf_read hspace)).2
      -- The last byte of all lies in no range.
      have hfree : v.allocated.intersects (word - 1) 1 = false := by
        rw [Ranges.intersects, List.any_eq_false]
        intro r hr
        have hend := hends r hr
        rw [decide_eq_true_eq]
        omega
      have hanswer := (allocated_eq hspace).mpr ⟨hlost, hfree⟩
      obtain ⟨node', v', hspace', hwhole, hagrees, -⟩ :=
        h (word - 1) 1 (by decide) (by decide) (by decide) hanswer
      rw [hspace] at hspace'
      cases hspace'
      exact ⟨hwhole, hagrees⟩
  · intro h offset len _ _ _ hanswer
    cases hspace : spaceOf mos tops vdev with
    | none =>
      have hlookup : (Space.read mos tops).vdevs.lookup vdev = none := by
        rw [lookup_read, hspace]
        rfl
      rw [Space.allocated, hlookup] at hanswer
      cases hanswer
    | some space =>
      obtain ⟨node, v⟩ := space
      obtain ⟨hread, hfree⟩ := (allocated_eq hspace).mp hanswer
      obtain ⟨hwhole, hagrees⟩ := (h node v hspace).resolve_left hread
      refine ⟨node, v, rfl, hwhole, hagrees, fun r hr hmeets => ?_⟩
      rw [Ranges.intersects, List.any_eq_false] at hfree
      exact hfree r hr (decide_eq_true hmeets)

/-! A metaslab whose log is empty and whose map declares a block. -/

def wordBytes (n : Nat) : List UInt8 := Endian.little.bytes (UInt64.ofNat n)

/-- The words of a pointer to this sector. -/
def sectorPointer (sector : Nat) : List Nat := [1, sector, 0, 0, 0, 0, 2 ^ 63]

/-- A dnode of one block of so many sectors. -/
def slotBytes (objectType sectors : Nat) (pointer : List Nat) (bonus : List UInt8) : List UInt8 :=
  setLen
    (setLen
        ([objectType, 0, 1, 1, 0, 0, 0, 0, sectors, 0, bonus.length,
          bonus.length / 256].map UInt8.ofNat) dnodeCoreSize ++
      setLen (pointer.flatMap wordBytes) bpSize ++ bonus)
    dnodeSize

/-- Object 1 is the metaslab array, object 2 the map of its one metaslab. -/
def declaredMos : DnodeArray Id where
  meta_ :=
    { reader :=
        { readBlock := fun bp =>
            if bp.dva0.offset = 512 then
              .ok
                { data := setLen [] dnodeSize ++ slotBytes 2 1 (sectorPointer 2) [] ++
                    slotBytes 8 1 (sectorPointer 3) ([2, 0, 4096].flatMap wordBytes)
                  verify := .ok
                  attempts := [] }
            else .ok { data := wordBytes 2, verify := .ok, attempts := [] }
          verify := fun _ _ => Verify.ok
          salvageDva := fun _ _ => .error .noMember }
      dnode :=
        { objectType := 10, indblkshift := 0, nlevels := 1, nblkptr := 1, bonusType := 0
          checksum := 0, compress := 0, flags := 0, datablkszsec := 3, bonuslen := 0
          extraSlots := 0, maxblkid := 0, used := 0
          blkptr := (BlkPtr.parse
            (setLen ((sectorPointer 1).flatMap wordBytes) bpSize) .little).toOption.toList
          bonus := [], spill := none }
      endian := .little }

def declaredVdev : VdevNode :=
  { kind := "disk", id := 0, guid := 1, path := none, ashift := some 12, asize := some (2 ^ 29)
    metaslabArray := some 1, metaslabShift := some 29, nparity := none, draidNdata := none
    draidNspares := none, draidNgroups := none, isLog := false, indirectObject := none
    children := [] }

/-- All of the vdev is called free. -/
theorem declared_called_free :
    (Space.read declaredMos [(0, declaredVdev)]).allocated 0 0 4096 = some false ∧
      ¬ Honest declaredMos [(0, declaredVdev)] 0 := by
  have hfree : (Space.read declaredMos [(0, declaredVdev)]).allocated 0 0 4096 = some false := by
    decide +kernel
  have hagrees : ((Space.read declaredMos [(0, declaredVdev)]).vdevs.lookup 0).map
      VdevSpace.consistent = some false := by
    decide +kernel
  refine ⟨hfree, fun h => ?_⟩
  obtain ⟨node, v, hspace, -, hconsistent, -⟩ :=
    h 0 4096 (by decide) (by decide) (by decide) hfree
  rw [lookup_read, hspace] at hagrees
  have hv : v.consistent = false := Option.some.inj hagrees
  rw [hconsistent] at hv
  cases hv

end Read

end Dmu
end ZvolRescue
