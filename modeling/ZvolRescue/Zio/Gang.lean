import ZvolRescue.Zio.Soundness

/-!
# Gang blocks

A gang pointer leads to a header, and the header to children, which may be gang pointers too.
What is read through one is never less than all its children (`delivers_of_read`), at most nine
headers deep.  The reader finds a header only at the size it takes it to have, and for a copy on
a vdev that the pool does not have it takes 512 bytes: so a tree of headers of any size reads just
where each is found at that size (`readGang_tree_iff`).
-/

namespace ZvolRescue
namespace Zio

open Lib Ondisk

namespace Pool

variable (p : Pool) (io : Io Id)

/-! ## Headers -/

/-- The ways to read so many bytes at a DVA. -/
def headerCandidates (dva : Dva) (size : Nat) : List RawCandidate :=
  (p.candidatesOn io (p.remappedCandidates io maxDepth) dva.vdev dva.offset size).run

/-- The header that a candidate is, all of it or its first 512 bytes. -/
def headerOf (bp : BlkPtr) (size : Nat) (buf : List UInt8) : Option (List UInt8) :=
  let old := buf.take Ondisk.gangHeaderSize
  if p.gangHeaderStatus bp buf = .ok then some buf
  else if size > Ondisk.gangHeaderSize ∧ p.gangHeaderStatus bp old = .ok then some old
  else none

/-- A header that verifies is at this DVA, in a candidate of this size. -/
def HeaderOn (bp : BlkPtr) (dva : Dva) (size : Nat) (header : List UInt8) : Prop :=
  ∃ device buf, (device, .ok buf) ∈ p.headerCandidates io dva size ∧
    (header = buf ∨ header = buf.take Ondisk.gangHeaderSize) ∧ p.gangHeaderStatus bp header = .ok

/-- The reader sees this header at this DVA. -/
def Sees (bp : BlkPtr) (dva : Dva) (header : List UInt8) : Prop :=
  ∃ device buf, (device, .ok buf) ∈ p.headerCandidates io dva (p.gangHeaderSize bp) ∧
    p.headerOf bp (p.gangHeaderSize bp) buf = some header

/-- The bytes match the checksum of the pointer, or it has none. -/
def Accepts (bp : BlkPtr) (raw : List UInt8) : Prop :=
  p.verdict bp raw = .ok ∨ p.verdict bp raw = .notChecked

/-- Every copy is a gang. -/
def GangOnly (bp : BlkPtr) : Prop := ∀ d ∈ bp.dvas, d.gang = true

/-- No copy is. -/
def PlainOnly (bp : BlkPtr) : Prop := ∀ d ∈ bp.dvas, d.gang = false

/-- The children of a header that are there. -/
def filled (children : List BlkPtr) : List BlkPtr := children.filter (fun c => !c.isHole)

/-! ## Trees -/

/-- The size of a dynamic header: the smallest allocation of its copies. -/
def dynamicSize (alloc : Nat → Nat) (bp : BlkPtr) : Nat :=
  max ((bp.dvas.map (fun d => alloc d.vdev)).min?.getD Ondisk.gangHeaderSize) Ondisk.gangHeaderSize

/-- The header behind a gang pointer: it verifies on a candidate of some copy, of 512 bytes or
the dynamic size, and nothing else does. -/
structure Headed (alloc : Nat → Nat) (bp : BlkPtr) (header : List UInt8) : Prop where
  gangs : GangOnly bp
  here : ∃ d ∈ bp.dvas, ∃ size, (size = Ondisk.gangHeaderSize ∨ size = dynamicSize alloc bp) ∧
    p.HeaderOn io bp d size header
  only : ∀ d ∈ bp.dvas, ∀ size,
    (size = Ondisk.gangHeaderSize ∨ size = dynamicSize alloc bp ∨ size = p.gangHeaderSize bp) →
    ∀ other, p.HeaderOn io bp d size other → other = header

/-- A reader of headers that finds none. -/
def noGang : Dva → BlkPtr → Id (Except ReadError (List UInt8)) := fun _ _ => .error .noMember

/-- A block that is no gang and reads. -/
def IsBlock (bp : BlkPtr) (raw : List UInt8) : Prop :=
  PlainOnly bp ∧ (p.readRawVerified io noGang bp).run.2 = .ok raw

/-- A tree of at most so many headers from top to bottom, and its bytes. -/
def IsTree (alloc : Nat → Nat) : (levels : Nat) → BlkPtr → List UInt8 → Prop
  | 0, bp, raw => p.IsBlock io bp raw
  | levels + 1, bp, raw =>
    p.IsBlock io bp raw ∨
      ∃ header children pieces, p.Headed io alloc bp header ∧
        parseGangHeader header bp.endian = .ok children ∧
        List.Forall₂ (IsTree alloc levels) (filled children) pieces ∧
        raw = pieces.flatten.take bp.psize ∧ p.Accepts bp raw

/-- The reader sees a header for each gang pointer of a tree, at the size it takes it to have. -/
def Found : (levels : Nat) → BlkPtr → Prop
  | 0, bp => PlainOnly bp
  | levels + 1, bp =>
    PlainOnly bp ∨
      ∃ d ∈ bp.dvas, d.gang = true ∧ ∃ header children, p.Sees io bp d header ∧
        parseGangHeader header bp.endian = .ok children ∧
        ∀ child ∈ filled children, Found levels child

/-- What a read may hand out: a plain copy, or all the children of a header that is seen. -/
def Delivers : (levels : Nat) → BlkPtr → List UInt8 → Prop
  | 0, bp, raw =>
    ∃ d ∈ bp.dva.zipIdx, d.1 ∈ bp.dvas ∧ d.1.gang = false ∧
      ∃ v, (p.readCopy io noGang bp d.1 d.2).run.2 = .ok (raw, v)
  | levels + 1, bp, raw =>
    (∃ d ∈ bp.dva.zipIdx, d.1 ∈ bp.dvas ∧ d.1.gang = false ∧
      ∃ v, (p.readCopy io noGang bp d.1 d.2).run.2 = .ok (raw, v)) ∨
      ∃ d ∈ bp.dvas, d.gang = true ∧ ∃ header children pieces, p.Sees io bp d header ∧
        parseGangHeader header bp.endian = .ok children ∧
        List.Forall₂ (Delivers levels) (filled children) pieces ∧
        raw = pieces.flatten.take bp.psize ∧ p.Accepts bp raw

/-- There is a gang pointer below so many headers, whichever header is taken. -/
def Deeper : (levels : Nat) → BlkPtr → Prop
  | 0, bp => GangOnly bp
  | levels + 1, bp =>
    GangOnly bp ∧ ∀ d ∈ bp.dvas, ∀ header children, p.Sees io bp d header →
      parseGangHeader header bp.endian = .ok children →
        ∃ child ∈ filled children, Deeper levels child

/-! ## Which header is taken -/

section Headers

variable {p io} {bp : BlkPtr}

theorem headerOf_spec {size : Nat} {buf header : List UInt8}
    (h : p.headerOf bp size buf = some header) :
    (header = buf ∨ header = buf.take Ondisk.gangHeaderSize) ∧
      p.gangHeaderStatus bp header = .ok := by
  rw [headerOf] at h
  split at h
  case isTrue hok =>
    cases h
    exact ⟨.inl rfl, hok⟩
  case isFalse =>
    split at h
    case isTrue hold =>
      cases h
      exact ⟨.inr rfl, hold.2⟩
    case isFalse => cases h

theorem pickHeader_ok {size : Nat} {last : ReadError} {candidates : List RawCandidate}
    {header : List UInt8} (h : p.pickHeader bp size last candidates = .ok header) :
    ∃ device buf, (device, .ok buf) ∈ candidates ∧ p.headerOf bp size buf = some header := by
  induction candidates generalizing last with
  | nil => cases h
  | cons candidate rest ih =>
    obtain ⟨device, result⟩ := candidate
    cases result with
    | error e =>
      obtain ⟨device', buf, hmem, hheader⟩ := ih h
      exact ⟨device', buf, List.mem_cons_of_mem _ hmem, hheader⟩
    | ok buf =>
      rw [pickHeader] at h
      by_cases hwhole : p.gangHeaderStatus bp buf = .ok
      · rw [if_pos hwhole] at h
        cases h
        exact ⟨device, _, List.mem_cons_self, if_pos hwhole⟩
      · rw [if_neg hwhole] at h
        split at h
        case isTrue hold =>
          cases h
          exact ⟨device, buf, List.mem_cons_self, by rw [headerOf, if_neg hwhole, if_pos hold]⟩
        case isFalse =>
          obtain ⟨device', buf', hmem, hheader⟩ := ih h
          exact ⟨device', buf', List.mem_cons_of_mem _ hmem, hheader⟩

theorem pickHeader_isOk {size : Nat} (last : ReadError) {candidates : List RawCandidate}
    {device : Option Nat} {buf header : List UInt8} (hmem : (device, .ok buf) ∈ candidates)
    (hheader : p.headerOf bp size buf = some header) :
    ∃ header', p.pickHeader bp size last candidates = .ok header' := by
  induction candidates generalizing last with
  | nil => cases hmem
  | cons candidate rest ih =>
    obtain ⟨device', result⟩ := candidate
    cases result with
    | error e =>
      cases List.mem_cons.mp hmem with
      | inl heq => cases heq
      | inr hmem => exact ih e hmem
    | ok buf' =>
      rw [pickHeader]
      by_cases hwhole : p.gangHeaderStatus bp buf' = .ok
      · exact ⟨buf', if_pos hwhole⟩
      · rw [if_neg hwhole]
        split
        case isTrue => exact ⟨_, rfl⟩
        case isFalse hold =>
          cases List.mem_cons.mp hmem with
          | inr hmem => exact ih _ hmem
          | inl heq =>
            cases heq
            rw [headerOf, if_neg hwhole, if_neg hold] at hheader
            cases hheader

theorem HeaderOn.of_sees {dva : Dva} {header : List UInt8} (h : p.Sees io bp dva header) :
    p.HeaderOn io bp dva (p.gangHeaderSize bp) header := by
  obtain ⟨device, buf, hmem, hheader⟩ := h
  obtain ⟨hfrom, hok⟩ := headerOf_spec hheader
  exact ⟨device, buf, hmem, hfrom, hok⟩

/-- Only the header of a tree is seen. -/
theorem Headed.eq_of_sees {alloc : Nat → Nat} {header other : List UInt8}
    (h : p.Headed io alloc bp header) {d : Dva} (hd : d ∈ bp.dvas) (hsees : p.Sees io bp d other) :
    other = header :=
  h.only d hd _ (.inr (.inr rfl)) other (.of_sees hsees)

end Headers

/-! ## Children and copies -/

section Children

theorem joinChildren_cons (read : BlkPtr → Id (Except ReadError (List UInt8))) {child : BlkPtr}
    (rest : List BlkPtr) (hhole : ¬ child.isHole = true) :
    (joinChildren read (child :: rest)).run =
      match (read child).run with
      | .error e => .error e
      | .ok raw => Except.map (raw ++ ·) (joinChildren read rest).run := by
  rw [joinChildren, if_neg hhole]
  rfl

theorem joinChildren_eq (read : BlkPtr → Id (Except ReadError (List UInt8)))
    (children : List BlkPtr) (raw : List UInt8) :
    (joinChildren read children).run = .ok raw ↔
      ∃ pieces, List.Forall₂ (fun c piece => (read c).run = .ok piece) (filled children) pieces ∧
        raw = pieces.flatten := by
  induction children generalizing raw with
  | nil =>
    show Except.ok [] = Except.ok raw ↔ _
    simp [filled, eq_comm]
  | cons child rest ih =>
    rw [filled]
    by_cases hhole : child.isHole = true
    · rw [joinChildren, if_pos hhole, List.filter_cons_of_neg (by simp [hhole])]
      exact ih raw
    · rw [List.filter_cons_of_pos (by simp [hhole])]
      cases hread : (read child).run with
      | error e =>
        rw [joinChildren_cons read rest hhole, hread]
        constructor
        · intro h
          cases h
        · rintro ⟨pieces, hpieces, -⟩
          cases hpieces with
          | cons hfirst _ =>
            rw [hread] at hfirst
            cases hfirst
      | ok piece =>
        rw [joinChildren_cons read rest hhole, hread]
        dsimp only
        constructor
        · intro h
          cases hrest : (joinChildren read rest).run with
          | error e =>
            rw [hrest] at h
            cases h
          | ok tail =>
            rw [hrest] at h
            cases h
            obtain ⟨pieces, hpieces, rfl⟩ := (ih tail).mp hrest
            exact ⟨piece :: pieces, .cons hread hpieces, rfl⟩
        · rintro ⟨pieces, hpieces, rfl⟩
          cases hpieces with
          | cons hfirst htail =>
            rw [hread] at hfirst
            cases hfirst
            rw [(ih _).mpr ⟨_, htail, rfl⟩]
            rfl

theorem readGangWith_ok {read : BlkPtr → Id (Except ReadError (List UInt8))} {dva : Dva}
    {bp : BlkPtr} {raw : List UInt8} :
    (p.readGangWith io read dva bp).run = .ok raw ↔
      ∃ header children pieces,
        p.pickHeader bp (p.gangHeaderSize bp) .noMember
          (p.headerCandidates io dva (p.gangHeaderSize bp)) = .ok header ∧
        parseGangHeader header bp.endian = .ok children ∧
        List.Forall₂ (fun c piece => (read c).run = .ok piece) (filled children) pieces ∧
        raw = pieces.flatten.take bp.psize := by
  rw [readGangWith]
  simp only [Id.run_bind]
  rw [← headerCandidates]
  cases hpick : p.pickHeader bp (p.gangHeaderSize bp) .noMember
      (p.headerCandidates io dva (p.gangHeaderSize bp)) with
  | error e => simp
  | ok header =>
    cases hparse : parseGangHeader header bp.endian with
    | error e => simp [hparse]
    | ok children =>
      simp only [hparse, Id.run_map, Except.ok.injEq, exists_and_left, exists_eq_left']
      cases hjoin : (joinChildren read children).run with
      | error e =>
        simp only [Except.map, reduceCtorEq, false_iff]
        rintro ⟨pieces, hpieces, -⟩
        rw [(joinChildren_eq read children _).mpr ⟨pieces, hpieces, rfl⟩] at hjoin
        cases hjoin
      | ok joined =>
        simp only [Except.map, Except.ok.injEq]
        constructor
        · intro heq
          obtain ⟨pieces, hpieces, rfl⟩ := (joinChildren_eq read children joined).mp hjoin
          exact ⟨pieces, hpieces, heq.symm⟩
        · rintro ⟨pieces, hpieces, rfl⟩
          have hsame := (joinChildren_eq read children _).mpr ⟨pieces, hpieces, rfl⟩
          rw [hjoin] at hsame
          rw [Except.ok.inj hsame]

end Children

section Copies

variable {p io} {bp : BlkPtr} {gang : Dva → BlkPtr → Id (Except ReadError (List UInt8))}

theorem mem_dvas {d : Dva} : d ∈ bp.dvas ↔ d ∈ bp.dva ∧ d.isEmpty = false := by
  rw [BlkPtr.dvas, List.mem_filter]
  simp

theorem exists_zipIdx {d : Dva} (h : d ∈ bp.dvas) : ∃ i, (d, i) ∈ bp.dva.zipIdx := by
  obtain ⟨i, hi⟩ := List.mem_iff_getElem?.mp (mem_dvas.mp h).1
  exact ⟨i, List.mem_zipIdx_iff_getElem?.mpr hi⟩

theorem readCopies_cons (last : ReadError) (dva : Dva) (i : Nat) (rest : List (Dva × Nat))
    (h : dva.isEmpty = false) :
    (p.readCopies io gang bp last ((dva, i) :: rest)).run.2 =
      match (p.readCopy io gang bp dva i).run.2 with
      | .ok (raw, _) => .ok raw
      | .error e => (p.readCopies io gang bp (p.lastError dva last e) rest).run.2 := by
  rw [readCopies, if_neg (by simp [h])]
  simp only [Id.run_bind]
  generalize (p.readCopy io gang bp dva i).run = tried
  obtain ⟨attempts, result⟩ := tried
  cases result with
  | ok found => rfl
  | error e => rfl

/-- What is read is a copy. -/
theorem copy_of_readCopies {last : ReadError} {dvas : List (Dva × Nat)} {raw : List UInt8}
    (h : (p.readCopies io gang bp last dvas).run.2 = .ok raw) :
    ∃ d ∈ dvas, d.1.isEmpty = false ∧ ∃ v, (p.readCopy io gang bp d.1 d.2).run.2 = .ok (raw, v) := by
  induction dvas generalizing last with
  | nil => cases h
  | cons d rest ih =>
    obtain ⟨dva, i⟩ := d
    by_cases hempty : dva.isEmpty = true
    · rw [readCopies, if_pos hempty] at h
      obtain ⟨d, hd, hcopy⟩ := ih h
      exact ⟨d, List.mem_cons_of_mem _ hd, hcopy⟩
    · have hthere : dva.isEmpty = false := Bool.eq_false_iff.mpr hempty
      rw [readCopies_cons last dva i rest hthere] at h
      cases hcopy : (p.readCopy io gang bp dva i).run.2 with
      | ok found =>
        obtain ⟨raw', v⟩ := found
        rw [hcopy] at h
        cases h
        exact ⟨(dva, i), List.mem_cons_self, hthere, v, hcopy⟩
      | error e =>
        rw [hcopy] at h
        obtain ⟨d, hd, hrest⟩ := ih h
        exact ⟨d, List.mem_cons_of_mem _ hd, hrest⟩

/-- A copy that every other agrees with, if it gives anything, is read. -/
theorem readCopies_of_copy {last : ReadError} {dvas : List (Dva × Nat)} {raw : List UInt8}
    (hall : ∀ d ∈ dvas, d.1.isEmpty = false →
      ∀ raw' v, (p.readCopy io gang bp d.1 d.2).run.2 = .ok (raw', v) → raw' = raw)
    (hsome : ∃ d ∈ dvas, d.1.isEmpty = false ∧
      ∃ v, (p.readCopy io gang bp d.1 d.2).run.2 = .ok (raw, v)) :
    (p.readCopies io gang bp last dvas).run.2 = .ok raw := by
  induction dvas generalizing last with
  | nil =>
    obtain ⟨d, hd, -⟩ := hsome
    cases hd
  | cons d rest ih =>
    obtain ⟨dva, i⟩ := d
    have hrest : ∀ d ∈ rest, d.1.isEmpty = false →
        ∀ raw' v, (p.readCopy io gang bp d.1 d.2).run.2 = .ok (raw', v) → raw' = raw :=
      fun d hd => hall d (List.mem_cons_of_mem _ hd)
    obtain ⟨d, hd, hthere, v, hcopy⟩ := hsome
    by_cases hempty : dva.isEmpty = true
    · rw [readCopies, if_pos hempty]
      cases List.mem_cons.mp hd with
      | inl heq =>
        rw [heq] at hthere
        exact absurd hthere (by simp [hempty])
      | inr hd => exact ih hrest ⟨d, hd, hthere, v, hcopy⟩
    · have hhere : dva.isEmpty = false := Bool.eq_false_iff.mpr hempty
      rw [readCopies_cons last dva i rest hhere]
      cases hfirst : (p.readCopy io gang bp dva i).run.2 with
      | ok found =>
        obtain ⟨raw', v'⟩ := found
        dsimp only
        rw [hall (dva, i) List.mem_cons_self hhere raw' v' hfirst]
      | error e =>
        dsimp only
        cases List.mem_cons.mp hd with
        | inl heq =>
          rw [heq, hfirst] at hcopy
          cases hcopy
        | inr hd => exact ih hrest ⟨d, hd, hthere, v, hcopy⟩

/-- A copy that is no gang has nothing to do with headers. -/
theorem readCopy_plain {dva : Dva} (h : dva.gang = false) (i : Nat) :
    p.readCopy io gang bp dva i = p.readCopy io noGang bp dva i := by
  rw [readCopy, readCopy]
  cases p.locateVdev dva.vdev with
  | none => rfl
  | some location =>
    dsimp only
    rw [if_neg (by simp [h]), if_neg (by simp [h])]

theorem readCopies_plain (last : ReadError) (dvas : List (Dva × Nat))
    (h : ∀ d ∈ dvas, d.1.isEmpty = false → d.1.gang = false) :
    p.readCopies io gang bp last dvas = p.readCopies io noGang bp last dvas := by
  induction dvas generalizing last with
  | nil => rfl
  | cons d rest ih =>
    obtain ⟨dva, i⟩ := d
    have hrest := fun last => ih last (fun d hd => h d (List.mem_cons_of_mem _ hd))
    rw [readCopies, readCopies]
    by_cases hempty : dva.isEmpty = true
    · rw [if_pos hempty, if_pos hempty]
      exact hrest last
    · have hgang := h (dva, i) List.mem_cons_self (Bool.eq_false_iff.mpr hempty)
      rw [if_neg hempty, if_neg hempty, readCopy_plain hgang]
      congr 1
      funext tried
      obtain ⟨attempts, result⟩ := tried
      cases result with
      | ok found => rfl
      | error e =>
        dsimp only
        rw [hrest]

theorem readRawVerified_plain (h : PlainOnly bp) :
    p.readRawVerified io gang bp = p.readRawVerified io noGang bp :=
  readCopies_plain _ _ (fun d hd hthere =>
    h d.1 (mem_dvas.mpr ⟨List.fst_mem_of_mem_zipIdx hd, hthere⟩))

theorem accept_ok {raw raw' : List UInt8} {v : Verify} :
    accept raw (p.verdict bp raw) = .ok (raw', v) ↔
      raw' = raw ∧ v = p.verdict bp raw ∧ p.Accepts bp raw := by
  rw [Accepts]
  cases p.verdict bp raw <;> simp [accept, eq_comm]

theorem readCopy_gang_run {dva : Dva} (h : dva.gang = true) {location : Where}
    (hwhere : p.locateVdev dva.vdev = some location) (i : Nat) :
    (p.readCopy io gang bp dva i).run.2 =
      match (gang dva bp).run with
      | .error e => .error e
      | .ok raw => accept raw (p.verdict bp raw) := by
  rw [readCopy, hwhere]
  simp only [if_pos h, Id.run_bind]
  cases (gang dva bp).run with
  | error e => rfl
  | ok raw => exact congrArg (accept raw) (p.verify_run io bp raw)

theorem readCopy_gang {dva : Dva} (h : dva.gang = true) (i : Nat) {raw : List UInt8} :
    (∃ v, (p.readCopy io gang bp dva i).run.2 = .ok (raw, v)) ↔
      (p.locateVdev dva.vdev).isSome ∧ (gang dva bp).run = .ok raw ∧ p.Accepts bp raw := by
  cases hwhere : p.locateVdev dva.vdev with
  | none =>
    rw [readCopy, hwhere]
    simp
  | some location =>
    rw [readCopy_gang_run h hwhere]
    cases (gang dva bp).run with
    | error e => simp
    | ok raw' =>
      simp only [accept_ok, Option.isSome_some, true_and, Except.ok.injEq]
      constructor
      · rintro ⟨v, rfl, -, haccepts⟩
        exact ⟨rfl, haccepts⟩
      · rintro ⟨rfl, haccepts⟩
        exact ⟨_, rfl, rfl, haccepts⟩

end Copies

/-! ## Trees that are read -/

section Trees

variable {p io} {alloc : Nat → Nat} {levels : Nat} {bp : BlkPtr} {raw : List UInt8}

/-- The bytes behind a pointer, with so many levels of headers followed. -/
abbrev bytesOf (p : Pool) (io : Io Id) (levels : Nat) (bp : BlkPtr) :
    Except ReadError (List UInt8) :=
  (p.readRawVerified io (p.readGang io levels) bp).run.2

theorem locate_of_sees {dva : Dva} {header : List UInt8} (h : p.Sees io bp dva header) :
    (p.locateVdev dva.vdev).isSome := by
  obtain ⟨device, buf, hmem, -⟩ := h
  rw [headerCandidates, candidatesOn] at hmem
  cases hwhere : p.locateVdev dva.vdev with
  | some location => rfl
  | none =>
    rw [hwhere] at hmem
    cases List.mem_singleton.mp hmem

theorem sees_of_pick {dva : Dva} {header : List UInt8} {last : ReadError}
    (h : p.pickHeader bp (p.gangHeaderSize bp) last
      (p.headerCandidates io dva (p.gangHeaderSize bp)) = .ok header) :
    p.Sees io bp dva header := pickHeader_ok h

/-- A copy that is a gang is all the children of the header that is picked. -/
theorem readCopy_gang_succ {dva : Dva} (h : dva.gang = true) (i : Nat) :
    (∃ v, (p.readCopy io (p.readGang io (levels + 1)) bp dva i).run.2 = .ok (raw, v)) ↔
      (∃ header children pieces,
        p.pickHeader bp (p.gangHeaderSize bp) .noMember
          (p.headerCandidates io dva (p.gangHeaderSize bp)) = .ok header ∧
        parseGangHeader header bp.endian = .ok children ∧
        List.Forall₂ (fun c piece => bytesOf p io levels c = .ok piece) (filled children) pieces ∧
        raw = pieces.flatten.take bp.psize) ∧ p.Accepts bp raw := by
  rw [readCopy_gang h, readGang, readGangWith_ok]
  constructor
  · rintro ⟨-, hread, haccepts⟩
    exact ⟨hread, haccepts⟩
  · rintro ⟨⟨header, children, pieces, hpick, hread⟩, haccepts⟩
    exact ⟨locate_of_sees (sees_of_pick hpick), ⟨header, children, pieces, hpick, hread⟩, haccepts⟩

/-- Where no header is followed, a gang gives nothing. -/
theorem readCopy_gang_zero {dva : Dva} (h : dva.gang = true) (i : Nat) {v : Verify} :
    (p.readCopy io (p.readGang io 0) bp dva i).run.2 ≠ .ok (raw, v) := by
  intro hread
  obtain ⟨-, hgang, -⟩ := (readCopy_gang h i).mp ⟨v, hread⟩
  cases hgang

theorem copy_of_bytesOf (h : bytesOf p io levels bp = .ok raw) :
    ∃ d ∈ bp.dva.zipIdx, d.1 ∈ bp.dvas ∧
      ∃ v, (p.readCopy io (p.readGang io levels) bp d.1 d.2).run.2 = .ok (raw, v) := by
  obtain ⟨d, hd, hthere, hcopy⟩ := copy_of_readCopies h
  exact ⟨d, hd, mem_dvas.mpr ⟨List.fst_mem_of_mem_zipIdx hd, hthere⟩, hcopy⟩

theorem plain_of_isBlock (h : p.IsBlock io bp raw) : bytesOf p io levels bp = .ok raw := by
  rw [bytesOf, readRawVerified_plain h.1]
  exact h.2

/-- The pointers of a tree are what their children's pointers read, one after another. -/
theorem forall₂_congr {R S : BlkPtr → List UInt8 → Prop} {children : List BlkPtr}
    {pieces : List (List UInt8)} (h : List.Forall₂ R children pieces)
    (himp : ∀ child ∈ children, ∀ piece, R child piece → S child piece) :
    List.Forall₂ S children pieces := by
  induction h with
  | nil => exact .nil
  | cons hfirst _ ih =>
    exact .cons (himp _ List.mem_cons_self _ hfirst)
      (ih (fun child hchild => himp child (List.mem_cons_of_mem _ hchild)))

theorem forall₂_unique {R S : BlkPtr → List UInt8 → Prop} {children : List BlkPtr}
    {pieces pieces' : List (List UInt8)} (h : List.Forall₂ R children pieces)
    (h' : List.Forall₂ S children pieces')
    (hsame : ∀ child ∈ children, ∀ piece piece', R child piece → S child piece' → piece' = piece) :
    pieces' = pieces := by
  induction h generalizing pieces' with
  | nil =>
    cases h'
    rfl
  | cons hfirst _ ih =>
    cases h' with
    | cons hfirst' hrest' =>
      rw [hsame _ List.mem_cons_self _ _ hfirst hfirst',
        ih hrest' (fun child hchild => hsame child (List.mem_cons_of_mem _ hchild))]

/-- A tree whose headers are all seen is read. -/
theorem bytesOf_of_found (h : p.IsTree io alloc levels bp raw) (hfound : p.Found io levels bp) :
    bytesOf p io levels bp = .ok raw := by
  induction levels generalizing bp raw with
  | zero => exact plain_of_isBlock h
  | succ levels ih =>
    cases h with
    | inl hblock => exact plain_of_isBlock hblock
    | inr hgang =>
      obtain ⟨header, children, pieces, hheaded, hparse, hpieces, hraw, haccepts⟩ := hgang
      have hreads : ∀ {d : Dva}, d ∈ bp.dvas → p.Sees io bp d header →
          (∀ child ∈ filled children, p.Found io levels child) →
          List.Forall₂ (fun c piece => bytesOf p io levels c = .ok piece) (filled children)
            pieces := fun _ _ hall =>
        forall₂_congr hpieces (fun child hchild piece hpiece => ih hpiece (hall child hchild))
      obtain ⟨d, hd, hsees, hall⟩ : ∃ d ∈ bp.dvas, p.Sees io bp d header ∧
          ∀ child ∈ filled children, p.Found io levels child := by
        cases hfound with
        | inl hplain =>
          obtain ⟨d, hd, -⟩ := hheaded.here
          exact absurd (hheaded.gangs d hd) (by simp [hplain d hd])
        | inr hfound =>
          obtain ⟨d, hd, -, header', children', hsees, hparse', hall⟩ := hfound
          obtain rfl := hheaded.eq_of_sees hd hsees
          rw [hparse] at hparse'
          cases hparse'
          exact ⟨d, hd, hsees, hall⟩
      have hread := hreads hd hsees hall
      refine readCopies_of_copy ?_ ?_
      · -- Whatever header a copy has, it is that of the tree.
        intro d' hd' hthere raw' v hcopy
        have hd' := mem_dvas.mpr ⟨List.fst_mem_of_mem_zipIdx hd', hthere⟩
        obtain ⟨⟨header', children', pieces', hpick, hparse', hpieces', hraw'⟩, -⟩ :=
          (readCopy_gang_succ (hheaded.gangs _ hd') _).mp ⟨v, hcopy⟩
        obtain rfl := hheaded.eq_of_sees hd' (sees_of_pick hpick)
        rw [hparse] at hparse'
        cases hparse'
        have hsame : pieces' = pieces := forall₂_unique hread hpieces'
          (fun _ _ _ _ hfirst hsecond => Except.ok.inj (hsecond.symm.trans hfirst))
        rw [hraw', hraw, hsame]
      · obtain ⟨i, hi⟩ := exists_zipIdx hd
        obtain ⟨device, buf, hmem, hbuf⟩ := hsees
        obtain ⟨header', hpick⟩ := pickHeader_isOk .noMember hmem hbuf
        obtain rfl := hheaded.eq_of_sees hd (sees_of_pick hpick)
        exact ⟨(d, i), hi, (mem_dvas.mp hd).2, (readCopy_gang_succ (hheaded.gangs d hd) i).mpr
          ⟨⟨_, children, pieces, hpick, hparse, hread, hraw⟩, haccepts⟩⟩

/-- What is read of a tree is its bytes, and then its headers are all seen. -/
theorem found_of_bytesOf (h : p.IsTree io alloc levels bp raw) {raw' : List UInt8}
    (hread : bytesOf p io levels bp = .ok raw') : raw' = raw ∧ p.Found io levels bp := by
  induction levels generalizing bp raw raw' with
  | zero =>
    rw [plain_of_isBlock h] at hread
    exact ⟨(Except.ok.inj hread).symm, h.1⟩
  | succ levels ih =>
    cases h with
    | inl hblock =>
      rw [plain_of_isBlock hblock] at hread
      exact ⟨(Except.ok.inj hread).symm, .inl hblock.1⟩
    | inr hgang =>
      obtain ⟨header, children, pieces, hheaded, hparse, hpieces, hraw, haccepts⟩ := hgang
      obtain ⟨⟨d, i⟩, -, hd, v, hcopy⟩ := copy_of_bytesOf hread
      obtain ⟨⟨header', children', pieces', hpick, hparse', hpieces', hraw'⟩, -⟩ :=
        (readCopy_gang_succ (hheaded.gangs d hd) i).mp ⟨v, hcopy⟩
      obtain rfl := hheaded.eq_of_sees hd (sees_of_pick hpick)
      rw [hparse] at hparse'
      cases hparse'
      have hsame : pieces' = pieces := forall₂_unique hpieces hpieces'
        (fun _ _ _ _ hpiece hbytes => (ih hpiece hbytes).1)
      refine ⟨by rw [hraw', hraw, hsame], .inr ⟨d, hd, hheaded.gangs d hd, header', children,
        sees_of_pick hpick, hparse, fun child hchild => ?_⟩⟩
      obtain ⟨k, hk⟩ := List.mem_iff_getElem?.mp hchild
      obtain ⟨hlt, hget⟩ := List.getElem?_eq_some_iff.mp hk
      have htree := hpieces.get hlt (hpieces.length_eq ▸ hlt)
      have hbytes := hpieces'.get hlt (hpieces'.length_eq ▸ hlt)
      rw [List.get_eq_getElem, hget] at htree hbytes
      exact (ih htree hbytes).2

/-- Nothing is handed out but whole copies: all the children of every header. -/
theorem delivers_of_read (h : bytesOf p io levels bp = .ok raw) : p.Delivers io levels bp raw := by
  induction levels generalizing bp raw with
  | zero =>
    obtain ⟨d, hd, hthere, v, hcopy⟩ := copy_of_bytesOf h
    cases hgang : d.1.gang with
    | true => exact absurd hcopy (readCopy_gang_zero hgang d.2)
    | false =>
      rw [readCopy_plain hgang] at hcopy
      exact ⟨d, hd, hthere, hgang, v, hcopy⟩
  | succ levels ih =>
    obtain ⟨d, hd, hthere, v, hcopy⟩ := copy_of_bytesOf h
    cases hgang : d.1.gang with
    | false =>
      rw [readCopy_plain hgang] at hcopy
      exact .inl ⟨d, hd, hthere, hgang, v, hcopy⟩
    | true =>
      obtain ⟨⟨header, children, pieces, hpick, hparse, hpieces, hraw⟩, haccepts⟩ :=
        (readCopy_gang_succ hgang d.2).mp ⟨v, hcopy⟩
      exact .inr ⟨d.1, hthere, hgang, header, children, pieces, sees_of_pick hpick, hparse,
        forall₂_congr hpieces (fun _ _ _ hbytes => ih hbytes), hraw, haccepts⟩

/-- Below the last header that is followed, nothing is. -/
theorem not_delivers_of_deeper (h : p.Deeper io levels bp) : ¬ p.Delivers io levels bp raw := by
  induction levels generalizing bp raw with
  | zero =>
    rintro ⟨d, -, hd, hgang, -⟩
    exact absurd (h d.1 hd) (by simp [hgang])
  | succ levels ih =>
    rintro (⟨d, -, hd, hgang, -⟩ |
      ⟨d, hd, -, header, children, pieces, hsees, hparse, hpieces, -⟩)
    · exact absurd (h.1 d.1 hd) (by simp [hgang])
    · obtain ⟨child, hchild, hdeeper⟩ := h.2 d hd header children hsees hparse
      obtain ⟨k, hk⟩ := List.mem_iff_getElem?.mp hchild
      obtain ⟨hlt, hget⟩ := List.getElem?_eq_some_iff.mp hk
      have hpiece := hpieces.get hlt (hpieces.length_eq ▸ hlt)
      rw [List.get_eq_getElem, hget] at hpiece
      exact ih hdeeper hpiece

/-- Headers that name their own pointer are nested deeper than anything. -/
theorem deeper_of_self (hgangs : GangOnly bp) (hself : ∀ d ∈ bp.dvas, ∀ header children,
    p.Sees io bp d header → parseGangHeader header bp.endian = .ok children →
      bp ∈ filled children) (levels : Nat) : p.Deeper io levels bp := by
  induction levels with
  | zero => exact hgangs
  | succ levels ih =>
    exact ⟨hgangs, fun d hd header children hsees hparse =>
      ⟨bp, hself d hd header children hsees hparse, ih⟩⟩

end Trees

/-! ## The size of a header -/

section Sizes

variable {p : Pool} {alloc : Nat → Nat} {bp : BlkPtr}

/-- With every vdev known, a header is taken to have its dynamic size. -/
theorem gangHeaderSize_eq (hdynamic : p.dynamicGang = true)
    (hknown : ∀ d ∈ bp.dvas, p.minAlloc d.vdev = alloc d.vdev) :
    p.gangHeaderSize bp = dynamicSize alloc bp := by
  rw [gangHeaderSize, dynamicSize, hdynamic, List.map_congr_left hknown]
  rfl

/-- With one that the pool does not have, it is taken to have 512 bytes. -/
theorem gangHeaderSize_unknown {d : Dva} (hd : d ∈ bp.dvas) (htop : p.tops.lookup d.vdev = none)
    (hashift : p.topAshift.lookup d.vdev = none) :
    p.gangHeaderSize bp = Ondisk.gangHeaderSize := by
  have halloc : p.minAlloc d.vdev = Ondisk.gangHeaderSize := by
    rw [minAlloc, htop, hashift]
    rfl
  have hmem : Ondisk.gangHeaderSize ∈ bp.dvas.map (fun d => p.minAlloc d.vdev) :=
    List.mem_map.mpr ⟨d, hd, halloc⟩
  rw [gangHeaderSize]
  split
  · rfl
  · cases hmin : (bp.dvas.map (fun d => p.minAlloc d.vdev)).min? with
    | none => rfl
    | some least =>
      rw [Option.getD_some]
      exact max_eq_right ((List.min?_eq_some_iff.mp hmin).2 _ hmem)

end Sizes

end Pool

/-! ## Reading through the devices -/

/-- Reading a gang tree of at most nine headers from top to bottom, over any devices that keep
their contents, gives its bytes just where each of its headers is seen at the size the reader
takes it to have; whatever is behind a pointer, nothing is handed out but all the children of
every header, and below the ninth header nothing at all. -/
theorem readGang_tree_iff {ω : Type} (r : Reader ω) (D : Contents) (hr : Steady r D)
    (s : ReaderState ω) (hs : Quiet D s) (bp : BlkPtr) :
    (∀ alloc raw, r.pool.IsTree (D.io r) alloc Pool.maxDepth bp raw →
      ((r.pool.readRawVerified r.io (r.pool.readGang r.io Pool.maxDepth) bp s).1.2 = .ok raw ↔
        r.pool.Found (D.io r) Pool.maxDepth bp)) ∧
    (∀ raw, (r.pool.readRawVerified r.io (r.pool.readGang r.io Pool.maxDepth) bp s).1.2 = .ok raw →
      r.pool.Delivers (D.io r) Pool.maxDepth bp raw) ∧
    (r.pool.Deeper (D.io r) Pool.maxDepth bp →
      ∃ e, (r.pool.readRawVerified r.io (r.pool.readGang r.io Pool.maxDepth) bp s).1.2 =
        .error e) := by
  have hpure : (r.pool.readRawVerified r.io (r.pool.readGang r.io Pool.maxDepth) bp s).1.2 =
      r.pool.bytesOf (D.io r) Pool.maxDepth bp :=
    congrArg Prod.snd ((r.pool.readRawVerified_refines hr.io_refines bp).run hs)
  rw [hpure]
  refine ⟨fun alloc raw htree => ?_, fun raw hread => Pool.delivers_of_read hread, fun hdeeper => ?_⟩
  · constructor
    · intro hread
      exact (Pool.found_of_bytesOf htree hread).2
    · exact Pool.bytesOf_of_found htree
  · cases hread : r.pool.bytesOf (D.io r) Pool.maxDepth bp with
    | error e => exact ⟨e, rfl⟩
    | ok raw => exact absurd (Pool.delivers_of_read hread) (Pool.not_delivers_of_deeper hdeeper)

/-! ## A copy on a vdev that is missing -/

/-- A gang header of 1024 bytes in the middle of zeros: one child, and the checksum tail. -/
def gangByte (k : Nat) : UInt8 :=
  if k < labelStartSize + 4096 then 0
  else
    match k - (labelStartSize + 4096) with
    | 0 => 1
    | 8 => 16
    | 52 => 2
    | 53 => 2
    | 54 => 23
    | 55 => 128
    | 80 => 7
    | 984 => 0x11
    | 985 => 0x7a
    | 986 => 0x0c
    | 987 => 0xb1
    | 988 => 0x7a
    | 989 => 0xda
    | 990 => 0x10
    | 991 => 0x02
    | _ => 0

def gangBytes (offset size : Nat) : List UInt8 :=
  (List.range size).map (fun i => gangByte (offset + i))

def gangContents : Contents := fun _ offset size => .ok (gangBytes offset size)

def gangDevice : BlockSource Unit where
  readAt := fun offset size w => (.ok (gangBytes offset size), w)
  length_of_readAt := by
    intro offset size w bytes h
    cases h
    rw [gangBytes, List.length_map, List.length_range]

/-- The pool had two vdevs of 1024-byte sectors; the second one is missing. -/
def gangReader : Reader Unit :=
  { devices := [some gangDevice]
    bases := [0]
    pool :=
      { tops := [(0, .leaf (some 0) 1)]
        topAshift := [(0, 10)]
        dynamicGang := true
        salt := none
        keys := none
        removed := []
        hashes := noHashes
        codecs := noCodecs } }

/-- A gang pointer with a copy of its header on each vdev. -/
def gangPointer : BlkPtr :=
  { dva0 := { vdev := 0, offset := 4096, asize := 1024, gang := true }
    dva1 := { vdev := 1, offset := 4096, asize := 1024, gang := true }
    dva2 := Dva.empty
    lsize := 512
    psize := 512
    compression := .off
    checksum := .off
    objectType := 23
    level := 0
    endian := .little
    encrypted := false
    embedded := false
    physicalBirth := 0
    birth := 7
    cksum := { w0 := 0, w1 := 0, w2 := 0, w3 := 0 }
    raw := [] }

theorem gangReader_steady : Steady gangReader gangContents where
  answer := by
    intro index dev hdev offset size w
    match index, hdev with
    | 0, hdev => cases hdev; rfl
    | _ + 1, hdev => cases hdev
  goesOn := by
    intro index offset size e h
    cases h

/-- The whole header. -/
def gangHeader : List UInt8 := gangBytes (labelStartSize + 4096) 1024

theorem gangHeader_candidates (size : Nat) :
    gangReader.pool.headerCandidates (gangContents.io gangReader) gangPointer.dva0 size =
      [(some 0, .ok (gangBytes (labelStartSize + 4096) size))] := rfl

theorem missing_candidates (size : Nat) :
    gangReader.pool.headerCandidates (gangContents.io gangReader) gangPointer.dva1 size =
      [(none, .error (.unknownVdev 1))] := rfl

theorem gangPointer_dvas {d : Dva} (hd : d ∈ gangPointer.dvas) :
    d = gangPointer.dva0 ∨ d = gangPointer.dva1 := by
  have hdvas : gangPointer.dvas = [gangPointer.dva0, gangPointer.dva1] := by decide
  rw [hdvas] at hd
  simpa using hd

/-- Only the whole header verifies. -/
theorem gangStatus :
    gangReader.pool.gangHeaderStatus gangPointer gangHeader = .ok ∧
      ∀ raw ∈ [gangBytes (labelStartSize + 4096) 512,
          (gangBytes (labelStartSize + 4096) 512).take Ondisk.gangHeaderSize,
          (gangBytes (labelStartSize + 4096) 1024).take Ondisk.gangHeaderSize],
        gangReader.pool.gangHeaderStatus gangPointer raw ≠ .ok := by
  decide +kernel

theorem gangHeader_headed :
    gangReader.pool.Headed (gangContents.io gangReader) (fun _ => 1024) gangPointer gangHeader where
  gangs := by
    intro d hd
    cases gangPointer_dvas hd with
    | inl heq => rw [heq]; rfl
    | inr heq => rw [heq]; rfl
  here := by
    refine ⟨gangPointer.dva0, by decide, 1024, .inr (by decide), some 0, gangHeader, ?_, .inl rfl,
      gangStatus.1⟩
    rw [gangHeader_candidates]
    exact List.mem_cons_self
  only := by
    intro d hd size hsize other hon
    obtain ⟨device, buf, hmem, hfrom, hok⟩ := hon
    cases gangPointer_dvas hd with
    | inr heq =>
      rw [heq, missing_candidates] at hmem
      cases List.mem_singleton.mp hmem
    | inl heq =>
      rw [heq, gangHeader_candidates] at hmem
      cases List.mem_singleton.mp hmem
      have hwhich : size = 512 ∨ size = 1024 := by
        rcases hsize with h | h | h
        · exact .inl h
        · exact .inr h
        · exact .inl (h.trans (by decide))
      rcases hwhich with rfl | rfl
      · cases hfrom with
        | inl h =>
          rw [h] at hok
          exact absurd hok (gangStatus.2 _ (by simp))
        | inr h =>
          rw [h] at hok
          exact absurd hok (gangStatus.2 _ (by simp))
      · cases hfrom with
        | inl h => exact h
        | inr h =>
          rw [h] at hok
          exact absurd hok (gangStatus.2 _ (by simp))

def gangChildren : List BlkPtr := (parseGangHeader gangHeader .little).toOption.getD []

def gangChild : BlkPtr := gangChildren.headD gangPointer

/-- The header holds one pointer, and its block reads. -/
theorem gangChild_reads :
    (parseGangHeader gangHeader .little).toOption.isSome = true ∧
      Pool.filled gangChildren = [gangChild] ∧ (∀ d ∈ gangChild.dvas, d.gang = false) ∧
      (gangReader.pool.readRawVerified (gangContents.io gangReader) Pool.noGang
        gangChild).run.2.toOption = some (List.replicate 512 0) := by
  decide +kernel

theorem gangHeader_parse : parseGangHeader gangHeader .little = .ok gangChildren := by
  have hok := gangChild_reads.1
  rw [gangChildren]
  cases hparse : parseGangHeader gangHeader .little with
  | error e =>
    rw [hparse] at hok
    cases hok
  | ok children => rfl

theorem gangChild_isBlock :
    gangReader.pool.IsBlock (gangContents.io gangReader) gangChild (List.replicate 512 0) := by
  obtain ⟨-, -, hgang, hbytes⟩ := gangChild_reads
  refine ⟨hgang, ?_⟩
  generalize (gangReader.pool.readRawVerified (gangContents.io gangReader) Pool.noGang
    gangChild).run.2 = result at hbytes
  cases result with
  | error e => cases hbytes
  | ok raw =>
    cases hbytes
    rfl

theorem gangPointer_isTree :
    gangReader.pool.IsTree (gangContents.io gangReader) (fun _ => 1024) Pool.maxDepth gangPointer
      (List.replicate 512 0) := by
  refine .inr ⟨gangHeader, gangChildren, [List.replicate 512 0], gangHeader_headed,
    gangHeader_parse, ?_, ?_, .inr (by decide)⟩
  · rw [gangChild_reads.2.1]
    exact .cons (.inl gangChild_isBlock) .nil
  · rw [List.flatten_singleton]
    exact (List.take_of_length_le (by rw [List.length_replicate]; exact Nat.le_refl _)).symm

/-- The header that is there reads as one of 512 bytes, and so not at all. -/
theorem readGang_missing_vdev :
    ¬ ∀ (ω : Type) (r : Reader ω) (D : Contents), Steady r D → ∀ s, Quiet D s →
      ∀ (bp : BlkPtr) alloc raw, r.pool.IsTree (D.io r) alloc Pool.maxDepth bp raw →
        (r.pool.readRawVerified r.io (r.pool.readGang r.io Pool.maxDepth) bp s).1.2 = .ok raw := by
  intro h
  have hread := h Unit gangReader gangContents gangReader_steady startState (startState_quiet _)
    gangPointer _ _ gangPointer_isTree
  have hnone : (gangReader.pool.readRawVerified gangReader.io
      (gangReader.pool.readGang gangReader.io Pool.maxDepth) gangPointer
      startState).1.2.toOption = none := by decide +kernel
  rw [hread] at hnone
  cases hnone

theorem readGang_tree_iff_missing :
    ((gangReader.pool.readRawVerified gangReader.io
        (gangReader.pool.readGang gangReader.io Pool.maxDepth) gangPointer startState).1.2 =
          .ok (List.replicate 512 0) ↔
      gangReader.pool.Found (gangContents.io gangReader) Pool.maxDepth gangPointer) :=
  (readGang_tree_iff gangReader gangContents gangReader_steady startState (startState_quiet _)
    gangPointer).1 _ _ gangPointer_isTree

end Zio
end ZvolRescue
