import ZvolRescue.Lib.Spans
import ZvolRescue.Lib.Text
import ZvolRescue.Lib.Word
import ZvolRescue.Ondisk.Error
import ZvolRescue.Source.Sectors

/-!
# The map of an imager

`parse` reads a mapfile into the merged ranges of what the imager did not finish, and `touches` asks
whether a range has a byte of them.  Each sum on the way wraps, so that the map is the set that the
text names as long as no block reaches the end of the addresses (`parse_faithful_iff`).
-/

namespace ZvolRescue
namespace Source
namespace Ddrescue

open Lib
open Ondisk (hex)

/-- The map, reduced to what a reader needs. -/
structure Map where
  /-- Ranges the imager did not finish, merged and in order. -/
  unreadable : List (Nat × Nat)
  /-- Bytes of each status, in the order of the statuses. -/
  byStatus : List (Char × Nat)
  /-- One past the last byte the map describes. -/
  extent : Nat
deriving DecidableEq

/-- A line of the map. -/
structure Block where
  pos : Nat
  size : Nat
  status : Char
deriving DecidableEq

/-! ## Lines -/

/-- What is on a line before a comment. -/
def content (raw : List Char) : List Char := trim (raw.takeWhile (· ≠ '#'))

def hexNumber : List Char → Option Nat
  | '0' :: 'x' :: digits => fromHex digits
  | '0' :: 'X' :: digits => fromHex digits
  | _ => none

def quoted (text : List Char) : String := (String.ofList text).quote

/-- The block of line `n`, from its fields. -/
def readBlock (n : Nat) (raw : List Char) (fields : List (List Char)) : Except String Block :=
  match fields with
  | [posText, sizeText, statusText] =>
    match hexNumber posText with
    | none => .error s!"line {n}: bad position {quoted posText}"
    | some pos =>
      match hexNumber sizeText with
      | none => .error s!"line {n}: bad size {quoted sizeText}"
      | some size =>
        match statusText with
        | [] => .error s!"line {n}: no status"
        | status :: _ =>
          if status ∈ ['+', '?', '*', '/', '-'] then
            .ok { pos := pos, size := size, status := status }
          else .error s!"line {n}: unknown status {status.quote}"
  | _ => .error s!"line {n}: want `pos size status`: {quoted raw}"

/-! ## Reading the map -/

/-- Where the reader is, with the unfinished ranges so far, the last one first. -/
structure Progress where
  seenStatusLine : Bool
  lastEnd : Nat
  unreadable : List (Nat × Nat)
  byStatus : List (Char × Nat)
  extent : Nat
deriving DecidableEq

def Progress.start : Progress :=
  { seenStatusLine := false, lastEnd := 0, unreadable := [], byStatus := [], extent := 0 }

section Sums

-- how the reader adds
variable (add : Nat → Nat → Nat)

/-- More bytes of a status. -/
def count (status : Char) (size : Nat) : List (Char × Nat) → List (Char × Nat)
  | [] => [(status, add 0 size)]
  | (c, bytes) :: rest =>
    if status = c then (c, add bytes size) :: rest
    else if status < c then (status, add 0 size) :: (c, bytes) :: rest
    else (c, bytes) :: count status size rest

/-- One more unfinished range after the others, the last one first. -/
def extend (pos size : Nat) : List (Nat × Nat) → List (Nat × Nat)
  | [] => [(pos, size)]
  | (s, l) :: rest =>
    if add s l = pos then (s, add l size) :: rest else (pos, size) :: (s, l) :: rest

def Progress.after (p : Progress) (b : Block) : Progress :=
  { p with
    lastEnd := add b.pos b.size
    unreadable :=
      if b.status ≠ '+' ∧ 0 < b.size then extend add b.pos b.size p.unreadable else p.unreadable
    byStatus := count add b.status b.size p.byStatus
    extent := add b.pos b.size }

/-- Line `n` of the text. -/
def readLine (n : Nat) (raw : List Char) (p : Progress) : Except String Progress :=
  let line := content raw
  if line = [] then .ok p
  else
    let fields := splitWhitespace line
    if p.seenStatusLine = false then
      if fields.length < 2 ∨ 3 < fields.length then
        .error s!"line {n}: not a status line: {quoted raw}"
      else .ok { p with seenStatusLine := true }
    else
      match readBlock n raw fields with
      | .error e => .error e
      | .ok b =>
        if b.pos < p.lastEnd then .error s!"line {n}: blocks out of order at {hex b.pos}"
        else .ok (p.after add b)

def readLines : (n : Nat) → List (List Char) → Progress → Except String Progress
  | _, [], p => .ok p
  | n, raw :: rest, p =>
    match readLine add n raw p with
    | .error e => .error e
    | .ok p => readLines (n + 1) rest p

/-- The map of a text, with sums as `add` has them. -/
def parseWith (text : List Char) : Except String Map :=
  match readLines add 1 (lines text) Progress.start with
  | .error e => .error e
  | .ok p =>
    if p.seenStatusLine then
      .ok { unreadable := p.unreadable.reverse, byStatus := p.byStatus, extent := p.extent }
    else .error "empty mapfile"

end Sums

/-- The map of a text. -/
def parse (text : List Char) : Except String Map := parseWith add64 text

/-- Whether any byte of the range is unfinished. -/
def Map.touches (map : Map) (offset len : Nat) : Bool :=
  let stop := satAdd64 offset len
  map.unreadable.any (fun (s, l) => s < stop && offset < add64 s l)

/-! ## The blocks of a text -/

/-- What a line says that is read as a block. -/
def blockOf (line : List Char) : Option Block := (readBlock 0 [] (splitWhitespace line)).toOption

/-- The lines that are read as blocks, which the status line comes before. -/
def blockLines (seenStatusLine : Bool) (raws : List (List Char)) : List (List Char) :=
  let filled := (raws.map content).filter (fun line => !line.isEmpty)
  if seenStatusLine then filled else filled.tail

def blocksFrom (seenStatusLine : Bool) (raws : List (List Char)) : List Block :=
  (blockLines seenStatusLine raws).filterMap blockOf

/-- The blocks that the text lists. -/
def blocks (text : List Char) : List Block := blocksFrom false (lines text)

/-- The imager did not finish byte `i`, by these blocks. -/
def Unread (listed : List Block) (i : Nat) : Prop :=
  ∃ b ∈ listed, b.status ≠ '+' ∧ b.pos ≤ i ∧ i < b.pos + b.size

section Steps

variable {add : Nat → Nat → Nat} {n : Nat} {raw : List Char} {rest : List (List Char)}
  {p q : Progress}

theorem readBlock_ok {fields : List (List Char)} {b : Block} (h : readBlock n raw fields = .ok b)
    (n' : Nat) (raw' : List Char) : readBlock n' raw' fields = .ok b := by
  unfold readBlock at h ⊢
  split at h
  · split at h
    · cases h
    · split at h
      · cases h
      · split at h
        · cases h
        · split at h
          · simp_all
          · cases h
  · cases h

theorem blocksFrom_blank (seen : Bool) (h : content raw = []) :
    blocksFrom seen (raw :: rest) = blocksFrom seen rest := by
  simp [blocksFrom, blockLines, h]

theorem blocksFrom_status (h : content raw ≠ []) :
    blocksFrom false (raw :: rest) = blocksFrom true rest := by
  simp [blocksFrom, blockLines, h]

theorem blocksFrom_block (h : content raw ≠ []) {b : Block} (hb : blockOf (content raw) = some b) :
    blocksFrom true (raw :: rest) = b :: blocksFrom true rest := by
  simp [blocksFrom, blockLines, h, hb]

/-- What a line does: nothing, the status line, or a block behind the others. -/
theorem readLine_cases (h : readLine add n raw p = .ok q) :
    (content raw = [] ∧ q = p) ∨
    (content raw ≠ [] ∧ p.seenStatusLine = false ∧ q = { p with seenStatusLine := true }) ∨
    (content raw ≠ [] ∧ p.seenStatusLine = true ∧ ∃ b, blockOf (content raw) = some b ∧
      readBlock n raw (splitWhitespace (content raw)) = .ok b ∧ p.lastEnd ≤ b.pos ∧
      q = p.after add b) := by
  rw [readLine] at h
  by_cases hblank : content raw = []
  · rw [if_pos hblank] at h
    exact .inl ⟨hblank, (Except.ok.inj h).symm⟩
  · rw [if_neg hblank] at h
    by_cases hseen : p.seenStatusLine = false
    · rw [if_pos hseen] at h
      split at h
      · cases h
      · exact .inr (.inl ⟨hblank, hseen, (Except.ok.inj h).symm⟩)
    · rw [if_neg hseen] at h
      cases hb : readBlock n raw (splitWhitespace (content raw)) with
      | error e =>
        rw [hb] at h
        cases h
      | ok b =>
        rw [hb] at h
        simp only at h
        have hof : blockOf (content raw) = some b := by
          rw [blockOf, readBlock_ok hb]
          rfl
        split at h
        · cases h
        · next horder =>
          exact .inr (.inr ⟨hblank, by simpa using hseen, b, hof, rfl, by omega,
            (Except.ok.inj h).symm⟩)

/-- A line is read the same way with other sums that add its block the same way. -/
theorem readLine_congr {add' : Nat → Nat → Nat} (h : readLine add n raw p = .ok q)
    (hafter : ∀ b, b ∈ blocksFrom p.seenStatusLine [raw] → p.lastEnd ≤ b.pos →
      p.after add b = p.after add' b) : readLine add' n raw p = .ok q := by
  have hcases := readLine_cases h
  rw [readLine] at h ⊢
  by_cases hblank : content raw = []
  · rwa [if_pos hblank] at h ⊢
  · rw [if_neg hblank] at h ⊢
    by_cases hseen : p.seenStatusLine = false
    · rwa [if_pos hseen] at h ⊢
    · rw [if_neg hseen]
      obtain ⟨hnil, _⟩ | ⟨_, hfirst, _⟩ | ⟨_, htrue, b, hof, hread, horder, rfl⟩ := hcases
      · exact absurd hnil hblank
      · exact absurd hfirst hseen
      · have hmem : b ∈ blocksFrom p.seenStatusLine [raw] := by
          rw [htrue, blocksFrom_block hblank hof]
          exact List.mem_cons_self
        rw [hread]
        simp only
        rw [if_neg (by omega), hafter b hmem horder]

/-- What the status line and each block keep, all the lines keep. -/
theorem readLines_keeps (Inv : Progress → List Block → Prop)
    (hstatus : ∀ p bs, Inv p bs → Inv { p with seenStatusLine := true } bs)
    (hblock : ∀ p bs b, p.lastEnd ≤ b.pos → Inv p bs → Inv (p.after add b) (bs ++ [b])) :
    ∀ raws n p q bs, readLines add n raws p = .ok q → Inv p bs →
      Inv q (bs ++ blocksFrom p.seenStatusLine raws) := by
  intro raws
  induction raws with
  | nil =>
    intro n p q bs h hp
    rw [readLines] at h
    cases h
    simpa [blocksFrom, blockLines] using hp
  | cons raw raws ih =>
    intro n p q bs h hp
    rw [readLines] at h
    cases hline : readLine add n raw p with
    | error e =>
      rw [hline] at h
      cases h
    | ok r =>
      rw [hline] at h
      obtain ⟨hnil, rfl⟩ | ⟨hfull, hseen, rfl⟩ | ⟨hfull, hseen, b, hof, _, horder, rfl⟩ :=
        readLine_cases hline
      · rw [blocksFrom_blank _ hnil]
        exact ih _ _ _ _ h hp
      · rw [hseen, blocksFrom_status hfull]
        exact ih _ _ _ _ h (hstatus p bs hp)
      · rw [hseen, blocksFrom_block hfull hof, List.append_cons]
        have hnext := ih _ _ _ _ h (hblock p bs b horder hp)
        rwa [show (p.after add b).seenStatusLine = true from hseen] at hnext

end Steps

/-! ## With exact sums -/

/-- The reader has the set of the blocks it has read, and the end of the last one. -/
structure Upto (p : Progress) (bs : List Block) : Prop where
  spans : Spans (Unread bs) p.unreadable.reverse
  ends : ∀ b ∈ bs, b.pos + b.size ≤ p.lastEnd
  extent : p.extent = p.lastEnd

theorem extend_exact (pos size : Nat) (bad : List (Nat × Nat)) :
    extend (· + ·) pos size bad = note pos size bad := by
  cases bad with
  | nil => rfl
  | cons p bad => rfl

theorem unread_append (bs : List Block) (b : Block) (i : Nat) :
    Unread (bs ++ [b]) i ↔
      Unread bs i ∨ b.status ≠ '+' ∧ b.pos ≤ i ∧ i < b.pos + b.size := by
  simp [Unread, or_and_right, exists_or]

theorem Upto.after {p : Progress} {bs : List Block} {b : Block} (horder : p.lastEnd ≤ b.pos)
    (h : Upto p bs) : Upto (p.after (· + ·) b) (bs ++ [b]) where
  spans := by
    have hbelow : ∀ i, Unread bs i → i < b.pos := by
      rintro i ⟨c, hc, _, _, hlt⟩
      have hend := h.ends c hc
      omega
    by_cases hunread : b.status ≠ '+' ∧ 0 < b.size
    · rw [Progress.after, if_pos hunread, extend_exact]
      apply (note_spans h.spans hbelow hunread.2).congr
      intro i
      rw [unread_append]
      simp [hunread.1]
    · rw [Progress.after, if_neg hunread]
      apply h.spans.congr
      intro i
      rw [unread_append]
      constructor
      · exact .inl
      · rintro (hi | ⟨hstatus, hle, hlt⟩)
        · exact hi
        · exact absurd ⟨hstatus, by omega⟩ hunread
  ends := by
    intro c hc
    rw [List.mem_append, List.mem_singleton] at hc
    show c.pos + c.size ≤ b.pos + b.size
    rcases hc with hc | rfl
    · have hend := h.ends c hc
      omega
    · exact Nat.le_refl _
  extent := rfl

theorem upto_start : Upto Progress.start [] where
  spans := Spans.nil (by simp [Unread])
  ends := by simp
  extent := rfl

theorem parseWith_ok {add : Nat → Nat → Nat} {text : List Char} {map : Map}
    (h : parseWith add text = .ok map) : ∃ q, readLines add 1 (lines text) Progress.start = .ok q ∧
      q.seenStatusLine = true ∧
      map = { unreadable := q.unreadable.reverse, byStatus := q.byStatus, extent := q.extent } := by
  rw [parseWith] at h
  cases hread : readLines add 1 (lines text) Progress.start with
  | error e =>
    rw [hread] at h
    cases h
  | ok q =>
    rw [hread] at h
    by_cases hseen : q.seenStatusLine = true
    · simp only [hseen, if_pos] at h
      exact ⟨q, rfl, hseen, (Except.ok.inj h).symm⟩
    · simp [hseen] at h

/-- With exact sums the map is the set that the blocks name, and no block goes past it. -/
theorem parse_exact {text : List Char} {map : Map} (h : parseWith (· + ·) text = .ok map) :
    Spans (Unread (blocks text)) map.unreadable ∧
      ∀ b ∈ blocks text, b.pos + b.size ≤ map.extent := by
  obtain ⟨q, hread, _, rfl⟩ := parseWith_ok h
  have hupto := readLines_keeps Upto (fun p bs hp => ⟨hp.spans, hp.ends, hp.extent⟩)
    (fun p bs b horder hp => hp.after horder) _ _ _ _ [] hread upto_start
  rw [List.nil_append] at hupto
  refine ⟨hupto.spans, ?_⟩
  intro b hb
  rw [hupto.extent]
  exact hupto.ends b hb

/-! ## With sums that wrap -/

/-- Every number of the reader is a part of what it has gone past. -/
structure Small (p : Progress) : Prop where
  ranges : ∀ r ∈ p.unreadable, r.1 + r.2 ≤ p.lastEnd
  counts : ∀ c ∈ p.byStatus, c.2 ≤ p.lastEnd

theorem count_congr {status : Char} {size limit : Nat} {byStatus : List (Char × Nat)}
    (hlimit : limit + size < word) (h : ∀ c ∈ byStatus, c.2 ≤ limit) :
    count add64 status size byStatus = count (· + ·) status size byStatus := by
  induction byStatus with
  | nil => rw [count, count, add64_of_lt (by omega)]
  | cons c rest ih =>
    have hc := h c List.mem_cons_self
    rw [count, count, ih (fun d hd => h d (List.mem_cons_of_mem _ hd)), add64_of_lt (by omega),
      add64_of_lt (by omega)]

theorem count_le {status : Char} {size limit : Nat} {byStatus : List (Char × Nat)}
    (h : ∀ c ∈ byStatus, c.2 ≤ limit) :
    ∀ c ∈ count (· + ·) status size byStatus, c.2 ≤ limit + size := by
  induction byStatus with
  | nil =>
    intro c hc
    rw [count, List.mem_singleton] at hc
    subst hc
    show 0 + size ≤ limit + size
    omega
  | cons d rest ih =>
    have hd := h d List.mem_cons_self
    have hrest : ∀ c ∈ rest, c.2 ≤ limit := fun c hc => h c (List.mem_cons_of_mem _ hc)
    intro c hc
    rw [count] at hc
    split at hc
    · rcases List.mem_cons.mp hc with rfl | hc
      · exact Nat.add_le_add_right hd size
      · have := hrest c hc
        omega
    · split at hc
      · rcases List.mem_cons.mp hc with rfl | hc
        · show 0 + size ≤ limit + size
          omega
        · have := h c hc
          omega
      · rcases List.mem_cons.mp hc with rfl | hc
        · omega
        · exact ih hrest c hc

theorem extend_congr {pos size : Nat} {bad : List (Nat × Nat)} (hfits : pos + size < word)
    (h : ∀ r ∈ bad, r.1 + r.2 ≤ pos) :
    extend add64 pos size bad = extend (· + ·) pos size bad := by
  cases bad with
  | nil => rfl
  | cons r bad =>
    obtain ⟨s, l⟩ := r
    have hend : s + l ≤ pos := h (s, l) List.mem_cons_self
    rw [extend, extend, add64_of_lt (by omega), add64_of_lt (by omega)]

theorem extend_le {pos size : Nat} {bad : List (Nat × Nat)} (h : ∀ r ∈ bad, r.1 + r.2 ≤ pos) :
    ∀ r ∈ extend (· + ·) pos size bad, r.1 + r.2 ≤ pos + size := by
  intro r hr
  cases bad with
  | nil =>
    rw [extend, List.mem_singleton] at hr
    subst hr
    exact Nat.le_refl _
  | cons q bad =>
    obtain ⟨s, l⟩ := q
    have hq : s + l ≤ pos := h (s, l) List.mem_cons_self
    rw [extend] at hr
    split at hr
    · rcases List.mem_cons.mp hr with rfl | hr
      · show s + (l + size) ≤ pos + size
        omega
      · have := h r (List.mem_cons_of_mem _ hr)
        omega
    · rcases List.mem_cons.mp hr with rfl | hr
      · exact Nat.le_refl _
      · have := h r hr
        omega

/-- A block that does not reach the end of the addresses is added without wrapping. -/
theorem Small.after_congr {p : Progress} {b : Block} (h : Small p) (horder : p.lastEnd ≤ b.pos)
    (hfits : b.pos + b.size < word) : p.after add64 b = p.after (· + ·) b := by
  have hranges : ∀ r ∈ p.unreadable, r.1 + r.2 ≤ b.pos := fun r hr =>
    (h.ranges r hr).trans horder
  have hcounts : ∀ c ∈ p.byStatus, c.2 ≤ b.pos := fun c hc => (h.counts c hc).trans horder
  rw [Progress.after, Progress.after, extend_congr hfits hranges, count_congr hfits hcounts,
    add64_of_lt hfits]

theorem Small.after {p : Progress} {b : Block} (h : Small p) (horder : p.lastEnd ≤ b.pos) :
    Small (p.after (· + ·) b) where
  ranges := by
    intro r hr
    have hranges : ∀ r ∈ p.unreadable, r.1 + r.2 ≤ b.pos := fun r hr =>
      (h.ranges r hr).trans horder
    show r.1 + r.2 ≤ b.pos + b.size
    rw [Progress.after] at hr
    simp only at hr
    split at hr
    · exact extend_le hranges r hr
    · have := hranges r hr
      omega
  counts := count_le (fun c hc => (h.counts c hc).trans horder)

theorem small_start : Small Progress.start where
  ranges := by simp [Progress.start]
  counts := by simp [Progress.start]

/-- Where every block fits, the lines are read as with exact sums. -/
theorem readLines_exact : ∀ raws n p q, readLines add64 n raws p = .ok q → Small p →
    (∀ b ∈ blocksFrom p.seenStatusLine raws, b.pos + b.size < word) →
      readLines (· + ·) n raws p = .ok q := by
  intro raws
  induction raws with
  | nil =>
    intro n p q h _ _
    exact h
  | cons raw raws ih =>
    intro n p q h hsmall hfits
    rw [readLines] at h ⊢
    cases hline : readLine add64 n raw p with
    | error e =>
      rw [hline] at h
      cases h
    | ok r =>
      rw [hline] at h
      obtain ⟨hnil, rfl⟩ | ⟨hfull, hseen, rfl⟩ | ⟨hfull, hseen, b, hof, _, horder, rfl⟩ :=
        readLine_cases hline
      · rw [blocksFrom_blank _ hnil] at hfits
        have hexact : readLine (· + ·) n raw r = .ok r :=
          readLine_congr hline (by simp [blocksFrom, blockLines, hnil])
        rw [hexact]
        exact ih _ _ _ h hsmall hfits
      · rw [hseen, blocksFrom_status hfull] at hfits
        have hexact : readLine (· + ·) n raw p = .ok _ := readLine_congr hline
          (by simp [hseen, blocksFrom, blockLines, hfull])
        rw [hexact]
        exact ih _ _ _ h ⟨hsmall.ranges, hsmall.counts⟩ hfits
      · rw [hseen, blocksFrom_block hfull hof] at hfits
        have hafter := hsmall.after_congr horder (hfits b List.mem_cons_self)
        have hexact : readLine (· + ·) n raw p = .ok (p.after add64 b) := readLine_congr hline (by
          intro c hc _
          rw [hseen, blocksFrom_block hfull hof, List.mem_cons] at hc
          rcases hc with rfl | hc
          · exact hafter
          · simp [blocksFrom, blockLines] at hc)
        rw [hexact]
        rw [hafter] at h ⊢
        apply ih _ _ _ h (hsmall.after horder)
        intro c hc
        apply hfits c
        rw [show (p.after (· + ·) b).seenStatusLine = true from hseen] at hc
        exact List.mem_cons_of_mem _ hc

/-! ## The map is the set of the text -/

/-- A query of separate ranges, all of them below the last address. -/
theorem touches_iff {P : Nat → Prop} {map : Map} (h : Spans P map.unreadable)
    (hbelow : ∀ i, P i → i + 1 < word) {offset len : Nat} (hlen : 0 < len) :
    map.touches offset len = true ↔ ∃ i, offset ≤ i ∧ i < offset + len ∧ P i := by
  have hend : ∀ p ∈ map.unreadable, add64 p.1 p.2 = p.1 + p.2 ∧ p.1 + p.2 ≤ word - 1 := by
    intro p hp
    have hle := h.end_le (s := word - 1) (fun i hi => by have := hbelow i hi; omega) hp
    have hword : 0 < word := by decide
    exact ⟨add64_of_lt (by omega), hle⟩
  rw [Map.touches, List.any_eq_true]
  constructor
  · rintro ⟨⟨s, l⟩, hp, hin⟩
    obtain ⟨hadd, _⟩ := hend (s, l) hp
    have hpos : 0 < l := h.nonempty (s, l) hp
    have hboth : (decide (s < satAdd64 offset len) && decide (offset < add64 s l)) = true := hin
    rw [Bool.and_eq_true, decide_eq_true_eq, decide_eq_true_eq, hadd, satAdd64] at hboth
    refine ⟨max s offset, by omega, by omega, ?_⟩
    exact (h.covers _).mp ⟨(s, l), hp, Nat.le_max_left _ _, show max s offset < s + l by omega⟩
  · rintro ⟨i, hlow, hhigh, hi⟩
    obtain ⟨⟨s, l⟩, hp, hstart, hstop⟩ := (h.covers i).mpr hi
    obtain ⟨hadd, hlast⟩ := hend (s, l) hp
    have hbound := hbelow i hi
    simp only at hstart hstop
    refine ⟨(s, l), hp, ?_⟩
    show (decide (s < satAdd64 offset len) && decide (offset < add64 s l)) = true
    rw [Bool.and_eq_true, decide_eq_true_eq, decide_eq_true_eq, hadd, satAdd64]
    omega

/-- The map is the set of the blocks that the text lists, none of its sums wraps, and a query finds
what is in it. -/
structure Faithful (text : List Char) (map : Map) : Prop where
  unwrapped : parseWith (· + ·) text = .ok map
  spans : Spans (Unread (blocks text)) map.unreadable
  touches : ∀ offset < word, ∀ len < word, 0 < len →
    (map.touches offset len = true ↔
      ∃ i, offset ≤ i ∧ i < offset + len ∧ Unread (blocks text) i)

/-- The end of the last block is a 64-bit number. -/
theorem extent_lt {text : List Char} {map : Map} (h : parse text = .ok map) :
    map.extent < word := by
  obtain ⟨q, hread, _, rfl⟩ := parseWith_ok h
  exact readLines_keeps (fun p _ => p.extent < word) (fun _ _ hp => hp)
    (fun _ _ _ _ _ => Nat.mod_lt _ (by decide)) _ _ _ _ [] hread (by decide)

/-- The map of a text that is accepted is the set that the text names if and only if no block of
it reaches the end of the addresses. -/
theorem parse_faithful_iff {text : List Char} {map : Map} (h : parse text = .ok map) :
    Faithful text map ↔ ∀ b ∈ blocks text, b.pos + b.size < word := by
  constructor
  · intro hfaithful b hb
    have hextent := extent_lt h
    have hend := (parse_exact hfaithful.unwrapped).2 b hb
    omega
  · intro hfits
    obtain ⟨q, hread, hseen, rfl⟩ := parseWith_ok h
    have hexact := readLines_exact _ _ _ _ hread small_start hfits
    have hunwrapped : parseWith (· + ·) text = .ok
        { unreadable := q.unreadable.reverse, byStatus := q.byStatus, extent := q.extent } := by
      rw [parseWith, hexact]
      simp [hseen]
    have hspans := (parse_exact hunwrapped).1
    refine ⟨hunwrapped, hspans, ?_⟩
    intro offset _ len _ hlen
    apply touches_iff hspans _ hlen
    rintro i ⟨b, hb, _, _, hlt⟩
    have := hfits b hb
    omega

/-- A disk of which the imager did not read a kilobyte. -/
def readMap : List Char := "# Mapfile\n0x00 + 1\n0x00 0x400 +\n0x400 0x200 -\n0x600 0x200 /\n".toList

theorem parse_faithful_iff_read :
    ∃ map, parse readMap = .ok map ∧ Faithful readMap map := by
  have hparse : parse readMap = .ok
      { unreadable := [(0x400, 0x400)], byStatus := [('+', 0x400), ('-', 0x200), ('/', 0x200)]
        extent := 0x800 } := by
    decide +kernel
  exact ⟨_, hparse, (parse_faithful_iff hparse).mpr (by decide)⟩

/-- A block that is bad to past the end of the addresses. -/
def badEnd : List Char := "0x0 + 1\n0xffffffffffffff00 0x200 -\n".toList

/-- It is accepted, and none of its bytes is refused. -/
theorem badEnd_readable : ∃ map, parse badEnd = .ok map ∧
    map.touches 0xffffffffffffff80 0x10 = false ∧
    (∃ i, 0xffffffffffffff80 ≤ i ∧ i < 0xffffffffffffff80 + 0x10 ∧ Unread (blocks badEnd) i) ∧
    ¬ Faithful badEnd map := by
  have hparse : parse badEnd = .ok
      { unreadable := [(0xffffffffffffff00, 0x200)], byStatus := [('-', 0x200)]
        extent := 0x100 } := by
    decide +kernel
  have hblocks : blocks badEnd =
      [{ pos := 0xffffffffffffff00, size := 0x200, status := '-' }] := by
    decide +kernel
  have hunread : ∃ i, 0xffffffffffffff80 ≤ i ∧ i < 0xffffffffffffff80 + 0x10 ∧
      Unread (blocks badEnd) i := by
    rw [hblocks]
    exact ⟨0xffffffffffffff80, by decide, by decide, _, List.mem_singleton_self _, by decide,
      by decide, by decide⟩
  refine ⟨_, hparse, by decide, hunread, ?_⟩
  intro h
  have htouches := (h.touches 0xffffffffffffff80 (by decide) 0x10 (by decide) (by decide)).mpr
    hunread
  exact absurd htouches (by decide)

end Ddrescue
end Source
end ZvolRescue
