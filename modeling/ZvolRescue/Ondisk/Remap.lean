import ZvolRescue.Ondisk.Indirect

/-!
# Where a mapping sends a read

An entry translates the bytes from its start to its end as long as there are addresses for them.
`remap` looks at the first byte of each segment only, so that it is right exactly where the first
byte without a translation, if there is one, is not behind the first byte of a segment
(`remap_exact_iff`).
-/

namespace ZvolRescue
namespace Ondisk

open Lib

/-- The entry sends byte `b` to an address. -/
def Entry.Translates (e : Entry) (b : Nat) : Prop :=
  e.src ≤ b ∧ b < e.end_ ∧ e.dstOffset + (b - e.src) < word

/-- The range of the entry has byte `b`. -/
def Entry.Holds (e : Entry) (b : Nat) : Prop := e.src ≤ b ∧ b < e.src + e.size

theorem Entry.end_le (e : Entry) : e.end_ ≤ e.src + e.size := Nat.min_le_left _ _

theorem Entry.end_lt (e : Entry) : e.end_ < word := by
  have hle : e.end_ ≤ word - 1 := Nat.min_le_right _ _
  have hword : 0 < word := by decide
  omega

theorem Entry.Translates.holds {e : Entry} {b : Nat} (h : e.Translates b) : e.Holds b :=
  ⟨h.1, Nat.lt_of_lt_of_le h.2.1 e.end_le⟩

namespace Mapping

/-- No entry is empty, and no two share a byte. -/
structure Tidy (m : Mapping) : Prop where
  nonempty : ∀ e ∈ m.entries, 0 < e.size
  apart : m.entries.Pairwise (fun a b => a.src + a.size ≤ b.src)

def Maps (m : Mapping) (b : Nat) : Prop := ∃ e ∈ m.entries, e.Translates b

/-- The segments follow one another from `at_` on to the end of the request, and each byte is where
its own entry sends it. -/
def Tiles (m : Mapping) : (at_ left : Nat) → List Segment → Prop
  | _, left, [] => left = 0
  | at_, left, s :: rest =>
    0 < s.size ∧ s.size ≤ left ∧
    (∀ k < s.size, ∃ e ∈ m.entries, e.Translates (at_ + k) ∧ s.vdev = e.dstVdev ∧
      s.offset + k = e.dstOffset + (at_ + k - e.src)) ∧
    m.Tiles (at_ + s.size) (left - s.size) rest

/-- Byte `b` is the first of the request that is not mapped. -/
structure FirstUnmapped (m : Mapping) (at_ left b : Nat) : Prop where
  low : at_ ≤ b
  high : b < at_ + left
  unmapped : ¬ m.Maps b
  first : ∀ c, at_ ≤ c → c < b → m.Maps c

/-- What a request is to give: segments that tile it, or the first byte that is not mapped. -/
def Exact (m : Mapping) (at_ left : Nat) : Except Unmapped (List Segment) → Prop
  | .ok segments => m.Tiles at_ left segments
  | .error u => m.FirstUnmapped at_ left u.offset

/-- The first byte that is not mapped is the first of the request or of an entry, or none has it. -/
def InFront (m : Mapping) (at_ left : Nat) : Prop :=
  ∀ b, m.FirstUnmapped at_ left b → ∀ e ∈ m.entries, e.Holds b → b = at_ ∨ b = e.src

/-! ## The entry of a byte -/

theorem mem_of_entryFor {m : Mapping} {at_ : Nat} {e : Entry} (h : m.entryFor at_ = some e) :
    e ∈ m.entries ∧ e.src ≤ at_ ∧ at_ < e.end_ := by
  rw [entryFor] at h
  cases hlast : (m.entries.takeWhile (fun e => decide (e.src ≤ at_))).getLast? with
  | none =>
    rw [hlast] at h
    cases h
  | some d =>
    rw [hlast] at h
    simp only at h
    by_cases hlt : at_ < d.end_
    · rw [if_pos hlt, Option.some.injEq] at h
      subst h
      have hmem := List.mem_of_getLast? hlast
      have hsrc := List.all_eq_true.mp List.all_takeWhile _ hmem
      exact ⟨(List.takeWhile_prefix _).subset hmem, by simpa using hsrc, hlt⟩
    · rw [if_neg hlt] at h
      cases h

/-- Only one entry has a byte. -/
theorem Tidy.unique {m : Mapping} (h : m.Tidy) {b : Nat} {d e : Entry} (hd : d ∈ m.entries)
    (he : e ∈ m.entries) (hbd : d.Holds b) (hbe : e.Holds b) : d = e := by
  let Apart (x y : Entry) : Prop := x = y ∨ x.src + x.size ≤ y.src ∨ y.src + y.size ≤ x.src
  have hone : m.entries.Pairwise Apart := h.apart.imp (fun hle => .inr (.inl hle))
  have hother : m.entries.Pairwise (flip Apart) := h.apart.imp (fun hle => .inr (.inr hle))
  have hall := List.Pairwise.forall_of_forall_of_flip (fun _ _ => .inl rfl) hone hother hd he
  obtain ⟨hd1, hd2⟩ := hbd
  obtain ⟨he1, he2⟩ := hbe
  rcases hall with heq | hle | hle
  · exact heq
  · omega
  · omega

/-- The entry that has a byte is found. -/
theorem Tidy.entryFor {m : Mapping} (h : m.Tidy) {at_ : Nat} {e : Entry} (he : e ∈ m.entries)
    (hsrc : e.src ≤ at_) (hend : at_ < e.end_) : m.entryFor at_ = some e := by
  obtain ⟨before, after, hsplit⟩ := List.append_of_mem he
  have hsorted := m.sorted
  have hapart := h.apart
  rw [hsplit, List.pairwise_append] at hsorted hapart
  have hbefore : ∀ d ∈ before, decide (d.src ≤ at_) = true := by
    intro d hd
    have hle := hsorted.2.2 d hd e List.mem_cons_self
    exact decide_eq_true (by omega)
  have hafter : after.takeWhile (fun d => decide (d.src ≤ at_)) = [] := by
    cases after with
    | nil => rfl
    | cons d after =>
      have hle := (List.pairwise_cons.mp hapart.2.1).1 d List.mem_cons_self
      have hend_le := e.end_le
      rw [List.takeWhile_cons_of_neg]
      simp only [decide_eq_true_eq]
      omega
  have htake : m.entries.takeWhile (fun d => decide (d.src ≤ at_)) = before ++ [e] := by
    rw [hsplit, List.takeWhile_append_of_pos hbefore, List.takeWhile_cons, hafter]
    simp [hsrc]
  rw [Mapping.entryFor, htake, List.getLast?_concat]
  exact if_pos hend

/-- The entry of a byte is the only one that may map it. -/
theorem Tidy.maps_iff {m : Mapping} (h : m.Tidy) {b : Nat} {e : Entry} (he : e ∈ m.entries)
    (hb : e.Holds b) : m.Maps b ↔ e.Translates b := by
  constructor
  · rintro ⟨d, hd, htrans⟩
    rwa [h.unique he hd hb htrans.holds]
  · intro htrans
    exact ⟨e, he, htrans⟩

theorem Tidy.not_maps {m : Mapping} (h : m.Tidy) {b : Nat} (hnone : m.entryFor b = none) :
    ¬ m.Maps b := by
  rintro ⟨e, he, htrans⟩
  rw [h.entryFor he htrans.1 htrans.2.1] at hnone
  cases hnone

/-! ## The first byte that is not mapped -/

section First

variable {m : Mapping} {at_ left b c : Nat}

theorem FirstUnmapped.unique (hb : m.FirstUnmapped at_ left b) (hc : m.FirstUnmapped at_ left c) :
    b = c := by
  rcases Nat.lt_trichotomy b c with hlt | heq | hlt
  · exact absurd (hc.first b hb.low hlt) hb.unmapped
  · exact heq
  · exact absurd (hb.first c hc.low hlt) hc.unmapped

theorem firstUnmapped_here (hleft : 0 < left) (h : ¬ m.Maps at_) :
    m.FirstUnmapped at_ left at_ where
  low := Nat.le_refl _
  high := by omega
  unmapped := h
  first := fun c _ _ => by omega

/-- Behind bytes that are mapped the first one that is not is the same. -/
theorem firstUnmapped_after {take : Nat} (hle : take ≤ left)
    (h : ∀ k < take, m.Maps (at_ + k)) :
    m.FirstUnmapped (at_ + take) (left - take) b ↔ m.FirstUnmapped at_ left b := by
  have hmapped : ∀ c, at_ ≤ c → c < at_ + take → m.Maps c := by
    intro c hlow hhigh
    have hmap := h (c - at_) (by omega)
    rwa [show at_ + (c - at_) = c by omega] at hmap
  constructor
  · intro hb
    have hlow := hb.low
    have hhigh := hb.high
    refine ⟨by omega, by omega, hb.unmapped, ?_⟩
    intro c hc hcb
    by_cases hin : c < at_ + take
    · exact hmapped c hc hin
    · exact hb.first c (by omega) hcb
  · intro hb
    have hhigh := hb.high
    have hbehind : at_ + take ≤ b := by
      by_contra hin
      exact hb.unmapped (hmapped b hb.low (by omega))
    exact ⟨hbehind, by omega, hb.unmapped, fun c hc hcb => hb.first c (by omega) hcb⟩

/-- A range that is not all mapped has a first byte that is not. -/
theorem exists_firstUnmapped {take : Nat} (hle : take ≤ left)
    (h : ¬ ∀ k < take, m.Maps (at_ + k)) : ∃ k < take, m.FirstUnmapped at_ left (at_ + k) := by
  classical
  push Not at h
  have hfirst := Nat.find_spec h
  refine ⟨Nat.find h, hfirst.1, by omega, by omega, hfirst.2, ?_⟩
  intro c hlow hhigh
  have hmin := Nat.find_min h (show c - at_ < Nat.find h by omega)
  by_contra hc
  exact hmin ⟨by omega, by rwa [show at_ + (c - at_) = c by omega]⟩

end First

/-! ## The loop -/

section Loop

variable {m : Mapping} {at_ left : Nat}

theorem Tiles.maps : ∀ {segments : List Segment} {at_ left : Nat}, m.Tiles at_ left segments →
    ∀ k < left, m.Maps (at_ + k) := by
  intro segments
  induction segments with
  | nil =>
    intro at_ left h k hk
    have hleft : left = 0 := h
    omega
  | cons s rest ih =>
    intro at_ left h k hk
    obtain ⟨_, _, hown, hrest⟩ := h
    by_cases hin : k < s.size
    · obtain ⟨e, he, htrans, _⟩ := hown k hin
      exact ⟨e, he, htrans⟩
    · have hmap := ih hrest (k - s.size) (by omega)
      rwa [show at_ + s.size + (k - s.size) = at_ + k by omega] at hmap

/-- An error is about a byte of what is left. -/
theorem le_of_remapLoop_error : ∀ fuel at_ left u, m.remapLoop fuel at_ left = .error u →
    at_ ≤ u.offset := by
  intro fuel
  induction fuel with
  | zero =>
    intro at_ left u h
    cases h
  | succ fuel ih =>
    intro at_ left u h
    rw [remapLoop] at h
    by_cases hleft : left = 0
    · rw [if_pos hleft] at h
      cases h
    · rw [if_neg hleft] at h
      cases he : m.entryFor at_ with
      | none =>
        rw [he] at h
        cases h
        exact Nat.le_refl _
      | some e =>
        simp only [he] at h
        by_cases hdst : e.dstOffset + (at_ - e.src) ≥ word
        · rw [if_pos hdst] at h
          cases h
          exact Nat.le_refl _
        · rw [if_neg hdst] at h
          generalize min (e.size - (at_ - e.src)) left = take at h
          by_cases hcross : at_ + take ≥ word
          · rw [if_pos hcross] at h
            by_cases hrest : left - take = 0
            · rw [if_pos hrest] at h
              cases h
            · rw [if_neg hrest] at h
              cases h
              exact Nat.le_refl _
          · rw [if_neg hcross] at h
            cases hrec : m.remapLoop fuel (at_ + take) (left - take) with
            | ok segments =>
              rw [hrec] at h
              cases h
            | error v =>
              rw [hrec] at h
              cases h
              have hle := ih _ _ _ hrec
              omega

/-- A segment whose bytes are all mapped is as good as what comes behind it. -/
theorem exact_cons {s : Segment} {r : Except Unmapped (List Segment)} (hpos : 0 < s.size)
    (hle : s.size ≤ left)
    (hown : ∀ k < s.size, ∃ e ∈ m.entries, e.Translates (at_ + k) ∧ s.vdev = e.dstVdev ∧
      s.offset + k = e.dstOffset + (at_ + k - e.src)) :
    m.Exact at_ left (r.map (s :: ·)) ↔ m.Exact (at_ + s.size) (left - s.size) r := by
  cases r with
  | ok segments =>
    constructor
    · exact fun h => h.2.2.2
    · exact fun h => ⟨hpos, hle, hown, h⟩
  | error u =>
    refine (firstUnmapped_after hle ?_).symm
    intro k hk
    obtain ⟨e, he, htrans, _⟩ := hown k hk
    exact ⟨e, he, htrans⟩

/-- Behind a segment that is all mapped, what is in front stays in front. -/
theorem Tidy.inFront_after (h : m.Tidy) {e : Entry} (he : e ∈ m.entries) (hat : e.Holds at_)
    {take : Nat} (htake : take = min (e.size - (at_ - e.src)) left) (hleft : 0 < left)
    (hmaps : ∀ k < take, m.Maps (at_ + k)) :
    m.InFront (at_ + take) (left - take) ↔ m.InFront at_ left := by
  obtain ⟨hsrc, hend⟩ := hat
  have hfirst := fun b => firstUnmapped_after (b := b) (show take ≤ left by omega) hmaps
  constructor
  · intro hfront b hb d hd hholds
    right
    rcases hfront b ((hfirst b).mpr hb) d hd hholds with hstart | heq
    · have hhigh := hb.high
      -- the next byte is behind the entry, so that it is the first of the entry that has it
      by_contra hne
      have hback : d.Holds (b - 1) := ⟨by have := hholds.1; omega, by have := hholds.2; omega⟩
      have hsame := h.unique hd he hback ⟨by omega, by omega⟩
      have hlast := hholds.2
      rw [hsame] at hlast
      omega
    · exact heq
  · intro hfront b hb d hd hholds
    right
    rcases hfront b ((hfirst b).mp hb) d hd hholds with hstart | heq
    · have hlow := hb.low
      omega
    · exact heq

/-- Of the first byte that is left, the loop is right where that is not mapped. -/
theorem exact_here (hleft : 0 < left) (h : ¬ m.Maps at_) (size : Nat) :
    m.Exact at_ left (.error { offset := at_, size := size }) ↔ m.InFront at_ left := by
  have hfirst := firstUnmapped_here hleft h
  refine iff_of_true hfirst ?_
  intro b hb e _ _
  exact .inl (hb.unique hfirst)

/-- A segment with an unmapped byte behind its first one makes the loop wrong, whatever comes
next. -/
theorem not_exact_behind {k take : Nat} (hfirst : m.FirstUnmapped at_ left (at_ + k)) (hpos : k ≠ 0)
    (hk : k < take) (hle : take ≤ left) (fuel : Nat) (s : Segment) :
    ¬ m.Exact at_ left
      (if at_ + take ≥ word then
        if left - take = 0 then .ok [s] else .error { offset := at_, size := left - take }
      else (m.remapLoop fuel (at_ + take) (left - take)).map (s :: ·)) := by
  have hgone : ∀ {segments}, ¬ m.Tiles at_ left segments := fun htiles =>
    hfirst.unmapped (htiles.maps k (by omega))
  by_cases hcross : at_ + take ≥ word
  · rw [if_pos hcross]
    by_cases hrest : left - take = 0
    · rw [if_pos hrest]
      exact hgone
    · rw [if_neg hrest]
      intro hexact
      have heq : at_ = at_ + k := FirstUnmapped.unique hexact hfirst
      omega
  · rw [if_neg hcross]
    cases hrec : m.remapLoop fuel (at_ + take) (left - take) with
    | ok segments => exact hgone
    | error u =>
      intro hexact
      have heq : u.offset = at_ + k := FirstUnmapped.unique hexact hfirst
      have hlow := le_of_remapLoop_error _ _ _ _ hrec
      omega

theorem Tidy.remapLoop_exact_iff (h : m.Tidy) : ∀ fuel at_ left, left ≤ fuel → at_ < word →
    (m.Exact at_ left (m.remapLoop fuel at_ left) ↔ m.InFront at_ left) := by
  have hnone : ∀ at_, m.Exact at_ 0 (.ok []) ↔ m.InFront at_ 0 := by
    intro at_
    refine iff_of_true rfl ?_
    intro b hb
    have hlow := hb.low
    have hhigh := hb.high
    omega
  intro fuel
  induction fuel with
  | zero =>
    intro at_ left hle _
    rw [show left = 0 by omega]
    exact hnone at_
  | succ fuel ih =>
    intro at_ left hle hat
    rw [remapLoop]
    by_cases hzero : left = 0
    · rw [if_pos hzero, hzero]
      exact hnone at_
    · rw [if_neg hzero]
      have hleft : 0 < left := Nat.pos_of_ne_zero hzero
      cases hentry : m.entryFor at_ with
      | none => exact exact_here hleft (h.not_maps hentry) left
      | some e =>
        obtain ⟨he, hsrc, hend⟩ := mem_of_entryFor hentry
        have hendle := e.end_le
        have hendlt := e.end_lt
        have hholds₀ : e.Holds at_ := ⟨hsrc, by omega⟩
        have hholds : ∀ k, k < e.size - (at_ - e.src) → e.Holds (at_ + k) := fun k hk =>
          ⟨by omega, by omega⟩
        simp only
        by_cases hdst : e.dstOffset + (at_ - e.src) ≥ word
        · rw [if_pos hdst]
          apply exact_here hleft
          rw [h.maps_iff he hholds₀]
          intro htrans
          have hlt := htrans.2.2
          omega
        · rw [if_neg hdst]
          generalize htake : min (e.size - (at_ - e.src)) left = take
          by_cases hall : ∀ k < take, m.Maps (at_ + k)
          · -- the last byte of the segment is before the end of the entry
            have htrans : ∀ k < take, e.Translates (at_ + k) := fun k hk =>
              (h.maps_iff he (hholds k (by omega))).mp (hall k hk)
            have hlast := (htrans (take - 1) (by omega)).2.1
            rw [if_neg (by omega)]
            have hown : ∀ k < take, ∃ d ∈ m.entries, d.Translates (at_ + k) ∧
                e.dstVdev = d.dstVdev ∧
                e.dstOffset + (at_ - e.src) + k = d.dstOffset + (at_ + k - d.src) := fun k hk =>
              ⟨e, he, htrans k hk, rfl, by omega⟩
            rw [exact_cons (s := { vdev := e.dstVdev, offset := _, size := take })
              (show 0 < take by omega) (show take ≤ left by omega) hown]
            show m.Exact (at_ + take) (left - take) _ ↔ _
            rw [ih (at_ + take) (left - take) (by omega) (by omega)]
            exact h.inFront_after he hholds₀ htake.symm hleft hall
          · obtain ⟨k, hk, hfirst⟩ := exists_firstUnmapped (show take ≤ left by omega) hall
            have hmaps : m.Maps at_ :=
              ⟨e, he, hsrc, hend, by omega⟩
            have hpos : k ≠ 0 := by
              rintro rfl
              exact hfirst.unmapped hmaps
            apply iff_of_false
            · exact not_exact_behind hfirst hpos hk (show take ≤ left by omega) fuel _
            · intro hfront
              have hor := hfront _ hfirst e he (hholds k (by omega))
              omega

end Loop

/-! ## The loop ends -/

/-- The loop of `remap`, which has no result in too few rounds. -/
def remapRounds (m : Mapping) :
    (rounds at_ left : Nat) → Option (Except Unmapped (List Segment))
  | 0, _, _ => none
  | rounds + 1, at_, left =>
    if left = 0 then some (.ok [])
    else match m.entryFor at_ with
      | none => some (.error { offset := at_, size := left })
      | some e =>
        let within := at_ - e.src
        let take := min (e.size - within) left
        if e.dstOffset + within ≥ word then some (.error { offset := at_, size := left })
        else
          let segment : Segment :=
            { vdev := e.dstVdev, offset := e.dstOffset + within, size := take }
          if at_ + take ≥ word then
            if left - take = 0 then some (.ok [segment])
            else some (.error { offset := at_, size := left - take })
          else (m.remapRounds rounds (at_ + take) (left - take)).map
            (fun r => r.map (segment :: ·))

/-- Each round takes a byte, whatever the entries are. -/
theorem remapRounds_eq (m : Mapping) : ∀ fuel at_ left, left ≤ fuel →
    m.remapRounds (fuel + 1) at_ left = some (m.remapLoop fuel at_ left) := by
  intro fuel
  induction fuel with
  | zero =>
    intro at_ left hle
    rw [remapRounds, if_pos (by omega), remapLoop]
  | succ fuel ih =>
    intro at_ left hle
    rw [remapRounds, remapLoop]
    by_cases hzero : left = 0
    · rw [if_pos hzero, if_pos hzero]
    · rw [if_neg hzero, if_neg hzero]
      cases hentry : m.entryFor at_ with
      | none => rfl
      | some e =>
        obtain ⟨_, hsrc, hend⟩ := mem_of_entryFor hentry
        have hendle := e.end_le
        simp only
        rw [ih _ _ (by omega)]
        split
        · rfl
        · split
          · split
            · rfl
            · rfl
          · rfl

/-- The loop ends whatever the entries are.  For entries in order that are not empty and share no
byte it is right if and only if the first byte that is not mapped is in front. -/
theorem remap_exact_iff (m : Mapping) (offset size : Nat) :
    (∃ rounds, m.remapRounds rounds offset size = some (m.remap offset size)) ∧
      (m.Tidy → offset < word →
        (m.Exact offset size (m.remap offset size) ↔ m.InFront offset size)) := by
  constructor
  · exact ⟨size + 1, remapRounds_eq m size offset size (Nat.le_refl size)⟩
  · intro h hoffset
    exact h.remapLoop_exact_iff size offset size (Nat.le_refl size) hoffset

/-- A removed vdev of which a kilobyte went to two places. -/
def twoPlaces : Mapping :=
  fromEntries [{ src := 512, size := 512, dstVdev := 2, dstOffset := 0 },
    { src := 0, size := 512, dstVdev := 1, dstOffset := 4096 }]

theorem twoPlaces_tidy : twoPlaces.Tidy where
  nonempty := by decide
  apart := by decide

theorem remap_exact_iff_twoPlaces :
    twoPlaces.Exact 256 512 (twoPlaces.remap 256 512) := by
  refine ((remap_exact_iff twoPlaces 256 512).2 twoPlaces_tidy (by decide)).mpr ?_
  intro b hb
  have hlow := hb.low
  have hhigh := hb.high
  refine absurd ?_ hb.unmapped
  by_cases hin : b < 512
  · refine ⟨{ src := 0, size := 512, dstVdev := 1, dstOffset := 4096 }, by decide, ?_⟩
    exact ⟨Nat.zero_le _, hin, show 4096 + (b - 0) < 2 ^ 64 by omega⟩
  · refine ⟨{ src := 512, size := 512, dstVdev := 2, dstOffset := 0 }, by decide, ?_⟩
    exact ⟨show 512 ≤ b by omega, show b < 1024 by omega, show 0 + (b - 512) < 2 ^ 64 by omega⟩

/-- A range that was sent to the end of the addresses and past it. -/
def pastEnd : Mapping :=
  fromEntries [{ src := 0, size := 8192, dstVdev := 1, dstOffset := 2 ^ 64 - 101 }]

/-- It gives a segment, though most of its bytes have no address. -/
theorem pastEnd_remap : pastEnd.Tidy ∧
    pastEnd.remap 0 8192 = .ok [{ vdev := 1, offset := 2 ^ 64 - 101, size := 8192 }] ∧
    ¬ pastEnd.Exact 0 8192 (pastEnd.remap 0 8192) := by
  have hrun : pastEnd.remap 0 8192 = .ok [{ vdev := 1, offset := 2 ^ 64 - 101, size := 8192 }] := by
    decide
  refine ⟨⟨by decide, by decide⟩, hrun, ?_⟩
  rw [hrun]
  intro h
  obtain ⟨e, he, htrans⟩ := Tiles.maps h 101 (by decide)
  have hone : e = { src := 0, size := 8192, dstVdev := 1, dstOffset := 2 ^ 64 - 101 } :=
    List.mem_singleton.mp he
  have hlt := htrans.2.2
  rw [hone] at hlt
  exact absurd hlt (by decide)

end Mapping

end Ondisk
end ZvolRescue
