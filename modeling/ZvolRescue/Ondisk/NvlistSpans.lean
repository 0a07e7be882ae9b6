import ZvolRescue.Ondisk.Nvlist

/-!
# What a value of a list is decoded from

Each pair that a list yields, at any depth, has a stretch of bytes of the size it states
(`Span`), and it is decoded from these bytes only.  The body of a pair of unknown type is not
looked at: the list is the same whatever stands there.
-/

namespace ZvolRescue
namespace Ondisk

open Lib

/-! ## Reads that look at the bytes they take -/

/-- The bytes are the same from one position up to another. -/
def AgreeOn (lo hi : Nat) (buf buf' : List UInt8) : Prop :=
  ∀ i, lo ≤ i → i < hi → buf'[i]? = buf[i]?

/-- What is read is found in the bytes that the cursor passes, and the cursor stays inside. -/
structure Local {α : Type} (r : Read α) : Prop where
  buf : ∀ {cur a c}, r cur = .ok (a, c) → c.buf = cur.buf
  forward : ∀ {cur a c}, r cur = .ok (a, c) → cur.pos ≤ c.pos
  inside : ∀ {cur a c}, r cur = .ok (a, c) → cur.pos ≤ cur.buf.length → c.pos ≤ cur.buf.length
  same : ∀ {cur a c}, r cur = .ok (a, c) → ∀ buf', buf'.length = cur.buf.length →
    AgreeOn cur.pos c.pos cur.buf buf' → r ⟨buf', cur.pos⟩ = .ok (a, ⟨buf', c.pos⟩)

namespace Local

variable {α β : Type}

theorem pure (a : α) : Local (pure a : Read α) where
  buf h := by cases h; rfl
  forward h := by cases h; exact Nat.le_refl _
  inside h hin := by cases h; exact hin
  same h buf' _ _ := by cases h; rfl

theorem fail (e : Cursor → ParseError) : Local (fun cur => .error (e cur) : Read α) where
  buf h := by cases h
  forward h := by cases h
  inside h _ := by cases h
  same h _ _ _ := by cases h

/-- A bind that ends well is two runs that do. -/
theorem bind_ok {r : Read α} {f : α → Read β} {cur : Cursor} {b : β} {c : Cursor} :
    (r >>= f) cur = .ok (b, c) ↔ ∃ a c', r cur = .ok (a, c') ∧ f a c' = .ok (b, c) := by
  show (r cur >>= fun p => f p.1 p.2) = _ ↔ _
  cases h : r cur with
  | error e => simp [Bind.bind, Except.bind]
  | ok p =>
    obtain ⟨a, c'⟩ := p
    simp [Bind.bind, Except.bind]

theorem bind {r : Read α} {f : α → Read β} (hr : Local r) (hf : ∀ a, Local (f a)) :
    Local (r >>= f) where
  buf h := by
    obtain ⟨a, c', hone, htwo⟩ := bind_ok.mp h
    rw [(hf a).buf htwo, hr.buf hone]
  forward h := by
    obtain ⟨a, c', hone, htwo⟩ := bind_ok.mp h
    exact (hr.forward hone).trans ((hf a).forward htwo)
  inside h hin := by
    obtain ⟨a, c', hone, htwo⟩ := bind_ok.mp h
    have hmid := hr.inside hone hin
    have hend := (hf a).inside htwo
    rw [hr.buf hone] at hend
    exact hend hmid
  same {cur b c} h buf' hlength hagree := by
    obtain ⟨a, c', hone, htwo⟩ := bind_ok.mp h
    have hbuf := hr.buf hone
    have hmid := hr.forward hone
    have hend := (hf a).forward htwo
    refine bind_ok.mpr ⟨a, ⟨buf', c'.pos⟩, ?_, ?_⟩
    · exact hr.same hone buf' hlength (fun i hlo hhi => hagree i hlo (hhi.trans_le hend))
    · refine (hf a).same htwo buf' (by rw [hbuf]; exact hlength) ?_
      rw [hbuf]
      exact fun i hlo hhi => hagree i (hmid.trans hlo) hhi

theorem map {r : Read α} (hr : Local r) (f : α → β) : Local (f <$> r) := by
  have hbind := hr.bind (fun a => pure (f a))
  rwa [bind_pure_comp] at hbind

theorem need (n : Nat) (what : String) : Local (Read.need n what) where
  buf h := by
    rw [Read.need] at h
    split at h <;> cases h
    rfl
  forward h := by
    rw [Read.need] at h
    split at h <;> cases h
    exact Nat.le_refl _
  inside h hin := by
    rw [Read.need] at h
    split at h <;> cases h
    exact hin
  same {cur a c} h buf' hlength _ := by
    rw [Read.need] at h ⊢
    split at h
    · rename_i hfits
      cases h
      rw [if_pos]
      rw [hlength]
      exact hfits
    · cases h

/-- Some bytes, and the padding after them, if they are there. -/
theorem taken {n padded : Nat} (what : String) (hle : n ≤ padded) {r : Read (List UInt8)}
    (hr : ∀ cur, r cur =
      if cur.pos + padded < word ∧ cur.pos + padded ≤ cur.buf.length then
        .ok ((cur.buf.drop cur.pos).take n, { cur with pos := cur.pos + padded })
      else .error (.malformed what cur.pos)) : Local r := by
  have hok : ∀ {cur a c}, r cur = .ok (a, c) →
      (cur.pos + padded < word ∧ cur.pos + padded ≤ cur.buf.length) ∧
        a = (cur.buf.drop cur.pos).take n ∧ c = { cur with pos := cur.pos + padded } := by
    intro cur a c h
    rw [hr] at h
    split at h
    · rename_i hfits
      cases h
      exact ⟨hfits, rfl, rfl⟩
    · cases h
  refine ⟨fun h => ?_, fun h => ?_, fun h _ => ?_, fun {cur a c} h buf' hlength hagree => ?_⟩
  · rw [(hok h).2.2]
  · rw [(hok h).2.2]
    exact Nat.le_add_right _ _
  · rw [(hok h).2.2]
    exact (hok h).1.2
  · obtain ⟨hfits, rfl, rfl⟩ := hok h
    have hsame : (buf'.drop cur.pos).take n = (cur.buf.drop cur.pos).take n := by
      refine List.ext_getElem? (fun i => ?_)
      simp only [List.getElem?_take, List.getElem?_drop]
      split
      · exact hagree _ (Nat.le_add_right _ _) (by show _ < cur.pos + padded; omega)
      · rfl
    rw [hr, if_pos (by rw [hlength]; exact hfits), hsame]

theorem bytes (n : Nat) (what : String) : Local (Read.need n what >>= fun _ => Read.take n) := by
  refine taken what (Nat.le_refl n) (fun cur => ?_)
  show (Read.need n what cur >>= fun p => Read.take n p.2) = _
  rw [Read.need]
  split <;> rfl

theorem u32 (what : String) : Local (Read.u32 what) := by
  have h := (bytes 4 what).map Read.beValue
  rw [← bind_pure_comp, bind_assoc] at h
  exact h

theorem u64 (what : String) : Local (Read.u64 what) := by
  have h := (bytes 8 what).map Read.beValue
  rw [← bind_pure_comp, bind_assoc] at h
  exact h

theorem i32 (what : String) : Local (Read.i32 what) := (u32 what).bind (fun _ => pure _)

/-- Where the cursor is may be used, and not what it is over. -/
theorem getPos {f : Cursor → Read α} {g : Nat → Read α} (hg : ∀ pos, Local (g pos))
    (hf : ∀ cur, f cur = g cur.pos) : Local (get >>= f) := by
  have hrun : ∀ cur, (get >>= f) cur = g cur.pos cur := fun cur => by
    rw [← hf]
    rfl
  refine ⟨fun h => ?_, fun h => ?_, fun h => ?_, fun h => ?_⟩
  all_goals rw [hrun] at h
  · exact (hg _).buf h
  · exact (hg _).forward h
  · exact (hg _).inside h
  · intro buf' hlength hagree
    rw [hrun]
    exact (hg _).same h buf' hlength hagree

theorem throwAt (e : ParseError) : Local (throw e : Read α) := fail (fun _ => e)

theorem opaqueBytes (n : Nat) (what : String) : Local (Read.opaqueBytes n what) := by
  by_cases hn : n + 3 < word
  · have hle : n ≤ (n + 3) / 4 * 4 := by omega
    refine taken what hle (fun cur => ?_)
    show (if n + 3 < word then _ else _ : Read (List UInt8)) cur = _
    rw [if_pos hn]
    show (Read.need ((n + 3) / 4 * 4) what cur >>= _) = _
    rw [Read.need]
    split <;> rfl
  · refine getPos (g := fun pos => throw (.malformed what pos)) (fun _ => throwAt _) (fun cur => ?_)
    exact if_neg hn

theorem string (what : String) : Local (Read.string what) :=
  (u32 what).bind (fun n => (opaqueBytes n what).bind (fun _ => pure _))

theorem count (nelem : Int) (elsize : Nat) (what : String) :
    Local (Read.count nelem elsize what) := by
  refine (u32 what).bind (fun n => getPos (g := fun pos =>
    if nelem < 0 ∨ (n : Int) ≠ nelem then throw (.malformed what (pos - 4))
    else if n * elsize < word then do
      Read.need (n * elsize) what
      return n
    else throw (.malformed what pos)) (fun pos => ?_) (fun _ => rfl))
  split
  · exact throwAt _
  · split
    · exact (need _ what).bind (fun _ => pure _)
    · exact throwAt _

theorem declared (nelem : Int) (what : String) : Local (Read.declared nelem what) := by
  refine getPos (g := fun pos =>
    if nelem < 0 then throw (.malformed what pos) else return nelem.toNat) (fun pos => ?_)
    (fun _ => rfl)
  split
  · exact throwAt _
  · exact pure _

theorem times {element : Read α} (h : Local element) (n : Nat) :
    Local (Read.times element n) := by
  induction n with
  | zero => exact pure _
  | succ n ih => exact h.bind (fun _ => ih.bind (fun _ => pure _))

/-- A value that is no list is found where it is read. -/
theorem value {nested : Read NvList} {typeCode : Int} (nelem : Int) (hlist : typeCode ≠ 19)
    (harray : typeCode ≠ 20) : Local (parseValue nested typeCode nelem) := by
  unfold parseValue
  split
  all_goals with_reducible first
    | exact pure _
    | exact absurd rfl hlist
    | exact absurd rfl harray
    | exact (u32 _).bind (fun _ => pure _)
    | exact (i32 _).bind (fun _ => pure _)
    | exact (u64 _).bind (fun _ => pure _)
    | exact (string _).bind (fun _ => pure _)
    | exact (declared _ _).bind (fun _ => (opaqueBytes _ _).bind (fun _ => pure _))
    | exact (count _ _ _).bind (fun _ => ((i32 _).times _).bind (fun _ => pure _))
    | exact (count _ _ _).bind (fun _ => ((u32 _).times _).bind (fun _ => pure _))
    | exact (count _ _ _).bind (fun _ => ((u64 _).times _).bind (fun _ => pure _))
    | exact (declared _ _).bind (fun _ => ((string _).times _).bind (fun _ => pure _))

end Local

/-! ## The pairs of a list, at every depth -/

mutual

/-- The pairs inside a value. -/
def Value.pairsIn : Value → List (String × Value)
  | .list l => l.pairsIn
  | .listArray ls => pairsOfLists ls
  | _ => []

def NvList.pairsIn : NvList → List (String × Value)
  | .mk _ _ pairs => pairsOfPairs pairs

def pairsOfLists : List NvList → List (String × Value)
  | [] => []
  | l :: ls => l.pairsIn ++ pairsOfLists ls

def pairsOfPairs : List (String × Value) → List (String × Value)
  | [] => []
  | (name, value) :: pairs => (name, value) :: value.pairsIn ++ pairsOfPairs pairs

end

/-- The name, the type and the number of elements of a pair. -/
def pairHead : Read (String × Int × Int) := do
  let name ← Read.string "nvpair name"
  let typeCode ← Read.i32 "nvpair type"
  let nelem ← Read.i32 "nvpair nelem"
  return (name, typeCode, nelem)

/-- Where a pair was found: it begins with its two sizes at `start`, its value begins at `body`,
and the bytes it states end at `stop`.  Lists inside it may be `depth` deep. -/
structure Span where
  depth : Nat
  start : Nat
  body : Nat
  stop : Nat
  name : String
  typeCode : Int
  nelem : Int
  value : Value

namespace Span

def pair (s : Span) : String × Value := (s.name, s.value)

/-- The pair has a type that is not decoded. -/
def Skipped (s : Span) : Prop := s.value = .unknown s.typeCode s.nelem

/-- In these bytes the pair states the size it has here, and has this name and this value. -/
structure Decodes (s : Span) (buf : List UInt8) : Prop where
  size : Read.i32 "nvpair encoded size" ⟨buf.take s.stop, s.start⟩ =
    .ok (((s.stop - s.start : Nat) : Int), ⟨buf.take s.stop, s.start + 4⟩)
  head : pairHead ⟨buf.take s.stop, s.start + 8⟩ =
    .ok ((s.name, s.typeCode, s.nelem), ⟨buf.take s.stop, s.body⟩)
  value : ∃ c, parseValue (parseList s.depth) s.typeCode s.nelem ⟨buf.take s.stop, s.body⟩ =
    .ok (s.value, c)

/-- The span has its parts in order, between two positions. -/
structure Within (lo hi : Nat) (s : Span) : Prop where
  start : lo ≤ s.start
  body : s.start + 8 ≤ s.body
  stop : s.body ≤ s.stop
  last : s.stop ≤ hi

theorem Within.mono {lo lo' hi hi' : Nat} {s : Span} (h : s.Within lo hi) (hlo : lo' ≤ lo)
    (hhi : hi ≤ hi') : s.Within lo' hi' :=
  ⟨hlo.trans h.start, h.body, h.stop, h.last.trans hhi⟩

/-- A cut behind the pair makes no difference to it. -/
theorem Decodes.of_take {s : Span} {buf : List UInt8} {n : Nat} (h : s.Decodes (buf.take n))
    (hn : s.stop ≤ n) : s.Decodes buf := by
  have hcut : (buf.take n).take s.stop = buf.take s.stop := by
    rw [List.take_take, min_eq_left hn]
  obtain ⟨hsize, hhead, hvalue⟩ := h
  rw [hcut] at hsize hhead hvalue
  exact ⟨hsize, hhead, hvalue⟩

end Span

/-- The bytes are the same between two positions, except in the bodies of unknown type. -/
def AgreeOff (spans : List Span) (lo hi : Nat) (buf buf' : List UInt8) : Prop :=
  ∀ i, lo ≤ i → i < hi → (∀ s ∈ spans, s.Skipped → ¬ (s.body ≤ i ∧ i < s.stop)) →
    buf'[i]? = buf[i]?

/-! ## What a run shows of the pairs it met -/

/-- A run from `cur` to `c` met the pairs of these spans. -/
structure Trace {α : Type} (r : Read α) (cur : Cursor) (a : α) (c : Cursor)
    (spans : List Span) : Prop where
  buf : c.buf = cur.buf
  forward : cur.pos ≤ c.pos
  inside : c.pos ≤ cur.buf.length
  within : ∀ s ∈ spans, s.Within cur.pos c.pos
  own : ∀ s ∈ spans, ∀ buf', AgreeOn s.start s.stop cur.buf buf' → s.Decodes buf'
  tolerant : ∀ buf', buf'.length = cur.buf.length → AgreeOff spans cur.pos c.pos cur.buf buf' →
    r ⟨buf', cur.pos⟩ = .ok (a, ⟨buf', c.pos⟩)

/-- Every run that ends well met some pairs, which are related to its result. -/
def Traces {α : Type} (r : Read α) (R : α → List Span → Prop) : Prop :=
  ∀ cur a c, r cur = .ok (a, c) → cur.pos ≤ cur.buf.length →
    ∃ spans, R a spans ∧ Trace r cur a c spans

theorem AgreeOff.of_agreeOn {spans : List Span} {lo hi : Nat} {buf buf' : List UInt8}
    (h : AgreeOn lo hi buf buf') : AgreeOff spans lo hi buf buf' := fun i hlo hhi _ => h i hlo hhi

theorem AgreeOff.agreeOn {lo hi : Nat} {buf buf' : List UInt8} (h : AgreeOff [] lo hi buf buf') :
    AgreeOn lo hi buf buf' := fun i hlo hhi => h i hlo hhi (by simp)

namespace Traces

variable {α β : Type}

theorem of_local {r : Read α} {R : α → List Span → Prop} (hr : Local r)
    (hR : ∀ {cur a c}, r cur = .ok (a, c) → R a []) : Traces r R := by
  intro cur a c h hin
  refine ⟨[], hR h, hr.buf h, hr.forward h, hr.inside h hin, by simp, by simp, ?_⟩
  exact fun buf' hlength hagree => hr.same h buf' hlength hagree.agreeOn

theorem mono {r : Read α} {R S : α → List Span → Prop} (hr : Traces r R)
    (himp : ∀ a spans, R a spans → S a spans) : Traces r S := by
  intro cur a c h hin
  obtain ⟨spans, hR, t⟩ := hr cur a c h hin
  exact ⟨spans, himp a spans hR, t⟩

theorem bind {r : Read α} {f : α → Read β} {R : α → List Span → Prop}
    {S : β → List Span → Prop} (hr : Traces r R)
    (hf : ∀ a first, R a first → Traces (f a) (fun b second => S b (first ++ second))) :
    Traces (r >>= f) S := by
  intro cur b c h hin
  obtain ⟨a, mid, hone, htwo⟩ := Local.bind_ok.mp h
  obtain ⟨first, hR, t⟩ := hr cur a mid hone hin
  obtain ⟨second, hS, t'⟩ := hf a first hR mid b c htwo (by rw [t.buf]; exact t.inside)
  have hbuf : mid.buf = cur.buf := t.buf
  have hforward := t.forward
  have hforward' := t'.forward
  have hwithin : ∀ s ∈ first ++ second, s.Within cur.pos c.pos := by
    intro s hs
    rcases List.mem_append.mp hs with hs | hs
    · exact (t.within s hs).mono le_rfl hforward'
    · exact (t'.within s hs).mono hforward le_rfl
  refine ⟨first ++ second, hS, t'.buf.trans hbuf, hforward.trans hforward',
    by rw [← hbuf]; exact t'.inside, hwithin, ?_, ?_⟩
  · intro s hs buf' hagree
    rcases List.mem_append.mp hs with hs | hs
    · exact t.own s hs buf' hagree
    · exact t'.own s hs buf' (by rw [hbuf]; exact hagree)
  · intro buf' hlength hagree
    refine Local.bind_ok.mpr ⟨a, ⟨buf', mid.pos⟩, t.tolerant buf' hlength ?_,
      t'.tolerant buf' (by rw [hbuf]; exact hlength) ?_⟩
    · intro i hlo hhi hout
      refine hagree i hlo (hhi.trans_le hforward') (fun s hs hskip hin => ?_)
      rcases List.mem_append.mp hs with hs | hs
      · exact hout s hs hskip hin
      · have hw := t'.within s hs
        have hstart := hw.start
        have hbody := hw.body
        omega
    · rw [hbuf]
      intro i hlo hhi hout
      refine hagree i (hforward.trans hlo) hhi (fun s hs hskip hin => ?_)
      rcases List.mem_append.mp hs with hs | hs
      · have hlast := (t.within s hs).last
        omega
      · exact hout s hs hskip hin

/-- A read that looks at its bytes, and then another. -/
theorem after {r : Read α} {f : α → Read β} {S : β → List Span → Prop} (hr : Local r)
    (hf : ∀ a, Traces (f a) S) : Traces (r >>= f) S :=
  bind (R := fun _ spans => spans = []) (of_local hr (fun _ => rfl)) (fun a first hfirst => by
    subst hfirst
    exact hf a)

theorem pure {a : α} {R : α → List Span → Prop} (hR : R a []) : Traces (pure a : Read α) R :=
  of_local (Local.pure a) (fun h => by cases h; exact hR)

theorem map {r : Read α} {R : α → List Span → Prop} {S : β → List Span → Prop}
    (hr : Traces r R) (f : α → β) (himp : ∀ a spans, R a spans → S (f a) spans) :
    Traces (r >>= fun a => Pure.pure (f a)) S :=
  hr.bind (fun a first hR => pure (by simpa using himp a first hR))

theorem times {r : Read NvList} (hr : Traces r (fun l spans => spans.map Span.pair = l.pairsIn))
    (n : Nat) : Traces (Read.times r n) (fun ls spans =>
      spans.map Span.pair = pairsOfLists ls) := by
  induction n with
  | zero => exact pure rfl
  | succ n ih =>
    refine hr.bind (fun l first hfirst => ih.map (fun ls => l :: ls) (fun ls second hsecond => ?_))
    rw [List.map_append, hfirst, hsecond, pairsOfLists]

end Traces

/-! ## One pair -/

/-- One turn of the loop over the pairs, with none at their end. -/
def nextPair (nested : Read NvList) (found : Nat) : Read (Option (String × Value)) := do
  let pairStart := (← get).pos
  let encoded ← Read.i32 "nvpair encoded size"
  let _decoded ← Read.i32 "nvpair decoded size"
  if encoded = 0 then return none
  else if found ≥ nvMaxPairs then throw (.malformed "more pairs than MAX_PAIRS" pairStart)
  else if encoded < 0 then throw (.malformed "negative nvpair size" pairStart)
  else
    let cur ← get
    let pairEnd := pairStart + encoded.toNat
    if pairEnd ≤ cur.buf.length ∧ encoded ≥ 16 then
      let (pair, _) ← parsePair nested { buf := cur.buf.take pairEnd, pos := cur.pos }
      set { cur with pos := pairEnd }
      return some pair
    else throw (.malformed "nvpair size beyond buffer" pairStart)

theorem parsePairs_succ (nested : Read NvList) (fuel found : Nat) :
    parsePairs nested (fuel + 1) found = nextPair nested found >>= fun next =>
      match next with
      | none => return []
      | some pair => return pair :: (← parsePairs nested fuel (found + 1)) := by
  rw [parsePairs, nextPair]
  simp only [bind_assoc]
  refine bind_congr (fun start => bind_congr (fun encoded => bind_congr (fun _ => ?_)))
  split
  · rfl
  · split
    · rfl
    · split
      · rfl
      · simp only [bind_assoc]
        refine bind_congr (fun cur => ?_)
        split
        · simp only [bind_assoc, pure_bind]
        · rfl

theorem lift_ok {α : Type} {e : Except ParseError α} {cur : Cursor} {a : α} {c : Cursor} :
    (liftM e : Read α) cur = .ok (a, c) ↔ e = .ok a ∧ c = cur := by
  show (e >>= fun a => pure (a, cur)) = _ ↔ _
  cases e with
  | error err => simp [Bind.bind, Except.bind]
  | ok b => simp [Bind.bind, Except.bind, Pure.pure, Except.pure, eq_comm]

theorem i32_ok {what : String} {cur c : Cursor} {i : Int} (h : Read.i32 what cur = .ok (i, c)) :
    (cur.pos + 4 < word ∧ cur.pos + 4 ≤ cur.buf.length) ∧
      i = Read.signed 32 (Read.beValue ((cur.buf.drop cur.pos).take 4)) ∧
      c = ⟨cur.buf, cur.pos + 4⟩ := by
  obtain ⟨n, c', hn, h⟩ := Local.bind_ok.mp h
  obtain ⟨_, c'', hneed, hn⟩ := Local.bind_ok.mp hn
  rw [Read.need] at hneed
  split at hneed
  · rename_i hfits
    cases hneed
    cases hn
    cases h
    exact ⟨hfits, rfl, rfl⟩
  · cases hneed

/-- A number is read from its four bytes, however long the buffer is. -/
theorem i32_agree {what : String} {buf buf' : List UInt8} {pos : Nat} {i : Int} {c : Cursor}
    (h : Read.i32 what ⟨buf, pos⟩ = .ok (i, c)) (hlength : pos + 4 ≤ buf'.length)
    (hagree : AgreeOn pos (pos + 4) buf buf') :
    Read.i32 what ⟨buf', pos⟩ = .ok (i, ⟨buf', pos + 4⟩) := by
  obtain ⟨hfits, rfl, rfl⟩ := i32_ok h
  have hsame : (buf'.drop pos).take 4 = (buf.drop pos).take 4 := by
    refine List.ext_getElem? (fun i => ?_)
    simp only [List.getElem?_take, List.getElem?_drop]
    split
    · exact hagree _ (Nat.le_add_right _ _) (by omega)
    · rfl
  refine Local.bind_ok.mpr ⟨_, _, Local.bind_ok.mpr ⟨(), ⟨buf', pos⟩, ?_, rfl⟩, ?_⟩
  · exact if_pos ⟨hfits.1, hlength⟩
  rw [hsame]
  rfl

/-- What a turn of the loop that ends well has done. -/
theorem nextPair_ok {nested : Read NvList} {found pos : Nat} {buf : List UInt8} {c : Cursor}
    {next : Option (String × Value)} :
    nextPair nested found ⟨buf, pos⟩ = .ok (next, c) ↔ ∃ encoded decoded,
      Read.i32 "nvpair encoded size" ⟨buf, pos⟩ = .ok (encoded, ⟨buf, pos + 4⟩) ∧
      Read.i32 "nvpair decoded size" ⟨buf, pos + 4⟩ = .ok (decoded, ⟨buf, pos + 8⟩) ∧
      (encoded = 0 ∧ next = none ∧ c = ⟨buf, pos + 8⟩ ∨
        found < nvMaxPairs ∧ 16 ≤ encoded ∧ pos + encoded.toNat ≤ buf.length ∧
        ∃ pair last, parsePair nested ⟨buf.take (pos + encoded.toNat), pos + 8⟩ = .ok (pair, last) ∧
          next = some pair ∧ c = ⟨buf, pos + encoded.toNat⟩) := by
  have hget : ∀ (f : Cursor → Read (Option (String × Value))) (cur : Cursor),
      (get >>= f) cur = f cur cur := fun _ _ => rfl
  rw [nextPair, hget]
  constructor
  · intro h
    obtain ⟨encoded, mid, hsize, h⟩ := Local.bind_ok.mp h
    obtain ⟨decoded, body, hdecoded, h⟩ := Local.bind_ok.mp h
    obtain ⟨-, -, rfl⟩ := i32_ok hsize
    obtain ⟨-, -, rfl⟩ := i32_ok hdecoded
    refine ⟨encoded, decoded, hsize, hdecoded, ?_⟩
    split at h
    · rename_i hzero
      cases h
      exact .inl ⟨hzero, rfl, rfl⟩
    · split at h
      · cases h
      · split at h
        · cases h
        · rename_i hfound _
          rw [hget] at h
          split at h
          · rename_i hfits
            obtain ⟨⟨pair, last⟩, c', hlift, h⟩ := Local.bind_ok.mp h
            obtain ⟨hpair, rfl⟩ := lift_ok.mp hlift
            cases h
            exact .inr ⟨Nat.lt_of_not_ge hfound, hfits.2, hfits.1, pair, last, hpair, rfl, rfl⟩
          · cases h
  · rintro ⟨encoded, decoded, hsize, hdecoded, h⟩
    refine Local.bind_ok.mpr ⟨encoded, _, hsize, Local.bind_ok.mpr ⟨decoded, _, hdecoded, ?_⟩⟩
    rcases h with ⟨hzero, rfl, rfl⟩ | ⟨hfound, hmin, hfits, pair, last, hpair, rfl, rfl⟩
    · rw [if_pos hzero]
      rfl
    · rw [if_neg (by omega), if_neg (Nat.not_le.mpr hfound), if_neg (by omega), hget,
        if_pos ⟨hfits, hmin⟩]
      exact Local.bind_ok.mpr ⟨(pair, last), _, lift_ok.mpr ⟨hpair, rfl⟩, rfl⟩

theorem parsePair_eq (nested : Read NvList) :
    parsePair nested = pairHead >>= fun head => do
      let value ← parseValue nested head.2.1 head.2.2
      return (head.1, value) := by
  rw [parsePair, pairHead]
  simp only [bind_assoc, pure_bind]

theorem Local.pairHead : Local pairHead :=
  (string _).bind (fun _ => (i32 _).bind (fun _ => (i32 _).bind (fun _ => Local.pure _)))

/-- All that a read can give has a property. -/
def Returns {α : Type} (r : Read α) (P : α → Prop) : Prop :=
  ∀ cur a c, r cur = .ok (a, c) → P a

theorem Returns.pure {α : Type} {a : α} {P : α → Prop} (h : P a) :
    Returns (Pure.pure a : Read α) P := by
  intro cur b c heq
  cases heq
  exact h

theorem Returns.bind {α β : Type} {r : Read α} {f : α → Read β} {P : β → Prop}
    (h : ∀ a, Returns (f a) P) : Returns (r >>= f) P := by
  intro cur b c heq
  obtain ⟨a, mid, _, htwo⟩ := Local.bind_ok.mp heq
  exact h a mid b c htwo

/-- A value that is no list has no pairs inside. -/
theorem parseValue_pairsIn {nested : Read NvList} {typeCode nelem : Int} (hlist : typeCode ≠ 19)
    (harray : typeCode ≠ 20) :
    Returns (parseValue nested typeCode nelem) (fun value => value.pairsIn = []) := by
  unfold parseValue
  split
  all_goals with_reducible first
    | exact absurd rfl hlist
    | exact absurd rfl harray
    | exact .pure rfl
    | exact .bind (fun _ => .pure rfl)
    | exact .bind (fun _ => .bind (fun _ => .pure rfl))

/-- What is not decoded is not looked at. -/
theorem parseValue_unknown {nested : Read NvList} {typeCode nelem : Int} :
    Returns (parseValue nested typeCode nelem) (fun value =>
      value = .unknown typeCode nelem →
        parseValue nested typeCode nelem = pure (.unknown typeCode nelem)) := by
  unfold parseValue
  split
  all_goals with_reducible first
    | exact .pure (fun _ => rfl)
    | exact .pure (fun h => nomatch h)
    | exact .bind (fun _ => .pure (fun h => nomatch h))
    | exact .bind (fun _ => .bind (fun _ => .pure (fun h => nomatch h)))

/-- The pairs inside what is read are those of the spans. -/
def ListSpans (l : NvList) (spans : List Span) : Prop := spans.map Span.pair = l.pairsIn

theorem Traces.value {nested : Read NvList} (hnested : Traces nested ListSpans)
    (typeCode nelem : Int) : Traces (parseValue nested typeCode nelem) (fun value spans =>
      spans.map Span.pair = value.pairsIn) := by
  by_cases hlist : typeCode = 19
  · subst hlist
    show Traces (nested >>= fun l => Pure.pure (Value.list l)) _
    exact hnested.map _ (fun l spans h => by rw [h, Value.pairsIn])
  · by_cases harray : typeCode = 20
    · subst harray
      exact .after (.declared _ _) (fun n => (hnested.times n).map _
        (fun ls spans h => by rw [h, Value.pairsIn]))
    · refine of_local (.value nelem hlist harray) (fun h => ?_)
      rw [parseValue_pairsIn hlist harray _ _ _ h]
      rfl

theorem AgreeOn.take {lo hi n : Nat} {buf buf' : List UInt8} (h : AgreeOn lo hi buf buf') :
    AgreeOn lo hi (buf.take n) (buf'.take n) := by
  intro i hlo hhi
  rw [List.getElem?_take, List.getElem?_take, h i hlo hhi]

theorem AgreeOn.mono {lo lo' hi hi' : Nat} {buf buf' : List UInt8} (h : AgreeOn lo hi buf buf')
    (hlo : lo ≤ lo') (hhi : hi' ≤ hi) : AgreeOn lo' hi' buf buf' :=
  fun i hi hi' => h i (hlo.trans hi) (hi'.trans_le hhi)

/-- A pair of this type and size is decoded from its own bytes. -/
theorem Trace.decodes {s : Span} {buf : List UInt8} {last : Cursor} {spans : List Span}
    (hin : s.Within 0 buf.length)
    (hsize : Read.i32 "nvpair encoded size" ⟨buf, s.start⟩ =
      .ok (((s.stop - s.start : Nat) : Int), ⟨buf, s.start + 4⟩))
    (hhead : pairHead ⟨buf.take s.stop, s.start + 8⟩ =
      .ok ((s.name, s.typeCode, s.nelem), ⟨buf.take s.stop, s.body⟩))
    (t : Trace (parseValue (parseList s.depth) s.typeCode s.nelem) ⟨buf.take s.stop, s.body⟩ s.value
      last spans) :
    ∀ buf', AgreeOn s.start s.stop buf buf' → s.Decodes buf' := by
  intro buf' hagree
  obtain ⟨_, hbody, hstop, hlast⟩ := hin
  have hcut : (buf.take s.stop).length = s.stop := by simp [hlast]
  have hcut' : (buf'.take s.stop).length = (buf.take s.stop).length := by
    have hend : buf'[s.stop - 1]? = buf[s.stop - 1]? := hagree _ (by omega) (by omega)
    have hsome : s.stop - 1 < buf'.length := by
      rw [List.getElem?_eq_getElem (l := buf) (by omega)] at hend
      exact (List.getElem?_eq_some_iff.mp hend).1
    simp only [List.length_take]
    omega
  have hfour : s.start + 4 ≤ s.stop := by omega
  have hsame := hagree.take (n := s.stop)
  have hend : last.pos ≤ s.stop := hcut ▸ t.inside
  refine ⟨?_, ?_, ⟨buf'.take s.stop, last.pos⟩, ?_⟩
  · refine i32_agree hsize (by omega) (fun i hlo hhi => ?_)
    rw [List.getElem?_take, if_pos (by omega)]
    exact hagree i hlo (by omega)
  · exact Local.pairHead.same hhead _ hcut' (hsame.mono (Nat.le_add_right _ _) hstop)
  · exact t.tolerant _ hcut' (.of_agreeOn (hsame.mono (by show s.start ≤ s.body; omega) hend))

/-! ## Lists of pairs -/

/-- The pairs that a turn of the loop adds are those of the spans. -/
def NextSpans (next : Option (String × Value)) (spans : List Span) : Prop :=
  spans.map Span.pair = pairsOfPairs next.toList

theorem pairsIn_unknown {value : Value} {typeCode nelem : Int}
    (h : value = .unknown typeCode nelem) : value.pairsIn = [] := by
  rw [h, Value.pairsIn]
  all_goals simp

theorem Traces.nextPair {depth : Nat} (hnested : Traces (parseList depth) ListSpans)
    (found : Nat) : Traces (nextPair (parseList depth) found) NextSpans := by
  rintro ⟨buf, pos⟩ next c h hin
  obtain ⟨encoded, decoded, hsize, hdecoded, h⟩ := nextPair_ok.mp h
  obtain ⟨⟨-, height⟩, -⟩ := i32_ok hdecoded
  simp only at hin height
  -- The two sizes are in front of every body.
  have hsizes : ∀ {buf' : List UInt8}, buf'.length = buf.length → AgreeOn pos (pos + 8) buf buf' →
      Read.i32 "nvpair encoded size" ⟨buf', pos⟩ = .ok (encoded, ⟨buf', pos + 4⟩) ∧
      Read.i32 "nvpair decoded size" ⟨buf', pos + 4⟩ = .ok (decoded, ⟨buf', pos + 8⟩) := by
    intro buf' hlength hagree
    constructor
    · exact i32_agree hsize (by omega) (hagree.mono le_rfl (by omega))
    · exact i32_agree hdecoded (by omega) (hagree.mono (by omega) (by omega))
  rcases h with ⟨hzero, rfl, rfl⟩ | ⟨hfound, hmin, hfits, pair, last, hpair, rfl, rfl⟩
  · refine ⟨[], rfl, rfl, Nat.le_add_right _ _, height, by simp, by simp, ?_⟩
    intro buf' hlength hagree
    obtain ⟨hone, htwo⟩ := hsizes hlength hagree.agreeOn
    exact nextPair_ok.mpr ⟨encoded, decoded, hone, htwo, .inl ⟨hzero, rfl, rfl⟩⟩
  · obtain ⟨stop, hstop⟩ : ∃ stop, pos + encoded.toNat = stop := ⟨_, rfl⟩
    have hencoded : encoded = ((stop - pos : Nat) : Int) := by omega
    rw [hstop] at hfits hpair ⊢
    have hcut : (buf.take stop).length = stop := by simp [hfits]
    rw [parsePair_eq] at hpair
    obtain ⟨⟨name, typeCode, nelem⟩, ⟨cutBuf, start⟩, hhead, hvalue⟩ := Local.bind_ok.mp hpair
    obtain ⟨value, last', hvalue, hend⟩ := Local.bind_ok.mp hvalue
    cases hend
    obtain rfl : cutBuf = buf.take stop := Local.pairHead.buf hhead
    have hbody : pos + 8 ≤ start := Local.pairHead.forward hhead
    have hstart : start ≤ (buf.take stop).length :=
      Local.pairHead.inside hhead (by rw [hcut]; simp only; omega)
    obtain ⟨inner, hinner, t⟩ := hnested.value typeCode nelem _ value last hvalue hstart
    have hlast : last.pos ≤ stop := hcut ▸ t.inside
    rw [hcut] at hstart
    obtain ⟨top, htop⟩ : ∃ top : Span,
      top = ⟨depth, pos, start, stop, name, typeCode, nelem, value⟩ := ⟨_, rfl⟩
    have hwithin : top.Within pos stop := by
      rw [htop]
      exact ⟨le_rfl, hbody, hstart, le_rfl⟩
    refine ⟨top :: inner, ?_, rfl, by simp; omega, hfits, ?_, ?_, ?_⟩
    · simp only [NextSpans, List.map_cons, hinner, Option.toList_some, pairsOfPairs, Span.pair,
        List.append_nil, htop]
    · intro s hs
      rcases List.mem_cons.mp hs with rfl | hs
      · exact hwithin
      · exact (t.within s hs).mono (by simp only; omega) hlast
    · intro s hs buf' hagree
      rcases List.mem_cons.mp hs with rfl | hs
      · subst htop
        exact t.decodes (hwithin.mono (Nat.zero_le _) hfits) (by rw [hsize, hencoded]) hhead buf'
          hagree
      · exact (t.own s hs (buf'.take stop) hagree.take).of_take ((t.within s hs).last.trans hlast)
    · intro buf' hlength hagree
      have hfront : AgreeOn pos start buf buf' := by
        intro i hlo hhi
        refine hagree i hlo (hhi.trans_le hstart) (fun s hs _ hin => ?_)
        rcases List.mem_cons.mp hs with rfl | hs
        · subst htop
          exact absurd hin.1 (Nat.not_le.mpr hhi)
        · have hw := t.within s hs
          have hfirst : start ≤ s.start := hw.start
          have hthen := hw.body
          omega
      have hcut' : (buf'.take stop).length = (buf.take stop).length := by simp [hlength]
      obtain ⟨hone, htwo⟩ := hsizes hlength (hfront.mono le_rfl hbody)
      refine nextPair_ok.mpr ⟨encoded, decoded, hone, htwo, .inr ⟨hfound, hmin,
        by rw [hstop, hlength]; exact hfits, (name, value), ⟨buf'.take stop, last.pos⟩, ?_, rfl,
        by rw [hstop]⟩⟩
      rw [hstop, parsePair_eq]
      refine Local.bind_ok.mpr ⟨_, _, Local.pairHead.same hhead _ hcut' ?_, Local.bind_ok.mpr
        ⟨value, _, ?_, rfl⟩⟩
      · exact hfront.take.mono (Nat.le_add_right _ _) le_rfl
      by_cases hskip : value = .unknown typeCode nelem
      · -- The type alone decides: the body is not read.
        have hpure := parseValue_unknown _ _ _ hvalue hskip
        simp only at hpure hvalue ⊢
        rw [hpure] at hvalue ⊢
        cases hvalue
        rfl
      · refine t.tolerant _ hcut' (fun i hlo hhi hout => ?_)
        have histop : i < stop := hhi.trans_le hlast
        simp only [List.getElem?_take, histop, if_true]
        refine hagree i (by simp only at hlo ⊢; omega) histop (fun s hs hs' => ?_)
        rcases List.mem_cons.mp hs with rfl | hs
        · subst htop
          exact absurd hs' hskip
        · exact hout s hs hs'

theorem Traces.pairs {depth : Nat} (hnested : Traces (parseList depth) ListSpans)
    (fuel found : Nat) : Traces (parsePairs (parseList depth) fuel found) (fun pairs spans =>
      spans.map Span.pair = pairsOfPairs pairs) := by
  induction fuel generalizing found with
  | zero => exact pure rfl
  | succ fuel ih =>
    rw [parsePairs_succ]
    refine (nextPair hnested found).bind (fun next first hfirst => ?_)
    cases next with
    | none => exact pure (by simpa [NextSpans, pairsOfPairs] using hfirst)
    | some pair =>
      refine (ih (found + 1)).map (fun pairs => pair :: pairs) (fun pairs second hsecond => ?_)
      rw [NextSpans, Option.toList_some, pairsOfPairs, pairsOfPairs, List.append_nil] at hfirst
      rw [List.map_append, hfirst, hsecond, pairsOfPairs]

/-- The length of the buffer may be used, and not what is in it. -/
theorem Traces.getLength {α : Type} {f : Cursor → Read α} {g : Nat → Read α}
    {R : α → List Span → Prop} (hg : ∀ n, Traces (g n) R) (hf : ∀ cur, f cur = g cur.buf.length) :
    Traces (get >>= f) R := by
  have hrun : ∀ cur, (get >>= f) cur = g cur.buf.length cur := fun cur => by
    rw [← hf]
    rfl
  intro cur a c h hin
  rw [hrun] at h
  obtain ⟨spans, hR, t⟩ := hg _ cur a c h hin
  refine ⟨spans, hR, t.buf, t.forward, t.inside, t.within, t.own, fun buf' hlength hagree => ?_⟩
  rw [hrun, hlength]
  exact t.tolerant buf' hlength hagree

theorem Traces.list (depth : Nat) : Traces (parseList depth) ListSpans := by
  induction depth with
  | zero =>
    intro cur l c h
    cases h
  | succ depth ih =>
    refine .after (.i32 _) (fun version => .after (.u32 _) (fun flags => ?_))
    refine getLength (g := fun n => do
      return .mk version flags (← parsePairs (parseList depth) (n + 1) 0)) (fun n => ?_)
      (fun _ => rfl)
    refine (pairs ih (n + 1) 0).map _ (fun pairs spans h => ?_)
    rw [ListSpans, h, NvList.pairsIn]

/-! ## The loop ends by itself -/

/-- A list, where every loop may make `extra` turns more. -/
def parseListWith (extra : Nat) : (depth : Nat) → Read NvList
  | 0 => fun cur => .error (.malformed "nesting deeper than MAX_DEPTH" cur.pos)
  | depth + 1 => do
    let version ← Read.i32 "nvlist version"
    let flags ← Read.u32 "nvlist flags"
    let cur ← get
    return .mk version flags
      (← parsePairs (parseListWith extra depth) (cur.buf.length + 1 + extra) 0)

def parsePackedWith (extra : Nat) (buf : List UInt8) : Except ParseError NvList :=
  if buf.length < 4 then .error (.truncated 4 buf.length)
  else if buf.getD 0 0 ≠ 1 then .error (.malformed "XDR encoding byte" 0)
  else (parseListWith extra (nvMaxDepth + 1) { buf, pos := 4 }).map Prod.fst

/-- A turn that finds a pair goes forward in the same bytes. -/
theorem nextPair_forward {nested : Read NvList} {found : Nat} {cur c : Cursor}
    {pair : String × Value} (h : nextPair nested found cur = .ok (some pair, c)) :
    c.buf = cur.buf ∧ cur.pos < c.pos ∧ c.pos ≤ cur.buf.length := by
  obtain ⟨encoded, decoded, -, -, h⟩ := nextPair_ok.mp h
  rcases h with ⟨-, hnone, -⟩ | ⟨-, hmin, hfits, _, _, -, -, rfl⟩
  · cases hnone
  · exact ⟨rfl, by simp only; omega, hfits⟩

/-- With more turns than bytes left, more of them change nothing. -/
theorem parsePairs_enough {nested : Read NvList} {fuel fuel' found : Nat} {cur : Cursor}
    (hfuel : cur.buf.length - cur.pos < fuel) (hfuel' : cur.buf.length - cur.pos < fuel') :
    parsePairs nested fuel found cur = parsePairs nested fuel' found cur := by
  induction fuel generalizing fuel' found cur with
  | zero => exact absurd hfuel (Nat.not_lt_zero _)
  | succ fuel ih =>
    obtain ⟨more, rfl⟩ : ∃ more, fuel' = more + 1 := ⟨fuel' - 1, by omega⟩
    rw [parsePairs_succ, parsePairs_succ]
    show (nextPair nested found cur >>= _) = (nextPair nested found cur >>= _)
    cases hnext : nextPair nested found cur with
    | error e => rfl
    | ok p =>
      obtain ⟨next, c⟩ := p
      cases next with
      | none => rfl
      | some pair =>
        obtain ⟨hbuf, hforward, hinside⟩ := nextPair_forward hnext
        have hrest : parsePairs nested fuel (found + 1) c = parsePairs nested more (found + 1) c :=
          ih (by rw [hbuf]; omega) (by rw [hbuf]; omega)
        show (parsePairs nested fuel (found + 1) c >>= _) =
          (parsePairs nested more (found + 1) c >>= _)
        rw [hrest]

theorem parseListWith_eq (extra depth : Nat) : parseListWith extra depth = parseList depth := by
  induction depth with
  | zero => rfl
  | succ depth ih =>
    rw [parseListWith, parseList, ih]
    refine bind_congr (fun version => bind_congr (fun flags => funext (fun cur => ?_)))
    have hsame : parsePairs (parseList depth) (cur.buf.length + 1 + extra) 0 cur =
      parsePairs (parseList depth) (cur.buf.length + 1) 0 cur :=
      parsePairs_enough (by omega) (by omega)
    show (parsePairs (parseList depth) (cur.buf.length + 1 + extra) 0 cur >>= _) =
      (parsePairs (parseList depth) (cur.buf.length + 1) 0 cur >>= _)
    rw [hsame]

/-- A packed list that is read is a list read behind the four bytes of its header. -/
theorem parsePacked_ok {buf : List UInt8} {l : NvList} :
    parsePacked buf = .ok l ↔ 4 ≤ buf.length ∧ buf[0]? = some 1 ∧
      ∃ c, parseList (nvMaxDepth + 1) ⟨buf, 4⟩ = .ok (l, c) := by
  rw [parsePacked]
  cases buf with
  | nil => simp
  | cons b rest =>
    rw [List.getD_cons_zero]
    split
    · simp only [reduceCtorEq, false_iff, not_and]
      omega
    · split
      · rename_i hbyte
        simp [hbyte]
      · rename_i hshort hbyte
        cases parseList (nvMaxDepth + 1) ⟨b :: rest, 4⟩ with
        | error e => simp [Except.map]
        | ok p =>
          obtain ⟨l', c⟩ := p
          simp [Except.map, not_not.mp hbyte] at hshort ⊢
          omega

/-- Parsing ends whatever the bytes are, every pair that it yields is decoded from the bytes of
its own stated size, and what stands in the bodies of unknown type does not matter. -/
theorem parsePacked_spans (buf : List UInt8) :
    (∀ extra, parsePackedWith extra buf = parsePacked buf) ∧
    ∀ l, parsePacked buf = .ok l → ∃ spans : List Span, spans.map Span.pair = l.pairsIn ∧
      (∀ s ∈ spans, s.Within 4 buf.length ∧
        ∀ buf', AgreeOn s.start s.stop buf buf' → s.Decodes buf') ∧
      ∀ buf', buf'.length = buf.length → AgreeOff spans 0 buf.length buf buf' →
        parsePacked buf' = .ok l := by
  refine ⟨fun extra => ?_, fun l h => ?_⟩
  · rw [parsePackedWith, parsePacked, parseListWith_eq]
  · obtain ⟨hlength, hbyte, c, hlist⟩ := parsePacked_ok.mp h
    obtain ⟨spans, hpairs, t⟩ := Traces.list _ _ _ _ hlist hlength
    have hend : c.pos ≤ buf.length := t.inside
    refine ⟨spans, hpairs, fun s hs => ⟨(t.within s hs).mono le_rfl hend, t.own s hs⟩, ?_⟩
    intro buf' hlength' hagree
    refine parsePacked_ok.mpr ⟨by rw [hlength']; exact hlength, ?_, _, t.tolerant buf' hlength' ?_⟩
    · rw [hagree 0 le_rfl (by omega) (fun s hs _ hin => ?_), hbyte]
      have hw := t.within s hs
      have hfirst : 4 ≤ s.start := hw.start
      have hthen := hw.body
      omega
    · exact fun i hlo hhi => hagree i (Nat.zero_le _) (hhi.trans_le hend)

end Ondisk
end ZvolRescue
