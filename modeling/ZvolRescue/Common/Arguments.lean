import Mathlib.Algebra.GroupWithZero.Nat
import Mathlib.Tactic.Tauto
import ZvolRescue.Lib.Shell

/-!
# A pool specification as arguments

`asArguments` writes a specification out for a shell, and a command reads it back.  The quoting is
exact (`shellWords_asArguments`), but not every field is written, and a value that begins with a
dash is read as an option: a specification comes back if and only if it has none of these
(`asArguments_roundTrips_iff`).
-/

namespace ZvolRescue
namespace Common

open Lib

abbrev Word := List Char

/-- The members of a pool, and how it is opened and read. -/
structure PoolSpec where
  devices : List Word
  image : List Word
  hints : Option Word
  searchOrder : Bool
  poolGuid : Option Word
  assumeMember : List Word
  ignoreUnknownFeatures : Bool
  map : List Word
  deviceMayFail : Bool
  surfaceScanOnDevice : Bool
deriving DecidableEq

def PoolSpec.empty : PoolSpec :=
  { devices := [], image := [], hints := none, searchOrder := false, poolGuid := none
    assumeMember := [], ignoreUnknownFeatures := false, map := [], deviceMayFail := false
    surfaceScanOnDevice := false }

/-! ## Writing -/

/-- A character that an argument may have bare. -/
def isSafe (c : Char) : Bool := c.isAlphanum || c ∈ "._/=@:+,-".toList

/-- One argument for a shell. -/
def shellQuote (s : Word) : Word := if s ≠ [] ∧ s.all isSafe then s else singleQuoted s

/-- The specification as command-line arguments. -/
def PoolSpec.asArguments (s : PoolSpec) : List Word :=
  s.devices.map shellQuote ++
    s.image.flatMap (fun i => ["--image".toList, shellQuote i]) ++
    (match s.hints with
      | some h => ["--hints".toList, shellQuote h]
      | none => []) ++
    (if s.searchOrder then ["--search-order".toList] else []) ++
    (match s.poolGuid with
      | some g => ["--pool-guid".toList, shellQuote g]
      | none => []) ++
    s.assumeMember.flatMap (fun a => ["--assume-member".toList, shellQuote a])

/-! ## The options of a command -/

/-- The options that take a value. -/
inductive Opt where
  | image
  | hints
  | poolGuid
  | assumeMember
  | map
deriving DecidableEq

def Opt.name : Opt → Word
  | .image => "--image".toList
  | .hints => "--hints".toList
  | .poolGuid => "--pool-guid".toList
  | .assumeMember => "--assume-member".toList
  | .map => "--map".toList

/-- One more value, in front of those that come later.  A path is not empty, and some options are
given once. -/
def Opt.put (o : Opt) (v : Word) (s : PoolSpec) : Option PoolSpec :=
  match o with
  | .image => if v = [] then none else some { s with image := v :: s.image }
  | .hints => if v = [] ∨ s.hints ≠ none then none else some { s with hints := some v }
  | .poolGuid => if s.poolGuid ≠ none then none else some { s with poolGuid := some v }
  | .assumeMember => some { s with assumeMember := v :: s.assumeMember }
  | .map => some { s with map := v :: s.map }

/-- The options that take none. -/
inductive Flag where
  | searchOrder
  | ignoreUnknownFeatures
  | deviceMayFail
  | surfaceScanOnDevice
deriving DecidableEq

def Flag.name : Flag → Word
  | .searchOrder => "--search-order".toList
  | .ignoreUnknownFeatures => "--ignore-unknown-features".toList
  | .deviceMayFail => "--device-may-fail".toList
  | .surfaceScanOnDevice => "--surface-scan-on-device".toList

/-- A flag is given once. -/
def Flag.raise (f : Flag) (s : PoolSpec) : Option PoolSpec :=
  match f with
  | .searchOrder => if s.searchOrder then none else some { s with searchOrder := true }
  | .ignoreUnknownFeatures =>
    if s.ignoreUnknownFeatures then none else some { s with ignoreUnknownFeatures := true }
  | .deviceMayFail => if s.deviceMayFail then none else some { s with deviceMayFail := true }
  | .surfaceScanOnDevice =>
    if s.surfaceScanOnDevice then none else some { s with surfaceScanOnDevice := true }

/-- A word that is a value: it does not begin with a dash, or is nothing else. -/
def Plain (w : Word) : Prop := w = ['-'] ∨ w.head? ≠ some '-'

instance (w : Word) : Decidable (Plain w) := inferInstanceAs (Decidable (_ ∨ _))

/-- What words say, by the rules of the command-line parser: a value is a member, an option has its
value in the next word or behind an equals sign, and behind two dashes everything is a member. -/
inductive Reads : List Word → PoolSpec → Prop
  | done : Reads [] .empty
  | device {w : Word} {rest : List Word} {s : PoolSpec} : Plain w → w ≠ [] → Reads rest s →
      Reads (w :: rest) { s with devices := w :: s.devices }
  | given {o : Opt} {v : Word} {rest : List Word} {s s' : PoolSpec} : Plain v → Reads rest s →
      o.put v s = some s' → Reads (o.name :: v :: rest) s'
  | joined {o : Opt} {v : Word} {rest : List Word} {s s' : PoolSpec} : Reads rest s →
      o.put v s = some s' → Reads ((o.name ++ '=' :: v) :: rest) s'
  | flag {f : Flag} {rest : List Word} {s s' : PoolSpec} : Reads rest s → f.raise s = some s' →
      Reads (f.name :: rest) s'
  | escape {rest : List Word} : (∀ w ∈ rest, w ≠ []) →
      Reads (['-', '-'] :: rest) { PoolSpec.empty with devices := rest }

/-- `--search-order` requires `--hints`. -/
def PoolSpec.Hinted (s : PoolSpec) : Prop := s.searchOrder = true → s.hints ≠ none

instance (s : PoolSpec) : Decidable s.Hinted := inferInstanceAs (Decidable (_ → _))

/-- A command-line parser that does what is documented of the one that is used. -/
structure Documented (parse : List Word → Option PoolSpec) : Prop where
  reads : ∀ words s, parse words = some s → Reads words s ∧ s.Hinted
  accepts : ∀ words s, Reads words s → s.Hinted → parse words = some s

/-! ## The words of a specification -/

/-- The arguments without their quotes. -/
def PoolSpec.words (s : PoolSpec) : List Word :=
  s.devices ++ s.image.flatMap (fun i => [Opt.name .image, i]) ++
    s.hints.toList.flatMap (fun h => [Opt.name .hints, h]) ++
    (if s.searchOrder then [Flag.name .searchOrder] else []) ++
    s.poolGuid.toList.flatMap (fun g => [Opt.name .poolGuid, g]) ++
    s.assumeMember.flatMap (fun a => [Opt.name .assumeMember, a])

/-- The words that the other fields would take, which are not written. -/
def PoolSpec.dropped (s : PoolSpec) : List Word :=
  (if s.ignoreUnknownFeatures then [Flag.name .ignoreUnknownFeatures] else []) ++
    s.map.flatMap (fun m => [Opt.name .map, m]) ++
    (if s.deviceMayFail then [Flag.name .deviceMayFail] else []) ++
    (if s.surfaceScanOnDevice then [Flag.name .surfaceScanOnDevice] else [])

theorem ordinary_of_safe {c : Char} (h : isSafe c = true) : isOrdinary c = true := by
  have hrefused : "|&;<>()$`\n*?[#~{}!".toList.all (fun d => !isSafe d) = true := by
    decide
  have hspecial : isSpecial c = false := by
    rw [isSpecial, decide_eq_false_iff_not]
    intro hc
    have hc := List.all_eq_true.mp hrefused c hc
    rw [h] at hc
    cases hc
  have hne : ∀ d, isSafe d = false → c ≠ d := by
    rintro d hd rfl
    rw [hd] at h
    cases h
  have hsingle := hne '\'' (by decide +kernel)
  have hdouble := hne '"' (by decide +kernel)
  have hescape := hne '\\' (by decide)
  have hblank := hne ' ' (by decide)
  have htab := hne '\t' (by decide)
  simp [isOrdinary, isBlankChar, hspecial, hsingle, hdouble, hescape, hblank, htab]

/-- A quoted argument is one word. -/
theorem spells_shellQuote (w : Word) : Spells (shellQuote w) w := by
  rw [shellQuote]
  by_cases h : w ≠ [] ∧ w.all isSafe = true
  · rw [if_pos h]
    exact spells_ordinary h.1 (fun c hc => ordinary_of_safe (List.all_eq_true.mp h.2 c hc))
  · rw [if_neg h]
    exact spells_singleQuoted w

theorem shellQuote_opt (o : Opt) : shellQuote o.name = o.name := by
  cases o <;> decide

theorem shellQuote_flag (f : Flag) : shellQuote f.name = f.name := by
  cases f <;> decide

theorem asArguments_eq (s : PoolSpec) : s.asArguments = s.words.map shellQuote := by
  have himage := shellQuote_opt .image
  have hhints := shellQuote_opt .hints
  have hguid := shellQuote_opt .poolGuid
  have hassume := shellQuote_opt .assumeMember
  have horder := shellQuote_flag .searchOrder
  have hflag : (if s.searchOrder then ["--search-order".toList] else []) =
      (if s.searchOrder then [Flag.name .searchOrder] else []).map shellQuote := by
    split
    · rw [List.map_cons, horder]
      rfl
    · rfl
  have hhint : (match s.hints with
      | some h => ["--hints".toList, shellQuote h]
      | none => []) = (s.hints.toList.flatMap (fun h => [Opt.name .hints, h])).map shellQuote := by
    cases s.hints with
    | none => rfl
    | some h =>
      show _ = [shellQuote (Opt.name .hints), shellQuote h]
      rw [hhints]
      rfl
  have hpool : (match s.poolGuid with
      | some g => ["--pool-guid".toList, shellQuote g]
      | none => []) =
        (s.poolGuid.toList.flatMap (fun g => [Opt.name .poolGuid, g])).map shellQuote := by
    cases s.poolGuid with
    | none => rfl
    | some g =>
      show _ = [shellQuote (Opt.name .poolGuid), shellQuote g]
      rw [hguid]
      rfl
  rw [PoolSpec.asArguments, PoolSpec.words, hflag, hhint, hpool]
  simp only [List.map_append, List.map_flatMap, List.map_cons, List.map_nil, himage, hassume]
  rfl

/-- The shell reads the arguments as what they were before they were quoted. -/
theorem shellWords_asArguments (s : PoolSpec) :
    shellWords (spaced s.asArguments) = some s.words := by
  apply shellWords_spaced
  rw [asArguments_eq, List.forall₂_map_left_iff]
  exact List.forall₂_same.mpr (fun w _ => spells_shellQuote w)

/-! ## What comes back -/

/-- The values of a specification. -/
def PoolSpec.values (s : PoolSpec) : List Word :=
  s.devices ++ s.image ++ s.hints.toList ++ s.poolGuid.toList ++ s.assumeMember ++ s.map

/-- The values that are paths. -/
def PoolSpec.paths (s : PoolSpec) : List Word := s.devices ++ s.image ++ s.hints.toList

/-- A specification that comes back from its arguments. -/
structure PoolSpec.Repeats (s : PoolSpec) : Prop where
  written : s.ignoreUnknownFeatures = false ∧ s.map = [] ∧ s.deviceMayFail = false ∧
    s.surfaceScanOnDevice = false
  hinted : s.Hinted
  plain : ∀ w ∈ s.values, Plain w
  named : ∀ w ∈ s.paths, w ≠ []

/-- The characters of some words. -/
def total (words : List Word) : Nat := (words.map List.length).sum

@[simp] theorem total_nil : total [] = 0 := rfl

@[simp] theorem total_cons (w : Word) (words : List Word) :
    total (w :: words) = w.length + total words := by
  simp [total]

@[simp] theorem total_append (words words' : List Word) :
    total (words ++ words') = total words + total words' := by
  simp [total]

/-- The characters that it takes to write all of a specification. -/
def PoolSpec.weight (s : PoolSpec) : Nat := total s.words + total s.dropped

/-- The characters of an option with its values. -/
def Opt.weight (o : Opt) (values : List Word) : Nat :=
  total (values.flatMap (fun v => [o.name, v]))

def Flag.weight (f : Flag) (raised : Bool) : Nat := if raised then f.name.length else 0

@[simp] theorem Opt.weight_nil (o : Opt) : o.weight [] = 0 := rfl

@[simp] theorem Opt.weight_cons (o : Opt) (v : Word) (values : List Word) :
    o.weight (v :: values) = o.name.length + v.length + o.weight values := by
  simp [Opt.weight, Nat.add_assoc]

theorem Flag.total_eq (f : Flag) (raised : Bool) :
    total (if raised then [f.name] else []) = f.weight raised := by
  cases raised with
  | true => rfl
  | false => rfl

theorem PoolSpec.weight_eq (s : PoolSpec) :
    s.weight = total s.devices + Opt.weight .image s.image + Opt.weight .hints s.hints.toList +
      Flag.weight .searchOrder s.searchOrder + Opt.weight .poolGuid s.poolGuid.toList +
      Opt.weight .assumeMember s.assumeMember +
      (Flag.weight .ignoreUnknownFeatures s.ignoreUnknownFeatures + Opt.weight .map s.map +
        Flag.weight .deviceMayFail s.deviceMayFail +
        Flag.weight .surfaceScanOnDevice s.surfaceScanOnDevice) := by
  simp only [PoolSpec.weight, PoolSpec.words, PoolSpec.dropped, total_append, Flag.total_eq]
  rfl

theorem Opt.weight_put {o : Opt} {v : Word} {s s' : PoolSpec} (h : o.put v s = some s') :
    s'.weight = o.name.length + v.length + s.weight := by
  rw [PoolSpec.weight_eq, PoolSpec.weight_eq]
  cases o with
  | image =>
    rw [Opt.put, Option.ite_none_left_eq_some, Option.some.injEq] at h
    obtain ⟨_, rfl⟩ := h
    simp only [Opt.weight_cons]
    omega
  | hints =>
    rw [Opt.put, Option.ite_none_left_eq_some, Option.some.injEq] at h
    obtain ⟨hnone, rfl⟩ := h
    have hhints : s.hints = none := by simpa using (not_or.mp hnone).2
    simp only [hhints, Option.toList, Opt.weight_cons, Opt.weight_nil]
    omega
  | poolGuid =>
    rw [Opt.put, Option.ite_none_left_eq_some, Option.some.injEq] at h
    obtain ⟨hnone, rfl⟩ := h
    have hguid : s.poolGuid = none := by simpa using hnone
    simp only [hguid, Option.toList, Opt.weight_cons, Opt.weight_nil]
    omega
  | assumeMember =>
    rw [Opt.put, Option.some.injEq] at h
    subst h
    simp only [Opt.weight_cons]
    omega
  | map =>
    rw [Opt.put, Option.some.injEq] at h
    subst h
    simp only [Opt.weight_cons]
    omega

theorem Flag.weight_raise {f : Flag} {s s' : PoolSpec} (h : f.raise s = some s') :
    s'.weight = f.name.length + s.weight := by
  have htrue : ∀ g : Flag, g.weight true = g.name.length := fun _ => rfl
  have hfalse : ∀ g : Flag, g.weight false = 0 := fun _ => rfl
  rw [PoolSpec.weight_eq, PoolSpec.weight_eq]
  cases f with
  | searchOrder =>
    rw [Flag.raise, Option.ite_none_left_eq_some, Option.some.injEq, Bool.not_eq_true] at h
    obtain ⟨hnot, rfl⟩ := h
    simp only [hnot, htrue, hfalse]
    omega
  | ignoreUnknownFeatures =>
    rw [Flag.raise, Option.ite_none_left_eq_some, Option.some.injEq, Bool.not_eq_true] at h
    obtain ⟨hnot, rfl⟩ := h
    simp only [hnot, htrue, hfalse]
    omega
  | deviceMayFail =>
    rw [Flag.raise, Option.ite_none_left_eq_some, Option.some.injEq, Bool.not_eq_true] at h
    obtain ⟨hnot, rfl⟩ := h
    simp only [hnot, htrue, hfalse]
    omega
  | surfaceScanOnDevice =>
    rw [Flag.raise, Option.ite_none_left_eq_some, Option.some.injEq, Bool.not_eq_true] at h
    obtain ⟨hnot, rfl⟩ := h
    simp only [hnot, htrue, hfalse]
    omega

/-- What an option adds to the values and the paths. -/
theorem Opt.mem_put {o : Opt} {v : Word} {s s' : PoolSpec} (h : o.put v s = some s') :
    (∀ w ∈ s'.values, w = v ∨ w ∈ s.values) ∧ ∀ w ∈ s'.paths, w ≠ [] ∨ w ∈ s.paths := by
  cases o with
  | image =>
    rw [Opt.put, Option.ite_none_left_eq_some, Option.some.injEq] at h
    obtain ⟨hne, rfl⟩ := h
    simp only [PoolSpec.values, PoolSpec.paths, List.mem_append, List.mem_cons]
    refine ⟨fun w hw => by tauto, ?_⟩
    rintro w ((hw | rfl | hw) | hw)
    · exact .inr (.inl (.inl hw))
    · exact .inl hne
    · exact .inr (.inl (.inr hw))
    · exact .inr (.inr hw)
  | hints =>
    rw [Opt.put, Option.ite_none_left_eq_some, Option.some.injEq] at h
    obtain ⟨hnone, rfl⟩ := h
    simp only [PoolSpec.values, PoolSpec.paths, List.mem_append, Option.toList, List.mem_singleton]
    refine ⟨fun w hw => by tauto, ?_⟩
    rintro w (hw | rfl)
    · exact .inr (.inl hw)
    · exact .inl (not_or.mp hnone).1
  | poolGuid =>
    rw [Opt.put, Option.ite_none_left_eq_some, Option.some.injEq] at h
    obtain ⟨_, rfl⟩ := h
    simp only [PoolSpec.values, List.mem_append, Option.toList, List.mem_singleton]
    exact ⟨fun w hw => by tauto, fun w hw => .inr hw⟩
  | assumeMember =>
    rw [Opt.put, Option.some.injEq] at h
    subst h
    simp only [PoolSpec.values, List.mem_append, List.mem_cons]
    exact ⟨fun w hw => by tauto, fun w hw => .inr hw⟩
  | map =>
    rw [Opt.put, Option.some.injEq] at h
    subst h
    simp only [PoolSpec.values, List.mem_append, List.mem_cons]
    exact ⟨fun w hw => by tauto, fun w hw => .inr hw⟩

theorem Flag.mem_raise {f : Flag} {s s' : PoolSpec} (h : f.raise s = some s') :
    s'.values = s.values ∧ s'.paths = s.paths := by
  cases f <;>
    · rw [Flag.raise, Option.ite_none_left_eq_some, Option.some.injEq] at h
      obtain ⟨_, rfl⟩ := h
      exact ⟨rfl, rfl⟩

/-- Words say no more than they are long, and no more than plain values where they say as much. -/
theorem Reads.weight_le {words : List Word} {s : PoolSpec} (h : Reads words s) :
    s.weight ≤ total words ∧ (∀ w ∈ s.paths, w ≠ []) ∧
      (s.weight = total words → ∀ w ∈ s.values, Plain w) := by
  induction h with
  | done =>
    exact ⟨Nat.le_refl _, by simp [PoolSpec.empty, PoolSpec.paths],
      fun _ => by simp [PoolSpec.empty, PoolSpec.values]⟩
  | @device w rest s hplain hne _ ih =>
    obtain ⟨hle, hpaths, hvalues⟩ := ih
    have hweight : PoolSpec.weight { s with devices := w :: s.devices } = w.length + s.weight := by
      rw [PoolSpec.weight_eq, PoolSpec.weight_eq]
      simp only [total_cons]
      omega
    rw [hweight, total_cons]
    refine ⟨by omega, ?_, ?_⟩
    · intro p hp
      rcases List.mem_cons.mp hp with rfl | hp
      · exact hne
      · exact hpaths p hp
    · intro heq p hp
      rcases List.mem_cons.mp hp with rfl | hp
      · exact hplain
      · exact hvalues (by omega) p hp
  | @given o v rest s s' hplain _ hput ih =>
    obtain ⟨hle, hpaths, hvalues⟩ := ih
    obtain ⟨hmem, hmempaths⟩ := Opt.mem_put hput
    rw [Opt.weight_put hput, total_cons, total_cons]
    refine ⟨by omega, ?_, ?_⟩
    · intro p hp
      rcases hmempaths p hp with hne | hp
      · exact hne
      · exact hpaths p hp
    · intro heq p hp
      rcases hmem p hp with rfl | hp
      · exact hplain
      · exact hvalues (by omega) p hp
  | @joined o v rest s s' _ hput ih =>
    obtain ⟨hle, hpaths, _⟩ := ih
    have hmempaths := (Opt.mem_put hput).2
    rw [Opt.weight_put hput, total_cons, List.length_append, List.length_cons]
    refine ⟨by omega, ?_, fun heq => by omega⟩
    intro p hp
    rcases hmempaths p hp with hne | hp
    · exact hne
    · exact hpaths p hp
  | @flag f rest s s' _ hraise ih =>
    obtain ⟨hle, hpaths, hvalues⟩ := ih
    obtain ⟨hmem, hmempaths⟩ := Flag.mem_raise hraise
    rw [Flag.weight_raise hraise, total_cons, hmem, hmempaths]
    exact ⟨by omega, hpaths, fun heq => hvalues (by omega)⟩
  | @escape rest hne =>
    have hweight : PoolSpec.weight { PoolSpec.empty with devices := rest } = total rest := by
      rw [PoolSpec.weight_eq]
      rfl
    rw [hweight, total_cons]
    refine ⟨by omega, ?_, fun heq => ?_⟩
    · intro p hp
      apply hne
      simpa [PoolSpec.paths, PoolSpec.empty] using hp
    · simp only [List.length_cons, List.length_nil] at heq
      omega

/-- A specification that its own words say is written in full. -/
theorem repeats_of_reads {s : PoolSpec} (h : Reads s.words s) (hhinted : s.Hinted) :
    s.Repeats := by
  obtain ⟨hle, hpaths, hvalues⟩ := h.weight_le
  have hdropped : total s.dropped = 0 := by
    rw [PoolSpec.weight] at hle
    omega
  have hflag : ∀ (f : Flag) (raised : Bool), f.weight raised = 0 → raised = false := by
    intro f raised hzero
    cases raised with
    | false => rfl
    | true =>
      cases f <;> exact absurd hzero (by decide +kernel)
  have hmap : Opt.weight .map s.map = 0 → s.map = [] := by
    intro hzero
    cases hs : s.map with
    | nil => rfl
    | cons m rest =>
      have hname : 0 < (Opt.name .map).length := by decide
      rw [hs, Opt.weight_cons] at hzero
      omega
  have hsum : Flag.weight .ignoreUnknownFeatures s.ignoreUnknownFeatures + Opt.weight .map s.map +
      Flag.weight .deviceMayFail s.deviceMayFail +
      Flag.weight .surfaceScanOnDevice s.surfaceScanOnDevice = 0 := by
    simp only [PoolSpec.dropped, total_append, Flag.total_eq] at hdropped
    exact hdropped
  have hignored := hflag .ignoreUnknownFeatures s.ignoreUnknownFeatures (by omega)
  have hfails := hflag .deviceMayFail s.deviceMayFail (by omega)
  have hscans := hflag .surfaceScanOnDevice s.surfaceScanOnDevice (by omega)
  refine ⟨⟨hignored, hmap (by omega), hfails, hscans⟩, hhinted, hvalues ?_, hpaths⟩
  rw [PoolSpec.weight, hdropped, Nat.add_zero]

/-! ## What is written in full comes back -/

section Written

variable {rest : List Word} {s : PoolSpec}

theorem reads_devices (h : Reads rest s) {values : List Word}
    (hvalues : ∀ v ∈ values, Plain v ∧ v ≠ []) :
    Reads (values ++ rest) { s with devices := values ++ s.devices } := by
  induction values with
  | nil => exact h
  | cons v values ih =>
    obtain ⟨hplain, hne⟩ := hvalues v List.mem_cons_self
    exact .device hplain hne (ih (fun w hw => hvalues w (List.mem_cons_of_mem _ hw)))

theorem reads_images (h : Reads rest s) {values : List Word}
    (hvalues : ∀ v ∈ values, Plain v ∧ v ≠ []) :
    Reads (values.flatMap (fun v => [Opt.name .image, v]) ++ rest)
      { s with image := values ++ s.image } := by
  induction values with
  | nil => exact h
  | cons v values ih =>
    obtain ⟨hplain, hne⟩ := hvalues v List.mem_cons_self
    have htail := ih (fun w hw => hvalues w (List.mem_cons_of_mem _ hw))
    exact .given hplain htail (by rw [Opt.put, if_neg hne, List.cons_append])

theorem reads_assumed (h : Reads rest s) {values : List Word} (hvalues : ∀ v ∈ values, Plain v) :
    Reads (values.flatMap (fun v => [Opt.name .assumeMember, v]) ++ rest)
      { s with assumeMember := values ++ s.assumeMember } := by
  induction values with
  | nil => exact h
  | cons v values ih =>
    have htail := ih (fun w hw => hvalues w (List.mem_cons_of_mem _ hw))
    exact .given (hvalues v List.mem_cons_self) htail rfl

theorem reads_guid (h : Reads rest s) (hnone : s.poolGuid = none) {guid : Option Word}
    (hplain : ∀ v ∈ guid.toList, Plain v) :
    Reads (guid.toList.flatMap (fun v => [Opt.name .poolGuid, v]) ++ rest)
      { s with poolGuid := guid } := by
  cases guid with
  | none =>
    have hsame : { s with poolGuid := none } = s := by rw [← hnone]
    rw [hsame]
    exact h
  | some g => exact .given (hplain g (by simp)) h (by rw [Opt.put, if_neg (by simp [hnone])])

theorem reads_order (h : Reads rest s) (hnot : s.searchOrder = false) (raised : Bool) :
    Reads ((if raised then [Flag.name .searchOrder] else []) ++ rest)
      { s with searchOrder := raised } := by
  cases raised with
  | false =>
    have hsame : { s with searchOrder := false } = s := by rw [← hnot]
    rw [hsame]
    exact h
  | true => exact .flag h (by rw [Flag.raise, if_neg (by simp [hnot])])

theorem reads_hints (h : Reads rest s) (hnone : s.hints = none) {hints : Option Word}
    (hvalues : ∀ v ∈ hints.toList, Plain v ∧ v ≠ []) :
    Reads (hints.toList.flatMap (fun v => [Opt.name .hints, v]) ++ rest)
      { s with hints := hints } := by
  cases hints with
  | none =>
    have hsame : { s with hints := none } = s := by rw [← hnone]
    rw [hsame]
    exact h
  | some v =>
    obtain ⟨hplain, hne⟩ := hvalues v (by simp)
    exact .given hplain h (by rw [Opt.put, if_neg (by simp [hnone, hne])])

end Written

/-- The words of a specification that is written in full say it. -/
theorem reads_of_repeats {s : PoolSpec} (h : s.Repeats) : Reads s.words s := by
  obtain ⟨hignored, hmap, hfails, hscans⟩ := h.written
  have hplain := h.plain
  have hnamed := h.named
  simp only [PoolSpec.values, List.mem_append] at hplain
  simp only [PoolSpec.paths, List.mem_append] at hnamed
  have hassumed := reads_assumed .done (fun v hv => hplain v (.inl (.inr hv)))
  have hguid := reads_guid hassumed rfl (fun v hv => hplain v (.inl (.inl (.inr hv))))
  have horder := reads_order hguid rfl s.searchOrder
  have hhints := reads_hints horder rfl
    (fun v hv => ⟨hplain v (.inl (.inl (.inl (.inr hv)))), hnamed v (.inr hv)⟩)
  have himages := reads_images hhints
    (fun v hv => ⟨hplain v (.inl (.inl (.inl (.inl (.inr hv))))), hnamed v (.inl (.inr hv))⟩)
  have hdevices := reads_devices himages
    (fun v hv => ⟨hplain v (.inl (.inl (.inl (.inl (.inl hv))))), hnamed v (.inl (.inl hv))⟩)
  have hall : Reads s.words { s with
      ignoreUnknownFeatures := false, map := [], deviceMayFail := false
      surfaceScanOnDevice := false } := by
    simpa only [PoolSpec.words, PoolSpec.empty, List.append_assoc, List.append_nil] using hdevices
  have hsame : { s with
      ignoreUnknownFeatures := false, map := [], deviceMayFail := false
      surfaceScanOnDevice := false } = s := by
    cases s
    simp only at hignored hmap hfails hscans
    rw [hignored, hmap, hfails, hscans]
  rwa [hsame] at hall

/-- A specification is what a command reads of its arguments if and only if its other options are
not given, `--search-order` has its hints, no value but a lone dash begins with a dash and no path
is empty. -/
theorem asArguments_roundTrips_iff {parse : List Word → Option PoolSpec} (h : Documented parse)
    (s : PoolSpec) : (shellWords (spaced s.asArguments)).bind parse = some s ↔ s.Repeats := by
  rw [shellWords_asArguments]
  constructor
  · intro hparse
    obtain ⟨hreads, hhinted⟩ := h.reads _ _ hparse
    exact repeats_of_reads hreads hhinted
  · intro hrepeats
    exact h.accepts _ _ (reads_of_repeats hrepeats) hrepeats.hinted

/-! ## A parser -/

/-- What kind of word it is. -/
inductive Kind where
  | escape
  | value
  | flag (f : Flag)
  | option (o : Opt)
  | joined (o : Opt) (v : Word)
  | unknown
deriving DecidableEq

def flagNamed (w : Word) : Option Flag :=
  [Flag.searchOrder, .ignoreUnknownFeatures, .deviceMayFail, .surfaceScanOnDevice].find?
    (fun f => f.name = w)

def optNamed (w : Word) : Option Opt :=
  [Opt.image, .hints, .poolGuid, .assumeMember, .map].find? (fun o => o.name = w)

def classify (w : Word) : Kind :=
  if w = ['-', '-'] then .escape
  else if Plain w then .value
  else match flagNamed w, optNamed w with
    | some f, _ => .flag f
    | none, some o => .option o
    | none, none =>
      match optNamed (w.takeWhile (· ≠ '=')), w.dropWhile (· ≠ '=') with
      | some o, _ :: v => .joined o v
      | _, _ => .unknown

/-- A parser by these rules. -/
def readWords : List Word → Option PoolSpec
  | [] => some .empty
  | w :: rest =>
    match classify w with
    | .escape =>
      if rest.all (fun w => !w.isEmpty) then some { PoolSpec.empty with devices := rest } else none
    | .value =>
      if w = [] then none
      else (readWords rest).map (fun s => { s with devices := w :: s.devices })
    | .flag f => (readWords rest).bind f.raise
    | .option o =>
      match rest with
      | [] => none
      | v :: rest => if Plain v then (readWords rest).bind (o.put v) else none
    | .joined o v => (readWords rest).bind (o.put v)
    | .unknown => none

def parseWords (words : List Word) : Option PoolSpec :=
  (readWords words).bind (fun s => if s.Hinted then some s else none)

theorem classify_plain {w : Word} (h : Plain w) : classify w = .value := by
  have hne : w ≠ ['-', '-'] := by
    rintro rfl
    exact absurd h (by decide)
  rw [classify, if_neg hne, if_pos h]

theorem classify_flag (f : Flag) : classify f.name = .flag f := by
  cases f <;> decide

theorem classify_option (o : Opt) : classify o.name = .option o := by
  cases o <;> decide

/-- No name has an equals sign in it. -/
theorem not_named {w : Word} (h : '=' ∈ w) : flagNamed w = none ∧ optNamed w = none := by
  have hflag : ∀ f : Flag, '=' ∉ f.name := fun f => by cases f <;> decide
  have hopt : ∀ o : Opt, '=' ∉ o.name := fun o => by cases o <;> decide
  rw [flagNamed, optNamed, List.find?_eq_none, List.find?_eq_none]
  constructor
  · intro f _ hf
    exact hflag f (of_decide_eq_true hf ▸ h)
  · intro o _ ho
    exact hopt o (of_decide_eq_true ho ▸ h)

theorem classify_joined (o : Opt) (v : Word) : classify (o.name ++ '=' :: v) = .joined o v := by
  have hhead : ∃ tail, o.name = '-' :: '-' :: tail ∧ tail ≠ [] := by
    cases o <;> exact ⟨_, rfl, by decide⟩
  have hname : o.name.all (fun c => decide (c ≠ '=')) = true := by
    cases o <;> decide
  have hopt : optNamed o.name = some o := by
    cases o <;> decide
  obtain ⟨hflag, hnone⟩ := not_named (w := o.name ++ '=' :: v) (by simp)
  have hescape : o.name ++ '=' :: v ≠ ['-', '-'] := by
    obtain ⟨tail, hlong, _⟩ := hhead
    rw [hlong]
    simp
  have hplain : ¬ Plain (o.name ++ '=' :: v) := by
    obtain ⟨tail, hlong, _⟩ := hhead
    rw [hlong]
    simp [Plain]
  rw [classify, if_neg hescape, if_neg hplain, hflag, hnone,
    List.takeWhile_append_of_pos (List.all_eq_true.mp hname),
    List.dropWhile_append_of_pos (List.all_eq_true.mp hname)]
  simp [hopt]

/-- What a word is of which the kind is known. -/
def Kind.Is : Kind → Word → Prop
  | .escape, w => w = ['-', '-']
  | .value, w => Plain w
  | .flag f, w => w = f.name
  | .option o, w => w = o.name
  | .joined o v, w => w = o.name ++ '=' :: v
  | .unknown, _ => True

theorem opt_of_named {w : Word} {o : Opt} (h : optNamed w = some o) : o.name = w := by
  simpa using List.find?_some h

theorem is_of_classify {w : Word} {k : Kind} (h : classify w = k) : k.Is w := by
  rw [← h, classify]
  by_cases hescape : w = ['-', '-']
  · rw [if_pos hescape]
    exact hescape
  · rw [if_neg hescape]
    by_cases hplain : Plain w
    · rw [if_pos hplain]
      exact hplain
    · rw [if_neg hplain]
      cases hflag : flagNamed w with
      | some f =>
        have hname : f.name = w := by simpa using List.find?_some hflag
        exact hname.symm
      | none =>
        cases hopt : optNamed w with
        | some o => exact (opt_of_named hopt).symm
        | none =>
          simp only
          split
          · next o c v ho hrest =>
            have hc : c = '=' := by
              have hhead := List.head?_dropWhile_not (fun c => decide (c ≠ '=')) w
              rw [hrest] at hhead
              simpa using hhead
            subst hc
            show w = o.name ++ '=' :: v
            rw [opt_of_named ho, ← hrest, List.takeWhile_append_dropWhile]
          · exact True.intro

theorem reads_of_readWords : ∀ words s, readWords words = some s → Reads words s := by
  intro words
  fun_induction readWords words with
  | case1 =>
    intro s h
    cases h
    exact .done
  | case2 w rest hkind hnamed =>
    intro s h
    have hw : w = ['-', '-'] := is_of_classify hkind
    cases h
    rw [hw]
    exact .escape (fun v hv => by simpa using List.all_eq_true.mp hnamed v hv)
  | case5 w rest hkind hne ih =>
    intro s h
    obtain ⟨s', hs', rfl⟩ := Option.map_eq_some_iff.mp h
    have hplain : Plain w := is_of_classify hkind
    exact .device hplain hne (ih s' hs')
  | case6 w rest f hkind ih =>
    intro s h
    obtain ⟨s', hs', hraise⟩ := Option.bind_eq_some_iff.mp h
    have hw : w = f.name := is_of_classify hkind
    rw [hw]
    exact .flag (ih s' hs') hraise
  | case8 w o hkind v rest hplain ih =>
    intro s h
    obtain ⟨s', hs', hput⟩ := Option.bind_eq_some_iff.mp h
    have hw : w = o.name := is_of_classify hkind
    rw [hw]
    exact .given hplain (ih s' hs') hput
  | case10 w rest o v hkind ih =>
    intro s h
    obtain ⟨s', hs', hput⟩ := Option.bind_eq_some_iff.mp h
    have hw : w = o.name ++ '=' :: v := is_of_classify hkind
    rw [hw]
    exact .joined (ih s' hs') hput
  | case3 | case4 | case7 | case9 | case11 =>
    intro s h
    cases h

theorem readWords_of_reads {words : List Word} {s : PoolSpec} (h : Reads words s) :
    readWords words = some s := by
  induction h with
  | done => rfl
  | device hplain hne _ ih =>
    rw [readWords, classify_plain hplain]
    simp only [if_neg hne, ih, Option.map_some]
  | @given o v rest s s' hplain _ hput ih =>
    rw [readWords, classify_option]
    simp only [if_pos hplain, ih, Option.bind_some, hput]
  | @joined o v rest s s' _ hput ih =>
    rw [readWords, classify_joined]
    simp only [ih, Option.bind_some, hput]
  | @flag f rest s s' _ hraise ih =>
    rw [readWords, classify_flag]
    simp only [ih, Option.bind_some, hraise]
  | @escape rest hne =>
    have hkind : classify ['-', '-'] = .escape := if_pos rfl
    have hall : rest.all (fun w => !w.isEmpty) = true := by
      rw [List.all_eq_true]
      intro w hw
      simpa using hne w hw
    rw [readWords, hkind]
    simp only [if_pos hall]

/-- There is a parser that does what is documented. -/
theorem parseWords_documented : Documented parseWords where
  reads := by
    intro words s h
    obtain ⟨s', hs', hhinted⟩ := Option.bind_eq_some_iff.mp h
    rw [Option.ite_none_right_eq_some] at hhinted
    obtain ⟨hh, heq⟩ := hhinted
    cases heq
    exact ⟨reads_of_readWords _ _ hs', hh⟩
  accepts := by
    intro words s h hhinted
    rw [parseWords, readWords_of_reads h, Option.bind_some, if_pos hhinted]

/-- An image whose name needs quotes, with hints. -/
def quotedSpec : PoolSpec :=
  { PoolSpec.empty with
    image := ["it's a disk.img".toList], hints := some "/tmp/layout.json".toList
    searchOrder := true }

theorem asArguments_roundTrips_iff_quoted :
    (shellWords (spaced quotedSpec.asArguments)).bind parseWords = some quotedSpec :=
  (asArguments_roundTrips_iff parseWords_documented quotedSpec).mpr
    { written := by decide
      hinted := by decide
      plain := by decide
      named := by decide }

/-- An image with its imager's map. -/
def mappedSpec : PoolSpec :=
  { PoolSpec.empty with
    image := ["/tmp/a.img".toList], map := ["/tmp/a.img=/tmp/a.map".toList] }

/-- A device whose name begins with a dash. -/
def dashedSpec : PoolSpec := { PoolSpec.empty with devices := ["-x.img".toList] }

/-- The map is not written, and the name is read as an option. -/
theorem mappedSpec_lost :
    Documented parseWords ∧
    (shellWords (spaced mappedSpec.asArguments)).bind parseWords =
      some { mappedSpec with map := [] } ∧
    (shellWords (spaced mappedSpec.asArguments)).bind parseWords ≠ some mappedSpec ∧
    (shellWords (spaced dashedSpec.asArguments)).bind parseWords = none := by
  refine ⟨parseWords_documented, ?_, ?_, ?_⟩
  · decide
  · decide
  · decide

end Common
end ZvolRescue
