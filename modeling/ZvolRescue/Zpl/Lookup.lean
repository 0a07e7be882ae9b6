import ZvolRescue.Zpl.Opened
import ZvolRescue.Zpl.Walk

/-!
# Looking up what a walk meets

Where the names of each directory are proper the path of what a walk meets has for its parts the
names that lead there, and these are looked up by their bytes (`walkFrom_names`).  So a path that
a walk tells is looked up as what the walk met (`lookupBytes_walk`).
-/

namespace ZvolRescue
namespace Zpl

open Lib Ondisk Zio Dmu

/-! ## Parts of a path -/

/-- A name that is one part of a path. -/
structure PartName (name : List UInt8) : Prop where
  ne_nil : name ≠ []
  ne_dot : name ≠ [46]
  slash : (47 : UInt8) ∉ name

theorem Filesystem.GoodName.part {name : List UInt8} (h : Filesystem.GoodName name) :
    PartName name :=
  ⟨h.ne_nil, h.ne_dot, h.slash⟩

theorem parts_nil : parts [] = [] := by decide

theorem parts_name {name : List UInt8} (h : PartName name) : parts name = [name] := by
  rw [parts, List.splitOn_eq_singleton h.slash]
  simp [h.ne_nil, h.ne_dot]

theorem parts_joinRaw {rawPrefix name : List UInt8} (h : PartName name) :
    parts (joinRaw rawPrefix name) = parts rawPrefix ++ [name] := by
  rw [joinRaw]
  by_cases hempty : rawPrefix = []
  · rw [if_pos hempty, hempty, parts_nil, parts_name h, List.nil_append]
  · have hname := parts_name h
    rw [parts] at hname
    rw [if_neg hempty, parts, List.splitOn_append_cons_self, List.filter_append, hname, parts]

theorem parts_foldl {path : List (List UInt8)} (h : ∀ name ∈ path, PartName name) :
    ∀ rawPrefix, parts (path.foldl joinRaw rawPrefix) = parts rawPrefix ++ path := by
  induction path with
  | nil =>
    intro rawPrefix
    exact (List.append_nil _).symm
  | cons name path ih =>
    intro rawPrefix
    rw [List.foldl_cons, ih (fun n hn => h n (List.mem_cons_of_mem _ hn)),
      parts_joinRaw (h name List.mem_cons_self), List.append_assoc, List.singleton_append]

/-- The names of a directory are parts of paths, and no name stands twice. -/
structure ProperNames (entries : List DirEntry) : Prop where
  nodup : (entries.map DirEntry.raw).Nodup
  parts : ∀ e ∈ entries, PartName e.raw

namespace Filesystem

variable {fs : Filesystem}

/-! ## Names that lead to an object -/

theorem Below.partNames {object : Nat} {path : List (List UInt8)} {e : DirEntry}
    (he : fs.Below object path e)
    (h : ∀ dir, fs.DirAt object dir → ProperNames (fs.children dir)) :
    ∀ name ∈ path, PartName name := by
  induction he with
  | here hmem =>
    intro name hname
    rw [List.mem_singleton.mp hname]
    exact (h _ (Or.inl rfl)).parts _ hmem
  | there hmem hdir _ ih =>
    intro name hname
    rcases List.mem_cons.mp hname with rfl | hname
    · exact (h _ (Or.inl rfl)).parts _ hmem
    · exact ih (fun dir hat => h dir (TreeAt.dirAt_child hmem hdir hat)) name hname

theorem RouteTo.names {path : List (List UInt8)} {dir : Nat} (h : fs.RouteTo fs.root path dir) :
    fs.Names path dir := by
  rcases h with h | ⟨d, hd, -, hobject⟩
  · exact Or.inl h
  · exact Or.inr ⟨d, hd, hobject⟩

variable (hnames : ∀ dir, fs.DirAt fs.root dir → ProperNames (fs.children dir))

include hnames

theorem Names.partNames {path : List (List UInt8)} {object : Nat} (h : fs.Names path object) :
    ∀ name ∈ path, PartName name := by
  rcases h with ⟨rfl, -⟩ | ⟨d, hd, -⟩
  · intro name hname
    cases hname
  · exact hd.partNames hnames

/-- The parts of a path that a walk from the root tells are names that lead to what it met. -/
theorem walkFrom_names {e : Entry} (he : e ∈ fs.walkFrom fs.root "" [] true) :
    fs.Names (parts e.rawPath) e.object := by
  obtain ⟨visits, -, -, hroutes, hperm, -⟩ := fs.walk_visits fs.root "" []
  obtain ⟨v, hv, hreport⟩ := List.mem_flatMap.mp (hperm.mem_iff.mp he)
  obtain ⟨path, -, hroute, hraw⟩ := hroutes v hv
  have hparts : ∀ path object, fs.Names path object → parts (path.foldl joinRaw []) = path := by
    intro path object hpath
    rw [parts_foldl (Names.partNames hnames hpath), parts_nil, List.nil_append]
  rw [report] at hreport
  cases hread : fs.readDir v.object with
  | error err =>
    rw [hread] at hreport
    rw [List.mem_singleton.mp hreport]
    simp only [hraw, hparts _ _ hroute.names]
    exact hroute.names
  | ok entries =>
    rw [hread] at hreport
    obtain ⟨d, hd, rfl⟩ := List.mem_map.mp hreport
    have hchild : d ∈ fs.children v.object := by
      rw [children_of_ok hread]
      exact hd
    have hbelow : fs.Names (path ++ [d.raw]) d.object := Or.inr ⟨d, hroute.below hchild, rfl⟩
    have hpath : joinRaw v.rawPrefix d.raw = (path ++ [d.raw]).foldl joinRaw [] := by
      rw [List.foldl_append, ← hraw]
      rfl
    simp only [entryOf, hpath, hparts _ _ hbelow]
    exact hbelow

/-- Where paths are looked up by the bytes of their names first, what a walk from the root tells
is looked up as what it met. -/
theorem LooksUp.walk (hlooks : fs.LooksUp) {e : Entry}
    (he : e ∈ fs.walkFrom fs.root "" [] true) : fs.lookupBytes e.rawPath = .ok e.object :=
  hlooks.names (fun dir hat => (hnames dir hat).nodup) (walkFrom_names hnames he)

end Filesystem

/-! ## Opened datasets -/

namespace Opened

/-- A name that is there by its bytes wins over every other. -/
theorem found_exact (o : Opened) (texts : Texts) {entries : List DirEntry} {e : DirEntry}
    (he : e ∈ entries) : ∃ d, o.found texts entries e.raw = some d ∧ d.raw = e.raw := by
  cases hfind : entries.find? (fun d => d.raw = e.raw) with
  | none =>
    have hne := List.find?_eq_none.mp hfind e he
    simp at hne
  | some d =>
    refine ⟨d, ?_, by simpa using List.find?_some hfind⟩
    rw [found, hfind]
    rfl

/-- Whatever the properties of the dataset are and the tables of the program, the path of what a
walk from the root meets is looked up as its object, and no other name wins over one that is
there by its bytes. -/
theorem lookupBytes_walk (o : Opened) (texts : Texts)
    (hnames : ∀ dir entries, (o.filesystem texts).DirAt o.root dir →
      o.readDir dir = .ok entries → ProperNames entries) :
    (∀ e ∈ (o.filesystem texts).walkFrom o.root "" [] true,
      o.lookupBytes texts e.rawPath = .ok e.object) ∧
    ∀ entries, ∀ e ∈ entries, ∃ d, o.found texts entries e.raw = some d ∧ d.raw = e.raw := by
  refine ⟨fun e he => ?_, fun entries e he => o.found_exact texts he⟩
  have hproper : ∀ dir, (o.filesystem texts).DirAt (o.filesystem texts).root dir →
      ProperNames ((o.filesystem texts).children dir) := by
    intro dir hat
    cases hread : o.readDir dir with
    | error err =>
      have hnone : (o.filesystem texts).children dir = [] := by
        have hread' : (o.filesystem texts).readDir dir = .error err := hread
        rw [Filesystem.children, hread']
        rfl
      rw [hnone]
      exact ⟨List.nodup_nil, fun e he => by cases he⟩
    | ok entries =>
      have hread' : (o.filesystem texts).readDir dir = .ok entries := hread
      rw [Filesystem.children_of_ok hread']
      exact hnames dir entries hat hread
  exact Filesystem.LooksUp.walk hproper (o.filesystem_looksUp texts) he

/-- Names that are told apart by their case only, below a directory of such a name. -/
def twoCases : Opened where
  object n :=
    if n = 1 then .ok (smallDir [([97], 2, 8), ([65], 3, 4)])
    else if n = 3 then .ok (smallDir [([66], 4, 8), ([98], 5, 8)])
    else .error .noMember
  root := 1
  properties name := if name = "casesensitivity" then some 1 else some 0x10
  znode n := .ok (smallZnode (if n = 3 then 4 else 8) 0 0 none)
  size_lt n z h := by
    cases h
    exact Nat.pow_pos (Nat.succ_pos 1)
  symlinkTarget _ _ := .error .noMember

theorem twoCases_names (dir : Nat) (entries : List DirEntry)
    (h : twoCases.readDir dir = .ok entries) : ProperNames entries := by
  have hroot : (twoCases.readDir 1).toOption.map (fun es => es.map DirEntry.raw) =
      some [[65], [97]] := by decide +kernel
  have hsub : (twoCases.readDir 3).toOption.map (fun es => es.map DirEntry.raw) =
      some [[66], [98]] := by decide +kernel
  have hraw : entries.map DirEntry.raw = [[65], [97]] ∨
      entries.map DirEntry.raw = [[66], [98]] := by
    by_cases h1 : dir = 1
    · rw [h1] at h
      rw [h] at hroot
      exact Or.inl (Option.some.inj hroot)
    · by_cases h3 : dir = 3
      · rw [h3] at h
        rw [h] at hsub
        exact Or.inr (Option.some.inj hsub)
      · have herror : twoCases.readDir dir = .error .noMember := by
          simp [readDir, readZap, twoCases, h1, h3, Except.map]
        rw [h] at herror
        cases herror
  have hpart : ∀ c : UInt8, c ≠ 46 → c ≠ 47 → PartName [c] := fun c hdot hslash =>
    ⟨List.cons_ne_nil _ _, by simpa using hdot, by simpa using hslash.symm⟩
  have hparts : ∀ name ∈ entries.map DirEntry.raw, PartName name := by
    rcases hraw with hraw | hraw
    · rw [hraw]
      simp [hpart]
    · rw [hraw]
      simp [hpart]
  refine ⟨?_, fun e he => hparts _ (List.mem_map_of_mem he)⟩
  rcases hraw with hraw | hraw
  · rw [hraw]
    decide
  · rw [hraw]
    decide

theorem lookupBytes_walk_twoCases :
    ((twoCases.filesystem smallTexts).walkFrom 1 "" [] true).map (fun e => (e.rawPath, e.object)) =
      [([65], 3), ([65, 47, 66], 4), ([65, 47, 98], 5), ([97], 2)] ∧
    (∀ e ∈ (twoCases.filesystem smallTexts).walkFrom 1 "" [] true,
      twoCases.lookupBytes smallTexts e.rawPath = .ok e.object) :=
  ⟨by decide +kernel,
    (lookupBytes_walk twoCases smallTexts (fun dir entries _ h => twoCases_names dir entries h)).1⟩

end Opened

end Zpl
end ZvolRescue
