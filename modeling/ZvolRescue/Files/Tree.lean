import ZvolRescue.Files.Extract
import ZvolRescue.Lib.Text
import ZvolRescue.Zpl.Lookup

/-!
# The paths of a tree

What a walk of a tree meets has the components of its start and then the names that lead to it
(`mem_listing_iff`), and nothing that is met before it lies at its path or below
(`listing_order`).
-/

namespace ZvolRescue
namespace Files

open Zpl Zpl.Filesystem

theorem components_nil : components [] = [] := by decide

theorem components_joinRaw {rawPrefix name : List UInt8} (h : GoodName name) :
    components (joinRaw rawPrefix name) = components rawPrefix ++ [name] :=
  parts_joinRaw h.part

theorem head_joinRaw {rawPrefix name : List UInt8} (h : GoodName name)
    (hrel : rawPrefix.head? ≠ some 47) : (joinRaw rawPrefix name).head? ≠ some 47 := by
  rw [joinRaw]
  by_cases hempty : rawPrefix = []
  · rw [if_pos hempty]
    intro hhead
    exact h.slash (List.mem_of_head? hhead)
  · rw [if_neg hempty, List.head?_append_of_ne_nil _ hempty]
    exact hrel

/-- No part of a path has a slash. -/
theorem slash_notMem_splitOn (path : List UInt8) :
    ∀ part ∈ path.splitOn 47, (47 : UInt8) ∉ part :=
  Lib.notMem_of_mem_splitOn 47 path

/-- A path without its empty parts. -/
def trimmed (path : List UInt8) : List UInt8 :=
  [47].intercalate ((path.splitOn 47).filter (fun c => c ≠ []))

theorem components_trimmed (path : List UInt8) : components (trimmed path) = components path := by
  have hparts : ∀ part ∈ (path.splitOn 47).filter (fun c => c ≠ []), (47 : UInt8) ∉ part :=
    fun part hpart => slash_notMem_splitOn path part (List.mem_filter.mp hpart).1
  rw [trimmed, components, components]
  by_cases hempty : (path.splitOn 47).filter (fun c => c ≠ []) = []
  · have hall : ∀ part ∈ path.splitOn 47, part = [] := by
      intro part hpart
      by_contra hne
      have hmem : part ∈ (path.splitOn 47).filter (fun c => c ≠ []) :=
        List.mem_filter.mpr ⟨hpart, by simpa using hne⟩
      rw [hempty] at hmem
      cases hmem
    rw [hempty]
    symm
    rw [show List.intercalate [47] ([] : List (List UInt8)) = [] from rfl, List.splitOn_nil]
    rw [List.filter_eq_nil_iff.mpr]
    · rfl
    · intro part hpart
      simp [hall part hpart]
  · rw [List.splitOn_intercalate 47 hparts hempty, List.filter_filter]
    refine List.filter_congr (fun part _ => ?_)
    by_cases hnil : part = []
    · simp [hnil]
    · simp [hnil]

theorem head_trimmed (path : List UInt8) : (trimmed path).head? ≠ some 47 := by
  rw [trimmed]
  cases hparts : (path.splitOn 47).filter (fun c => c ≠ []) with
  | nil => simp [List.intercalate]
  | cons part parts =>
    have hpart : part ∈ (path.splitOn 47).filter (fun c => c ≠ []) := by
      rw [hparts]
      exact List.mem_cons_self
    obtain ⟨hmem, hne⟩ := List.mem_filter.mp hpart
    have hne : part ≠ [] := by simpa using hne
    have hslash := slash_notMem_splitOn path part hmem
    have hsplit : ∃ rest, [47].intercalate (part :: parts) = part ++ rest := by
      cases parts with
      | nil => exact ⟨[], by simp [List.intercalate]⟩
      | cons p ps => exact ⟨_, by simp [List.intercalate, List.intersperse]; rfl⟩
    obtain ⟨rest, hrest⟩ := hsplit
    rw [hrest, List.head?_append_of_ne_nil _ hne]
    intro hhead
    exact hslash (List.mem_of_head? hhead)

section Listing

variable {fs : Filesystem} {object : Nat} {pathPrefix : String} {rawPrefix : List UInt8}

/-- The entry of a name that lies on a path below a start. -/
structure EntryAt (fs : Filesystem) (start path : Path) (d : DirEntry) (e : Entry) : Prop where
  components : components e.rawPath = start ++ path
  relative : e.rawPath.head? ≠ some 47
  object : e.object = d.object
  znode : e.znode = (fs.znode d.object).toOption

theorem entryAt_entryOf {d : DirEntry} (h : GoodName d.raw) (hrel : rawPrefix.head? ≠ some 47) :
    EntryAt fs (components rawPrefix) [d.raw] d (fs.entryOf pathPrefix rawPrefix d) :=
  ⟨components_joinRaw h, head_joinRaw h hrel, rfl, rfl⟩

theorem EntryAt.below {start path : Path} {name : List UInt8} {d : DirEntry} {e : Entry}
    (h : EntryAt fs (start ++ [name]) path d e) : EntryAt fs start (name :: path) d e :=
  ⟨by rw [h.components, List.append_assoc, List.singleton_append], h.relative, h.object,
    h.znode⟩

/-- What is listed is a name below the start, or a directory that could not be read. -/
theorem of_mem_listing (levels : Nat) : ∀ (object : Nat) (pathPrefix : String)
    (rawPrefix : List UInt8), fs.TreeAt object → rawPrefix.head? ≠ some 47 →
      ∀ e ∈ fs.listing levels object pathPrefix rawPrefix,
        (∃ path d, fs.Below object path d ∧ path.length ≤ levels ∧
          EntryAt fs (components rawPrefix) path d e) ∨
        ∃ path, components e.rawPath = components rawPrefix ++ path ∧ e.znode = none ∧
          (path = [] ∧ e.object = object ∨
            ∃ d, fs.Below object path d ∧ fs.isDir d = true ∧ d.object = e.object) := by
  induction levels with
  | zero =>
    intro object pathPrefix rawPrefix _ _ e he
    cases he
  | succ levels ih =>
    intro object pathPrefix rawPrefix htree hrel e he
    rw [listing] at he
    cases hread : fs.readDir object with
    | error err =>
      rw [hread] at he
      rw [List.mem_singleton.mp he]
      exact Or.inr ⟨[], (List.append_nil _).symm, rfl, Or.inl ⟨rfl, rfl⟩⟩
    | ok entries =>
      rw [hread] at he
      obtain ⟨d, hd, he⟩ := List.mem_flatMap.mp he
      have hmem : d ∈ fs.children object := by
        rw [children_of_ok hread]
        exact hd
      have hgood := htree.names _ d (.here hmem)
      have hentry : EntryAt fs (components rawPrefix) [d.raw] d
          (fs.entryOf pathPrefix rawPrefix d) := entryAt_entryOf hgood hrel
      rcases List.mem_cons.mp he with rfl | he
      · exact Or.inl ⟨[d.raw], d, .here hmem, by simp, hentry⟩
      · cases hdir : fs.isDir d with
        | false =>
          rw [hdir] at he
          cases he
        | true =>
          rw [hdir, if_pos rfl] at he
          rcases ih _ _ _ (htree.child hmem hdir) hentry.relative e he with
            ⟨path, d', hbelow, hlength, hat⟩ | ⟨path, hpath, hnone, hdirAt⟩
          · rw [hentry.components] at hat
            exact Or.inl ⟨d.raw :: path, d', .there hmem hdir hbelow, Nat.succ_le_succ hlength,
              hat.below⟩
          · rw [hentry.components, List.append_assoc] at hpath
            refine Or.inr ⟨d.raw :: path, hpath, hnone, Or.inr ?_⟩
            rcases hdirAt with ⟨rfl, hobject⟩ | ⟨c, hc, hcdir, hobject⟩
            · exact ⟨d, .here hmem, hdir, hobject.symm⟩
            · exact ⟨c, .there hmem hdir hc, hcdir, hobject⟩

/-- A name that lies no deeper than the walk goes is listed. -/
theorem mem_listing (levels : Nat) : ∀ (object : Nat) (pathPrefix : String)
    (rawPrefix : List UInt8), fs.TreeAt object → rawPrefix.head? ≠ some 47 →
      ∀ path d, fs.Below object path d → path.length ≤ levels →
        ∃ e ∈ fs.listing levels object pathPrefix rawPrefix, EntryAt fs (components rawPrefix) path d e := by
  induction levels with
  | zero =>
    intro object pathPrefix rawPrefix _ _ path d hbelow hlength
    exact absurd (List.eq_nil_of_length_eq_zero (Nat.le_zero.mp hlength)) hbelow.ne_nil
  | succ levels ih =>
    intro object pathPrefix rawPrefix htree hrel path d hbelow hlength
    cases hbelow with
    | here hmem =>
      obtain ⟨entries, hok, hin⟩ := mem_children hmem
      refine ⟨fs.entryOf pathPrefix rawPrefix d, ?_,
        entryAt_entryOf (htree.names _ d (.here hmem)) hrel⟩
      rw [listing, hok]
      exact List.mem_flatMap.mpr ⟨d, hin, List.mem_cons_self⟩
    | there hmem hdir hbelow =>
      rename_i c path
      obtain ⟨entries, hok, hin⟩ := mem_children hmem
      let entry := fs.entryOf pathPrefix rawPrefix c
      have hentry : EntryAt fs (components rawPrefix) [c.raw] c entry :=
        entryAt_entryOf (htree.names _ c (.here hmem)) hrel
      obtain ⟨e, he, hat⟩ := ih c.object entry.path entry.rawPath (htree.child hmem hdir)
        hentry.relative path d hbelow (Nat.le_of_succ_le_succ hlength)
      rw [hentry.components] at hat
      refine ⟨e, ?_, hat.below⟩
      rw [listing, hok]
      refine List.mem_flatMap.mpr ⟨c, hin, List.mem_cons_of_mem _ ?_⟩
      rw [hdir, if_pos rfl]
      exact he

/-- An entry that follows another lies neither above it nor at its path, unless it stands for a
directory that could not be read. -/
def Follows (e e' : Entry) : Prop :=
  components e'.rawPath <+: components e.rawPath →
    components e'.rawPath = components e.rawPath ∧ e'.znode = none

theorem listing_order (levels : Nat) : ∀ (object : Nat) (pathPrefix : String)
    (rawPrefix : List UInt8), fs.TreeAt object → rawPrefix.head? ≠ some 47 →
      (fs.listing levels object pathPrefix rawPrefix).Pairwise Follows := by
  induction levels with
  | zero =>
    intro object pathPrefix rawPrefix _ _
    exact List.Pairwise.nil
  | succ levels ih =>
    intro object pathPrefix rawPrefix htree hrel
    rw [listing]
    cases hread : fs.readDir object with
    | error err => exact List.pairwise_singleton _ _
    | ok entries =>
      have hmem : ∀ d ∈ entries, d ∈ fs.children object := by
        intro d hd
        rw [children_of_ok hread]
        exact hd
      have hnodup : (entries.map DirEntry.raw).Nodup := by
        have hall := htree.nodup object (Or.inl rfl)
        rwa [children_of_ok hread] at hall
      have hentry : ∀ d ∈ entries, EntryAt fs (components rawPrefix) [d.raw] d
          (fs.entryOf pathPrefix rawPrefix d) :=
        fun d hd => entryAt_entryOf (htree.names _ d (.here (hmem d hd))) hrel
      have hpath : ∀ d ∈ entries, ∀ e ∈ fs.listed levels pathPrefix rawPrefix d,
          ∃ path, components e.rawPath = components rawPrefix ++ d.raw :: path := by
        intro d hd e he
        rcases List.mem_cons.mp he with rfl | he
        · exact ⟨[], (hentry d hd).components⟩
        · cases hdir : fs.isDir d with
          | false =>
            rw [hdir] at he
            cases he
          | true =>
            rw [hdir, if_pos rfl] at he
            rcases of_mem_listing levels _ _ _ (htree.child (hmem d hd) hdir)
              (hentry d hd).relative e he with
              ⟨path, _, -, -, hat⟩ | ⟨path, heq, -⟩
            · rw [(hentry d hd).components] at hat
              exact ⟨path, hat.below.components⟩
            · rw [(hentry d hd).components, List.append_assoc] at heq
              exact ⟨path, heq⟩
      show (entries.flatMap (fs.listed levels pathPrefix rawPrefix)).Pairwise Follows
      rw [List.pairwise_flatMap]
      refine ⟨fun d hd => List.pairwise_cons.mpr ⟨fun e he => ?_, ?_⟩, ?_⟩
      · cases hdir : fs.isDir d with
        | false =>
          rw [hdir] at he
          cases he
        | true =>
          rw [hdir, if_pos rfl] at he
          -- Below a name lies more than the name, but for the mark of an unreadable directory.
          intro hpre
          have hle := hpre.length_le
          rcases of_mem_listing levels _ _ _ (htree.child (hmem d hd) hdir)
              (hentry d hd).relative e he with
            ⟨path, _, hbelow, -, hat⟩ | ⟨path, heq, hnone, -⟩
          · have hpos := List.length_pos_of_ne_nil hbelow.ne_nil
            rw [hat.components, List.length_append] at hle
            omega
          · refine ⟨?_, hnone⟩
            rw [heq, List.length_append] at hle
            have hnil : path = [] := List.eq_nil_of_length_eq_zero (by omega)
            rw [heq, hnil, List.append_nil]
      · cases hdir : fs.isDir d with
        | false => exact List.Pairwise.nil
        | true => exact ih _ _ _ (htree.child (hmem d hd) hdir) (hentry d hd).relative
      · refine (List.pairwise_map.mp hnodup).imp_of_mem (fun {d d'} hd hd' hne e he e' he' => ?_)
        intro hpre
        obtain ⟨path, heq⟩ := hpath d hd e he
        obtain ⟨path', heq'⟩ := hpath d' hd' e' he'
        rw [heq, heq', List.prefix_append_right_inj, List.cons_prefix_cons] at hpre
        exact absurd hpre.1.symm hne

end Listing

end Files
end ZvolRescue
