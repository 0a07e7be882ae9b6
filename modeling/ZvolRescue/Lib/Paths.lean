import Mathlib.Data.List.Infix

/-!
# Paths of bytes

A path is a string of bytes, and its components are what a system resolves one after another.
Pushing a name appends one component (`components_push`), so what is pushed below a root stays
below it.
-/

namespace ZvolRescue
namespace Lib
namespace Paths

inductive Component where
  | rootDir
  | curDir
  | parentDir
  | normal (name : List UInt8)
  deriving DecidableEq, Repr

/-- What the parts between the slashes say; those that are empty or a dot say nothing. -/
def bodyOf (parts : List (List UInt8)) : List Component :=
  parts.filterMap (fun part =>
    if part = [] ∨ part = [46] then none
    else if part = [46, 46] then some .parentDir
    else some (.normal part))

/-- The components of a path.  A dot counts only at the start of a relative path. -/
def components (p : List UInt8) : List Component :=
  (if p.head? = some 47 then [.rootDir]
    else if (p.splitOn 47).head? = some [46] then [.curDir] else []) ++ bodyOf (p.splitOn 47)

/-- Append to a path; an absolute one takes its place. -/
def push (p c : List UInt8) : List UInt8 :=
  if c.head? = some 47 then c
  else if p = [] ∨ p.getLast? = some 47 then p ++ c
  else p ++ 47 :: c

/-- The path without its last component. -/
def parent (q : List Component) : Option (List Component) :=
  match q.getLast? with
  | none | some .rootDir => none
  | some _ => some q.dropLast

/-- A part of a path that is the name of something in a directory. -/
structure IsName (name : List UInt8) : Prop where
  ne_nil : name ≠ []
  ne_dot : name ≠ [46]
  ne_dots : name ≠ [46, 46]
  slash : (47 : UInt8) ∉ name
  nul : (0 : UInt8) ∉ name

/-- The components are those of the root and then at least one name. -/
def StrictlyBelow (root q : List Component) : Prop :=
  ∃ names, names ≠ [] ∧ (∀ name ∈ names, IsName name) ∧ q = root ++ names.map .normal

section Push

variable {name : List UInt8}

theorem bodyOf_name (h : IsName name) : bodyOf [name] = [.normal name] := by
  simp [bodyOf, h.ne_nil, h.ne_dot, h.ne_dots]

theorem bodyOf_append (parts parts' : List (List UInt8)) :
    bodyOf (parts ++ parts') = bodyOf parts ++ bodyOf parts' := List.filterMap_append

theorem components_name (h : IsName name) : components name = [.normal name] := by
  have hhead : name.head? ≠ some 47 := fun hhead => h.slash (List.mem_of_head? hhead)
  rw [components, if_neg hhead, List.splitOn_eq_singleton h.slash, List.head?_cons,
    if_neg (fun hdot => h.ne_dot (Option.some.inj hdot)), bodyOf_name h, List.nil_append]

theorem components_slash (q rest : List UInt8) :
    components (q ++ 47 :: rest) =
      (if (q ++ [47]).head? = some 47 then [.rootDir]
        else if (q.splitOn 47).head? = some [46] then [.curDir] else []) ++
        (bodyOf (q.splitOn 47) ++ bodyOf (rest.splitOn 47)) := by
  have hhead : (q ++ 47 :: rest).head? = (q ++ [47]).head? := by
    cases q with
    | nil => rfl
    | cons b q => rfl
  rw [components, hhead, List.splitOn_append_cons_self, bodyOf_append,
    List.head?_append_of_ne_nil _ (List.splitOn_ne_nil 47 q)]

/-- A name that is pushed becomes the last component. -/
theorem components_push (h : IsName name) (p : List UInt8) :
    components (push p name) = components p ++ [.normal name] := by
  have hhead : name.head? ≠ some 47 := fun hhead => h.slash (List.mem_of_head? hhead)
  have hbody : bodyOf (name.splitOn 47) = [.normal name] := by
    rw [List.splitOn_eq_singleton h.slash, bodyOf_name h]
  rw [push, if_neg hhead]
  by_cases hempty : p = []
  · have hnone : components [] = [] := by decide
    rw [if_pos (Or.inl hempty), hempty, List.nil_append, components_name h, hnone, List.nil_append]
  by_cases hslash : p.getLast? = some 47
  · obtain ⟨q, rfl⟩ := List.getLast?_eq_some_iff.mp hslash
    have hnone : bodyOf (([] : List UInt8).splitOn 47) = [] := by decide
    rw [if_pos (Or.inr hslash), List.append_assoc, List.singleton_append, components_slash,
      components_slash, hbody, hnone, List.append_nil, List.append_assoc]
  · have hfirst : (p ++ [47]).head? = p.head? := List.head?_append_of_ne_nil _ hempty
    rw [if_neg (not_or.mpr ⟨hempty, hslash⟩), components_slash, hfirst, hbody, components,
      List.append_assoc]

end Push

end Paths
end Lib
end ZvolRescue
