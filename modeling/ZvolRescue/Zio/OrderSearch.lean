import ZvolRescue.Dsl.Walk
import ZvolRescue.Extract.Dump
import ZvolRescue.Lib.Ranked
import ZvolRescue.Timeline.Candidates
import ZvolRescue.Zio.Layout

/-!
# Searching what a layout leaves open

A wrong order of the members of a RAID-Z vdev still reads, by parity.  It shows in the checksum
mismatches that are met on the way, so that every order is tried and the one with the fewest is
taken.  One vdev is settled after another; the layout found in the end is a reordering of the one
given and is never a worse one (`searchLayout_spec`).
-/

namespace ZvolRescue
namespace Zio

open Lib Dmu Scan
open ZvolRescue.Extract (Exit.usage Exit.unrecoverable)
open ZvolRescue.Timeline (Candidate uberblockCandidates)
open ZvolRescue.Topology (PoolAssembly)

/-- How a candidate layout fared when the pool was read through it. -/
structure Trial where
  layout : LayoutHints
  /-- The datasets that the walk reached, where it completed. -/
  datasets : Option Nat
  /-- The checksums that failed on the data as first read. -/
  mismatches : Nat

namespace Trial

/-- Whether the pool read at all through this layout. -/
def read (t : Trial) : Bool := t.datasets.isSome

/-- Fewer mismatches come first, then more datasets. -/
def rank (t : Trial) : Nat ×ₗ Natᵒᵈ := toLex (t.mismatches, OrderDual.toDual (t.datasets.getD 0))

end Trial

/-- The count of datasets at the newest TXG that reads. -/
def newestWalk {m : Type → Type} [Monad m] (reader : PoolReader m) (poolName : String) :
    List Candidate → m (Option Nat)
  | [] => pure none
  | c :: rest => do
    match ← Dsl.openMos reader c.ub with
    | .error _ => newestWalk reader poolName rest
    | .ok mos =>
      match ← Dsl.walk mos poolName with
      | .error _ => newestWalk reader poolName rest
      | .ok tree => pure (some tree.datasets.length)

def maxSearchedMembers : Nat := 7

/-- The orders of this vdev are searched. -/
def TopHint.searched (hint : TopHint) : Bool :=
  (hint.kind = "raidz" ∨ hint.kind = "draid") ∧ 2 ≤ hint.members.length

/-- The members as they were opened: their scans, and what reads a pool through them. -/
structure OpenMembers (σ : Type) where
  scans : List (Option DeviceScan)
  newReader : PoolAssembly → PoolReader (StateM σ)
  /-- The state of a reader that has read nothing. -/
  fresh : σ
  mismatches : σ → Nat

namespace OpenMembers

variable {σ : Type} (o : OpenMembers σ)

/-- Read the pool through a layout and report how well it fitted. -/
def tryLayout (layout : LayoutHints) : Trial :=
  let pool := layout.assemble
  let walked := (newestWalk (o.newReader pool) pool.name
    (uberblockCandidates o.scans pool.devices)).run o.fresh
  { layout, datasets := walked.1, mismatches := o.mismatches walked.2 }

/-- The trials that read, of every member order of one top-level vdev, best first. -/
def searchOrder (layout : LayoutHints) (top : Nat) : Option (Except String (List Trial)) :=
  let n := (layout.tops[top]?.map (fun t => t.members.length)).getD 0
  if n > maxSearchedMembers then
    some (.error (s!"{n} members is {n}! orderings — name the order in the layout, " ++
      "or split the search"))
  else
    (permutations layout top).map (fun layouts =>
      .ok (sortByKey Trial.rank ((layouts.map o.tryLayout).filter Trial.read)))

/-- The search over the tops that are left.  There is no answer where the source stops. -/
def searchTops : List (TopHint × Nat) → LayoutHints → Option (Except Nat LayoutHints)
  | [], out => some (.ok out)
  | (hint, top) :: rest, out =>
    if !hint.searched then searchTops rest out
    else
      match o.searchOrder out top with
      | none => none
      | some (.error _) => some (.error Exit.usage)
      | some (.ok []) => some (.error Exit.unrecoverable)
      | some (.ok (best :: _)) => searchTops rest best.layout

/-- Try the orders that a layout leaves open and keep the one the checksums accept. -/
def searchLayout (layout : LayoutHints) : Option (Except Nat LayoutHints) :=
  o.searchTops layout.tops.zipIdx layout

end OpenMembers

/-! ## Reorderings -/

theorem TopHint.members_self {hint : TopHint} {members : List (Option Nat)}
    (h : hint.members = members) : { hint with members } = hint := by
  subst h
  cases hint
  rfl

namespace LayoutHints

variable {layout out : LayoutHints} {top : Nat} {hint : TopHint} {members : List (Option Nat)}

/-- The same layout but for the order of the members of the vdevs that are searched. -/
structure Reorders (layout out : LayoutHints) : Prop where
  name : out.name = layout.name
  guid : out.guid = layout.guid
  ashift : out.ashift = layout.ashift
  length : out.tops.length = layout.tops.length
  tops : ∀ (top : Nat) (hint : TopHint), layout.tops[top]? = some hint →
    ∃ members : List (Option Nat), members.Perm hint.members ∧
      out.tops[top]? = some { hint with members } ∧
        (hint.searched = false → members = hint.members)

theorem Reorders.refl (layout : LayoutHints) : layout.Reorders layout where
  name := rfl
  guid := rfl
  ashift := rfl
  length := rfl
  tops := fun _ hint ht =>
    ⟨hint.members, List.Perm.refl _, ht.trans (congrArg some (TopHint.members_self rfl).symm),
      fun _ => rfl⟩

theorem getElem?_withMembers (i : Nat) : (layout.withMembers top members).tops[i]? =
    if top = i then layout.tops[i]?.map (fun t => { t with members }) else layout.tops[i]? := by
  rw [LayoutHints.withMembers, List.getElem?_modify]
  by_cases htop : top = i
  · simp only [if_pos htop]
    rfl
  · simp only [if_neg htop]
    exact Option.map_id_apply

theorem Reorders.withMembers (h : layout.Reorders out) (ht : layout.tops[top]? = some hint)
    (hsearched : hint.searched = true) (hperm : members.Perm hint.members) :
    layout.Reorders (out.withMembers top members) where
  name := h.name
  guid := h.guid
  ashift := h.ashift
  length := (List.length_modify _ _ _).trans h.length
  tops := by
    intro i other hi
    obtain ⟨members', hperm', hout, hkept⟩ := h.tops i other hi
    rw [getElem?_withMembers]
    by_cases htop : top = i
    · subst htop
      obtain rfl := Option.some.inj (ht.symm.trans hi)
      refine ⟨members, hperm, by rw [if_pos rfl, hout, Option.map_some], fun hnot => ?_⟩
      rw [hsearched] at hnot
      cases hnot
    · exact ⟨members', hperm', by rw [if_neg htop, hout], hkept⟩

/-- The order that a vdev has changes nothing. -/
theorem withMembers_self (ht : layout.tops[top]? = some hint) :
    layout.withMembers top hint.members = layout := by
  have htops : (layout.withMembers top hint.members).tops = layout.tops := by
    refine List.ext_getElem? (fun i => ?_)
    rw [getElem?_withMembers]
    by_cases htop : top = i
    · subst htop
      rw [if_pos rfl, ht]
      exact congrArg some (TopHint.members_self rfl)
    · rw [if_neg htop]
  exact congrArg (fun tops => { layout with tops }) htops

/-- The order that a vdev has is one of its orders. -/
theorem Reorders.own (h : layout.Reorders out) (ht : layout.tops[top]? = some hint) :
    ∃ members : List (Option Nat), members.Perm hint.members ∧
      out.withMembers top members = out := by
  obtain ⟨members, hperm, hout, -⟩ := h.tops top hint ht
  exact ⟨members, hperm, withMembers_self hout⟩

theorem withMembers_withMembers (members members' : List (Option Nat)) :
    (layout.withMembers top members).withMembers top members' =
      layout.withMembers top members' := by
  have htops : ((layout.withMembers top members).withMembers top members').tops =
      (layout.withMembers top members').tops := by
    refine List.ext_getElem? (fun i => ?_)
    rw [getElem?_withMembers, getElem?_withMembers, getElem?_withMembers]
    by_cases htop : top = i
    · simp only [if_pos htop, Option.map_map]
      rfl
    · simp only [if_neg htop]
  exact congrArg (fun tops => { layout with tops }) htops

end LayoutHints

/-! ## One vdev after another -/

namespace OpenMembers

variable {σ : Type} {o : OpenMembers σ} {layout out : LayoutHints} {top : Nat} {hint : TopHint}

/-- The trials of a search are those of the orders that read, sorted. -/
theorem searchOrder_ok (o : OpenMembers σ) (ht : layout.tops[top]? = some hint)
    (hfew : hint.members.length ≤ maxSearchedMembers) :
    ∃ trials, o.searchOrder layout top = some (.ok trials) ∧
      trials.Pairwise (fun a b => a.rank ≤ b.rank) ∧
      ∀ t, t ∈ trials ↔ t.read = true ∧ ∃ members, members.Perm hint.members ∧
        t = o.tryLayout (layout.withMembers top members) := by
  obtain ⟨layouts, hlayouts, hmem, -⟩ := permutations_spec ht
  refine ⟨sortByKey Trial.rank
    ((layouts.map o.tryLayout).filter Trial.read), ?_,
    sortByKey_sorted Trial.rank _, fun t => ?_⟩
  · rw [searchOrder, ht, Option.map_some, Option.getD_some, if_neg (Nat.not_lt.mpr hfew), hlayouts,
      Option.map_some]
  · rw [mem_sortByKey, List.mem_filter, List.mem_map, and_comm]
    refine and_congr_right' ?_
    constructor
    · rintro ⟨l, hl, rfl⟩
      obtain ⟨members, hperm, rfl⟩ := (hmem l).mp hl
      exact ⟨members, hperm, rfl⟩
    · rintro ⟨members, hperm, rfl⟩
      exact ⟨_, (hmem _).mpr ⟨members, hperm, rfl⟩, rfl⟩

theorem searchOrder_error (o : OpenMembers σ) (ht : layout.tops[top]? = some hint)
    (hmany : maxSearchedMembers < hint.members.length) :
    ∃ e, o.searchOrder layout top = some (.error e) := by
  rw [searchOrder, ht]
  exact ⟨_, if_pos hmany⟩

/-- The vdevs still to search are vdevs of the layout, and what was settled is a reordering. -/
structure Settling (layout : LayoutHints) (todo : List (TopHint × Nat)) (out : LayoutHints) :
    Prop where
  named : ∀ x ∈ todo, layout.tops[x.2]? = some x.1
  reorders : layout.Reorders out

/-- What a search over the vdevs that are left comes to. -/
structure Searched (o : OpenMembers σ) (todo : List (TopHint × Nat)) (out final : LayoutHints) :
    Prop where
  few : ∀ x ∈ todo, x.1.searched = true → x.1.members.length ≤ maxSearchedMembers
  same : (∀ x ∈ todo, x.1.searched = false) → final = out
  /-- What is settled is never worse than what it was settled from. -/
  better : (o.tryLayout out).read = true →
    (o.tryLayout final).read = true ∧
      (o.tryLayout final).rank ≤
        (o.tryLayout out).rank
  /-- No other order of the last vdev that was searched is better. -/
  least : ∀ pre x post, todo = pre ++ x :: post → x.1.searched = true →
    (∀ y ∈ post, y.1.searched = false) →
      (o.tryLayout final).read = true ∧
        ∀ members : List (Option Nat), members.Perm x.1.members →
          (o.tryLayout (final.withMembers x.2 members)).read = true →
            (o.tryLayout final).rank ≤
              (o.tryLayout (final.withMembers x.2 members)).rank

variable {todo : List (TopHint × Nat)} {x : TopHint × Nat}

theorem Settling.tail (h : Settling layout (x :: todo) out) : Settling layout todo out :=
  ⟨fun y hy => h.named y (List.mem_cons_of_mem x hy), h.reorders⟩

/-- One round: the vdev is passed over, or the best of its orders is settled. -/
theorem searchTops_cons (h : Settling layout (x :: todo) out) :
    (x.1.searched = false ∧ o.searchTops (x :: todo) out =
      o.searchTops todo out) ∨
    (x.1.searched = true ∧ maxSearchedMembers < x.1.members.length ∧
      o.searchTops (x :: todo) out = some (.error Exit.usage)) ∨
    (x.1.searched = true ∧ (∀ members : List (Option Nat), members.Perm x.1.members →
        (o.tryLayout (out.withMembers x.2 members)).read = false) ∧
      o.searchTops (x :: todo) out =
        some (.error Exit.unrecoverable)) ∨
    ∃ chosen : List (Option Nat), x.1.searched = true ∧
      x.1.members.length ≤ maxSearchedMembers ∧ chosen.Perm x.1.members ∧
      (o.tryLayout (out.withMembers x.2 chosen)).read = true ∧
      (∀ members : List (Option Nat), members.Perm x.1.members →
        (o.tryLayout (out.withMembers x.2 members)).read = true →
          (o.tryLayout (out.withMembers x.2 chosen)).rank ≤
            (o.tryLayout (out.withMembers x.2 members)).rank) ∧
      o.searchTops (x :: todo) out =
        o.searchTops todo (out.withMembers x.2 chosen) := by
  obtain ⟨hint, top⟩ := x
  cases hsearched : hint.searched with
  | false =>
    refine Or.inl ⟨rfl, ?_⟩
    rw [searchTops, hsearched]
    rfl
  | true =>
    obtain ⟨members, hperm, hout, -⟩ := h.reorders.tops top hint (h.named _ List.mem_cons_self)
    by_cases hfew : hint.members.length ≤ maxSearchedMembers
    · obtain ⟨trials, htrials, hsorted, hmem⟩ := o.searchOrder_ok hout
          (hperm.length_eq.trans_le hfew)
      have hmem' : ∀ t, t ∈ trials ↔ t.read = true ∧ ∃ members : List (Option Nat),
          members.Perm hint.members ∧
            t = o.tryLayout (out.withMembers top members) := by
        intro t
        rw [hmem]
        exact and_congr_right' (exists_congr (fun l => and_congr_left'
          ⟨fun hl => hl.trans hperm, fun hl => hl.trans hperm.symm⟩))
      cases trials with
      | nil =>
        refine Or.inr (Or.inr (Or.inl ⟨rfl, fun l hl => ?_,
          by rw [searchTops, hsearched, htrials]; rfl⟩))
        have hnot := (hmem' (o.tryLayout
          (out.withMembers top l))).not.mp List.not_mem_nil
        exact Bool.eq_false_iff.mpr (fun hread => hnot ⟨hread, l, hl, rfl⟩)
      | cons best others =>
        obtain ⟨hread, chosen, hchosen, rfl⟩ := (hmem' best).mp List.mem_cons_self
        refine Or.inr (Or.inr (Or.inr ⟨chosen, rfl, hfew, hchosen, hread, fun l hl hl' => ?_,
          by rw [searchTops, hsearched, htrials]; rfl⟩))
        rcases List.mem_cons.mp ((hmem' _).mpr ⟨hl', l, hl, rfl⟩) with heq | hothers
        · rw [heq]
        · exact (List.pairwise_cons.mp hsorted).1 _ hothers
    · obtain ⟨e, he⟩ := o.searchOrder_error hout
          (lt_of_lt_of_eq (Nat.not_le.mp hfew) hperm.length_eq.symm)
      exact Or.inr (Or.inl ⟨rfl, Nat.not_le.mp hfew, by rw [searchTops, hsearched, he]; rfl⟩)

/-- The whole search: by induction on the vdevs that are left, each settled from the last. -/
theorem searchTops_spec (h : Settling layout todo out) :
    (∃ final, o.searchTops todo out = some (.ok final) ∧
      layout.Reorders final ∧
      o.Searched todo out final) ∨
    (o.searchTops todo out = some (.error Exit.usage) ∧
      ∃ x ∈ todo, x.1.searched = true ∧ maxSearchedMembers < x.1.members.length) ∨
    (o.searchTops todo out = some (.error Exit.unrecoverable) ∧
      ∃ x ∈ todo, x.1.searched = true ∧ ∀ members : List (Option Nat),
        members.Perm x.1.members →
          (o.tryLayout (out.withMembers x.2 members)).read =
            false) := by
  induction todo generalizing out with
  | nil =>
    refine Or.inl ⟨out, rfl, h.reorders, fun x hx => absurd hx List.not_mem_nil, fun _ => rfl,
      fun hread => ⟨hread, le_refl _⟩, fun pre x post heq => ?_⟩
    exact absurd heq.symm (List.append_ne_nil_of_right_ne_nil pre (List.cons_ne_nil x post))
  | cons x todo ih =>
    rcases searchTops_cons h with ⟨hpassed, heq⟩ | ⟨hsearched, hmany, heq⟩ |
      ⟨hsearched, hnone, heq⟩ | ⟨chosen, hsearched, hfew, hchosen, hread, hleast, heq⟩
    · rw [heq]
      rcases ih h.tail with ⟨final, hfinal, hreorders, hspec⟩ | ⟨hend, y, hy, hmany⟩ |
        ⟨hend, y, hy, hnone⟩
      · refine Or.inl ⟨final, hfinal, hreorders, ?_, fun hall => ?_, hspec.better, ?_⟩
        · refine List.forall_mem_cons.mpr ⟨fun hyes => ?_, hspec.few⟩
          rw [hpassed] at hyes
          cases hyes
        · exact hspec.same (List.forall_mem_cons.mp hall).2
        · intro pre z post hsplit hz hpost
          cases pre with
          | nil =>
            obtain ⟨rfl, -⟩ := List.cons.inj hsplit
            rw [hpassed] at hz
            cases hz
          | cons y pre => exact hspec.least pre z post (List.cons.inj hsplit).2 hz hpost
      · exact Or.inr (Or.inl ⟨hend, y, List.mem_cons_of_mem x hy, hmany⟩)
      · exact Or.inr (Or.inr ⟨hend, y, List.mem_cons_of_mem x hy, hnone⟩)
    · exact Or.inr (Or.inl ⟨heq, x, List.mem_cons_self, hsearched, hmany⟩)
    · exact Or.inr (Or.inr ⟨heq, x, List.mem_cons_self, hsearched, hnone⟩)
    · rw [heq]
      have hnamed := h.named x List.mem_cons_self
      have hnext : Settling layout todo (out.withMembers x.2 chosen) :=
        ⟨h.tail.named, h.reorders.withMembers hnamed hsearched hchosen⟩
      rcases ih hnext with ⟨final, hfinal, hreorders, hspec⟩ | ⟨hend, y, hy, hmany⟩ |
        ⟨-, y, hy, -, hnone⟩
      · refine Or.inl ⟨final, hfinal, hreorders,
          List.forall_mem_cons.mpr ⟨fun _ => hfew, hspec.few⟩, fun hall => ?_, fun hout => ?_, ?_⟩
        · have hnot := hall x List.mem_cons_self
          rw [hsearched] at hnot
          cases hnot
        · -- The order that the vdev had was among those tried.
          obtain ⟨own, hperm, hown⟩ := h.reorders.own hnamed
          have hle := hleast own hperm
          rw [hown] at hle
          obtain ⟨hreads, hrank⟩ := hspec.better hread
          exact ⟨hreads, hrank.trans (hle hout)⟩
        · intro pre z post hsplit hz hpost
          cases pre with
          | nil =>
            obtain ⟨rfl, rfl⟩ := List.cons.inj hsplit
            obtain rfl := hspec.same hpost
            refine ⟨hread, fun l hl => ?_⟩
            rw [LayoutHints.withMembers_withMembers]
            exact hleast l hl
          | cons y pre => exact hspec.least pre z post (List.cons.inj hsplit).2 hz hpost
      · exact Or.inr (Or.inl ⟨hend, y, List.mem_cons_of_mem x hy, hmany⟩)
      · obtain ⟨own, hperm, hown⟩ := hnext.reorders.own (hnext.named y hy)
        have hnot := hnone own hperm
        rw [hown, hread] at hnot
        cases hnot

/-- The layout that is settled on is the one given but for the order of the members of the vdevs
searched, and is no worse; of the last of them no other order is better.  There is none where a
vdev has too many members, or where no order of one reads. -/
theorem searchLayout_spec (o : OpenMembers σ) (layout : LayoutHints) :
    (∃ out, o.searchLayout layout = some (.ok out) ∧ layout.Reorders out ∧
      (∀ hint ∈ layout.tops, hint.searched = true → hint.members.length ≤ maxSearchedMembers) ∧
      ((o.tryLayout layout).read = true → (o.tryLayout out).read = true ∧
        (o.tryLayout out).rank ≤ (o.tryLayout layout).rank) ∧
      ∀ pre hint post, layout.tops = pre ++ hint :: post → hint.searched = true →
        (∀ other ∈ post, other.searched = false) → (o.tryLayout out).read = true ∧
          ∀ members : List (Option Nat), members.Perm hint.members →
            (o.tryLayout (out.withMembers pre.length members)).read = true →
              (o.tryLayout out).rank ≤
                (o.tryLayout (out.withMembers pre.length members)).rank) ∨
    (o.searchLayout layout = some (.error Exit.usage) ∧
      ∃ hint ∈ layout.tops, hint.searched = true ∧
        maxSearchedMembers < hint.members.length) ∨
    (o.searchLayout layout = some (.error Exit.unrecoverable) ∧
      ∃ top hint, layout.tops[top]? = some hint ∧ hint.searched = true ∧
        ∀ members : List (Option Nat), members.Perm hint.members →
          (o.tryLayout (layout.withMembers top members)).read = false) := by
  have hstart : Settling layout layout.tops.zipIdx layout :=
    ⟨fun x hx => List.mk_mem_zipIdx_iff_getElem?.mp hx, LayoutHints.Reorders.refl layout⟩
  rcases searchTops_spec hstart with ⟨out, hout, hreorders, hspec⟩ | ⟨hend, x, hx, hmany⟩ |
    ⟨hend, x, hx, hnone⟩
  · refine Or.inl ⟨out, hout, hreorders, fun hint hmem => ?_, hspec.better,
      fun pre hint post hsplit hsearched hpost => ?_⟩
    · obtain ⟨top, ht⟩ := List.mem_iff_getElem?.mp hmem
      exact hspec.few (hint, top) (List.mk_mem_zipIdx_iff_getElem?.mpr ht)
    · refine hspec.least (pre.zipIdx) (hint, pre.length) (post.zipIdx (pre.length + 1)) ?_ hsearched
        (fun y hy => hpost y.1 (List.fst_mem_of_mem_zipIdx hy))
      rw [hsplit, List.zipIdx_append, List.zipIdx_cons, Nat.zero_add]
  · refine Or.inr (Or.inl ⟨hend, x.1, ?_, hmany⟩)
    exact List.mem_of_getElem? (hstart.named x hx)
  · exact Or.inr (Or.inr ⟨hend, x.2, x.1, hstart.named x hx, hnone⟩)

end OpenMembers

end Zio
end ZvolRescue
