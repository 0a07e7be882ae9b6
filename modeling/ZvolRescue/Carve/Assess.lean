import ZvolRescue.Dmu.Space
import ZvolRescue.Lib.Stateful
import ZvolRescue.Ondisk.Carve

/-!
# How much of a candidate is there

A candidate is assessed by looking at its blocks, at every `step`-th one where there are many.
The loop counts up to the highest block id with an addition that stops at the largest number, so
it ends just where the highest block id is not that number (`assess_ends_iff`).
-/

namespace ZvolRescue
namespace Carve
namespace Assess

open Lib Ondisk Zio Dmu

/-- What was found of the tree of a candidate. -/
structure Assessment where
  blocksTotal : Nat
  blocksVerified : Nat
  blocksHoles : Nat
  blocksFailed : Nat
  /-- The oldest and the newest birth that were met. -/
  birth : Option (Nat × Nat)
  blocksAllocated : Nat
  blocksFree : Nat
  blocksUnknown : Nat
  sampled : Bool
  deriving DecidableEq, Repr

/-- What there is of one block. -/
inductive Looked where
  /-- The walk to it failed. -/
  | lost
  | hole
  /-- Its pointer was found, and the block could be read or not. -/
  | found (bp : BlkPtr) (read : Bool)

namespace Assessment

def start (total : Nat) (sampled : Bool) : Assessment :=
  { blocksTotal := total, blocksVerified := 0, blocksHoles := 0, blocksFailed := 0
    birth := none, blocksAllocated := 0, blocksFree := 0, blocksUnknown := 0, sampled }

/-- What the space maps say of a block. -/
def ask (space : Option Space) (bp : BlkPtr) (a : Assessment) : Assessment :=
  match space with
  | none => a
  | some space =>
    match space.allocated bp.dva0.vdev bp.dva0.offset bp.dva0.asize with
    | some true => { a with blocksAllocated := a.blocksAllocated + 1 }
    | some false => { a with blocksFree := a.blocksFree + 1 }
    | none => { a with blocksUnknown := a.blocksUnknown + 1 }

def bear (birth : Nat) (a : Assessment) : Assessment :=
  { a with
    birth :=
      match a.birth with
      | none => some (birth, birth)
      | some (lo, hi) => some (min lo birth, max hi birth) }

def note (space : Option Space) (a : Assessment) : Looked → Assessment
  | .lost => { a with blocksFailed := a.blocksFailed + 1 }
  | .hole => { a with blocksHoles := a.blocksHoles + 1 }
  | .found bp true =>
    let a := (a.ask space bp).bear bp.birth
    { a with blocksVerified := a.blocksVerified + 1 }
  | .found bp false =>
    let a := (a.ask space bp).bear bp.birth
    { a with blocksFailed := a.blocksFailed + 1 }

end Assessment

section Loop

variable {m : Type → Type} [Monad m] (obj : ObjectReader m)

def look (blkid : Nat) : m Looked := do
  match ← obj.locate blkid with
  | .error _ => pure .lost
  | .ok none => pure .hole
  | .ok (some bp) => do
    match ← obj.readBlkid blkid with
    | .ok _ => pure (.found bp true)
    | .error _ => pure (.found bp false)

/-- The loop from a block id on; none where it goes on for more than `fuel` rounds. -/
def assessLoop (space : Option Space) (step : Nat) :
    (fuel blkid : Nat) → Assessment → m (Option Assessment)
  | 0, _, _ => pure none
  | fuel + 1, blkid, a =>
    if blkid ≤ obj.dnode.maxblkid then do
      let a := a.note space (← look obj blkid)
      let blkid := satAdd64 blkid step
      if step > 1 ∧ blkid > obj.dnode.maxblkid then pure (some a)
      else assessLoop space step fuel blkid a
    else pure (some a)

/-- The blocks that a dnode claims. -/
def totalOf (maxblkid : Nat) : Nat := satAdd64 maxblkid 1

def stepOf (total sample : Nat) : Nat :=
  if sample = 0 ∨ total ≤ sample then 1 else divCeil total sample

/-- Look at the blocks of a candidate, at no more than about `sample` of them if it is not 0. -/
def assessAgainst (sample : Nat) (space : Option Space) (fuel : Nat) : m (Option Assessment) :=
  let total := totalOf obj.dnode.maxblkid
  let step := stepOf total sample
  assessLoop obj space step fuel 0 (Assessment.start total (step > 1))

end Loop

/-! ## The counters -/

/-- Its pointer was found. -/
def Looked.located : Looked → Bool
  | .found _ _ => true
  | _ => false

namespace Assessment

def looked (a : Assessment) : Nat := a.blocksVerified + a.blocksHoles + a.blocksFailed

def asked (a : Assessment) : Nat := a.blocksAllocated + a.blocksFree + a.blocksUnknown

theorem ask_looked (space : Option Space) (bp : BlkPtr) (a : Assessment) :
    (a.ask space bp).looked = a.looked := by
  cases space with
  | none => rfl
  | some space =>
    rw [ask]
    cases space.allocated bp.dva0.vdev bp.dva0.offset bp.dva0.asize with
    | none => rfl
    | some given => cases given <;> rfl

theorem ask_asked (space : Space) (bp : BlkPtr) (a : Assessment) :
    (a.ask (some space) bp).asked = a.asked + 1 := by
  rw [ask]
  cases space.allocated bp.dva0.vdev bp.dva0.offset bp.dva0.asize with
  | none =>
    simp only [asked]
    omega
  | some given =>
    cases given with
    | true =>
      simp only [asked]
      omega
    | false =>
      simp only [asked]
      omega

/-- A block counts once. -/
theorem note_looked (space : Option Space) (a : Assessment) (l : Looked) :
    (a.note space l).looked = a.looked + 1 := by
  cases l with
  | lost => rfl
  | hole =>
    simp only [note, looked]
    omega
  | found bp read =>
    have hask := ask_looked space bp a
    simp only [looked] at hask
    cases read with
    | true =>
      simp only [note, looked, bear]
      omega
    | false =>
      simp only [note, looked, bear]
      omega

/-- A located block is asked for once. -/
theorem note_asked (space : Space) (a : Assessment) (l : Looked) :
    (a.note (some space) l).asked = a.asked + if l.located then 1 else 0 := by
  cases l with
  | lost => rfl
  | hole => rfl
  | found bp read =>
    have hask := ask_asked space bp a
    simp only [asked] at hask
    cases read with
    | true =>
      simp only [note, asked, bear, Looked.located, if_true]
      exact hask
    | false =>
      simp only [note, asked, bear, Looked.located, if_true]
      exact hask

theorem foldl_looked (space : Option Space) (l : List Looked) : ∀ a : Assessment,
    (l.foldl (note space) a).looked = a.looked + l.length := by
  induction l with
  | nil =>
    intro a
    rfl
  | cons x l ih =>
    intro a
    rw [List.foldl_cons, ih, note_looked, List.length_cons]
    omega

theorem foldl_asked (space : Space) (l : List Looked) : ∀ a : Assessment,
    (l.foldl (note (some space)) a).asked = a.asked + l.countP Looked.located := by
  induction l with
  | nil =>
    intro a
    rfl
  | cons x l ih =>
    intro a
    rw [List.foldl_cons, ih, note_asked, List.countP_cons]
    omega

end Assessment

/-! ## The loop -/

section Loop

variable {m : Type → Type} [Monad m] [LawfulMonad m] (obj : ObjectReader m)

/-- The loop looks at every `step`-th block up to the highest. -/
theorem assessLoop_eq (space : Option Space) {step : Nat} (hlast : obj.dnode.maxblkid + 1 < word) :
    ∀ (n fuel blkid : Nat) (a : Assessment), n < fuel →
      (∀ i < n, blkid + i * step ≤ obj.dnode.maxblkid) → obj.dnode.maxblkid < blkid + n * step →
      assessLoop obj space step fuel blkid a =
        (fun looked => some (looked.foldl (Assessment.note space) a)) <$>
          (List.range' blkid n step).mapM (look obj) := by
  intro n
  induction n with
  | zero =>
    intro fuel blkid a hfuel _ hend
    obtain ⟨fuel, rfl⟩ := Nat.exists_eq_add_of_lt hfuel
    rw [Nat.zero_add, assessLoop, if_neg (by omega), List.range'_zero, List.mapM_nil, map_pure]
    rfl
  | succ n ih =>
    intro fuel blkid a hfuel hids hend
    obtain ⟨fuel, rfl⟩ := Nat.exists_eq_succ_of_ne_zero (show fuel ≠ 0 by omega)
    have hfirst := hids 0 (Nat.succ_pos n)
    rw [Nat.zero_mul, Nat.add_zero] at hfirst
    rw [assessLoop, if_pos hfirst, List.range'_succ, List.mapM_cons, map_bind]
    refine bind_congr (fun l => ?_)
    rw [Nat.succ_mul] at hend
    -- Past the largest number there is no block left, as the highest id lies below it.
    have hnext : (∀ i < n, satAdd64 blkid step + i * step ≤ obj.dnode.maxblkid) ∧
        obj.dnode.maxblkid < satAdd64 blkid step + n * step ∧
        (0 < n → satAdd64 blkid step = blkid + step) := by
      by_cases hfits : blkid + step < word
      · rw [satAdd64_of_lt hfits]
        refine ⟨fun i hi => ?_, by omega, fun _ => rfl⟩
        have hle := hids (i + 1) (by omega)
        rw [Nat.succ_mul] at hle
        omega
      · have hsat : satAdd64 blkid step = word - 1 := Nat.min_eq_right (by omega)
        have hnone : n = 0 := by
          by_contra hne
          have hle := hids 1 (by omega)
          omega
        subst hnone
        rw [hsat]
        exact ⟨fun i hi => absurd hi (Nat.not_lt_zero i), by omega,
          fun hpos => absurd hpos (Nat.lt_irrefl 0)⟩
    obtain ⟨hids', hend', hexact⟩ := hnext
    simp only
    by_cases hbreak : step > 1 ∧ satAdd64 blkid step > obj.dnode.maxblkid
    · have hnone : n = 0 := by
        by_contra hne
        have hle := hids' 0 (by omega)
        omega
      subst hnone
      rw [if_pos hbreak, List.range'_zero, List.mapM_nil, map_bind, pure_bind, map_pure]
      rfl
    · rw [if_neg hbreak, ih fuel _ _ (by omega) hids' hend', map_bind]
      have hrange : List.range' (satAdd64 blkid step) n step = List.range' (blkid + step) n step := by
        rcases Nat.eq_zero_or_pos n with hzero | hpos
        · rw [hzero, List.range'_zero, List.range'_zero]
        · rw [hexact hpos]
      rw [hrange, map_eq_pure_bind]
      refine bind_congr (fun rest => ?_)
      rw [map_pure]
      rfl

end Loop

theorem stepOf_pos {total : Nat} (htotal : 0 < total) (sample : Nat) : 0 < stepOf total sample := by
  rw [stepOf]
  by_cases h : sample = 0 ∨ total ≤ sample
  · rw [if_pos h]
    exact Nat.one_pos
  · rw [if_neg h]
    exact divCeil_pos htotal (by omega)

/-- No more steps than the sample has blocks. -/
theorem steps_le_sample {total sample : Nat} (htotal : 0 < total) (hsample : sample ≠ 0) :
    divCeil total (stepOf total sample) ≤ sample := by
  apply divCeil_le (stepOf_pos htotal sample)
  rw [stepOf]
  by_cases h : sample = 0 ∨ total ≤ sample
  · rw [if_pos h]
    omega
  · rw [if_neg h, Nat.mul_comm]
    exact le_divCeil_mul (by omega)

section Run

variable {σ : Type} (obj : ObjectReader (StateM σ))

/-- The assessment ends, its blocks are different and evenly spaced from 0, no more than the
sample asks for, and the counters account for them. -/
def Ends (sample : Nat) (space : Option Space) (s : σ) : Prop :=
  ∃ fuel ids looked s' a, (ids.mapM (look obj)) s = (looked, s') ∧
    assessAgainst obj sample space fuel s = (some a, s') ∧
    (∃ step, 0 < step ∧ ids = (List.range ids.length).map (fun i => i * step)) ∧
    ids.Nodup ∧ (∀ id ∈ ids, id ≤ obj.dnode.maxblkid) ∧
    (sample ≠ 0 → ids.length ≤ sample + 1) ∧
    a.blocksVerified + a.blocksHoles + a.blocksFailed = ids.length ∧
    (space.isSome = true →
      a.blocksAllocated + a.blocksFree + a.blocksUnknown = looked.countP Looked.located)

theorem mapM_length {α β : Type} (f : α → StateM σ β) (l : List α) (s : σ) :
    ((l.mapM f) s).1.length = l.length := by
  induction l generalizing s with
  | nil => rfl
  | cons a l ih =>
    rw [List.mapM_cons]
    exact congrArg (· + 1) (ih (f a s).2)

variable {obj}

/-- With the highest block id that there can be, the loop never ends. -/
theorem assessLoop_endless (space : Option Space) (step : Nat)
    (hlast : word - 1 ≤ obj.dnode.maxblkid) : ∀ (fuel blkid : Nat) (a : Assessment) (s : σ),
      blkid ≤ word - 1 → (assessLoop obj space step fuel blkid a s).1 = none := by
  intro fuel
  induction fuel with
  | zero =>
    intro blkid a s _
    rfl
  | succ fuel ih =>
    intro blkid a s hblkid
    have hnext : satAdd64 blkid step ≤ word - 1 := Nat.min_le_right _ _
    rw [assessLoop, if_pos (by omega), bind_run, if_neg (by omega)]
    exact ih _ _ _ hnext

variable (obj)

/-- The assessment of a candidate ends and accounts for what it looked at just where its highest
block id is not the largest number. -/
theorem assess_ends_iff (sample : Nat) (space : Option Space) (s : σ) :
    Ends obj sample space s ↔ obj.dnode.maxblkid + 1 < word := by
  constructor
  · rintro ⟨fuel, ids, looked, s', a, -, hrun, -⟩
    by_contra hlast
    have hnone := assessLoop_endless space (stepOf (totalOf obj.dnode.maxblkid) sample)
      (show word - 1 ≤ obj.dnode.maxblkid by omega) fuel 0
      (Assessment.start (totalOf obj.dnode.maxblkid)
        (stepOf (totalOf obj.dnode.maxblkid) sample > 1)) s (Nat.zero_le _)
    rw [assessAgainst] at hrun
    rw [hrun] at hnone
    cases hnone
  · intro hlast
    have htotal : totalOf obj.dnode.maxblkid = obj.dnode.maxblkid + 1 := satAdd64_of_lt hlast
    have hstep := stepOf_pos (Nat.succ_pos obj.dnode.maxblkid) sample
    have hcount : sample ≠ 0 → _ := steps_le_sample (Nat.succ_pos obj.dnode.maxblkid)
    generalize hstepOf : stepOf (obj.dnode.maxblkid + 1) sample = step at hstep hcount
    generalize hn : divCeil (obj.dnode.maxblkid + 1) step = n at hcount
    have hids : ∀ i < n, i * step ≤ obj.dnode.maxblkid := by
      intro i hi
      rw [← hn, lt_divCeil_iff hstep] at hi
      omega
    have hend : obj.dnode.maxblkid < n * step := by
      have hle := le_divCeil_mul (a := obj.dnode.maxblkid + 1) hstep
      rw [hn] at hle
      omega
    have hloop := assessLoop_eq obj space hlast n (n + 1) 0
      (Assessment.start (obj.dnode.maxblkid + 1) (step > 1)) (Nat.lt_succ_self n)
      (fun i hi => by rw [Nat.zero_add]; exact hids i hi) (by rw [Nat.zero_add]; exact hend)
    generalize hl : List.range' 0 n step = ids at hloop
    have hlength : ids.length = n := by rw [← hl, List.length_range']
    have hlooked := mapM_length (look obj) ids s
    generalize hrun : (ids.mapM (look obj)) s = ran at hlooked
    obtain ⟨looked, s'⟩ := ran
    have hmap : ids = (List.range n).map (fun i => i * step) := by
      rw [← hl]
      apply List.ext_getElem (by rw [List.length_range', List.length_map, List.length_range])
      intro i _ _
      rw [List.getElem_range', List.getElem_map, List.getElem_range, Nat.zero_add, Nat.mul_comm]
    have hat : ids.length = looked.length := hlooked.symm
    refine ⟨n + 1, ids, looked, s',
      looked.foldl (Assessment.note space) (Assessment.start (obj.dnode.maxblkid + 1) (step > 1)),
      hrun, ?_, ⟨step, hstep, ?_⟩, ?_, ?_, ?_, ?_, ?_⟩
    · rw [assessAgainst, htotal, hstepOf, hloop]
      exact congrArg (fun r : List Looked × σ => (some (r.1.foldl _ _), r.2)) hrun
    · rw [hlength]
      exact hmap
    · rw [hmap]
      refine List.nodup_range.map (fun i j hij => ?_)
      exact Nat.eq_of_mul_eq_mul_right hstep hij
    · intro id hid
      rw [hmap] at hid
      obtain ⟨i, hi, rfl⟩ := List.mem_map.mp hid
      exact hids i (List.mem_range.mp hi)
    · intro hsample
      rw [hlength]
      exact Nat.le_succ_of_le (hcount hsample)
    · have hall := Assessment.foldl_looked space looked
        (Assessment.start (obj.dnode.maxblkid + 1) (step > 1))
      rw [hat]
      rw [show (Assessment.start (obj.dnode.maxblkid + 1) (step > 1)).looked = 0 from rfl,
        Nat.zero_add] at hall
      exact hall
    · intro hspace
      obtain ⟨space, rfl⟩ := Option.isSome_iff_exists.mp hspace
      have hall := Assessment.foldl_asked space looked
        (Assessment.start (obj.dnode.maxblkid + 1) (step > 1))
      rw [show (Assessment.start (obj.dnode.maxblkid + 1) (step > 1)).asked = 0 from rfl,
        Nat.zero_add] at hall
      exact hall

end Run

/-- A slot of a volume with a bonus of one byte and the highest block id that there can be. -/
def endlessSlot : List UInt8 :=
  [23, 17, 1, 1, 0, 0, 0, 0, 1, 0, 1, 0, 0, 0, 0, 0] ++ List.replicate 8 255 ++
    List.replicate 488 0

/-- Its assessment never ends. -/
theorem assess_endless :
    ¬ ∀ (buf : List UInt8) (endian : Endian) (d : DnodePhys), DnodePhys.parse buf endian = .ok d →
      plausibleDnode d = .ok () →
      ∀ (σ : Type) (reader : PoolReader (StateM σ)) (sample : Nat) (space : Option Space) (s : σ),
        Ends { reader, dnode := d, endian } sample space s := by
  intro h
  have hslot : (DnodePhys.parse endlessSlot .little).toOption.map
      (fun d => (plausibleDnode d, d.maxblkid)) = some (.ok (), word - 1) := by
    decide +kernel
  cases hparse : DnodePhys.parse endlessSlot .little with
  | error e =>
    rw [hparse] at hslot
    cases hslot
  | ok d =>
    rw [hparse] at hslot
    have hpair := Prod.mk.inj (Option.some.inj hslot)
    let reader : PoolReader (StateM Unit) :=
      { readBlock := fun _ => pure (.error .noMember)
        verify := fun _ _ => pure .unsupported
        salvageDva := fun _ _ => pure (.error .noMember) }
    let obj : ObjectReader (StateM Unit) := { reader, dnode := d, endian := .little }
    obtain ⟨fuel, ids, looked, s', a, -, hrun, -⟩ :=
      h endlessSlot .little d hparse hpair.1 Unit reader 256 none ()
    have hlast : word - 1 ≤ obj.dnode.maxblkid := Nat.le_of_eq hpair.2.symm
    have hnone := assessLoop_endless none (stepOf (totalOf d.maxblkid) 256) hlast fuel 0
      (Assessment.start (totalOf d.maxblkid) (stepOf (totalOf d.maxblkid) 256 > 1)) ()
      (Nat.zero_le _)
    rw [assessAgainst] at hrun
    rw [hrun] at hnone
    cases hnone

end Assess
end Carve
end ZvolRescue
