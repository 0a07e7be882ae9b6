import ZvolRescue.Extract.Resumed

/-!
# Two runs and one

An extraction that is interrupted and taken up at the block it stopped at leaves what one
uninterrupted extraction leaves (`resumed_eq_straight`), as long as the blocks give the same
in all three runs.
-/

namespace ZvolRescue
namespace Extract

open Lib Ondisk Zio Dmu

section Answers

variable {σ : Type} {I : σ → Prop} {read : Nat → StateM σ BlockRead} {reads : Nat → BlockRead}

/-- Block `b` gives `reads b`, whatever was read before. -/
def Answers (I : σ → Prop) (read : Nat → StateM σ BlockRead) (reads : Nat → BlockRead) : Prop :=
  ∀ b, Keeps I (read b) (fun a => a = reads b)

theorem Answers.stateAt (h : Answers I read reads) :
    ∀ n blkid s, I s → I (stateAt read n blkid s) := by
  intro n
  induction n with
  | zero =>
    intro blkid s hs
    exact hs
  | succ n ih =>
    intro blkid s hs
    exact ih (blkid + 1) _ (h blkid s hs).2

theorem Answers.readsFrom (h : Answers I read reads) {s : σ} (hs : I s) (start b : Nat) :
    reads b = readsFrom read start s b :=
  (h b _ (h.stateAt (b - start) start s hs)).1.symm

end Answers

/-! ## The ends of the three runs -/

section Ends

variable {reads : Nat → BlockRead} {stop : Nat → Bool} {left start n k : Nat} {ending : Ending}

/-- Nothing interrupts the run. -/
theorem Ends.complete_of_never (h : Ends reads never left start n ending)
    (hgoes : ending ≠ .stopped) : ending = .complete ∧ n = left := by
  cases ending with
  | complete => exact ⟨rfl, h.complete rfl⟩
  | interrupted =>
    have := (h.interrupted rfl).2
    cases this
  | stopped => exact absurd rfl hgoes

theorem Ends.complete_of_goesOn (h : Ends reads never left start n ending)
    (hgoes : ∀ i, i < left → (reads (start + i)).stops = false) :
    ending = .complete ∧ n = left := by
  apply h.complete_of_never
  intro he
  obtain ⟨hlt, -, hstops⟩ := h.stopped he
  rw [hgoes n hlt] at hstops
  cases hstops

/-- The interrupt is seen at block `k` and not before. -/
theorem Ends.interrupted_at (h : Ends reads stop left 0 n ending)
    (hgoes : ∀ i, i < left → (reads i).stops = false) (hk : k < left)
    (hbefore : ∀ b, b < k → stop b = false) (hat : stop k = true) :
    ending = .interrupted ∧ n = k := by
  have hle : n ≤ k := by
    by_contra hlt
    have := (h.goesOn k (by omega)).1
    rw [Nat.zero_add, hat] at this
    cases this
  cases ending with
  | complete =>
    have := h.complete rfl
    omega
  | interrupted =>
    have hstop := (h.interrupted rfl).2
    rw [Nat.zero_add] at hstop
    by_cases hlt : n < k
    · rw [hbefore n hlt] at hstop
      cases hstop
    · exact ⟨rfl, by omega⟩
  | stopped =>
    obtain ⟨hlt, -, hstops⟩ := h.stopped rfl
    rw [Nat.zero_add, hgoes n hlt] at hstops
    cases hstops

end Ends

theorem countsOf_add (bs vol : Nat) (reads : Nat → BlockRead) (start k n : Nat) :
    countsOf bs vol reads start (k + n) =
      countsOf bs vol reads start k + countsOf bs vol reads (start + k) n := by
  unfold countsOf
  rw [← List.range'_append_1, List.map_append, List.sum_append]

/-! ## Interrupted, then taken up -/

variable {σ : Type}

/-- Interrupted at block `k` and taken up there, an extraction leaves the image, the digests,
the bad ranges and the counters of one uninterrupted extraction. -/
theorem resumed_eq_straight (hashes : ImageHashes) (obj : ObjectReader (StateM σ)) {vol : Nat}
    (hvol : vol < word) (hbs : obj.dnode.datablksz ≠ 0) (onError : OnError) (extra : Extra)
    {I : σ → Prop} {reads : Nat → BlockRead}
    (hanswers : Answers I (readVolumeBlock obj onError) reads) {s s₁ s₂ : σ} (hs : I s)
    (hs₁ : I s₁) (hs₂ : I s₂) {k : Nat} (hk : k < blocksTotal obj.dnode vol) {stop : Nat → Bool}
    (hbefore : ∀ b, b < k → stop b = false) (hat : stop k = true)
    {whole first rest : Report} {wholeRun firstRun restRun : Run SparseFile}
    (hwhole : (extractFrom hashes obj vol SparseFile.sink onError 0 (Digests.new extra) never
      SparseFile.create s).1 = (.ok whole, wholeRun))
    (hcomplete : whole.aborted = false)
    (hfirst : (extractFrom hashes obj vol SparseFile.sink onError 0 (Digests.new extra) stop
      SparseFile.create s₁).1 = (.ok first, firstRun))
    (hrest : (extractFrom hashes obj vol SparseFile.sink onError k
      ((Digests.new extra).update (firstRun.sink.file.take (k * obj.dnode.datablksz))) never
      (SparseFile.openExisting firstRun.sink.file) s₂).1 = (.ok rest, restRun)) :
    restRun.sink.file = wholeRun.sink.file ∧
      (rest.sha256, rest.sha1, rest.md5) = (whole.sha256, whole.sha1, whole.md5) ∧
      whole.bad = first.bad ++ rest.bad ∧
      whole.counters = first.counters + rest.counters := by
  have hpos := Nat.pos_of_ne_zero hbs
  have hkvol : k * obj.dnode.datablksz < vol :=
    mul_lt_of_lt_divCeil hpos (Nat.lt_of_lt_of_le hk (Nat.min_le_right _ _))
  have hzero : 0 * obj.dnode.datablksz ≤ vol := by omega
  obtain ⟨_, _, hrun, hw⟩ := extractFrom_extracted hashes obj hvol hbs onError hzero (Digests.new extra) never SparseFile.create s
    (fun b _ => hanswers.readsFrom hs 0 b)
  rw [hwhole] at hrun
  cases hrun
  obtain ⟨_, _, hrun, hf⟩ := extractFrom_extracted hashes obj hvol hbs onError hzero (Digests.new extra) stop SparseFile.create s₁
    (fun b _ => hanswers.readsFrom hs₁ 0 b)
  rw [hfirst] at hrun
  cases hrun
  obtain ⟨_, _, hrun, hr⟩ := extractFrom_extracted hashes obj hvol hbs onError
    (Nat.le_of_lt hkvol) ((Digests.new extra).update (firstRun.sink.file.take (k * obj.dnode.datablksz)))
    never (SparseFile.openExisting firstRun.sink.file) s₂
    (fun b _ => hanswers.readsFrom hs₂ k b)
  rw [hrest] at hrun
  cases hrun
  have hcut := content_cut obj.dnode.datablksz vol reads
  generalize obj.dnode.datablksz = bs at *
  generalize blocksTotal obj.dnode vol = total at *
  generalize outcome reads never (total - 0) 0 = wholeEnd at *
  generalize outcome reads stop (total - 0) 0 = firstEnd at *
  generalize outcome reads never (total - k) k = restEnd at *
  obtain ⟨n₀, e₀⟩ := wholeEnd
  obtain ⟨n₁, e₁⟩ := firstEnd
  obtain ⟨n₂, e₂⟩ := restEnd
  -- The straight run takes in every block, so none of them stops a run.
  obtain ⟨he₀, hn₀⟩ := hw.ends.complete_of_never (by
    intro he
    rw [hw.aborted, he] at hcomplete
    simp at hcomplete)
  rw [he₀, hn₀, Nat.sub_zero] at hw
  have hgoes : ∀ i, i < total → (reads i).stops = false := by
    intro i hi
    have := (hw.ends.goesOn i hi).2
    rwa [Nat.zero_add] at this
  obtain ⟨he₁, hn₁⟩ := hf.ends.interrupted_at hgoes hk hbefore hat
  rw [he₁, hn₁] at hf
  obtain ⟨he₂, hn₂⟩ := hr.ends.complete_of_goesOn (fun i hi => hgoes _ (by omega))
  rw [he₂, hn₂] at hr
  have htotal : k + (total - k) = total := by omega
  have hfile₁ : firstRun.sink.file =
      setLen (writeBlocks bs (content bs vol reads) 0 [] k) vol := hf.file
  have hprefix : firstRun.sink.file.take (k * bs) = image (content bs vol reads) 0 k := by
    rw [hfile₁]
    apply take_eq_image hpos hcut (Nat.le_refl _) (by omega)
    · rw [setLen_length]
      omega
    · intro i hi
      exact setLen_getD _ (by omega)
  have hfile : restRun.sink.file = wholeRun.sink.file := by
    have h₂ : restRun.sink.file = setLen (writeBlocks bs (content bs vol reads) k
        firstRun.sink.file (total - k)) vol := hr.file
    have h₀ : wholeRun.sink.file =
        setLen (writeBlocks bs (content bs vol reads) 0 [] total) vol := hw.file
    rw [h₂, h₀, hfile₁, setLen_writeBlocks_add hcut, htotal]
  have hdigests : restRun.digests = wholeRun.digests := by
    rw [hr.digests, hw.digests, Digests.update_update, hprefix, ← List.append_assoc]
    have himage := image_add (content bs vol reads) 0 k (total - k)
    rw [Nat.zero_add, htotal] at himage
    rw [← himage, htotal, Nat.zero_add]
  refine ⟨hfile, ?_, ?_, ?_⟩
  · have h := hr.hashed
    rw [hdigests, hw.hashed] at h
    simp only [DigestSet.mk.injEq] at h
    rw [h.1, h.2.1, h.2.2]
  · rw [hw.bad, hf.bad, hr.bad]
    have h := List.range'_append_1 (s := 0) (m := k) (n := total - k)
    rw [htotal, Nat.zero_add] at h
    rw [← h]
    simp
  · rw [hw.counters, hf.counters, hr.counters]
    have h := countsOf_add bs vol reads 0 k (total - k)
    rw [htotal, Nat.zero_add] at h
    exact h

/-! A volume of a block of sevens and a hole, interrupted between them. -/

def sevensTarget : Target (StateM Unit) := smallTarget [some (.ok (List.replicate 512 7))] 1024

def sevensReads (b : Nat) : BlockRead := if b = 0 then .data (List.replicate 512 7) else .hole

theorem sevensTarget_answers :
    Answers (fun _ => True) (readVolumeBlock sevensTarget.obj .zero) sevensReads := by
  intro b s _
  refine ⟨?_, True.intro⟩
  cases b with
  | zero => rfl
  | succ b =>
    have hindex : shr64 (b + 1) 0 = b + 1 := Nat.div_one _
    have hnone : sevensTarget.obj.dnode.blkptr[shr64 (b + 1) 0]? = none := by
      rw [hindex]
      rfl
    have hlocate : sevensTarget.obj.locate (b + 1) = pure (.ok none) := by
      have hlevel : sevensTarget.obj.dnode.nlevels = 1 := rfl
      rw [ObjectReader.locate, hlevel]
      dsimp only
      generalize hfound : sevensTarget.obj.dnode.blkptr[(_ : Nat)]? = found
      rw [show found = none from hfound.symm.trans hnone]
    simp only [readVolumeBlock, hlocate]
    rfl

theorem resumed_eq_straight_sevens :
    ∃ whole first rest : Report, ∃ wholeRun firstRun restRun : Run SparseFile,
      (extractFrom someHashes sevensTarget.obj 1024 SparseFile.sink .zero 0
        (Digests.new ⟨false, false⟩) never SparseFile.create ()).1 = (.ok whole, wholeRun) ∧
      (extractFrom someHashes sevensTarget.obj 1024 SparseFile.sink .zero 0
        (Digests.new ⟨false, false⟩) (fun b => decide (b = 1)) SparseFile.create ()).1 =
          (.ok first, firstRun) ∧
      (extractFrom someHashes sevensTarget.obj 1024 SparseFile.sink .zero 1
        ((Digests.new ⟨false, false⟩).update (firstRun.sink.file.take (1 * 512))) never
        (SparseFile.openExisting firstRun.sink.file) ()).1 = (.ok rest, restRun) ∧
      restRun.sink.file = wholeRun.sink.file ∧
      (rest.sha256, rest.sha1, rest.md5) = (whole.sha256, whole.sha1, whole.md5) ∧
      whole.bad = first.bad ++ rest.bad ∧
      whole.counters = first.counters + rest.counters := by
  have hvol : 1024 < word := by decide
  have hzero : 0 * sevensTarget.obj.dnode.datablksz ≤ 1024 := by decide
  have hone : 1 * sevensTarget.obj.dnode.datablksz ≤ 1024 := by decide
  obtain ⟨whole, wholeRun, hwhole, hw⟩ := extractFrom_extracted someHashes sevensTarget.obj
    hvol (by decide) .zero hzero
    (Digests.new ⟨false, false⟩) never SparseFile.create ()
    (fun b _ => sevensTarget_answers.readsFrom True.intro 0 b)
  obtain ⟨first, firstRun, hfirst, -⟩ := extractFrom_extracted someHashes sevensTarget.obj
    hvol (by decide) .zero hzero
    (Digests.new ⟨false, false⟩) (fun b => decide (b = 1)) SparseFile.create ()
    (fun b _ => sevensTarget_answers.readsFrom True.intro 0 b)
  obtain ⟨rest, restRun, hrest, -⟩ := extractFrom_extracted someHashes sevensTarget.obj
    hvol (by decide) .zero hone
    ((Digests.new ⟨false, false⟩).update (firstRun.sink.file.take (1 * 512))) never
    (SparseFile.openExisting firstRun.sink.file) ()
    (fun b _ => sevensTarget_answers.readsFrom True.intro 1 b)
  have hcomplete : whole.aborted = false := by
    rw [hw.aborted]
    decide
  exact ⟨whole, first, rest, wholeRun, firstRun, restRun, hwhole, hfirst, hrest,
    resumed_eq_straight someHashes sevensTarget.obj (by decide) (by decide) .zero ⟨false, false⟩
      sevensTarget_answers True.intro True.intro True.intro (by decide) (by decide) (by decide)
      hwhole hcomplete hfirst hrest⟩

end Extract
end ZvolRescue
