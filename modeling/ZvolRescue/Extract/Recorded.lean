import Mathlib.Tactic.IntervalCases
import ZvolRescue.Extract.Straight

/-!
# Checking an image against its record

The digests of a report go into the evidence record next to the path of the image, and
`check` takes them again of the file there.  They agree for every way an extraction into a
new file ends, except where a block stopped it and the block before that one was not written
(`recorded_digest_iff`).
-/

namespace ZvolRescue
namespace Extract

open Lib Ondisk Zio Dmu

/-! ## The record and its check -/

/-- A file of the record, with the digests taken of it. -/
structure FileRef where
  path : String
  sha256 : Option String
  sha1 : Option String
  md5 : Option String
  deriving DecidableEq, Repr

/-- A file whose digests the run already computed. -/
def FileRef.knownWith (path sha256 : String) (sha1 md5 : Option String) : FileRef :=
  { path, sha256 := some sha256, sha1, md5 }

inductive Status where
  | pass
  | fail
  | missing
  /-- Nothing was recorded to check it against. -/
  | unhashed
  deriving DecidableEq, Repr

/-- What the report recorded about one file. -/
structure Recorded where
  sha256 : Option String
  sha1 : Option String
  md5 : Option String
  deriving DecidableEq, Repr

/-- One line of the verdict. -/
structure Checked where
  kind : String
  algorithm : String
  path : String
  status : Status
  recorded : Option String
  found : Option String
  detail : Option String
  deriving DecidableEq, Repr

namespace Recorded

def ofFile (f : FileRef) : Recorded := { sha256 := f.sha256, sha1 := f.sha1, md5 := f.md5 }

/-- The digests that were recorded, by name. -/
def want (r : Recorded) : List (String × String) :=
  [("sha256", r.sha256), ("sha1", r.sha1), ("md5", r.md5)].filterMap
    (fun p => p.2.map (fun v => (p.1, v)))

def extra (r : Recorded) : Extra := { sha1 := r.sha1.isSome, md5 := r.md5.isSome }

end Recorded

/-- Check a file against every digest recorded for it; `files` says what a path holds. -/
def check (hashes : ImageHashes) (files : String → Except String (List UInt8))
    (kind path : String) (recorded : Recorded) : List Checked :=
  match recorded.want with
  | [] =>
    [{ kind, algorithm := "sha256", path, status := .unhashed, recorded := none, found := none
       detail := some "no hash was recorded when it was read" }]
  | want =>
    match files path with
    | .error e =>
      want.map (fun w =>
        { kind, algorithm := w.1, path, status := .missing, recorded := some w.2, found := none
          detail := some e })
    | .ok bytes =>
      let computed := (digestsOf hashes recorded.extra bytes).named
      want.map (fun w =>
        let found := (computed.find? (fun c => c.1 = w.1)).map Prod.snd
        { kind, algorithm := w.1, path, status := if found = some w.2 then .pass else .fail
          recorded := some w.2, found, detail := none })

/-- The record of the image that a report is about. -/
def Report.fileRef (r : Report) (path : String) : FileRef :=
  FileRef.knownWith path r.sha256 r.sha1 r.md5

/-! ## What passes -/

/-- A file with these digests passes every row of the check. -/
theorem check_of_digests (hashes : ImageHashes) {files : String → Except String (List UInt8)}
    (kind : String) {path : String} {bytes : List UInt8} (hfile : files path = .ok bytes)
    {report : Report} {extra : Extra}
    (hreport : digestsOf hashes extra bytes =
      { sha256 := report.sha256, sha1 := report.sha1, md5 := report.md5 }) :
    ∀ row ∈ check hashes files kind path (Recorded.ofFile (report.fileRef path)),
      row.status = .pass := by
  obtain ⟨md5, sha1⟩ := extra
  simp only [digestsOf, Digests.finish, Digests.update, Digests.new, List.nil_append,
    DigestSet.mk.injEq] at hreport
  obtain ⟨h256, h1, h5⟩ := hreport
  intro row hrow
  cases sha1 <;> cases md5 <;>
    simp [check, Recorded.ofFile, Report.fileRef, FileRef.knownWith, Recorded.want, Recorded.extra,
      hfile, ← h256, ← h1, ← h5, digestsOf, Digests.finish, Digests.update, Digests.new,
      DigestSet.named] at hrow
  · rw [hrow]
  · rcases hrow with rfl | rfl <;> rfl
  · rcases hrow with rfl | rfl <;> rfl
  · rcases hrow with rfl | rfl | rfl <;> rfl

/-! ## How a run ends -/

section Runs

variable {σ : Type}

/-- A run from block `start` on is stopped by block `k`. -/
def Target.StopsAt (t : Target (StateM σ)) (opts : DumpOptions) (stop : Nat → Bool)
    (start : Nat) (s : σ) (k : Nat) : Prop :=
  start ≤ k ∧ k < t.blocks ∧ (∀ b, start ≤ b → b ≤ k → stop b = false) ∧
    (∀ b, start ≤ b → b < k → (t.reads opts start s b).stops = false) ∧
    (t.reads opts start s k).stops = true

theorem Ends.eq_of_stops {reads : Nat → BlockRead} {stop : Nat → Bool} {left start n k : Nat}
    {ending : Ending} (h : Ends reads stop left start n ending) (hk : k < left)
    (hgoes : ∀ i, i ≤ k → stop (start + i) = false)
    (hbefore : ∀ i, i < k → (reads (start + i)).stops = false)
    (hat : (reads (start + k)).stops = true) : ending = .stopped ∧ n = k := by
  have hle : n ≤ k := by
    by_contra hlt
    have := (h.goesOn k (by omega)).2
    rw [hat] at this
    cases this
  cases ending with
  | complete =>
    have := h.complete rfl
    omega
  | interrupted =>
    have := (h.interrupted rfl).2
    rw [hgoes n hle] at this
    cases this
  | stopped =>
    refine ⟨rfl, ?_⟩
    by_contra hne
    have := (h.stopped rfl).2.2
    rw [hbefore n (by omega)] at this
    cases this

variable {t : Target (StateM σ)} {opts : DumpOptions} {stop : Nat → Bool} {s : σ}

theorem Target.stopsAt_iff {start k : Nat} :
    t.StopsAt opts stop start s k ↔
      start ≤ k ∧ t.outcome opts stop start s = (k - start, .stopped) := by
  have hends := outcome_ends (t.reads opts start s) stop (t.blocks - start) start
  rw [Target.outcome]
  constructor
  · rintro ⟨hlow, hlt, hgoes, hbefore, hat⟩
    refine ⟨hlow, ?_⟩
    have hidx : start + (k - start) = k := Nat.add_sub_cancel' hlow
    rw [← hidx] at hat
    obtain ⟨hending, hn⟩ := hends.eq_of_stops (by omega)
      (fun i hi => hgoes _ (Nat.le_add_right _ _) (by omega))
      (fun i hi => hbefore _ (Nat.le_add_right _ _) (by omega)) hat
    exact Prod.ext hn hending
  · rintro ⟨hlow, hout⟩
    rw [hout] at hends
    obtain ⟨hlt, hgo, hstops⟩ := hends.stopped rfl
    have hidx : ∀ b, start ≤ b → start + (b - start) = b := fun b hb => Nat.add_sub_cancel' hb
    rw [hidx k hlow] at hgo hstops
    refine ⟨hlow, by omega, ?_, ?_, hstops⟩
    · intro b hb hbk
      by_cases hlast : b = k
      · rw [hlast, hgo]
      · have h := (hends.goesOn (b - start) (by omega)).1
        rwa [hidx b hb] at h
    · intro b hb hbk
      have h := (hends.goesOn (b - start) (by omega)).2
      rwa [hidx b hb] at h

/-- A fresh run leaves the bytes it hashed if and only if no block stops it or the block before
the one that does is written. -/
theorem Target.Sound.fresh_image (ht : t.Sound) (hfresh : opts.resume = false)
    (hashes : ImageHashes) (stop due : Nat → Bool) (out : Output) (s : σ) :
    ∃ (d : DumpOut) (run : Run SparseFile) (out' : Output),
      (Extract.dumpOne hashes t opts stop due out s).1 = (.ok d, out') ∧
      out'.image = some run.sink.file ∧
      d.report.sha256 = hexBytes (hashes.sha256 run.digests.fed) ∧
      (run.sink.file = run.digests.fed → digestsOf hashes opts.hash run.sink.file =
        { sha256 := d.report.sha256, sha1 := d.report.sha1, md5 := d.report.md5 }) ∧
      (run.sink.file = run.digests.fed ↔ ∀ k, t.StopsAt opts stop 0 s k →
        k = 0 ∨ allZero (t.blockOf opts 0 s (k - 1)) = false) := by
  have hpos := Nat.pos_of_ne_zero ht.blocksize
  have hopened : t.opened opts out = (0, Digests.new opts.hash, SparseFile.create) := by
    rw [Target.opened, hfresh, openOutput_fresh]
  obtain ⟨d, run, hex, -, hdump⟩ := ht.dumpOne (t.starts_fresh out hfresh) hashes stop due s
  rw [hopened] at hex
  refine ⟨d, run, _, hdump, rfl, ?_, hex.digestsOf_eq, ?_⟩
  · exact (congrArg DigestSet.sha256 hex.hashed).symm
  have hstops : ∀ k, t.StopsAt opts stop 0 s k ↔ t.outcome opts stop 0 s = (k, .stopped) := by
    intro k
    rw [Target.stopsAt_iff, Nat.sub_zero]
    exact and_iff_right (Nat.zero_le k)
  simp only [hstops]
  generalize t.outcome opts stop 0 s = o at hex
  obtain ⟨n, ending⟩ := o
  by_cases hend : ending = .stopped
  · rw [hend] at hex
    have hn : n * t.blocksize ≤ t.volsize := by
      apply Nat.le_of_lt
      apply mul_lt_of_lt_divCeil hpos
      have hlt := (hex.ends.stopped rfl).1
      have hle : t.blocks ≤ divCeil t.volsize t.blocksize := Nat.min_le_right _ _
      omega
    rw [hex.stopped_image_iff hpos hn, hend]
    constructor
    · intro h k hk
      cases hk
      exact h
    · intro h
      exact h n rfl
  · refine iff_of_true ?_ ?_
    · have hnew := opened_anew out t.expected opts.hash
      have hzero : 0 * t.blocksize ≤ t.volsize := by
        rw [Nat.zero_mul]
        exact Nat.zero_le _
      rw [hex.image_iff hend hpos hzero hnew.holds hnew.digests]
      intro i _ _ _
      simp [SparseFile.create]
    · intro k hk
      exact absurd (congrArg Prod.snd hk) hend

/-- The image that a run left is the one its record is about. -/
def Verifies (hashes : ImageHashes) (path : String) (d : DumpOut) (out : Output) : Prop :=
  ∃ file, out.image = some file ∧ d.report.sha256 = hexBytes (hashes.sha256 file) ∧
    ∀ files kind, files path = .ok file →
      ∀ row ∈ check hashes files kind path (Recorded.ofFile (d.report.fileRef path)),
        row.status = .pass

/-- The record of a fresh run is of the image it leaves, whatever the hash functions are, if
and only if no block stops the run or the block before the one that does is not all zeros. -/
theorem recorded_digest_iff (ht : t.Sound) (hfresh : opts.resume = false) (stop due : Nat → Bool)
    (out : Output) (s : σ) (path : String) :
    (∀ hashes, ∃ d out', (Extract.dumpOne hashes t opts stop due out s).1 = (.ok d, out') ∧
      Verifies hashes path d out') ↔
    ∀ k, t.StopsAt opts stop 0 s k →
      k = 0 ∨ allZero (t.blockOf opts 0 s (k - 1)) = false := by
  constructor
  · intro h
    -- A hash that keeps everything tells every two images apart.
    obtain ⟨d, run, out', hdump, hfile, hsha, -, hiff⟩ :=
      ht.fresh_image hfresh { sha256 := id, sha1 := id, md5 := id } stop due out s
    obtain ⟨d', out'', hdump', file, hfile', hsha', -⟩ :=
      h { sha256 := id, sha1 := id, md5 := id }
    rw [hdump] at hdump'
    cases hdump'
    rw [hfile] at hfile'
    cases hfile'
    rw [hsha] at hsha'
    exact hiff.mp (hexBytes_inj hsha').symm
  · intro h hashes
    obtain ⟨d, run, out', hdump, hfile, hsha, hset, hiff⟩ :=
      ht.fresh_image hfresh hashes stop due out s
    have heq := hiff.mpr h
    refine ⟨d, out', hdump, run.sink.file, hfile, ?_, ?_⟩
    · rw [heq]
      exact hsha
    · intro files kind hpath
      exact check_of_digests hashes kind hpath (hset heq)

end Runs

/-! ## A hole before an unreadable block -/

theorem recorded_digest_iff_sevens :
    ∃ d out', (Extract.dumpOne someHashes (tornTarget (some (List.replicate 512 7))) strictOptions
      never never ⟨none, none⟩ ()).1 = (.ok d, out') ∧ Verifies someHashes "out.img" d out' := by
  refine (recorded_digest_iff (tornTarget_sound _) rfl never never ⟨none, none⟩ () "out.img").mpr ?_
    someHashes
  rintro k ⟨-, hk, -⟩
  have hblocks : (tornTarget (some (List.replicate 512 7))).blocks = 2 := by decide
  rw [hblocks] at hk
  interval_cases k
  · exact Or.inl rfl
  · exact Or.inr (by decide)

/-- The hole is hashed and the file stays empty. -/
theorem recorded_digest_differs :
    ¬ ∀ (σ : Type) (hashes : ImageHashes) (t : Target (StateM σ)) (opts : DumpOptions)
        (stop due : Nat → Bool) (out : Output) (s : σ) (path : String), t.Sound →
      opts.resume = false →
        ∃ d out', (Extract.dumpOne hashes t opts stop due out s).1 = (.ok d, out') ∧
          Verifies hashes path d out' := by
  intro h
  obtain ⟨d, run, out', hdump, hfile, hsha, -, hiff⟩ :=
    (tornTarget_sound none).fresh_image (show strictOptions.resume = false from rfl) someHashes
      never never ⟨none, none⟩ ()
  obtain ⟨d', out'', hdump', file, hfile', hsha', -⟩ :=
    h Unit someHashes (tornTarget none) strictOptions never never ⟨none, none⟩ () "out.img"
      (tornTarget_sound none) rfl
  rw [hdump] at hdump'
  cases hdump'
  rw [hfile] at hfile'
  cases hfile'
  rw [hsha] at hsha'
  have hstop : (tornTarget none).StopsAt strictOptions never 0 () 1 :=
    ⟨by decide, by decide, fun _ _ _ => rfl, by decide, by decide⟩
  rcases hiff.mp (hexBytes_inj hsha').symm 1 hstop with hk | hzero
  · cases hk
  · have hhole : allZero ((tornTarget none).blockOf strictOptions 0 () 0) = true := by
      decide +kernel
    rw [hhole] at hzero
    cases hzero

end Extract
end ZvolRescue
