import Mathlib.Data.List.Basic

namespace RiskApp.Lib.Csv

def quote : Char := Char.ofNat 34

def newline (c : Char) : Bool := c = '\r' || c = '\n'

def special (c : Char) : Bool := c = ',' || c = quote || newline c

def double (c : Char) : List Char := if c = quote then [quote, quote] else [c]

def quoted (field : List Char) : List Char := quote :: (field.flatMap double ++ [quote])

def writeField (field : List Char) : List Char := if field.any special then quoted field else field

def writeFields : List (List Char) → List Char
  | [] => []
  | [field] => writeField field
  | field :: fields => writeField field ++ ',' :: writeFields fields

/-- A row that has a single empty field is told from an empty row by its quotes. -/
def writeRow (row : List (List Char)) : List Char :=
  (if row = [[]] then quoted [] else writeFields row) ++ ['\r', '\n']

def write (rows : List (List (List Char))) : List Char := rows.flatMap writeRow

inductive Place
  | startRecord
  | startField
  | inField
  | inQuotes
  | afterQuote
  | afterReturn

/-- A reader of such a text, one character at a time. -/
structure Reader where
  place : Place
  field : List Char
  record : List (List Char)
  rows : List (List (List Char))

namespace Reader

def add (s : Reader) (c : Char) (place : Place) : Reader :=
  { s with place := place, field := s.field ++ [c] }

def endField (s : Reader) : Reader := ⟨.startField, [], s.record ++ [s.field], s.rows⟩

def endRecord (s : Reader) (record : List (List Char)) (c : Char) : Reader :=
  ⟨if c = '\r' then .afterReturn else .startRecord, [], [], s.rows ++ [record]⟩

def atField (s : Reader) (c : Char) : Reader :=
  if newline c then s.endRecord (s.record ++ [s.field]) c
  else if c = ',' then s.endField
  else if c = quote then { s with place := .inQuotes }
  else s.add c .inField

def atRecord (s : Reader) (c : Char) : Reader :=
  if newline c then s.endRecord [] c else s.atField c

def step (s : Reader) (c : Char) : Reader :=
  match s.place with
  | .startRecord => s.atRecord c
  | .afterReturn => if c = '\n' then { s with place := .startRecord } else s.atRecord c
  | .startField => s.atField c
  | .inField =>
    if newline c then s.endRecord (s.record ++ [s.field]) c
    else if c = ',' then s.endField
    else s.add c .inField
  | .inQuotes => if c = quote then { s with place := .afterQuote } else s.add c .inQuotes
  | .afterQuote =>
    if c = quote then s.add c .inQuotes
    else if newline c then s.endRecord (s.record ++ [s.field]) c
    else if c = ',' then s.endField
    else s.add c .inField

def finish (s : Reader) : List (List (List Char)) :=
  match s.place with
  | .startRecord | .afterReturn => s.rows
  | _ => s.rows ++ [s.record ++ [s.field]]

def run (s : Reader) (text : List Char) : Reader := text.foldl step s

theorem run_append (s : Reader) (text text' : List Char) :
    s.run (text ++ text') = (s.run text).run text' := List.foldl_append

theorem run_cons (s : Reader) (c : Char) (text : List Char) :
    s.run (c :: text) = (s.step c).run text := rfl

end Reader

def read (text : List Char) : List (List (List Char)) :=
  (Reader.run ⟨.startRecord, [], [], []⟩ text).finish

open Reader

variable {field before : List Char} {record row : List (List Char)} {rows : List (List (List Char))}

theorem not_special {c : Char} (h : special c = false) :
    newline c = false ∧ c ≠ ',' ∧ c ≠ quote := by
  unfold special at h
  rw [Bool.or_eq_false_iff, Bool.or_eq_false_iff] at h
  exact ⟨h.2, of_decide_eq_false h.1.1, of_decide_eq_false h.1.2⟩

theorem run_plain (h : ∀ c ∈ field, special c = false) :
    run ⟨.inField, before, record, rows⟩ field = ⟨.inField, before ++ field, record, rows⟩ := by
  induction field generalizing before with
  | nil => rw [List.append_nil]; rfl
  | cons c field ih =>
    obtain ⟨hline, hcomma, -⟩ := not_special (h c List.mem_cons_self)
    have hstep : step ⟨.inField, before, record, rows⟩ c =
        ⟨.inField, before ++ [c], record, rows⟩ := by
      unfold step
      dsimp only
      rw [hline, if_neg Bool.false_ne_true, if_neg hcomma]
      rfl
    rw [run_cons, hstep, ih fun d hd ↦ h d (List.mem_cons_of_mem c hd), List.append_assoc,
      List.singleton_append]

theorem run_double (field : List Char) :
    run ⟨.inQuotes, before, record, rows⟩ (field.flatMap double) =
      ⟨.inQuotes, before ++ field, record, rows⟩ := by
  induction field generalizing before with
  | nil => rw [List.append_nil]; rfl
  | cons c field ih =>
    have hchar : run ⟨.inQuotes, before, record, rows⟩ (double c) =
        ⟨.inQuotes, before ++ [c], record, rows⟩ := by
      unfold double
      by_cases hc : c = quote
      · subst hc
        rw [if_pos rfl]
        rfl
      · rw [if_neg hc, run_cons]
        unfold step
        dsimp only
        rw [if_neg hc]
        rfl
    rw [List.flatMap_cons, run_append, hchar, ih, List.append_assoc, List.singleton_append]

theorem run_field (field : List Char) (record : List (List Char))
    (rows : List (List (List Char))) :
    run ⟨.startField, [], record, rows⟩ (writeField field ++ [',']) =
        ⟨.startField, [], record ++ [field], rows⟩ ∧
      run ⟨.startField, [], record, rows⟩ (writeField field ++ ['\r', '\n']) =
        ⟨.startRecord, [], [], rows ++ [record ++ [field]]⟩ := by
  unfold writeField
  by_cases hspecial : field.any special = true
  · have hquoted : run ⟨.startField, [], record, rows⟩ (quoted field) =
        ⟨.afterQuote, field, record, rows⟩ := by
      unfold quoted
      have hopen : step ⟨.startField, [], record, rows⟩ quote =
          ⟨.inQuotes, [], record, rows⟩ := rfl
      rw [run_cons, hopen, run_append, run_double, List.nil_append]
      rfl
    rw [if_pos hspecial, run_append, run_append, hquoted]
    exact ⟨rfl, rfl⟩
  · rw [if_neg hspecial]
    have hplain : ∀ c ∈ field, special c = false := by
      intro c hc
      by_contra hno
      exact hspecial (List.any_eq_true.mpr ⟨c, hc, eq_true_of_ne_false hno⟩)
    cases field with
    | nil => exact ⟨rfl, rfl⟩
    | cons c field =>
      obtain ⟨hline, hcomma, hquote⟩ := not_special (hplain c List.mem_cons_self)
      have hstart : step ⟨.startField, [], record, rows⟩ c = ⟨.inField, [c], record, rows⟩ := by
        unfold step atField
        dsimp only
        rw [hline, if_neg Bool.false_ne_true, if_neg hcomma, if_neg hquote]
        rfl
      have hrun : run ⟨.startField, [], record, rows⟩ (c :: field) =
          ⟨.inField, c :: field, record, rows⟩ := by
        rw [run_cons, hstart, run_plain fun d hd ↦ hplain d (List.mem_cons_of_mem c hd)]
        rfl
      rw [run_append, run_append, hrun]
      exact ⟨rfl, rfl⟩

theorem run_fields (hrow : row ≠ []) (record : List (List Char))
    (rows : List (List (List Char))) :
    run ⟨.startField, [], record, rows⟩ (writeFields row ++ ['\r', '\n']) =
      ⟨.startRecord, [], [], rows ++ [record ++ row]⟩ := by
  induction row generalizing record with
  | nil => exact absurd rfl hrow
  | cons field row ih =>
    cases row with
    | nil => exact (run_field field record rows).2
    | cons next row =>
      have hsplit : writeFields (field :: next :: row) ++ ['\r', '\n'] =
          (writeField field ++ [',']) ++ (writeFields (next :: row) ++ ['\r', '\n']) := by
        simp [writeFields]
      rw [hsplit, run_append, (run_field field record rows).1, ih (List.cons_ne_nil _ _),
        List.append_assoc, List.singleton_append]

theorem writeField_head (hfield : field ≠ []) :
    ∃ c text, writeField field = c :: text ∧ newline c = false := by
  unfold writeField
  by_cases hspecial : field.any special = true
  · rw [if_pos hspecial]
    exact ⟨quote, _, rfl, rfl⟩
  · rw [if_neg hspecial]
    cases field with
    | nil => exact absurd rfl hfield
    | cons c field =>
      refine ⟨c, field, rfl, ?_⟩
      by_contra hno
      have hline : special c = true := by
        unfold special
        rw [eq_true_of_ne_false hno, Bool.or_true]
      exact hspecial (List.any_eq_true.mpr ⟨c, List.mem_cons_self, hline⟩)

/-- The text of a row does not begin with the end of a line, unless the row is empty. -/
theorem writeFields_head (hrow : row ≠ []) (hempty : row ≠ [[]]) :
    ∃ c text, writeFields row = c :: text ∧ newline c = false := by
  cases row with
  | nil => exact absurd rfl hrow
  | cons field row =>
    cases row with
    | nil => exact writeField_head fun h ↦ hempty (by rw [h])
    | cons next row =>
      unfold writeFields
      by_cases hfield : field = []
      · subst hfield
        exact ⟨',', _, rfl, rfl⟩
      · obtain ⟨c, text, htext, hline⟩ := writeField_head hfield
        rw [htext]
        exact ⟨c, _, rfl, hline⟩

theorem run_row (row : List (List Char)) (rows : List (List (List Char))) :
    run ⟨.startRecord, [], [], rows⟩ (writeRow row) = ⟨.startRecord, [], [], rows ++ [row]⟩ := by
  unfold writeRow
  by_cases hempty : row = [[]]
  · rw [if_pos hempty, hempty]
    rfl
  · rw [if_neg hempty]
    cases row with
    | nil => rfl
    | cons field row =>
      have hrow : field :: row ≠ [] := List.cons_ne_nil _ _
      have hfields := run_fields hrow [] rows
      obtain ⟨c, text, htext, hline⟩ := writeFields_head hrow hempty
      have hstart : step ⟨.startRecord, [], [], rows⟩ c = step ⟨.startField, [], [], rows⟩ c := by
        unfold step atRecord
        dsimp only
        rw [hline, if_neg Bool.false_ne_true]
        rfl
      rw [htext, List.cons_append, run_cons] at hfields ⊢
      rw [hstart, hfields, List.nil_append]

theorem run_write (written : List (List (List Char))) (rows : List (List (List Char))) :
    run ⟨.startRecord, [], [], rows⟩ (write written) =
      ⟨.startRecord, [], [], rows ++ written⟩ := by
  induction written generalizing rows with
  | nil => rw [List.append_nil]; rfl
  | cons row written ih =>
    unfold write at ih ⊢
    rw [List.flatMap_cons, run_append, run_row, ih, List.append_assoc, List.singleton_append]

/-- What is written is read back, whatever the fields contain. -/
theorem read_write (rows : List (List (List Char))) : read (write rows) = rows := by
  unfold read
  rw [run_write]
  rfl

section Formulas

variable (isSpace : Char → Bool) (marks : List Char)

/-- A spreadsheet takes such a text for a formula. -/
def formula (text : List Char) : Bool := (text.dropWhile isSpace).head?.any (· ∈ marks)

def guarded (mark : Char) (text : List Char) : List Char :=
  if formula isSpace marks text then mark :: text else text

theorem guarded_not_formula {mark : Char} (hspace : isSpace mark = false) (hmark : mark ∉ marks)
    (text : List Char) : formula isSpace marks (guarded isSpace marks mark text) = false := by
  unfold guarded
  by_cases h : formula isSpace marks text = true
  · rw [if_pos h]
    unfold formula
    rw [List.dropWhile_cons, hspace, if_neg Bool.false_ne_true]
    exact decide_eq_false hmark
  · rw [if_neg h]
    exact eq_false_of_ne_true h

theorem guarded_cases (mark : Char) (text : List Char) :
    guarded isSpace marks mark text = text ∨ formula isSpace marks text = true ∧
      guarded isSpace marks mark text = mark :: text := by
  unfold guarded
  by_cases h : formula isSpace marks text = true
  · rw [if_pos h]
    exact Or.inr ⟨h, rfl⟩
  · rw [if_neg h]
    exact Or.inl rfl

end Formulas

end RiskApp.Lib.Csv
