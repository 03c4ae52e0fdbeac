import Mathlib.Data.List.Forall2
import RiskApp.Lib.Csv
import RiskApp.Server.Models

namespace RiskApp

open Lib Csv

/-- `_DANGEROUS_PREFIXES` of the client, and `_FORMULA_PREFIXES` of the server. -/
def formulaPrefixes : List Char := ['=', '+', '-', '@']

def FormulaLike (text : List Char) : Prop := formula Text.isSpace formulaPrefixes text = true

/-- What stands for a text in a file: the text, behind a quote if it looks like a formula. -/
structure Shown (text cell : List Char) : Prop where
  harmless : ¬ FormulaLike cell
  cases : cell = text ∨ FormulaLike text ∧ cell = '\x27' :: text

namespace Client

def sanitizeCsvCell (value : List Char) : List Char :=
  guarded Text.isSpace formulaPrefixes '\x27' value

inductive FieldValue
  | text (s : List Char)
  | number (n : ℤ)

def FieldValue.str : FieldValue → List Char
  | text s => s
  | number n => (toString n).toList

/-- `int`, which raises for a text that is no number. -/
def FieldValue.int : FieldValue → Option ℤ
  | text s => Text.toInt s
  | number n => some n

def cell : Option FieldValue → List Char
  | none => []
  | some value => sanitizeCsvCell value.str

def scoredEntityCsvColumns : List String :=
  ["code", "title", "category", "status", "owner_user_id", "probability", "impact", "score",
    "identified_at", "response_at", "occurred_at", "description", "threat", "triggers"]

def numericCols : List String := ["probability", "impact", "score"]

def outCell (ent : String → Option FieldValue) (col : String) : Option (List Char) :=
  match ent col with
  | none => some []
  | some value =>
    if col ∈ numericCols then value.int.map fun n ↦ (toString n).toList
    else some (cell (some value))

/-- `_export_scored_entities`: the text of the file and the number of rows, if nothing raises. -/
def exportScoredEntities (items : List (String → Option FieldValue)) :
    Option (List Char × ℕ) := do
  let rows ← items.mapM fun ent ↦ scoredEntityCsvColumns.mapM (outCell ent)
  return (write (scoredEntityCsvColumns.map String.toList :: rows), items.length)

inductive CellOf (ent : String → Option FieldValue) (col : String) : List Char → Prop
  | empty (absent : ent col = none) : CellOf ent col []
  | number {value : FieldValue} {n : ℤ} (held : ent col = some value) (numeric : col ∈ numericCols)
      (reads : value.int = some n) : CellOf ent col (toString n).toList
  | text {value : FieldValue} {cell : List Char} (held : ent col = some value)
      (free : col ∉ numericCols) (shown : Shown value.str cell) : CellOf ent col cell

end Client

theorem guarded_shown (text : List Char) :
    Shown text (guarded Text.isSpace formulaPrefixes '\x27' text) := by
  refine ⟨?_, guarded_cases _ _ _ _⟩
  unfold FormulaLike
  rw [guarded_not_formula Text.isSpace formulaPrefixes (by decide) (by decide)]
  exact Bool.false_ne_true

namespace Client

theorem outCell_cellOf {ent : String → Option FieldValue} {col : String} {c : List Char}
    (h : outCell ent col = some c) : CellOf ent col c := by
  unfold outCell at h
  cases held : ent col with
  | none =>
    rw [held] at h
    cases h
    exact .empty held
  | some value =>
    rw [held] at h
    dsimp only at h
    split at h
    · rename_i hnumeric
      obtain ⟨n, hn, rfl⟩ := Option.map_eq_some_iff.mp h
      exact .number held hnumeric hn
    · rename_i hfree
      cases h
      exact .text held hfree (guarded_shown _)

theorem mapM_forall₂ {α β : Type} {f : α → Option β} {l : List α} {l' : List β}
    (h : l.mapM f = some l') : List.Forall₂ (fun a b ↦ f a = some b) l l' := by
  induction l generalizing l' with
  | nil =>
    rw [List.mapM_nil] at h
    cases h
    exact .nil
  | cons a l ih =>
    rw [List.mapM_cons] at h
    obtain ⟨b, hb, h⟩ := Option.bind_eq_some_iff.mp h
    obtain ⟨bs, hbs, h⟩ := Option.bind_eq_some_iff.mp h
    cases h
    exact .cons hb (ih hbs)

theorem mapM_none {α β : Type} {f : α → Option β} {l : List α} (h : l.mapM f = none) :
    ∃ a ∈ l, f a = none := by
  induction l with
  | nil =>
    rw [List.mapM_nil] at h
    cases h
  | cons a l ih =>
    cases hb : f a with
    | none => exact ⟨a, List.mem_cons_self, hb⟩
    | some b =>
      cases hbs : l.mapM f with
      | none =>
        obtain ⟨a', ha', hnone⟩ := ih hbs
        exact ⟨a', List.mem_cons_of_mem a ha', hnone⟩
      | some bs =>
        rw [List.mapM_cons, hb, hbs] at h
        cases h

theorem outCell_none {ent : String → Option FieldValue} {col : String}
    (h : outCell ent col = none) :
    col ∈ numericCols ∧ ∃ s, ent col = some (.text s) ∧ Text.toInt s = none := by
  unfold outCell at h
  cases held : ent col with
  | none =>
    rw [held] at h
    cases h
  | some value =>
    rw [held] at h
    dsimp only at h
    split at h
    · rename_i hnumeric
      have hint := Option.map_eq_none_iff.mp h
      cases value with
      | text s => exact ⟨hnumeric, s, rfl, hint⟩
      | number n => cases hint
    · cases h

/-- The export fails only for a numeric column that holds no number. -/
theorem exportScoredEntities_read (items : List (String → Option FieldValue)) :
    match exportScoredEntities items with
    | some (text, rowsWritten) => rowsWritten = items.length ∧ ∃ rows,
        Csv.read text = scoredEntityCsvColumns.map String.toList :: rows ∧
        List.Forall₂ (fun ent row ↦ List.Forall₂ (CellOf ent) scoredEntityCsvColumns row) items rows
    | none => ∃ ent ∈ items, ∃ col ∈ numericCols, ∃ s, ent col = some (.text s) ∧
        Text.toInt s = none := by
  cases hrows : items.mapM fun ent ↦ scoredEntityCsvColumns.mapM (outCell ent) with
  | none =>
    have hexport : exportScoredEntities items = none := by
      unfold exportScoredEntities
      rw [hrows]
      rfl
    rw [hexport]
    obtain ⟨ent, hent, hrow⟩ := mapM_none hrows
    obtain ⟨col, -, hcell⟩ := mapM_none hrow
    obtain ⟨hnumeric, s, held, hint⟩ := outCell_none hcell
    exact ⟨ent, hent, col, hnumeric, s, held, hint⟩
  | some rows =>
    have hexport : exportScoredEntities items =
        some (write (scoredEntityCsvColumns.map String.toList :: rows), items.length) := by
      unfold exportScoredEntities
      rw [hrows]
      rfl
    rw [hexport]
    refine ⟨rfl, rows, read_write _, ?_⟩
    refine (mapM_forall₂ hrows).imp fun ent row hrow ↦ ?_
    exact (mapM_forall₂ hrow).imp fun col c hcell ↦ outCell_cellOf hcell

end Client

namespace Server

def csvColumns : List (Attr × String) :=
  [(.id, "id"), (.type, "type"), (.code, "code"), (.title, "title"), (.category, "category"),
    (.status, "status"), (.probability, "probability"), (.impact, "impact"), (.score, "score"),
    (.ownerUserId, "owner_user_id"), (.identifiedAt, "identified_at"), (.updatedAt, "updated_at"),
    (.version, "version"), (.isDeleted, "is_deleted")]

/-- `safe_csv_cell`, as the writer puts it down; `str` gives the texts of ids and moments. -/
def safeCsvCell (str : Val → List Char) : Val → List Char
  | .null => []
  | .bool b => (if b then "True" else "False").toList
  | .int n => (toString n).toList
  | .str s => guarded Text.isSpace formulaPrefixes '\x27' s.toList
  | value => guarded Text.isSpace formulaPrefixes '\x27' (str value)

/-- The lines that `item_csv_rows` yields for the items of the page. -/
def itemCsvRows (str : Val → List Char) (page : List Row) : List (List Char) :=
  writeRow (csvColumns.map fun c ↦ c.2.toList) ::
    page.map fun obj ↦ writeRow (csvColumns.map fun c ↦ safeCsvCell str (obj.get c.1))

inductive CellOf (str : Val → List Char) : Val → List Char → Prop
  | null : CellOf str .null []
  | bool (b : Bool) : CellOf str (.bool b) (if b then "True" else "False").toList
  | int (n : ℤ) : CellOf str (.int n) (toString n).toList
  | text {s : String} {cell : List Char} (shown : Shown s.toList cell) : CellOf str (.str s) cell
  | uuid {u : Uuid} {cell : List Char} (shown : Shown (str (.uuid u)) cell) :
      CellOf str (.uuid u) cell
  | time {t : Time} {cell : List Char} (shown : Shown (str (.time t)) cell) :
      CellOf str (.time t) cell
  | zoned {t : Time} {offset : ℤ} {cell : List Char}
      (shown : Shown (str (.zoned t offset)) cell) : CellOf str (.zoned t offset) cell
  | other {json : String} {cell : List Char} (shown : Shown (str (.other json)) cell) :
      CellOf str (.other json) cell

theorem safeCsvCell_cellOf (str : Val → List Char) (value : Val) :
    CellOf str value (safeCsvCell str value) := by
  cases value with
  | null => exact .null
  | bool b => exact .bool b
  | int n => exact .int n
  | str s => exact .text (guarded_shown _)
  | uuid u => exact .uuid (guarded_shown _)
  | time t => exact .time (guarded_shown _)
  | zoned t offset => exact .zoned (guarded_shown _)
  | other json => exact .other (guarded_shown _)

theorem itemCsvRows_read (str : Val → List Char) (page : List Row) :
    ∃ rows, Csv.read (itemCsvRows str page).flatten =
        csvColumns.map (fun c ↦ c.2.toList) :: rows ∧
      List.Forall₂ (fun obj row ↦
        List.Forall₂ (fun c cell ↦ CellOf str (Row.get obj c.1) cell) csvColumns row) page rows ∧
      (itemCsvRows str page).map Csv.read =
        (csvColumns.map (fun c ↦ c.2.toList) :: rows).map fun row ↦ [row] := by
  let rows := page.map fun obj ↦ csvColumns.map fun c ↦ safeCsvCell str (obj.get c.1)
  have hlines : itemCsvRows str page =
      (csvColumns.map (fun c ↦ c.2.toList) :: rows).map writeRow := by
    unfold itemCsvRows
    rw [List.map_cons, List.map_map]
    rfl
  refine ⟨rows, ?_, ?_, ?_⟩
  · rw [hlines, ← List.flatMap_def]
    exact read_write _
  · refine List.forall₂_map_right_iff.mpr (List.forall₂_same.mpr fun obj _ ↦ ?_)
    refine List.forall₂_map_right_iff.mpr (List.forall₂_same.mpr fun c _ ↦ ?_)
    exact safeCsvCell_cellOf str _
  · rw [hlines, List.map_map]
    refine List.map_congr_left fun row _ ↦ ?_
    have hone := read_write [row]
    rwa [write, List.flatMap_singleton] at hone

end Server

/-- Both exports read back as they are, whatever the texts contain: the header and one row for each
entity, in their order, with a cell for each column, and no text is taken for a formula. The
client's fails only for a numeric column that holds no number, and each piece that the server
streams is one whole row. -/
theorem csv_exports_read_back :
    (∀ items, match Client.exportScoredEntities items with
      | some (text, rowsWritten) => rowsWritten = items.length ∧ ∃ rows,
          Csv.read text = Client.scoredEntityCsvColumns.map String.toList :: rows ∧
          List.Forall₂ (fun ent row ↦
            List.Forall₂ (Client.CellOf ent) Client.scoredEntityCsvColumns row) items rows
      | none => ∃ ent ∈ items, ∃ col ∈ Client.numericCols, ∃ s, ent col = some (.text s) ∧
          Text.toInt s = none) ∧
    ∀ str page, ∃ rows, Csv.read (Server.itemCsvRows str page).flatten =
        Server.csvColumns.map (fun c ↦ c.2.toList) :: rows ∧
      List.Forall₂ (fun obj row ↦ List.Forall₂
        (fun c cell ↦ Server.CellOf str (Server.Row.get obj c.1) cell) Server.csvColumns row)
        page rows ∧
      (Server.itemCsvRows str page).map Csv.read =
        (Server.csvColumns.map (fun c ↦ c.2.toList) :: rows).map fun row ↦ [row] :=
  ⟨Client.exportScoredEntities_read, Server.itemCsvRows_read⟩

end RiskApp
