import Mathlib.Data.List.Forall2
import Mathlib.Data.List.Nodup
import RiskApp.Lib.Autocommit
import RiskApp.Text

namespace RiskApp.Client.SchemaMigration

open Lib.Autocommit

/-- A value of a column. Of a REAL or a BLOB only what `str`, `int` and `bool` give is kept. -/
inductive SqlValue
  | null
  | integer (n : ℤ)
  | text (s : List Char)
  | other (shown : List Char) (number : Option ℤ) (truth : Bool)
  deriving DecidableEq

namespace SqlValue

def truthy : SqlValue → Bool
  | .null => false
  | .integer n => n ≠ 0
  | .text s => s ≠ []
  | .other _ _ truth => truth

def str : SqlValue → List Char
  | .null => "None".toList
  | .integer n => (toString n).toList
  | .text s => s
  | .other shown _ _ => shown

def int : SqlValue → Option ℤ
  | .null => none
  | .integer n => some n
  | .text s => Text.toInt s
  | .other _ number _ => number

def or (v default : SqlValue) : SqlValue := if v.truthy then v else default

end SqlValue

inductive Column
  | id
  | projectId
  | riskId
  | opportunityId
  | itemId
  | itemType
  | assessorUserId
  | probability
  | impact
  | score
  | notes
  | version
  | isDeleted
  | updatedAt
  | dirty
  deriving DecidableEq

abbrev SqlRow := Column → SqlValue

/-- A table with the tables that its foreign keys refer to. -/
structure SqlTable where
  columns : List Column
  references : List String
  rows : List SqlRow

/-- The local database: the ids of the projects, the table of assessments and what it was renamed
to, and everything else. -/
structure Database (ω : Type) where
  projects : List (List Char)
  assessments : Option SqlTable
  assessmentsOld : Option SqlTable
  others : ω

def assessmentsTable : SqlTable where
  columns :=
    [.id, .projectId, .riskId, .opportunityId, .itemId, .itemType, .assessorUserId, .probability,
      .impact, .score, .notes, .version, .isDeleted, .updatedAt, .dirty]
  references := ["projects"]
  rows := []

def selectNames : List Column :=
  [.id, .projectId, .riskId, .itemId, .itemType, .assessorUserId, .probability, .impact, .score,
    .notes, .version, .isDeleted, .updatedAt, .dirty]

def addedColumns : List (Column × SqlValue) :=
  [(.itemId, .text []), (.itemType, .text "risk".toList), (.score, .integer 0),
    (.opportunityId, .null)]

section

/-- `_row_get`, on a row with the columns of `cols`. -/
def rowGet (cols : List Column) (r : SqlRow) (c : Column) (default : SqlValue) : SqlValue :=
  if c ∈ cols then r c else default

/-- `str(_row_get(r, "item_id") or _row_get(r, "risk_id") or "")`. -/
def newItemId (cols : List Column) (r : SqlRow) : List Char :=
  (((rowGet cols r .itemId .null).or (rowGet cols r .riskId .null)).or (.text [])).str

def newItemType (cols : List Column) (r : SqlRow) : List Char :=
  let itemType := Text.lower
    (Text.strip ((rowGet cols r .itemType .null).or (.text "risk".toList)).str)
  if itemType = [] then "risk".toList else itemType

def convert (cols : List Column) (r : SqlRow) (c : Column) : Option SqlValue :=
  match c with
  | .id | .projectId | .assessorUserId => some (.text (rowGet cols r c (.text [])).str)
  | .riskId =>
    some (if newItemType cols r = "risk".toList then .text (newItemId cols r) else .null)
  | .opportunityId =>
    some (if newItemType cols r = "opportunity".toList then .text (newItemId cols r) else .null)
  | .itemId => some (.text (newItemId cols r))
  | .itemType => some (.text (newItemType cols r))
  | .probability | .impact => ((rowGet cols r c (.integer 1)).or (.integer 1)).int.map .integer
  | .score | .version | .isDeleted | .dirty =>
    ((rowGet cols r c (.integer 0)).or (.integer 0)).int.map .integer
  | .notes | .updatedAt => some (.text ((rowGet cols r c (.text [])).or (.text [])).str)

def newRow (cols : List Column) (r : SqlRow) : Option SqlRow :=
  if assessmentsTable.columns.all fun c ↦ (convert cols r c).isSome then
    some fun c ↦ (convert cols r c).getD .null
  else none

end

variable {ω : Type}

namespace Database

def renameAssessments (db : Database ω) : Option (Database ω) :=
  match db.assessments, db.assessmentsOld with
  | some t, none => some { db with assessments := none, assessmentsOld := some t }
  | _, _ => none

def createAssessments (db : Database ω) : Option (Database ω) :=
  some { db with assessments := some (db.assessments.getD assessmentsTable) }

def dropOld (db : Database ω) : Option (Database ω) :=
  db.assessmentsOld.map fun _ ↦ { db with assessmentsOld := none }

def insertAssessment (r : SqlRow) (db : Database ω) : Option (Database ω) :=
  db.assessments.bind fun t ↦
    if r .id ∈ t.rows.map (· .id) || db.projects.all (· ≠ (r .projectId).str) then none
    else some { db with assessments := some { t with rows := t.rows ++ [r] } }

def addColumn (c : Column × SqlValue) (db : Database ω) : Option (Database ω) :=
  db.assessments.map fun t ↦
    { db with
      assessments := some { t with
        columns := t.columns ++ [c.1]
        rows := t.rows.map fun r ↦ Function.update r c.1 c.2 } }

def referencesRisks (db : Database ω) : Bool :=
  db.assessments.any fun t ↦ "risks" ∈ t.references

def oldColumns (db : Database ω) : List Column :=
  (db.assessmentsOld.map SqlTable.columns).getD []

def oldRows (db : Database ω) : List SqlRow := (db.assessmentsOld.map SqlTable.rows).getD []

end Database

open Database

def copyRow (cols : List Column) (r : SqlRow) : Option (Database ω → Option (Database ω)) :=
  (newRow cols r).map insertAssessment

/-- `_migrate_assessments_table` behind the CREATE. -/
def copyAssessments (k : Script (Database ω)) : Script (Database ω) :=
  .read fun db ↦
    let selectCols := selectNames.filter (· ∈ db.oldColumns)
    if selectCols = [] then .ddl dropOld k
    else .read fun db ↦ .each (copyRow selectCols) db.oldRows (.ddl dropOld k)

def migrateAssessmentsTable (k : Script (Database ω)) : Script (Database ω) :=
  .ddl renameAssessments <| .ddl createAssessments <| copyAssessments k

/-- `ensure_columns` for the assessments. -/
def ensureColumns (k : Script (Database ω)) : Script (Database ω) :=
  .read fun db ↦
    let existing := (db.assessments.map SqlTable.columns).getD []
    .all ((addedColumns.filter (·.1 ∉ existing)).map addColumn) k

/-- The schema statements of the other tables, which come before and after those of the
assessments. -/
structure OtherStatements (ω : Type) where
  tablesBefore : List (ω → Option ω)
  tablesAfter : List (ω → Option ω)
  columnsAfter : List (ω → Option ω)

def onOthers (f : ω → Option ω) (db : Database ω) : Option (Database ω) :=
  (f db.others).map fun others ↦ { db with others := others }

def completeSchema (o : OtherStatements ω) : Script (Database ω) :=
  .all (o.tablesBefore.map onOthers) <| .ddl createAssessments <|
    .all (o.tablesAfter.map onOthers) <| ensureColumns <|
      .all (o.columnsAfter.map onOthers) <| .commit <| .read fun _ ↦ .read fun _ ↦ .done

/-- `ensure_schema`; the PRAGMAs leave the tables alone, and where the foreign keys cannot be listed
there are none. -/
def ensureSchema (o : OtherStatements ω) : Script (Database ω) :=
  .read fun _ ↦ .read fun _ ↦ .read fun _ ↦ .read fun db ↦
    if db.assessments.isSome then
      .tryRead (fun db ↦
        if db.referencesRisks then migrateAssessmentsTable (.commit (completeSchema o))
        else completeSchema o)
        (completeSchema o)
    else completeSchema o

def start (o : OtherStatements ω) (faults : List Fault) (db : Database ω) : Bool × Database ω :=
  let (completed, c) := (ensureSchema o).run faults (.idle db)
  (completed, c.committed)

def itemOf (cols : List Column) (r : SqlRow) : SqlValue :=
  (((rowGet cols r .itemId .null).or (rowGet cols r .riskId .null)).or
    (rowGet cols r .opportunityId .null)).or (.text [])

def keptColumns : List Column :=
  [.id, .projectId, .itemType, .assessorUserId, .probability, .impact, .score, .notes, .version,
    .isDeleted, .updatedAt, .dirty]

/-- The new row says what the old one said. -/
structure Preserved (cols : List Column) (old new : SqlRow) : Prop where
  same : ∀ c ∈ keptColumns, c ∈ cols → new c = old c
  typed : .itemType ∉ cols → new .itemType = .text "risk".toList
  item : new .itemId = itemOf cols old
  risk : new .riskId =
    if new .itemType = .text "risk".toList then new .itemId else .null
  opportunity : new .opportunityId =
    if new .itemType = .text "opportunity".toList then new .itemId else .null

/-- Every old row is in the table once, and the foreign key is gone. -/
structure Migrated (old : SqlTable) (db : Database ω) : Prop where
  released : db.referencesRisks = false
  rows : ∃ t, db.assessments = some t ∧ List.Forall₂ (Preserved old.columns) old.rows t.rows

structure Extends (t t' : SqlTable) : Prop where
  columns : t.columns ⊆ t'.columns
  references : t'.references = t.references
  rows : List.Forall₂ (fun r r' ↦ ∀ c ∈ t.columns, r' c = r c) t.rows t'.rows

/-- The next start finds the old rows in a table that it migrates. -/
structure Awaiting (old : SqlTable) (db : Database ω) : Prop where
  legacy : db.referencesRisks = true
  rows : ∃ t, db.assessments = some t ∧ Extends old t

/-- A start ends with the migrated table, or it has failed on the way and the next one migrates. -/
def Lossless (old : SqlTable) (faults : List Fault) (result : Bool × Database ω) : Prop :=
  Migrated old result.2 ∨
    (result.1 = false ∨ ∃ fault ∈ faults, fault ≠ .none) ∧ Awaiting old result.2

/-- A database from before the alias of opportunities. -/
structure Legacy (old : SqlTable) (db : Database ω) : Prop where
  table : db.assessments = some old
  riskId : .riskId ∈ old.columns
  foreignKey : "risks" ∈ old.references

def Fits (c : Column) (v : SqlValue) : Prop :=
  match c with
  | .id | .projectId | .assessorUserId | .notes | .updatedAt => ∃ s, v = .text s
  | .itemType => ∃ s, v = .text s ∧ s ≠ [] ∧ Text.lower (Text.strip s) = s
  | .probability | .impact => ∃ n, v = .integer n ∧ n ≠ 0
  | .score | .version | .isDeleted | .dirty => ∃ n, v = .integer n
  | .riskId | .opportunityId | .itemId => True

/-- A row that the migration can carry over: nothing of it is missing, zero where a zero counts as
missing, or of another type, and its item is not in the alias of opportunities alone. -/
structure Convertible (cols : List Column) (r : SqlRow) : Prop where
  fits : ∀ c ∈ keptColumns, c ∈ cols → Fits c (r c)
  item : ∃ s, itemOf cols r = .text s
  named : itemOf cols r = .text [] ∨
    ((rowGet cols r .itemId .null).or (rowGet cols r .riskId .null)).truthy = true

/-- A table that the migration can carry over: no two rows share their id, and the projects of the
rows exist. -/
structure Preservable (projects : List (List Char)) (old : SqlTable) : Prop where
  rows : ∀ r ∈ old.rows, Convertible old.columns r
  ids : (old.rows.map fun r ↦ rowGet old.columns r .id (.text [])).Nodup
  projects : ∀ r ∈ old.rows, (rowGet old.columns r .projectId (.text [])).str ∈ projects

section Rows

variable {cols : List Column} {r new : SqlRow} {c : Column} {v : SqlValue}

theorem text_str : .text v.str = v ↔ ∃ s, v = .text s := by
  cases v <;> simp [SqlValue.str]

theorem text_or_str : .text (v.or (.text [])).str = v ↔ ∃ s, v = .text s := by
  cases v with
  | null => simp [SqlValue.or, SqlValue.truthy]
  | integer n => simp
  | text s => by_cases hs : s = [] <;> simp [SqlValue.or, SqlValue.truthy, SqlValue.str, hs]
  | other shown number truth => simp

theorem integer_or_zero :
    (v.or (.integer 0)).int.map .integer = some v ↔ ∃ n, v = .integer n := by
  cases v with
  | integer n => by_cases hn : n = 0 <;> simp [SqlValue.or, SqlValue.truthy, SqlValue.int, hn]
  | null | text | other => simp

theorem integer_or_one :
    (v.or (.integer 1)).int.map .integer = some v ↔ ∃ n, v = .integer n ∧ n ≠ 0 := by
  cases v with
  | integer n => by_cases hn : n = 0 <;> simp [SqlValue.or, SqlValue.truthy, SqlValue.int, hn]
  | null | text | other => simp

theorem rowGet_mem (h : c ∈ cols) (default : SqlValue) : rowGet cols r c default = r c := if_pos h

theorem newItemType_ne_nil (cols : List Column) (r : SqlRow) : newItemType cols r ≠ [] := by
  unfold newItemType
  dsimp only
  split
  · decide
  · assumption

theorem newItemType_of_not_mem (h : .itemType ∉ cols) : newItemType cols r = "risk".toList := by
  unfold newItemType rowGet
  rw [if_neg h]
  decide

theorem newItemType_fits (h : .itemType ∈ cols) :
    .text (newItemType cols r) = r .itemType ↔ Fits .itemType (r .itemType) := by
  have hne := newItemType_ne_nil cols r
  unfold Fits
  cases hv : r .itemType with
  | text s =>
    by_cases hs : s = []
    · simp [hs, hne]
    · have htype : newItemType cols r =
          if Text.lower (Text.strip s) = [] then "risk".toList else Text.lower (Text.strip s) := by
        unfold newItemType
        rw [rowGet_mem h, hv]
        simp [SqlValue.or, SqlValue.truthy, SqlValue.str, hs]
      rw [htype]
      split
      · rename_i hlower
        have hrisk : Text.lower (Text.strip "risk".toList) ≠ [] := by decide
        constructor
        · rintro ⟨⟩
          exact absurd hlower hrisk
        · rintro ⟨_, ⟨⟩, -, hnormal⟩
          exact absurd (hnormal.symm.trans hlower) hs
      · simp [hs]
  | null | integer | other => simp

theorem newItemId_item :
    .text (newItemId cols r) = itemOf cols r ↔
      (∃ s, itemOf cols r = .text s) ∧ (itemOf cols r = .text [] ∨
        ((rowGet cols r .itemId .null).or (rowGet cols r .riskId .null)).truthy = true) := by
  unfold newItemId itemOf
  generalize (rowGet cols r .itemId .null).or (rowGet cols r .riskId .null) = v
  generalize rowGet cols r .opportunityId .null = w
  by_cases hv : v.truthy = true
  · have hor : ∀ d, v.or d = v := fun _ ↦ if_pos hv
    simp [hor, hv, text_str]
  · have hor : ∀ d, v.or d = d := fun _ ↦ if_neg hv
    have hempty : (SqlValue.text []).str = [] := rfl
    simp only [hor, hempty]
    constructor
    · exact fun h ↦ ⟨⟨[], h.symm⟩, Or.inl h.symm⟩
    · exact fun h ↦ (h.2.resolve_right hv).symm

theorem convert_same (hkept : c ∈ keptColumns) (h : c ∈ cols) :
    convert cols r c = some (r c) ↔ Fits c (r c) := by
  have hget : ∀ default, rowGet cols r c default = r c := rowGet_mem h
  cases c with
  | id | projectId | assessorUserId => simp only [convert, hget, Option.some.injEq, Fits, text_str]
  | notes | updatedAt => simp only [convert, hget, Option.some.injEq, Fits, text_or_str]
  | probability | impact => simp only [convert, hget, Fits, integer_or_one]
  | score | version | isDeleted | dirty => simp only [convert, hget, Fits, integer_or_zero]
  | itemType => exact Option.some_inj.trans (newItemType_fits h)
  | riskId | opportunityId | itemId => simp [keptColumns] at hkept

theorem mem_columns (c : Column) : c ∈ assessmentsTable.columns := by
  cases c <;> decide

theorem newRow_iff : newRow cols r = some new ↔ ∀ c, convert cols r c = some (new c) := by
  unfold newRow
  split
  · rename_i hsome
    rw [List.all_eq_true] at hsome
    constructor
    · rintro h c
      obtain rfl := Option.some.inj h
      obtain ⟨v, hv⟩ := Option.isSome_iff_exists.mp (hsome c (mem_columns c))
      change convert cols r c = some ((convert cols r c).getD .null)
      rw [hv]
      rfl
    · intro h
      refine congrArg some (funext fun c ↦ ?_)
      rw [h c]
      rfl
  · rename_i hsome
    simp only [reduceCtorEq, false_iff]
    intro h
    refine hsome (List.all_eq_true.mpr fun c _ ↦ ?_)
    rw [h c]
    rfl

/-- The row that is inserted says what the old one said exactly if the old one can be carried
over. -/
theorem preserved_iff (h : newRow cols r = some new) :
    Preserved cols r new ↔ Convertible cols r := by
  rw [newRow_iff] at h
  have hitem : .text (newItemId cols r) = new .itemId := Option.some.inj (h .itemId)
  have htype : .text (newItemType cols r) = new .itemType := Option.some.inj (h .itemType)
  have hsame : ∀ c ∈ keptColumns, c ∈ cols → (new c = r c ↔ Fits c (r c)) := by
    intro c hkept hc
    rw [← convert_same hkept hc, h c, Option.some.injEq]
  constructor
  · intro hp
    have hnamed := newItemId_item.mp (hitem.trans hp.item)
    exact ⟨fun c hkept hc ↦ (hsame c hkept hc).mp (hp.same c hkept hc), hnamed.1, hnamed.2⟩
  · intro hc
    refine ⟨fun c hkept hmem ↦ (hsame c hkept hmem).mpr (hc.fits c hkept hmem), fun hno ↦ ?_,
      hitem.symm.trans (newItemId_item.mpr ⟨hc.item, hc.named⟩), ?_, ?_⟩
    · rw [← htype, newItemType_of_not_mem hno]
    · rw [← Option.some.inj (h .riskId), ← htype, ← hitem]
      simp only [SqlValue.text.injEq]
    · rw [← Option.some.inj (h .opportunityId), ← htype, ← hitem]
      simp only [SqlValue.text.injEq]

theorem convert_of_not_mem (h : c ∉ cols) : ∃ v, convert cols r c = some v := by
  have hget : ∀ default, rowGet cols r c default = default := fun _ ↦ if_neg h
  cases c with
  | id | projectId | assessorUserId | riskId | opportunityId | itemId | itemType | notes
  | updatedAt => exact ⟨_, rfl⟩
  | probability | impact =>
    refine ⟨.integer 1, ?_⟩
    rw [convert, hget]
    rfl
  | score | version | isDeleted | dirty =>
    refine ⟨.integer 0, ?_⟩
    rw [convert, hget]
    rfl

theorem Convertible.newRow (h : Convertible cols r) : ∃ new, newRow cols r = some new := by
  have hsome : ∀ c, ∃ v, convert cols r c = some v := by
    intro c
    by_cases hc : c ∈ cols
    · by_cases hkept : c ∈ keptColumns
      · exact ⟨_, (convert_same hkept hc).mpr (h.fits c hkept hc)⟩
      · cases c with
        | riskId | opportunityId | itemId => exact ⟨_, rfl⟩
        | _ => exact absurd (by decide) hkept
    · exact convert_of_not_mem hc
  choose new hnew using hsome
  exact ⟨new, newRow_iff.mpr hnew⟩

end Rows

section Copying

variable {cols : List Column} {old t : SqlTable} {db db' : Database ω}

theorem newRow_select (r : SqlRow) : newRow (selectNames.filter (· ∈ cols)) r = newRow cols r := by
  have hget : ∀ c default, c ∈ selectNames →
      rowGet (selectNames.filter (· ∈ cols)) r c default = rowGet cols r c default := by
    intro c default hc
    unfold rowGet
    simp [List.mem_filter, hc]
  have hconvert : ∀ c, convert (selectNames.filter (· ∈ cols)) r c = convert cols r c := by
    have hid : newItemId (selectNames.filter (· ∈ cols)) r = newItemId cols r := by
      unfold newItemId
      rw [hget _ _ (by decide), hget _ _ (by decide)]
    have htype : newItemType (selectNames.filter (· ∈ cols)) r = newItemType cols r := by
      unfold newItemType
      rw [hget _ _ (by decide)]
    intro c
    cases c with
    | itemId | itemType | riskId | opportunityId => simp only [convert, hid, htype]
    | _ =>
      simp only [convert]
      rw [hget _ _ (by decide)]
  unfold newRow
  simp only [hconvert]

theorem insertAssessment_eq (ht : db.assessments = some t) (r : SqlRow) :
    insertAssessment r db =
      if r .id ∈ t.rows.map (· .id) ∨ (r .projectId).str ∉ db.projects then none
      else some { db with assessments := some { t with rows := t.rows ++ [r] } } := by
  have hproject : (db.projects.all (· ≠ (r .projectId).str)) = true ↔
      (r .projectId).str ∉ db.projects := by
    rw [List.all_eq_true]
    simp only [decide_eq_true_eq]
    exact ⟨fun h hp ↦ h _ hp rfl, fun h x hx he ↦ h (he ▸ hx)⟩
  simp only [insertAssessment, ht, Option.bind_some, Bool.or_eq_true, decide_eq_true_eq, hproject]

theorem effect_copyRow (ht : db.assessments = some t) (hids : (t.rows.map (· .id)).Nodup)
    (rows : List SqlRow) :
    effect (copyRow cols) rows db = some db' ↔
      ∃ news, List.Forall₂ (fun r new ↦ newRow cols r = some new) rows news ∧
        ((t.rows ++ news).map (· .id)).Nodup ∧
        (∀ new ∈ news, (new .projectId).str ∈ db.projects) ∧
        db' = { db with assessments := some { t with rows := t.rows ++ news } } := by
  induction rows generalizing db t with
  | nil =>
    simp only [effect, Option.some.injEq, List.forall₂_nil_left_iff]
    constructor
    · rintro rfl
      refine ⟨[], rfl, by simpa using hids, fun _ h ↦ absurd h List.not_mem_nil, ?_⟩
      rw [List.append_nil, ← ht]
    · rintro ⟨_, rfl, -, -, rfl⟩
      rw [List.append_nil, ← ht]
  | cons r rows ih =>
    simp only [effect, copyRow]
    cases hnew : newRow cols r with
    | none =>
      simp only [Option.map_none, Option.bind_none, reduceCtorEq, false_iff]
      rintro ⟨_, hrows, -⟩
      obtain ⟨new, _, h, -, -⟩ := List.forall₂_cons_left_iff.mp hrows
      cases hnew.symm.trans h
    | some new =>
      simp only [Option.map_some, Option.bind_some, insertAssessment_eq ht]
      by_cases hreject : new .id ∈ t.rows.map (· .id) ∨ (new .projectId).str ∉ db.projects
      · rw [if_pos hreject]
        simp only [Option.bind_none, reduceCtorEq, false_iff]
        rintro ⟨_, hrows, hnodup, hprojects, -⟩
        obtain ⟨new', news, h, -, rfl⟩ := List.forall₂_cons_left_iff.mp hrows
        obtain rfl := Option.some.inj (hnew.symm.trans h)
        rcases hreject with hid | hproject
        · rw [List.map_append, List.nodup_append] at hnodup
          exact hnodup.2.2 _ hid _ List.mem_cons_self rfl
        · exact hproject (hprojects new List.mem_cons_self)
      · rw [if_neg hreject]
        obtain ⟨hfresh, hproject⟩ := not_or.mp hreject
        have hids' : ((t.rows ++ [new]).map (· .id)).Nodup := by
          rw [List.map_append, List.nodup_append]
          refine ⟨hids, List.nodup_singleton _, fun i hi j hj hij ↦ hfresh ?_⟩
          have hnew : i = new .id := hij.trans (List.mem_singleton.mp hj)
          exact hnew ▸ hi
        rw [Option.bind_some, @ih { t with rows := t.rows ++ [new] } _ rfl hids']
        constructor
        · rintro ⟨news, hrows, hnodup, hprojects, rfl⟩
          refine ⟨new :: news, .cons hnew hrows, ?_, ?_, ?_⟩
          · simpa using hnodup
          · exact List.forall_mem_cons.mpr ⟨not_not.mp hproject, hprojects⟩
          · simp
        · rintro ⟨_, hrows, hnodup, hprojects, rfl⟩
          obtain ⟨new', news, h, hrest, rfl⟩ := List.forall₂_cons_left_iff.mp hrows
          obtain rfl := Option.some.inj (hnew.symm.trans h)
          refine ⟨news, hrest, by simpa using hnodup, ?_, by simp⟩
          exact fun new h ↦ hprojects new (List.mem_cons_of_mem _ h)

theorem map_news {β : Type} {f : SqlRow → β} {g : SqlRow → β} {rows news : List SqlRow}
    (hnews : List.Forall₂ (fun r new ↦ newRow cols r = some new) rows news)
    (h : ∀ r ∈ rows, ∀ new, newRow cols r = some new → f new = g r) :
    news.map f = rows.map g := by
  induction hnews with
  | nil => rfl
  | cons hnew _ ih =>
    rw [List.map_cons, List.map_cons, h _ List.mem_cons_self _ hnew,
      ih fun r hr ↦ h r (List.mem_cons_of_mem _ hr)]

theorem Convertible.text_id {r : SqlRow} (h : Convertible cols r) :
    .text (rowGet cols r .id (.text [])).str = rowGet cols r .id (.text []) := by
  by_cases hc : .id ∈ cols
  · rw [rowGet_mem hc]
    exact text_str.mpr (h.fits .id (by decide) hc)
  · rw [rowGet, if_neg hc]
    rfl

/-- A table can be carried over exactly if its rows can be inserted and say what they said. -/
theorem preservable_iff {projects : List (List Char)} :
    Preservable projects old ↔
      ∃ news, List.Forall₂ (fun r new ↦ newRow old.columns r = some new) old.rows news ∧
        (news.map (· .id)).Nodup ∧ (∀ new ∈ news, (new .projectId).str ∈ projects) ∧
        List.Forall₂ (Preserved old.columns) old.rows news := by
  have hids : ∀ news : List SqlRow, (∀ r ∈ old.rows, Convertible old.columns r) →
      List.Forall₂ (fun r new ↦ newRow old.columns r = some new) old.rows news →
      news.map (· .id) = old.rows.map fun r ↦ rowGet old.columns r .id (.text []) := by
    intro news hrows hnews
    refine map_news hnews fun r hr new hnew ↦ ?_
    exact (Option.some.inj (newRow_iff.mp hnew .id)).symm.trans (hrows r hr).text_id
  have hprojects : ∀ news : List SqlRow,
      List.Forall₂ (fun r new ↦ newRow old.columns r = some new) old.rows news →
      news.map (fun new ↦ (new .projectId).str) =
        old.rows.map fun r ↦ (rowGet old.columns r .projectId (.text [])).str := by
    intro news hnews
    refine map_news hnews fun r _ new hnew ↦ ?_
    rw [← Option.some.inj (newRow_iff.mp hnew .projectId)]
    rfl
  constructor
  · intro h
    choose! new hnew using fun r hr ↦ (h.rows r hr).newRow
    have hnews : List.Forall₂ (fun r new ↦ newRow old.columns r = some new) old.rows
        (old.rows.map new) :=
      List.forall₂_map_right_iff.mpr (List.forall₂_same.mpr hnew)
    refine ⟨old.rows.map new, hnews, ?_, ?_, ?_⟩
    · rw [hids _ h.rows hnews]
      exact h.ids
    · have hall := h.projects
      rw [← List.forall_mem_map (P := (· ∈ projects)), ← hprojects _ hnews] at hall
      exact List.forall_mem_map.mp hall
    · refine List.forall₂_map_right_iff.mpr (List.forall₂_same.mpr fun r hr ↦ ?_)
      exact (preserved_iff (hnew r hr)).mpr (h.rows r hr)
  · rintro ⟨news, hnews, hnodup, hin, hpreserved⟩
    have hboth : List.Forall₂ (fun r new ↦ Convertible old.columns r ∧
        newRow old.columns r = some new) old.rows news :=
      List.Forall₂.mp (fun _ _ hnew hp ↦ ⟨(preserved_iff hnew).mp hp, hnew⟩) hnews hpreserved
    have hrows : ∀ r ∈ old.rows, Convertible old.columns r :=
      ((List.forall₂_and_left ..).mp hboth).1
    refine ⟨hrows, ?_, ?_⟩
    · rw [← hids news hrows hnews]
      exact hnodup
    · rw [← List.forall_mem_map (P := (· ∈ projects)), ← hprojects news hnews]
      exact List.forall_mem_map.mpr hin

end Copying

section Runs

variable {o : OtherStatements ω} {old t : SqlTable} {db : Database ω} {faults : List Fault}

/-- The table of assessments has the rows of `t`, perhaps with further columns. -/
def Holds (t : SqlTable) (db : Database ω) : Prop :=
  ∃ t', db.assessments = some t' ∧ Extends t t'

theorem Extends.refl (t : SqlTable) : Extends t t :=
  ⟨List.Subset.refl _, rfl, List.forall₂_same.mpr fun _ _ _ _ ↦ rfl⟩

theorem holds_onOthers (fs : List (ω → Option ω)) :
    ∀ f ∈ fs.map onOthers, ∀ d d' : Database ω, Holds t d → f d = some d' → Holds t d' := by
  intro f hf d d' hd h
  obtain ⟨g, -, rfl⟩ := List.mem_map.mp hf
  obtain ⟨others, -, rfl⟩ := Option.map_eq_some_iff.mp h
  exact hd

theorem holds_addColumn {c : Column × SqlValue} (hc : c.1 ∉ t.columns) {d d' : Database ω}
    (hd : Holds t d) (h : addColumn c d = some d') : Holds t d' := by
  obtain ⟨t', ht', hext⟩ := hd
  unfold addColumn at h
  rw [ht', Option.map_some] at h
  obtain rfl := Option.some.inj h
  refine ⟨_, rfl, fun c' h ↦ List.mem_append_left _ (hext.columns h), hext.references, ?_⟩
  refine List.forall₂_map_right_iff.mpr (hext.rows.imp fun r r' h c' hc' ↦ ?_)
  have hne : c' ≠ c.1 := by
    rintro rfl
    exact hc hc'
  exact (Function.update_of_ne hne c.2 r').trans (h c' hc')

theorem completeSchema_holds (hdb : Holds t db) :
    Holds t ((completeSchema o).run faults (.idle db)).2.committed := by
  have hlast : ∀ faults (d : Database ω), Holds t d →
      Holds t (Script.run (.commit <| .read fun _ ↦ .read fun _ ↦ .done) faults
        (.idle d)).2.committed := by
    intro faults d hd
    simp only [Script.run]
    split_ifs <;> exact hd
  have hcolumns : ∀ faults (d : Database ω), Holds t d →
      Holds t ((ensureColumns (.all (o.columnsAfter.map onOthers) <| .commit <|
        .read fun _ ↦ .read fun _ ↦ .done)).run faults (.idle d)).2.committed := by
    intro faults d hd
    unfold ensureColumns Script.run
    split
    · refine Script.run_all_keeps (fun f hf d' d'' hd' h ↦ ?_)
        (Script.run_all_keeps (holds_onOthers _) hlast) _ d hd
      obtain ⟨c, hc, rfl⟩ := List.mem_map.mp hf
      obtain ⟨t', ht', hext⟩ := hd
      refine holds_addColumn (fun hmem ↦ ?_) hd' h
      have hcurrent : (Session.idle d).current = d := rfl
      have hnew := (List.mem_filter.mp hc).2
      rw [hcurrent, ht'] at hnew
      simp only [Option.map_some, Option.getD_some, decide_eq_true_eq] at hnew
      exact hnew (hext.columns hmem)
    · exact hd
  have hcreate : ∀ faults (d : Database ω), Holds t d →
      Holds t (Script.run (.ddl createAssessments <| .all (o.tablesAfter.map onOthers) <|
        ensureColumns <| .all (o.columnsAfter.map onOthers) <| .commit <|
          .read fun _ ↦ .read fun _ ↦ .done) faults (.idle d)).2.committed := by
    intro faults d hd
    have hexists :
        Holds t { d with assessments := some (d.assessments.getD assessmentsTable) } := by
      obtain ⟨t', ht', hext⟩ := hd
      exact ⟨t', by rw [ht']; rfl, hext⟩
    unfold Script.run
    split
    · exact Script.run_all_keeps (holds_onOthers _) hcolumns _ _ hexists
    · exact hd
  exact Script.run_all_keeps (holds_onOthers _) hcreate _ _ hdb

theorem Legacy.awaiting (h : Legacy old db) {db' : Database ω} (hdb' : Holds old db') :
    Awaiting old db' := by
  obtain ⟨t', ht', hext⟩ := hdb'
  refine ⟨?_, t', ht', hext⟩
  unfold referencesRisks
  rw [ht', Option.any_some, hext.references]
  exact decide_eq_true h.foreignKey

theorem ensureSchema_run (h : Legacy old db) :
    (ensureSchema o).run faults (.idle db) =
      if lasts faults 4 then
        (Script.tryRead (fun _ ↦ migrateAssessmentsTable (.commit (completeSchema o)))
          (completeSchema o)).run (after faults 4) (.idle db)
      else (false, .idle db) := by
  have hcurrent : (Session.idle db).current = db := rfl
  have hrollback : (Session.idle db).rollback = .idle db := rfl
  have hsome : db.assessments.isSome = true := by rw [h.table]; rfl
  have hrisks : db.referencesRisks = true := (h.awaiting ⟨old, h.table, .refl old⟩).legacy
  have htry : ∀ faults, (Script.tryRead (fun db : Database ω ↦ if db.referencesRisks then
      migrateAssessmentsTable (.commit (completeSchema o)) else completeSchema o)
        (completeSchema o)).run faults (.idle db) =
      (Script.tryRead (fun _ ↦ migrateAssessmentsTable (.commit (completeSchema o)))
        (completeSchema o)).run faults (.idle db) := by
    intro faults
    rw [Script.run, Script.run, hcurrent, if_pos hrisks]
  unfold ensureSchema
  simp only [Script.run_read, hcurrent, hrollback, hsome, if_true, htry, Script.if_lasts_add]
  simp only [after_add, Nat.reduceAdd]

def withRows (news : List SqlRow) : SqlTable := { assessmentsTable with rows := news }

def renamed (old : SqlTable) (db : Database ω) : Database ω :=
  { db with assessments := none, assessmentsOld := some old }

def created (old : SqlTable) (db : Database ω) : Database ω :=
  { db with assessments := some assessmentsTable, assessmentsOld := some old }

theorem holds_rows {news : List SqlRow} {db : Database ω} (h : Holds (withRows news) db) :
    db.referencesRisks = false ∧ ∃ t, db.assessments = some t ∧ t.rows = news := by
  obtain ⟨t, ht, hext⟩ := h
  refine ⟨?_, t, ht, ?_⟩
  · unfold referencesRisks
    rw [ht, Option.any_some, hext.references]
    change decide ("risks" ∈ assessmentsTable.references) = false
    decide
  · have heq : List.Forall₂ Eq news t.rows :=
      hext.rows.imp fun r r' h ↦ funext fun c ↦ (h c (mem_columns c)).symm
    rw [List.forall₂_eq_eq_eq] at heq
    exact heq.symm

theorem lossless_iff {news : List SqlRow} {result : Bool × Database ω}
    (h : Holds (withRows news) result.2) :
    Lossless old faults result ↔ List.Forall₂ (Preserved old.columns) old.rows news := by
  obtain ⟨hreleased, t, ht, rfl⟩ := holds_rows h
  constructor
  · rintro (⟨-, t', ht', hrows⟩ | ⟨-, hlegacy, -⟩)
    · cases ht.symm.trans ht'
      exact hrows
    · rw [hreleased] at hlegacy
      cases hlegacy
  · exact fun hrows ↦ Or.inl ⟨hreleased, t, ht, hrows⟩

theorem run_drop {d d' base : Database ω} (hdrop : dropOld d = some d') (k : Script (Database ω))
    (faults : List Fault) :
    (Script.ddl dropOld (.commit k)).run faults ((Session.idle base).join d) =
      if lasts faults 2 then k.run (after faults 2) (.idle d') else (false, .idle base) := by
  have hcurrent : ((Session.idle base).join d).current = d := rfl
  simp only [Script.run, hcurrent, hdrop, Option.elim_some]
  exact (Script.if_lasts_add faults 1 1 _ _).trans (by rw [after_add]; rfl)

/-- From the SELECT on: the rows are copied as a whole and durably so after the COMMIT, or the new
table stays empty. -/
theorem copy_outcome (cols : List Column) (faults : List Fault) :
    let r := (Script.each (copyRow cols) old.rows
      (.ddl dropOld (.commit (completeSchema o)))).run faults (.idle (created old db))
    (Holds (withRows []) r.2.committed ∧
      (old.rows = [] ∨ lasts faults (old.rows.length + 2) = false ∨
        effect (copyRow cols) old.rows (created old db) = none)) ∨
    ∃ news, lasts faults (old.rows.length + 2) = true ∧
      effect (copyRow cols) old.rows (created old db) =
        some { created old db with assessments := some (withRows news) } ∧
      Holds (withRows news) r.2.committed := by
  intro r
  have hcreated : (Session.idle (created old db)).current = created old db := rfl
  have hempty : Holds (withRows []) (created old db) := ⟨_, rfl, .refl _⟩
  have hrun := Script.run_each (k := .ddl dropOld (.commit (completeSchema o))) (copyRow cols)
    old.rows faults (.idle (created old db))
  rw [hcreated] at hrun
  change (Holds (withRows []) (Script.run _ _ _).2.committed ∧ _) ∨
    ∃ news, _ ∧ _ ∧ Holds (withRows news) (Script.run _ _ _).2.committed
  rw [hrun]
  by_cases hrows : old.rows = []
  · refine Or.inl ⟨?_, Or.inl hrows⟩
    have hdropped : Holds (withRows []) { created old db with assessmentsOld := none } :=
      ⟨_, rfl, .refl _⟩
    rw [hrows]
    simp only [List.length_nil, lasts_zero, effect, Option.elim_some, if_true, Script.run]
    split_ifs
    · exact completeSchema_holds hdropped
    · exact hdropped
    · exact hempty
  · simp only [if_neg hrows, lasts_add faults old.rows.length 2]
    cases hlasts : lasts faults old.rows.length with
    | false => exact Or.inl ⟨hempty, Or.inr (Or.inl rfl)⟩
    | true =>
      rw [if_pos rfl, Bool.true_and]
      cases heffect : effect (copyRow cols) old.rows (created old db) with
      | none => exact Or.inl ⟨hempty, Or.inr (Or.inr rfl)⟩
      | some d =>
        obtain ⟨news, -, -, -, rfl⟩ :=
          (effect_copyRow (t := assessmentsTable) rfl List.nodup_nil old.rows).mp heffect
        rw [Option.elim_some, run_drop rfl]
        cases hcommit : lasts (after faults old.rows.length) 2 with
        | false => exact Or.inl ⟨hempty, Or.inr (Or.inl rfl)⟩
        | true => exact Or.inr ⟨news, rfl, rfl, completeSchema_holds ⟨_, rfl, .refl _⟩⟩

theorem start_eq (o : OtherStatements ω) (faults : List Fault) (db : Database ω) :
    start o faults db = (((ensureSchema o).run faults (.idle db)).1,
      ((ensureSchema o).run faults (.idle db)).2.committed) := rfl

theorem start_migrates (h : Legacy old db) (hlasts : lasts faults 5 = true) :
    (ensureSchema o).run faults (.idle db) =
      (migrateAssessmentsTable (.commit (completeSchema o))).run (after faults 5) (.idle db) := by
  rw [lasts_add faults 4 1, Bool.and_eq_true] at hlasts
  rw [ensureSchema_run h, if_pos hlasts.1, Script.run, if_pos hlasts.2, after_add]

theorem start_holds (h : Legacy old db)
    (hstays : db.assessmentsOld.isSome = true ∨ lasts faults 6 = false) :
    ((start o faults db).1 = false ∨ ∃ fault ∈ faults, fault ≠ .none) ∧
      Holds old (start o faults db).2 := by
  have hlegacy : Holds old db := ⟨old, h.table, .refl old⟩
  rw [start_eq]
  cases hqueries : lasts faults 5 with
  | false =>
    refine ⟨Or.inr (exists_fault hqueries), ?_⟩
    rw [lasts_add faults 4 1] at hqueries
    rw [ensureSchema_run h]
    split
    · rename_i hfour
      rw [hfour, Bool.true_and] at hqueries
      rw [Script.run, if_neg (by simp [hqueries])]
      split
      · exact completeSchema_holds hlegacy
      · exact hlegacy
    · exact hlegacy
  | true =>
    rw [start_migrates h hqueries, migrateAssessmentsTable, Script.run]
    split
    · rename_i hsix
      have hsome : db.assessmentsOld.isSome = true := by
        refine hstays.resolve_right fun hno ↦ ?_
        rw [lasts_add faults 5 1, hqueries, hsix] at hno
        cases hno
      obtain ⟨t, ht⟩ := Option.isSome_iff_exists.mp hsome
      have hrename : renameAssessments (Session.idle db).current = none := by
        change renameAssessments db = none
        unfold renameAssessments
        rw [h.table, ht]
      rw [hrename]
      exact ⟨Or.inl rfl, hlegacy⟩
    · exact ⟨Or.inl rfl, hlegacy⟩

theorem run_copyAssessments (hriskId : .riskId ∈ old.columns) (k : Script (Database ω))
    (faults : List Fault) :
    (copyAssessments k).run faults (.idle (created old db)) =
      if lasts faults 2 then
        (Script.each (copyRow (selectNames.filter (· ∈ old.columns))) old.rows
          (.ddl dropOld k)).run (after faults 2) (.idle (created old db))
      else (false, .idle (created old db)) := by
  have hselect : selectNames.filter (· ∈ old.columns) ≠ [] :=
    List.ne_nil_of_mem (List.mem_filter.mpr ⟨(by decide : .riskId ∈ selectNames),
      decide_eq_true hriskId⟩)
  have hcolumns : (created old db).oldColumns = old.columns := rfl
  have hrows : (created old db).oldRows = old.rows := rfl
  simp only [copyAssessments, Script.run_read, Session.current_idle, Session.rollback_idle,
    hcolumns, hrows, if_neg hselect, Script.if_lasts_add, after_add, Nat.reduceAdd]

theorem start_renamed (h : Legacy old db) (hnone : db.assessmentsOld = none)
    (hlasts : lasts faults 6 = true) :
    (ensureSchema o).run faults (.idle db) =
      if lasts faults 7 then
        (copyAssessments (.commit (completeSchema o))).run (after faults 7) (.idle (created old db))
      else (false, .idle (renamed old db)) := by
  have hrename : renameAssessments db = some (renamed old db) := by
    unfold renameAssessments
    rw [h.table, hnone]
    rfl
  have hcreate : createAssessments (renamed old db) = some (created old db) := rfl
  have hseven : lasts faults 7 = lasts (after faults 6) 1 := by
    rw [lasts_add faults 6 1, hlasts, Bool.true_and]
  rw [lasts_add faults 5 1, Bool.and_eq_true] at hlasts
  rw [start_migrates h hlasts.1, migrateAssessmentsTable, Script.run, if_pos hlasts.2,
    Session.current_idle, hrename, Option.elim_some, Session.apply_idle, Script.run,
    Session.current_idle, hcreate, Option.elim_some, Session.apply_idle, Session.rollback_idle,
    hseven, after_add, after_add]

/-- Between the RENAME and the CREATE there is no table of assessments. -/
theorem renamed_lost : ¬ Lossless old faults (false, renamed old db) := by
  rintro (⟨-, t, ht, -⟩ | ⟨-, -, t, ht, -⟩)
  · cases ht
  · cases ht

theorem effect_select {db' : Database ω} :
    effect (copyRow (selectNames.filter (· ∈ old.columns))) old.rows (created old db) = some db' ↔
      ∃ news, List.Forall₂ (fun r new ↦ newRow old.columns r = some new) old.rows news ∧
        (news.map (· .id)).Nodup ∧ (∀ new ∈ news, (new .projectId).str ∈ db.projects) ∧
        db' = { created old db with assessments := some (withRows news) } := by
  have heffect := @effect_copyRow ω (selectNames.filter (· ∈ old.columns)) assessmentsTable
    (created old db) db' rfl List.nodup_nil old.rows
  simp only [newRow_select] at heffect
  exact heffect

theorem lossless_empty_iff {result : Bool × Database ω} (h : Holds (withRows []) result.2) :
    Lossless old faults result ↔ old.rows = [] :=
  (lossless_iff h).trans List.forall₂_nil_right_iff

theorem copied_lossless_iff (hriskId : .riskId ∈ old.columns) (hseven : lasts faults 7 = true)
    {r : Bool × Session (Database ω)}
    (hr : r = (copyAssessments (.commit (completeSchema o))).run (after faults 7)
      (.idle (created old db))) :
    Lossless old faults (r.1, r.2.committed) ↔
      old.rows = [] ∨
        (lasts faults (old.rows.length + 11) = true ∧ Preservable db.projects old) := by
  have hcount : lasts faults (old.rows.length + 11) =
      (lasts (after faults 7) 2 && lasts (after faults 9) (old.rows.length + 2)) := by
    rw [show old.rows.length + 11 = 7 + (2 + (old.rows.length + 2)) by omega, lasts_add, hseven,
      Bool.true_and, lasts_add, after_add]
  rw [run_copyAssessments hriskId, after_add] at hr
  rw [hcount]
  cases hselect : lasts (after faults 7) 2 with
  | false =>
    rw [hselect, if_neg Bool.false_ne_true] at hr
    have hempty : Holds (withRows []) r.2.committed := hr ▸ ⟨_, rfl, .refl _⟩
    rw [lossless_empty_iff hempty, Bool.false_and]
    simp
  | true =>
    rw [hselect, if_pos rfl] at hr
    rw [Bool.true_and]
    rcases @copy_outcome _ o old db (selectNames.filter (· ∈ old.columns)) (after faults 9) with
      ⟨hholds, hcause⟩ | ⟨news, hlasts, heffect, hholds⟩
    · have hempty : Holds (withRows []) r.2.committed := hr ▸ hholds
      rw [lossless_empty_iff hempty]
      refine ⟨Or.inl, fun h ↦ h.elim id fun ⟨hlasts, hpreservable⟩ ↦ ?_⟩
      rcases hcause with hrows | hcut | hnone
      · exact hrows
      · rw [hcut] at hlasts
        cases hlasts
      · obtain ⟨news, hnews, hids, hprojects, -⟩ := preservable_iff.mp hpreservable
        rw [effect_select.mpr ⟨news, hnews, hids, hprojects, rfl⟩] at hnone
        cases hnone
    · have hcopied : Holds (withRows news) r.2.committed := hr ▸ hholds
      obtain ⟨news', hnews, hids, hprojects, hdb⟩ := effect_select.mp heffect
      obtain rfl : news = news' := by
        have htables := congrArg (fun d : Database ω ↦ d.assessments.map SqlTable.rows) hdb
        exact Option.some.inj htables
      rw [lossless_iff hcopied, hlasts, preservable_iff]
      constructor
      · exact fun hpreserved ↦ Or.inr ⟨rfl, news, hnews, hids, hprojects, hpreserved⟩
      · rintro (hrows | ⟨-, news', hnews', -, -, hpreserved⟩)
        · rw [hrows, List.forall₂_nil_left_iff] at hnews
          rw [hrows, hnews]
          exact .nil
        · have hunique : Relator.RightUnique fun r new ↦ newRow old.columns r = some new :=
            fun _ _ _ h h' ↦ Option.some.inj (h.symm.trans h')
          exact List.right_unique_forall₂' hunique hnews' hnews ▸ hpreserved

/-- A legacy database comes out of a start losslessly exactly if the RENAME does not happen, or
there is nothing to lose once the new table exists, or nothing fails up to the COMMIT and every row
can be carried over. -/
theorem migration_lossless_iff (h : Legacy old db) (o : OtherStatements ω) (faults : List Fault) :
    Lossless old faults (start o faults db) ↔
      db.assessmentsOld.isSome = true ∨ lasts faults 6 = false ∨
        (old.rows = [] ∧ lasts faults 7 = true) ∨
        (lasts faults (old.rows.length + 11) = true ∧ Preservable db.projects old) := by
  cases hexists : db.assessmentsOld with
  | some t =>
    obtain ⟨hfault, hholds⟩ := @start_holds _ o old db faults h (Or.inl (by rw [hexists]; rfl))
    exact iff_of_true (Or.inr ⟨hfault, h.awaiting hholds⟩) (Or.inl rfl)
  | none =>
    rw [Option.isSome_none]
    simp only [Bool.false_eq_true, false_or]
    cases hsix : lasts faults 6 with
    | false =>
      obtain ⟨hfault, hholds⟩ := @start_holds _ o old db faults h (Or.inr hsix)
      exact iff_of_true (Or.inr ⟨hfault, h.awaiting hholds⟩) (Or.inl rfl)
    | true =>
      rw [start_eq, start_renamed h hexists hsix]
      cases hseven : lasts faults 7 with
      | false =>
        have hlong : lasts faults (old.rows.length + 11) ≠ true := fun hlong ↦ by
          rw [lasts_of_le hlong (by omega)] at hseven
          cases hseven
        simp only [Bool.false_eq_true, if_false, and_false, hlong, false_and, or_false,
          Bool.true_eq_false]
        exact iff_of_false renamed_lost id
      | true =>
        rw [if_pos rfl]
        simp only [Bool.true_eq_false, and_true, false_or]
        exact copied_lossless_iff h.riskId hseven rfl

end Runs

def sampleRow : SqlRow
  | .id => .text "a1".toList
  | .projectId => .text "p1".toList
  | .riskId => .text "r1".toList
  | .assessorUserId => .text "u1".toList
  | .probability => .integer 3
  | .impact => .integer 4
  | .version => .integer 2
  | .isDeleted | .dirty => .integer 0
  | .notes | .updatedAt => .text []
  | .opportunityId | .itemId | .itemType | .score => .null

def sampleTable : SqlTable where
  columns :=
    [.id, .projectId, .riskId, .assessorUserId, .probability, .impact, .notes, .version, .isDeleted,
      .updatedAt, .dirty]
  references := ["projects", "risks"]
  rows := [sampleRow]

def sampleDatabase : Database Unit := ⟨["p1".toList], some sampleTable, none, ()⟩

theorem sample_legacy : Legacy sampleTable sampleDatabase := ⟨rfl, by decide, by decide⟩

/-- A start that nothing disturbs migrates the table. -/
theorem migration_lossless_sample :
    Lossless sampleTable [] (start ⟨[], [], []⟩ [] sampleDatabase) := by
  have hconvertible : Convertible sampleTable.columns sampleRow := by
    refine ⟨fun c hkept hc ↦ ?_, ⟨"r1".toList, rfl⟩, Or.inr rfl⟩
    cases c with
    | riskId | opportunityId | itemId => trivial
    | itemType | score => exact absurd hc (by decide)
    | probability | impact => exact ⟨_, rfl, by decide⟩
    | _ => exact ⟨_, rfl⟩
  refine (migration_lossless_iff sample_legacy ⟨[], [], []⟩ []).mpr
    (Or.inr (Or.inr (Or.inr ⟨rfl, ?_, ?_, ?_⟩)))
  · exact List.forall_mem_singleton.mpr hconvertible
  · exact List.nodup_singleton _
  · exact List.forall_mem_singleton.mpr (by decide)

/-- A client that stops between the RENAME and the CREATE has lost its assessments. -/
theorem stopped_after_rename :
    ¬ ∀ (old : SqlTable) (db : Database Unit) (o : OtherStatements Unit) (faults : List Fault),
      Legacy old db → Lossless old faults (start o faults db) := by
  intro hall
  have hlossless := hall sampleTable sampleDatabase ⟨[], [], []⟩
    (List.replicate 6 .none ++ [.stop]) sample_legacy
  rw [start_eq, start_renamed sample_legacy rfl (by decide), if_neg (by decide)] at hlossless
  exact renamed_lost hlossless

end RiskApp.Client.SchemaMigration
