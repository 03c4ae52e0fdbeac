import RiskApp.Lib.Result
import RiskApp.Server.Schemas

namespace RiskApp.Server

open Lib Lib.Result

/-- `_validate_scale_1_5`: a `ValueError` unless the column holds an integer from 1 to 5. -/
def validateScale : Val → Except PushError ℤ
  | .int n => if FieldType.inScale n then .ok n else .error .unexpected
  | _ => .error .unexpected

/-- `_compute_score`, the listener on items and assessments. -/
def computeScore (r : Row) : Except PushError Row :=
  if r.table = .items ∨ r.table = .assessments then do
    let probability ← validateScale (r.attrs .probability)
    let impact ← validateScale (r.attrs .impact)
    .ok (r.setAttr .score (.int (probability * impact)))
  else .ok r

/-- `_assign_change_sequence`: advance the project's counter and stamp the row with it. -/
def assignChangeSequence (db : Data) (r : Row) : Except PushError (Data × Row) :=
  match db.projectOf r with
  | none => .error .unexpected
  | some p => match db.lastSequence p with
    | none => .error .unexpected
    | some n =>
      .ok ({ db with lastSequence := Function.update db.lastSequence p (some (n + 1)) },
        { r with changeSequence := n + 1 })

/-- An insert skips null attributes, so their column defaults apply. -/
def Row.withDefaults (r : Row) (now : Time) : Row :=
  { r with
    attrs := fun a ↦ if r.attrs a = .null then
        (((r.table.columnDefaults now).find? (fun d ↦ d.1 = a)).map Prod.snd).getD .null
      else r.attrs a }

def textFits (maxLength : Option ℕ) : Val → Bool
  | .str s => !s.toList.contains (Char.ofNat 0) && maxLength.all (s.length ≤ ·)
  | _ => true

/-- No text holds a NUL and none is longer than its column: PostgreSQL raises a `DataError`. -/
def Row.dataFits (r : Row) : Bool :=
  r.table.columns.all fun a ↦
    textFits ((r.table.maxLengths.find? (fun m ↦ m.1 = a)).map Prod.snd) (r.attrs a)

def refersTo (ids : List Uuid) : Val → Bool
  | .uuid u => u ∈ ids
  | .null => true
  | _ => false

def choiceOf (values : List String) : Val → Bool
  | .str s => s ∈ values
  | _ => false

/-- The unique constraints besides the primary key: `uq_items_project_code` and
`uq_item_assessor`. -/
def Row.collides (r s : Row) : Bool :=
  r.table = s.table && match r.table with
    | .items => r.attrs .code ≠ .null && r.attrs .code = s.attrs .code &&
        r.attrs .projectId = s.attrs .projectId
    | .assessments => r.attrs .itemId = s.attrs .itemId &&
        r.attrs .assessorUserId = s.attrs .assessorUserId
    | _ => false

/-- Not-null, check, foreign key and unique constraints; their violation is an
`IntegrityError`. -/
def Data.admits (db : Data) (r : Row) : Bool :=
  r.table.notNull.all (r.attrs · ≠ .null) &&
  [Attr.ownerUserId, .createdBy, .assessorUserId].all (fun a ↦
    a ∉ r.table.columns || refersTo db.users (r.attrs a)) &&
  (Attr.itemId ∉ r.table.columns ||
    refersTo ((db.rows.filter (·.table = .items)).map Row.id) (r.attrs .itemId)) &&
  (r.table ≠ .helpdeskTickets || choiceOf helpDeskStatuses (r.attrs .status) &&
    choiceOf helpDeskPriorities (r.attrs .priority) &&
    choiceOf helpDeskCategories (r.attrs .category)) &&
  db.rows.all (fun s ↦ s.key = r.key || !r.collides s)

/-- The listeners that run before a row is written, and what is written of its times. -/
def beforeWrite (db : Data) (r : Row) : Except PushError (Data × Row) := do
  let r ← computeScore r
  assignChangeSequence db r.naive

def flushInsert (db : Data) (r : Row) (now : Time) : Except PushError (Data) := do
  let (db, r) ← beforeWrite db r
  let r := r.withDefaults now
  require r.dataFits .unexpected
  require (db.admits r && (db.row r.key).isNone) .integrity
  .ok { db with rows := db.rows ++ [r] }

def flushUpdate (db : Data) (r : Row) : Except PushError (Data) := do
  let (db, r) ← beforeWrite db r
  require r.dataFits .unexpected
  require (db.admits r) .integrity
  .ok { db with rows := Table.replace Row.key r db.rows }

/-- `r'` is `r` as a flush leaves it: its score and its sequence are set, and its times are
naive. -/
structure Stamped (r r' : Row) (n : ℕ) : Prop where
  table : r'.table = r.table
  id : r'.id = r.id
  version : r'.version = r.version
  sequence : r'.changeSequence = n
  attrs : ∀ a, a ∉ flushedAttrs → r'.attrs a = r.attrs a
  times : ∀ a ∈ datetimeColumns, r'.attrs a = (r.attrs a).naive

theorem Stamped.key {r r' : Row} {n : ℕ} (h : Stamped r r' n) : r'.key = r.key := by
  simp [Row.key, h.table, h.id]

@[simp] theorem Row.setAttr_table (r : Row) (a : Attr) (v : Val) :
    (r.setAttr a v).table = r.table := by
  unfold Row.setAttr; split <;> rfl

@[simp] theorem Row.setAttr_id (r : Row) (a : Attr) (v : Val) : (r.setAttr a v).id = r.id := by
  unfold Row.setAttr; split <;> rfl

@[simp] theorem Row.setAttr_version (r : Row) (a : Attr) (v : Val) :
    (r.setAttr a v).version = r.version := by
  unfold Row.setAttr; split <;> rfl

@[simp] theorem Row.setAttr_changeSequence (r : Row) (a : Attr) (v : Val) :
    (r.setAttr a v).changeSequence = r.changeSequence := by
  unfold Row.setAttr; split <;> rfl

theorem Row.setAttr_attrs_of_ne (r : Row) {a b : Attr} (v : Val) (h : b ≠ a) :
    (r.setAttr a v).attrs b = r.attrs b := by
  unfold Row.setAttr
  split
  · rfl
  · rfl
  · simp [Function.update_of_ne h]

theorem Row.naive_attrs_of_mem {r : Row} {a : Attr} (h : a ∈ datetimeColumns) :
    r.naive.attrs a = (r.attrs a).naive := if_pos h

theorem Row.naive_attrs_of_not_mem {r : Row} {a : Attr} (h : a ∉ datetimeColumns) :
    r.naive.attrs a = r.attrs a := if_neg h

theorem Row.naive_eq_self {r : Row} (h : ∀ a ∈ datetimeColumns, (r.attrs a).naive = r.attrs a) :
    r.naive = r := by
  have hattrs : r.naive.attrs = r.attrs := by
    funext a
    by_cases ha : a ∈ datetimeColumns
    · rw [Row.naive_attrs_of_mem ha, h a ha]
    · exact Row.naive_attrs_of_not_mem ha
  exact congrArg (fun attrs ↦ { r with attrs }) hattrs

theorem Row.naive_attrs_eq_null {r : Row} {a : Attr} :
    r.naive.attrs a = .null ↔ r.attrs a = .null := by
  unfold Row.naive Val.naive
  simp only
  split
  · split
    · simp_all
    · rfl
  · rfl

theorem Stamped.naive {r r' : Row} {n : ℕ} (h : Stamped r r' n) {a : Attr} (ha : a ≠ .score) :
    r'.attrs a = r.naive.attrs a := by
  by_cases hm : a ∈ datetimeColumns
  · rw [h.times a hm, Row.naive_attrs_of_mem hm]
  · rw [h.attrs a (by simp [flushedAttrs, ha, hm]), Row.naive_attrs_of_not_mem hm]

@[simp] theorem Row.naive_table (r : Row) : r.naive.table = r.table := rfl

@[simp] theorem Row.naive_id (r : Row) : r.naive.id = r.id := rfl

@[simp] theorem Row.naive_version (r : Row) : r.naive.version = r.version := rfl

@[simp] theorem Row.naive_changeSequence (r : Row) : r.naive.changeSequence = r.changeSequence :=
  rfl

theorem computeScore_cases {r s : Row} (h : computeScore r = .ok s) :
    s = r ∨ ∃ v, s = r.setAttr .score v := by
  unfold computeScore at h
  split at h
  · obtain ⟨p, -, h⟩ := bind_ok h
    obtain ⟨i, -, h⟩ := bind_ok h
    exact Or.inr ⟨_, (Except.ok.inj h).symm⟩
  · exact Or.inl (Except.ok.inj h).symm

theorem computeScore_ok {r s : Row} (h : computeScore r = .ok s) :
    Stamped r s.naive r.changeSequence := by
  have hattrs : ∀ a, a ≠ .score → s.attrs a = r.attrs a := by
    intro a ha
    rcases computeScore_cases h with rfl | ⟨v, rfl⟩
    · rfl
    · exact Row.setAttr_attrs_of_ne _ _ ha
  have hrest : s.table = r.table ∧ s.id = r.id ∧ s.version = r.version ∧
      s.changeSequence = r.changeSequence := by
    rcases computeScore_cases h with rfl | ⟨v, rfl⟩ <;> simp
  refine ⟨hrest.1, hrest.2.1, hrest.2.2.1, hrest.2.2.2, fun a ha ↦ ?_, fun a ha ↦ ?_⟩
  · rw [flushedAttrs, List.mem_cons, not_or] at ha
    rw [Row.naive_attrs_of_not_mem ha.2, hattrs a ha.1]
  · have hne : a ≠ .score := by
      rintro rfl
      exact absurd ha (by decide)
    rw [Row.naive_attrs_of_mem ha, hattrs a hne]

theorem Data.projectOf_congr (db : Data) {r r' : Row} {n : ℕ} (h : Stamped r r' n) :
    db.projectOf r' = db.projectOf r := by
  unfold Data.projectOf
  have hp := h.attrs .projectId (by decide)
  have hi := h.attrs .itemId (by decide)
  cases ht : r.table <;> simp [h.table, ht, hp, hi, Row.ownProject]

@[simp] theorem Data.projectOf_naive (db : Data) (r : Row) :
    db.projectOf r.naive = db.projectOf r := by
  unfold Data.projectOf
  have hp : r.naive.attrs .projectId = r.attrs .projectId :=
    Row.naive_attrs_of_not_mem (by decide)
  have hi : r.naive.attrs .itemId = r.attrs .itemId := Row.naive_attrs_of_not_mem (by decide)
  simp only [Row.naive_table, Row.ownProject, hp, hi]

theorem beforeWrite_ok {db db' : Data} {r r' : Row} (h : beforeWrite db r = .ok (db', r')) :
    ∃ p n, db.projectOf r = some p ∧ db.lastSequence p = some n ∧ Stamped r r' (n + 1) ∧
      db' = { db with lastSequence := Function.update db.lastSequence p (some (n + 1)) } := by
  obtain ⟨s, hs, h⟩ := bind_ok h
  have hst := computeScore_ok hs
  unfold assignChangeSequence at h
  split at h
  · cases h
  · rename_i p hp
    split at h
    · cases h
    · rename_i n hn
      cases h
      rw [db.projectOf_congr hst] at hp
      exact ⟨p, n, hp, hn, ⟨hst.table, hst.id, hst.version, rfl, hst.attrs, hst.times⟩, rfl⟩

def Data.hasParent (db : Data) (r : Row) : Prop :=
  .itemId ∈ r.table.columns → ∃ itemId, r.attrs .itemId = .uuid itemId ∧ (db.item itemId).isSome

theorem Data.hasParent_of_admits {db : Data} {r : Row} (h : db.admits r = true) :
    db.hasParent r := by
  intro hcol
  simp only [Data.admits, Bool.and_eq_true] at h
  obtain ⟨⟨⟨⟨hnull, -⟩, hparent⟩, -⟩, -⟩ := h
  have hne : r.attrs .itemId ≠ .null := by
    have hmem : .itemId ∈ r.table.notNull := by
      cases ht : r.table <;> rw [ht] at hcol <;> revert hcol <;> decide
    simpa using List.all_eq_true.mp hnull _ hmem
  simp only [hcol, not_true_eq_false, decide_false, Bool.false_or] at hparent
  cases hi : r.attrs .itemId with
  | uuid itemId =>
    rw [hi] at hparent
    simp only [refersTo, decide_eq_true_eq, List.mem_map, List.mem_filter] at hparent
    obtain ⟨o, ⟨ho, htable⟩, rfl⟩ := hparent
    refine ⟨o.id, rfl, Table.find_isSome Row.key ho ?_⟩
    simp [Row.key, htable]
  | null => exact absurd hi hne
  | _ => simp [hi, refersTo] at hparent

theorem flushUpdate_ok {db db' : Data} {r : Row} (h : flushUpdate db r = .ok db') :
    ∃ p n r', db.projectOf r = some p ∧ db.lastSequence p = some n ∧ Stamped r r' (n + 1) ∧
      db.hasParent r' ∧
      db' = { db with
        rows := Table.replace Row.key r' db.rows
        lastSequence := Function.update db.lastSequence p (some (n + 1)) } := by
  obtain ⟨⟨db₁, r₁⟩, hw, h⟩ := bind_ok h
  obtain ⟨p, n, hp, hn, hst, rfl⟩ := beforeWrite_ok hw
  obtain ⟨_, -, h⟩ := bind_ok h
  obtain ⟨_, hadm, h⟩ := bind_ok h
  cases h
  exact ⟨p, n, r₁, hp, hn, hst, Data.hasParent_of_admits (require_ok hadm), rfl⟩

theorem flushInsert_ok {db db' : Data} {r : Row} {now : Time}
    (h : flushInsert db r now = .ok db') :
    ∃ p n r', db.projectOf r = some p ∧ db.lastSequence p = some n ∧ Stamped r r' (n + 1) ∧
      db.row r.key = none ∧ db.hasParent (r'.withDefaults now) ∧
      db' = { db with
        rows := db.rows ++ [r'.withDefaults now]
        lastSequence := Function.update db.lastSequence p (some (n + 1)) } := by
  obtain ⟨⟨db₁, r₁⟩, hw, h⟩ := bind_ok h
  obtain ⟨p, n, hp, hn, hst, rfl⟩ := beforeWrite_ok hw
  obtain ⟨_, -, h⟩ := bind_ok h
  obtain ⟨_, hreq, h⟩ := bind_ok h
  cases h
  obtain ⟨hadm, hfresh⟩ := Bool.and_eq_true _ _ ▸ require_ok hreq
  have hkey : (r₁.withDefaults now).key = r.key := hst.key
  rw [hkey] at hfresh
  exact ⟨p, n, r₁, hp, hn, hst, Option.isNone_iff_eq_none.mp hfresh,
    Data.hasParent_of_admits hadm, rfl⟩

end RiskApp.Server
