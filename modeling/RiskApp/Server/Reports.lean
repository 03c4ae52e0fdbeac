import Mathlib.Algebra.Ring.Int.Defs
import Mathlib.Data.List.MinMax
import Mathlib.Data.Rat.Init
import RiskApp.Lib.Binary64
import RiskApp.Lib.Patterns
import RiskApp.Lib.Tally
import RiskApp.Server.Schemas

namespace RiskApp.Server

open Lib Lib.Binary64 Lib.Patterns Lib.Tally Text

/-- What one database does otherwise than another: the letter case that `ILIKE` forgets, and the
average of a column as `float` reads it. -/
structure Database where
  fold : Char → Char
  avg : List ℤ → Option ℚ

/-- SQLite divides the sum by the count in doubles. -/
def Database.sqlite : Database where
  fold := Char.toLower
  avg scores :=
    if scores = [] then none
    else some (nearest (nearest scores.sum / nearest scores.length))

/-- The columns of an item that reports read. Every path that writes an item checks its status and
keeps its score on the scale. -/
structure Item where
  projectId : Uuid
  type : Entity
  isDeleted : Bool
  title : String
  code : Option String
  description : Option String
  category : Option String
  ownerUserId : Option Uuid
  status : String
  identifiedAt : Time
  score : ℤ
  knownStatus : status ∈ riskStatuses
  scaled : 1 ≤ score ∧ score ≤ 25

/-- The query parameters of a report; a date is the number of days since the start of year 1. -/
structure ItemFilterParams where
  search : Option String := none
  itemType : Option Entity := none
  minScore : Option ℤ := none
  maxScore : Option ℤ := none
  status : Option String := none
  category : Option String := none
  ownerUserId : Option Uuid := none
  ownerUnassigned : Bool := false
  fromDate : Option ℤ := none
  toDate : Option ℤ := none

/-- `date.max`, the last day of year 9999. -/
def maxDate : ℤ := 3652058

def dayLength : ℤ := 86400000000

def csvList (value : Option String) : List (List Char) :=
  (((value.getD "").toList.splitOn ',').map strip).filter (· ≠ [])

def ilike (fold : Char → Char) (column : Option String) (pattern : List Char) : Bool :=
  column.elim false fun s ↦ fits fold (pieces '\\' false pattern) s.toList

/-- `f"%{_escape_like(value)}%"`. -/
def containing (value : List Char) : List Char := '%' :: escapeLike '\\' value ++ ['%']

def applyDateRange (field : Time) (fromDate toDate : Option ℤ) : Bool :=
  fromDate.all (fun d ↦ d * dayLength ≤ field) && toDate.all fun d ↦ field < (d + 1) * dayLength

def normalizeScoreRange (minScore maxScore : Option ℤ) : Option ℤ × Option ℤ :=
  match minScore, maxScore with
  | some low, some high => if low > high then (some high, some low) else (some low, some high)
  | low, high => (low, high)

namespace ItemFilterParams

variable (fold : Char → Char) (f : ItemFilterParams)

def statusValues : List (List Char) := (csvList f.status).map lower

def nonDeleted : List (List Char) := f.statusValues.filter (· ≠ "deleted".toList)

def includeDeleted : Bool := "deleted".toList ∈ f.statusValues

def statusMatches (x : Item) : Bool :=
  if f.includeDeleted then
    x.isDeleted || f.nonDeleted ≠ [] && x.status.toList ∈ f.nonDeleted
  else !x.isDeleted && (f.nonDeleted = [] || x.status.toList ∈ f.nonDeleted)

def categoryMatches (x : Item) : Bool :=
  csvList f.category = [] || (csvList f.category).any fun c ↦ ilike fold x.category (containing c)

def ownerMatches (x : Item) : Bool :=
  if f.ownerUnassigned then x.ownerUserId = none
  else f.ownerUserId.all fun o ↦ x.ownerUserId = some o

def searchMatches (x : Item) : Bool :=
  let q := strip (f.search.getD "").toList
  q = [] || ilike fold (some x.title) (containing q) || ilike fold x.code (containing q)

def scoreMatches (x : Item) : Bool :=
  let (low, high) := normalizeScoreRange f.minScore f.maxScore
  low.all (· ≤ x.score) && high.all (x.score ≤ ·)

def applies (x : Item) : Bool :=
  f.statusMatches x && f.categoryMatches fold x && f.itemType.all (x.type = ·) &&
    f.ownerMatches x && applyDateRange x.identifiedAt f.fromDate f.toDate &&
    f.searchMatches fold x && f.scoreMatches x

end ItemFilterParams

@[ext] structure ScoreReport where
  total : ℕ
  projectTotal : ℕ
  minScore : Option ℤ
  maxScore : Option ℤ
  avgScore : Option ℚ
  statusCounts : String → Option ℕ
  categoryCounts : String → Option ℕ
  ownerCounts : Val → Option ℕ
  scoreBuckets : String → Option ℕ

def bucketOf (score : ℤ) : String :=
  if score ≤ 4 then "0-4" else if score ≤ 9 then "5-9" else if score ≤ 14 then "10-14"
  else if score ≤ 19 then "15-19" else "20-25"

def emptyScoreBuckets : List String := ["0-4", "5-9", "10-14", "15-19", "20-25"]

def statusLabel (status : String) : String := if status = "" then "concept" else status

def categoryLabel (category : Option String) : String :=
  if category.getD "" = "" then "(none)" else category.getD ""

def ownerLabel (owner : Option Uuid) : Val := owner.elim (.str "(none)") .uuid

def withEmptyBuckets (counts : String → Option ℕ) (label : String) : Option ℕ :=
  (counts label).or (if label ∈ emptyScoreBuckets then some 0 else none)

def filtered (fold : Char → Char) (items : List Item) (projectId : Uuid)
    (f : ItemFilterParams) : List Item :=
  items.filter fun x ↦ x.projectId = projectId && f.applies fold x

def scoreReport (db : Database) (items : List Item) (projectId : Uuid) (f : ItemFilterParams) :
    ScoreReport :=
  let rows := filtered db.fold items projectId f
  { total := rows.length
    projectTotal :=
      (filtered db.fold items projectId { itemType := f.itemType, status := f.status }).length
    minScore := (rows.map Item.score).min?
    maxScore := (rows.map Item.score).max?
    avgScore := db.avg (rows.map Item.score)
    statusCounts := groupCounts Item.status statusLabel rows
    categoryCounts := groupCounts Item.category categoryLabel rows
    ownerCounts := groupCounts Item.ownerUserId ownerLabel rows
    scoreBuckets := withEmptyBuckets (groupCounts (fun x ↦ bucketOf x.score) id rows) }

/-- `generate_report`, none where the day after `to_date` is no date. -/
def generateReport (db : Database) (items : List Item) (projectId : Uuid) (f : ItemFilterParams) :
    Option ScoreReport :=
  if f.toDate = some maxDate then none else some (scoreReport db items projectId f)

section Filters

variable {f : ItemFilterParams} {x : Item}

theorem ilike_containing {fold : Char → Char} {column : Option String} {q : List Char} :
    ilike fold column (containing q) = true ↔
      ∃ s, column = some s ∧ q.map fold <:+: s.toList.map fold := by
  cases column with
  | none => simp [ilike]
  | some s =>
    rw [ilike, Option.elim_some, containing, fits_contains ⟨by decide, by decide⟩]
    simp

theorem statusMatches_of_live (hf : f.includeDeleted = false) (hx : x.isDeleted = false) :
    f.statusMatches x = true ↔ f.statusValues = [] ∨ x.status.toList ∈ f.statusValues := by
  have hnone : "deleted".toList ∉ f.statusValues := of_decide_eq_false hf
  have hall : f.nonDeleted = f.statusValues := by
    refine List.filter_eq_self.mpr fun s hs ↦ ?_
    exact decide_eq_true fun he ↦ hnone (he ▸ hs)
  unfold ItemFilterParams.statusMatches
  rw [hf, if_neg Bool.false_ne_true, hx, hall, Bool.not_false, Bool.true_and, Bool.or_eq_true,
    decide_eq_true_eq, decide_eq_true_eq]

theorem live_of_statusMatches (hf : f.includeDeleted = false) (hx : f.statusMatches x = true) :
    x.isDeleted = false := by
  unfold ItemFilterParams.statusMatches at hx
  rw [hf, if_neg Bool.false_ne_true, Bool.and_eq_true, Bool.not_eq_true'] at hx
  exact hx.1

end Filters

end RiskApp.Server
