import Mathlib.Algebra.BigOperators.Group.List.Basic
import RiskApp.Server.Reports

namespace RiskApp.Client

open Lib Lib.Binary64 Lib.Tally Server Text

/-- The fields of a risk or an opportunity that reports read. -/
structure ScoredEntity where
  title : String
  code : Option String
  description : Option String
  category : Option String
  ownerUserId : Option Uuid
  status : String
  identifiedAt : Option Time
  score : ℤ

def anyStatus : String := "(any)"

def maxScore : ℤ := 999999

/-- The bounds of the date of identification are in microseconds. -/
structure ScoredFilterCriteria where
  search : String := ""
  minScore : ℤ := 0
  maxScore : ℤ := Client.maxScore
  status : String := anyStatus
  categoryContains : String := ""
  ownerUserId : Option Uuid := none
  ownerUnassigned : Bool := false
  identifiedFrom : Option ℤ := none
  identifiedTo : Option ℤ := none

def endOfDay : ℤ := 86399000000

def scoreOr (value : Option ℤ) (default : ℤ) : ℤ :=
  if value.getD 0 = 0 then default else value.getD 0

def statusOr (value : String) : String := if value = "" then anyStatus else value

def criteriaFromReportFilters (f : ItemFilterParams) : ScoredFilterCriteria where
  search := f.search.getD ""
  minScore := scoreOr f.minScore 0
  maxScore := scoreOr f.maxScore maxScore
  status := statusOr (f.status.getD "")
  categoryContains := f.category.getD ""
  ownerUserId := f.ownerUserId
  ownerUnassigned := f.ownerUnassigned
  identifiedFrom := f.fromDate.map (· * dayLength)
  identifiedTo := f.toDate.map (· * dayLength + endOfDay)

def norm (value : String) : List Char := lower (strip value.toList)

def searchText (x : ScoredEntity) : List Char :=
  lower ([' '].intercalate
    [x.title.toList, (x.code.getD "").toList, (x.category.getD "").toList,
      (x.description.getD "").toList])

def ownerMatches (x : ScoredEntity) (ownerId : Option Uuid) (unassigned : Bool) : Bool :=
  if unassigned then x.ownerUserId = none else ownerId.all fun o ↦ x.ownerUserId = some o

def identifiedBetween (x : ScoredEntity) (start stop : Option ℤ) : Bool :=
  if start = none ∧ stop = none then true
  else x.identifiedAt.elim false fun t ↦ start.all (· ≤ (t : ℤ)) && stop.all ((t : ℤ) ≤ ·)

/-- The condition of `filter_scored` on one item. -/
def ScoredFilterCriteria.selects (c : ScoredFilterCriteria) (x : ScoredEntity) : Bool :=
  let search := norm c.search
  let low := min c.minScore c.maxScore
  let high := max c.minScore c.maxScore
  let status := norm (statusOr c.status)
  let category := norm c.categoryContains
  (search = [] || search <:+: searchText x) && (low ≤ x.score && x.score ≤ high) &&
    (status = anyStatus.toList || norm x.status = status) &&
    (category = [] || category <:+: lower (x.category.getD "").toList) &&
    ownerMatches x c.ownerUserId c.ownerUnassigned &&
    identifiedBetween x c.identifiedFrom c.identifiedTo

def average (scores : List ℤ) : Option ℚ :=
  if scores = [] then none else some (nearest (scores.sum / scores.length))

def filterScored (items : List ScoredEntity) (c : ScoredFilterCriteria) : List ScoredEntity :=
  items.filter c.selects

def scoreBuckets : List (String × Option ℤ) :=
  [("0-4", some 4), ("5-9", some 9), ("10-14", some 14), ("15-19", some 19), ("20-25", none)]

def scoreBucket (score : ℤ) : String :=
  ((scoreBuckets.find? fun b ↦ b.2.all (score ≤ ·)).map Prod.fst).getD ""

def countBucket (buckets : String → Option ℕ) (score : ℤ) : String → Option ℕ :=
  Function.update buckets (scoreBucket score) ((buckets (scoreBucket score)).map (· + 1))

def localScoredReport (items : List ScoredEntity) (f : ItemFilterParams) : ScoreReport :=
  let rows := filterScored items (criteriaFromReportFilters f)
  let scores := rows.map ScoredEntity.score
  { total := rows.length
    projectTotal := items.length
    minScore := scores.min?
    maxScore := scores.max?
    avgScore := average scores
    statusCounts := tally (fun x ↦ statusLabel x.status) rows
    categoryCounts := tally (fun x ↦ categoryLabel x.category) rows
    ownerCounts := tally (fun x ↦ ownerLabel x.ownerUserId) rows
    scoreBuckets := scores.foldl countBucket
      fun label ↦ if label ∈ scoreBuckets.map Prod.fst then some 0 else none }

def scoredCopy (x : Item) : ScoredEntity where
  title := x.title
  code := x.code
  description := x.description
  category := x.category
  ownerUserId := x.ownerUserId
  status := x.status
  identifiedAt := some x.identifiedAt
  score := x.score

def ofKind (f : ItemFilterParams) (itemType : Entity) : ItemFilterParams :=
  { f with itemType := some itemType }

def liveItems (items : List Item) (projectId : Uuid) (itemType : Entity) : List Item :=
  items.filter fun x ↦ x.projectId = projectId && x.type = itemType && !x.isDeleted

/-- The categories that a report counts under one label. -/
def uncategorized : List (Option String) := [none, some "", some "(none)"]

/-- What the client's filters ask of an item beyond what the server's do. -/
structure Narrower (f : ItemFilterParams) (x : Item) : Prop where
  search : norm (f.search.getD "") <:+: searchText (scoredCopy x)
  status : norm (statusOr (f.status.getD "")) ∈ [anyStatus.toList, x.status.toList]
  category : norm (f.category.getD "") <:+: lower (x.category.getD "").toList
  lastSecond : ∀ d ∈ f.toDate, (x.identifiedAt : ℤ) ≤ d * dayLength + endOfDay
  zeroMax : f.maxScore = some 0 → f.minScore.getD 0 ≤ x.score

/-- What the server's filters ask of an item beyond what the client's do. -/
structure Wider (fold : Char → Char) (f : ItemFilterParams) (x : Item) : Prop where
  search : (strip (f.search.getD "").toList).map fold <:+: x.title.toList.map fold ∨
    (strip (f.search.getD "").toList).map fold <:+: (x.code.getD "").toList.map fold
  category : csvList f.category = [] ∨
    ∃ c ∈ csvList f.category, c.map fold <:+: (x.category.getD "").toList.map fold
  zeroMax : f.maxScore = some 0 → ∃ m ∈ f.minScore, 0 < m ∧ x.score ≤ m

/-- The filters that client and server apply to these items with the same outcome. -/
structure Comparable (db : Database) (f : ItemFilterParams) (items : List Item) : Prop where
  lastDay : f.toDate ≠ some maxDate
  listed : ∀ x ∈ items, f.statusValues = [] ∨ x.status.toList ∈ f.statusValues
  narrower : ∀ x ∈ items, f.applies db.fold x = true → Narrower f x
  wider : ∀ x ∈ items, (criteriaFromReportFilters f).selects (scoredCopy x) = true →
    Wider db.fold f x
  averages : ∀ rows : List Item, rows.Sublist (items.filter (f.applies db.fold)) →
    db.avg (rows.map Item.score) = average (rows.map Item.score)
  categories : ∀ x ∈ items, ∀ y ∈ items, f.applies db.fold x = true →
    f.applies db.fold y = true → x.category ∈ uncategorized → y.category ∈ uncategorized →
      x.category = y.category

section Tests

variable {f : ItemFilterParams} {x : Item}

theorem norm_status (x : Item) : norm x.status = x.status.toList := by
  have hall : ∀ s ∈ riskStatuses, norm s = s.toList := by decide
  exact hall x.status x.knownStatus

theorem nil_or_infix {p s : List Char} : (p = [] ∨ p <:+: s) ↔ p <:+: s :=
  or_iff_right_of_imp fun h ↦ h ▸ List.nil_infix

theorem nil_or_ilike {fold : Char → Char} {column : Option String} {q : List Char} :
    (q = [] ∨ ilike fold column (containing q) = true) ↔
      q.map fold <:+: (column.getD "").toList.map fold := by
  rw [ilike_containing]
  cases column with
  | none => simp
  | some s =>
    simp only [Option.some.injEq, exists_eq_left', Option.getD_some]
    exact or_iff_right_of_imp fun h ↦ h ▸ List.nil_infix

theorem categoryMatches_iff {fold : Char → Char} : f.categoryMatches fold x = true ↔
    csvList f.category = [] ∨
      ∃ c ∈ csvList f.category, c.map fold <:+: (x.category.getD "").toList.map fold := by
  unfold ItemFilterParams.categoryMatches
  rw [Bool.or_eq_true, decide_eq_true_eq, List.any_eq_true]
  refine or_congr_right (exists_congr fun c ↦ and_congr_right fun hc ↦ ?_)
  have hne : c ≠ [] := of_decide_eq_true (List.mem_filter.mp hc).2
  rw [← nil_or_ilike, or_iff_right hne]

theorem searchMatches_iff {fold : Char → Char} : f.searchMatches fold x = true ↔
    (strip (f.search.getD "").toList).map fold <:+: x.title.toList.map fold ∨
      (strip (f.search.getD "").toList).map fold <:+: (x.code.getD "").toList.map fold := by
  unfold ItemFilterParams.searchMatches
  generalize strip (f.search.getD "").toList = q
  have htitle := @nil_or_ilike fold (some x.title) q
  rw [Option.getD_some] at htitle
  rw [← htitle, ← nil_or_ilike]
  simp only [Bool.or_eq_true, decide_eq_true_eq]
  tauto

def scoreBetween (f : ItemFilterParams) (score : ℤ) : Prop :=
  min (scoreOr f.minScore 0) (scoreOr f.maxScore maxScore) ≤ score ∧
    score ≤ max (scoreOr f.minScore 0) (scoreOr f.maxScore maxScore)

theorem scoreMatches_iff (hmax : f.maxScore ≠ some 0) :
    f.scoreMatches x = true ↔ scoreBetween f x.score := by
  have hscaled := x.scaled
  unfold ItemFilterParams.scoreMatches scoreBetween normalizeScoreRange scoreOr maxScore
  cases hlow : f.minScore with
  | none =>
    cases hhigh : f.maxScore with
    | none =>
      simp
      omega
    | some high =>
      have hne : high ≠ 0 := fun h ↦ hmax (h ▸ hhigh)
      simp [hne]
      omega
  | some low =>
    cases hhigh : f.maxScore with
    | none =>
      simp
      split <;> omega
    | some high =>
      have hne : high ≠ 0 := fun h ↦ hmax (h ▸ hhigh)
      simp [hne]
      split <;> split <;> simp <;> omega

theorem scoreMatches_zero (hmax : f.maxScore = some 0) :
    f.scoreMatches x = true ↔ ∃ m ∈ f.minScore, 0 < m ∧ x.score ≤ m := by
  have hscaled := x.scaled
  unfold ItemFilterParams.scoreMatches normalizeScoreRange
  rw [hmax]
  cases f.minScore with
  | none =>
    simp
    omega
  | some low =>
    simp
    split <;> simp <;> omega

theorem scoreBetween_zero (hmax : f.maxScore = some 0) :
    scoreBetween f x.score ↔ f.minScore.getD 0 ≤ x.score := by
  have hscaled := x.scaled
  unfold scoreBetween scoreOr maxScore
  rw [hmax]
  simp
  omega

theorem identifiedBetween_iff {t : Time} {y : ScoredEntity} (hy : y.identifiedAt = some t)
    {start stop : Option ℤ} : identifiedBetween y start stop = true ↔
      (∀ a ∈ start, a ≤ (t : ℤ)) ∧ ∀ b ∈ stop, (t : ℤ) ≤ b := by
  unfold identifiedBetween
  rw [hy]
  cases start <;> cases stop <;> simp

theorem selects_iff : (criteriaFromReportFilters f).selects (scoredCopy x) = true ↔
    norm (f.search.getD "") <:+: searchText (scoredCopy x) ∧ scoreBetween f x.score ∧
      norm (statusOr (f.status.getD "")) ∈ [anyStatus.toList, x.status.toList] ∧
      norm (f.category.getD "") <:+: lower (x.category.getD "").toList ∧
      f.ownerMatches x = true ∧ (∀ d ∈ f.fromDate, d * dayLength ≤ x.identifiedAt) ∧
      ∀ d ∈ f.toDate, (x.identifiedAt : ℤ) ≤ d * dayLength + endOfDay := by
  have hstatus : statusOr (statusOr (f.status.getD "")) = statusOr (f.status.getD "") := by
    unfold statusOr
    split <;> simp_all [anyStatus]
  have hitem : norm (scoredCopy x).status = x.status.toList := norm_status x
  have howner : ownerMatches (scoredCopy x) f.ownerUserId f.ownerUnassigned = f.ownerMatches x :=
    rfl
  unfold ScoredFilterCriteria.selects criteriaFromReportFilters
  simp only [hstatus, hitem, howner, Bool.and_eq_true, Bool.or_eq_true, decide_eq_true_eq,
    nil_or_infix, identifiedBetween_iff (y := scoredCopy x) (t := x.identifiedAt) rfl,
    List.mem_cons, List.not_mem_nil, or_false, Option.mem_def, Option.map_eq_some_iff,
    forall_exists_index, and_imp, forall_apply_eq_imp_iff₂, and_assoc]
  unfold scoreBetween
  rw [eq_comm (a := x.status.toList), and_assoc]
  rfl

theorem applies_iff {fold : Char → Char} (hf : f.includeDeleted = false)
    (hx : x.isDeleted = false) :
    f.applies fold x = true ↔ (f.statusValues = [] ∨ x.status.toList ∈ f.statusValues) ∧
      f.categoryMatches fold x = true ∧ f.itemType.all (x.type = ·) = true ∧
      f.ownerMatches x = true ∧ (∀ d ∈ f.fromDate, d * dayLength ≤ x.identifiedAt) ∧
      (∀ d ∈ f.toDate, (x.identifiedAt : ℤ) < (d + 1) * dayLength) ∧
      f.searchMatches fold x = true ∧ f.scoreMatches x = true := by
  unfold ItemFilterParams.applies applyDateRange
  rw [← statusMatches_of_live hf hx]
  simp only [Bool.and_eq_true, Option.all_eq_true, decide_eq_true_eq, and_assoc, Option.mem_def]

/-- Client and server choose alike exactly when what each asks beyond the other holds of all that
the other lets pass. -/
theorem selects_iff_applies {fold : Char → Char} (hf : f.includeDeleted = false)
    (hx : x.isDeleted = false) (htype : f.itemType.all (x.type = ·) = true)
    (hlisted : f.statusValues = [] ∨ x.status.toList ∈ f.statusValues) :
    ((criteriaFromReportFilters f).selects (scoredCopy x) = true ↔ f.applies fold x = true) ↔
      (f.applies fold x = true → Narrower f x) ∧
      ((criteriaFromReportFilters f).selects (scoredCopy x) = true → Wider fold f x) := by
  constructor
  · intro hsame
    constructor
    · intro happ
      obtain ⟨hsearch, hscore, hstatus, hcategory, -, -, hto⟩ := selects_iff.mp (hsame.mpr happ)
      exact ⟨hsearch, hstatus, hcategory, hto, fun hmax ↦ (scoreBetween_zero hmax).mp hscore⟩
    · intro hsel
      obtain ⟨-, hcategory, -, -, -, -, hsearch, hscore⟩ :=
        (applies_iff hf hx).mp (hsame.mp hsel)
      exact ⟨searchMatches_iff.mp hsearch, categoryMatches_iff.mp hcategory,
        fun hmax ↦ (scoreMatches_zero hmax).mp hscore⟩
  · rintro ⟨hnarrow, hwide⟩
    constructor
    · intro hsel
      have hw := hwide hsel
      obtain ⟨-, hscore, -, -, howner, hfrom, hto⟩ := selects_iff.mp hsel
      refine (applies_iff hf hx).mpr ⟨hlisted, categoryMatches_iff.mpr hw.category, htype, howner,
        hfrom, fun d hd ↦ ?_, searchMatches_iff.mpr hw.search, ?_⟩
      · have hle := hto d hd
        unfold endOfDay at hle
        unfold dayLength at hle ⊢
        omega
      · by_cases hmax : f.maxScore = some 0
        · exact (scoreMatches_zero hmax).mpr (hw.zeroMax hmax)
        · exact (scoreMatches_iff hmax).mpr hscore
    · intro happ
      have hn := hnarrow happ
      obtain ⟨-, -, -, howner, hfrom, -, -, hscore⟩ := (applies_iff hf hx).mp happ
      refine selects_iff.mpr ⟨hn.search, ?_, hn.status, hn.category, howner, hfrom,
        hn.lastSecond⟩
      by_cases hmax : f.maxScore = some 0
      · exact (scoreBetween_zero hmax).mpr (hn.zeroMax hmax)
      · exact (scoreMatches_iff hmax).mp hscore

end Tests

section Buckets

theorem scoreBucket_eq (score : ℤ) : scoreBucket score = bucketOf score := by
  unfold scoreBucket scoreBuckets bucketOf
  by_cases h4 : score ≤ 4
  · simp [h4]
  by_cases h9 : score ≤ 9
  · simp [h4, h9]
  by_cases h14 : score ≤ 14
  · simp [h4, h9, h14]
  by_cases h19 : score ≤ 19
  · simp [h4, h9, h14, h19]
  · simp [h4, h9, h14, h19]

theorem bucketOf_mem (score : ℤ) : bucketOf score ∈ emptyScoreBuckets := by
  unfold bucketOf emptyScoreBuckets
  split_ifs <;> simp

theorem foldl_countBucket (scores : List ℤ) (buckets : String → Option ℕ) (label : String) :
    scores.foldl countBucket buckets label =
      (buckets label).map (· + scores.countP (bucketOf · = label)) := by
  induction scores generalizing buckets with
  | nil => simp
  | cons score scores ih =>
    rw [List.foldl_cons, ih, List.countP_cons]
    unfold countBucket
    rw [scoreBucket_eq]
    by_cases hlabel : label = bucketOf score
    · subst hlabel
      rw [Function.update_self, Option.map_map, if_pos (by simp)]
      congr 1
      funext n
      simp only [Function.comp_apply]
      omega
    · rw [Function.update_of_ne hlabel, if_neg (by simpa using Ne.symm hlabel), Nat.add_zero]

theorem buckets_eq (rows : List Item) :
    ((rows.map Item.score).foldl countBucket fun label ↦
        if label ∈ scoreBuckets.map Prod.fst then some 0 else none) =
      withEmptyBuckets (groupCounts (fun x ↦ bucketOf x.score) id rows) := by
  have hgroups : groupCounts (fun x : Item ↦ bucketOf x.score) id rows =
      tally (fun x ↦ bucketOf x.score) rows := groupCounts_eq_tally_iff.mpr fun _ _ _ _ h ↦ h
  funext label
  rw [foldl_countBucket, List.countP_map, hgroups]
  unfold withEmptyBuckets tally
  by_cases hlabel : label ∈ emptyScoreBuckets
  · rw [if_pos hlabel, if_pos (show label ∈ scoreBuckets.map Prod.fst from hlabel)]
    split
    · rename_i hzero
      simp only [Option.map_some, Nat.zero_add, Option.none_or, Option.some.injEq]
      exact hzero
    · simp only [Option.map_some, Nat.zero_add, Option.some_or, Option.some.injEq]
      rfl
  · rw [if_neg hlabel, if_neg (show label ∉ scoreBuckets.map Prod.fst from hlabel), if_pos]
    · rfl
    · rw [List.countP_eq_zero]
      intro x _ hx
      exact hlabel (of_decide_eq_true hx ▸ bucketOf_mem x.score)

end Buckets

section Labels

theorem categoryLabel_eq_none_iff {c : Option String} :
    categoryLabel c = "(none)" ↔ c ∈ uncategorized := by
  unfold categoryLabel uncategorized
  cases c with
  | none => simp
  | some s =>
    by_cases hs : s = ""
    · simp [hs]
    · simp [hs]

theorem categoryLabel_injective {c c' : Option String} (hc : c ∉ uncategorized)
    (h : categoryLabel c = categoryLabel c') : c = c' := by
  have hc' : c' ∉ uncategorized := fun hmem ↦
    hc (categoryLabel_eq_none_iff.mp (h.trans (categoryLabel_eq_none_iff.mpr hmem)))
  have hsome : ∀ c : Option String, c ∉ uncategorized → c = some (categoryLabel c) := by
    intro c hc
    cases c with
    | none => exact absurd List.mem_cons_self hc
    | some s =>
      have hs : s ≠ "" := by
        rintro rfl
        exact hc (List.mem_cons_of_mem _ List.mem_cons_self)
      simp [categoryLabel, hs]
  rw [hsome c hc, hsome c' hc', h]

theorem ownerLabel_injective {o o' : Option Uuid} (h : ownerLabel o = ownerLabel o') : o = o' := by
  cases o <;> cases o' <;> simp_all [ownerLabel]

theorem statusLabel_known (x : Item) : statusLabel x.status = x.status := by
  refine if_neg fun hempty ↦ ?_
  have hknown := x.knownStatus
  rw [hempty] at hknown
  revert hknown
  decide

variable {rows : List Item}

theorem status_counts : groupCounts Item.status statusLabel rows =
    tally (fun x ↦ statusLabel x.status) rows :=
  groupCounts_eq_tally_iff.mpr fun x _ y _ h ↦ by
    rwa [statusLabel_known, statusLabel_known] at h

theorem owner_counts : groupCounts Item.ownerUserId ownerLabel rows =
    tally (fun x ↦ ownerLabel x.ownerUserId) rows :=
  groupCounts_eq_tally_iff.mpr fun _ _ _ _ h ↦ ownerLabel_injective h

/-- The server's counts of the categories are complete when no two of them have one label. -/
theorem category_counts_iff : groupCounts Item.category categoryLabel rows =
      tally (fun x ↦ categoryLabel x.category) rows ↔
    ∀ x ∈ rows, ∀ y ∈ rows, x.category ∈ uncategorized → y.category ∈ uncategorized →
      x.category = y.category := by
  rw [groupCounts_eq_tally_iff]
  constructor
  · intro h x hx y hy hxc hyc
    refine h x hx y hy ?_
    rw [categoryLabel_eq_none_iff.mpr hxc, categoryLabel_eq_none_iff.mpr hyc]
  · intro h x hx y hy hlabel
    by_cases hxc : x.category ∈ uncategorized
    · refine h x hx y hy hxc (categoryLabel_eq_none_iff.mp ?_)
      rw [← hlabel, categoryLabel_eq_none_iff.mpr hxc]
    · exact categoryLabel_injective hxc hlabel

end Labels

section Report

variable {db : Database} {items : List Item} {projectId : Uuid} {itemType : Entity}
  {f : ItemFilterParams}

theorem mem_liveItems {x : Item} : x ∈ liveItems items projectId itemType ↔
    x ∈ items ∧ x.projectId = projectId ∧ x.type = itemType ∧ x.isDeleted = false := by
  simp [liveItems, and_assoc]

theorem filtered_eq (hf : f.includeDeleted = false) (hkind : f.itemType = some itemType) :
    filtered db.fold items projectId f =
      (liveItems items projectId itemType).filter (f.applies db.fold) := by
  unfold filtered liveItems
  rw [List.filter_filter]
  refine List.filter_congr fun x _ ↦ ?_
  by_cases happ : f.applies db.fold x = true
  · have hparts := happ
    unfold ItemFilterParams.applies at hparts
    simp only [Bool.and_eq_true] at hparts
    have hlive := live_of_statusMatches hf hparts.1.1.1.1.1.1
    have htype := hparts.1.1.1.1.2
    rw [hkind, Option.all_some, decide_eq_true_eq] at htype
    simp [happ, hlive, htype]
  · simp [Bool.eq_false_iff.mpr happ]

theorem totals_applies {x : Item} (hf : f.includeDeleted = false) (hx : x.isDeleted = false)
    (htype : f.itemType.all (x.type = ·) = true) :
    ItemFilterParams.applies db.fold { itemType := f.itemType, status := f.status } x = true ↔
      f.statusValues = [] ∨ x.status.toList ∈ f.statusValues := by
  have hplain : (⟨none, f.itemType, none, none, f.status, none, none, false, none, none⟩ :
      ItemFilterParams).includeDeleted = false := hf
  rw [applies_iff hplain hx]
  refine and_iff_left ⟨rfl, htype, rfl, ?_, ?_, rfl, rfl⟩ <;> · intro d hd; cases hd

theorem min_perm {l l' : List ℤ} (h : l.Perm l') : l.min? = l'.min? := by
  cases hl : l.min? with
  | none =>
    obtain rfl := List.min?_eq_none_iff.mp hl
    rw [List.nil_perm.mp h]
    rfl
  | some a =>
    obtain ⟨hmem, hle⟩ := List.min?_eq_some_iff.mp hl
    exact (List.min?_eq_some_iff.mpr ⟨h.mem_iff.mp hmem, fun b hb ↦ hle b (h.mem_iff.mpr hb)⟩).symm

theorem max_perm {l l' : List ℤ} (h : l.Perm l') : l.max? = l'.max? := by
  cases hl : l.max? with
  | none =>
    obtain rfl := List.max?_eq_none_iff.mp hl
    rw [List.nil_perm.mp h]
    rfl
  | some a =>
    obtain ⟨hmem, hle⟩ := List.max?_eq_some_iff.mp hl
    exact (List.max?_eq_some_iff.mpr ⟨h.mem_iff.mp hmem, fun b hb ↦ hle b (h.mem_iff.mpr hb)⟩).symm

theorem countBucket_perm {l l' : List ℤ} (h : l.Perm l') (buckets : String → Option ℕ) :
    l.foldl countBucket buckets = l'.foldl countBucket buckets := by
  funext label
  rw [foldl_countBucket, foldl_countBucket, h.countP_eq]

theorem localScoredReport_perm {entities entities' : List ScoredEntity}
    (h : entities.Perm entities') (f : ItemFilterParams) :
    localScoredReport entities f = localScoredReport entities' f := by
  have hrows : (filterScored entities (criteriaFromReportFilters f)).Perm
      (filterScored entities' (criteriaFromReportFilters f)) := h.filter _
  have hscores := hrows.map ScoredEntity.score
  have haverage : ∀ {l l' : List ℤ}, l.Perm l' → average l = average l' := by
    intro l l' hl
    unfold average
    rw [hl.sum_eq, hl.length_eq]
    by_cases hnil : l = []
    · subst hnil
      rw [List.nil_perm.mp hl]
    · have hnil' : l' ≠ [] := by
        rintro rfl
        exact hnil (List.perm_nil.mp hl)
      rw [if_neg hnil, if_neg hnil']
  apply ScoreReport.ext
  · exact hrows.length_eq
  · exact h.length_eq
  · exact min_perm hscores
  · exact max_perm hscores
  · exact haverage hscores
  · exact tally_perm _ hrows
  · exact tally_perm _ hrows
  · exact tally_perm _ hrows
  · exact countBucket_perm hscores _

/-- The items of the client's list that its filters choose, when they choose as the server's do. -/
theorem filterScored_copies {live : List Item}
    (hsame : ∀ x ∈ live, (criteriaFromReportFilters f).selects (scoredCopy x) = true ↔
      f.applies db.fold x = true) :
    filterScored (live.map scoredCopy) (criteriaFromReportFilters f) =
      (live.filter (f.applies db.fold)).map scoredCopy := by
  unfold filterScored
  rw [List.filter_map]
  refine congrArg (List.map scoredCopy) (List.filter_congr fun x hx ↦ ?_)
  exact Bool.eq_iff_iff.mpr (hsame x hx)

theorem sqlite_average {scores : List ℤ} (hpos : 0 ≤ scores.sum) (hsum : scores.sum < 2 ^ 53)
    (hlength : scores.length < 2 ^ 53) : Database.sqlite.avg scores = average scores := by
  obtain ⟨n, hn⟩ := Int.eq_ofNat_of_zero_le hpos
  rw [hn] at hsum
  have hexact : nearest (scores.sum : ℚ) = scores.sum := by
    rw [hn]
    exact nearest_natCast (by exact_mod_cast hsum)
  unfold Database.sqlite average
  simp only [hexact, nearest_natCast hlength]

end Report

section Sample

def vendorOutage : Item where
  projectId := 1
  type := .risk
  isDeleted := false
  title := "Vendor outage"
  code := some "R-001"
  description := some "Primary supplier unavailable"
  category := none
  ownerUserId := none
  status := "active"
  identifiedAt := 5
  score := 12
  knownStatus := by decide
  scaled := by decide

def vendorFilters : ItemFilterParams :=
  { search := some " VENDOR", minScore := some 5, status := some "Active" }

end Sample

end RiskApp.Client
