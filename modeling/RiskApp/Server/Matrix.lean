import Mathlib.Algebra.BigOperators.Group.Finset.Basic
import Mathlib.Order.Interval.Finset.Nat
import Mathlib.Tactic.IntervalCases
import RiskApp.Server.Scores
import RiskApp.Server.Snapshots

namespace RiskApp.Server.Matrix

open Lib Snapshots

abbrev Grid := List (List ℕ)

structure MatrixResponse where
  kind : String
  probabilityAxis : List ℕ
  impactAxis : List ℕ
  risks : Option Grid
  opportunities : Option Grid

def axis : List ℕ := [1, 2, 3, 4, 5]

def blank : Grid := axis.map fun _ ↦ axis.map fun _ ↦ 0

def coordinate (r : Row) : Option (ℕ × ℕ) :=
  match r.attrs .probability, r.attrs .impact with
  | .int p, .int i =>
    if 1 ≤ p ∧ p ≤ 5 ∧ 1 ≤ i ∧ i ≤ 5 then some (p.toNat, i.toNat) else none
  | _, _ => none

/-- The coordinates of the rows that the query of `fill` groups. -/
def coordinates (projectId : Uuid) (itemType : String) (d : Data) : List (ℕ × ℕ) :=
  (scored projectId itemType d).filterMap coordinate

/-- What `GROUP BY probability, impact` may answer: the groups come in any order. -/
def Groups (l : List (ℕ × ℕ)) (groups : List ((ℕ × ℕ) × ℕ)) : Prop :=
  groups.Perm (l.dedup.map fun k ↦ (k, l.count k))

def put (out : Grid) (g : (ℕ × ℕ) × ℕ) : Grid :=
  out.modify (g.1.1 - 1) fun row ↦ row.set (g.1.2 - 1) g.2

def fill (groups : List ((ℕ × ℕ) × ℕ)) (out : Grid) : Grid := groups.foldl put out

/-- `matrix`, with the groups that the queries answer. -/
def matrix (kind : List Char) (groups : String → List ((ℕ × ℕ) × ℕ)) : Option MatrixResponse :=
  let k := normalized [] kind
  if k ∉ ["risk", "opportunity", "both"] then none
  else some
    { kind := k
      probabilityAxis := axis
      impactAxis := axis
      risks := if k ∈ ["risk", "both"] then some (fill (groups "risk") blank) else none
      opportunities :=
        if k ∈ ["opportunity", "both"] then some (fill (groups "opportunity") blank) else none }

def cell (out : Grid) (k : ℕ × ℕ) : ℕ :=
  ((out[k.1 - 1]?).bind fun row ↦ row[k.2 - 1]?).getD 0

def OnScale (k : ℕ × ℕ) : Prop := 1 ≤ k.1 ∧ k.1 ≤ 5 ∧ 1 ≤ k.2 ∧ k.2 ≤ 5

def Square (out : Grid) : Prop := out.length = 5 ∧ ∀ row ∈ out, row.length = 5

theorem square_put {out : Grid} (h : Square out) (g : (ℕ × ℕ) × ℕ) : Square (put out g) := by
  refine ⟨by rw [put, List.length_modify, h.1], fun row hrow ↦ ?_⟩
  obtain ⟨n, hn, rfl⟩ := List.mem_iff_getElem.mp hrow
  simp only [put, List.getElem_modify]
  split
  · rw [List.length_set]
    exact h.2 _ (List.getElem_mem _)
  · exact h.2 _ (List.getElem_mem _)

theorem cell_put {out : Grid} (h : Square out) {g : (ℕ × ℕ) × ℕ} (hg : OnScale g.1) {k : ℕ × ℕ}
    (hk : OnScale k) : cell (put out g) k = if g.1 = k then g.2 else cell out k := by
  obtain ⟨hp, -, hi, -⟩ := hg
  obtain ⟨hp', hp'', hi', hi''⟩ := hk
  have hindex : k.1 - 1 < out.length := by
    rw [h.1]
    omega
  have hlength : out[k.1 - 1].length = 5 := h.2 _ (List.getElem_mem _)
  simp only [cell, put, List.getElem?_modify, List.getElem?_eq_getElem hindex]
  by_cases hrow : g.1.1 - 1 = k.1 - 1
  · by_cases hcol : g.1.2 - 1 = k.2 - 1
    · have hgk : g.1 = k := Prod.ext (by omega) (by omega)
      have hbound : k.2 - 1 < out[k.1 - 1].length := by omega
      simp [hgk, hbound]
    · have hgk : g.1 ≠ k := fun hgk ↦ hcol (congrArg (fun x : ℕ × ℕ ↦ x.2 - 1) hgk)
      simp [hrow, hgk, hcol]
  · have hgk : g.1 ≠ k := fun hgk ↦ hrow (congrArg (fun x : ℕ × ℕ ↦ x.1 - 1) hgk)
    simp [hrow, hgk]

/-- Filled with one group for each of some coordinates, a cell holds its group or what it held. -/
theorem cell_fill {groups : List ((ℕ × ℕ) × ℕ)} {out : Grid} (h : Square out)
    (hscale : ∀ g ∈ groups, OnScale g.1) (hkeys : (groups.map Prod.fst).Nodup) {k : ℕ × ℕ}
    (hk : OnScale k) :
    (∀ c, (k, c) ∈ groups → cell (fill groups out) k = c) ∧
      (k ∉ groups.map Prod.fst → cell (fill groups out) k = cell out k) := by
  induction groups generalizing out with
  | nil => exact ⟨fun _ h ↦ absurd h List.not_mem_nil, fun _ ↦ rfl⟩
  | cons g groups ih =>
    obtain ⟨hnew, hrest⟩ := List.nodup_cons.mp hkeys
    have hput := cell_put h (hscale g List.mem_cons_self) hk
    obtain ⟨hin, hout⟩ := ih (square_put h g) (fun g hg ↦ hscale g (List.mem_cons_of_mem _ hg))
      hrest
    refine ⟨fun c hc ↦ ?_, fun hnot ↦ ?_⟩
    · obtain rfl | hc := List.mem_cons.mp hc
      · exact (hout hnew).trans (hput.trans (if_pos rfl))
      · exact hin c hc
    · rw [List.map_cons, List.mem_cons, not_or] at hnot
      exact (hout hnot.2).trans (hput.trans (if_neg fun h ↦ hnot.1 h.symm))

theorem blank_square : Square blank := ⟨rfl, by decide⟩

theorem cell_blank {k : ℕ × ℕ} (hk : OnScale k) : cell blank k = 0 := by
  obtain ⟨p, i⟩ := k
  obtain ⟨hp, hp', hi, hi'⟩ := hk
  interval_cases p <;> interval_cases i <;> rfl

theorem cell_groups {l : List (ℕ × ℕ)} (hl : ∀ k ∈ l, OnScale k)
    {groups : List ((ℕ × ℕ) × ℕ)} (h : Groups l groups) {k : ℕ × ℕ} (hk : OnScale k) :
    cell (fill groups blank) k = l.count k := by
  have hkeys : (groups.map Prod.fst).Perm l.dedup := by
    have hmap := h.map Prod.fst
    rwa [List.map_map, show (Prod.fst ∘ fun k ↦ (k, l.count k)) = id from rfl, List.map_id] at hmap
  have hscale : ∀ g ∈ groups, OnScale g.1 := fun g hg ↦
    hl _ (List.mem_dedup.mp (hkeys.mem_iff.mp (List.mem_map_of_mem hg)))
  obtain ⟨hin, hout⟩ := cell_fill blank_square hscale (hkeys.nodup_iff.mpr (List.nodup_dedup l)) hk
  by_cases hmem : k ∈ l
  · refine hin _ (h.mem_iff.mpr ?_)
    exact List.mem_map_of_mem (f := fun k ↦ (k, l.count k)) (List.mem_dedup.mpr hmem)
  · rw [hout fun h ↦ hmem (List.mem_dedup.mp (hkeys.mem_iff.mp h)), cell_blank hk,
      List.count_eq_zero.mpr hmem]

def cells : Finset (ℕ × ℕ) := Finset.Icc 1 5 ×ˢ Finset.Icc 1 5

theorem mem_cells {k : ℕ × ℕ} : k ∈ cells ↔ OnScale k := by
  simp only [cells, Finset.mem_product, Finset.mem_Icc, OnScale, and_assoc]

theorem sum_cells {l : List (ℕ × ℕ)} (hl : ∀ k ∈ l, OnScale k)
    {groups : List ((ℕ × ℕ) × ℕ)} (h : Groups l groups) (weight : ℕ × ℕ → ℕ) :
    ∑ k ∈ cells, cell (fill groups blank) k * weight k = (l.map weight).sum := by
  have hcount : ∀ k, @List.count _ instBEqOfDecidableEq k l = l.count k := by
    intro k
    simp only [List.count_eq_countP, Bool.beq_eq_decide_eq]
  have hsub : l.toFinset ⊆ cells := fun k hk ↦ mem_cells.mpr (hl k (List.mem_toFinset.mp hk))
  rw [Finset.sum_list_map_count, ← Finset.sum_subset hsub fun k hk hno ↦ ?_]
  · refine Finset.sum_congr rfl fun k hk ↦ ?_
    rw [cell_groups hl h (hl k (List.mem_toFinset.mp hk)), hcount]
    rfl
  · rw [cell_groups hl h (mem_cells.mp hk),
      List.count_eq_zero.mpr fun h ↦ hno (List.mem_toFinset.mpr h), Nat.zero_mul]

theorem coordinate_onScale {r : Row} {k : ℕ × ℕ} (h : coordinate r = some k) : OnScale k := by
  unfold coordinate at h
  split at h
  · split at h
    · cases h
      simp only [OnScale]
      omega
    · cases h
  · cases h

theorem coordinates_onScale {projectId : Uuid} {itemType : String} {d : Data} :
    ∀ k ∈ coordinates projectId itemType d, OnScale k := by
  intro k hk
  obtain ⟨r, -, hr⟩ := List.mem_filterMap.mp hk
  exact coordinate_onScale hr

theorem coordinate_of_multiplied {r : Row} (h : r.Multiplied) (ht : r.table = .items) :
    ∃ k, coordinate r = some k ∧ r.attrs .probability = .int k.1 ∧ r.attrs .impact = .int k.2 ∧
      points (r.attrs .score) = (k.1 * k.2 : ℕ) := by
  obtain ⟨p, i, hp, hi, hprobability, himpact, hscore⟩ := h (.inl ht)
  simp only [FieldType.inScale, Bool.and_eq_true, decide_eq_true_eq] at hp hi
  refine ⟨(p.toNat, i.toNat), ?_, ?_, ?_, ?_⟩
  · simp only [coordinate, hprobability, himpact]
    rw [if_pos ⟨hp.1, hp.2, hi⟩]
  · rw [hprobability, Int.toNat_of_nonneg (by omega)]
  · rw [himpact, Int.toNat_of_nonneg (by omega)]
  · simp only [hscore, points]
    rw [Nat.cast_mul, Int.toNat_of_nonneg (by omega), Int.toNat_of_nonneg (by omega)]

def MatrixResponse.grid (response : MatrixResponse) (itemType : Entity) : Option Grid :=
  match itemType with
  | .risk => response.risks
  | .opportunity => response.opportunities
  | _ => none

theorem matrix_grid {kind : List Char} {groups : String → List ((ℕ × ℕ) × ℕ)}
    {response : MatrixResponse} (h : matrix kind groups = some response) {itemType : Entity}
    {grid : Grid} (hgrid : response.grid itemType = some grid) :
    grid = fill (groups itemType.name) blank := by
  unfold matrix at h
  simp only at h
  split at h
  · cases h
  · cases h
    cases itemType <;> simp only [MatrixResponse.grid] at hgrid
    · split at hgrid <;> cases hgrid
      rfl
    · split at hgrid <;> cases hgrid
      rfl
    · cases hgrid
    · cases hgrid
    · cases hgrid

/-- The row is on the grid, and its score is the area. -/
def Placed (r : Row) : Prop :=
  ∃ k, coordinate r = some k ∧ r.attrs .probability = .int k.1 ∧ r.attrs .impact = .int k.2 ∧
    points (r.attrs .score) = (k.1 * k.2 : ℕ)

theorem count_coordinates {rows : List Row} (h : ∀ r ∈ rows, Placed r) (k : ℕ × ℕ) :
    (rows.filterMap coordinate).count k = rows.countP fun r ↦
      r.attrs .probability = .int k.1 ∧ r.attrs .impact = .int k.2 := by
  induction rows with
  | nil => rfl
  | cons r rows ih =>
    obtain ⟨k', hcoordinate, hprobability, himpact, -⟩ := h r List.mem_cons_self
    rw [List.filterMap_cons_some hcoordinate, List.count_cons, List.countP_cons,
      ih fun r hr ↦ h r (List.mem_cons_of_mem _ hr)]
    congr 1
    by_cases hk : k' = k
    · subst hk
      simp [hprobability, himpact]
    · have hne : ¬(r.attrs .probability = .int k.1 ∧ r.attrs .impact = .int k.2) := by
        rintro ⟨hp, hi⟩
        rw [hprobability, Val.int.injEq] at hp
        rw [himpact, Val.int.injEq] at hi
        exact hk (Prod.ext (by omega) (by omega))
      rw [if_neg (by simpa using hk), if_neg (by simpa using hne)]

theorem sum_coordinates {rows : List Row} (h : ∀ r ∈ rows, Placed r) :
    ((rows.filterMap coordinate).map fun _ ↦ 1).sum = rows.length ∧
      ((((rows.filterMap coordinate).map fun k ↦ k.1 * k.2).sum : ℕ) : ℤ) =
        (rows.map fun r ↦ points (r.attrs .score)).sum := by
  induction rows with
  | nil => exact ⟨rfl, rfl⟩
  | cons r rows ih =>
    obtain ⟨k, hcoordinate, -, -, hpoints⟩ := h r List.mem_cons_self
    obtain ⟨hcount, hsum⟩ := ih fun r hr ↦ h r (List.mem_cons_of_mem _ hr)
    rw [List.filterMap_cons_some hcoordinate]
    refine ⟨?_, ?_⟩
    · rw [List.map_cons, List.sum_cons, hcount, List.length_cons, Nat.add_comm]
    · rw [List.map_cons, List.sum_cons, List.map_cons, List.sum_cons, Nat.cast_add, hsum, hpoints]

/-- On every database that the routes and pushes reach, in whatever order the groups come: a cell of
the matrix counts the live items at its place, no live item is missing, and each is where its score
says. -/
theorem matrix_counts_every_item {Digest : Type} [DecidableEq Digest] (conv : Conv)
    (sha : Payload → Digest) {db : Db Digest} (h : ReachableOn conv sha Terms.none db)
    (projectId : Uuid) (kind : List Char) {groups : String → List ((ℕ × ℕ) × ℕ)}
    (hgroups : ∀ itemType, Groups (coordinates projectId itemType db.data) (groups itemType))
    {response : MatrixResponse} (hresponse : matrix kind groups = some response)
    {itemType : Entity} {grid : Grid} (hgrid : response.grid itemType = some grid) :
    (∀ k, OnScale k → cell grid k = (scored projectId itemType.name db.data).countP fun r ↦
      r.attrs .probability = .int k.1 ∧ r.attrs .impact = .int k.2) ∧
    ∑ k ∈ cells, cell grid k = (scored projectId itemType.name db.data).length ∧
    ((∑ k ∈ cells, cell grid k * (k.1 * k.2) : ℕ) : ℤ) =
      ((scored projectId itemType.name db.data).map fun r ↦ points (r.attrs .score)).sum := by
  have hplaced : ∀ r ∈ scored projectId itemType.name db.data, Placed r := by
    intro r hr
    have hrow := List.mem_filter.mp hr
    simp only [Bool.and_eq_true, decide_eq_true_eq] at hrow
    exact coordinate_of_multiplied (multiplied_invariant.reachable sha h r hrow.1) hrow.2.1.1.1
  have hgroup := hgroups itemType.name
  obtain ⟨hcount, hsum⟩ := sum_coordinates hplaced
  rw [matrix_grid hresponse hgrid]
  refine ⟨fun k hk ↦ ?_, ?_, ?_⟩
  · rw [cell_groups coordinates_onScale hgroup hk]
    exact count_coordinates hplaced k
  · have hcells := sum_cells coordinates_onScale hgroup fun _ ↦ 1
    simp only [Nat.mul_one] at hcells
    exact hcells.trans hcount
  · rw [sum_cells coordinates_onScale hgroup fun k ↦ k.1 * k.2]
    exact hsum

section Sample

def plainRisk (itemId : Uuid) (probability impact : ℤ) (code : String) : ItemCall :=
  .createObj (Dict.ofList [(.title, .str "B"), (.probability, .int probability),
    (.impact, .int impact)]) itemId code

def twoRisks : Data := committed (plainRisk 101 2 4 "R-2") 6 (committed costlyRisk 5 newProject)

def fourRisks : Data :=
  committed (plainRisk 103 5 1 "R-4") 8 (committed (plainRisk 102 5 1 "R-3") 7 twoRisks)

def oneDeleted : Data := committed (.deleteObj 102) 9 fourRisks

theorem plainRisk_conforms : (plainRisk 101 2 4 "R-2").Conforms ∧
    (plainRisk 102 5 1 "R-3").Conforms ∧ (plainRisk 103 5 1 "R-4").Conforms := by
  unfold plainRisk ItemCall.Conforms
  decide

theorem oneDeleted_reachable :
    ReachableOn Conv.strict titleDigest Terms.none ⟨oneDeleted, []⟩ := by
  obtain ⟨hsecond, hthird, hfourth⟩ := plainRisk_conforms
  have htwo : ReachableOn Conv.strict titleDigest Terms.none ⟨twoRisks, []⟩ :=
    committed_reachable (committed_reachable (.empty rfl) costlyRisk_conforms rfl trivial) hsecond
      rfl trivial
  have hfour : ReachableOn Conv.strict titleDigest Terms.none ⟨fourRisks, []⟩ :=
    committed_reachable (committed_reachable htwo hthird rfl trivial) hfourth rfl trivial
  exact committed_reachable hfour trivial rfl trivial

def sampleGroups (itemType : String) : List ((ℕ × ℕ) × ℕ) :=
  if itemType = "risk" then [((5, 1), 1), ((2, 4), 2)] else []

theorem sampleGroups_hold (itemType : String) :
    Groups (coordinates 1 itemType oneDeleted) (sampleGroups itemType) := by
  have hrisks : ∀ r ∈ oneDeleted.rows, r.attrs .type = .str "risk" := by decide
  by_cases hrisk : itemType = "risk"
  · subst hrisk
    have hplace : coordinates 1 "risk" oneDeleted = [(2, 4), (2, 4), (5, 1)] := by decide
    rw [hplace]
    exact List.Perm.swap _ _ []
  · have hnone : scored 1 itemType oneDeleted = [] := by
      refine List.filter_eq_nil_iff.mpr fun r hr h ↦ hrisk ?_
      simp only [Bool.and_eq_true, decide_eq_true_eq, hrisks r hr, Val.str.injEq] at h
      exact h.2.symm
    rw [sampleGroups, if_neg hrisk, coordinates, hnone]
    exact .refl _

/-- Two of three live risks are at one place; the fourth risk is deleted. -/
theorem matrix_counts_every_item_sample :
    ∃ response grid, matrix " Both ".toList sampleGroups = some response ∧
      response.grid .risk = some grid ∧ cell grid (2, 4) = 2 ∧
      ∑ k ∈ cells, cell grid k = (scored 1 "risk" oneDeleted).length ∧
      oneDeleted.rows.length = 4 ∧ (scored 1 "risk" oneDeleted).length = 3 := by
  obtain ⟨hcount, hsum, -⟩ := matrix_counts_every_item Conv.strict titleDigest
    oneDeleted_reachable 1 " Both ".toList sampleGroups_hold rfl
    (rfl : MatrixResponse.grid _ .risk = some _)
  have htwice := hcount (2, 4) ⟨by decide, by decide, by decide, by decide⟩
  exact ⟨_, _, rfl, rfl, htwice.trans (by decide), hsum, by decide, by decide⟩

end Sample

end RiskApp.Server.Matrix
