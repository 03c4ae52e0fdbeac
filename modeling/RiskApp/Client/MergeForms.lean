import RiskApp.Client.Merge

namespace RiskApp.Client

open Lib Server Merge

namespace Merge

def parentOf (record : Dict) : Val :=
  Val.orElse (record.get .itemId) (Val.orElse (record.get .riskId) (record.get .opportunityId))

/-- Two records that read alike: an absent key counts as null, and the item of an action or an
assessment may go by any of its names. -/
structure ReadsAlike (record record' : Dict) : Prop where
  get : ∀ a ∉ parents, record.get a = record'.get a
  parent : parentOf record = parentOf record'

/-- Two copies of one row that agree on what a merge reads. -/
structure CopiesAlike (entity : Entity) (theirs theirs' : Dict) : Prop where
  get : ∀ a ∈ [.id, .isDeleted, .status] ++ Cache.mergeFields entity, theirs.get a = theirs'.get a
  parent : parentOf theirs = parentOf theirs'

theorem parents_not_mergeFields {entity : Entity} {a : Attr}
    (ha : a ∈ Cache.mergeFields entity) : a ∉ parents := by
  revert a
  cases entity <;> decide

theorem dimensions_mergeFields {entity : Entity} (hs : entity.scored = true) {a : Attr}
    (ha : a ∈ impactDimensions) : a ∈ Cache.mergeFields entity := by
  revert a
  cases entity with
  | risk | opportunity => decide
  | action | assessment | helpdeskTicket => cases hs

section

variable {entity : Entity} {mine theirs theirs' : Dict}

namespace CopiesAlike

variable (h : CopiesAlike entity theirs theirs')

include h

theorem field {a : Attr} (ha : a ∈ Cache.mergeFields entity) : theirs.get a = theirs'.get a :=
  h.get a (List.mem_append_right _ ha)

theorem dimensionsActive :
    dimensionsActive entity mine theirs = Merge.dimensionsActive entity mine theirs' := by
  unfold Merge.dimensionsActive
  cases hs : entity.scored with
  | false => rfl
  | true =>
    have hget : ∀ a ∈ impactDimensions, theirs.get a = theirs'.get a := fun a ha ↦
      h.field (dimensions_mergeFields hs ha)
    simp only [impactDimensions, List.any_cons, List.any_nil] at hget ⊢
    rw [hget .impactCost (by simp), hget .impactTime (by simp), hget .impactScope (by simp),
      hget .impactQuality (by simp)]

theorem editable : editable entity mine theirs = Merge.editable entity mine theirs' := by
  simp only [Merge.editable, h.dimensionsActive]

theorem deletedRecord : LocalStore.deletedRecord theirs = LocalStore.deletedRecord theirs' := by
  simp only [LocalStore.deletedRecord, recordDeleted, h.get .isDeleted (by simp),
    h.get .status (by simp)]

theorem overlay {selected : List Attr} (hs : ∀ a ∈ selected, a ∈ Cache.mergeFields entity) :
    ReadsAlike (overlay entity mine theirs selected)
      (Merge.overlay entity mine theirs' selected) := by
  have hparent : ∀ a ∈ parents, ∀ t : Dict,
      (Merge.overlay entity mine t selected).get a = t.get a := by
    intro a ha t
    have hns : a ∉ selected := fun hmem ↦ parents_not_mergeFields (hs a hmem) ha
    have hin : a ∈ .id :: Cache.mergeFields entity ++ parents := List.mem_append_right _ ha
    simp only [Dict.get, Merge.overlay, if_neg hns, if_pos hin]
  refine ⟨fun a ha ↦ ?_, ?_⟩
  · simp only [Dict.get, Merge.overlay]
    split
    · rfl
    · split
      · rename_i hin
        rcases List.mem_append.mp hin with hin | hin
        · rcases List.mem_cons.mp hin with rfl | hin
          · exact h.get .id (by simp)
          · exact h.field hin
        · exact absurd hin ha
      · rfl
  · have hread : ∀ t : Dict, parentOf (Merge.overlay entity mine t selected) = parentOf t :=
      fun t ↦ by
        simp only [parentOf, hparent .itemId (by decide), hparent .riskId (by decide),
          hparent .opportunityId (by decide)]
    rw [hread, hread, h.parent]

end CopiesAlike

theorem ReadsAlike.maxDimension (h : ReadsAlike theirs theirs') :
    maxDimension theirs = Merge.maxDimension theirs' := by
  have hget : ∀ a ∈ impactDimensions, theirs.get a = theirs'.get a := fun a ha ↦
    h.get a (by revert a; decide)
  unfold Merge.maxDimension
  rw [List.filterMap_congr fun a ha ↦ by rw [hget a ha]]

theorem ReadsAlike.withMaxImpact (h : ReadsAlike theirs theirs') :
    ReadsAlike (withMaxImpact entity theirs) (Merge.withMaxImpact entity theirs') := by
  unfold Merge.withMaxImpact
  rw [h.maxDimension]
  cases Merge.maxDimension theirs' with
  | none => exact h
  | some n =>
    dsimp only
    split
    · refine ⟨fun a ha ↦ ?_, h.parent⟩
      by_cases hi : a = .impact
      · subst hi
        simp [Dict.get]
      · simp only [Dict.get, Dict.set_of_ne _ _ hi]
        exact h.get a ha
    · exact h

end

end Merge

namespace Entry

def pushedConflict (d : Data) (r : Row) (e : Entry) : Entry :=
  e.withOutcome ⟨some r.version, some (modelToSyncDict d e.entity r)⟩

/-- The conflict once a pull has refreshed its copy (`_remember_conflict_server_record`). -/
def pulledConflict (d : Data) (r : Row) (e : Entry) : Entry :=
  e.withOutcome ⟨some r.version, some (pulledRecord d e.entity r)⟩

/-- Merging does not depend on how the server's copy arrived: the same fields are offered, the
same choices give the same upsert, and every local value that differs from the server's is
offered. -/
structure MergesAlike (ps : Parsers) (d : Data) (r : Row) (e : Entry) : Prop where
  fields : (e.pushedConflict d r).mergeableFields = (e.pulledConflict d r).mergeableFields
  merged : ∀ choices, Option.Rel ReadsAlike ((e.pushedConflict d r).mergedRecord ps choices)
    ((e.pulledConflict d r).mergedRecord ps choices)
  offered : (e.pulledConflict d r).canMerge → ∀ a ∈ editable e.entity e.record
    (modelToSyncDict d e.entity r), e.record.has a → e.record.get a ≠ r.get a →
    a ∈ (e.pulledConflict d r).mergeableFields

/-- No field that the user edited to a value is null on the server. -/
def NoNullTheirs (d : Data) (r : Row) (e : Entry) : Prop :=
  ∀ a ∈ editable e.entity e.record (modelToSyncDict d e.entity r), e.record.has a →
    r.get a = .null → e.record.get a = .null

section

variable {d : Data} {r : Row} {e : Entry}

theorem mergeFields_columns (ht : r.table = e.entity.table) {a : Attr}
    (ha : a ∈ Cache.mergeFields e.entity) :
    a ∈ r.table.columns ∧ a ≠ .riskId ∧ a ≠ .opportunityId ∧ a ∈ outFields e.entity := by
  rw [ht]
  revert a
  cases e.entity <;> decide

theorem pushed_field (ht : r.table = e.entity.table) {a : Attr}
    (ha : a ∈ Cache.mergeFields e.entity) :
    modelToSyncDict d e.entity r a = some (r.get a) := by
  obtain ⟨hcol, hrisk, hopp, -⟩ := mergeFields_columns ht ha
  exact modelToSyncDict_column d hcol hrisk hopp

theorem pulled_field (ht : r.table = e.entity.table) {a : Attr}
    (ha : a ∈ Cache.mergeFields e.entity) :
    pulledRecord d e.entity r a = if r.get a = .null then none else some (r.get a) := by
  obtain ⟨-, -, -, hout⟩ := mergeFields_columns ht ha
  rw [pulledRecord, if_pos hout, pushed_field ht ha]
  by_cases h : r.get a = .null <;> simp [Option.filter, h]

theorem pulled_get_of_out {a : Attr} (ha : a ∈ outFields e.entity) :
    (pulledRecord d e.entity r).get a = (modelToSyncDict d e.entity r).get a :=
  pulledRecord_get d (Or.inl ha)

theorem plain_table {entity : Entity} (h : ¬(entity = .action ∨ entity = .assessment)) :
    ∀ a ∈ parents, a ∉ entity.table.columns := by
  revert h
  cases entity <;> decide

theorem modelToDict_parent (hcol : ∀ a ∈ parents, a ∉ r.table.columns) {a : Attr}
    (ha : a ∈ parents) :
    modelToDict r a = none := by
  rw [modelToDict, if_neg (hcol a ha), if_neg fun h ↦ hcol .itemId (by decide) h.1]

theorem modelToSyncDict_parent (hd : d.WellFormed) (hr : r ∈ d.rows)
    (hc : .itemId ∈ r.table.columns) (he : e.entity = .action ∨ e.entity = .assessment) :
    ∃ itemId, (modelToSyncDict d e.entity r).get .itemId = .uuid itemId ∧
      ((modelToSyncDict d e.entity r).get .riskId = .uuid itemId ∨
        (modelToSyncDict d e.entity r).get .riskId = .null ∧
        (modelToSyncDict d e.entity r).get .opportunityId = .uuid itemId) := by
  obtain ⟨itemId, hitem, hsome⟩ := hd.parents r hr hc
  obtain ⟨i, hi⟩ := Option.isSome_iff_exists.mp hsome
  have hget : (modelToDict r).get .itemId = .uuid itemId := by
    rw [Dict.get, modelToDict, if_pos hc]
    exact hitem
  have htype := hd.types i (Table.mem_of_find Row.key hi)
    (congrArg Prod.fst (Table.key_of_find Row.key hi))
  have hsync : modelToSyncDict d e.entity r =
      withItemAliases (modelToDict r) (i.attrs .type) := by
    rw [modelToSyncDict, if_pos he, hget]
    exact congrArg _ (by rw [Data.itemType, hi]; rfl)
  refine ⟨itemId, ?_, ?_⟩
  · rw [hsync]
    exact hget
  · rw [hsync]
    rcases htype with htype | htype
    · left
      rw [htype]
      exact hget
    · right
      rw [htype]
      exact ⟨rfl, hget⟩

theorem orElse_uuid (u : Uuid) (v : Val) : Val.orElse (.uuid u) v = .uuid u := rfl

theorem orElse_null (v : Val) : Val.orElse .null v = v := rfl

theorem shared_out {entity : Entity} {a : Attr} (ha : a ∈ [.id, .isDeleted, .status])
    (hout : a ∉ outFields entity) : a ∉ entity.table.columns ∧ a ∉ parents := by
  revert a
  cases entity <;> decide

theorem copiesAlike (hd : d.WellFormed) (hr : r ∈ d.rows) (ht : r.table = e.entity.table) :
    CopiesAlike e.entity (modelToSyncDict d e.entity r) (pulledRecord d e.entity r) := by
  refine ⟨fun a ha ↦ (pulledRecord_get d ?_).symm, ?_⟩
  · rcases List.mem_append.mp ha with ha | ha
    · by_cases hout : a ∈ outFields e.entity
      · exact Or.inl hout
      · obtain ⟨hcol, hpar⟩ := shared_out ha hout
        exact Or.inr (modelToSyncDict_none d (ht ▸ hcol) hpar)
    · exact Or.inl (mergeFields_columns ht ha).2.2.2
  · by_cases hc : e.entity = .action ∨ e.entity = .assessment
    · have hcol : .itemId ∈ r.table.columns := by
        rw [ht]
        rcases hc with hc | hc <;> rw [hc] <;> decide
      have hrisk : .riskId ∈ outFields e.entity := by
        rcases hc with hc | hc <;> rw [hc] <;> decide
      have hopp : .opportunityId ∈ outFields e.entity := by
        rcases hc with hc | hc <;> rw [hc] <;> decide
      obtain ⟨itemId, hitem, hnames⟩ := modelToSyncDict_parent hd hr hcol hc
      have hpulled : (pulledRecord d e.entity r).get .itemId = .null ∨
          (pulledRecord d e.entity r).get .itemId = .uuid itemId := by
        by_cases hout : .itemId ∈ outFields e.entity
        · exact Or.inr ((pulled_get_of_out hout).trans hitem)
        · left
          simp only [Dict.get, pulledRecord, if_neg hout]
          rfl
      have hother : Val.orElse ((pulledRecord d e.entity r).get .riskId)
          ((pulledRecord d e.entity r).get .opportunityId) = .uuid itemId := by
        rw [pulled_get_of_out hrisk, pulled_get_of_out hopp]
        rcases hnames with h | ⟨h, h'⟩
        · rw [h, orElse_uuid]
        · rw [h, h', orElse_null]
      unfold parentOf
      rw [hitem, hother, orElse_uuid]
      rcases hpulled with h | h
      · rw [h, orElse_null]
      · rw [h, orElse_uuid]
    · have hnone : ∀ a ∈ parents, modelToSyncDict d e.entity r a = none := fun a ha ↦ by
        rw [modelToSyncDict, if_neg hc]
        exact modelToDict_parent (ht ▸ plain_table hc) ha
      have hget : ∀ a ∈ parents,
          (modelToSyncDict d e.entity r).get a = (pulledRecord d e.entity r).get a := fun a ha ↦
        (pulledRecord_get d (Or.inr (hnone a ha))).symm
      simp only [parentOf, hget .itemId (by decide), hget .riskId (by decide),
        hget .opportunityId (by decide)]

theorem differs_pulled (ht : r.table = e.entity.table) {a : Attr}
    (ha : a ∈ Cache.mergeFields e.entity) :
    differs e.record (pulledRecord d e.entity r) a =
      (decide (r.get a ≠ .null) && differs e.record (modelToSyncDict d e.entity r) a) := by
  simp only [differs, Dict.has, pulled_field ht ha, pushed_field ht ha]
  by_cases h : r.get a = .null <;> simp [h]

section

variable (hd : d.WellFormed) (hr : r ∈ d.rows) (ht : r.table = e.entity.table)

include hd hr ht

theorem canMerge_pulled : (e.pulledConflict d r).canMerge = (e.pushedConflict d r).canMerge := by
  have h := copiesAlike hd hr ht
  dsimp only [canMerge, pushedConflict, pulledConflict, withOutcome]
  rw [h.deletedRecord, h.get .id (by simp)]

theorem mergeableFields_pulled : (e.pulledConflict d r).mergeableFields =
    (e.pushedConflict d r).mergeableFields.filter (fun a ↦ r.get a ≠ .null) := by
  have hedit : editable e.entity e.record (pulledRecord d e.entity r) =
      editable e.entity e.record (modelToSyncDict d e.entity r) :=
      (copiesAlike hd hr ht).editable.symm
  rw [mergeableFields, mergeableFields, canMerge_pulled hd hr ht]
  split
  · change (editable e.entity e.record (pulledRecord d e.entity r)).filter
        (differs e.record (pulledRecord d e.entity r)) =
      ((editable e.entity e.record (modelToSyncDict d e.entity r)).filter
        (differs e.record (modelToSyncDict d e.entity r))).filter _
    rw [hedit, List.filter_filter]
    exact List.filter_congr fun a ha ↦ differs_pulled ht (List.mem_filter.mp ha).1
  · rfl

theorem mergeableFields_pulled_eq (h : (e.pulledConflict d r).canMerge → e.NoNullTheirs d r) :
    (e.pushedConflict d r).mergeableFields = (e.pulledConflict d r).mergeableFields := by
  rw [mergeableFields_pulled hd hr ht]
  refine (List.filter_eq_self.mpr fun a ha ↦ ?_).symm
  unfold mergeableFields at ha
  split at ha
  · rename_i hcan
    obtain ⟨hedit, hdiff⟩ := List.mem_filter.mp ha
    refine decide_eq_true fun hnull ↦ ?_
    simp only [differs, Bool.and_eq_true, decide_eq_true_eq] at hdiff
    obtain ⟨⟨hmine, -⟩, hne⟩ := hdiff
    have hlocal := h (canMerge_pulled hd hr ht ▸ hcan) a hedit hmine hnull
    obtain ⟨v, hv⟩ : ∃ v, e.record a = some v := Option.isSome_iff_exists.mp hmine
    obtain rfl : v = .null := by simpa [Dict.get, hv] using hlocal
    have htheirs : modelToSyncDict d e.entity r a = some .null :=
      hnull ▸ pushed_field ht (List.mem_filter.mp hedit).1
    exact hne (hv.trans htheirs.symm)
  · exact absurd ha List.not_mem_nil

end

end

theorem mem_mergeableFields {e : Entry} {a : Attr} (ha : a ∈ e.mergeableFields) :
    a ∈ Cache.mergeFields e.entity := by
  unfold mergeableFields at ha
  split at ha
  · exact (List.mem_filter.mp (List.mem_filter.mp ha).1).1
  · exact absurd ha List.not_mem_nil

/-- Over copies that agree, the same fields lead to the same upsert. -/
theorem mergedRecord_alike (ps : Parsers) {e : Entry} {out out' : SavedOutcome}
    (hcopies : CopiesAlike e.entity (e.withOutcome out).serverCopy (e.withOutcome out').serverCopy)
    (hfields : (e.withOutcome out).mergeableFields = (e.withOutcome out').mergeableFields)
    (choices : Choices) : Option.Rel ReadsAlike ((e.withOutcome out).mergedRecord ps choices)
      ((e.withOutcome out').mergedRecord ps choices) := by
  have haccept : (e.withOutcome out).acceptsChoices ps choices =
      (e.withOutcome out').acceptsChoices ps choices := by
    unfold acceptsChoices
    rw [hfields]
    rfl
  unfold mergedRecord
  rw [← haccept]
  split
  · rename_i hok
    simp only [acceptsChoices, Bool.and_eq_true] at hok
    refine .some ((hcopies.overlay fun a ha ↦ ?_).withMaxImpact)
    have hmem : a ∈ (e.withOutcome out).mergeableFields := Choices.mine_subset hok.1.2 ha
    have hfield := mem_mergeableFields hmem
    exact hfield
  · exact .none

/-- Which form the server's copy arrived in makes no difference exactly when no field that the
user gave a value is null on the server. -/
theorem merges_alike_iff (ps : Parsers) {d : Data} {r : Row} {e : Entry} (hd : d.WellFormed)
    (hr : r ∈ d.rows) (ht : r.table = e.entity.table) :
    e.MergesAlike ps d r ↔ ((e.pulledConflict d r).canMerge → e.NoNullTheirs d r) := by
  constructor
  · intro h hcan a hedit hmine hnull
    by_contra hne
    have hoff := h.offered hcan a hedit hmine (hnull ▸ hne)
    rw [mergeableFields_pulled hd hr ht] at hoff
    exact of_decide_eq_true (List.mem_filter.mp hoff).2 hnull
  · intro h
    have hfields := mergeableFields_pulled_eq hd hr ht h
    refine ⟨hfields, mergedRecord_alike ps (copiesAlike hd hr ht) hfields, ?_⟩
    intro hcan a hedit hmine hne
    rw [← hfields, mergeableFields, if_pos (canMerge_pulled hd hr ht ▸ hcan)]
    refine List.mem_filter.mpr ⟨hedit, ?_⟩
    have hfield := pushed_field (d := d) ht (List.mem_filter.mp hedit).1
    obtain ⟨v, hv⟩ := Option.isSome_iff_exists.mp hmine
    have hcopy : (e.pushedConflict d r).serverCopy a = some (r.get a) := hfield
    have hdiffer : e.record a ≠ some (r.get a) := fun he ↦ hne (by rw [Dict.get, he]; rfl)
    simp only [differs, hcopy, Dict.has, Bool.and_eq_true, decide_eq_true_eq]
    exact ⟨⟨hmine, rfl⟩, hdiffer⟩

/-- A conflict about the risk of `sampleDb`, which has no description. -/
def describedRisk : Entry where
  changeId := 7
  entity := .risk
  op := .upsert
  entityId := 100
  baseVersion := some 1
  record := Dict.ofList [(.id, .uuid 100), (.title, .str "Risk"), (.description, .str "mine")]
  status := .blocked
  failureKind := some .conflict
  createdAt := 0

theorem merges_alike_iff_sample :
    { describedRisk with record := Dict.ofList [(.id, .uuid 100), (.title, .str "Mine")]
    }.MergesAlike
      .strict sampleDb.data sampleRisk := by
  refine (merges_alike_iff .strict sampleDb_wellFormed List.mem_cons_self rfl).mpr
    fun _ a hedit ↦ ?_
  revert a
  decide

theorem null_field_not_offered :
    (describedRisk.pulledConflict sampleDb.data sampleRisk).canMerge ∧
      (describedRisk.pushedConflict sampleDb.data sampleRisk).mergeableFields = [.description] ∧
      (describedRisk.pulledConflict sampleDb.data sampleRisk).mergeableFields = [] ∧
      ∀ ps, ¬describedRisk.MergesAlike ps sampleDb.data sampleRisk := by
  have hpushed : (describedRisk.pushedConflict sampleDb.data sampleRisk).mergeableFields =
      [.description] := by decide
  have hpulled : (describedRisk.pulledConflict sampleDb.data sampleRisk).mergeableFields = [] := by
    decide
  refine ⟨by decide, hpushed, hpulled, fun ps h ↦ ?_⟩
  have hfields := h.fields
  rw [hpushed, hpulled] at hfields
  exact absurd hfields (List.cons_ne_nil _ _)

end Entry

end RiskApp.Client
