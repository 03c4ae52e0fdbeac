import RiskApp.Server.Feed

namespace RiskApp.Server

open Lib

/-- The fields of `RiskOut`, `OpportunityOut`, `ActionOut`, `AssessmentOut` and
`HelpDeskTicketOut`. -/
def outFields : Entity → List Attr
  | .risk | .opportunity => [.id, .projectId, .title, .probability, .impact, .score,
      .statusChangedAt, .createdAt, .createdBy, .updatedAt, .version, .isDeleted, .type,
      .impactCost, .impactTime, .impactScope, .impactQuality, .code, .description, .category,
      .threat, .triggers, .mitigationPlan, .documentUrl, .ownerUserId, .status, .identifiedAt,
      .responseAt, .occurredAt]
  | .action => [.id, .projectId, .riskId, .opportunityId, .kind, .title, .description, .status,
      .ownerUserId, .updatedAt, .version, .isDeleted]
  | .assessment => [.id, .itemId, .riskId, .opportunityId, .assessorUserId, .probability, .impact,
      .score, .notes, .createdAt, .updatedAt, .version, .isDeleted]
  | .helpdeskTicket => [.id, .projectId, .title, .description, .category, .priority, .status,
      .reporterEmail, .createdAt, .updatedAt, .version, .isDeleted]

/-- A row in a pull response, which leaves out what its schema does not name and what is null
(`response_model_exclude_none`). -/
def pulledRecord (d : Data) (entity : Entity) (r : Row) : Dict := fun a ↦
  if a ∈ outFields entity then (modelToSyncDict d entity r a).filter (· ≠ .null) else none

section

variable (d : Data) {entity : Entity} {r : Row} {a : Attr}

theorem get_filter_null (v : Option Val) : (v.filter (· ≠ .null)).getD .null = v.getD .null := by
  cases v with
  | none => rfl
  | some v => by_cases h : v = .null <;> simp [Option.filter, h]

theorem pulledRecord_get (h : a ∈ outFields entity ∨ modelToSyncDict d entity r a = none) :
    (pulledRecord d entity r).get a = (modelToSyncDict d entity r).get a := by
  by_cases ha : a ∈ outFields entity
  · simp only [Dict.get, pulledRecord, if_pos ha]
    exact get_filter_null _
  · have hnone := h.resolve_left ha
    simp only [Dict.get, pulledRecord, if_neg ha, hnone]

theorem modelToSyncDict_column (ha : a ∈ r.table.columns) (hr : a ≠ .riskId)
    (ho : a ≠ .opportunityId) :
    modelToSyncDict d entity r a = some (r.get a) := by
  have hdict : modelToDict r a = some (r.get a) := if_pos ha
  unfold modelToSyncDict
  split
  · rw [withItemAliases, Dict.set_of_ne _ _ ho, Dict.set_of_ne _ _ hr, hdict]
  · exact hdict

theorem modelToSyncDict_none (ha : a ∉ r.table.columns)
    (hp : a ∉ [.itemId, .riskId, .opportunityId]) :
    modelToSyncDict d entity r a = none := by
  simp only [List.mem_cons, List.not_mem_nil, or_false, not_or] at hp
  have hdict : modelToDict r a = none := by
    rw [modelToDict, if_neg ha, if_neg fun h ↦ h.2.elim hp.2.1 hp.2.2]
  unfold modelToSyncDict
  split
  · rw [withItemAliases, Dict.set_of_ne _ _ hp.2.2, Dict.set_of_ne _ _ hp.2.1, hdict]
  · exact hdict

end

end RiskApp.Server
