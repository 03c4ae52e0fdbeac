import RiskApp.Client.ServerState

namespace RiskApp.Client

open Server

abbrev Columns := Attr → Val

def Columns.ofList (l : List (Attr × Val)) : Columns := (Dict.ofList l).get

/-- The text columns among `SCORED_ENTITY_META_KEYS`. -/
def textMetaKeys : List Attr :=
  [.code, .description, .category, .threat, .triggers, .mitigationPlan, .documentUrl, .ownerUserId,
    .status, .identifiedAt, .statusChangedAt, .responseAt, .occurredAt]

def integerColumns : List Attr := [.probability, .impact, .score] ++ impactDimensions

def normScoredMeta (fields : Columns) : Option Columns :=
  if impactDimensions.all (fun a ↦ (optionalInt (fields a)).isSome) then
    some fun a ↦
      if a ∈ textMetaKeys then normText (fields a)
      else if a ∈ impactDimensions then (optionalInt (fields a)).getD .null
      else .null
  else none

/-- The row that `_apply_pull_scored_entities` writes. -/
def pulledScored (record : Dict) : Option Columns := do
  let fields : Columns := fun a ↦
    if a = .status then Val.orElse (record.get .status) (.str "concept") else record.get a
  let m ← normScoredMeta fields
  let probability ← intOr (record.get .probability) 1
  let impact ← intOr (record.get .impact) 1
  return fun a ↦ match a with
    | .title => textOr (record.get .title) ""
    | .probability => .int probability
    | .impact => .int impact
    | .updatedAt => textOr (record.get .updatedAt) ""
    | a => m a

def pulledAction (record : Dict) : Columns :=
  .ofList [(.riskId, optStr (record.get .riskId) .null),
    (.opportunityId, optStr (record.get .opportunityId) .null),
    (.kind, optStr (record.get .kind) (.str "")), (.title, optStr (record.get .title) (.str "")),
    (.description, textOr (record.get .description) ""),
    (.status, optStr (record.get .status) (.str "open")),
    (.ownerUserId, optStr (record.get .ownerUserId) .null),
    (.updatedAt, textOr (record.get .updatedAt) "")]

/-- The item of `assessment_from_mapping`: older endpoints name it by its type. -/
def assessedItem (record : Dict) : Val :=
  optStr (record.get .itemId)
    (optStr (record.get .riskId) (optStr (record.get .opportunityId) .null))

def pulledAssessment (record : Dict) (itemType : Entity) : Columns :=
  let itemId := assessedItem record
  let probability := optIntOr (record.get .probability) 1
  let impact := optIntOr (record.get .impact) 1
  .ofList [(.riskId, if itemType = .risk then itemId else .null),
    (.opportunityId, if itemType = .opportunity then itemId else .null), (.itemId, itemId),
    (.itemType, .str itemType.name),
    (.assessorUserId, optStr (record.get .assessorUserId) (.str "")),
    (.probability, .int probability), (.impact, .int impact), (.score, .int (probability * impact)),
    (.notes, textOr (record.get .notes) ""), (.updatedAt, textOr (record.get .updatedAt) "")]

def pulledTicket (record : Dict) : Columns :=
  .ofList [(.title, textOr (record.get .title) ""),
    (.description, textOr (record.get .description) ""),
    (.category, textOr (record.get .category) "other"),
    (.priority, textOr (record.get .priority) "medium"),
    (.status, textOr (record.get .status) "open"),
    (.reporterEmail, textOr (record.get .reporterEmail) ""),
    (.createdAt, textOr (record.get .createdAt) ""),
    (.updatedAt, textOr (record.get .updatedAt) "")]

def savedScored (record : Dict) (now : Time) : Option Columns := do
  let m ← normScoredMeta record.get
  let probability ← intOr (record.get .probability) 1
  let impact ← intOr (record.get .impact) 1
  let dims := impactDimensions.filterMap fun a ↦ match m a with
    | .int n => some n
    | _ => none
  return fun a ↦ match a with
    | .title => textOr (record.get .title) ""
    | .probability => .int probability
    | .impact => .int (match dims with
      | [] => impact
      | n :: rest => rest.foldl max n)
    | .status => Val.orElse (m .status) (.str "concept")
    | .updatedAt => .time now
    | a => m a

def savedAction (f : ActionForm) (now : Time) : Columns :=
  .ofList [(.riskId, if f.targetType = .risk then .uuid f.targetId else .null),
    (.opportunityId, if f.targetType = .opportunity then .uuid f.targetId else .null),
    (.kind, f.kind), (.title, f.title), (.description, Val.orElse f.description (.str "")),
    (.status, Val.orElse f.status (.str "open")), (.ownerUserId, f.ownerUserId),
    (.updatedAt, .time now)]

def savedAssessment (f : AssessmentForm) (assessorUserId : Uuid) (now : Time) : Columns :=
  .ofList [(.riskId, if f.itemType = .risk then .uuid f.itemId else .null),
    (.opportunityId, if f.itemType = .opportunity then .uuid f.itemId else .null),
    (.itemId, .uuid f.itemId), (.itemType, .str f.itemType.name),
    (.assessorUserId, .uuid assessorUserId), (.probability, .int f.probability),
    (.impact, .int f.impact), (.score, .int (f.probability * f.impact)),
    (.notes, Val.orElse f.notes (.str "")), (.updatedAt, .time now)]

def savedTicket (f : TicketForm) (now : Time) : Columns :=
  .ofList [(.title, f.title), (.description, f.description), (.category, f.category),
    (.priority, f.priority), (.status, .str "open"), (.reporterEmail, f.reporterEmail),
    (.createdAt, .time now), (.updatedAt, .time now)]

end RiskApp.Client
