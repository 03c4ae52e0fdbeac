import RiskApp.Server.Models

namespace RiskApp.Server

/-- How one change can fail: the exceptions `_process_new_push_change` tells apart. -/
inductive PushError
  | conflict (reason : String) (entityId : Option Uuid) (serverVersion : Option ℕ)
      (serverRecord : Option Dict)
  | http (statusCode : ℕ) (detail : String)
  | integrity
  | unexpected

/-- The third-party scalar parsers, on values that are not already of the wanted type:
`uuid.UUID(str(value))`, and the lax conversions of the validation library with the text of its
error report. Last, the letter case that `LIKE` forgets in the database: none on PostgreSQL, that of
ASCII letters on SQLite. -/
structure Conv where
  uuidOfText : Val → Option Uuid
  uuid : Val → Option Uuid
  int : Val → Option ℤ
  bool : Val → Option Bool
  time : Val → Option (Time × Option ℤ)
  errorText : Entity → Dict → String
  likeFold : Char → Char

/-- A converter that only accepts values already in canonical form. -/
def Conv.strict : Conv where
  uuidOfText _ := none
  uuid _ := none
  int _ := none
  bool _ := none
  time _ := none
  errorText _ _ := ""
  likeFold := Char.toLower

inductive FieldType
  | uuid
  | scale
  | text (minLength maxLength : ℕ)
  | choice (values : List String)
  | datetime
  | bool

namespace FieldType

def inScale (n : ℤ) : Bool := 1 ≤ n && n ≤ 5

def parse (conv : Conv) : FieldType → Val → Option Val
  | .uuid, .uuid u => some (.uuid u)
  | .uuid, v => (conv.uuid v).map .uuid
  | .scale, .int n => if inScale n then some (.int n) else none
  | .scale, v => (conv.int v).bind fun n ↦ if inScale n then some (.int n) else none
  | .text lo hi, .str s => if lo ≤ s.length && s.length ≤ hi then some (.str s) else none
  | .text _ _, .uuid u => some (.uuid u)
  | .text _ _, .time t => some (.time t)
  | .text _ _, .zoned t offset => some (.zoned t offset)
  | .text _ _, _ => none
  | .choice values, .str s => if s ∈ values then some (.str s) else none
  | .choice _, _ => none
  | .datetime, .time t => some (.time t)
  | .datetime, .zoned t offset => some (.zoned t offset)
  | .datetime, v => (conv.time v).map fun t ↦ Val.ofTime t.1 t.2
  | .bool, .bool b => some (.bool b)
  | .bool, v => (conv.bool v).map .bool

end FieldType

def boundedText : FieldType := .text 0 10000

def riskStatuses : List String := ["concept", "active", "closed", "deleted", "happened"]

def actionKinds : List String := ["mitigation", "contingency", "exploit"]

def actionStatuses : List String := ["open", "doing", "done"]

def helpDeskStatuses : List String := ["open", "in_progress", "resolved", "closed"]

def helpDeskPriorities : List String := ["low", "medium", "high", "critical"]

def helpDeskCategories : List String := ["bug", "question", "feature_request", "access", "other"]

def itemShared : List (Attr × FieldType) :=
  [(.impactCost, .scale), (.impactTime, .scale), (.impactScope, .scale), (.impactQuality, .scale),
   (.code, .text 1 64), (.description, boundedText), (.category, .text 0 200),
   (.threat, boundedText), (.triggers, boundedText), (.mitigationPlan, boundedText),
   (.documentUrl, .text 0 2000), (.ownerUserId, .uuid), (.status, .choice riskStatuses),
   (.identifiedAt, .datetime), (.responseAt, .datetime), (.occurredAt, .datetime)]

def syncItemRecord : List (Attr × FieldType) :=
  itemShared ++ [(.id, .uuid), (.title, .text 0 300), (.probability, .scale), (.impact, .scale),
    (.isDeleted, .bool)]

def syncActionRecord : List (Attr × FieldType) :=
  [(.id, .uuid), (.itemId, .uuid), (.riskId, .uuid), (.opportunityId, .uuid),
   (.kind, .choice actionKinds), (.title, .text 0 300), (.description, boundedText),
   (.status, .choice actionStatuses), (.ownerUserId, .uuid), (.isDeleted, .bool)]

def syncAssessmentRecord : List (Attr × FieldType) :=
  [(.id, .uuid), (.itemId, .uuid), (.riskId, .uuid), (.opportunityId, .uuid),
   (.probability, .scale), (.impact, .scale), (.notes, .text 0 5000), (.isDeleted, .bool)]

def syncHelpDeskTicketRecord : List (Attr × FieldType) :=
  [(.id, .uuid), (.title, .text 0 300), (.description, boundedText),
   (.category, .choice helpDeskCategories), (.priority, .choice helpDeskPriorities),
   (.status, .choice helpDeskStatuses), (.reporterEmail, .text 0 320), (.isDeleted, .bool)]

/-- The `schema` and `defaults` of `ENTITY_REGISTRY`. -/
def schema : Entity → List (Attr × FieldType)
  | .risk | .opportunity => syncItemRecord
  | .action => syncActionRecord
  | .assessment => syncAssessmentRecord
  | .helpdeskTicket => syncHelpDeskTicketRecord

def defaults : Entity → List (Attr × Val)
  | .risk => [(.title, .str "Untitled"), (.probability, .int 1), (.impact, .int 1),
      (.type, .str "risk")]
  | .opportunity => [(.title, .str "Untitled"), (.probability, .int 1), (.impact, .int 1),
      (.type, .str "opportunity")]
  | .action => [(.title, .str "Untitled action"), (.kind, .str "mitigation"),
      (.status, .str "open")]
  | .assessment => [(.probability, .int 1), (.impact, .int 1)]
  | .helpdeskTicket => [(.title, .str "Untitled ticket"), (.category, .str "other"),
      (.priority, .str "medium"), (.status, .str "open")]

def managerDelete : Entity → Bool
  | .risk | .opportunity | .action => true
  | .assessment | .helpdeskTicket => false

/-- The validated fields present in the record, in schema order; `id` alone is required. -/
def parseFields (conv : Conv) (record : Dict) :
    List (Attr × FieldType) → Option (List (Attr × Val))
  | [] => some []
  | (a, t) :: rest =>
    match record a with
    | none => if a = .id then none else parseFields conv record rest
    | some .null =>
      if a = .id then none else (parseFields conv record rest).map ((a, .null) :: ·)
    | some v => (t.parse conv v).bind fun w ↦ (parseFields conv record rest).map ((a, w) :: ·)

/-- The dictionary `_parse_record` returns, its key `_target_type` apart. -/
structure Parsed where
  fields : List (Attr × Val)
  targetType : Option Entity

namespace Parsed

def find (val : Parsed) (a : Attr) : Option Val :=
  (val.fields.find? (fun f ↦ f.1 = a)).map Prod.snd

def get (val : Parsed) (a : Attr) : Val := (val.find a).getD .null

def pop (val : Parsed) (a : Attr) : Parsed :=
  { val with fields := val.fields.filter (fun f ↦ f.1 ≠ a) }

def set (val : Parsed) (a : Attr) (v : Val) : Parsed :=
  { val with
    fields := if (val.find a).isSome then val.fields.map (fun f ↦ if f.1 = a then (a, v) else f)
      else val.fields ++ [(a, v)] }

end Parsed

def Val.orElse (v w : Val) : Val := if v.truthy then v else w

def statusText : Val → List Char
  | .str s => Text.strip (Text.lower s.toList)
  | _ => []

def parseRecord (conv : Conv) (entity : Entity) (record : Dict) : Except PushError Parsed :=
  match parseFields conv record (schema entity) with
  | none => .error (.http 400 ("Validation error: " ++ conv.errorText entity record))
  | some fields =>
    let val : Parsed := ⟨fields, none⟩
    if entity = .action ∨ entity = .assessment then
      let rid := val.get .riskId
      let oid := val.get .opportunityId
      let val := (val.pop .riskId).pop .opportunityId
      if entity = .action ∧ !(val.get .itemId).truthy ∧ rid.truthy = oid.truthy then
        .error (.http 400
          "Validation error: 400: Action must have exactly one of risk_id/opportunity_id")
      else
        let val := if (val.get .itemId).truthy then val else val.set .itemId (Val.orElse rid oid)
        .ok { val with
          targetType := if rid.truthy then some .risk
            else if oid.truthy then some .opportunity else none }
    else if entity.scored ∧ statusText (val.get .status) = "deleted".toList then
      .ok (val.set .isDeleted (.bool true))
    else .ok val

def parseUuid (conv : Conv) (name : String) : Val → Except PushError Uuid
  | .uuid u => .ok u
  | .null => .error (.http 400 ("Invalid UUID for " ++ name))
  | v => match conv.uuidOfText v with
    | some u => .ok u
    | none => .error (.http 400 ("Invalid UUID for " ++ name))

def maybeEntityId (conv : Conv) (record : Dict) : Option Uuid :=
  match record.get .id with
  | .uuid u => some u
  | v => if v.truthy then conv.uuidOfText v else none

structure SyncChange where
  changeId : Uuid
  entity : Entity
  op : ChangeOp
  baseVersion : Option ℤ
  record : Dict

/-- What `payload_hash` digests: the request without its id. -/
structure Payload where
  entity : Entity
  op : ChangeOp
  baseVersion : Option ℤ
  record : Dict

def SyncChange.payload (change : SyncChange) : Payload :=
  ⟨change.entity, change.op, change.baseVersion, change.record⟩

end RiskApp.Server
