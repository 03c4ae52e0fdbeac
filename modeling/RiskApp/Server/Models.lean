import Mathlib.Logic.Function.Basic
import RiskApp.Lib.Table
import RiskApp.Values

namespace RiskApp

inductive Server.Table
  | items
  | actions
  | assessments
  | helpdeskTickets
  deriving DecidableEq, Repr

/-- `ENTITY_MODELS`: risks and opportunities share one table. -/
def Entity.table : Entity → Server.Table
  | .risk | .opportunity => .items
  | .action => .actions
  | .assessment => .assessments
  | .helpdeskTicket => .helpdeskTickets

def Entity.name : Entity → String
  | .risk => "risk"
  | .opportunity => "opportunity"
  | .action => "action"
  | .assessment => "assessment"
  | .helpdeskTicket => "helpdesk_ticket"

def Entity.scored (e : Entity) : Bool := e = .risk || e = .opportunity

namespace Server

open Lib

/-- An ORM object or a stored row. `attrs` holds the mapped columns other than the primary key,
`version` and `change_sequence`. -/
structure Row where
  table : Table
  id : Uuid
  version : ℕ
  changeSequence : ℕ
  attrs : Attr → Val

abbrev RowKey := Table × Uuid

namespace Row

def key (r : Row) : RowKey := (r.table, r.id)

def get (r : Row) : Attr → Val
  | .id => .uuid r.id
  | .version => .int r.version
  | a => r.attrs a

/-- `setattr` of a client field. The record's id is the one the row was found by, so setting the
primary key changes nothing. -/
def setAttr (r : Row) (a : Attr) (v : Val) : Row :=
  match a with
  | .id | .version => r
  | a => { r with attrs := Function.update r.attrs a v }

def isDeleted (r : Row) : Bool := r.attrs .isDeleted = .bool true

def ownProject (r : Row) : Option Uuid :=
  match r.attrs .projectId with
  | .uuid p => some p
  | _ => none

def changeStatus (r : Row) (newStatus : Val) (now : Time) : Row :=
  if r.attrs .status = newStatus then r
  else
    let r := (r.setAttr .status newStatus).setAttr .statusChangedAt (.time now)
    if newStatus = .str "happened" then r.setAttr .occurredAt (.time now) else r

/-- `SyncMixin.soft_delete`; only items record a status transition. -/
def softDelete (r : Row) (now : Time) : Row :=
  let r := (r.setAttr .isDeleted (.bool true)).setAttr .updatedAt (.time now)
  let r := { r with version := r.version + 1 }
  if r.table = .items then r.changeStatus (.str "deleted") now else r

end Row

/-- The mapped columns of a table, without `change_sequence`. -/
def Table.columns : Table → List Attr
  | .items => [.createdAt, .updatedAt, .version, .isDeleted, .projectId, .title, .probability,
      .impact, .impactCost, .impactTime, .impactScope, .impactQuality, .code, .description,
      .category, .threat, .triggers, .mitigationPlan, .documentUrl, .ownerUserId, .status,
      .identifiedAt, .statusChangedAt, .responseAt, .occurredAt, .score, .createdBy, .type, .id]
  | .actions => [.createdAt, .updatedAt, .version, .isDeleted, .projectId, .itemId, .kind, .title,
      .description, .status, .ownerUserId, .createdBy, .id]
  | .assessments => [.createdAt, .updatedAt, .version, .isDeleted, .assessorUserId, .probability,
      .impact, .score, .notes, .itemId, .id]
  | .helpdeskTickets => [.createdAt, .updatedAt, .version, .isDeleted, .projectId, .title,
      .description, .category, .priority, .status, .reporterEmail, .createdBy, .id]

def Table.notNull : Table → List Attr
  | .items => [.createdAt, .updatedAt, .isDeleted, .projectId, .title, .probability, .impact,
      .status, .identifiedAt, .statusChangedAt, .score, .createdBy, .type]
  | .actions => [.createdAt, .updatedAt, .isDeleted, .projectId, .itemId, .kind, .title, .status,
      .createdBy]
  | .assessments => [.createdAt, .updatedAt, .isDeleted, .assessorUserId, .probability, .impact,
      .score, .itemId]
  | .helpdeskTickets => [.createdAt, .updatedAt, .isDeleted, .projectId, .title, .category,
      .priority, .status, .createdBy]

/-- The bounded `String(n)` columns. -/
def Table.maxLengths : Table → List (Attr × ℕ)
  | .items => [(.title, 300), (.code, 60), (.category, 120), (.status, 30), (.type, 20)]
  | .actions => [(.kind, 20), (.title, 300), (.status, 20)]
  | .assessments => []
  | .helpdeskTickets => [(.title, 300), (.category, 40), (.priority, 20), (.status, 20),
      (.reporterEmail, 320)]

/-- Column defaults, which an insert applies to unset and null attributes. -/
def Table.columnDefaults (now : Time) : Table → List (Attr × Val)
  | .items => [(.createdAt, .time now), (.updatedAt, .time now), (.isDeleted, .bool false),
      (.probability, .int 1), (.impact, .int 1), (.status, .str "concept"),
      (.identifiedAt, .time now), (.statusChangedAt, .time now), (.score, .int 1)]
  | .actions => [(.createdAt, .time now), (.updatedAt, .time now), (.isDeleted, .bool false),
      (.status, .str "open")]
  | .assessments => [(.createdAt, .time now), (.updatedAt, .time now), (.isDeleted, .bool false)]
  | .helpdeskTickets => [(.createdAt, .time now), (.updatedAt, .time now),
      (.isDeleted, .bool false), (.category, .str "other"), (.priority, .str "medium"),
      (.status, .str "open")]

/-- The `DateTime` columns, which hold no time zone. -/
def datetimeColumns : List Attr :=
  [.createdAt, .updatedAt, .identifiedAt, .statusChangedAt, .responseAt, .occurredAt]

/-- What a flush writes otherwise than the object has it. -/
def flushedAttrs : List Attr := .score :: datetimeColumns

def Row.naive (r : Row) : Row :=
  { r with attrs := fun a ↦ if a ∈ datetimeColumns then (r.attrs a).naive else r.attrs a }

/-- The stored outcome of a change; an absent key of the response is `none`. -/
structure Response where
  entityId : Option Uuid := none
  reason : Option String := none
  detail : Option String := none
  serverVersion : Option (Option ℕ) := none
  serverRecord : Option (Option Dict) := none
  serverUpdatedAt : Option (Option Val) := none
  failureKind : Option FailureKind := none
  retryable : Option Bool := none

structure SyncReceipt (Digest : Type) where
  changeId : Uuid
  userId : Uuid
  projectId : Uuid
  entity : Entity
  entityId : Option Uuid
  op : ChangeOp
  status : ResultStatus
  response : Response
  payloadHash : Option Digest
  processedAt : Time

structure AuditLog where
  ts : Time
  userId : Uuid
  projectId : Uuid
  changeId : Uuid
  entity : Entity
  entityId : Uuid
  op : ChangeOp
  before : Option Dict
  after : Dict

/-- The tables a change is checked against and written to. `lastSequence` is
`sync_project_state`. -/
structure Data where
  rows : List Row
  audit : List AuditLog
  lastSequence : Uuid → Option ℕ
  memberRole : Uuid → Uuid → Option Role
  superusers : List Uuid
  users : List Uuid

structure Db (Digest : Type) where
  data : Data
  receipts : List (SyncReceipt Digest)

namespace Data

def row (db : Data) (k : RowKey) : Option Row := Table.find Row.key k db.rows

def item (db : Data) (itemId : Uuid) : Option Row := db.row (.items, itemId)

/-- The project whose feed a row belongs to: its own, or that of the item it assesses. -/
def projectOf (db : Data) (r : Row) : Option Uuid :=
  match r.table with
  | .assessments => match r.attrs .itemId with
    | .uuid itemId => (db.item itemId).bind Row.ownProject
    | _ => none
  | _ => r.ownProject

/-- `get_member_role`: superusers implicitly administer every project. -/
def getMemberRole (db : Data) (projectId userId : Uuid) : Option Role :=
  (db.memberRole projectId userId).or (if userId ∈ db.superusers then some .admin else none)

end Data

end Server

end RiskApp
