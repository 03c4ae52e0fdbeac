import RiskApp.Lib.Atomic
import RiskApp.Client.Columns

namespace RiskApp.Client

open Lib Server

/-- A row of the tables risks, opportunities, actions, assessments and helpdesk_tickets. -/
structure CachedRow extends LocalRow where
  dirty : Bool
  columns : Columns

def CachedRow.key (r : CachedRow) : EntityKey := r.toLocalRow.key

def CachedRow.setColumn (a : Attr) (v : Val) (r : CachedRow) : CachedRow :=
  { r with columns := Function.update r.columns a v }

/-- `sqlite3` can bind the version and the numbers of the row. -/
def CachedRow.binds (r : CachedRow) : Bool :=
  fits r.version && integerColumns.all fun a ↦ match r.columns a with
    | .int n => fits n
    | _ => true

/-- The SQLite database, as far as it belongs to one project. -/
structure Cache where
  rows : List CachedRow := []
  outbox : Outbox := []
  watermark : ℕ := 0

namespace Cache

def store (c : Cache) : LocalStore := ⟨c.rows.map CachedRow.toLocalRow, c.outbox, c.watermark⟩

def row (c : Cache) (k : EntityKey) : Option CachedRow := Table.find CachedRow.key k c.rows

def columns (c : Cache) (k : EntityKey) : Columns := ((c.row k).map (·.columns)).getD fun _ ↦ .null

/-- Another row of the table holds that code: the unique index on the project and the code. -/
def codeTaken (c : Cache) (k : EntityKey) (code : Val) : Bool :=
  k.1.scored && code ≠ .null &&
    c.rows.any fun r ↦ r.entity = k.1 && r.key ≠ k && r.columns .code = code

def saveRow (r : CachedRow) (c : Cache) : Cache :=
  { c with rows := Table.upsert CachedRow.key r c.rows }

/-- `UPDATE .. SET .. WHERE p`. -/
def updateRows (p : CachedRow → Bool) (f : CachedRow → CachedRow) (c : Cache) : Cache :=
  { c with rows := c.rows.map fun r ↦ if p r then f r else r }

def deleteRow (k : EntityKey) (c : Cache) : Cache := { c with rows := c.rows.filter (·.key ≠ k) }

def setOutbox (f : Outbox → Outbox) (c : Cache) : Cache := { c with outbox := f c.outbox }

def upsertRow (r : CachedRow) : Work Cache Unit := .statement fun c ↦
  if !r.binds || c.codeTaken r.key (r.columns .code) then none else some ((), c.saveRow r)

def changeRows (p : CachedRow → Bool) (f : CachedRow → CachedRow) : Work Cache Unit :=
  .modify (updateRows p f)

def changeOutbox (f : Outbox → Outbox) : Work Cache Unit := .modify (setOutbox f)

/-- `get_*_project_and_version`. -/
def getVersion (k : EntityKey) : Work Cache ℤ := do
  let r ← .select (row · k)
  .ofOption (r.map (·.version))

def replaceOutboxEntry (d : Outbox.Draft) (forceRebase : Bool) : Work Cache Unit :=
  .writeTransaction do
    let existing ← if forceRebase then pure none else .select (·.outbox.oldestOpenEntry d.key)
    match existing with
    | none =>
      changeOutbox (·.deleteOpenEntries d.key)
      changeOutbox (· ++ [d.entry d.baseVersion])
    | some e =>
      if e.inConflict then
        changeOutbox (·.update (·.changeId = e.changeId) (Entry.rewrite d.op d.record))
      else
        changeOutbox (·.deleteOpenEntries d.key)
        changeOutbox (· ++ [d.entry (Outbox.squashedBase e)])

def overrideBaseVersion (k : EntityKey) (baseVersion : Option ℤ) : Work Cache Unit :=
  match baseVersion with
  | none => pure ()
  | some bv => .writeTransaction (changeOutbox (·.overrideBaseVersion k (some bv)))

def discardEntityChanges (k : EntityKey) : Work Cache Unit :=
  .writeTransaction (changeOutbox (·.deleteOpenEntries k))

/-- `_queue_simple_upsert`, and `_queue_scored_upsert` on its cleaned record. -/
def queueUpsert (k : EntityKey) (record : Dict) (t : LocalStore.Stamp) : Work Cache Unit := do
  let ver ← getVersion k
  replaceOutboxEntry
    (LocalStore.draft k .upsert (if 1 ≤ ver then some ver else none) record t) false

def queueDelete (k : EntityKey) (t : LocalStore.Stamp) : Work Cache Unit := do
  let ver ← getVersion k
  let record := Dict.empty.set .id (.uuid k.2)
  if 1 ≤ ver then
    replaceOutboxEntry (LocalStore.draft k .delete (some ver) record t) false
  else
    let mayExist ← .select (·.outbox.remoteCreateMayExist k)
    if mayExist then
      replaceOutboxEntry (LocalStore.draft k .delete (some 1) record t) true
    else discardEntityChanges k

end Cache

structure ScoredForm where
  title : Val
  probability : ℤ
  impact : ℤ
  fields : Dict

def scoredMetaKeys : List Attr := textMetaKeys ++ impactDimensions

/-- `_ensure_code`; `nextCode` is what the code generator answered. -/
def ensureCode (code existing nextCode : Val) : Val :=
  if normText code ≠ .null then normText code
  else if normText existing ≠ .null then normText existing
  else nextCode

namespace ScoredForm

def createRecord (f : ScoredForm) (entityId : Uuid) (nextCode : Val) (now : Time) : Dict := fun a ↦
  match a with
  | .id => some (.uuid entityId)
  | .title => some f.title
  | .probability => some (.int f.probability)
  | .impact => some (.int f.impact)
  | .status => some (Val.orElse (f.fields.get .status) (.str "concept"))
  | .identifiedAt => some (Val.orElse (f.fields.get .identifiedAt) (.time now))
  | .statusChangedAt => some (Val.orElse (f.fields.get .statusChangedAt) (.time now))
  | .code => some (ensureCode (f.fields.get .code) .null nextCode)
  | a => if a ∈ scoredMetaKeys ∧ f.fields.get a ≠ .null then some (f.fields.get a) else none

def updateRecord (f : ScoredForm) (entityId : Uuid) (existing : Columns) (nextCode : Val)
    (now : Time) : Dict :=
  let prevStatus := Val.orElse (existing .status) (.str "concept")
  let newStatus := if f.fields.has .status then f.fields.get .status else prevStatus
  let changedAt := if newStatus ≠ prevStatus ∧ !(f.fields.get .statusChangedAt).truthy
    then .time now else f.fields.get .statusChangedAt
  let kept a := if f.fields.has a then f.fields.get a else existing a
  fun a ↦ match a with
  | .id => some (.uuid entityId)
  | .title => some f.title
  | .probability => some (.int f.probability)
  | .impact => some (.int f.impact)
  | .status => some newStatus
  | .statusChangedAt => some (if changedAt ≠ .null then changedAt else existing .statusChangedAt)
  | .code => some (ensureCode (kept .code) (existing .code) nextCode)
  | a => if a ∈ scoredMetaKeys then some (kept a) else none

end ScoredForm

def ticketOf (columns : Columns) : TicketForm where
  title := textOf (columns .title)
  description := textOr (columns .description) ""
  category := textOr (columns .category) "other"
  priority := textOr (columns .priority) "medium"
  status := textOr (columns .status) "open"
  reporterEmail := textOr (columns .reporterEmail) ""

/-- The fields that `update_helpdesk_ticket` takes; an absent one is left alone. -/
def ticketFields : List Attr := [.title, .description, .category, .priority, .status]

def updatedTicket (fields : Dict) (now : Time) (columns : Columns) : Columns := fun a ↦
  if a = .updatedAt then .time now
  else if a ∈ ticketFields ∧ fields.get a ≠ .null then fields.get a
  else columns a

/-- What the user asks the services for. Ids and codes are drawn, and the version of an assessment
is read, before the transaction. -/
inductive Command
  | createScored (entity : Entity) (entityId : Uuid) (form : ScoredForm) (nextCode : Val)
  | updateScored (entity : Entity) (entityId : Uuid) (form : ScoredForm) (nextCode : Val)
      (baseVersion : Option ℤ)
  | deleteScored (entity : Entity) (entityId : Uuid)
  | createTicket (ticketId : Uuid) (form : TicketForm)
  | updateTicket (ticketId : Uuid) (fields : Dict)
  | deleteTicket (ticketId : Uuid)
  | createAction (actionId : Uuid) (form : ActionForm)
  | updateAction (actionId : Uuid) (form : ActionForm) (baseVersion : Option ℤ)
  | upsertMyAssessment (assessmentId : Uuid) (form : AssessmentForm) (assessorUserId : Uuid)
      (version : ℤ)

namespace Cache

def userRow (k : EntityKey) (version : ℤ) (columns : Columns) : CachedRow :=
  ⟨⟨k.1, k.2, version, false⟩, true, columns⟩

def upsertLocal (k : EntityKey) (version : ℤ) (record : Dict) (now : Time) : Work Cache Unit := do
  let _ ← .select (row · k)
  let columns ← .ofOption (savedScored record now)
  upsertRow (userRow k version columns)
  .commitIfNeeded

/-- `ScoredEntityService.create`. -/
def createScored (k : EntityKey) (form : ScoredForm) (nextCode : Val) (t : LocalStore.Stamp) :
    Work Cache Unit :=
  let record := form.createRecord k.2 nextCode t.now
  .writeTransaction do
    upsertLocal k 0 record t.now
    queueUpsert k (scoredRecord k.2 record) t

/-- `update_risk` and `update_opportunity`. -/
def updateScored (k : EntityKey) (form : ScoredForm) (nextCode : Val) (baseVersion : Option ℤ)
    (t : LocalStore.Stamp) : Work Cache Unit :=
  .writeTransaction do
    let version ← getVersion k
    let existing ← .select (columns · k)
    let record := form.updateRecord k.2 existing nextCode t.now
    .writeTransaction do
      upsertLocal k version record t.now
      queueUpsert k (scoredRecord k.2 record) t
    overrideBaseVersion k baseVersion

def deletedRow (now : Time) (r : CachedRow) : CachedRow :=
  { r.setColumn .updatedAt (.time now) with isDeleted := true, dirty := true }

/-- `_soft_delete_scored` and `soft_delete_helpdesk_ticket`. -/
def softDelete (k : EntityKey) (now : Time) : Work Cache ℤ := do
  let version ← getVersion k
  changeRows (·.key = k) (deletedRow now)
  .commitIfNeeded
  return version

def deleteScored (k : EntityKey) (t : LocalStore.Stamp) : Work Cache Unit :=
  .writeTransaction do
    let version ← softDelete k t.now
    let mayExist ← .select (·.outbox.remoteCreateMayExist k)
    if version < 1 && !mayExist then discardEntityChanges k else queueDelete k t

def createTicket (k : EntityKey) (form : TicketForm) (t : LocalStore.Stamp) : Work Cache Unit :=
  .writeTransaction do
    upsertRow (userRow k 0 (savedTicket form t.now))
    .commitIfNeeded
    let ticket ← .select (row · k)
    let ticket ← .ofOption ticket
    queueUpsert k ((ticketOf ticket.columns).record k.2) t

def editedTicket (fields : Dict) (now : Time) (r : CachedRow) : CachedRow :=
  { r with columns := updatedTicket fields now r.columns, dirty := true }

def updateTicket (k : EntityKey) (fields : Dict) (t : LocalStore.Stamp) : Work Cache Unit :=
  .writeTransaction do
    let _ ← getVersion k
    changeRows (·.key = k) (editedTicket fields t.now)
    .commitIfNeeded
    let ticket ← .select (row · k)
    let ticket ← .ofOption ticket
    queueUpsert k ((ticketOf ticket.columns).record k.2) t

def deleteTicket (k : EntityKey) (t : LocalStore.Stamp) : Work Cache Unit :=
  .writeTransaction do
    let version ← getVersion k
    let mayExist ← .select (·.outbox.remoteCreateMayExist k)
    if version < 1 && !mayExist then
      .modify (deleteRow k)
      .commitIfNeeded
      discardEntityChanges k
    else
      let _ ← softDelete k t.now
      queueDelete k t

/-- `ActionService._upsert`. -/
def upsertAction (k : EntityKey) (version : ℤ) (form : ActionForm) (t : LocalStore.Stamp) :
    Work Cache Unit :=
  .writeTransaction do
    let _ ← .select (row · k)
    upsertRow (userRow k version (savedAction form t.now))
    .commitIfNeeded
    queueUpsert k (form.record k.2) t

def updateAction (k : EntityKey) (form : ActionForm) (baseVersion : Option ℤ)
    (t : LocalStore.Stamp) : Work Cache Unit :=
  .writeTransaction do
    let version ← getVersion k
    upsertAction k version form t
    overrideBaseVersion k baseVersion

/-- `AssessmentService.upsert_my`. -/
def upsertMyAssessment (k : EntityKey) (form : AssessmentForm) (assessorUserId : Uuid)
    (version : ℤ) (t : LocalStore.Stamp) : Work Cache Unit :=
  .writeTransaction do
    upsertRow (userRow k version (savedAssessment form assessorUserId t.now))
    .commitIfNeeded
    queueUpsert k (form.record k.2) t

end Cache

namespace Command

def wired : Command → Bool
  | createScored entity _ _ _ => entity.scored
  | updateScored entity _ _ _ _ => entity.scored
  | deleteScored entity _ => entity.scored
  | _ => true

def work (t : LocalStore.Stamp) : Command → Work Cache Unit
  | createScored entity entityId form nextCode =>
    Cache.createScored (entity, entityId) form nextCode t
  | updateScored entity entityId form nextCode baseVersion =>
    Cache.updateScored (entity, entityId) form nextCode baseVersion t
  | deleteScored entity entityId => Cache.deleteScored (entity, entityId) t
  | createTicket ticketId form => Cache.createTicket (.helpdeskTicket, ticketId) form t
  | updateTicket ticketId fields => Cache.updateTicket (.helpdeskTicket, ticketId) fields t
  | deleteTicket ticketId => Cache.deleteTicket (.helpdeskTicket, ticketId) t
  | createAction actionId form => Cache.upsertAction (.action, actionId) 0 form t
  | updateAction actionId form baseVersion =>
    Cache.updateAction (.action, actionId) form baseVersion t
  | upsertMyAssessment assessmentId form assessorUserId version =>
    Cache.upsertMyAssessment (.assessment, assessmentId) form assessorUserId version t

end Command

end RiskApp.Client
