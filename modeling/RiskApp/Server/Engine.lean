import RiskApp.Server.Mutations

namespace RiskApp.Server

open Lib

variable {Digest : Type} [DecidableEq Digest]

/-- A per-change result; `body` holds the optional keys copied from the stored response. -/
structure ChangeResult where
  changeId : Uuid
  status : ResultStatus
  replayed : Bool
  entity : Entity
  op : ChangeOp
  entityId : Option Uuid
  body : Response
  receiptServerVersion : Option ℕ := none

def changeResult (changeId : Uuid) (status : ResultStatus) (entity : Entity) (op : ChangeOp)
    (entityId : Option Uuid) (response : Response) (replayed : Bool) : ChangeResult where
  changeId := changeId
  status := status
  replayed := replayed
  entity := entity
  op := op
  entityId := response.entityId.or entityId
  body := { response with entityId := none }

def receiptResult (receipt : SyncReceipt Digest) : ChangeResult :=
  changeResult receipt.changeId receipt.status receipt.entity receipt.op receipt.entityId
    receipt.response true

/-- `duplicate_error_reason`: why a repeated change id must not replay. -/
def duplicateErrorReason (sha : Payload → Digest) (change : SyncChange)
    (receipt : Option (SyncReceipt Digest)) (batchHash : Option Digest) (userId projectId : Uuid) :
    Option String :=
  match receipt with
  | none => if batchHash = some (sha change.payload) then none
    else some "change_id_payload_mismatch"
  | some receipt =>
    if receipt.userId ≠ userId ∨ receipt.projectId ≠ projectId then some "change_id_in_use"
    else if receipt.payloadHash = none then some "receipt_unverifiable"
    else if receipt.payloadHash ≠ some (sha change.payload) then
      some "change_id_payload_mismatch"
    else none

/-- `refresh_accepted_replay`: an accepted replay reports the row as it is now, and separately
the version its receipt recorded. -/
def refreshAcceptedReplay (db : Data) (projectId userId : Uuid) (replay : ChangeResult) :
    ChangeResult :=
  if replay.status ≠ .accepted then replay
  else match replay.entityId with
    | none => replay
    | some entityId =>
      match currentServerState db replay.entity entityId projectId userId with
      | (_, none) => replay
      | (version, some record) =>
        { replay with
          receiptServerVersion := replay.body.serverVersion.join.or replay.receiptServerVersion
          body := { replay.body with
            serverVersion := some version
            serverRecord := some (some record)
            serverUpdatedAt := some (updatedAtText (some record)) } }

def classifyHttpFailure (statusCode : ℕ) : FailureKind × Bool :=
  if statusCode = 401 then (.authentication, false)
  else if statusCode = 403 then (.permission, false)
  else if statusCode ∈ [408, 425, 429] ∨ 500 ≤ statusCode then (.transient, true)
  else (.validation, false)

def requiresManager (conv : Conv) (db : Data) (projectId : Uuid) (change : SyncChange) :
    Bool :=
  let record := change.record
  if !managerDelete change.entity then false
  else if change.op = .delete then true
  else if change.entity.scored ∧ statusText (record.get .status) = "deleted".toList then true
  else if (record.get .isDeleted).truthy then true
  else if !record.has .isDeleted then false
  else match maybeEntityId conv record with
    | none => false
    | some entityId =>
      ((fetchObj db change.entity entityId projectId).map Row.isDeleted).getD false

/-- The role `_authorize_push_change` demands. -/
def requiredRole (conv : Conv) (db : Data) (projectId : Uuid) (change : SyncChange) : Role :=
  if requiresManager conv db projectId change then .manager else .member

/-- How a new change ends: the data it leaves, and what its receipt records. -/
structure Outcome where
  data : Data
  status : ResultStatus
  entityId : Option Uuid
  response : Response
  stored : Bool

def rejectPushChange (conv : Conv) (db : Data) (change : SyncChange) (reason : String)
    (detail : Option String) (failureKind : FailureKind) (retryable stored : Bool) : Outcome where
  data := db
  status := .error
  entityId := maybeEntityId conv change.record
  response :=
    { reason := some reason
      failureKind := some failureKind
      retryable := some retryable
      detail := detail.filter (· ≠ "") }
  stored := stored

def acceptedResponse (db : Data) (entity : Entity) (entityId projectId userId : Uuid) :
    Response :=
  let state := currentServerState db entity entityId projectId userId
  { entityId := some entityId
    serverVersion := some state.1
    serverRecord := some state.2
    serverUpdatedAt := some (updatedAtText state.2) }

/-- The failure handlers of `_process_new_push_change`; the savepoint has been rolled back. -/
def failedOutcome (conv : Conv) (db : Data) (change : SyncChange) : PushError → Outcome
  | .conflict reason entityId serverVersion serverRecord =>
    { data := db
      status := .conflict
      entityId := entityId
      response :=
        { reason := some reason
          serverVersion := some serverVersion
          serverRecord := some serverRecord
          serverUpdatedAt := some (updatedAtText serverRecord)
          failureKind := some .conflict
          retryable := some false }
      stored := true }
  | .http statusCode detail =>
    let (failureKind, retryable) := classifyHttpFailure statusCode
    rejectPushChange conv db change "http_error" (some detail) failureKind retryable (!retryable)
  | .integrity =>
    rejectPushChange conv db change "constraint_violation"
      (some "Change violates a database constraint") .validation false true
  | .unexpected => rejectPushChange conv db change "internal_error" none .transient true false

/-- `_process_new_push_change` up to the receipt. -/
def processNewPushChange (conv : Conv) (db : Data) (userId projectId : Uuid) (role : Role)
    (change : SyncChange) (now : Time) : Outcome :=
  if role.rank < (requiredRole conv db projectId change).rank then
    rejectPushChange conv db change "insufficient_permissions" none .permission false true
  else match applyChange conv db userId projectId change now with
    | .error e => failedOutcome conv db change e
    | .ok (db', entityId) =>
      { data := db'
        status := .accepted
        entityId := some entityId
        response := acceptedResponse db' change.entity entityId projectId userId
        stored := true }

namespace Outcome

variable (sha : Payload → Digest)

def receipt (o : Outcome) (userId projectId : Uuid) (change : SyncChange) (now : Time) :
    SyncReceipt Digest where
  changeId := change.changeId
  userId := userId
  projectId := projectId
  entity := change.entity
  entityId := o.entityId
  op := change.op
  status := o.status
  response := o.response
  payloadHash := some (sha change.payload)
  processedAt := now

def receipts (o : Outcome) (userId projectId : Uuid) (change : SyncChange) (now : Time) :
    List (SyncReceipt Digest) :=
  if o.stored then [o.receipt sha userId projectId change now] else []

def result (o : Outcome) (change : SyncChange) : ChangeResult :=
  changeResult change.changeId o.status change.entity change.op o.entityId o.response false

end Outcome

structure PushContext (Digest : Type) where
  db : Db Digest
  userId : Uuid
  projectId : Uuid
  role : Role
  existingReceipts : Uuid → Option (SyncReceipt Digest)
  results : List ChangeResult := []
  batchResults : Uuid → Option ChangeResult := fun _ ↦ none
  batchHashes : Uuid → Option Digest := fun _ ↦ none

namespace PushContext

variable (conv : Conv) (sha : Payload → Digest)

def seen (ctx : PushContext Digest) (changeId : Uuid) : Bool :=
  (ctx.existingReceipts changeId).isSome || (ctx.batchHashes changeId).isSome

/-- The result `_record_duplicate` appends for a change id that was seen before. -/
def duplicateResult (ctx : PushContext Digest) (change : SyncChange) : ChangeResult :=
  let receipt := ctx.existingReceipts change.changeId
  match duplicateErrorReason sha change receipt (ctx.batchHashes change.changeId) ctx.userId
      ctx.projectId with
  | some reason => changeResult change.changeId .error change.entity change.op
      (maybeEntityId conv change.record)
      { reason := some reason, failureKind := some .validation, retryable := some false } false
  | none =>
    let refresh replay := refreshAcceptedReplay ctx.db.data ctx.projectId ctx.userId replay
    match receipt, ctx.batchResults change.changeId with
    | some receipt, _ => refresh (receiptResult receipt)
    | none, some result => refresh { result with replayed := true }
    | none, none => changeResult change.changeId .error change.entity change.op none {} false

def recordDuplicate (ctx : PushContext Digest) (change : SyncChange) : PushContext Digest :=
  { ctx with results := ctx.results ++ [ctx.duplicateResult conv sha change] }

def outcome (ctx : PushContext Digest) (c : SyncChange × Time) : Outcome :=
  processNewPushChange conv ctx.db.data ctx.userId ctx.projectId ctx.role c.1 c.2

def recordNew (ctx : PushContext Digest) (c : SyncChange × Time) : PushContext Digest :=
  let o := ctx.outcome conv c
  { ctx with
    db := ⟨o.data, ctx.db.receipts ++ o.receipts sha ctx.userId ctx.projectId c.1 c.2⟩
    results := ctx.results ++ [o.result c.1]
    batchResults := Function.update ctx.batchResults c.1.changeId (some (o.result c.1))
    batchHashes := Function.update ctx.batchHashes c.1.changeId (some (sha c.1.payload)) }

/-- One turn of the loop of `push_changes`. -/
def step (ctx : PushContext Digest) (c : SyncChange × Time) : PushContext Digest :=
  if ctx.seen c.1.changeId then ctx.recordDuplicate conv sha c.1 else ctx.recordNew conv sha c

def run (ctx : PushContext Digest) (changes : List (SyncChange × Time)) : PushContext Digest :=
  changes.foldl (step conv sha) ctx

end PushContext

/-- The failures of a whole request: `HTTPException` with this status code. -/
abbrev HttpFailure := ℕ

def loadExistingReceipts (db : Db Digest) (changes : List (SyncChange × Time)) (changeId : Uuid) :
    Option (SyncReceipt Digest) :=
  if changeId ∈ changes.map (fun c ↦ c.1.changeId) then
    Table.find SyncReceipt.changeId changeId db.receipts
  else none

def PushContext.start (db : Db Digest) (userId projectId : Uuid) (role : Role)
    (changes : List (SyncChange × Time)) : PushContext Digest where
  db := db
  userId := userId
  projectId := projectId
  role := role
  existingReceipts := loadExistingReceipts db changes

def openPush (db : Db Digest) (userId projectId : Uuid) (changes : List (SyncChange × Time)) :
    Except HttpFailure (PushContext Digest) :=
  if changes ≠ [] ∧ (db.data.lastSequence projectId).isNone then .error 500
  else match db.data.getMemberRole projectId userId with
    | none => .error 403
    | some role => .ok (.start db userId projectId role changes)

/-- `push_changes`: every change is paired with the clock reading at which it is processed. -/
def pushChanges (conv : Conv) (sha : Payload → Digest) (db : Db Digest) (userId projectId : Uuid)
    (changes : List (SyncChange × Time)) : Except HttpFailure (Db Digest × List ChangeResult) :=
  (openPush db userId projectId changes).map fun ctx ↦
    let ctx := ctx.run conv sha changes
    (ctx.db, ctx.results)

end RiskApp.Server
