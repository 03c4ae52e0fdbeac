import RiskApp.Client.Cache

namespace RiskApp.Client

open Lib Server

namespace Cache

def rememberConflict (k : EntityKey) (record : Dict) : Work Cache Unit := do
  let conflict ← .select (·.outbox.find? fun e ↦ e.key = k && e.inConflict)
  match conflict with
  | none => pure ()
  | some e => do
    let version ← .ofOption (versionOf record)
    changeOutbox (·.update (·.changeId = e.changeId) (·.withOutcome ⟨some version, some record⟩))

def keepOrSave (k : EntityKey) (pendingIds : List Uuid) (record : Dict) (save : Work Cache Unit) :
    Work Cache Unit :=
  if k.2 ∈ pendingIds then rememberConflict k record else save

def serverRow (k : EntityKey) (record : Dict) (columns : Columns) : CachedRow :=
  ⟨LocalStore.pulledRow k.1 k.2 record, false, columns⟩

def holdsCode (k : EntityKey) (code : Val) (r : CachedRow) : Bool :=
  r.entity = k.1 && code ≠ .null && r.columns .code = code && r.id ≠ k.2

def clearCode (r : CachedRow) : CachedRow := r.setColumn .code .null

def pullScored (entity : Entity) (pendingIds : List Uuid) (record : Dict) : Work Cache Unit := do
  let id ← .ofOption (recordId record)
  let _ ← .ofOption (versionOf record)
  keepOrSave (entity, id) pendingIds record do
    let columns ← .ofOption (pulledScored record)
    changeRows (holdsCode (entity, id) (columns .code)) clearCode
    upsertRow (serverRow (entity, id) record columns)

def pullAction (pendingIds : List Uuid) (record : Dict) : Work Cache Unit := do
  let id ← .ofOption (recordId record)
  .require (normText (record.get .projectId) ≠ .null)
  keepOrSave (.action, id) pendingIds record
    (upsertRow (serverRow (.action, id) record (pulledAction record)))

def knownItem (entity : Entity) (itemId : Val) (c : Cache) : Bool :=
  match itemId with
  | .uuid itemId => (c.row (entity, itemId)).isSome
  | _ => false

def inferAssessmentItemType (record : Dict) : Work Cache Entity :=
  if (record.get .opportunityId).truthy then pure .opportunity
  else if (record.get .riskId).truthy then pure .risk
  else do
    let isOpportunity ← .select (knownItem .opportunity (assessedItem record))
    if isOpportunity then return .opportunity
    let _ ← .select (knownItem .risk (assessedItem record))
    return .risk

def pullAssessment (pendingIds : List Uuid) (record : Dict) : Work Cache Unit := do
  let id ← .ofOption (recordId record)
  .require (assessedItem record ≠ .null)
  keepOrSave (.assessment, id) pendingIds record do
    let itemType ← inferAssessmentItemType record
    upsertRow (serverRow (.assessment, id) record (pulledAssessment record itemType))

def pullTicket (pendingIds : List Uuid) (record : Dict) : Work Cache Unit :=
  match recordId record with
  | none => pure ()
  | some id => keepOrSave (.helpdeskTicket, id) pendingIds record do
      let _ ← .ofOption (versionOf record)
      upsertRow (serverRow (.helpdeskTicket, id) record (pulledTicket record))

def pullRecord : Entity → List Uuid → Dict → Work Cache Unit
  | .action => pullAction
  | .assessment => pullAssessment
  | .helpdeskTicket => pullTicket
  | entity => pullScored entity

/-- `apply_pull_risks` and its siblings; only the scored ones open a block of their own. -/
def applyPullEntities (entity : Entity) (records : List Dict) : Work Cache Unit :=
  if entity.scored then
    .writeTransaction do
      let pendingIds ← .select (·.store.pendingOutboxIds entity)
      records.forM (pullRecord entity pendingIds)
  else do
    let pendingIds ← .select (·.store.pendingOutboxIds entity)
    records.forM (pullRecord entity pendingIds)
    .commitIfNeeded

def setSyncWatermark (serverSequence : ℕ) : Work Cache Unit := do
  .statement fun c ↦
    if fits serverSequence then some ((), { c with watermark := serverSequence }) else none
  .commitIfNeeded

def applyTickets (tickets : List Dict) : Work Cache Unit :=
  if tickets.isEmpty then pure () else applyPullEntities .helpdeskTicket tickets

def applyPull (pull : Download) : Work Cache Unit :=
  .writeTransaction do
    [PullKey.risks, .opportunities, .actions, .assessments].forM fun key ↦ do
      .check
      applyPullEntities key.entity (pull.records key)
    .check
    applyTickets (pull.records .helpdeskTickets)
    .check
    setSyncWatermark pull.serverSequence

section Acknowledgement

variable (projectId : Uuid)

def acknowledgedRecords (entity : Entity) (results : List ChangeResult) :
    List (ChangeResult × Dict) :=
  results.filterMap fun r ↦
    if r.entity = entity ∧ r.status = .accepted then (serverRecord r).map fun record ↦ (r, record)
    else none

def acknowledgedIds (entity : Entity) (results : List ChangeResult) : List Uuid :=
  (acknowledgedRecords entity results).filterMap fun p ↦ p.1.entityId.or (recordId p.2)

def acknowledgedCodes (entity : Entity) (results : List ChangeResult) : List Val :=
  ((acknowledgedRecords entity results).map fun p ↦
    normText (Val.orElse (p.2.get .code) (.str ""))).filter (· ≠ .null)

/-- `_check_ack_identity` with the id the result or its record names. -/
def ackIdentityHolds (p : ChangeResult × Dict) : Bool :=
  match p.1.entityId.or (recordId p.2) with
  | some id => LocalStore.checkAckIdentity projectId id p.2
  | none => !(p.2.get .id).truthy &&
      (!(p.2.get .projectId).truthy || p.2.get .projectId = .uuid projectId)

def releasesCode (entity : Entity) (results : List ChangeResult) (r : CachedRow) : Bool :=
  r.entity = entity && (r.id ∈ acknowledgedIds entity results ||
    r.columns .code ∈ acknowledgedCodes entity results)

def releaseScoredCodes (results : List ChangeResult) : Work Cache Unit := do
  [Entity.risk, .opportunity].forM fun entity ↦
    .require ((acknowledgedRecords entity results).all (ackIdentityHolds projectId))
  [Entity.risk, .opportunity].forM fun entity ↦
    if (acknowledgedRecords entity results).isEmpty then pure ()
    else changeRows (releasesCode entity results) clearCode
  .commitIfNeeded

def versionedRow (v : ℤ) (r : CachedRow) : CachedRow := { r with version := v, dirty := false }

def applyPushAcknowledgement (k : EntityKey) (serverVersion : Option ℤ)
    (serverRecord : Option Dict) :
    Work Cache Unit :=
  match serverRecord with
  | some record => do
    .require (LocalStore.checkAckIdentity projectId k.2 record)
    .require (serverVersion.all (some · = versionOf record))
    applyPullEntities k.1 [(record.set .id (.uuid k.2)).set .projectId (.uuid projectId)]
  | none => match serverVersion with
    | none => pure ()
    | some v => do
      changeRows (·.key = k) (versionedRow v)
      .commitIfNeeded

def advanceRow (version : Option ℤ) (code : Option Val) (r : CachedRow) : CachedRow :=
  let r := { r with version := version.elim r.version (max r.version) }
  match code with
  | none => r
  | some code => r.setColumn .code code

def advancePushAcknowledgement (k : EntityKey) (serverVersion : Option ℤ)
    (serverRecord : Option Dict) : Work Cache Unit := do
  let record := serverRecord.getD Dict.empty
  let recordVersion := LocalStore.strictVersion record
  .require (LocalStore.checkAckIdentity projectId k.2 record)
  .require (serverVersion.isNone || recordVersion.isNone || serverVersion = recordVersion)
  let version := serverVersion.or recordVersion
  let code := if k.1.scored && record.has .code then some (record.get .code) else none
  if version.isNone && code.isNone then pure ()
  else
    .statement fun c ↦ if code.any (c.codeTaken k) then none
      else some ((), c.updateRows (·.key = k) (advanceRow version code))
    .commitIfNeeded

def acknowledgeSent (sent : Entry) (result : ChangeResult) : Work Cache Unit := do
  .require (result.entity = sent.entity && result.entityId.all (· = sent.entityId))
  changeOutbox (·.deleteOutboxIds [sent.changeId])
  applyPushAcknowledgement projectId sent.key (serverVersion result) (serverRecord result)

def advanceReplacement (result : ChangeResult) : Work Cache Unit :=
  match result.entityId with
  | none => pure ()
  | some entityId => do
    let k := (result.entity, entityId)
    let replacement ← .select fun c ↦
      (Outbox.oldestFirst (c.outbox.filter fun e ↦ e.key = k && e.queued)).head?
    match replacement with
    | none => pure ()
    | some replacement =>
      let version := acknowledgedVersion result
      let record := LocalStore.withServerCode k.1 replacement.record (serverRecord result)
      changeOutbox (·.update (·.changeId = replacement.changeId)
        (Entry.advanced (LocalStore.advancedBase replacement.baseVersion version) record))
      let kept := if result.replayed && version ≠ serverVersion result
        then (serverRecord result).map LocalStore.replayIdentity else serverRecord result
      advancePushAcknowledgement projectId k version kept

def acknowledgeResult (result : ChangeResult) : Work Cache Unit :=
  if result.status ≠ .accepted then pure ()
  else do
    let sent ← .select (·.outbox.find? (·.changeId = result.changeId))
    match sent with
    | some sent => acknowledgeSent projectId sent result
    | none => advanceReplacement projectId result

def acknowledgeAcceptedResults (results : List ChangeResult) : Work Cache Unit :=
  .writeTransaction do
    releaseScoredCodes projectId results
    results.forM (acknowledgeResult projectId)

end Acknowledgement

def markOutboxIdsAttempted (ids : List Uuid) (now : Time) : Work Cache Unit :=
  .writeTransaction (changeOutbox (·.markOutboxIdsAttempted ids now))

def deleteOutboxIds (ids : List Uuid) : Work Cache Unit :=
  .writeTransaction (changeOutbox (·.deleteOutboxIds ids))

def deferOutboxId (changeId : Uuid) (err : Failure) (retryAfterSeconds : Option ℤ) (now : Time) :
    Work Cache Unit :=
  .writeTransaction do
    let known ← .select (·.outbox.any (·.changeId = changeId))
    if known then changeOutbox (·.deferOutboxId changeId err retryAfterSeconds now) else pure ()

def blockOutboxId (changeId : Uuid) (err : Failure) (now : Time) : Work Cache Unit :=
  .writeTransaction (changeOutbox (·.blockOutboxId changeId err now))

def releaseAuthenticationBlocks : Work Cache Unit :=
  .writeTransaction (changeOutbox Outbox.releaseAuthenticationBlocks)

section Resolution

variable (projectId : Uuid)

def requireConflict (changeId : Uuid) (expected : Option ℤ) : Work Cache Entry := do
  let conflict ← .select (·.store.requireConflict changeId expected)
  .ofOption conflict

def keepMine (changeId : Uuid) (expected : Option ℤ) (t : LocalStore.Stamp) : Work Cache Unit :=
  .writeTransaction do
    let e ← requireConflict changeId expected
    let saved ← .ofOption (e.outcome.serverVersion.filter (1 ≤ ·))
    let current ← getVersion e.key
    replaceOutboxEntry (LocalStore.draft e.key e.op (some (max saved current)) e.record t) true

def takeServerCopy (e : Entry) (record : Dict) : Work Cache Unit := do
  deleteOutboxIds [e.changeId]
  applyPullEntities e.entity [record]

def useServer (changeId : Uuid) (expected : Option ℤ) : Work Cache Unit :=
  .writeTransaction do
    let e ← requireConflict changeId expected
    let record ← .ofOption (LocalStore.normalizeServerRecord projectId e)
    takeServerCopy e record
    setSyncWatermark 0

def mergeFields : Entity → List Attr
  | .risk | .opportunity => [.title, .code, .description, .category, .threat, .triggers,
      .mitigationPlan, .documentUrl, .ownerUserId, .status, .identifiedAt, .responseAt,
      .occurredAt, .probability, .impact, .impactCost, .impactTime, .impactScope, .impactQuality]
  | .action => [.kind, .title, .description, .status, .ownerUserId]
  | .assessment => [.probability, .impact, .notes]
  | .helpdeskTicket => [.title, .description, .category, .priority, .status, .reporterEmail]

def mergedColumns (entity : Entity) (record : Dict) (columns : Columns) : Columns := fun a ↦
  if a = .score ∧ entity = .assessment then
    match intOf (record.get .probability), intOf (record.get .impact) with
    | some p, some i => .int (p * i)
    | _, _ => columns .score
  else if a ∈ mergeFields entity ∧ record.has a then record.get a
  else columns a

def mergedRow (record : Dict) (r : CachedRow) : CachedRow :=
  { r with columns := mergedColumns r.entity record r.columns, dirty := true }

def applyMergedFields (k : EntityKey) (record : Dict) : Work Cache Unit := do
  .require (k.1 ≠ .assessment ||
    (intOf (record.get .probability)).isSome && (intOf (record.get .impact)).isSome)
  .statement fun c ↦
    if (c.row k).isNone || (record.has .code && c.codeTaken k (record.get .code)) then none
    else some ((), c.updateRows (·.key = k) (mergedRow record))
  .commitIfNeeded

/-- `_merge`; `merged` is the record that `merged_record` builds from the choices of the user. -/
def merge (changeId : Uuid) (expected : Option ℤ) (merged : Dict) (t : LocalStore.Stamp) :
    Work Cache Unit :=
  .writeTransaction do
    let e ← requireConflict changeId expected
    let record ← .ofOption (LocalStore.normalizeServerRecord projectId e)
    let version ← .ofOption
      (e.outcome.serverVersion.filter fun v ↦ 1 ≤ v && recordVersion record = v)
    let current ← getVersion e.key
    .require (current ≤ version && e.op = .upsert && !LocalStore.deletedRecord e.record &&
      !LocalStore.deletedRecord record)
    takeServerCopy e record
    applyMergedFields e.key (merged.set .id (.uuid e.entityId))
    replaceOutboxEntry (LocalStore.draft e.key .upsert (some version)
      (merged.set .id (.uuid e.entityId)) t) true
    setSyncWatermark 0

end Resolution

end Cache

inductive Operation
  | command (cmd : Command) (t : LocalStore.Stamp)
  | markAttempted (ids : List Uuid) (now : Time)
  | acknowledge (results : List ChangeResult)
  | deleteIds (ids : List Uuid)
  | deferId (changeId : Uuid) (err : Failure) (retryAfterSeconds : Option ℤ) (now : Time)
  | blockId (changeId : Uuid) (err : Failure) (now : Time)
  | releaseAuthentication
  | applyPull (pull : Download)
  | keepMine (changeId : Uuid) (expected : Option ℤ) (t : LocalStore.Stamp)
  | useServer (changeId : Uuid) (expected : Option ℤ)
  | merge (changeId : Uuid) (expected : Option ℤ) (merged : Dict) (t : LocalStore.Stamp)

def Operation.work (projectId : Uuid) : Operation → Work Cache Unit
  | command cmd t => if cmd.wired then cmd.work t else .raise
  | markAttempted ids now => Cache.markOutboxIdsAttempted ids now
  | acknowledge results => Cache.acknowledgeAcceptedResults projectId results
  | deleteIds ids => Cache.deleteOutboxIds ids
  | deferId changeId err retryAfterSeconds now =>
    Cache.deferOutboxId changeId err retryAfterSeconds now
  | blockId changeId err now => Cache.blockOutboxId changeId err now
  | releaseAuthentication => Cache.releaseAuthenticationBlocks
  | applyPull pull => Cache.applyPull pull
  | keepMine changeId expected t => Cache.keepMine changeId expected t
  | useServer changeId expected => Cache.useServer projectId changeId expected
  | merge changeId expected merged t => Cache.merge projectId changeId expected merged t

end RiskApp.Client
