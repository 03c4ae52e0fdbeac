import RiskApp.Lib.Patterns
import RiskApp.Server.Flush

namespace RiskApp.Server

open Lib Lib.Patterns Lib.Result

/-- `model_to_dict`: every mapped column, with the parent exposed under both of its names. -/
def modelToDict (r : Row) : Dict := fun a ↦
  if a ∈ r.table.columns then some (r.get a)
  else if .itemId ∈ r.table.columns ∧ (a = .riskId ∨ a = .opportunityId) then
    some (r.get .itemId)
  else none

def Data.itemType (db : Data) : Val → Val
  | .uuid itemId => ((db.item itemId).map (Row.attrs · .type)).getD .null
  | _ => .null

def withItemAliases (record : Dict) (itemType : Val) : Dict :=
  let itemId := record.get .itemId
  (record.set .riskId (if itemType = .str "risk" then itemId else .null)).set .opportunityId
    (if itemType = .str "opportunity" then itemId else .null)

def modelToSyncDict (db : Data) (entity : Entity) (r : Row) : Dict :=
  let out := modelToDict r
  if entity = .action ∨ entity = .assessment then
    withItemAliases out (db.itemType (out.get .itemId))
  else out

def updatedAtText (record : Option Dict) : Option Val :=
  match record.map (Dict.get · .updatedAt) with
  | some .null => none
  | v => v

/-- `fetch_obj`: the row of that id, if it belongs to the project. -/
def fetchObj (db : Data) (entity : Entity) (entityId projectId : Uuid) : Option Row :=
  (db.row (entity.table, entityId)).filter (fun r ↦ db.projectOf r = some projectId)

/-- The rows `_version_scope` selects. -/
def inVersionScope (db : Data) (entity : Entity) (projectId userId : Uuid) (r : Row) :
    Bool :=
  decide (db.projectOf r = some projectId) &&
    (!entity.scored || r.attrs .type = .str entity.name) &&
    (entity ≠ .assessment || r.attrs .assessorUserId = .uuid userId)

def currentServerState (db : Data) (entity : Entity) (entityId projectId userId : Uuid) :
    Option ℕ × Option Dict :=
  match (db.row (entity.table, entityId)).filter (inVersionScope db entity projectId userId) with
  | none => (none, none)
  | some r => (some r.version, some (modelToSyncDict db entity r))

def checkBaseVersion (r : Row) (baseVersion : Option ℤ) (entityId : Uuid) (serverRecord : Dict) :
    Except PushError ℤ :=
  let conflict reason := PushError.conflict reason (some entityId) (some r.version)
    (some serverRecord)
  match baseVersion with
  | none => .error (conflict "base_version_required")
  | some bv =>
    if bv < 1 then .error (conflict "base_version_required")
    else if (r.version : ℤ) ≠ bv then .error (conflict "version_mismatch")
    else .ok bv

/-- What `_claim_base_version` writes, without the listeners of the session. -/
def Row.claim (r : Row) (now : Time) : Row :=
  { r.setAttr .updatedAt (.time now) with version := r.version + 1 }

def claimBaseVersion (db : Data) (entity : Entity) (entityId projectId userId : Uuid)
    (baseVersion : ℤ) (now : Time) : Except PushError (Data) :=
  match (db.row (entity.table, entityId)).filter (fun r ↦
      inVersionScope db entity projectId userId r && (r.version : ℤ) = baseVersion) with
  | some r => .ok { db with rows := Table.replace Row.key (r.claim now) db.rows }
  | none =>
    let state := currentServerState db entity entityId projectId userId
    .error (.conflict "version_mismatch" (some entityId) state.1 state.2)

/-- `_claim_existing`: access and version are checked and the next version is claimed. -/
def claimExisting (db : Data) (r : Row) (entity : Entity) (entityId projectId userId : Uuid)
    (baseVersion : Option ℤ) (now : Time) : Except PushError (Data) := do
  require (!entity.scored || r.attrs .type = .str entity.name)
    (.conflict "type_mismatch" (some entityId) (some r.version)
      (some (modelToSyncDict db entity r)))
  require (entity ≠ .assessment || r.attrs .assessorUserId = .uuid userId)
    (.http 403 "Cannot modify another user's assessment")
  let expected ← checkBaseVersion r baseVersion entityId (modelToSyncDict db entity r)
  claimBaseVersion db entity entityId projectId userId expected now

def ensureItemInProject (db : Data) (projectId itemId : Uuid) (expectedType : Option Entity) :
    Except PushError Unit :=
  let found := (db.item itemId).filter (fun r ↦ r.attrs .projectId = .uuid projectId)
  let itemType := (found.map (Row.attrs · .type)).getD .null
  require (itemType.truthy && expectedType.all (fun e ↦ itemType = .str e.name))
    (.http 400 "Target not found in project")

def ensureTarget (conv : Conv) (db : Data) (projectId : Uuid) (target : Val)
    (expectedType : Option Entity) : Except PushError Unit := do
  let itemId ← parseUuid conv "item_id" target
  ensureItemInProject db projectId itemId expectedType

/-- The parent check of `_validate_relationships`, for the entity that has a `parent_field`. -/
def validateParent (conv : Conv) (db : Data) (projectId : Uuid) (val : Parsed) (obj : Option Row) :
    Except PushError Unit :=
  let target := match obj with
    | none => val.get .itemId
    | some r => Val.orElse (val.get .itemId) (r.attrs .itemId)
  if target.truthy then ensureTarget conv db projectId target val.targetType
  else require obj.isSome (.http 400 "item_id is required")

def validateRelationships (conv : Conv) (db : Data) (projectId : Uuid) (entity : Entity)
    (val : Parsed) (obj : Option Row) : Except PushError Unit :=
  match entity with
  | .assessment => validateParent conv db projectId val obj
  | .action =>
    if (val.get .itemId).truthy then
      ensureTarget conv db projectId (val.get .itemId) val.targetType
    else .ok ()
  | _ => .ok ()

def likeCode (fold : Char → Char) (codePrefix : Char) : Val → Bool
  | .str s => fits fold [.char codePrefix, .char '-', .anyText] s.toList
  | _ => false

/-- The digits that `_canonical_item_code` counts of a code its query returns. -/
def codeSuffix (codePrefix : Char) : Val → Option (List Char)
  | .str s => match Text.splitOnce '-' s.toList with
    | (head, some suffix) =>
      if Text.upper head = [codePrefix] ∧ Text.isDigit suffix then some suffix else none
    | _ => none
  | _ => none

/-- The numbers `_canonical_item_code` finds used under a prefix, or the `ValueError` of `int` on
a digit that is not decimal. -/
def usedCodes (fold : Char → Char) (codePrefix : Char) : List Val → Except PushError (List ℕ)
  | [] => .ok []
  | code :: rest =>
    match if likeCode fold codePrefix code then codeSuffix codePrefix code else none with
    | none => usedCodes fold codePrefix rest
    | some suffix => match Text.digitsValue suffix with
      | some n => (usedCodes fold codePrefix rest).map (n :: ·)
      | none => .error .unexpected

def lowestUnused (used : List ℕ) : ℕ :=
  (((List.range (used.length + 1)).map (· + 1)).find? (· ∉ used)).getD (used.length + 1)

def canonicalItemCode (conv : Conv) (db : Data) (projectId : Uuid) (entity : Entity)
    (requested : Val) :
    Except PushError Val := do
  let code := match requested with
    | .str s => let t := Text.strip s.toList
      if t = [] then Val.null else .str (String.ofList t)
    | v => v
  if code = .null then return .null
  let codes := (db.rows.filter (fun r ↦ r.table = .items &&
    r.attrs .projectId = .uuid projectId)).map (Row.attrs · .code)
  if code ∉ codes then return code
  let codePrefix := if entity = .risk then 'R' else 'O'
  let used ← usedCodes conv.likeFold codePrefix codes
  return .str (String.ofList (codePrefix :: '-' :: Text.padThree (lowestUnused used)))

def clientFields (table : Table) (val : Parsed) : List (Attr × Val) :=
  val.fields.filter fun f ↦ f.1 ∉ [.score, .assessorUserId] && f.1 ∈ table.columns

def intOrOne : Val → ℤ
  | .int n => if n = 0 then 1 else n
  | _ => 1

def impactDimensions : List Attr := [.impactCost, .impactTime, .impactScope, .impactQuality]

/-- `recalculate_item_scores`; actions and tickets have no scores. -/
def recalculateItemScores (r : Row) : Row :=
  if r.table = .items ∨ r.table = .assessments then
    let valid := impactDimensions.filterMap fun a ↦ match r.attrs a with
      | .int n => some n
      | _ => none
    let r := match valid with
      | [] => r
      | n :: rest => r.setAttr .impact (.int (rest.foldl max n))
    r.setAttr .score (.int (intOrOne (r.attrs .probability) * intOrOne (r.attrs .impact)))
  else r

def Row.setAll (r : Row) (fields : List (Attr × Val)) : Row :=
  fields.foldl (fun r f ↦ r.setAttr f.1 f.2) r

/-- A new item's requested code is made canonical before it is assigned. -/
def withItemCode (conv : Conv) (db : Data) (projectId : Uuid) (entity : Entity)
    (val : Parsed) : Except PushError Parsed :=
  if entity.scored ∧ (val.find .code).isSome then
    (canonicalItemCode conv db projectId entity (val.get .code)).map (val.set .code)
  else .ok val

def createNew (conv : Conv) (db : Data) (userId projectId : Uuid) (entity : Entity)
    (entityId : Uuid) (record : Dict) (now : Time) : Except PushError Row := do
  let val ← parseRecord conv entity record
  let val ← withItemCode conv db projectId entity val
  let common := [(Attr.updatedAt, Val.time now), (.createdAt, .time now)] ++
    (if entity = .assessment then []
      else [(.projectId, .uuid projectId), (.createdBy, .uuid userId)]) ++ defaults entity
  validateRelationships conv db projectId entity val none
  let common := common ++ if entity = .assessment then [(.assessorUserId, .uuid userId)] else []
  let obj : Row := ⟨entity.table, entityId, 1, 0, fun _ ↦ .null⟩
  return recalculateItemScores ((obj.setAll common).setAll (clientFields entity.table val))

/-- Assign one parsed field; items record their status transitions. -/
def Row.assign (now : Time) (r : Row) (f : Attr × Val) : Row :=
  if f.1 = .status ∧ r.table = .items then r.changeStatus f.2 now else r.setAttr f.1 f.2

/-- The body of `_update_existing` after validation: the row was loaded before the claim, so its
version is still the one the client edited. -/
def Row.update (r : Row) (val : Parsed) (now : Time) : Row :=
  let r := (clientFields r.table val).foldl (Row.assign now) r
  let didSoftDelete := val.get .isDeleted ≠ .null && (val.get .isDeleted).truthy
  let r := if val.get .isDeleted = .null then r
    else if (val.get .isDeleted).truthy then r.softDelete now
    else r.setAttr .isDeleted (.bool false)
  let r := (recalculateItemScores r).setAttr .updatedAt (.time now)
  if didSoftDelete then r else { r with version := r.version + 1 }

def updateExisting (conv : Conv) (db : Data) (projectId : Uuid) (entity : Entity) (r : Row)
    (record : Dict) (now : Time) : Except PushError Row := do
  let val ← parseRecord conv entity record
  validateRelationships conv db projectId entity val (some r)
  return r.update val now

structure Write where
  obj : Row
  new : Bool
  audit : AuditLog

def applyUpsert (conv : Conv) (db : Data) (userId projectId : Uuid) (change : SyncChange)
    (now : Time) : Except PushError (Data × Uuid × Option Write) := do
  let entityId ← parseUuid conv "record.id" (change.record.get .id)
  let audit before obj : AuditLog := ⟨now, userId, projectId, change.changeId, change.entity,
    entityId, .upsert, before, modelToDict obj⟩
  match fetchObj db change.entity entityId projectId with
  | none =>
    let obj ← createNew conv db userId projectId change.entity entityId change.record now
    return (db, entityId, some ⟨obj, true, audit none obj⟩)
  | some r =>
    let claimed ← claimExisting db r change.entity entityId projectId userId change.baseVersion now
    let obj ← updateExisting conv claimed projectId change.entity r change.record now
    return (claimed, entityId, some ⟨obj, false, audit (some (modelToDict r)) obj⟩)

def applyDelete (conv : Conv) (db : Data) (userId projectId : Uuid) (change : SyncChange)
    (now : Time) : Except PushError (Data × Uuid × Option Write) := do
  let entityId ← parseUuid conv "record.id" (change.record.get .id)
  match fetchObj db change.entity entityId projectId with
  | none => return (db, entityId, none)
  | some r =>
    let claimed ← claimExisting db r change.entity entityId projectId userId change.baseVersion now
    let obj := r.softDelete now
    return (claimed, entityId, some ⟨obj, false, ⟨now, userId, projectId, change.changeId,
      change.entity, entityId, .delete, some (modelToDict r), modelToDict obj⟩⟩)

/-- `Session.flush` of the pending row and its audit entry. -/
def flush (db : Data) (now : Time) : Option Write → Except PushError (Data)
  | none => .ok db
  | some w =>
    (if w.new then flushInsert db w.obj now else flushUpdate db w.obj).map fun db ↦
      { db with audit := db.audit ++ [w.audit] }

def applyOp (conv : Conv) (db : Data) (userId projectId : Uuid) (change : SyncChange)
    (now : Time) : Except PushError (Data × Uuid × Option Write) :=
  match change.op with
  | .upsert => applyUpsert conv db userId projectId change now
  | .delete => applyDelete conv db userId projectId change now

/-- The mutation and its flush, as in the savepoint of `_apply_push_change`. -/
def applyChange (conv : Conv) (db : Data) (userId projectId : Uuid) (change : SyncChange)
    (now : Time) : Except PushError (Data × Uuid) := do
  let (db, entityId, write) ← applyOp conv db userId projectId change now
  let db ← flush db now write
  return (db, entityId)

end RiskApp.Server
