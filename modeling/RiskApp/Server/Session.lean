import RiskApp.Server.Deletion

namespace RiskApp.Server

open Lib Lib.Result

/-- The objects the ORM session holds, by primary key. -/
abbrev IdentityMap := RowKey → Option Row

namespace IdentityMap

def empty : IdentityMap := fun _ ↦ none

/-- `select(Model)` as `fetch_obj` issues it: the database decides whether there is a row, but an
object the session already holds is returned as it is. -/
def load (objects : IdentityMap) (d : Data) (entity : Entity) (projectId entityId : Uuid) :
    Option Row :=
  (fetchObj d entity entityId projectId).map fun r ↦ (objects r.key).getD r

def loaded (objects : IdentityMap) (d : Data) (entity : Entity) (projectId entityId : Uuid) :
    IdentityMap :=
  match objects.load d entity projectId entityId with
  | none => objects
  | some obj => Function.update objects (entity.table, entityId) (some obj)

/-- The select of `current_server_state` has `populate_existing`: it refreshes the object. -/
def populated (objects : IdentityMap) (d : Data) (entity : Entity)
    (entityId projectId userId : Uuid) : IdentityMap :=
  match (d.row (entity.table, entityId)).filter (inVersionScope d entity projectId userId) with
  | none => objects
  | some r => Function.update objects (entity.table, entityId) (some r)

/-- Objects that nothing refers to are dropped from the session at any time. -/
def retain (objects : IdentityMap) (keep : RowKey → Bool) : IdentityMap :=
  fun k ↦ if keep k then objects k else none

def Coherent (objects : IdentityMap) (d : Data) : Prop :=
  ∀ k obj, objects k = some obj → d.row k = some obj

variable {objects : IdentityMap} {d : Data}

theorem Coherent.load (h : objects.Coherent d) (entity : Entity) (projectId entityId : Uuid) :
    objects.load d entity projectId entityId = fetchObj d entity entityId projectId := by
  unfold IdentityMap.load
  cases hr : fetchObj d entity entityId projectId with
  | none => rfl
  | some r =>
    obtain ⟨hrow, -⟩ := fetchObj_some hr
    have hkey := Table.key_of_find Row.key hrow
    cases hobj : objects r.key with
    | none => rw [Option.map_some, hobj, Option.getD_none]
    | some obj =>
      have hsame := h r.key obj hobj
      rw [hkey, hrow] at hsame
      rw [Option.map_some, hobj, Option.getD_some, hsame]

theorem Coherent.update (h : objects.Coherent d) {k : RowKey} {r : Row} (hr : d.row k = some r) :
    Coherent (Function.update objects k (some r)) d := by
  intro k' obj hobj
  by_cases hk : k' = k
  · subst hk
    rw [Function.update_self] at hobj
    rw [hr, hobj]
  · rw [Function.update_of_ne hk] at hobj
    exact h k' obj hobj

theorem Coherent.loaded (h : objects.Coherent d) (entity : Entity) (projectId entityId : Uuid) :
    (objects.loaded d entity projectId entityId).Coherent d := by
  unfold IdentityMap.loaded
  rw [h.load]
  split
  · exact h
  · rename_i r hr
    exact h.update (fetchObj_some hr).1

theorem Coherent.populated (h : objects.Coherent d) (entity : Entity)
    (entityId projectId userId : Uuid) :
    (objects.populated d entity entityId projectId userId).Coherent d := by
  unfold IdentityMap.populated
  split
  · exact h
  · rename_i r hr
    exact h.update (Option.filter_eq_some_iff.mp hr).1

theorem Coherent.retain (h : objects.Coherent d) (keep : RowKey → Bool) :
    (objects.retain keep).Coherent d := by
  intro k obj hobj
  unfold IdentityMap.retain at hobj
  split at hobj
  · exact h k obj hobj
  · cases hobj

theorem coherent_empty (d : Data) : IdentityMap.empty.Coherent d := by
  intro k obj hobj
  cases hobj

end IdentityMap

section Loaded

variable (conv : Conv) (d : Data) (load : Uuid → Option Row)

/-- `_requires_manager`, over what the session loads. -/
def requiresManagerLoaded (change : SyncChange) : Bool :=
  let record := change.record
  if !managerDelete change.entity then false
  else if change.op = .delete then true
  else if change.entity.scored ∧ statusText (record.get .status) = "deleted".toList then true
  else if (record.get .isDeleted).truthy then true
  else if !record.has .isDeleted then false
  else match maybeEntityId conv record with
    | none => false
    | some entityId => ((load entityId).map Row.isDeleted).getD false

def applyUpsertLoaded (userId projectId : Uuid) (change : SyncChange) (now : Time) :
    Except PushError (Data × Uuid × Option Write) := do
  let entityId ← parseUuid conv "record.id" (change.record.get .id)
  let audit before obj : AuditLog := ⟨now, userId, projectId, change.changeId, change.entity,
    entityId, .upsert, before, modelToDict obj⟩
  match load entityId with
  | none =>
    let obj ← createNew conv d userId projectId change.entity entityId change.record now
    return (d, entityId, some ⟨obj, true, audit none obj⟩)
  | some r =>
    let claimed ← claimExisting d r change.entity entityId projectId userId change.baseVersion now
    let obj ← updateExisting conv claimed projectId change.entity r change.record now
    return (claimed, entityId, some ⟨obj, false, audit (some (modelToDict r)) obj⟩)

def applyDeleteLoaded (userId projectId : Uuid) (change : SyncChange) (now : Time) :
    Except PushError (Data × Uuid × Option Write) := do
  let entityId ← parseUuid conv "record.id" (change.record.get .id)
  match load entityId with
  | none => return (d, entityId, none)
  | some r =>
    let claimed ← claimExisting d r change.entity entityId projectId userId change.baseVersion now
    let obj := r.softDelete now
    return (claimed, entityId, some ⟨obj, false, ⟨now, userId, projectId, change.changeId,
      change.entity, entityId, .delete, some (modelToDict r), modelToDict obj⟩⟩)

def applyOpLoaded (userId projectId : Uuid) (change : SyncChange) (now : Time) :
    Except PushError (Data × Uuid × Option Write) :=
  match change.op with
  | .upsert => applyUpsertLoaded conv d load userId projectId change now
  | .delete => applyDeleteLoaded conv d load userId projectId change now

def applyChangeLoaded (userId projectId : Uuid) (change : SyncChange) (now : Time) :
    Except PushError (Data × Uuid) := do
  let (d, entityId, write) ← applyOpLoaded conv d load userId projectId change now
  let d ← flush d now write
  return (d, entityId)

def processLoaded (userId projectId : Uuid) (role : Role) (change : SyncChange) (now : Time) :
    Outcome :=
  let required := if requiresManagerLoaded conv load change then Role.manager else .member
  if role.rank < required.rank then
    rejectPushChange conv d change "insufficient_permissions" none .permission false true
  else match applyChangeLoaded conv d load userId projectId change now with
    | .error e => failedOutcome conv d change e
    | .ok (d', entityId) =>
      { data := d'
        status := .accepted
        entityId := some entityId
        response := acceptedResponse d' change.entity entityId projectId userId
        stored := true }

end Loaded

/-- A session that holds nothing stale computes what fresh reads compute. -/
theorem processLoaded_eq (conv : Conv) {d : Data} {userId projectId : Uuid} {role : Role}
    {change : SyncChange} {now : Time} {load : Uuid → Option Row}
    (h : ∀ entityId, load entityId = fetchObj d change.entity entityId projectId) :
    processLoaded conv d load userId projectId role change now =
      processNewPushChange conv d userId projectId role change now := by
  obtain rfl : load = fun entityId ↦ fetchObj d change.entity entityId projectId := funext h
  rfl

section Session

variable {Digest : Type} [DecidableEq Digest]

/-- `_PushContext` with the objects of its session and the number of receipts written. -/
structure Session (Digest : Type) where
  ctx : PushContext Digest
  objects : IdentityMap := .empty
  wrote : ℕ := 0

namespace Session

variable (conv : Conv) (sha : Payload → Digest) (expungeEvery : ℕ)

def afterReplay (s : Session Digest) (result : ChangeResult) : IdentityMap :=
  match result.status, result.entityId with
  | .accepted, some entityId =>
    s.objects.populated s.ctx.db.data result.entity entityId s.ctx.projectId s.ctx.userId
  | _, _ => s.objects

/-- The objects after a new change: the row that was flushed is selected again; what a failed
change had modified is expired with its savepoint. -/
def afterChange (s : Session Digest) (change : SyncChange) (o : Outcome) : IdentityMap :=
  match parseUuid conv "record.id" (change.record.get .id) with
  | .error _ => s.objects
  | .ok entityId =>
    let k := (change.entity.table, entityId)
    if o.status = .accepted then Function.update s.objects k (o.data.row k)
    else if o.response.reason ∈ [some "constraint_violation", some "internal_error"] then
      Function.update s.objects k none
    else s.objects.loaded s.ctx.db.data change.entity s.ctx.projectId entityId

def recordNew (s : Session Digest) (c : SyncChange × Time) : Session Digest :=
  let o := processLoaded conv s.ctx.db.data
    (s.objects.load s.ctx.db.data c.1.entity s.ctx.projectId) s.ctx.userId s.ctx.projectId
    s.ctx.role c.1 c.2
  let wrote := if o.stored then s.wrote + 1 else s.wrote
  { ctx := { s.ctx with
      db := ⟨o.data, s.ctx.db.receipts ++ o.receipts sha s.ctx.userId s.ctx.projectId c.1 c.2⟩
      results := s.ctx.results ++ [o.result c.1]
      batchResults := Function.update s.ctx.batchResults c.1.changeId (some (o.result c.1))
      batchHashes := Function.update s.ctx.batchHashes c.1.changeId (some (sha c.1.payload)) }
    objects := if o.stored ∧ wrote % expungeEvery = 0 then .empty else s.afterChange conv c.1 o
    wrote := wrote }

/-- One turn of the loop; `keep` says which objects are still referred to when it begins. -/
def step (s : Session Digest) (c : (SyncChange × Time) × (RowKey → Bool)) : Session Digest :=
  let s := { s with objects := s.objects.retain c.2 }
  if s.ctx.seen c.1.1.changeId then
    { s with
      ctx := s.ctx.recordDuplicate conv sha c.1.1
      objects := s.afterReplay (s.ctx.duplicateResult conv sha c.1.1) }
  else s.recordNew conv sha expungeEvery c.1

def run (s : Session Digest) (changes : List ((SyncChange × Time) × (RowKey → Bool))) :
    Session Digest :=
  changes.foldl (step conv sha expungeEvery) s

omit [DecidableEq Digest] in
theorem coherent_afterReplay {s : Session Digest} (h : s.objects.Coherent s.ctx.db.data)
    (result : ChangeResult) : (s.afterReplay result).Coherent s.ctx.db.data := by
  unfold afterReplay
  split
  · exact h.populated _ _ _ _
  · exact h

omit [DecidableEq Digest] in
theorem coherent_afterChange {s : Session Digest} (h : s.objects.Coherent s.ctx.db.data)
    (c : SyncChange × Time) :
    (s.afterChange conv c.1 (s.ctx.outcome conv c)).Coherent (s.ctx.outcome conv c).data := by
  have hfailed : (s.ctx.outcome conv c).status ≠ .accepted →
      (s.ctx.outcome conv c).data = s.ctx.db.data :=
    processNewPushChange_failed conv s.ctx.db.data s.ctx.userId s.ctx.projectId s.ctx.role c.1 c.2
  by_cases hs : (s.ctx.outcome conv c).status = .accepted
  · obtain ⟨entityId, hid, happ⟩ := processNewPushChange_accepted conv s.ctx.db.data s.ctx.userId
      s.ctx.projectId s.ctx.role c.1 c.2 hs
    simp only [afterChange, hid, hs, if_true]
    intro k obj hobj
    by_cases hk : k = (c.1.entity.table, entityId)
    · rw [hk, Function.update_self] at hobj
      rw [hk, hobj]
    · rw [Function.update_of_ne hk] at hobj
      exact (happ.row_of_ne hk).trans (h k obj hobj)
  · rw [hfailed hs]
    unfold afterChange
    split
    · exact h
    · simp only [hs, if_false]
      split
      · intro k obj hobj
        rename_i entityId _ _
        by_cases hk : k = (c.1.entity.table, entityId)
        · rw [hk, Function.update_self] at hobj
          cases hobj
        · rw [Function.update_of_ne hk] at hobj
          exact h k obj hobj
      · exact h.loaded _ _ _

omit [DecidableEq Digest] in
theorem recordNew_coherent {s : Session Digest} (h : s.objects.Coherent s.ctx.db.data)
    (c : SyncChange × Time) :
    (s.recordNew conv sha expungeEvery c).ctx = s.ctx.recordNew conv sha c ∧
      (s.recordNew conv sha expungeEvery c).objects.Coherent
        (s.recordNew conv sha expungeEvery c).ctx.db.data := by
  have hprocess : processLoaded conv s.ctx.db.data
      (s.objects.load s.ctx.db.data c.1.entity s.ctx.projectId) s.ctx.userId s.ctx.projectId
      s.ctx.role c.1 c.2 = s.ctx.outcome conv c :=
    processLoaded_eq conv fun entityId ↦ h.load c.1.entity s.ctx.projectId entityId
  unfold recordNew
  simp only [hprocess]
  refine ⟨rfl, ?_⟩
  generalize (if (s.ctx.outcome conv c).stored then s.wrote + 1 else s.wrote) = wrote
  split
  · exact IdentityMap.coherent_empty _
  · exact coherent_afterChange conv h c

theorem step_coherent {s : Session Digest} (h : s.objects.Coherent s.ctx.db.data)
    (c : (SyncChange × Time) × (RowKey → Bool)) :
    (s.step conv sha expungeEvery c).ctx = s.ctx.step conv sha c.1 ∧
      (s.step conv sha expungeEvery c).objects.Coherent
        (s.step conv sha expungeEvery c).ctx.db.data := by
  have hretain := h.retain c.2
  unfold step
  by_cases hs : s.ctx.seen c.1.1.changeId = true
  · simp only [hs, if_true, PushContext.step_of_seen conv sha hs]
    exact ⟨trivial, coherent_afterReplay (s := ⟨s.ctx, s.objects.retain c.2, s.wrote⟩) hretain _⟩
  · simp only [hs, PushContext.step_of_new conv sha hs]
    exact recordNew_coherent conv sha expungeEvery (s := ⟨s.ctx, s.objects.retain c.2, s.wrote⟩)
      hretain c.1

theorem run_coherent {s : Session Digest} (h : s.objects.Coherent s.ctx.db.data)
    (changes : List ((SyncChange × Time) × (RowKey → Bool))) :
    (s.run conv sha expungeEvery changes).ctx = s.ctx.run conv sha (changes.map Prod.fst) := by
  induction changes generalizing s with
  | nil => rfl
  | cons c changes ih =>
    obtain ⟨hctx, hcoherent⟩ := step_coherent conv sha expungeEvery h c
    have hrun := ih hcoherent
    rw [hctx] at hrun
    exact hrun

end Session

/-- `push_changes` with its ORM session. -/
def pushSession (conv : Conv) (sha : Payload → Digest) (expungeEvery : ℕ) (db : Db Digest)
    (userId projectId : Uuid) (changes : List ((SyncChange × Time) × (RowKey → Bool))) :
    Except HttpFailure (Db Digest × List ChangeResult) :=
  (openPush db userId projectId (changes.map Prod.fst)).map fun ctx ↦
    let s := (Session.mk ctx .empty 0).run conv sha expungeEvery changes
    (s.ctx.db, s.ctx.results)

/-- Flushing and expunging the session is unobservable, at whatever interval and whichever objects
are dropped in between. -/
theorem pushSession_eq (conv : Conv) (sha : Payload → Digest) (expungeEvery : ℕ) (db : Db Digest)
    (userId projectId : Uuid) (changes : List ((SyncChange × Time) × (RowKey → Bool))) :
    pushSession conv sha expungeEvery db userId projectId changes =
      pushChanges conv sha db userId projectId (changes.map Prod.fst) := by
  unfold pushSession pushChanges
  congr 1
  funext ctx
  have hrun := Session.run_coherent conv sha expungeEvery (s := ⟨ctx, .empty, 0⟩)
    (IdentityMap.coherent_empty _) changes
  simp only [hrun]

end Session

end RiskApp.Server
