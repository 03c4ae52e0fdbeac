import RiskApp.Server.PushRoute
import RiskApp.Client.InFlight

namespace RiskApp

def ResultStatus.name : ResultStatus → String
  | .accepted => "accepted"
  | .conflict => "conflict"
  | .error => "error"

def ResultStatus.ofVal : Val → Option ResultStatus
  | .str s => if s = "accepted" then some .accepted
    else if s = "conflict" then some .conflict
    else if s = "error" then some .error
    else none
  | _ => none

namespace Client

open Lib Server

/-- `classify_http_status`; a request without an answer has the status 0. -/
def classifyHttpStatus (status : ℕ) : FailureKind × Bool :=
  if status = 401 then (.authentication, false)
  else if status = 403 then (.permission, false)
  else if status = 0 ∨ status ∈ [408, 425, 429] ∨ 500 ≤ status then (.transient, true)
  else (.validation, false)

def failureKindByReason (reason : Option String) : FailureKind :=
  if reason = some "insufficient_permissions" then .permission
  else if reason = some "internal_error" then .transient
  else .validation

/-- The `failure_kind` and `retryable` of `_normalize_error`. -/
def normalizeError (r : ChangeResult) : FailureKind × Bool :=
  let failureKind := r.body.failureKind.getD (failureKindByReason r.body.reason)
  (failureKind, r.body.retryable.getD false || failureKind = .transient)

/-- An element of the list of results as it arrives; what is no object has only null keys. -/
structure RawResult where
  changeId : Val
  status : Val
  entity : Val
  entityId : Val
  op : ChangeOp
  replayed : Bool
  body : Response
  receiptServerVersion : Option ℕ

namespace RawResult

def ofResult (r : ChangeResult) : RawResult where
  changeId := .uuid r.changeId
  status := .str r.status.name
  entity := .str r.entity.name
  entityId := (r.entityId.map .uuid).getD .null
  op := r.op
  replayed := r.replayed
  body := r.body
  receiptServerVersion := r.receiptServerVersion

def matchesChange (projectId : Uuid) (raw : RawResult) (e : Entry) : Bool :=
  (ResultStatus.ofVal raw.status).isSome &&
    raw.entity ∈ [.null, .str e.entity.name] &&
    (!(e.record.get .id).truthy || raw.entityId ∈ [.null, e.record.get .id]) &&
    raw.body.serverRecord.join.all fun record ↦
      (!(e.record.get .id).truthy || record.get .id ∈ [.null, e.record.get .id]) &&
        record.get .projectId ∈ [.null, .uuid projectId]

def read (changes : Outbox) (raw : RawResult) : Option ChangeResult := do
  let e ← changes.find? fun e ↦ raw.changeId = .uuid e.changeId
  let status ← ResultStatus.ofVal raw.status
  return {
    changeId := e.changeId
    status := status
    replayed := raw.replayed
    entity := e.entity
    op := raw.op
    entityId := match raw.entityId with
      | .uuid id => some id
      | _ => none
    body := raw.body
    receiptServerVersion := raw.receiptServerVersion }

end RawResult

/-- `_validated_push_results`, on the list of results. -/
def validatedReply (projectId : Uuid) (changes : Outbox) (reply : List RawResult) :
    Option (List ChangeResult) :=
  if reply ≠ [] ∧ (reply.map RawResult.changeId).Nodup ∧
      (∀ raw ∈ reply, ∃ e ∈ changes, raw.changeId = .uuid e.changeId ∧
        raw.matchesChange projectId e) ∧
      (∀ e ∈ changes, ∃ raw ∈ reply, raw.changeId = .uuid e.changeId)
  then some (reply.filterMap (RawResult.read changes)) else none

section Operations

variable (now : Time)

def parkFailure (changeId : Uuid) (err : Failure) (retryable : Bool) : Operation :=
  if retryable then .deferId changeId err none now else .blockId changeId err now

def failBatch (changes : Outbox) (status : ℕ) : List Operation :=
  changes.map fun e ↦ parkFailure now e.changeId ⟨(classifyHttpStatus status).1, {}⟩
    (classifyHttpStatus status).2

def savedOutcome (r : ChangeResult) : SavedOutcome := ⟨serverVersion r, serverRecord r⟩

def stateless (results : List ChangeResult) : List Uuid :=
  (results.filter fun r ↦ r.status = .accepted && !hasServerState r).map ChangeResult.changeId

def acknowledgeOperations (results : List ChangeResult) : List Operation :=
  (if (acknowledged results).isEmpty then [] else [.acknowledge (acknowledged results)]) ++
    (if (stateless results).isEmpty then [] else [.deleteIds (stateless results)])

def blockConflict (r : ChangeResult) : Operation :=
  .blockId r.changeId ⟨.conflict, savedOutcome r⟩ now

def parkError (r : ChangeResult) : Operation :=
  parkFailure now r.changeId ⟨(normalizeError r).1, savedOutcome r⟩ (normalizeError r).2

def resultOperations (results : List ChangeResult) : List Operation :=
  acknowledgeOperations results ++
    (results.filter (·.status = .conflict)).map (blockConflict now) ++
    (results.filter (·.status = .error)).map (parkError now)

def answerOperations (projectId : Uuid) (changes : Outbox)
    (answer : Except HttpFailure (List RawResult)) : List Operation :=
  match answer with
  | .error status => failBatch now changes status
  | .ok reply => match validatedReply projectId changes reply with
    | none => failBatch now changes 0
    | some results => resultOperations now results

end Operations

namespace Cache

def perform (projectId : Uuid) : List Operation → List (List Fate) → Cache → Cache
  | [], _, c => c
  | op :: ops, faults, c =>
    let c' := (op.work projectId).after (faults.headD []) c
    if (op.work projectId).returned (faults.headD []) c then perform projectId ops faults.tail c'
    else c'

/-- `_process_push`: the attempt is recorded, the user goes on while the request is under way, and
the answer is worked off. -/
def ProcessPush (projectId : Uuid) (now : Time) (changes : Outbox)
    (answer : Except HttpFailure (List RawResult)) (c c' : Cache) : Prop :=
  ∃ c₁ c₂ faults,
    ((Operation.markAttempted (changes.map Entry.changeId) now).work projectId).eval c =
      some ((), c₁) ∧
    Flight projectId changes c₁ c₂ ∧
    c' = perform projectId (answerOperations now projectId changes answer) faults c₂

end Cache

def sentChanges (batch : Outbox) (clock : Uuid → Time) : List (SyncChange × Time) :=
  batch.map fun e ↦ (e.change, clock e.changeId)

/-- The answer of the server as the client receives it: it can be lost on the way. -/
def received {Digest : Type} (lost : Bool)
    (answer : Except HttpFailure (Db Digest × List ChangeResult)) :
    Except HttpFailure (List RawResult) :=
  if lost then .error 0 else answer.map fun result ↦ result.2.map RawResult.ofResult

theorem ResultStatus_ofVal_name (s : ResultStatus) : ResultStatus.ofVal (.str s.name) = some s := by
  cases s <;> rfl

theorem RawResult.read_some {changes : Outbox} {raw : RawResult} {r : ChangeResult}
    (h : raw.read changes = some r) :
    (∃ e ∈ changes, e.changeId = r.changeId) ∧ raw.changeId = .uuid r.changeId ∧
      ResultStatus.ofVal raw.status = some r.status := by
  obtain ⟨e, he, h⟩ := Option.bind_eq_some_iff.mp h
  obtain ⟨status, hstatus, h⟩ := Option.bind_eq_some_iff.mp h
  obtain rfl := Option.some.inj h
  exact ⟨⟨e, List.mem_of_find?_eq_some he, rfl⟩, of_decide_eq_true (List.find?_some he :), hstatus⟩

theorem validatedReply_mem {projectId : Uuid} {changes : Outbox} {reply : List RawResult}
    {results : List ChangeResult} (h : validatedReply projectId changes reply = some results)
    {r : ChangeResult} (hr : r ∈ results) : ∃ raw ∈ reply, raw.read changes = some r := by
  unfold validatedReply at h
  split at h
  · obtain rfl := Option.some.inj h
    exact List.mem_filterMap.mp hr
  · cases h

def Blocks (ops : List Operation) (changeId : Uuid) (failureKind : FailureKind) : Prop :=
  ∃ err now, .blockId changeId err now ∈ ops ∧ err.failureKind = failureKind

def Touched (ops : List Operation) (e : Entry) : Prop :=
  e.queued = true ∨ ∃ kind, e.failureKind = some kind ∧ Blocks ops e.changeId kind

theorem Touched.alike {ops : List Operation} {e e' : Entry} (h : Touched ops e) (ha : e.Alike e') :
    Touched ops e' := by
  rcases h with hq | ⟨kind, hk, hb⟩
  · left
    rw [Entry.queued, ha.status]
    exact hq
  · exact Or.inr ⟨kind, ha.failureKind.trans hk, ha.changeId ▸ hb⟩

theorem Outbox.EachFrom.mono {o o' : Outbox} {P Q : Entry → Prop} (h : o.EachFrom o' P)
    (hPQ : ∀ e, P e → Q e) : o.EachFrom o' Q :=
  fun e he ↦ (h e he).imp id (hPQ e)

def Operation.Settling : Operation → Prop
  | .acknowledge _ => True
  | .deleteIds _ => True
  | .deferId _ _ _ _ => True
  | .blockId _ _ _ => True
  | _ => False

theorem settling_eachFrom {projectId : Uuid} {op : Operation} (hop : op.Settling) {c c' : Cache}
    (hd : c.outbox.Distinct) (h : (op.work projectId).eval c = some ((), c')) :
    c'.outbox.Distinct ∧ c.outbox.EachFrom c'.outbox (Touched [op]) := by
  have hcommit := Operation.work_commits hd h
  cases op with
  | acknowledge results =>
    exact LocalStore.acknowledgeAcceptedResults_induction
      (P := fun s ↦ c.outbox.EachFrom s.outbox (Touched [.acknowledge results]))
      (fun s r s' _ _ hs hack ↦ hs.trans (Device.eachFrom_acknowledged hack _)
        fun _ _ ha ht ↦ ht.alike ha) hd (fun e he ↦ Or.inl ⟨e, he, .refl e⟩) hcommit
  | deleteIds ids =>
    have hout := congrArg LocalStore.outbox (Option.some.inj hcommit)
    rw [← show c.store.outbox.deleteOutboxIds ids = c'.outbox from hout]
    exact ⟨hd.filter _, Outbox.eachFrom_filter _ _ _⟩
  | deferId changeId err retryAfter now =>
    have hout := congrArg LocalStore.outbox (Option.some.inj hcommit)
    rw [← show c.store.outbox.deferOutboxId changeId err retryAfter now = c'.outbox from hout]
    exact ⟨hd.update (fun _ ↦ rfl) fun _ ↦ rfl,
      Outbox.eachFrom_update fun e _ _ ↦ Or.inr (Or.inl rfl)⟩
  | blockId changeId err now =>
    have hout := congrArg LocalStore.outbox (Option.some.inj hcommit)
    rw [← show c.store.outbox.blockOutboxId changeId err now = c'.outbox from hout]
    refine ⟨hd.update (fun _ ↦ rfl) fun _ ↦ rfl,
      Outbox.eachFrom_update fun e _ hsel ↦ Or.inr (Or.inr
      ⟨err.failureKind, rfl, err, now, ?_, rfl⟩)⟩
    simp only [Bool.and_eq_true, decide_eq_true_eq] at hsel
    rw [← hsel.1]
    exact List.mem_singleton_self _
  | _ => cases hop

theorem perform_eachFrom {projectId : Uuid} {ops : List Operation} {faults : List (List Fate)}
    {c : Cache} (hops : ∀ op ∈ ops, op.Settling) (hd : c.outbox.Distinct) :
    c.outbox.EachFrom (Cache.perform projectId ops faults c).outbox (Touched ops) := by
  induction ops generalizing faults c with
  | nil => exact fun e he ↦ Or.inl ⟨e, he, .refl e⟩
  | cons op ops ih =>
    have hhead : ∀ e, Touched [op] e → Touched (op :: ops) e := by
      rintro e (hq | ⟨kind, hk, err, now, hmem, hkind⟩)
      · exact Or.inl hq
      · obtain rfl := List.mem_singleton.mp hmem
        exact Or.inr ⟨kind, hk, err, now, List.mem_cons_self, hkind⟩
    have htail : ∀ e, Touched ops e → Touched (op :: ops) e := by
      rintro e (hq | ⟨kind, hk, err, now, hmem, hkind⟩)
      · exact Or.inl hq
      · exact Or.inr ⟨kind, hk, err, now, List.mem_cons_of_mem _ hmem, hkind⟩
    have hstep : ((op.work projectId).after (faults.headD []) c).outbox.Distinct ∧ c.outbox.EachFrom
        ((op.work projectId).after (faults.headD []) c).outbox (Touched (op :: ops)) := by
      rcases op.work_after projectId (faults.headD []) c with hsame | hdone
      · rw [hsame]
        exact ⟨hd, fun e he ↦ Or.inl ⟨e, he, .refl e⟩⟩
      · obtain ⟨hd', heach⟩ := settling_eachFrom (hops op List.mem_cons_self) hd hdone
        exact ⟨hd', heach.mono hhead⟩
    unfold Cache.perform
    dsimp only
    split
    · exact hstep.2.trans ((ih (fun op' h ↦ hops op' (List.mem_cons_of_mem _ h))
        hstep.1).mono htail)
        fun _ _ ha ht ↦ ht.alike ha
    · exact hstep.2

theorem settling_parkFailure (now : Time) (changeId : Uuid) (err : Failure) (retryable : Bool) :
    (parkFailure now changeId err retryable).Settling := by
  cases retryable <;> trivial

theorem settling_failBatch {now : Time} {changes : Outbox} {status : ℕ} :
    ∀ op ∈ failBatch now changes status, op.Settling := by
  intro op hop
  obtain ⟨e, -, rfl⟩ := List.mem_map.mp hop
  exact settling_parkFailure _ _ _ _

theorem settling_acknowledge {results : List ChangeResult} :
    ∀ op ∈ acknowledgeOperations results, op.Settling := by
  intro op hop
  rcases List.mem_append.mp hop with hop | hop <;> split at hop
  · cases hop
  · rw [List.mem_singleton.mp hop]
    trivial
  · cases hop
  · rw [List.mem_singleton.mp hop]
    trivial

theorem settling_answer {now : Time} {projectId : Uuid} {changes : Outbox}
    {answer : Except HttpFailure (List RawResult)} :
    ∀ op ∈ answerOperations now projectId changes answer, op.Settling := by
  unfold answerOperations
  split
  · exact settling_failBatch
  · split
    · exact settling_failBatch
    · intro op hop
      rcases List.mem_append.mp hop with hop | hop
      · rcases List.mem_append.mp hop with hop | hop
        · exact settling_acknowledge op hop
        · obtain ⟨r, -, rfl⟩ := List.mem_map.mp hop
          trivial
      · obtain ⟨r, -, rfl⟩ := List.mem_map.mp hop
        exact settling_parkFailure _ _ _ _

namespace Cache

variable {projectId : Uuid} {batch : Outbox} {c c' : Cache}

theorem edited_eachFrom {s s' : LocalStore} {op : Edit} {t : LocalStore.Stamp}
    (h : Edited s op t s') : s.outbox.EachFrom s'.outbox fun e ↦ e.queued = true := by
  cases h with
  | rewritten => exact Outbox.eachFrom_update fun e _ _ ↦ Or.inl (e.alike_rewrite _ _)
  | queued => exact Outbox.eachFrom_insertEntry rfl
  | discarded => exact Outbox.eachFrom_filter _ _ _

theorem FlightStep.eachFrom (h : FlightStep projectId batch c c') (hd : c.outbox.Distinct) :
    c.outbox.EachFrom c'.outbox fun e ↦ e.queued = true := by
  obtain ⟨op, faults, hflight, -, -, rfl⟩ := h
  rcases op.work_after projectId faults c with hsame | hdone
  · rw [hsame]
    exact fun e he ↦ Or.inl ⟨e, he, .refl e⟩
  · have hcommit := Operation.work_commits hd hdone
    generalize (op.work projectId).after faults c = c' at hcommit ⊢
    cases op with
    | command cmd t =>
      exact edited_eachFrom (LocalStore.edit_edited hd hcommit)
    | markAttempted ids now =>
      have hout := congrArg LocalStore.outbox (Option.some.inj hcommit)
      rw [← show c.store.outbox.markOutboxIdsAttempted ids now = c'.outbox from hout]
      exact Outbox.eachFrom_update fun e _ _ ↦ Or.inl (e.alike_attempted now)
    | _ => cases hflight

theorem Flight.eachFrom (h : Flight projectId batch c c') (hc : c.Sound) :
    c.outbox.EachFrom c'.outbox fun e ↦ e.queued = true := by
  induction h with
  | refl => exact fun e he ↦ Or.inl ⟨e, he, .refl e⟩
  | tail hb hs ih =>
    refine ih.trans (hs.eachFrom ((Flight.reaches hb).sound hc).distinct) fun e e' ha hq ↦ ?_
    rw [Entry.queued, ha.status]
    exact hq

theorem ProcessPush.eachFrom {now : Time} {answer : Except HttpFailure (List RawResult)}
    (h : ProcessPush projectId now batch answer c c') (hc : c.Sound) :
    c.outbox.EachFrom c'.outbox (Touched (answerOperations now projectId batch answer)) := by
  obtain ⟨c₁, c₂, faults, hmark, hflight, rfl⟩ := h
  have hstep : Step projectId c c₁ := by
    refine ⟨.markAttempted (batch.map Entry.changeId) now, [], ⟨?_, ?_⟩⟩
    · intro id hid
      cases hid
    · exact (Work.writeTransaction_completed hmark).2.symm
  have hsound := Reaches.sound (.single hstep) hc
  have hmarked : c.outbox.EachFrom c₁.outbox fun e ↦ e.queued = true := by
    obtain rfl : c.setOutbox (·.markOutboxIdsAttempted (batch.map Entry.changeId) now) = c₁ :=
      congrArg Prod.snd (Option.some.inj hmark)
    exact Outbox.eachFrom_update fun e _ _ ↦ Or.inl (e.alike_attempted now)
  have hqueued : ∀ e e' : Entry, e.Alike e' → e.queued = true → e'.queued = true := by
    intro e e' ha hq
    rw [Entry.queued, ha.status]
    exact hq
  have hflown := hmarked.trans (hflight.eachFrom hsound) hqueued
  refine (hflown.mono fun e hq ↦ Or.inl hq).trans (perform_eachFrom settling_answer
    (hflight.reaches.sound hsound).distinct) fun _ _ ha ht ↦ Touched.alike ht ha

end Cache

theorem blocks_failBatch {now : Time} {changes : Outbox} {status : ℕ} {changeId : Uuid}
    {kind : FailureKind} (h : Blocks (failBatch now changes status) changeId kind) :
    classifyHttpStatus status = (kind, false) ∧ ∃ e ∈ changes, e.changeId = changeId := by
  obtain ⟨err, now', hmem, hkind⟩ := h
  obtain ⟨e, he, heq⟩ := List.mem_map.mp hmem
  unfold parkFailure at heq
  split at heq
  · cases heq
  · rename_i hretry
    cases heq
    exact ⟨Prod.ext hkind (by simpa using hretry), e, he, rfl⟩

theorem blocks_results {now : Time} {results : List ChangeResult} {changeId : Uuid}
    {kind : FailureKind} (h : Blocks (resultOperations now results) changeId kind) :
    ∃ r ∈ results, r.changeId = changeId ∧
      (r.status = .conflict ∧ kind = .conflict ∨ r.status = .error) := by
  obtain ⟨err, now', hmem, hkind⟩ := h
  rcases List.mem_append.mp hmem with hmem | hmem
  · rcases List.mem_append.mp hmem with hmem | hmem
    · rcases List.mem_append.mp hmem with hmem | hmem
      · split at hmem
        · cases hmem
        · cases List.mem_singleton.mp hmem
      · split at hmem
        · cases hmem
        · cases List.mem_singleton.mp hmem
    · obtain ⟨r, hr, heq⟩ := List.mem_map.mp hmem
      obtain ⟨hin, hstatus⟩ := List.mem_filter.mp hr
      cases heq
      exact ⟨r, hin, rfl, Or.inl ⟨of_decide_eq_true hstatus, hkind.symm⟩⟩
  · obtain ⟨r, hr, heq⟩ := List.mem_map.mp hmem
    obtain ⟨hin, hstatus⟩ := List.mem_filter.mp hr
    unfold parkError parkFailure at heq
    split at heq
    · cases heq
    · cases heq
      exact ⟨r, hin, rfl, Or.inr (of_decide_eq_true hstatus)⟩

theorem blocks_reply {now : Time} {projectId : Uuid} {changes : Outbox}
    {results : List ChangeResult}
    {changeId : Uuid} {kind : FailureKind}
    (h : Blocks (answerOperations now projectId changes (.ok (results.map RawResult.ofResult)))
      changeId kind) :
    ∃ r ∈ results, r.changeId = changeId ∧
      (r.status = .conflict ∧ kind = .conflict ∨ r.status = .error) := by
  unfold answerOperations at h
  dsimp only at h
  split at h
  · obtain ⟨hclass, -⟩ := blocks_failBatch h
    cases hclass
  · rename_i read hread
    obtain ⟨r, hr, hid, hcase⟩ := blocks_results h
    obtain ⟨raw, hraw, hr⟩ := validatedReply_mem hread hr
    obtain ⟨r', hr', rfl⟩ := List.mem_map.mp hraw
    obtain ⟨-, hchange, hstatus⟩ := RawResult.read_some hr
    obtain hsame : r'.changeId = r.changeId := Val.uuid.inj hchange
    have hstatus : r'.status = r.status :=
      Option.some.inj ((ResultStatus_ofVal_name r'.status).symm.trans hstatus)
    exact ⟨r', hr', hsame.trans hid, hstatus ▸ hcase⟩

namespace Outbox

theorem getPendingChanges_length (o : Outbox) (limit : ℕ) (now : Time) :
    (o.getPendingChanges limit now).length ≤ maxPushChanges := by
  refine (List.length_take_le _ _).trans ?_
  unfold maxPushChanges
  omega

theorem Distinct.getPendingChanges {o : Outbox} (h : o.Distinct) (limit : ℕ) (now : Time) :
    (o.getPendingChanges limit now).Distinct := by
  have hsorted : (oldestFirst (o.filter (ready now))).Distinct := by
    have hperm := List.perm_insertionSort (fun e f : Entry ↦ e.createdAt ≤ f.createdAt)
      (o.filter (ready now))
    have hd := h.filter (ready now)
    exact ⟨(hperm.map Entry.key).nodup_iff.mpr hd.keys,
      (hperm.map Entry.changeId).nodup_iff.mpr hd.ids⟩
  exact ⟨hsorted.keys.sublist ((List.take_sublist _ _).map _),
    hsorted.ids.sublist ((List.take_sublist _ _).map _)⟩

end Outbox

end Client

end RiskApp
