import Mathlib.Data.Set.Function
import RiskApp.Server.Atomicity

namespace RiskApp.Server

open Lib

variable {Digest : Type} [DecidableEq Digest]

/-- A write by another part of the server. It reaches neither the receipts nor the members. -/
structure OtherWrite where
  apply : Data → Data
  role : ∀ d p u, (apply d).getMemberRole p u = d.getMemberRole p u
  state : ∀ d p, ((apply d).lastSequence p).isSome = (d.lastSequence p).isSome

/-- What reaches the server: a push, which is rolled back if its commit fails, or another write.
A lost request never arrives, and a lost response is an answer nobody reads. -/
inductive Event
  | push (userId projectId : Uuid) (changes : List (SyncChange × Time)) (committed : Bool)
  | other (write : OtherWrite)

def Event.payloads : Event → List Payload
  | .push _ _ changes _ => changes.map (fun c ↦ c.1.payload)
  | .other _ => []

section Server

variable (conv : Conv) (sha : Payload → Digest)

def serve (db : Db Digest) : Event → Db Digest × Option (List ResultStatus)
  | .push userId projectId changes committed =>
    match pushChanges conv sha db userId projectId changes with
    | .error _ => (db, none)
    | .ok (db', results) =>
      if committed then (db', some (results.map ChangeResult.status)) else (db, none)
  | .other write => (⟨write.apply db.data, db.receipts⟩, none)

def serveAll (db : Db Digest) : List Event → Db Digest × List (Option (List ResultStatus))
  | [] => (db, [])
  | e :: es =>
    let (db', answer) := serve conv sha db e
    let (db'', answers) := serveAll db' es
    (db'', answer :: answers)

end Server

/-- What the first arrival of a change id was, and how it was answered. -/
structure FirstArrival where
  userId : Uuid
  projectId : Uuid
  payload : Payload
  status : ResultStatus

/-- The server that processes each change id at its first arrival only. `held` are the ids that
were answered with a retryable error since the batch began. -/
structure Reference (Digest : Type) where
  db : Db Digest
  arrived : Uuid → Option FirstArrival
  held : List Uuid

namespace Reference

open scoped Classical

variable (conv : Conv) (sha : Payload → Digest) (hold : Bool)

/-- One arrival. A change answered with a retryable error has not arrived; if `hold` is set, its
id is still not processed again in the same batch. -/
noncomputable def arrive (userId projectId : Uuid) (role : Role) (s : Reference Digest)
    (c : SyncChange × Time) : Reference Digest × ResultStatus :=
  match s.arrived c.1.changeId with
  | some a =>
    (s, if a.userId = userId ∧ a.projectId = projectId ∧ a.payload = c.1.payload then a.status
      else .error)
  | none =>
    if hold = true ∧ c.1.changeId ∈ s.held then (s, .error)
    else
      let o := processNewPushChange conv s.db.data userId projectId role c.1 c.2
      if o.response.retryable = some true then
        ({ s with held := c.1.changeId :: s.held }, o.status)
      else
        ({ s with
          db := ⟨o.data, s.db.receipts ++ [o.receipt sha userId projectId c.1 c.2]⟩
          arrived := Function.update s.arrived c.1.changeId
            (some ⟨userId, projectId, c.1.payload, o.status⟩) }, o.status)

noncomputable def arriveAll (userId projectId : Uuid) (role : Role) (s : Reference Digest) :
    List (SyncChange × Time) → Reference Digest × List ResultStatus
  | [] => (s, [])
  | c :: cs =>
    let (s', status) := arrive conv sha hold userId projectId role s c
    let (s'', statuses) := arriveAll userId projectId role s' cs
    (s'', status :: statuses)

def admitted (d : Data) (userId projectId : Uuid) (changes : List (SyncChange × Time)) :
    Option Role :=
  if changes ≠ [] ∧ (d.lastSequence projectId).isNone then none
  else d.getMemberRole projectId userId

/-- One event; members and roles are those of the data `d` that the run started from. -/
noncomputable def serve (d : Data) (s : Reference Digest) :
    Event → Reference Digest × Option (List ResultStatus)
  | .push userId projectId changes committed =>
    match admitted d userId projectId changes, committed with
    | some role, true =>
      let (s', statuses) :=
        arriveAll conv sha hold userId projectId role { s with held := [] } changes
      (s', some statuses)
    | _, _ => (s, none)
  | .other write => ({ s with db := ⟨write.apply s.db.data, s.db.receipts⟩ }, none)

noncomputable def serveAll (d : Data) (s : Reference Digest) :
    List Event → Reference Digest × List (Option (List ResultStatus))
  | [] => (s, [])
  | e :: es =>
    let (s', answer) := serve conv sha hold d s e
    let (s'', answers) := serveAll d s' es
    (s'', answer :: answers)

end Reference

/-- `d` grants the same access as `d₀`. -/
structure SameAccess (d₀ d : Data) : Prop where
  role : ∀ p u, d.getMemberRole p u = d₀.getMemberRole p u
  state : ∀ p, (d.lastSequence p).isSome = (d₀.lastSequence p).isSome

theorem SameAccess.admitted {d₀ d : Data} (h : SameAccess d₀ d) (userId projectId : Uuid)
    (changes : List (SyncChange × Time)) :
    Reference.admitted d userId projectId changes =
      Reference.admitted d₀ userId projectId changes := by
  have hstate := h.state projectId
  have hnone : (d.lastSequence projectId).isNone = (d₀.lastSequence projectId).isNone := by
    rw [← Option.not_isSome, ← Option.not_isSome, hstate]
  simp only [Reference.admitted, hnone, h.role]

theorem Data.isSome_advanced {d : Data} {p : Uuid} {n m : ℕ} (hn : d.lastSequence p = some n)
    (q : Uuid) :
    (Function.update d.lastSequence p (some m) q).isSome = (d.lastSequence q).isSome := by
  by_cases hq : q = p
  · rw [hq, Function.update_self, hn]
    rfl
  · rw [Function.update_of_ne hq]

theorem Applied.sameAccess {d d' : Data} {userId projectId entityId : Uuid} {change : SyncChange}
    (h : Applied d userId projectId change entityId d') : SameAccess d d' := by
  cases h with
  | absent => exact ⟨fun _ _ ↦ rfl, fun _ ↦ rfl⟩
  | modified entry found scope base pos keeps version project last =>
    exact ⟨fun _ _ ↦ rfl, Data.isSome_advanced last⟩
  | created entry op missing fresh key version type assessor project last =>
    exact ⟨fun _ _ ↦ rfl, Data.isSome_advanced last⟩

theorem processNewPushChange_sameAccess (conv : Conv) (d : Data) (userId projectId : Uuid)
    (role : Role) (change : SyncChange) (now : Time) :
    SameAccess d (processNewPushChange conv d userId projectId role change now).data := by
  by_cases hs : (processNewPushChange conv d userId projectId role change now).status = .accepted
  · obtain ⟨entityId, -, happ⟩ := processNewPushChange_accepted _ _ _ _ _ _ _ hs
    exact happ.sameAccess
  · rw [processNewPushChange_failed _ _ _ _ _ _ _ hs]
    exact ⟨fun _ _ ↦ rfl, fun _ ↦ rfl⟩

theorem SameAccess.trans {a b c : Data} (h : SameAccess a b) (h' : SameAccess b c) :
    SameAccess a c :=
  ⟨fun p u ↦ (h'.role p u).trans (h.role p u), fun p ↦ (h'.state p).trans (h.state p)⟩

structure Records (sha : Payload → Digest) (receipt : SyncReceipt Digest) (a : FirstArrival) :
    Prop where
  userId : receipt.userId = a.userId
  projectId : receipt.projectId = a.projectId
  payloadHash : receipt.payloadHash = some (sha a.payload)
  status : receipt.status = a.status

/-- The receipts are exactly those of the ids that have arrived. -/
structure Linked (sha : Payload → Digest) (S : Set Payload) (receipts : List (SyncReceipt Digest))
    (arrived : Uuid → Option FirstArrival) : Prop where
  absent : ∀ x, arrived x = none → Table.find SyncReceipt.changeId x receipts = none
  present : ∀ x a, arrived x = some a → a.payload ∈ S ∧
    ∃ receipt, Table.find SyncReceipt.changeId x receipts = some receipt ∧ Records sha receipt a

/-- What the loop of one batch and the reference know of one id. -/
inductive BatchLink (sha : Payload → Digest) (S : Set Payload) (ctx : PushContext Digest)
    (s : Reference Digest) (x : Uuid) : Prop
  | stored (receipt : SyncReceipt Digest) (a : FirstArrival)
      (existing : ctx.existingReceipts x = some receipt) (arrived : s.arrived x = some a)
      (records : Records sha receipt a) (payload : a.payload ∈ S)
  | fresh (existing : ctx.existingReceipts x = none) (hash : ctx.batchHashes x = none)
      (arrived : s.arrived x = none) (held : x ∉ s.held)
  | done (existing : ctx.existingReceipts x = none) (a : FirstArrival) (result : ChangeResult)
      (hash : ctx.batchHashes x = some (sha a.payload)) (payload : a.payload ∈ S)
      (batch : ctx.batchResults x = some result) (status : result.status = a.status)
      (arrived : s.arrived x = some a)
      (owner : a.userId = ctx.userId ∧ a.projectId = ctx.projectId)
  | retryable (existing : ctx.existingReceipts x = none) (payload : Payload)
      (result : ChangeResult) (hash : ctx.batchHashes x = some (sha payload))
      (mem : payload ∈ S) (batch : ctx.batchResults x = some result)
        (status : result.status = .error)
      (arrived : s.arrived x = none) (held : x ∈ s.held)

omit [DecidableEq Digest] in
theorem BatchLink.congr {sha : Payload → Digest} {S : Set Payload} {ctx ctx' : PushContext Digest}
    {s s' : Reference Digest} {x : Uuid} (h : BatchLink sha S ctx s x)
    (he : ctx'.existingReceipts x = ctx.existingReceipts x)
    (hr : ctx'.batchResults x = ctx.batchResults x) (hh : ctx'.batchHashes x = ctx.batchHashes x)
    (hu : ctx'.userId = ctx.userId) (hp : ctx'.projectId = ctx.projectId)
    (ha : s'.arrived x = s.arrived x) (hd : x ∈ s'.held ↔ x ∈ s.held) :
    BatchLink sha S ctx' s' x := by
  cases h with
  | stored receipt a existing arrived records payload =>
    exact .stored receipt a (he.trans existing) (ha.trans arrived) records payload
  | fresh existing hash arrived held =>
    exact .fresh (he.trans existing) (hh.trans hash) (ha.trans arrived) (fun h ↦ held (hd.mp h))
  | done existing a result hash payload batch status arrived owner =>
    exact .done (he.trans existing) a result (hh.trans hash) payload (hr.trans batch) status
      (ha.trans arrived) (by rw [hu, hp]; exact owner)
  | retryable existing payload result hash mem batch status arrived held =>
    exact .retryable (he.trans existing) payload result (hh.trans hash) mem (hr.trans batch) status
      (ha.trans arrived) (hd.mpr held)

theorem refreshAcceptedReplay_status (d : Data) (projectId userId : Uuid) (replay : ChangeResult) :
    (refreshAcceptedReplay d projectId userId replay).status = replay.status := by
  unfold refreshAcceptedReplay
  split
  · rfl
  · split
    · rfl
    · split <;> rfl

section Duplicate

open scoped Classical

variable (conv : Conv) {sha : Payload → Digest} {S : Set Payload} (hinj : Set.InjOn sha S)
  {ctx : PushContext Digest} {change : SyncChange} (hpayload : change.payload ∈ S)

include hinj hpayload

theorem duplicateResult_stored {receipt : SyncReceipt Digest} {a : FirstArrival}
    (he : ctx.existingReceipts change.changeId = some receipt) (hr : Records sha receipt a)
    (ha : a.payload ∈ S) :
    (ctx.duplicateResult conv sha change).status =
      if a.userId = ctx.userId ∧ a.projectId = ctx.projectId ∧ a.payload = change.payload then
        a.status
      else .error := by
  have hhash : sha a.payload = sha change.payload ↔ a.payload = change.payload :=
    hinj.eq_iff ha hpayload
  simp only [PushContext.duplicateResult, he, duplicateErrorReason, hr.userId, hr.projectId,
    hr.payloadHash, Option.some_ne_none, if_false, ne_eq, Option.some.injEq, hhash]
  by_cases hu : a.userId = ctx.userId
  · by_cases hp : a.projectId = ctx.projectId
    · by_cases hl : a.payload = change.payload
      · simp [hu, hp, hl, refreshAcceptedReplay_status, receiptResult, changeResult, hr.status]
      · simp [hu, hp, hl, changeResult]
    · simp [hu, hp, changeResult]
  · simp [hu, changeResult]

theorem duplicateResult_batch {payload : Payload} {result : ChangeResult}
    (he : ctx.existingReceipts change.changeId = none)
    (hh : ctx.batchHashes change.changeId = some (sha payload)) (hS : payload ∈ S)
    (hb : ctx.batchResults change.changeId = some result) :
    (ctx.duplicateResult conv sha change).status =
      if payload = change.payload then result.status else .error := by
  have hhash : sha payload = sha change.payload ↔ payload = change.payload :=
    hinj.eq_iff hS hpayload
  simp only [PushContext.duplicateResult, he, duplicateErrorReason, hh, Option.some.injEq, hhash,
    hb]
  by_cases hl : payload = change.payload
  · simp [hl, refreshAcceptedReplay_status]
  · simp [hl, changeResult]

end Duplicate

structure InBatch (sha : Payload → Digest) (S : Set Payload) (ids : List Uuid)
    (ctx : PushContext Digest) (s : Reference Digest) : Prop where
  db : ctx.db = s.db
  linked : Linked sha S s.db.receipts s.arrived
  link : ∀ x ∈ ids, BatchLink sha S ctx s x

omit [DecidableEq Digest] in
theorem Linked.insert {sha : Payload → Digest} {S : Set Payload}
    {receipts : List (SyncReceipt Digest)} {arrived : Uuid → Option FirstArrival}
    (h : Linked sha S receipts arrived) {receipt : SyncReceipt Digest} {a : FirstArrival}
    (hfree : arrived receipt.changeId = none) (hr : Records sha receipt a) (ha : a.payload ∈ S) :
    Linked sha S (receipts ++ [receipt])
      (Function.update arrived receipt.changeId (some a)) := by
  constructor
  · intro x hx
    by_cases he : x = receipt.changeId
    · simp [he] at hx
    · rw [Function.update_of_ne he] at hx
      have hne : ¬ receipt.changeId = x := fun e ↦ he e.symm
      rw [Table.find_append, h.absent x hx, Table.find_singleton, if_neg hne]
      rfl
  · intro x b hx
    by_cases he : x = receipt.changeId
    · subst he
      rw [Function.update_self] at hx
      cases hx
      refine ⟨ha, receipt, ?_, hr⟩
      rw [Table.find_append, h.absent _ hfree, Table.find_singleton, if_pos rfl]
      rfl
    · rw [Function.update_of_ne he] at hx
      obtain ⟨hb, found, hfound, hrec⟩ := h.present x b hx
      refine ⟨hb, found, ?_, hrec⟩
      rw [Table.find_append, hfound]
      rfl

section Step

variable (conv : Conv) {sha : Payload → Digest} {S : Set Payload} (hinj : Set.InjOn sha S)
  {ids : List Uuid} {ctx : PushContext Digest} {s : Reference Digest} {c : SyncChange × Time}

theorem InBatch.repeat (h : InBatch sha S ids ctx s) (hs : ctx.seen c.1.changeId = true) :
    InBatch sha S ids (ctx.step conv sha c) s := by
  rw [PushContext.step_of_seen conv sha hs]
  exact ⟨h.db, h.linked, fun x hx ↦ (h.link x hx).congr rfl rfl rfl rfl rfl rfl Iff.rfl⟩

/-- A new change ends the same way on both sides, and both remember it. -/
theorem InBatch.new (h : InBatch sha S ids ctx s) (hpayload : c.1.payload ∈ S)
    (existing : ctx.existingReceipts c.1.changeId = none)
    (hash : ctx.batchHashes c.1.changeId = none) (arrived : s.arrived c.1.changeId = none)
    (held : c.1.changeId ∉ s.held) :
    let next := Reference.arrive conv sha true ctx.userId ctx.projectId ctx.role s c
    InBatch sha S ids (ctx.step conv sha c) next.1 ∧ (ctx.answer conv sha c).status = next.2 := by
  have hs : ¬ ctx.seen c.1.changeId = true := by simp [PushContext.seen, existing, hash]
  have hstored := processNewPushChange_stored conv ctx.db.data ctx.userId ctx.projectId ctx.role
    c.1 c.2
  have hretry := processNewPushChange_retryable conv ctx.db.data ctx.userId ctx.projectId ctx.role
    c.1 c.2
  have hfailed := processNewPushChange_failed conv ctx.db.data ctx.userId ctx.projectId ctx.role
    c.1 c.2
  rw [PushContext.step_of_new conv sha hs]
  simp only [PushContext.answer, hs, Reference.arrive, arrived, held, and_false, if_false, ← h.db]
  set o := processNewPushChange conv ctx.db.data ctx.userId ctx.projectId ctx.role c.1 c.2 with ho
  have hout : ctx.outcome conv c = o := rfl
  by_cases hr : o.response.retryable = some true
  · have hst : o.stored = false := by simpa [hr] using hstored
    have herr := hretry hr
    have hdata : o.data = ctx.db.data := hfailed (by rw [herr]; decide)
    rw [if_pos hr]
    have hlinked : Linked sha S ctx.db.receipts s.arrived := by
      rw [h.db]
      exact h.linked
    refine ⟨⟨?_, hlinked, fun x hx ↦ ?_⟩, rfl⟩
    · simp [PushContext.recordNew, hout, Outcome.receipts, hst, hdata]
    · by_cases hxc : x = c.1.changeId
      · subst hxc
        refine .retryable existing c.1.payload (o.result c.1) ?_ hpayload ?_ herr arrived
          List.mem_cons_self
        · simp [PushContext.recordNew]
        · simp [PushContext.recordNew, hout]
      · refine (h.link x hx).congr rfl ?_ ?_ rfl rfl rfl ?_
        · simp [PushContext.recordNew, Function.update_of_ne hxc]
        · simp [PushContext.recordNew, Function.update_of_ne hxc]
        · simp [hxc]
  · have hst : o.stored = true := by simpa [hr] using hstored
    rw [if_neg hr]
    refine ⟨⟨?_, ?_, fun x hx ↦ ?_⟩, rfl⟩
    · simp only [PushContext.recordNew, hout, Outcome.receipts, hst, if_true]
    · rw [h.db]
      exact h.linked.insert arrived ⟨rfl, rfl, rfl, rfl⟩ hpayload
    · by_cases hxc : x = c.1.changeId
      · subst hxc
        refine .done existing ⟨ctx.userId, ctx.projectId, c.1.payload, o.status⟩ (o.result c.1)
          ?_ hpayload ?_ rfl (Function.update_self ..) ⟨rfl, rfl⟩
        · simp [PushContext.recordNew]
        · simp [PushContext.recordNew, hout]
      · refine (h.link x hx).congr rfl ?_ ?_ rfl rfl ?_ Iff.rfl
        · simp [PushContext.recordNew, Function.update_of_ne hxc]
        · simp [PushContext.recordNew, Function.update_of_ne hxc]
        · simp [Function.update_of_ne hxc]

include hinj

theorem InBatch.step (h : InBatch sha S ids ctx s) (hid : c.1.changeId ∈ ids)
    (hpayload : c.1.payload ∈ S) :
    let next := Reference.arrive conv sha true ctx.userId ctx.projectId ctx.role s c
    InBatch sha S ids (ctx.step conv sha c) next.1 ∧ (ctx.answer conv sha c).status = next.2 := by
  cases h.link c.1.changeId hid with
  | stored receipt a existing arrived records payload =>
    have hs : ctx.seen c.1.changeId = true := by simp [PushContext.seen, existing]
    have hstatus := duplicateResult_stored conv hinj hpayload existing records payload
    simp only [Reference.arrive, arrived]
    refine ⟨h.repeat conv hs, ?_⟩
    simpa only [PushContext.answer, hs, if_true] using hstatus
  | fresh existing hash arrived held => exact h.new conv hpayload existing hash arrived held
  | done existing a result hash payload batch status arrived owner =>
    have hs : ctx.seen c.1.changeId = true := by simp [PushContext.seen, hash]
    have hstatus := duplicateResult_batch conv hinj hpayload existing hash payload batch
    simp only [Reference.arrive, arrived]
    refine ⟨h.repeat conv hs, ?_⟩
    simp only [PushContext.answer, hs, if_true, hstatus, status]
    by_cases hl : a.payload = c.1.payload
    · rw [if_pos hl, if_pos ⟨owner.1, owner.2, hl⟩]
    · rw [if_neg hl, if_neg fun h ↦ hl h.2.2]
  | retryable existing payload result hash mem batch status arrived held =>
    have hs : ctx.seen c.1.changeId = true := by simp [PushContext.seen, hash]
    simp only [Reference.arrive, arrived, held, and_self, if_true]
    refine ⟨h.repeat conv hs, ?_⟩
    have hstatus := duplicateResult_batch conv hinj hpayload existing hash mem batch
    simp only [PushContext.answer, hs, if_true, hstatus, status, ite_self]

theorem InBatch.run (h : InBatch sha S ids ctx s) {cs : List (SyncChange × Time)}
    (hcs : ∀ c ∈ cs, c.1.changeId ∈ ids ∧ c.1.payload ∈ S) :
    let next := Reference.arriveAll conv sha true ctx.userId ctx.projectId ctx.role s cs
    InBatch sha S ids (ctx.run conv sha cs) next.1 ∧
      (ctx.answers conv sha cs).map (fun a ↦ a.2.status) = next.2 := by
  induction cs generalizing ctx s with
  | nil => exact ⟨h, rfl⟩
  | cons c cs ih =>
    obtain ⟨hid, hpayload⟩ := hcs c List.mem_cons_self
    obtain ⟨hstep, hanswer⟩ := h.step conv hinj hid hpayload
    obtain ⟨hrun, hanswers⟩ := ih hstep fun d hd ↦ hcs d (List.mem_cons_of_mem c hd)
    obtain ⟨hu, hp, hr, -⟩ := ctx.step_owner conv sha c
    rw [hu, hp, hr] at hrun hanswers
    refine ⟨hrun, ?_⟩
    simp only [PushContext.answers, List.map_cons, hanswer, hanswers]
    rfl

end Step

theorem run_sameAccess (conv : Conv) (sha : Payload → Digest) (ctx : PushContext Digest)
    (cs : List (SyncChange × Time)) :
    SameAccess ctx.db.data (ctx.run conv sha cs).db.data := by
  induction cs generalizing ctx with
  | nil => exact ⟨fun _ _ ↦ rfl, fun _ ↦ rfl⟩
  | cons c cs ih =>
    have hstep : SameAccess ctx.db.data (ctx.step conv sha c).db.data := by
      unfold PushContext.step
      split
      · exact ⟨fun _ _ ↦ rfl, fun _ ↦ rfl⟩
      · exact processNewPushChange_sameAccess conv ctx.db.data ctx.userId ctx.projectId ctx.role
          c.1 c.2
    exact hstep.trans (ih (ctx.step conv sha c))

structure Matches (sha : Payload → Digest) (S : Set Payload) (d₀ : Data) (db : Db Digest)
    (s : Reference Digest) : Prop where
  same : db = s.db
  access : SameAccess d₀ db.data
  linked : Linked sha S s.db.receipts s.arrived

section Run

variable (conv : Conv) {sha : Payload → Digest} {S : Set Payload} (hinj : Set.InjOn sha S)
  {d₀ : Data} {db : Db Digest} {s : Reference Digest}

omit [DecidableEq Digest] in
theorem openPush_eq (db : Db Digest) (userId projectId : Uuid)
    (changes : List (SyncChange × Time)) :
    (openPush db userId projectId changes).toOption =
      (Reference.admitted db.data userId projectId changes).map fun role ↦
        .start db userId projectId role changes := by
  unfold openPush Reference.admitted
  split
  · rfl
  · split
    · rename_i hrole
      simp [hrole, Except.toOption]
    · rename_i role hrole
      simp [hrole, Except.toOption]

omit [DecidableEq Digest] in
theorem Matches.inBatch (h : Matches sha S d₀ db s) (userId projectId : Uuid) (role : Role)
    (changes : List (SyncChange × Time)) :
    InBatch sha S (changes.map fun c ↦ c.1.changeId) (.start db userId projectId role changes)
      { s with held := [] } := by
  refine ⟨h.same, h.linked, fun x hx ↦ ?_⟩
  have hload : loadExistingReceipts db changes x =
      Table.find SyncReceipt.changeId x s.db.receipts := by
    simp only [loadExistingReceipts, hx, if_true, h.same]
  cases ha : s.arrived x with
  | none => exact .fresh (hload.trans (h.linked.absent x ha)) rfl ha List.not_mem_nil
  | some a =>
    obtain ⟨hS, receipt, hfound, hrec⟩ := h.linked.present x a ha
    exact .stored receipt a (hload.trans hfound) ha hrec hS

include hinj

theorem Matches.serve (h : Matches sha S d₀ db s) (e : Event) (hS : ∀ q ∈ e.payloads, q ∈ S) :
    Matches sha S d₀ (serve conv sha db e).1 (Reference.serve conv sha true d₀ s e).1 ∧
      (serve conv sha db e).2 = (Reference.serve conv sha true d₀ s e).2 := by
  cases e with
  | other write =>
    have haccess : SameAccess db.data (write.apply db.data) := ⟨write.role _, write.state _⟩
    exact ⟨⟨by simp [RiskApp.Server.serve, Reference.serve, h.same], h.access.trans haccess,
      h.linked⟩, rfl⟩
  | push userId projectId changes committed =>
    have hadm := h.access.admitted userId projectId changes
    have hopen := openPush_eq db userId projectId changes
    simp only [RiskApp.Server.serve, Reference.serve, pushChanges]
    rw [← hadm]
    cases hrole : Reference.admitted db.data userId projectId changes with
    | none =>
      rw [hrole] at hopen
      cases hpush : openPush db userId projectId changes with
      | ok ctx => simp [hpush, Except.toOption] at hopen
      | error code => exact ⟨h, rfl⟩
    | some role =>
      rw [hrole] at hopen
      cases hpush : openPush db userId projectId changes with
      | error code => simp [hpush, Except.toOption] at hopen
      | ok ctx =>
        have hctx : ctx = .start db userId projectId role changes := by
          simpa [hpush, Except.toOption] using hopen
        cases committed with
        | false => exact ⟨h, rfl⟩
        | true =>
          have hstart := h.inBatch userId projectId role changes
          obtain ⟨hrun, hanswers⟩ := hstart.run conv hinj fun c (hc : c ∈ changes) ↦
            ⟨List.mem_map_of_mem hc, hS _ (List.mem_map_of_mem hc)⟩
          subst hctx
          have haccess := run_sameAccess conv sha (.start db userId projectId role changes) changes
          refine ⟨⟨hrun.db, h.access.trans haccess, hrun.linked⟩, ?_⟩
          have hresults := PushContext.run_results conv sha
            (.start db userId projectId role changes) changes
          simp only [Except.map, if_true, hresults, List.map_append, List.map_map]
          exact congrArg some hanswers

/-- Exactly-once processing: after every run of pushes and other writes, in which any change may
have been sent any number of times, database and answers are those of the server that processes
each change id at its first arrival only. -/
theorem pushes_exactly_once (db : Db Digest) (hreceipts : db.receipts = []) (es : List Event)
    (hS : ∀ e ∈ es, ∀ q ∈ e.payloads, q ∈ S) :
    let reference := Reference.serveAll conv sha true db.data ⟨db, fun _ ↦ none, []⟩ es
    (serveAll conv sha db es).1 = reference.1.db ∧ (serveAll conv sha db es).2 = reference.2 := by
  have hrun : ∀ (es : List Event) (db' : Db Digest) (s : Reference Digest),
      Matches sha S db.data db' s → (∀ e ∈ es, ∀ q ∈ e.payloads, q ∈ S) →
      (serveAll conv sha db' es).1 = (Reference.serveAll conv sha true db.data s es).1.db ∧
        (serveAll conv sha db' es).2 = (Reference.serveAll conv sha true db.data s es).2 := by
    intro es
    induction es with
    | nil => exact fun db' s h _ ↦ ⟨h.same, rfl⟩
    | cons e es ih =>
      intro db' s h hS
      obtain ⟨hnext, hanswer⟩ := h.serve conv hinj e (hS e List.mem_cons_self)
      obtain ⟨hdb, hanswers⟩ := ih _ _ hnext fun f hf ↦ hS f (List.mem_cons_of_mem e hf)
      refine ⟨hdb, ?_⟩
      simp only [serveAll, Reference.serveAll, hanswer, hanswers]
  refine hrun es db ⟨db, fun _ ↦ none, []⟩ ⟨rfl, ⟨fun _ _ ↦ rfl, fun _ ↦ rfl⟩, ?_⟩ hS
  exact ⟨fun x _ ↦ by rw [hreceipts]; rfl, fun x a ha ↦ by cases ha⟩

end Run

section Sample

def createRisk (changeId : Uuid) (fields : List (Attr × Val)) : SyncChange × Time :=
  (⟨changeId, .risk, .upsert, none, Dict.ofList ((.id, .uuid 101) :: fields)⟩, 5)

/-- A null probability fails in the score listener, which is answered as retryable; the same id
then carries a valid record. -/
def correctedRetry : List (SyncChange × Time) :=
  [createRisk 7 [(.title, .str "A"), (.probability, .null)], createRisk 7 [(.title, .str "B")]]

theorem titleDigest_injOn_correctedRetry :
    Set.InjOn titleDigest {q | q ∈ correctedRetry.map fun c ↦ c.1.payload} := by
  intro q hq r hr heq
  simp only [correctedRetry, List.map_cons, List.map_nil, Set.mem_ofPred_eq, List.mem_cons,
    List.not_mem_nil, or_false] at hq hr
  rcases hq with rfl | rfl <;> rcases hr with rfl | rfl
  · rfl
  · exact absurd heq (by decide)
  · exact absurd heq (by decide)
  · rfl

/-- The second arrival is the first one that counts, and is refused all the same. -/
theorem retryable_id_refused_within_batch :
    ¬ ∀ (es : List Event) (S : Set Payload), Set.InjOn titleDigest S →
      (∀ e ∈ es, ∀ q ∈ e.payloads, q ∈ S) →
      (serveAll .strict titleDigest sampleDb es).2 =
        (Reference.serveAll .strict titleDigest false sampleDb.data
          ⟨sampleDb, fun _ ↦ none, []⟩ es).2 := by
  intro h
  have heq := h [.push 10 1 correctedRetry true] _ titleDigest_injOn_correctedRetry
    (by
      intro e he q hq
      rw [List.mem_singleton.mp he] at hq
      exact hq)
  have hserver : (serveAll .strict titleDigest sampleDb [.push 10 1 correctedRetry true]).2 =
      [some [.error, .error]] := by decide
  have hreference : (Reference.serveAll .strict titleDigest false sampleDb.data
      ⟨sampleDb, fun _ ↦ none, []⟩ [.push 10 1 correctedRetry true]).2 =
      [some [.error, .accepted]] := rfl
  rw [hserver, hreference] at heq
  exact absurd heq (by decide)

def replayedRun : List Event :=
  [.push 10 1 [retitle 9 1 "C"] true, .push 10 1 correctedRetry true,
    .push 10 1 [retitle 9 1 "C"] true]

theorem titleDigest_injOn_replayedRun :
    Set.InjOn titleDigest {q | ∃ e ∈ replayedRun, q ∈ e.payloads} := by
  have hpayloads : ∀ q, (∃ e ∈ replayedRun, q ∈ e.payloads) →
      q = (retitle 9 1 "C").1.payload ∨
        q ∈ correctedRetry.map fun c ↦ c.1.payload := by
    rintro q ⟨e, he, hq⟩
    simp only [replayedRun, List.mem_cons, List.not_mem_nil, or_false] at he
    rcases he with rfl | rfl | rfl
    · exact Or.inl (List.mem_singleton.mp hq)
    · exact Or.inr hq
    · exact Or.inl (List.mem_singleton.mp hq)
  have hnew : ∀ q ∈ correctedRetry.map fun c ↦ c.1.payload,
      titleDigest q ≠ titleDigest (retitle 9 1 "C").1.payload := by
    decide
  intro q hq r hr heq
  rcases hpayloads q hq with rfl | hq <;> rcases hpayloads r hr with rfl | hr
  · rfl
  · exact absurd heq.symm (hnew r hr)
  · exact absurd heq (hnew q hq)
  · exact titleDigest_injOn_correctedRetry hq hr heq

theorem pushes_exactly_once_sample :
    let run := serveAll .strict titleDigest sampleDb replayedRun
    run.1 = (Reference.serveAll .strict titleDigest true sampleDb.data
        ⟨sampleDb, fun _ ↦ none, []⟩ replayedRun).1.db ∧
      run.2 = [some [.accepted], some [.error, .error], some [.accepted]] ∧
      run.1.receipts.map SyncReceipt.changeId = [9] ∧ run.1.data.audit.length = 1 :=
  ⟨(pushes_exactly_once .strict titleDigest_injOn_replayedRun sampleDb rfl replayedRun
    fun e he _ hq ↦ ⟨e, he, hq⟩).1, by decide, by decide, by decide⟩

end Sample

end RiskApp.Server
