import Mathlib.Tactic.Set
import RiskApp.Server.Applied
import RiskApp.Server.Engine

namespace RiskApp.Server

open Lib

variable {Digest : Type} [DecidableEq Digest]

theorem rejectPushChange_stored (conv : Conv) (db : Data) (change : SyncChange) (reason : String)
    (detail : Option String) (kind : FailureKind) (retryable : Bool) :
    (rejectPushChange conv db change reason detail kind retryable !retryable).stored =
      !decide ((rejectPushChange conv db change reason detail kind retryable
        !retryable).response.retryable = some true) := by
  cases retryable <;> simp [rejectPushChange]

theorem failedOutcome_stored (conv : Conv) (db : Data) (change : SyncChange) (e : PushError) :
    (failedOutcome conv db change e).stored =
      !decide ((failedOutcome conv db change e).response.retryable = some true) := by
  cases e with
  | conflict => simp [failedOutcome]
  | http code detail => exact rejectPushChange_stored ..
  | integrity => exact rejectPushChange_stored ..
  | unexpected => exact rejectPushChange_stored ..

theorem failedOutcome_data (conv : Conv) (db : Data) (change : SyncChange) (e : PushError) :
    (failedOutcome conv db change e).data = db ∧
      (failedOutcome conv db change e).status ≠ .accepted ∧
      ((failedOutcome conv db change e).response.retryable = some true →
        (failedOutcome conv db change e).status = .error) := by
  cases e <;> simp [failedOutcome, rejectPushChange]

section Outcome

variable (conv : Conv) (db : Data) (userId projectId : Uuid) (role : Role) (change : SyncChange)
  (now : Time)

theorem processNewPushChange_cases :
    let o := processNewPushChange conv db userId projectId role change now
    o = rejectPushChange conv db change "insufficient_permissions" none .permission false true ∨
      (∃ e, o = failedOutcome conv db change e) ∨
      ∃ db' entityId, applyChange conv db userId projectId change now = .ok (db', entityId) ∧
        o = ⟨db', .accepted, some entityId,
          acceptedResponse db' change.entity entityId projectId userId, true⟩ := by
  simp only [processNewPushChange]
  split
  · exact Or.inl rfl
  · split
    · rename_i e _
      exact Or.inr (Or.inl ⟨e, rfl⟩)
    · rename_i db' entityId hok
      exact Or.inr (Or.inr ⟨db', entityId, hok, rfl⟩)

/-- A receipt is stored exactly for the outcomes that must not be retried. -/
theorem processNewPushChange_stored :
    let o := processNewPushChange conv db userId projectId role change now
    o.stored = !decide (o.response.retryable = some true) := by
  intro o
  rcases processNewPushChange_cases conv db userId projectId role change now with
    h | ⟨e, h⟩ | ⟨db', entityId, -, h⟩
  · simp only [o, h]
    exact rejectPushChange_stored conv db change _ none .permission false
  · simp only [o, h]
    exact failedOutcome_stored conv db change e
  · simp [o, h, acceptedResponse]

theorem processNewPushChange_retryable
    (hr : (processNewPushChange conv db userId projectId role change now).response.retryable =
      some true) :
    (processNewPushChange conv db userId projectId role change now).status = .error := by
  rcases processNewPushChange_cases conv db userId projectId role change now with
    h | ⟨e, h⟩ | ⟨db', entityId, -, h⟩
  · rw [h] at hr ⊢
    rfl
  · rw [h] at hr ⊢
    exact (failedOutcome_data conv db change e).2.2 hr
  · rw [h] at hr
    simp [acceptedResponse] at hr

theorem processNewPushChange_failed
    (hs : (processNewPushChange conv db userId projectId role change now).status ≠ .accepted) :
    (processNewPushChange conv db userId projectId role change now).data = db := by
  rcases processNewPushChange_cases conv db userId projectId role change now with
    h | ⟨e, h⟩ | ⟨db', entityId, -, h⟩
  · rw [h]
    rfl
  · rw [h]
    exact (failedOutcome_data conv db change e).1
  · rw [h] at hs
    exact absurd rfl hs

theorem processNewPushChange_accepted
    (hs : (processNewPushChange conv db userId projectId role change now).status = .accepted) :
    ∃ entityId, parseUuid conv "record.id" (change.record.get .id) = .ok entityId ∧
      Applied db userId projectId change entityId
        (processNewPushChange conv db userId projectId role change now).data := by
  rcases processNewPushChange_cases conv db userId projectId role change now with
    h | ⟨e, h⟩ | ⟨db', entityId, hok, h⟩
  · rw [h] at hs
    cases hs
  · rw [h] at hs
    exact absurd hs (failedOutcome_data conv db change e).2.1
  · obtain ⟨hid, happ⟩ := applyChange_ok hok
    rw [h]
    exact ⟨entityId, hid, happ⟩

end Outcome

namespace PushContext

variable (conv : Conv) (sha : Payload → Digest)

def answer (ctx : PushContext Digest) (c : SyncChange × Time) : ChangeResult :=
  if ctx.seen c.1.changeId then ctx.duplicateResult conv sha c.1
  else (ctx.outcome conv c).result c.1

def answers (ctx : PushContext Digest) : List (SyncChange × Time) → List (Uuid × ChangeResult)
  | [] => []
  | c :: cs => (c.1.changeId, ctx.answer conv sha c) :: (ctx.step conv sha c).answers cs

theorem step_results (ctx : PushContext Digest) (c : SyncChange × Time) :
    (ctx.step conv sha c).results = ctx.results ++ [ctx.answer conv sha c] := by
  unfold step answer
  split <;> rfl

theorem run_results (ctx : PushContext Digest) (cs : List (SyncChange × Time)) :
    (ctx.run conv sha cs).results = ctx.results ++ (ctx.answers conv sha cs).map Prod.snd := by
  induction cs generalizing ctx with
  | nil => simp [run, answers]
  | cons c cs ih =>
    have h := ih (ctx.step conv sha c)
    rw [step_results, List.append_assoc] at h
    exact h

theorem step_of_seen {ctx : PushContext Digest} {c : SyncChange × Time}
    (h : ctx.seen c.1.changeId = true) :
    ctx.step conv sha c = ctx.recordDuplicate conv sha c.1 := by
  simp [step, h]

theorem step_of_new {ctx : PushContext Digest} {c : SyncChange × Time}
    (h : ¬ ctx.seen c.1.changeId = true) : ctx.step conv sha c = ctx.recordNew conv sha c := by
  simp [step, h]

@[simp] theorem step_owner (ctx : PushContext Digest) (c : SyncChange × Time) :
    (ctx.step conv sha c).userId = ctx.userId ∧ (ctx.step conv sha c).projectId = ctx.projectId ∧
      (ctx.step conv sha c).role = ctx.role ∧
      (ctx.step conv sha c).existingReceipts = ctx.existingReceipts := by
  unfold step
  split <;> exact ⟨rfl, rfl, rfl, rfl⟩

theorem step_batchResults (ctx : PushContext Digest) (c : SyncChange × Time) {x : Uuid}
    (h : x ≠ c.1.changeId) : (ctx.step conv sha c).batchResults x = ctx.batchResults x := by
  unfold step
  split
  · rfl
  · simp [recordNew, Function.update_of_ne h]

theorem step_batchHashes (ctx : PushContext Digest) (c : SyncChange × Time) {x : Uuid}
    (h : x ≠ c.1.changeId) : (ctx.step conv sha c).batchHashes x = ctx.batchHashes x := by
  unfold step
  split
  · rfl
  · simp [recordNew, Function.update_of_ne h]

theorem seen_step {ctx : PushContext Digest} (c : SyncChange × Time) {x : Uuid}
    (h : ctx.seen x = true ∨ x = c.1.changeId) : (ctx.step conv sha c).seen x = true := by
  by_cases hs : ctx.seen c.1.changeId = true
  · rw [step_of_seen conv sha hs]
    rcases h with h | rfl
    · exact h
    · exact hs
  · rw [step_of_new conv sha hs]
    by_cases hx : x = c.1.changeId
    · simp [recordNew, seen, hx]
    · have hseen := h.resolve_right hx
      simpa [recordNew, seen, Function.update_of_ne hx] using hseen

theorem seen_run {ctx : PushContext Digest} (cs : List (SyncChange × Time)) {x : Uuid}
    (h : ctx.seen x = true) : (ctx.run conv sha cs).seen x = true := by
  induction cs generalizing ctx with
  | nil => exact h
  | cons c cs ih => exact ih (ctx.seen_step conv sha c (Or.inl h))

/-- Two runs of the loop that can differ only in what they know of one change id. -/
structure Agree (x : Uuid) (a b : PushContext Digest) : Prop where
  data : a.db.data = b.db.data
  userId : a.userId = b.userId
  projectId : a.projectId = b.projectId
  role : a.role = b.role
  existing : ∀ y, y ≠ x → a.existingReceipts y = b.existingReceipts y
  results : ∀ y, y ≠ x → a.batchResults y = b.batchResults y
  hashes : ∀ y, y ≠ x → a.batchHashes y = b.batchHashes y

omit [DecidableEq Digest] in
theorem Agree.seen {x y : Uuid} {a b : PushContext Digest} (h : Agree x a b) (hy : y ≠ x) :
    a.seen y = b.seen y := by
  simp [PushContext.seen, h.existing y hy, h.hashes y hy]

theorem Agree.duplicateResult {x : Uuid} {a b : PushContext Digest} (h : Agree x a b)
    {change : SyncChange} (hc : change.changeId ≠ x) :
    a.duplicateResult conv sha change = b.duplicateResult conv sha change := by
  simp only [PushContext.duplicateResult, h.existing _ hc, h.results _ hc, h.hashes _ hc,
    h.userId, h.projectId, h.data]

theorem Agree.answer {x : Uuid} {a b : PushContext Digest} (h : Agree x a b)
    {c : SyncChange × Time} (hc : c.1.changeId ≠ x) :
    a.answer conv sha c = b.answer conv sha c := by
  simp only [PushContext.answer, h.seen hc, h.duplicateResult conv sha hc, outcome, h.data,
    h.userId, h.projectId, h.role]

theorem Agree.step {x : Uuid} {a b : PushContext Digest} (h : Agree x a b)
    {c : SyncChange × Time} (hc : c.1.changeId ≠ x) :
    Agree x (a.step conv sha c) (b.step conv sha c) := by
  have hseen := h.seen hc
  by_cases hs : a.seen c.1.changeId = true
  · rw [step_of_seen conv sha hs, step_of_seen conv sha (c := c) (hseen ▸ hs)]
    exact ⟨h.data, h.userId, h.projectId, h.role, h.existing, h.results, h.hashes⟩
  · have hs' : ¬ b.seen c.1.changeId = true := hseen ▸ hs
    have hupdate : ∀ {β : Type} (f g : Uuid → β) (v : β), (∀ y, y ≠ x → f y = g y) →
        ∀ y, y ≠ x → Function.update f c.1.changeId v y = Function.update g c.1.changeId v y := by
      intro β f g v hfg y hy
      by_cases he : y = c.1.changeId
      · simp [he]
      · simp [Function.update_of_ne he, hfg y hy]
    have hout : a.outcome conv c = b.outcome conv c := by
      simp only [outcome, h.data, h.userId, h.projectId, h.role]
    rw [step_of_new conv sha hs, step_of_new conv sha hs']
    refine ⟨?_, h.userId, h.projectId, h.role, h.existing, ?_, ?_⟩
    · simp only [recordNew, hout]
    · simp only [recordNew, hout]
      exact hupdate _ _ _ h.results
    · exact hupdate _ _ _ h.hashes

theorem Agree.run {x : Uuid} {a b : PushContext Digest} (h : Agree x a b)
    {cs : List (SyncChange × Time)} (hcs : ∀ c ∈ cs, c.1.changeId ≠ x) :
    Agree x (a.run conv sha cs) (b.run conv sha cs) ∧
      a.answers conv sha cs = b.answers conv sha cs := by
  induction cs generalizing a b with
  | nil => exact ⟨h, rfl⟩
  | cons c cs ih =>
    have hc := hcs c List.mem_cons_self
    obtain ⟨hrun, hans⟩ := ih (h.step conv sha hc) fun d hd ↦ hcs d (List.mem_cons_of_mem c hd)
    refine ⟨hrun, ?_⟩
    simp only [answers, h.answer conv sha hc, hans]

def others (x : Uuid) (cs : List (SyncChange × Time)) : List (SyncChange × Time) :=
  cs.filter (fun d ↦ d.1.changeId ≠ x)

/-- Once an id has been seen, its repeats can be left out of the rest of the batch. -/
theorem Agree.run_others {x : Uuid} {a b : PushContext Digest} (h : Agree x a b)
    (hx : a.seen x = true) (cs : List (SyncChange × Time)) :
    Agree x (a.run conv sha cs) (b.run conv sha (others x cs)) ∧
      (a.answers conv sha cs).filter (fun r ↦ r.1 ≠ x) = b.answers conv sha (others x cs) := by
  induction cs generalizing a b with
  | nil => exact ⟨h, rfl⟩
  | cons c cs ih =>
    by_cases hc : c.1.changeId = x
    · have hseen : a.seen c.1.changeId = true := hc ▸ hx
      have hstep : Agree x (a.step conv sha c) b := by
        rw [step_of_seen conv sha hseen]
        exact ⟨h.data, h.userId, h.projectId, h.role, h.existing, h.results, h.hashes⟩
      obtain ⟨hrun, hans⟩ := ih hstep (a.seen_step conv sha c (Or.inl hx))
      have hothers : others x (c :: cs) = others x cs := by simp [others, hc]
      rw [hothers]
      exact ⟨hrun, by simpa [answers, hc] using hans⟩
    · obtain ⟨hrun, hans⟩ := ih (h.step conv sha hc) (a.seen_step conv sha c (Or.inl hx))
      have hothers : others x (c :: cs) = c :: others x cs := by simp [others, hc]
      rw [hothers]
      refine ⟨hrun, ?_⟩
      simpa [answers, hc, h.answer conv sha hc] using hans

theorem run_append (ctx : PushContext Digest) (cs ds : List (SyncChange × Time)) :
    ctx.run conv sha (cs ++ ds) = (ctx.run conv sha cs).run conv sha ds :=
  List.foldl_append

theorem answers_append (ctx : PushContext Digest) (cs ds : List (SyncChange × Time)) :
    ctx.answers conv sha (cs ++ ds) =
      ctx.answers conv sha cs ++ (ctx.run conv sha cs).answers conv sha ds := by
  induction cs generalizing ctx with
  | nil => rfl
  | cons c cs ih =>
    have h := ih (ctx.step conv sha c)
    simp only [List.cons_append, answers, h]
    rfl

theorem run_owner (ctx : PushContext Digest) (cs : List (SyncChange × Time)) :
    (ctx.run conv sha cs).userId = ctx.userId ∧ (ctx.run conv sha cs).projectId = ctx.projectId ∧
      (ctx.run conv sha cs).role = ctx.role ∧
      (ctx.run conv sha cs).existingReceipts = ctx.existingReceipts := by
  induction cs generalizing ctx with
  | nil => exact ⟨rfl, rfl, rfl, rfl⟩
  | cons c cs ih =>
    obtain ⟨hu, hp, hr, he⟩ := ctx.step_owner conv sha c
    obtain ⟨hu', hp', hr', he'⟩ := ih (ctx.step conv sha c)
    exact ⟨hu'.trans hu, hp'.trans hp, hr'.trans hr, he'.trans he⟩

theorem step_not_accepted {ctx : PushContext Digest} {c : SyncChange × Time}
    (h : (ctx.answer conv sha c).status ≠ .accepted) :
    (ctx.step conv sha c).db.data = ctx.db.data ∧
      ((ctx.step conv sha c).db.receipts = ctx.db.receipts ∨
        (ctx.answer conv sha c).body.retryable ≠ some true ∧ ∃ receipt : SyncReceipt Digest,
          receipt.changeId = c.1.changeId ∧
            (ctx.step conv sha c).db.receipts = ctx.db.receipts ++ [receipt]) := by
  by_cases hs : ctx.seen c.1.changeId = true
  · rw [step_of_seen conv sha hs]
    exact ⟨rfl, Or.inl rfl⟩
  · simp only [answer, hs] at h ⊢
    rw [step_of_new conv sha hs]
    refine ⟨processNewPushChange_failed _ _ _ _ _ _ _ h, ?_⟩
    have hstored := processNewPushChange_stored conv ctx.db.data ctx.userId ctx.projectId ctx.role
      c.1 c.2
    cases hst : (ctx.outcome conv c).stored with
    | false =>
      left
      simp [recordNew, Outcome.receipts, hst]
    | true =>
      right
      refine ⟨?_, (ctx.outcome conv c).receipt sha ctx.userId ctx.projectId c.1 c.2, rfl, ?_⟩
      · have hretry : ¬ (processNewPushChange conv ctx.db.data ctx.userId ctx.projectId ctx.role
            c.1 c.2).response.retryable = some true := by
          simpa using hstored.symm.trans hst
        exact hretry
      · simp [recordNew, Outcome.receipts, hst]

theorem step_accepted {ctx : PushContext Digest} {c : SyncChange × Time}
    (h : (ctx.answer conv sha c).status = .accepted) :
    (ctx.seen c.1.changeId = true ∧ (ctx.step conv sha c).db = ctx.db) ∨
      ∃ entityId, parseUuid conv "record.id" (c.1.record.get .id) = .ok entityId ∧
        Applied ctx.db.data ctx.userId ctx.projectId c.1 entityId
        (ctx.step conv sha c).db.data := by
  by_cases hs : ctx.seen c.1.changeId = true
  · left
    rw [step_of_seen conv sha hs]
    exact ⟨hs, rfl⟩
  · right
    simp only [answer, hs] at h
    rw [step_of_new conv sha hs]
    exact processNewPushChange_accepted conv ctx.db.data ctx.userId ctx.projectId ctx.role c.1 c.2 h

end PushContext

section Batch

variable (conv : Conv) (sha : Payload → Digest) {db : Db Digest} {userId projectId : Uuid}
  {changes changes' : List (SyncChange × Time)} {ctx ctx' : PushContext Digest}

omit [DecidableEq Digest] in
theorem openPush_ok (h : openPush db userId projectId changes = .ok ctx) :
    (changes = [] ∨ (db.data.lastSequence projectId).isSome) ∧
      ∃ role, db.data.getMemberRole projectId userId = some role ∧
        ctx = .start db userId projectId role changes := by
  unfold openPush at h
  split at h
  · cases h
  · rename_i hstate
    split at h
    · cases h
    · rename_i role hrole
      cases h
      refine ⟨?_, role, hrole, rfl⟩
      by_cases he : changes = []
      · exact Or.inl he
      · right
        rw [Option.isSome_iff_ne_none]
        exact fun hnone ↦ hstate ⟨he, Option.isNone_iff_eq_none.mpr hnone⟩

omit [DecidableEq Digest] in
theorem openPush_subset (h : openPush db userId projectId changes = .ok ctx)
    (hsub : ∀ c ∈ changes', c ∈ changes) :
    ∃ role, openPush db userId projectId changes' =
      .ok (.start db userId projectId role changes') := by
  obtain ⟨hstate, role, hrole, rfl⟩ := openPush_ok h
  have hpass : ¬ (changes' ≠ [] ∧ (db.data.lastSequence projectId).isNone) := by
    rintro ⟨hne, hnone⟩
    obtain ⟨c, hc⟩ := List.exists_mem_of_ne_nil _ hne
    rcases hstate with rfl | hsome
    · exact absurd (hsub c hc) List.not_mem_nil
    · rw [Option.isNone_iff_eq_none.mp hnone] at hsome
      cases hsome
  exact ⟨role, by simp only [openPush, if_neg hpass, hrole]⟩

omit [DecidableEq Digest] in
theorem loadExistingReceipts_congr (y : Uuid)
    (h : y ∈ changes.map (fun c ↦ c.1.changeId) ↔ y ∈ changes'.map (fun c ↦ c.1.changeId)) :
    loadExistingReceipts db changes y = loadExistingReceipts db changes' y := by
  simp only [loadExistingReceipts, h]

/-- Leaving out a later change and its repeats does not change how the batch before it runs. -/
theorem agree_prefix {pre post : List (SyncChange × Time)} (c : SyncChange × Time)
    (h : openPush db userId projectId (pre ++ c :: post) = .ok ctx)
    (h' : openPush db userId projectId (pre ++ PushContext.others c.1.changeId post) = .ok ctx') :
    PushContext.Agree c.1.changeId (ctx.run conv sha pre) (ctx'.run conv sha pre) ∧
      ctx.answers conv sha pre = ctx'.answers conv sha pre := by
  obtain ⟨-, role, hrole, rfl⟩ := openPush_ok h
  obtain ⟨-, role', hrole', rfl⟩ := openPush_ok h'
  obtain rfl : role = role' := Option.some.inj (hrole.symm.trans hrole')
  have hoff : ∀ y, y ≠ c.1.changeId → loadExistingReceipts db (pre ++ c :: post) y =
      loadExistingReceipts db (pre ++ PushContext.others c.1.changeId post) y := by
    intro y hy
    apply loadExistingReceipts_congr
    simp only [List.map_append, List.mem_append, List.map_cons, List.mem_cons, hy, false_or,
      PushContext.others, List.mem_map, List.mem_filter]
    refine or_congr_right (exists_congr fun d ↦ ?_)
    constructor
    · rintro ⟨hd, rfl⟩
      exact ⟨⟨hd, by simpa using hy⟩, rfl⟩
    · rintro ⟨⟨hd, -⟩, rfl⟩
      exact ⟨hd, rfl⟩
  by_cases hmem : c.1.changeId ∈ pre.map (fun d ↦ d.1.changeId)
  · have hall : loadExistingReceipts db (pre ++ c :: post) =
        loadExistingReceipts db (pre ++ PushContext.others c.1.changeId post) := by
      funext y
      by_cases hy : y = c.1.changeId
      · subst hy
        apply loadExistingReceipts_congr
        simp [hmem]
      · exact hoff y hy
    have hstart : PushContext.start db userId projectId role (pre ++ c :: post) =
        .start db userId projectId role (pre ++ PushContext.others c.1.changeId post) := by
      simp only [PushContext.start, hall]
    rw [hstart]
    exact ⟨⟨rfl, rfl, rfl, rfl, fun _ _ ↦ rfl, fun _ _ ↦ rfl, fun _ _ ↦ rfl⟩, rfl⟩
  · have hstart : PushContext.Agree c.1.changeId
        (.start db userId projectId role (pre ++ c :: post))
        (.start db userId projectId role (pre ++ PushContext.others c.1.changeId post)) :=
      ⟨rfl, rfl, rfl, rfl, hoff, fun _ _ ↦ rfl, fun _ _ ↦ rfl⟩
    refine hstart.run conv sha fun d hd he ↦ hmem ?_
    exact he ▸ List.mem_map_of_mem hd

/-- Per-change atomicity of a push. -/
theorem push_changes_atomic {pre post : List (SyncChange × Time)} {c : SyncChange × Time}
    (h : openPush db userId projectId (pre ++ c :: post) = .ok ctx) :
    let before := ctx.run conv sha pre
    let after := before.step conv sha c
    let r := before.answer conv sha c
    (r.status = .accepted →
      (before.seen c.1.changeId = true ∧ after.db = before.db) ∨
        ∃ entityId, parseUuid conv "record.id" (c.1.record.get .id) = .ok entityId ∧
          Applied before.db.data userId projectId c.1 entityId after.db.data) ∧
    (r.status ≠ .accepted →
      after.db.data = before.db.data ∧
      (after.db.receipts = before.db.receipts ∨
        r.body.retryable ≠ some true ∧ ∃ receipt : SyncReceipt Digest,
          receipt.changeId = c.1.changeId ∧
            after.db.receipts = before.db.receipts ++ [receipt]) ∧
      ∃ without, openPush db userId projectId
          (pre ++ PushContext.others c.1.changeId post) = .ok without ∧
        (ctx.run conv sha (pre ++ c :: post)).db.data =
          (without.run conv sha (pre ++ PushContext.others c.1.changeId post)).db.data ∧
        (after.answers conv sha post).filter (fun a ↦ a.1 ≠ c.1.changeId) =
          (without.run conv sha pre).answers conv sha (PushContext.others c.1.changeId post)) ∧
    ∀ mid d rest, post = mid ++ d :: rest → d.1.changeId = c.1.changeId →
      ((after.run conv sha mid).step conv sha d).db = (after.run conv sha mid).db := by
  intro before after r
  have howner : before.userId = userId ∧ before.projectId = projectId := by
    obtain ⟨-, role, -, rfl⟩ := openPush_ok h
    have hrun := PushContext.run_owner conv sha
      (.start db userId projectId role (pre ++ c :: post)) pre
    exact ⟨hrun.1, hrun.2.1⟩
  have hseen : after.seen c.1.changeId = true := before.seen_step conv sha c (Or.inr rfl)
  refine ⟨fun hacc ↦ ?_, fun hrej ↦ ?_, fun mid d rest _ hd ↦ ?_⟩
  · rw [← howner.1, ← howner.2]
    exact PushContext.step_accepted conv sha hacc
  · obtain ⟨hdata, hreceipts⟩ := PushContext.step_not_accepted conv sha hrej
    refine ⟨hdata, hreceipts, ?_⟩
    have hsub : ∀ d ∈ pre ++ PushContext.others c.1.changeId post, d ∈ pre ++ c :: post := by
      intro d hd
      rcases List.mem_append.mp hd with hd | hd
      · exact List.mem_append_left _ hd
      · exact List.mem_append_right _ (List.mem_cons_of_mem _ (List.mem_of_mem_filter hd))
    obtain ⟨role, hopen⟩ := openPush_subset h hsub
    refine ⟨_, hopen, ?_⟩
    obtain ⟨hagree, -⟩ := agree_prefix conv sha c h hopen
    set without := PushContext.start db userId projectId role
      (pre ++ PushContext.others c.1.changeId post)
    have hskip : PushContext.Agree c.1.changeId after (without.run conv sha pre) := by
      have hfields := before.step_owner conv sha c
      refine ⟨hdata.trans hagree.data, hfields.1.trans hagree.userId,
        hfields.2.1.trans hagree.projectId, hfields.2.2.1.trans hagree.role,
        fun y hy ↦ (congrFun hfields.2.2.2 y).trans (hagree.existing y hy), fun y hy ↦ ?_,
        fun y hy ↦ ?_⟩
      · exact (before.step_batchResults conv sha c hy).trans (hagree.results y hy)
      · exact (before.step_batchHashes conv sha c hy).trans (hagree.hashes y hy)
    obtain ⟨hrun, hans⟩ := hskip.run_others conv sha hseen post
    refine ⟨?_, hans⟩
    rw [PushContext.run_append, PushContext.run_append]
    exact hrun.data
  · have hmid : (after.run conv sha mid).seen d.1.changeId = true :=
      hd ▸ after.seen_run conv sha mid hseen
    rw [PushContext.step_of_seen conv sha hmid]
    rfl

end Batch

section Sample

def sampleRisk : Row :=
  ⟨.items, 100, 1, 1, Dict.get (Dict.ofList [(.projectId, .uuid 1), (.type, .str "risk"),
    (.title, .str "Risk"), (.probability, .int 1), (.impact, .int 1), (.score, .int 1),
    (.status, .str "concept"), (.isDeleted, .bool false), (.createdBy, .uuid 10),
    (.createdAt, .time 0), (.updatedAt, .time 0), (.identifiedAt, .time 0),
    (.statusChangedAt, .time 0)])⟩

def sampleDb : Db Val :=
  ⟨⟨[sampleRisk], [], fun p ↦ if p = 1 then some 1 else none,
    fun p u ↦ if p = 1 ∧ u = 10 then some .manager else none, [], [10]⟩, []⟩

def retitle (changeId : Uuid) (baseVersion : ℤ) (title : String) : SyncChange × Time :=
  (⟨changeId, .risk, .upsert, some baseVersion,
    Dict.ofList [(.id, .uuid 100), (.title, .str title)]⟩, 5)

def titleDigest (payload : Payload) : Val := payload.record.get .title

/-- The second arrival of change 7 is answered with the conflict of its first, although change 8
has meanwhile brought the risk to the version it was based on. -/
theorem repeat_of_failed_change_replayed :
    ¬ ∀ (pre post : List (SyncChange × Time)) (c : SyncChange × Time)
      (ctx without : PushContext Val),
      openPush sampleDb 10 1 (pre ++ c :: post) = .ok ctx →
      openPush sampleDb 10 1 (pre ++ post) = .ok without →
      ((ctx.run .strict titleDigest pre).answer .strict titleDigest c).status ≠ .accepted →
      ((ctx.run .strict titleDigest pre).step .strict titleDigest c).answers .strict titleDigest
          post =
        (without.run .strict titleDigest pre).answers .strict titleDigest post := by
  intro h
  have heq := h [] [retitle 8 1 "B", retitle 7 2 "A"] (retitle 7 2 "A") _ _ rfl rfl (by decide)
  have hstatus := congrArg (List.map fun a ↦ a.2.status) heq
  exact absurd hstatus (by decide)

theorem push_changes_atomic_sample :
    ∃ ctx : PushContext Val,
      openPush sampleDb 10 1 ([retitle 8 1 "B"] ++ retitle 7 1 "A" :: [retitle 9 2 "C"]) = .ok ctx ∧
      (((ctx.run .strict titleDigest [retitle 8 1 "B"]).step .strict titleDigest
          (retitle 7 1 "A")).db.data =
        (ctx.run .strict titleDigest [retitle 8 1 "B"]).db.data) := by
  have hopen : openPush sampleDb 10 1
      ([retitle 8 1 "B"] ++ retitle 7 1 "A" :: [retitle 9 2 "C"]) = .ok _ := rfl
  exact ⟨_, hopen, ((push_changes_atomic .strict titleDigest hopen).2.1 (by decide)).1⟩

end Sample

end RiskApp.Server
