import RiskApp.Server.Failures
import RiskApp.Server.Session

namespace RiskApp.Server

open Lib Lib.Result

def PushError.Final : PushError → Prop
  | .http statusCode _ => (classifyHttpFailure statusCode).2 = false
  | _ => True

section Final

variable (conv : Conv) (d : Data)

theorem checkBaseVersion_final (r : Row) (baseVersion : Option ℤ) (entityId : Uuid)
    (record : Dict) : Raises PushError.Final (checkBaseVersion r baseVersion entityId record) := by
  unfold checkBaseVersion
  simp only
  split
  · exact .error trivial
  · split
    · exact .error trivial
    · split
      · exact .error trivial
      · exact .ok _

theorem claimExisting_final (r : Row) (entity : Entity) (entityId projectId userId : Uuid)
    (baseVersion : Option ℤ) (now : Time) :
    Raises PushError.Final
      (claimExisting d r entity entityId projectId userId baseVersion now) := by
  unfold claimExisting
  refine .bind (.require _ trivial) fun _ ↦ .bind (.require _ rfl) fun _ ↦
    .bind (checkBaseVersion_final _ _ _ _) fun _ ↦ ?_
  unfold claimBaseVersion
  split
  · exact .ok _
  · exact .error trivial

theorem applyChange_final (userId projectId : Uuid) (change : SyncChange) (now : Time) :
    Raises PushError.Final (applyChange conv d userId projectId change now) := by
  refine applyChange_raises (fun e he ↦ ?_) fun r entityId _ ↦
    claimExisting_final d r _ entityId _ _ _ _
  cases e with
  | http statusCode detail =>
    obtain rfl : statusCode = 400 := he
    rfl
  | _ => trivial

theorem processNewPushChange_unstored {userId projectId : Uuid} {role : Role}
    {change : SyncChange} {now : Time}
    (h : (processNewPushChange conv d userId projectId role change now).stored = false) :
    (processNewPushChange conv d userId projectId role change now).response.reason =
      some "internal_error" := by
  unfold processNewPushChange at h ⊢
  split at h
  · cases h
  · rename_i hrank
    simp only [hrank, if_false]
    split at h
    · rename_i e he
      have hfinal := applyChange_final conv d userId projectId change now e he
      cases e with
      | conflict => cases h
      | http statusCode detail =>
        simp only [PushError.Final] at hfinal
        simp [failedOutcome, rejectPushChange, hfinal] at h
      | integrity => cases h
      | unexpected => simp [failedOutcome, rejectPushChange]
    · cases h

end Final

section Cut

variable {Digest : Type} [DecidableEq Digest] (conv : Conv) (sha : Payload → Digest)

omit [DecidableEq Digest] in
theorem receiptResult_receipt (o : Outcome) (userId projectId : Uuid) (c : SyncChange × Time) :
    receiptResult (o.receipt sha userId projectId c.1 c.2) =
      { o.result c.1 with replayed := true } := rfl

/-- The receipt of a change that this user pushed to this project, and the result it replays. -/
structure Remembers (ctx : PushContext Digest) (x : Uuid)
    (receipt : SyncReceipt Digest) : Prop where
  user : receipt.userId = ctx.userId
  project : receipt.projectId = ctx.projectId
  hash : receipt.payloadHash = ctx.batchHashes x
  hashed : (ctx.batchHashes x).isSome
  result : ctx.batchResults x = some { receiptResult receipt with replayed := false }

/-- What the batch knows of an id that had no receipt when it began. -/
inductive Recorded (ctx : PushContext Digest) (x : Uuid) : Prop
  | fresh (hash : ctx.batchHashes x = none) (result : ctx.batchResults x = none)
      (receipt : Table.find SyncReceipt.changeId x ctx.db.receipts = none)
  | stored (receipt : SyncReceipt Digest)
      (found : Table.find SyncReceipt.changeId x ctx.db.receipts = some receipt)
      (remembers : Remembers ctx x receipt)

theorem Recorded.step {ctx : PushContext Digest} {x : Uuid} {c : SyncChange × Time}
    (h : Recorded ctx x) (he : ctx.existingReceipts x = none)
    (hc : (ctx.answer conv sha c).body.reason ≠ some "internal_error") :
    Recorded (ctx.step conv sha c) x := by
  by_cases hs : ctx.seen c.1.changeId = true
  · rw [PushContext.step_of_seen conv sha hs]
    cases h with
    | fresh hash result receipt => exact .fresh hash result receipt
    | stored receipt found remembers =>
      exact .stored receipt found ⟨remembers.user, remembers.project, remembers.hash,
        remembers.hashed, remembers.result⟩
  · simp only [PushContext.answer, hs] at hc
    rw [PushContext.step_of_new conv sha hs]
    have hstored : (ctx.outcome conv c).stored = true := by
      by_contra hn
      have hfalse : (ctx.outcome conv c).stored = false := by simpa using hn
      exact hc (processNewPushChange_unstored conv _ hfalse)
    by_cases hx : x = c.1.changeId
    · subst hx
      have hnone : Table.find SyncReceipt.changeId c.1.changeId ctx.db.receipts = none := by
        cases h with
        | fresh hash result receipt => exact receipt
        | stored receipt found remembers =>
          simp [PushContext.seen, remembers.hashed] at hs
      refine .stored ((ctx.outcome conv c).receipt sha ctx.userId ctx.projectId c.1 c.2) ?_
        ⟨rfl, rfl, ?_, ?_, ?_⟩
      · simp only [PushContext.recordNew, Outcome.receipts, hstored, if_true]
        rw [Table.find_append, Table.find_singleton, hnone]
        exact if_pos rfl
      · simp [PushContext.recordNew, Outcome.receipt]
      · simp [PushContext.recordNew]
      · simp only [PushContext.recordNew, Function.update_self, receiptResult_receipt]
        rfl
    · have hfind : Table.find SyncReceipt.changeId x (ctx.recordNew conv sha c).db.receipts =
          Table.find SyncReceipt.changeId x ctx.db.receipts := by
        simp only [PushContext.recordNew, Outcome.receipts, hstored, if_true]
        rw [Table.find_append, Table.find_singleton, if_neg (fun h ↦ hx h.symm), Option.or_none]
      have hhash : (ctx.recordNew conv sha c).batchHashes x = ctx.batchHashes x := by
        simp [PushContext.recordNew, Function.update_of_ne hx]
      have hresult : (ctx.recordNew conv sha c).batchResults x = ctx.batchResults x := by
        simp [PushContext.recordNew, Function.update_of_ne hx]
      cases h with
      | fresh hash result receipt =>
        exact .fresh (hhash.trans hash) (hresult.trans result) (hfind.trans receipt)
      | stored receipt found remembers =>
        exact .stored receipt (hfind.trans found) ⟨remembers.user, remembers.project,
          remembers.hash.trans hhash.symm, hhash ▸ remembers.hashed,
          hresult.trans remembers.result⟩

theorem Recorded.run {ctx : PushContext Digest} {x : Uuid} {cs : List (SyncChange × Time)}
    (h : Recorded ctx x) (he : ctx.existingReceipts x = none)
    (hcs : ∀ a ∈ ctx.answers conv sha cs, a.2.body.reason ≠ some "internal_error") :
    Recorded (ctx.run conv sha cs) x := by
  induction cs generalizing ctx with
  | nil => exact h
  | cons c cs ih =>
    have hstep := h.step conv sha he (hcs _ List.mem_cons_self)
    obtain ⟨-, -, -, hexisting⟩ := PushContext.step_owner conv sha ctx c
    exact ih hstep (by rw [hexisting, he]) fun a ha ↦ hcs a (List.mem_cons_of_mem _ ha)

theorem find_receipt_run {ctx : PushContext Digest} {x : Uuid} {receipt : SyncReceipt Digest}
    (cs : List (SyncChange × Time))
    (h : Table.find SyncReceipt.changeId x ctx.db.receipts = some receipt) :
    Table.find SyncReceipt.changeId x (ctx.run conv sha cs).db.receipts = some receipt := by
  induction cs generalizing ctx with
  | nil => exact h
  | cons c cs ih =>
    suffices hnext : Table.find SyncReceipt.changeId x (ctx.step conv sha c).db.receipts =
        some receipt from ih hnext
    by_cases hs : ctx.seen c.1.changeId = true
    · rw [PushContext.step_of_seen conv sha hs]
      exact h
    · rw [PushContext.step_of_new conv sha hs]
      simp only [PushContext.recordNew]
      rw [Table.find_append, h]
      rfl

/-- What one long batch and a second batch after a first know of an id. -/
inductive Knows (ctx ctx' : PushContext Digest) (x : Uuid) : Prop
  | existing (receipt : SyncReceipt Digest) (long : ctx.existingReceipts x = some receipt)
      (second : ctx'.existingReceipts x = some receipt)
  | resumed (receipt : SyncReceipt Digest) (long : ctx.existingReceipts x = none)
      (second : ctx'.existingReceipts x = some receipt) (remembers : Remembers ctx x receipt)
  | batch (long : ctx.existingReceipts x = none) (second : ctx'.existingReceipts x = none)
      (hash : ctx'.batchHashes x = ctx.batchHashes x)
      (result : ctx'.batchResults x = ctx.batchResults x)

/-- The two batches stand at the same change. -/
structure Resumes (ids : List Uuid) (ctx ctx' : PushContext Digest) : Prop where
  db : ctx'.db = ctx.db
  user : ctx'.userId = ctx.userId
  project : ctx'.projectId = ctx.projectId
  role : ctx'.role = ctx.role
  knows : ∀ x ∈ ids, Knows ctx ctx' x

namespace Resumes

variable {ids : List Uuid} {ctx ctx' : PushContext Digest}

omit [DecidableEq Digest] in
theorem seen (h : Resumes ids ctx ctx') {x : Uuid} (hx : x ∈ ids) : ctx'.seen x = ctx.seen x := by
  unfold PushContext.seen
  cases h.knows x hx with
  | existing receipt long second => simp [long, second]
  | resumed receipt long second remembers => simp [long, second, remembers.hashed]
  | batch long second hash result => simp [long, second, hash]

theorem duplicateResult (h : Resumes ids ctx ctx') {change : SyncChange}
    (hx : change.changeId ∈ ids) :
    ctx'.duplicateResult conv sha change = ctx.duplicateResult conv sha change := by
  unfold PushContext.duplicateResult
  rw [h.db, h.user, h.project]
  cases h.knows change.changeId hx with
  | existing receipt long second => simp only [long, second, duplicateErrorReason]
  | batch long second hash result => simp only [long, second, hash, result]
  | resumed receipt long second remembers =>
    obtain ⟨hash, hhash⟩ := Option.isSome_iff_exists.mp remembers.hashed
    have hreason : duplicateErrorReason sha change (some receipt)
        (ctx'.batchHashes change.changeId) ctx.userId ctx.projectId =
        duplicateErrorReason sha change none (ctx.batchHashes change.changeId) ctx.userId
          ctx.projectId := by
      simp only [duplicateErrorReason, remembers.user, remembers.project, remembers.hash, hhash]
      by_cases hsame : hash = sha change.payload <;> simp [hsame]
    simp only [long, second, hreason, remembers.result]
    rfl

theorem answer (h : Resumes ids ctx ctx') {c : SyncChange × Time} (hx : c.1.changeId ∈ ids) :
    ctx'.answer conv sha c = ctx.answer conv sha c := by
  unfold PushContext.answer
  rw [h.seen hx, h.duplicateResult conv sha hx]
  unfold PushContext.outcome
  rw [h.db, h.user, h.project, h.role]

theorem step (h : Resumes ids ctx ctx') {c : SyncChange × Time} (hx : c.1.changeId ∈ ids) :
    Resumes ids (ctx.step conv sha c) (ctx'.step conv sha c) := by
  have hseen := h.seen hx
  by_cases hs : ctx.seen c.1.changeId = true
  · rw [PushContext.step_of_seen conv sha hs, PushContext.step_of_seen conv sha (hseen.trans hs)]
    refine ⟨h.db, h.user, h.project, h.role, fun x hx ↦ ?_⟩
    cases h.knows x hx with
    | existing receipt long second => exact .existing receipt long second
    | resumed receipt long second remembers =>
      exact .resumed receipt long second ⟨remembers.user, remembers.project, remembers.hash,
        remembers.hashed, remembers.result⟩
    | batch long second hash result => exact .batch long second hash result
  · rw [PushContext.step_of_new conv sha hs, PushContext.step_of_new conv sha (hseen ▸ hs)]
    have hout : ctx'.outcome conv c = ctx.outcome conv c := by
      unfold PushContext.outcome
      rw [h.db, h.user, h.project, h.role]
    refine ⟨?_, h.user, h.project, h.role, fun x hxids ↦ ?_⟩
    · simp only [PushContext.recordNew, hout, h.db, h.user, h.project]
    · by_cases hxc : x = c.1.changeId
      · subst hxc
        have hnone : ctx.existingReceipts c.1.changeId = none ∧
            ctx'.existingReceipts c.1.changeId = none := by
          simp only [PushContext.seen, Bool.or_eq_true, not_or, Option.not_isSome_iff_eq_none]
            at hs
          refine ⟨hs.1, ?_⟩
          have hs' : ¬ ctx'.seen c.1.changeId = true := hseen ▸ by
            simp [PushContext.seen, hs.1, hs.2]
          simp only [PushContext.seen, Bool.or_eq_true, not_or, Option.not_isSome_iff_eq_none]
            at hs'
          exact hs'.1
        refine .batch hnone.1 hnone.2 ?_ ?_
        · simp [PushContext.recordNew]
        · simp [PushContext.recordNew, hout]
      · have hupdate : ∀ {α : Type} (f : Uuid → Option α) (v : Option α),
            Function.update f c.1.changeId v x = f x := fun f v ↦ Function.update_of_ne hxc v f
        cases h.knows x hxids with
        | existing receipt long second => exact .existing receipt long second
        | resumed receipt long second remembers =>
          refine .resumed receipt long second ⟨remembers.user, remembers.project, ?_, ?_, ?_⟩
          · exact remembers.hash.trans (hupdate _ _).symm
          · simpa only [PushContext.recordNew, hupdate] using remembers.hashed
          · exact (hupdate _ _).trans remembers.result
        | batch long second hash result =>
          refine .batch long second ?_ ?_
          · simp only [PushContext.recordNew, hupdate, hash]
          · simp only [PushContext.recordNew, hupdate, result]

theorem run (h : Resumes ids ctx ctx') {cs : List (SyncChange × Time)}
    (hcs : ∀ c ∈ cs, c.1.changeId ∈ ids) :
    (ctx'.run conv sha cs).db = (ctx.run conv sha cs).db ∧
      ctx'.answers conv sha cs = ctx.answers conv sha cs := by
  induction cs generalizing ctx ctx' with
  | nil => exact ⟨h.db, rfl⟩
  | cons c cs ih =>
    have hc := hcs c List.mem_cons_self
    obtain ⟨hdb, hanswers⟩ := ih (h.step conv sha hc) fun c' hc' ↦
      hcs c' (List.mem_cons_of_mem c hc')
    refine ⟨hdb, ?_⟩
    simp only [PushContext.answers, h.answer conv sha hc, hanswers]

end Resumes

theorem pushChanges_toOption (db : Db Digest) (userId projectId : Uuid)
    (changes : List (SyncChange × Time)) :
    (pushChanges conv sha db userId projectId changes).toOption =
      (Reference.admitted db.data userId projectId changes).map fun role ↦
        let ctx := PushContext.start db userId projectId role changes
        ((ctx.run conv sha changes).db, (ctx.answers conv sha changes).map Prod.snd) := by
  have hmap : ∀ (x : Except HttpFailure (PushContext Digest))
      (f : PushContext Digest → Db Digest × List ChangeResult),
      (x.map f).toOption = x.toOption.map f := by
    intro x f
    cases x <;> rfl
  unfold pushChanges
  rw [hmap, openPush_eq, Option.map_map]
  congr 1
  funext role
  simp only [Function.comp_apply, PushContext.run_results]
  rfl

omit [DecidableEq Digest] in
theorem loadExistingReceipts_of_mem {db : Db Digest} {changes : List (SyncChange × Time)}
    {x : Uuid} (hx : x ∈ changes.map fun c ↦ c.1.changeId) :
    loadExistingReceipts db changes x = Table.find SyncReceipt.changeId x db.receipts := by
  simp only [loadExistingReceipts, hx, if_true]

omit [DecidableEq Digest] in
theorem resumes_start (db : Db Digest) (userId projectId : Uuid) (role : Role)
    (a b : List (SyncChange × Time)) :
    Resumes (a.map fun c ↦ c.1.changeId) (.start db userId projectId role (a ++ b))
      (.start db userId projectId role a) := by
  refine ⟨rfl, rfl, rfl, rfl, fun x hx ↦ ?_⟩
  have hlong : loadExistingReceipts db (a ++ b) x =
      Table.find SyncReceipt.changeId x db.receipts :=
    loadExistingReceipts_of_mem (by rw [List.map_append]; exact List.mem_append_left _ hx)
  have hshort := @loadExistingReceipts_of_mem _ db _ x hx
  cases hfind : Table.find SyncReceipt.changeId x db.receipts with
  | none => exact .batch (hlong.trans hfind) (hshort.trans hfind) rfl rfl
  | some receipt => exact .existing receipt (hlong.trans hfind) (hshort.trans hfind)

theorem resumes_rest (db : Db Digest) (userId projectId : Uuid) (role : Role)
    (a b : List (SyncChange × Time))
    (hfinal : ∀ r ∈ (PushContext.start db userId projectId role (a ++ b)).answers conv sha a,
      r.2.body.reason ≠ some "internal_error") :
    let ctx := (PushContext.start db userId projectId role (a ++ b)).run conv sha a
    Resumes (b.map fun c ↦ c.1.changeId) ctx (.start ctx.db userId projectId role b) := by
  intro ctx
  obtain ⟨hu, hp, hr, he⟩ := PushContext.run_owner conv sha
    (PushContext.start db userId projectId role (a ++ b)) a
  refine ⟨rfl, hu.symm, hp.symm, hr.symm, fun x hx ↦ ?_⟩
  have hlong : ctx.existingReceipts x = Table.find SyncReceipt.changeId x db.receipts := by
    rw [he]
    exact loadExistingReceipts_of_mem (by rw [List.map_append]; exact List.mem_append_right _ hx)
  have hsecond := @loadExistingReceipts_of_mem _ ctx.db _ x hx
  cases hfind : Table.find SyncReceipt.changeId x db.receipts with
  | some receipt =>
    have hkept := @find_receipt_run _ _ conv sha (.start db userId projectId role (a ++ b)) x _ a
      hfind
    exact .existing receipt (hlong.trans hfind) (hsecond.trans hkept)
  | none =>
    have hnone : (PushContext.start db userId projectId role (a ++ b)).existingReceipts x =
        none := by
      rw [← he]
      exact hlong.trans hfind
    have hstart : Recorded (PushContext.start db userId projectId role (a ++ b)) x :=
      .fresh rfl rfl hfind
    cases hstart.run conv sha hnone hfinal with
    | fresh hash result receipt =>
      exact .batch (hlong.trans hfind) (hsecond.trans receipt) hash.symm result.symm
    | stored receipt found remembers =>
      exact .resumed receipt (hlong.trans hfind) (hsecond.trans found) remembers

theorem admitted_append (d : Data) (userId projectId : Uuid) (a b : List (SyncChange × Time)) :
    Reference.admitted d userId projectId (a ++ b) =
      (Reference.admitted d userId projectId a).bind fun _ ↦
        Reference.admitted d userId projectId b := by
  unfold Reference.admitted
  by_cases hstate : (d.lastSequence projectId).isNone = true
  · cases a with
    | nil =>
      cases b with
      | nil => cases d.getMemberRole projectId userId <;> simp
      | cons c b => cases d.getMemberRole projectId userId <;> simp [hstate]
    | cons c a => simp [hstate]
  · cases d.getMemberRole projectId userId <;> simp [hstate]

theorem admitted_role {d : Data} {userId projectId : Uuid} {changes : List (SyncChange × Time)}
    {role : Role} (h : Reference.admitted d userId projectId changes = some role) :
    d.getMemberRole projectId userId = some role := by
  unfold Reference.admitted at h
  split at h
  · cases h
  · exact h

/-- A batch cut in two, when the second part is met as if it were a batch of its own. -/
theorem pushChanges_resumes (db : Db Digest) (userId projectId : Uuid)
    (a b : List (SyncChange × Time))
    (hrest : ∀ role, Reference.admitted db.data userId projectId a = some role →
      let ctx := (PushContext.start db userId projectId role (a ++ b)).run conv sha a
      Resumes (b.map fun c ↦ c.1.changeId) ctx (.start ctx.db userId projectId role b)) :
    (pushChanges conv sha db userId projectId (a ++ b)).toOption = do
      let (db₁, first) ← (pushChanges conv sha db userId projectId a).toOption
      let (db₂, second) ← (pushChanges conv sha db₁ userId projectId b).toOption
      return (db₂, first ++ second) := by
  rw [pushChanges_toOption, pushChanges_toOption, admitted_append]
  cases ha : Reference.admitted db.data userId projectId a with
  | none => rfl
  | some role =>
    obtain ⟨hdb, hfirst⟩ := (resumes_start db userId projectId role a b).run conv sha
      fun c hc ↦ List.mem_map_of_mem (f := fun c : SyncChange × Time ↦ c.1.changeId) hc
    have haccess := (run_sameAccess conv sha (.start db userId projectId role a) a).admitted userId
      projectId b
    simp only [Option.bind_some, Option.map_some, Option.bind_eq_bind, pushChanges_toOption]
    rw [haccess]
    change Option.map _ (Reference.admitted db.data userId projectId b) =
      (Option.map _ (Reference.admitted db.data userId projectId b)).bind _
    cases hb : Reference.admitted db.data userId projectId b with
    | none => rfl
    | some role' =>
      obtain rfl : role' = role :=
        Option.some.inj ((admitted_role hb).symm.trans (admitted_role ha))
      obtain ⟨hdb', hsecond⟩ := (hrest role' ha).run conv sha
        fun c hc ↦ List.mem_map_of_mem (f := fun c : SyncChange × Time ↦ c.1.changeId) hc
      simp only [Option.map_some, Option.bind_some, PushContext.run_append,
        PushContext.answers_append, List.map_append, hdb, hfirst, hdb', hsecond]
      rfl

theorem pushChanges_append (db : Db Digest) (userId projectId : Uuid)
    (a b : List (SyncChange × Time))
    (hfinal : ∀ db' results,
      (pushChanges conv sha db userId projectId a).toOption = some (db', results) →
      ∀ r ∈ results, r.body.reason ≠ some "internal_error") :
    (pushChanges conv sha db userId projectId (a ++ b)).toOption = do
      let (db₁, first) ← (pushChanges conv sha db userId projectId a).toOption
      let (db₂, second) ← (pushChanges conv sha db₁ userId projectId b).toOption
      return (db₂, first ++ second) := by
  refine pushChanges_resumes conv sha db userId projectId a b fun role ha ↦ ?_
  rw [pushChanges_toOption, ha] at hfinal
  obtain ⟨-, hfirst⟩ := (resumes_start db userId projectId role a b).run conv sha
    fun c hc ↦ List.mem_map_of_mem (f := fun c : SyncChange × Time ↦ c.1.changeId) hc
  exact resumes_rest conv sha db userId projectId role a b fun r hr ↦
    hfinal _ _ rfl r.2 (List.mem_map_of_mem (hfirst ▸ hr))

theorem length_answers (ctx : PushContext Digest) (cs : List (SyncChange × Time)) :
    (ctx.answers conv sha cs).length = cs.length := by
  induction cs generalizing ctx with
  | nil => rfl
  | cons c cs ih => rw [PushContext.answers, List.length_cons, ih, List.length_cons]

theorem pushChanges_length {db db' : Db Digest} {userId projectId : Uuid}
    {changes : List (SyncChange × Time)} {results : List ChangeResult}
    (h : (pushChanges conv sha db userId projectId changes).toOption = some (db', results)) :
    results.length = changes.length := by
  rw [pushChanges_toOption] at h
  obtain ⟨role, -, he⟩ := Option.map_eq_some_iff.mp h
  cases he
  rw [List.length_map, length_answers]

/-- Pushing a list of changes is pushing its two parts one after the other, wherever it is cut,
at whatever intervals the sessions are expunged and whatever they drop in between: the same data,
receipts and audit rows, and the same results, one for each change. -/
theorem batching_does_not_change_meaning (db : Db Digest) (userId projectId : Uuid)
    (every every₁ every₂ : ℕ) (changes a b : List ((SyncChange × Time) × (RowKey → Bool)))
    (hcut : changes.map Prod.fst = a.map Prod.fst ++ b.map Prod.fst)
    (hfinal : ∀ db' results,
      (pushSession conv sha every₁ db userId projectId a).toOption = some (db', results) →
      ∀ r ∈ results, r.body.reason ≠ some "internal_error") :
    ((pushSession conv sha every db userId projectId changes).toOption = do
      let (db₁, first) ← (pushSession conv sha every₁ db userId projectId a).toOption
      let (db₂, second) ← (pushSession conv sha every₂ db₁ userId projectId b).toOption
      return (db₂, first ++ second)) ∧
    ∀ db' results,
      (pushSession conv sha every db userId projectId changes).toOption = some (db', results) →
      results.length = changes.length := by
  simp only [pushSession_eq, hcut] at hfinal ⊢
  refine ⟨pushChanges_append conv sha db userId projectId _ _ hfinal, fun db' results h ↦ ?_⟩
  rw [pushChanges_length conv sha h, ← hcut, List.length_map]

end Cut

/-- A change and its repetition, in one batch or in two. -/
theorem batching_does_not_change_meaning_sample :
    ∃ db₂ results, (pushSession Conv.strict titleDigest 200 sampleDb 10 1
        [(retitle 8 1 "B", fun _ ↦ true), (retitle 8 1 "B", fun _ ↦ true)]).toOption =
        some (db₂, results) ∧ results.length = 2 := by
  have hfinal : ∀ db' results, (pushSession Conv.strict titleDigest 1 sampleDb 10 1
      [(retitle 8 1 "B", fun _ ↦ false)]).toOption = some (db', results) →
      ∀ r ∈ results, r.body.reason ≠ some "internal_error" := by
    intro db' results h r hr
    cases h
    revert r
    decide
  obtain ⟨heq, hlength⟩ := batching_does_not_change_meaning Conv.strict titleDigest sampleDb 10 1
    200 1 1 [(retitle 8 1 "B", fun _ ↦ true), (retitle 8 1 "B", fun _ ↦ true)]
    [(retitle 8 1 "B", fun _ ↦ false)] [(retitle 8 1 "B", fun _ ↦ false)] rfl hfinal
  exact ⟨_, _, heq, hlength _ _ heq⟩

end RiskApp.Server
