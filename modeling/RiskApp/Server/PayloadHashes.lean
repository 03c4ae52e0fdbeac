import RiskApp.Server.Atomicity
import RiskApp.Server.Failures

namespace RiskApp.Server

open Lib

variable {Digest : Type} [DecidableEq Digest]

def payloadMismatch : String := "change_id_payload_mismatch"

theorem processNewPushChange_reason (conv : Conv) (d : Data) (userId projectId : Uuid) (role : Role)
    (change : SyncChange) (now : Time) :
    (processNewPushChange conv d userId projectId role change now).response.reason ≠
      some payloadMismatch := by
  have hreason : ∀ reason ∈ ["type_mismatch", "base_version_required", "version_mismatch"],
      some reason ≠ some payloadMismatch := by decide
  unfold processNewPushChange
  split
  · exact (by decide : some "insufficient_permissions" ≠ some payloadMismatch)
  · split
    · rename_i e he
      have hraises : Result.Raises (fun e ↦ e.Plain ∨ e.Unclaimed)
          (applyChange conv d userId projectId change now) :=
        applyChange_raises (fun e he ↦ Or.inl he) fun r entityId _ ↦
          (claimExisting_unclaimed d userId projectId r _ entityId _ now).mono fun _ h ↦ Or.inr h
      cases e with
      | conflict reason =>
        rcases hraises _ he with hplain | hclaim
        · cases hplain
        · exact hreason reason hclaim
      | http statusCode detail => exact (by decide : some "http_error" ≠ some payloadMismatch)
      | integrity => exact (by decide : some "constraint_violation" ≠ some payloadMismatch)
      | unexpected => exact (by decide : some "internal_error" ≠ some payloadMismatch)
    · exact (by decide : (none : Option String) ≠ some payloadMismatch)

/-- The changes that go out under one id are the same change. -/
def OnePayload (passed : List SyncChange) : Prop :=
  ∀ c ∈ passed, ∀ c' ∈ passed, c.changeId = c'.changeId → c = c'

/-- A receipt under an id that goes out is the receipt of the change that goes out. -/
def SyncReceipt.Of (sha : Payload → Digest) (passed : List SyncChange)
    (receipt : SyncReceipt Digest) : Prop :=
  receipt.response.reason ≠ some payloadMismatch ∧
    ∃ c ∈ passed, c.changeId = receipt.changeId ∧ receipt.payloadHash = some (sha c.payload)

omit [DecidableEq Digest] in
theorem SyncReceipt.Of.mono {sha : Payload → Digest} {passed passed' : List SyncChange}
    {receipt : SyncReceipt Digest} (h : receipt.Of sha passed) (hsub : passed ⊆ passed') :
    receipt.Of sha passed' := by
  obtain ⟨hreason, c, hc, hid, hhash⟩ := h
  exact ⟨hreason, c, hsub hc, hid, hhash⟩

namespace PushContext

variable (conv : Conv) (sha : Payload → Digest) (passed : List SyncChange)

/-- What a push of those changes keeps: each receipt, stored hash and result belongs to one of
them. -/
structure Passes (ctx : PushContext Digest) : Prop where
  existing : ∀ id receipt, ctx.existingReceipts id = some receipt → receipt.changeId = id ∧
    ((∃ c ∈ passed, c.changeId = id) → receipt.Of sha passed)
  hashes : ∀ id hash, ctx.batchHashes id = some hash →
    ∃ c ∈ passed, c.changeId = id ∧ hash = sha c.payload
  kept : ∀ id result, ctx.batchResults id = some result →
    result.body.reason ≠ some payloadMismatch
  results : ∀ r ∈ ctx.results, r.body.reason ≠ some payloadMismatch

variable {conv sha passed} {ctx : PushContext Digest}

theorem refreshAcceptedReplay_reason (d : Data) (projectId userId : Uuid) (r : ChangeResult) :
    (refreshAcceptedReplay d projectId userId r).body.reason = r.body.reason := by
  unfold refreshAcceptedReplay
  split
  · rfl
  · split
    · rfl
    · split <;> rfl

/-- A repeat of one of the changes is not taken for another payload. -/
theorem Passes.errorReason (h : ctx.Passes sha passed) (hone : OnePayload passed) {c : SyncChange}
    (hc : c ∈ passed) (hseen : ctx.seen c.changeId = true) :
    duplicateErrorReason sha c (ctx.existingReceipts c.changeId) (ctx.batchHashes c.changeId)
      ctx.userId ctx.projectId ≠ some payloadMismatch := by
  have hsame : ∀ c' ∈ passed, c'.changeId = c.changeId → c' = c := fun c' hc' hid ↦
    hone c' hc' c hc hid
  cases hreceipt : ctx.existingReceipts c.changeId with
  | some receipt =>
    obtain ⟨hid, hof⟩ := h.existing _ _ hreceipt
    obtain ⟨-, c', hc', hid', hhash⟩ := hof ⟨c, hc, rfl⟩
    obtain rfl := hsame c' hc' (hid'.trans hid)
    unfold duplicateErrorReason
    dsimp only
    rw [if_neg (not_not.mpr hhash)]
    split
    · exact (by decide : some "change_id_in_use" ≠ some payloadMismatch)
    · split
      · exact (by decide : some "receipt_unverifiable" ≠ some payloadMismatch)
      · exact (by decide : (none : Option String) ≠ some payloadMismatch)
  | none =>
    have hhashed : (ctx.batchHashes c.changeId).isSome = true := by
      simpa [seen, hreceipt] using hseen
    obtain ⟨hash, hhash⟩ := Option.isSome_iff_exists.mp hhashed
    obtain ⟨c', hc', hid', rfl⟩ := h.hashes _ _ hhash
    obtain rfl := hsame c' hc' hid'
    unfold duplicateErrorReason
    dsimp only
    rw [if_pos hhash]
    exact (by decide : (none : Option String) ≠ some payloadMismatch)

theorem Passes.duplicate (h : ctx.Passes sha passed) (hone : OnePayload passed) {c : SyncChange}
    (hc : c ∈ passed) (hseen : ctx.seen c.changeId = true) :
    (ctx.duplicateResult conv sha c).body.reason ≠ some payloadMismatch := by
  have hnot := h.errorReason hone hc hseen
  unfold duplicateResult
  dsimp only
  split
  · rename_i reason hreason
    exact fun hbad ↦ hnot (hreason.trans hbad)
  · split
    · rename_i hreceipt
      obtain ⟨-, hof⟩ := h.existing _ _ hreceipt
      rw [refreshAcceptedReplay_reason]
      exact (hof ⟨c, hc, rfl⟩).1
    · rename_i result _ hkept
      rw [refreshAcceptedReplay_reason]
      exact h.kept _ result hkept
    · exact (by decide : (none : Option String) ≠ some payloadMismatch)

theorem Passes.step (h : ctx.Passes sha passed) (hone : OnePayload passed) {c : SyncChange × Time}
    (hc : c.1 ∈ passed) : (ctx.step conv sha c).Passes sha passed := by
  by_cases hseen : ctx.seen c.1.changeId = true
  · rw [step_of_seen conv sha hseen]
    refine ⟨h.existing, h.hashes, h.kept, fun r hr ↦ ?_⟩
    rcases List.mem_append.mp hr with hr | hr
    · exact h.results r hr
    · rw [List.mem_singleton.mp hr]
      exact h.duplicate hone hc hseen
  · rw [step_of_new conv sha hseen]
    have hnew : ((ctx.outcome conv c).result c.1).body.reason ≠ some payloadMismatch :=
      processNewPushChange_reason conv _ _ _ _ _ _
    refine ⟨h.existing, fun id hash hhash ↦ ?_, fun id result hresult ↦ ?_, fun r hr ↦ ?_⟩
    · by_cases hid : id = c.1.changeId
      · subst hid
        have hupdate := Function.update_self (f := ctx.batchHashes) c.1.changeId
          (some (sha c.1.payload))
        exact ⟨c.1, hc, rfl, (Option.some.inj (hupdate.symm.trans hhash)).symm⟩
      · exact h.hashes id hash ((Function.update_of_ne hid _ _).symm.trans hhash)
    · by_cases hid : id = c.1.changeId
      · subst hid
        have hupdate := Function.update_self (f := ctx.batchResults) c.1.changeId
          (some ((ctx.outcome conv c).result c.1))
        rw [← Option.some.inj (hupdate.symm.trans hresult)]
        exact hnew
      · exact h.kept id result ((Function.update_of_ne hid _ _).symm.trans hresult)
    · rcases List.mem_append.mp hr with hr | hr
      · exact h.results r hr
      · rw [List.mem_singleton.mp hr]
        exact hnew

theorem Passes.run (h : ctx.Passes sha passed) (hone : OnePayload passed)
    {changes : List (SyncChange × Time)} (hchanges : ∀ c ∈ changes, c.1 ∈ passed) :
    (ctx.run conv sha changes).Passes sha passed := by
  induction changes generalizing ctx with
  | nil => exact h
  | cons c changes ih =>
    exact ih (h.step hone (hchanges c List.mem_cons_self)) fun c' hc' ↦
      hchanges c' (List.mem_cons_of_mem _ hc')

theorem step_receipts_of {ctx : PushContext Digest} {c : SyncChange × Time} (hc : c.1 ∈ passed)
    {receipt : SyncReceipt Digest} (h : receipt ∈ (ctx.step conv sha c).db.receipts) :
    receipt ∈ ctx.db.receipts ∨ receipt.Of sha passed := by
  by_cases hseen : ctx.seen c.1.changeId = true
  · rw [step_of_seen conv sha hseen] at h
    exact Or.inl h
  · rw [step_of_new conv sha hseen] at h
    rcases List.mem_append.mp h with h | h
    · exact Or.inl h
    · unfold Outcome.receipts at h
      split at h
      · rw [List.mem_singleton.mp h]
        exact Or.inr ⟨processNewPushChange_reason conv _ _ _ _ _ _, c.1, hc, rfl, rfl⟩
      · cases h

theorem run_receipts_of {ctx : PushContext Digest} {changes : List (SyncChange × Time)}
    (hchanges : ∀ c ∈ changes, c.1 ∈ passed) {receipt : SyncReceipt Digest}
    (h : receipt ∈ (ctx.run conv sha changes).db.receipts) :
    receipt ∈ ctx.db.receipts ∨ receipt.Of sha passed := by
  induction changes generalizing ctx with
  | nil => exact Or.inl h
  | cons c changes ih =>
    rcases ih (fun c' hc' ↦ hchanges c' (List.mem_cons_of_mem _ hc')) h with h | h
    · exact step_receipts_of (hchanges c List.mem_cons_self) h
    · exact Or.inr h

end PushContext

/-- A push of changes with one payload each is never answered with a payload mismatch, and leaves
receipts of the same kind. -/
theorem pushChanges_passes {conv : Conv} {sha : Payload → Digest} {passed : List SyncChange}
    (hone : OnePayload passed) {db db' : Db Digest}
    (hdb : ∀ receipt ∈ db.receipts, (∃ c ∈ passed, c.changeId = receipt.changeId) →
      receipt.Of sha passed) {userId projectId : Uuid} {changes : List (SyncChange × Time)}
    (hchanges : ∀ c ∈ changes, c.1 ∈ passed) {results : List ChangeResult}
    (h : pushChanges conv sha db userId projectId changes = .ok (db', results)) :
    (∀ receipt ∈ db'.receipts, receipt ∈ db.receipts ∨ receipt.Of sha passed) ∧
      ∀ r ∈ results, r.body.reason ≠ some payloadMismatch := by
  obtain ⟨ctx, hopen, hrun⟩ := Result.map_ok h
  obtain ⟨-, role, -, rfl⟩ := openPush_ok hopen
  cases hrun
  refine ⟨fun receipt hreceipt ↦ PushContext.run_receipts_of hchanges hreceipt, ?_⟩
  have hstart : (PushContext.start db userId projectId role changes).Passes sha passed := by
    refine ⟨fun id receipt hfind ↦ ?_, fun _ _ h ↦ ?_, fun _ _ h ↦ ?_, fun _ hr ↦ ?_⟩
    · change loadExistingReceipts db changes id = some receipt at hfind
      unfold loadExistingReceipts at hfind
      split at hfind
      · obtain rfl := Table.key_of_find SyncReceipt.changeId hfind
        exact ⟨rfl, hdb receipt (Table.mem_of_find SyncReceipt.changeId hfind)⟩
      · cases hfind
    · cases h
    · cases h
    · cases hr
  exact (hstart.run hone hchanges).results

end RiskApp.Server
