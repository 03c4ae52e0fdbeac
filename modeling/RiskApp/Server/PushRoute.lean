import RiskApp.Server.Batching
import RiskApp.Server.ItemCalls

namespace RiskApp.Server

open Lib

variable {Digest : Type} [DecidableEq Digest]

def maxRequestBodyBytes : ℕ := 2 * 1024 * 1024

def maxPushChanges : ℕ := 1000

/-- A server that takes bodies of at most `maxBytes`; `bodyBytes` is the size of the body that
holds the changes. -/
structure PushServer (Digest : Type) where
  maxBytes : ℕ := maxRequestBodyBytes
  bodyBytes : List SyncChange → ℕ
  conv : Conv
  sha : Payload → Digest

namespace PushServer

/-- The route `sync_push` behind `RequestBodyLimitMiddleware`; `user` is whom the token names. -/
def syncPush (server : PushServer Digest) (db : Db Digest) (user : Option Uuid) (projectId : Uuid)
    (changes : List (SyncChange × Time)) : Except HttpFailure (Db Digest × List ChangeResult) :=
  if server.maxBytes < server.bodyBytes (changes.map Prod.fst) then .error 413
  else match user with
    | none => .error 401
    | some userId =>
      if maxPushChanges < changes.length then .error 422
      else match requireMinRole db.data projectId userId .member with
        | .error _ => .error 403
        | .ok _ => pushChanges server.conv server.sha db userId projectId changes

/-- In requests of their own, sent one after the other, all changes are accepted. -/
def AcceptsEach (server : PushServer Digest) (user : Option Uuid) (projectId : Uuid) :
    Db Digest → List (SyncChange × Time) → Prop
  | _, [] => True
  | db, c :: cs => ∃ db' r, server.syncPush db user projectId [c] = .ok (db', [r]) ∧
      r.status = .accepted ∧ server.AcceptsEach user projectId db' cs

theorem syncPush_error {server : PushServer Digest} {db : Db Digest} {user : Option Uuid}
    {projectId : Uuid} {changes : List (SyncChange × Time)} {code : HttpFailure}
    (hfits : server.bodyBytes (changes.map Prod.fst) ≤ server.maxBytes)
    (hlen : changes.length ≤ maxPushChanges)
    (h : server.syncPush db user projectId changes = .error code) : code ∈ [401, 403, 500] := by
  unfold syncPush at h
  rw [if_neg (by omega)] at h
  split at h
  · cases h
    decide
  · rw [if_neg (by omega)] at h
    split at h
    · cases h
      decide
    · rename_i userId _ _
      have hopen : ∀ x : Except HttpFailure (PushContext Digest),
          (∀ e, x = .error e → e ∈ [403, 500]) →
          ∀ f : PushContext Digest → Db Digest × List ChangeResult, x.map f = .error code →
            code ∈ [403, 500] := by
        intro x hx f hf
        cases x with
        | ok ctx => cases hf
        | error e =>
          cases hf
          exact hx code rfl
      refine List.mem_cons_of_mem _ (hopen _ (fun e he ↦ ?_) _ h)
      unfold openPush at he
      split at he
      · cases he
        decide
      · split at he
        · cases he
          decide
        · cases he

end PushServer

section Distinct

variable (conv : Conv) (sha : Payload → Digest)

/-- Neither the batch nor the receipts know the id. -/
structure PushContext.Unmet (ctx : PushContext Digest) (x : Uuid) : Prop where
  hash : ctx.batchHashes x = none
  result : ctx.batchResults x = none
  receipt : Table.find SyncReceipt.changeId x ctx.db.receipts = none

theorem PushContext.Unmet.run {ctx : PushContext Digest} {x : Uuid} {cs : List (SyncChange × Time)}
    (h : ctx.Unmet x) (hx : ∀ c ∈ cs, c.1.changeId ≠ x) : (ctx.run conv sha cs).Unmet x := by
  induction cs generalizing ctx with
  | nil => exact h
  | cons c cs ih =>
    suffices hnext : (ctx.step conv sha c).Unmet x from
      ih hnext fun c' hc' ↦ hx c' (List.mem_cons_of_mem c hc')
    have hne : x ≠ c.1.changeId := fun he ↦ hx c List.mem_cons_self he.symm
    by_cases hs : ctx.seen c.1.changeId = true
    · rw [PushContext.step_of_seen conv sha hs]
      exact ⟨h.hash, h.result, h.receipt⟩
    · rw [PushContext.step_of_new conv sha hs]
      refine ⟨(Function.update_of_ne hne _ _).trans h.hash,
        (Function.update_of_ne hne _ _).trans h.result, ?_⟩
      simp only [PushContext.recordNew, Outcome.receipts]
      rw [Table.find_append, h.receipt, Option.none_or]
      split
      · rw [Table.find_singleton]
        exact if_neg hne.symm
      · rfl

theorem resumes_unmet (db : Db Digest) (userId projectId : Uuid) (role : Role)
    (a b : List (SyncChange × Time))
    (hids : ∀ c ∈ a, ∀ c' ∈ b, c.1.changeId ≠ c'.1.changeId) :
    let ctx := (PushContext.start db userId projectId role (a ++ b)).run conv sha a
    Resumes (b.map fun c ↦ c.1.changeId) ctx (.start ctx.db userId projectId role b) := by
  intro ctx
  obtain ⟨hu, hp, hr, he⟩ := PushContext.run_owner conv sha
    (PushContext.start db userId projectId role (a ++ b)) a
  refine ⟨rfl, hu.symm, hp.symm, hr.symm, fun x hx ↦ ?_⟩
  have hlong : ctx.existingReceipts x = Table.find SyncReceipt.changeId x db.receipts := by
    rw [he]
    exact loadExistingReceipts_of_mem (by rw [List.map_append]; exact List.mem_append_right _ hx)
  have hsecond := @loadExistingReceipts_of_mem _ ctx.db b x hx
  cases hfind : Table.find SyncReceipt.changeId x db.receipts with
  | some receipt =>
    have hkept := @find_receipt_run _ _ conv sha (.start db userId projectId role (a ++ b)) x _ a
      hfind
    exact .existing receipt (hlong.trans hfind) (hsecond.trans hkept)
  | none =>
    obtain ⟨c', hc', rfl⟩ := List.mem_map.mp hx
    have hstart : (PushContext.start db userId projectId role (a ++ b)).Unmet c'.1.changeId :=
      ⟨rfl, rfl, hfind⟩
    have hdone := hstart.run conv sha fun c hc ↦ hids c hc c' hc'
    exact .batch (hlong.trans hfind) (hsecond.trans hdone.receipt) hdone.hash.symm
      hdone.result.symm

theorem pushChanges_cons (db : Db Digest) (userId projectId : Uuid) (c : SyncChange × Time)
    (cs : List (SyncChange × Time)) (hid : ∀ c' ∈ cs, c.1.changeId ≠ c'.1.changeId) :
    (pushChanges conv sha db userId projectId (c :: cs)).toOption = do
      let (db₁, first) ← (pushChanges conv sha db userId projectId [c]).toOption
      let (db₂, second) ← (pushChanges conv sha db₁ userId projectId cs).toOption
      return (db₂, first ++ second) := by
  refine pushChanges_resumes conv sha db userId projectId [c] cs fun role _ ↦ ?_
  refine resumes_unmet conv sha db userId projectId role [c] cs fun a ha c' hc' ↦ ?_
  rw [List.mem_singleton.mp ha]
  exact hid c' hc'

end Distinct

namespace PushServer

variable {server : PushServer Digest} {db db' : Db Digest} {user : Option Uuid}
  {projectId : Uuid} {results : List ChangeResult}

theorem syncPush_ok {changes : List (SyncChange × Time)}
    (h : server.syncPush db user projectId changes = .ok (db', results)) :
    server.bodyBytes (changes.map Prod.fst) ≤ server.maxBytes ∧
      changes.length ≤ maxPushChanges ∧ ∃ userId, user = some userId ∧
        requireMinRole db.data projectId userId .member = .ok () ∧
        pushChanges server.conv server.sha db userId projectId changes = .ok (db', results) := by
  unfold syncPush at h
  split at h
  · cases h
  · split at h
    · cases h
    · rename_i hfits userId
      split at h
      · cases h
      · split at h
        · cases h
        · rename_i hlen _ hrole
          exact ⟨by omega, by omega, userId, rfl, hrole, h⟩

theorem syncPush_of_ok {changes : List (SyncChange × Time)} {userId : Uuid}
    (hfits : server.bodyBytes (changes.map Prod.fst) ≤ server.maxBytes)
    (hlen : changes.length ≤ maxPushChanges)
    (hrole : requireMinRole db.data projectId userId .member = .ok ()) :
    server.syncPush db (some userId) projectId changes =
      pushChanges server.conv server.sha db userId projectId changes := by
  unfold syncPush
  rw [if_neg (by omega)]
  dsimp only
  rw [if_neg (by omega), hrole]

theorem AcceptsEach.pushChanges {userId : Uuid} {changes : List (SyncChange × Time)}
    (h : server.AcceptsEach (some userId) projectId db changes) (hne : changes ≠ [])
    (hids : (changes.map fun c ↦ c.1.changeId).Nodup) : ∃ db' results,
      (Server.pushChanges server.conv server.sha db userId projectId changes).toOption =
        some (db', results) ∧ ∀ r ∈ results, r.status = .accepted := by
  induction changes generalizing db with
  | nil => exact absurd rfl hne
  | cons c cs ih =>
    obtain ⟨db₁, r, hpush, hr, hrest⟩ := h
    obtain ⟨-, -, userId', huser, -, hpush⟩ := syncPush_ok hpush
    obtain rfl := Option.some.inj huser
    rw [List.map_cons, List.nodup_cons] at hids
    by_cases hcs : cs = []
    · subst hcs
      rw [hpush]
      exact ⟨db₁, [r], rfl, fun r' hr' ↦ List.mem_singleton.mp hr' ▸ hr⟩
    · obtain ⟨db₂, results, hsecond, hall⟩ := ih hrest hcs hids.2
      rw [pushChanges_cons _ _ _ _ _ _ _ fun c' hc' he ↦
        hids.1 (he ▸ List.mem_map_of_mem (f := fun c : SyncChange × Time ↦ c.1.changeId) hc'),
          hpush]
      refine ⟨db₂, [r] ++ results, ?_, fun r' hr' ↦ ?_⟩
      · have hfirst : (Except.ok (db₁, [r]) : Except HttpFailure _).toOption =
          some (db₁, [r]) := rfl
        simp only [hfirst, Option.bind_eq_bind, Option.bind_some, hsecond]
        rfl
      · rcases List.mem_append.mp hr' with hr' | hr'
        · exact List.mem_singleton.mp hr' ▸ hr
        · exact hall r' hr'

/-- Changes that are accepted one by one are accepted as a batch, if its body fits. -/
theorem AcceptsEach.syncPush {changes : List (SyncChange × Time)}
    (h : server.AcceptsEach user projectId db changes) (hne : changes ≠ [])
    (hids : (changes.map fun c ↦ c.1.changeId).Nodup)
    (hfits : server.bodyBytes (changes.map Prod.fst) ≤ server.maxBytes)
    (hlen : changes.length ≤ maxPushChanges) : ∃ db' results,
      server.syncPush db user projectId changes = .ok (db', results) ∧
        ∀ r ∈ results, r.status = .accepted := by
  obtain ⟨c, cs, rfl⟩ := List.exists_cons_of_ne_nil hne
  obtain ⟨db₁, r, hpush, -, -⟩ := id h
  obtain ⟨-, -, userId, rfl, hrole, -⟩ := syncPush_ok hpush
  obtain ⟨db', results, hall, haccepted⟩ := h.pushChanges hne hids
  refine ⟨db', results, ?_, haccepted⟩
  rw [syncPush_of_ok hfits hlen hrole]
  cases hres : Server.pushChanges server.conv server.sha db userId projectId (c :: cs) with
  | error e =>
    rw [hres] at hall
    cases hall
  | ok res =>
    rw [hres] at hall
    exact congrArg Except.ok (Option.some.inj hall)

end PushServer

end RiskApp.Server
