import RiskApp.Server.Atomicity
import RiskApp.Server.Failures
import RiskApp.Server.Scope

namespace RiskApp.Server

open Lib Lib.Result

variable {Digest : Type}

/-- A serialization of a row of the project, as the row is or as it was. -/
def Data.Describes (d : Data) (p : Uuid) (record : Dict) : Prop :=
  ∃ r ∈ d.rows, d.projectOf r = some p ∧
    ∃ s entity d₀, s.Keeps r ∧ record = modelToSyncDict d₀ entity s

def Response.Within (d : Data) (p : Uuid) (response : Response) : Prop :=
  ∀ record, response.serverRecord = some (some record) → d.Describes p record

structure Db.Scoped (db : Db Digest) : Prop where
  data : db.data.Scoped
  receipts : ∀ receipt ∈ db.receipts, receipt.response.Within db.data receipt.projectId

def Db.part (db : Db Digest) (p : Uuid) :
    (List Row × List AuditLog × Option ℕ) × List (SyncReceipt Digest) :=
  (db.data.part p, db.receipts.filter fun receipt ↦ receipt.projectId = p)

def Db.deleteProject (db : Db Digest) (p : Uuid) : Db Digest where
  data := { db.data with
    rows := db.data.rows.filter fun r ↦ db.data.projectOf r ≠ some p
    audit := db.data.audit.filter fun e ↦ e.projectId ≠ p
    lastSequence := Function.update db.data.lastSequence p none
    memberRole := Function.update db.data.memberRole p fun _ ↦ none }
  receipts := db.receipts.filter fun receipt ↦ receipt.projectId ≠ p

/-- The databases that a server without rows reaches: by pushes, by the writing routes, by
changes to projects, members, users and logs, and by the two ways to remove data. -/
inductive Reachable [DecidableEq Digest] (conv : Conv) (sha : Payload → Digest) :
    Db Digest → Prop
  | empty {data : Data} (rows : data.rows = []) : Reachable conv sha ⟨data, []⟩
  | push {db db' userId projectId changes results} (before : Reachable conv sha db)
      (run : pushChanges conv sha db userId projectId changes = .ok (db', results)) :
      Reachable conv sha db'
  | item {db userId projectId itemType scored now data} {call : ItemCall}
      (before : Reachable conv sha db)
      (run : call.run userId projectId itemType scored now db.data = .ok data) :
      Reachable conv sha ⟨data, db.receipts⟩
  | ticket {db userId projectId now data} {call : TicketCall} (before : Reachable conv sha db)
      (run : call.run userId projectId now db.data = .ok data) :
      Reachable conv sha ⟨data, db.receipts⟩
  | administer {db data} (before : Reachable conv sha db) (rows : data.rows = db.data.rows) :
      Reachable conv sha ⟨data, db.receipts⟩
  | prune {db receipts} (before : Reachable conv sha db)
      (kept : receipts.Sublist db.receipts) : Reachable conv sha ⟨db.data, receipts⟩
  | deleteProject {db} (p : Uuid) (before : Reachable conv sha db) :
      Reachable conv sha (db.deleteProject p)

section Records

variable {d d' : Data} {p : Uuid}

theorem Data.Describes.mono {record : Dict} (h : d.Describes p record)
    (hkept : ∀ r ∈ d.rows, d.projectOf r = some p →
      ∃ r' ∈ d'.rows, r.Keeps r' ∧ d'.projectOf r' = some p) : d'.Describes p record := by
  obtain ⟨r, hr, hp, s, entity, d₀, hk, rfl⟩ := h
  obtain ⟨r', hr', hk', hp'⟩ := hkept r hr hp
  exact ⟨r', hr', hp', s, entity, d₀, hk.trans hk', rfl⟩

theorem Response.Within.mono {response : Response} (h : response.Within d p) {q : Uuid}
    (hd : d.Confined q d') : response.Within d' p := by
  intro record hrecord
  refine (h record hrecord).mono fun r hr hp ↦ ?_
  obtain ⟨r', hr', hk, hp'⟩ := hd.kept r hr
  exact ⟨r', hr', hk, hp'.trans hp⟩

theorem describes_row {r : Row} {k : RowKey} (hr : d.row k = some r) (hp : d.projectOf r = some p)
    (entity : Entity) : d.Describes p (modelToSyncDict d entity r) :=
  ⟨r, Table.mem_of_find Row.key hr, hp, r, entity, d, .refl r, rfl⟩

theorem currentServerState_describes {entity : Entity} {entityId userId : Uuid} {record : Dict}
    (h : (currentServerState d entity entityId p userId).2 = some record) :
    d.Describes p record := by
  unfold currentServerState at h
  split at h
  · cases h
  · rename_i r hr
    cases h
    obtain ⟨hrow, hscope⟩ := Option.filter_eq_some_iff.mp hr
    simp only [inVersionScope, Bool.and_eq_true, decide_eq_true_eq] at hscope
    exact describes_row hrow hscope.1.1 entity

def PushError.Within (d : Data) (p : Uuid) : PushError → Prop
  | .conflict _ _ _ (some record) => d.Describes p record
  | _ => True

theorem claimExisting_within {r : Row} {entity : Entity} {entityId userId : Uuid}
    (hr : fetchObj d entity entityId p = some r) (bv : Option ℤ) (now : Time) :
    Raises (PushError.Within d p) (claimExisting d r entity entityId p userId bv now) := by
  obtain ⟨hrow, hp⟩ := fetchObj_some hr
  have hdescribes := describes_row hrow hp entity
  unfold claimExisting
  refine .bind (.require _ hdescribes) fun _ ↦ .bind (.require _ trivial) fun _ ↦
    .bind ?_ fun expected ↦ ?_
  · unfold checkBaseVersion
    simp only
    split
    · exact .error hdescribes
    · split
      · exact .error hdescribes
      · split
        · exact .error hdescribes
        · exact .ok _
  · unfold claimBaseVersion
    split
    · exact .ok _
    · refine .error ?_
      cases hstate : (currentServerState d entity entityId p userId).2 with
      | none => trivial
      | some record => exact currentServerState_describes hstate

theorem applyChange_within (conv : Conv) (userId : Uuid) (change : SyncChange) (now : Time) :
    Raises (PushError.Within d p) (applyChange conv d userId p change now) := by
  refine applyChange_raises (fun e he ↦ ?_) fun r entityId hr ↦ claimExisting_within hr _ now
  cases e with
  | conflict => cases he
  | _ => trivial

theorem processNewPushChange_within (conv : Conv) (h : d.Scoped) (userId : Uuid) (role : Role)
    (change : SyncChange) (now : Time) :
    let o := processNewPushChange conv d userId p role change now
    d.Confined p o.data ∧ o.response.Within o.data p := by
  unfold processNewPushChange
  split
  · refine ⟨.refl h p, fun record hrecord ↦ ?_⟩
    cases hrecord
  · split
    · rename_i e he
      have hwithin := applyChange_within conv userId change now e he
      have hdata := (failedOutcome_data conv d change e).1
      refine ⟨by rw [hdata]; exact .refl h p, fun record hrecord ↦ ?_⟩
      rw [hdata]
      cases e with
      | conflict reason entityId version serverRecord =>
        have hrec : serverRecord = some record := Option.some.inj hrecord
        subst hrec
        exact hwithin
      | _ => cases hrecord
    · rename_i d' entityId hok
      refine ⟨applyChange_confined h hok, fun record hrecord ↦ ?_⟩
      exact currentServerState_describes (Option.some.inj hrecord)

end Records

variable [DecidableEq Digest]

theorem refreshAcceptedReplay_within {d : Data} {p : Uuid} {userId : Uuid} {replay : ChangeResult}
    (h : replay.body.Within d p) : (refreshAcceptedReplay d p userId replay).body.Within d p := by
  unfold refreshAcceptedReplay
  split
  · exact h
  · split
    · exact h
    · split
      · exact h
      · rename_i entityId _ version record hstate
        intro found hfound
        obtain rfl : record = found := Option.some.inj (Option.some.inj hfound)
        exact currentServerState_describes (congrArg Prod.snd hstate)

namespace PushContext

structure Within (ctx : PushContext Digest) : Prop where
  db : ctx.db.Scoped
  existing : ∀ x receipt, ctx.existingReceipts x = some receipt → receipt ∈ ctx.db.receipts
  batch : ∀ x result, ctx.batchResults x = some result →
    result.body.Within ctx.db.data ctx.projectId
  results : ∀ result ∈ ctx.results, result.body.Within ctx.db.data ctx.projectId

variable (conv : Conv) (sha : Payload → Digest) {ctx : PushContext Digest}

theorem duplicateResult_within (h : ctx.Within) (change : SyncChange) :
    (ctx.duplicateResult conv sha change).body.Within ctx.db.data ctx.projectId := by
  unfold duplicateResult
  simp only
  split
  · intro record hrecord
    cases hrecord
  · rename_i hreason
    cases hreceipt : ctx.existingReceipts change.changeId with
    | some receipt =>
      refine refreshAcceptedReplay_within ?_
      have hproject : receipt.projectId = ctx.projectId := by
        rw [hreceipt] at hreason
        unfold duplicateErrorReason at hreason
        simp only at hreason
        split at hreason
        · cases hreason
        · rename_i hsame
          exact not_not.mp fun hne ↦ hsame (Or.inr hne)
      have hstored := h.db.receipts receipt (h.existing _ receipt hreceipt)
      rw [hproject] at hstored
      exact hstored
    | none => cases hresult : ctx.batchResults change.changeId with
      | some result => exact refreshAcceptedReplay_within (h.batch _ result hresult)
      | none =>
        intro record hrecord
        cases hrecord

omit [DecidableEq Digest] in
theorem recordNew_within (h : ctx.Within) (c : SyncChange × Time) :
    (ctx.recordNew conv sha c).Within ∧
      ctx.db.data.Confined ctx.projectId (ctx.recordNew conv sha c).db.data ∧
      ∀ q, q ≠ ctx.projectId → (ctx.recordNew conv sha c).db.part q = ctx.db.part q := by
  obtain ⟨hconfined, hresponse⟩ := processNewPushChange_within conv h.db.data ctx.userId ctx.role
    c.1 c.2 (p := ctx.projectId)
  have hnew : ∀ receipt ∈ (ctx.outcome conv c).receipts sha ctx.userId ctx.projectId c.1 c.2,
      receipt.projectId = ctx.projectId ∧
        receipt.response.Within (ctx.outcome conv c).data ctx.projectId := by
    intro receipt hreceipt
    unfold Outcome.receipts at hreceipt
    split at hreceipt
    · obtain rfl := List.mem_singleton.mp hreceipt
      exact ⟨rfl, hresponse⟩
    · cases hreceipt
  have hresult : ((ctx.outcome conv c).result c.1).body.Within (ctx.outcome conv c).data
      ctx.projectId := hresponse
  refine ⟨⟨⟨hconfined.inScope, fun receipt hreceipt ↦ ?_⟩, fun x receipt hx ↦ ?_,
    fun x result hx ↦ ?_, fun result hr ↦ ?_⟩, hconfined, fun q hq ↦ ?_⟩
  · rcases List.mem_append.mp hreceipt with hold | hadded
    · exact (h.db.receipts receipt hold).mono hconfined
    · obtain ⟨hproject, hwithin⟩ := hnew receipt hadded
      rw [hproject]
      exact hwithin
  · exact List.mem_append_left _ (h.existing x receipt hx)
  · by_cases he : x = c.1.changeId
    · subst he
      have hset : (ctx.recordNew conv sha c).batchResults c.1.changeId =
          some ((ctx.outcome conv c).result c.1) := Function.update_self _ _ _
      obtain rfl := Option.some.inj (hset.symm.trans hx)
      exact hresult
    · have hkeep : (ctx.recordNew conv sha c).batchResults x = ctx.batchResults x :=
        Function.update_of_ne he _ _
      exact (h.batch x result (hkeep.symm.trans hx)).mono hconfined
  · rcases List.mem_append.mp hr with hold | hadded
    · exact (h.results result hold).mono hconfined
    · obtain rfl := List.mem_singleton.mp hadded
      exact hresult
  · have hnone : ((ctx.outcome conv c).receipts sha ctx.userId ctx.projectId c.1 c.2).filter
        (fun receipt ↦ receipt.projectId = q) = [] := by
      refine List.filter_eq_nil_iff.mpr fun receipt hreceipt ↦ ?_
      simp [(hnew receipt hreceipt).1, Ne.symm hq]
    have hpart : (ctx.recordNew conv sha c).db.data.part q = ctx.db.data.part q :=
      hconfined.others q hq
    unfold Db.part
    rw [hpart]
    simp only [recordNew, List.filter_append, hnone, List.append_nil]

theorem step_within (h : ctx.Within) (c : SyncChange × Time) :
    (ctx.step conv sha c).Within ∧
      ctx.db.data.Confined ctx.projectId (ctx.step conv sha c).db.data ∧
      ∀ q, q ≠ ctx.projectId → (ctx.step conv sha c).db.part q = ctx.db.part q := by
  by_cases hs : ctx.seen c.1.changeId = true
  · rw [step_of_seen conv sha hs]
    refine ⟨⟨h.db, h.existing, h.batch, fun result hr ↦ ?_⟩, .refl h.db.data _, fun _ _ ↦ rfl⟩
    rcases List.mem_append.mp hr with hold | hadded
    · exact h.results result hold
    · obtain rfl := List.mem_singleton.mp hadded
      exact duplicateResult_within conv sha h c.1
  · rw [step_of_new conv sha hs]
    exact recordNew_within conv sha h c

theorem run_within (h : ctx.Within) (cs : List (SyncChange × Time)) :
    (ctx.run conv sha cs).Within ∧
      ctx.db.data.Confined ctx.projectId (ctx.run conv sha cs).db.data ∧
      ∀ q, q ≠ ctx.projectId → (ctx.run conv sha cs).db.part q = ctx.db.part q := by
  induction cs generalizing ctx with
  | nil => exact ⟨h, .refl h.db.data _, fun _ _ ↦ rfl⟩
  | cons c cs ih =>
    obtain ⟨hstep, hconfined, hparts⟩ := step_within conv sha h c
    obtain ⟨hrun, hconfined', hparts'⟩ := ih hstep
    have hproject : (ctx.step conv sha c).projectId = ctx.projectId :=
      (ctx.step_owner conv sha c).2.1
    rw [hproject] at hconfined' hparts'
    exact ⟨hrun, hconfined.trans hconfined', fun q hq ↦ (hparts' q hq).trans (hparts q hq)⟩

end PushContext

variable (conv : Conv) (sha : Payload → Digest)

/-- A push writes in its project, and its results speak of its project. -/
theorem pushChanges_within {db db' : Db Digest} (h : db.Scoped) {userId projectId : Uuid}
    {changes : List (SyncChange × Time)} {results : List ChangeResult}
    (hpush : pushChanges conv sha db userId projectId changes = .ok (db', results)) :
    db'.Scoped ∧ (∀ q, q ≠ projectId → db'.part q = db.part q) ∧
      ∀ result ∈ results, result.body.Within db'.data projectId := by
  obtain ⟨ctx, hopen, hrun⟩ := map_ok hpush
  obtain ⟨-, role, -, rfl⟩ := openPush_ok hopen
  cases hrun
  have hstart : (PushContext.start db userId projectId role changes).Within := by
    refine ⟨h, fun x receipt hx ↦ ?_, fun x result hx ↦ ?_, fun result hr ↦ ?_⟩
    · have hx : loadExistingReceipts db changes x = some receipt := hx
      unfold loadExistingReceipts at hx
      split at hx
      · exact Table.mem_of_find SyncReceipt.changeId hx
      · cases hx
    · cases hx
    · cases hr
  obtain ⟨hwithin, -, hparts⟩ := PushContext.run_within conv sha hstart changes
  have hproject := (PushContext.run_owner conv sha
    (.start db userId projectId role changes) changes).2.1
  refine ⟨hwithin.db, hparts, fun result hr ↦ ?_⟩
  have hresult := hwithin.results result hr
  rw [hproject] at hresult
  exact hresult

omit [DecidableEq Digest] in
theorem Db.Scoped.write {db : Db Digest} (h : db.Scoped) {data : Data} {p : Uuid}
    (hd : db.data.Confined p data) : Db.Scoped ⟨data, db.receipts⟩ :=
  ⟨hd.inScope, fun receipt hreceipt ↦ (h.receipts receipt hreceipt).mono hd⟩

omit [DecidableEq Digest] in
theorem Db.Scoped.deleteProject {db : Db Digest} (h : db.Scoped) (p : Uuid) :
    (db.deleteProject p).Scoped := by
  have hstays : ∀ {r : Row} {q : Uuid}, r ∈ db.data.rows → db.data.projectOf r = some q → q ≠ p →
      r ∈ (db.deleteProject p).data.rows := by
    intro r q hr hq hne
    exact List.mem_filter.mpr ⟨hr, by simpa [hq] using hne⟩
  have hkeys : ((db.deleteProject p).data.rows.map Row.key).Nodup :=
    h.data.keys.sublist (List.filter_sublist.map Row.key)
  have hitem : ∀ {i q : Uuid}, (db.data.item i).bind Row.ownProject = some q → q ≠ p →
      ((db.deleteProject p).data.item i).bind Row.ownProject = some q := by
    intro i q hi hne
    obtain ⟨o, ho, hown⟩ := Option.bind_eq_some_iff.mp hi
    have hkey : o.key = (.items, i) := Table.key_of_find Row.key ho
    have htable : o.table = .items := congrArg Prod.fst hkey
    have hproject : db.data.projectOf o = some q := by
      unfold Data.projectOf
      rw [htable]
      exact hown
    have hmem := hstays (Table.mem_of_find Row.key ho) hproject hne
    have hfind := Table.find_of_mem Row.key hkeys hmem
    rw [hkey] at hfind
    unfold Data.item Data.row
    rw [hfind, Option.bind_some, hown]
  have hholds : ∀ {r : Row} {q : Uuid}, db.data.Holds q r → q ≠ p →
      (db.deleteProject p).data.Holds q r := by
    intro r q hr hne
    refine ⟨?_, fun hcol ↦ ?_⟩
    · obtain ⟨ht, hown⟩ | ⟨ht, i, hi, hown⟩ := Data.projectOf_eq hr.project
      · cases htable : r.table <;> simp_all [Data.projectOf]
      · rw [Data.projectOf_assessment ht hi]
        exact hitem hown hne
    · obtain ⟨i, hi, hown⟩ := hr.target hcol
      exact ⟨i, hi, hitem hown hne⟩
  refine ⟨⟨hkeys, fun r hr ↦ ?_⟩, fun receipt hreceipt record hrecord ↦ ?_⟩
  · obtain ⟨hr, hne⟩ := List.mem_filter.mp hr
    obtain ⟨q, hq⟩ := h.data.held r hr
    exact ⟨q, hholds hq (by simpa [hq.project] using hne)⟩
  · obtain ⟨hold, hne⟩ := List.mem_filter.mp hreceipt
    have hne : receipt.projectId ≠ p := by simpa using hne
    refine (h.receipts receipt hold record hrecord).mono fun r hr hp ↦ ?_
    exact ⟨r, hstays hr hp hne, .refl r, (hholds (h.data.holds hr hp) hne).project⟩

/-- Ids are unique, rows are held by projects and receipts speak of their own, in every state that
the server reaches. -/
theorem Reachable.scoped {db : Db Digest} (h : Reachable conv sha db) : db.Scoped := by
  induction h with
  | @empty data rows =>
    refine ⟨⟨by simp [rows], fun r hr ↦ ?_⟩, fun receipt hreceipt ↦ ?_⟩
    · rw [rows] at hr
      cases hr
    · cases hreceipt
  | push before run ih => exact (pushChanges_within conv sha ih run).1
  | @item db userId projectId itemType scored now data call before run ih =>
    exact ih.write (ItemCall.run_confined ih.data scored run)
  | ticket before run ih => exact ih.write (TicketCall.run_confined ih.data run)
  | @administer db data before rows ih =>
    refine ⟨ih.data.of_rows rows, fun receipt hreceipt record hrecord ↦ ?_⟩
    refine (ih.receipts receipt hreceipt record hrecord).mono fun r hr hp ↦ ?_
    exact ⟨r, by rwa [rows], .refl r, (Data.projectOf_of_rows rows r).trans hp⟩
  | prune before kept ih =>
    exact ⟨ih.data, fun receipt hreceipt ↦ ih.receipts receipt (kept.subset hreceipt)⟩
  | deleteProject p before ih => exact ih.deleteProject p

end RiskApp.Server
