import RiskApp.Client.Commands

namespace RiskApp.Client

open Lib Server

namespace Cache

variable {c c' : Cache} {k : EntityKey} {entity : Entity} {record : Dict} {pendingIds : List Uuid}

def assessedType (c : Cache) (record : Dict) : Entity :=
  if (record.get .opportunityId).truthy then .opportunity
  else if (record.get .riskId).truthy then .risk
  else if knownItem .opportunity (assessedItem record) c then .opportunity
  else .risk

def pulledColumns (c : Cache) (entity : Entity) (record : Dict) : Option Columns :=
  match entity with
  | .action => some (pulledAction record)
  | .assessment => some (pulledAssessment record (c.assessedType record))
  | .helpdeskTicket => some (pulledTicket record)
  | _ => pulledScored record

/-- Other rows give up the code, and the row takes the server's values. -/
def takeRecord (k : EntityKey) (record : Dict) (columns : Columns) (c : Cache) : Cache :=
  (c.updateRows (holdsCode k (columns .code)) clearCode).saveRow (serverRow k record columns)

theorem takeRecord_of_null {columns : Columns} (h : columns .code = .null) :
    c.takeRecord k record columns = c.saveRow (serverRow k record columns) := by
  have hsame : c.updateRows (holdsCode k (columns .code)) clearCode = c := by
    unfold updateRows
    have hrows : (c.rows.map fun r ↦ if holdsCode k (columns .code) r then clearCode r else r) =
        c.rows := by
      refine (List.map_congr_left fun r _ ↦ ?_).trans (List.map_id _)
      simp [holdsCode, h]
    rw [hrows]
  rw [takeRecord, hsame]

theorem eval_inferAssessmentItemType (record : Dict) (c : Cache) :
    (inferAssessmentItemType record).eval c = some (c.assessedType record, c) := by
  unfold inferAssessmentItemType assessedType
  split
  · rfl
  · split
    · rfl
    · simp only [Work.eval_bind, Work.eval_select, Option.bind_some]
      split <;> rfl

/-- What applying one pulled record can do. -/
inductive PullsRecord (c : Cache) (entity : Entity) (pendingIds : List Uuid) (record : Dict) :
    Cache → Prop
  | skipped (nameless : recordId record = none) : PullsRecord c entity pendingIds record c
  | kept {id : Uuid} {c' : Cache} (named : recordId record = some id) (pending : id ∈ pendingIds)
      (remembered : (rememberConflict (entity, id) record).eval c = some ((), c')) :
      PullsRecord c entity pendingIds record c'
  | saved {id : Uuid} {columns : Columns} (named : recordId record = some id)
      (free : id ∉ pendingIds) (built : c.pulledColumns entity record = some columns) :
      PullsRecord c entity pendingIds record (c.takeRecord (entity, id) record columns)

theorem keepOrSave_pulls {id : Uuid} {save : Work Cache Unit} (hid : recordId record = some id)
    (hsave : ∀ c', save.eval c = some ((), c') → ∃ columns,
      c.pulledColumns entity record = some columns ∧ c' = c.takeRecord (entity, id) record columns)
    (h : (keepOrSave (entity, id) pendingIds record save).eval c = some ((), c')) :
    PullsRecord c entity pendingIds record c' := by
  unfold keepOrSave at h
  split at h
  · rename_i hp
    exact .kept hid hp h
  · rename_i hp
    obtain ⟨columns, hcolumns, rfl⟩ := hsave c' h
    exact .saved hid hp hcolumns

theorem ofOption_eval {α β : Type} {o : Option α} {f : α → Work Cache β} {b : β}
    (h : (Work.ofOption o >>= f).eval c = some (b, c')) :
    ∃ a, o = some a ∧ (f a).eval c = some (b, c') := by
  obtain ⟨a, c₁, ho, h⟩ := Work.bind_eval h
  rw [Work.eval_ofOption] at ho
  obtain ⟨a', ha', he⟩ := Option.map_eq_some_iff.mp ho
  obtain ⟨rfl, rfl⟩ := Prod.mk.inj he
  exact ⟨a', ha', h⟩

theorem require_eval {β : Type} {p : Bool} {f : Unit → Work Cache β} {b : β}
    (h : (Work.require p >>= f).eval c = some (b, c')) :
    p = true ∧ (f ()).eval c = some (b, c') := by
  rw [Work.eval_bind, Work.eval_require] at h
  cases p with
  | false => cases h
  | true => exact ⟨rfl, h⟩

theorem setSyncWatermark_eval {n : ℕ} (h : (setSyncWatermark n).eval c = some ((), c')) :
    c' = { c with watermark := n } := by
  obtain ⟨⟨⟩, c₁, hset, hcommit⟩ := Work.bind_eval h
  obtain rfl : c₁ = c' := congrArg Prod.snd (Option.some.inj hcommit)
  rw [Work.eval_statement] at hset
  split at hset
  · exact (congrArg Prod.snd (Option.some.inj hset)).symm
  · cases hset

theorem pullScored_pulls (hs : entity.scored = true)
    (h : (pullScored entity pendingIds record).eval c = some ((), c')) :
    PullsRecord c entity pendingIds record c' := by
  obtain ⟨id, hid, h⟩ := ofOption_eval h
  obtain ⟨-, -, h⟩ := ofOption_eval h
  refine keepOrSave_pulls hid (fun c' hsave ↦ ?_) h
  obtain ⟨columns, hcolumns, hsave⟩ := ofOption_eval hsave
  rw [Work.eval_bind, changeRows, Work.eval_modify, Option.bind_some] at hsave
  refine ⟨columns, ?_, upsertRow_eval hsave⟩
  cases entity <;> first | exact hcolumns | cases hs

theorem upsertRow_takes {columns : Columns} (hcode : columns .code = .null)
    (h : (upsertRow (serverRow k record columns)).eval c = some ((), c')) :
    c' = c.takeRecord k record columns := by
  rw [takeRecord_of_null hcode]
  exact upsertRow_eval h

theorem pullRecord_pulls (h : (pullRecord entity pendingIds record).eval c = some ((), c')) :
    PullsRecord c entity pendingIds record c' := by
  cases entity with
  | risk => exact pullScored_pulls rfl h
  | opportunity => exact pullScored_pulls rfl h
  | action =>
    obtain ⟨id, hid, h⟩ := ofOption_eval h
    obtain ⟨-, h⟩ := require_eval h
    exact keepOrSave_pulls hid (fun c' hsave ↦ ⟨_, rfl, upsertRow_takes rfl hsave⟩) h
  | assessment =>
    obtain ⟨id, hid, h⟩ := ofOption_eval h
    obtain ⟨-, h⟩ := require_eval h
    refine keepOrSave_pulls hid (fun c' hsave ↦ ⟨_, rfl, ?_⟩) h
    rw [Work.eval_bind, eval_inferAssessmentItemType, Option.bind_some] at hsave
    exact upsertRow_takes rfl hsave
  | helpdeskTicket =>
    replace h : (pullTicket pendingIds record).eval c = some ((), c') := h
    unfold pullTicket at h
    cases hid : recordId record with
    | none =>
      rw [hid] at h
      obtain rfl : c = c' := congrArg Prod.snd (Option.some.inj h)
      exact .skipped hid
    | some id =>
      rw [hid] at h
      refine keepOrSave_pulls hid (fun c' hsave ↦ ⟨_, rfl, ?_⟩) h
      obtain ⟨-, -, hsave⟩ := ofOption_eval hsave
      exact upsertRow_takes rfl hsave

theorem store_clearCodes (c : Cache) (p : CachedRow → Bool) :
    (c.updateRows p clearCode).store = c.store :=
  store_updateRows_of_view c p fun _ ↦ rfl

theorem store_takeRecord (c : Cache) (k : EntityKey) (record : Dict) (columns : Columns) :
    (c.takeRecord k record columns).store =
      c.store.upsertRow (LocalStore.pulledRow k.1 k.2 record) := by
  rw [takeRecord, store_saveRow, store_clearCodes]
  rfl

/-- Under one open entry for each entity, the first conflict found is the only one. -/
theorem rememberConflict_eval (hd : c.outbox.Distinct)
    (h : (rememberConflict k record).eval c = some ((), c')) :
    c' = c.setOutbox (LocalStore.rememberConflictServerRecord · k record) := by
  rw [rememberConflict, Work.eval_bind, Work.eval_select, Option.bind_some] at h
  have hsame : ∀ o : Outbox, o = c.outbox → c.setOutbox (fun _ ↦ o) = c := by
    rintro o rfl
    rfl
  cases hfind : c.outbox.find? fun e ↦ e.key = k && e.inConflict with
  | none =>
    rw [hfind] at h
    obtain rfl : c = c' := congrArg Prod.snd (Option.some.inj h)
    refine (hsame _ ((List.map_congr_left fun e he ↦ ?_).trans (List.map_id _))).symm
    have hno := List.find?_eq_none.mp hfind e he
    exact if_neg hno
  | some e =>
    rw [hfind] at h
    obtain ⟨version, hversion, h⟩ := ofOption_eval h
    obtain rfl : recordVersion record = version := by rw [recordVersion, hversion, Option.getD_some]
    obtain rfl : _ = c' := congrArg Prod.snd (Option.some.inj h)
    have hmem := List.mem_of_find?_eq_some hfind
    have hsel := List.find?_some hfind
    unfold setOutbox LocalStore.rememberConflictServerRecord Outbox.update
    have hmap : (c.outbox.map fun e' ↦ if e'.changeId = e.changeId then
        e'.withOutcome ⟨some (recordVersion record), some record⟩ else e') =
        c.outbox.map fun e' ↦ if (decide (e'.key = k) && e'.inConflict) = true then
          e'.withOutcome ⟨some (recordVersion record), some record⟩ else e' := by
      refine List.map_congr_left fun e' he' ↦ ?_
      by_cases hid : e'.changeId = e.changeId
      · obtain rfl := hd.eq_of_id he' hmem hid
        rw [if_pos rfl, if_pos hsel]
      · rw [if_neg hid, if_neg]
        intro hsel'
        simp only [Bool.and_eq_true, decide_eq_true_eq] at hsel hsel'
        exact hid (congrArg Entry.changeId (hd.eq_of_key he' hmem (hsel'.1.trans hsel.1.symm)))
    simp only [decide_eq_true_eq]
    rw [hmap]

theorem PullsRecord.store (h : PullsRecord c entity pendingIds record c') (hd : c.outbox.Distinct) :
    c'.store = LocalStore.applyPullRecord entity pendingIds c.store record := by
  cases h with
  | skipped nameless => rw [LocalStore.applyPullRecord, nameless]
  | kept named pending remembered =>
    rw [rememberConflict_eval hd remembered, LocalStore.applyPullRecord, named]
    exact (if_pos pending).symm
  | saved named free built =>
    rw [store_takeRecord, LocalStore.applyPullRecord, named]
    exact (if_neg free).symm

theorem applyPullEntities_eval {records : List Dict}
    (h : (applyPullEntities entity records).eval c = some ((), c')) :
    (records.forM (pullRecord entity (c.store.pendingOutboxIds entity))).eval c =
      some ((), c') := by
  unfold applyPullEntities at h
  split at h
  · rw [Work.eval_writeTransaction, Work.eval_bind, Work.eval_select, Option.bind_some] at h
    exact h
  · rw [Work.eval_bind, Work.eval_select, Option.bind_some] at h
    obtain ⟨⟨⟩, c₁, hloop, hcommit⟩ := Work.bind_eval h
    obtain rfl : c₁ = c' := congrArg Prod.snd (Option.some.inj hcommit)
    exact hloop

theorem applyPullEntities_store {records : List Dict} (hd : c.outbox.Distinct)
    (h : (applyPullEntities entity records).eval c = some ((), c')) :
    c'.store = c.store.applyPullEntities entity records := by
  refine Work.eval_forM_induction (P := fun done t ↦ t.store =
    done.foldl (LocalStore.applyPullRecord entity (c.store.pendingOutboxIds entity)) c.store)
    (applyPullEntities_eval h) rfl fun done record t t' _ ht hstep ↦ ?_
  have hrefreshed := (LocalStore.foldl_applyPullRecord entity (c.store.pendingOutboxIds entity) done
    c.store).outbox
  rw [← ht] at hrefreshed
  rw [(pullRecord_pulls hstep).store (hrefreshed.distinct hd), ht, List.foldl_append]
  rfl

theorem applyPullEntities_distinct {records : List Dict} (hd : c.outbox.Distinct)
    (h : (applyPullEntities entity records).eval c = some ((), c')) : c'.outbox.Distinct := by
  have hrefreshed := (LocalStore.foldl_applyPullRecord entity (c.store.pendingOutboxIds entity)
    records c.store).outbox
  have hstore := congrArg LocalStore.outbox (applyPullEntities_store hd h)
  have hout : c'.outbox = (c.store.applyPullEntities entity records).outbox := hstore
  rw [hout]
  exact hrefreshed.distinct hd

theorem applyPull_store {pull : Download} (hd : c.outbox.Distinct)
    (h : (applyPull pull).eval c = some ((), c')) : c'.store = c.store.applyPull pull := by
  rw [applyPull, Work.eval_writeTransaction] at h
  obtain ⟨⟨⟩, c₁, hloop, h⟩ := Work.bind_eval h
  have hfold : c₁.store = [PullKey.risks, .opportunities, .actions, .assessments].foldl
      (fun s key ↦ s.applyPullEntities key.entity (pull.records key)) c.store ∧
      c₁.outbox.Distinct := by
    refine Work.eval_forM_induction (P := fun done t ↦ t.store = done.foldl
      (fun s key ↦ s.applyPullEntities key.entity (pull.records key)) c.store ∧
        t.outbox.Distinct) hloop ⟨rfl, hd⟩ fun done key t t' _ ht hstep ↦ ?_
    rw [Work.eval_bind, Work.eval_check, Option.bind_some] at hstep
    refine ⟨?_, applyPullEntities_distinct ht.2 hstep⟩
    rw [applyPullEntities_store ht.2 hstep, ht.1, List.foldl_append]
    rfl
  rw [Work.eval_bind, Work.eval_check, Option.bind_some] at h
  obtain ⟨⟨⟩, c₂, htickets, h⟩ := Work.bind_eval h
  have hlast : c₂.store =
      c₁.store.applyPullEntities .helpdeskTicket (pull.records .helpdeskTickets) := by
    unfold applyTickets at htickets
    split at htickets
    · rename_i hempty
      obtain rfl : c₁ = c₂ := congrArg Prod.snd (Option.some.inj htickets)
      rw [List.isEmpty_iff.mp hempty]
      rfl
    · exact applyPullEntities_store hfold.2 htickets
  rw [Work.eval_bind, Work.eval_check, Option.bind_some] at h
  obtain rfl := setSyncWatermark_eval h
  have hall : c₂.store = PullKey.all.foldl
      (fun s key ↦ s.applyPullEntities key.entity (pull.records key)) c.store := by
    rw [hlast, hfold.1]
    rfl
  exact congrArg (fun s : LocalStore ↦ { s with watermark := pull.serverSequence }) hall

section Acknowledgement

variable {projectId : Uuid} {result : ChangeResult}

theorem releaseScoredCodes_store {results : List ChangeResult}
    (h : (releaseScoredCodes projectId results).eval c = some ((), c')) : c'.store = c.store := by
  obtain ⟨⟨⟩, c₁, hchecks, h⟩ := Work.bind_eval h
  obtain ⟨⟨⟩, c₂, hloop, hcommit⟩ := Work.bind_eval h
  obtain rfl : c₂ = c' := congrArg Prod.snd (Option.some.inj hcommit)
  have hsame : c₁ = c := by
    refine Work.eval_forM_induction (P := fun _ t ↦ t = c)
      hchecks rfl fun _ entity t t' _ ht hs ↦ ?_
    rw [Work.eval_require] at hs
    split at hs
    · exact (congrArg Prod.snd (Option.some.inj hs)).symm.trans ht
    · cases hs
  rw [hsame] at hloop
  refine Work.eval_forM_induction (P := fun _ t ↦ t.store = c.store) hloop rfl
    fun _ entity t t' _ ht hs ↦ ?_
  split at hs
  · obtain rfl : t = t' := congrArg Prod.snd (Option.some.inj hs)
    exact ht
  · obtain rfl : _ = t' := congrArg Prod.snd (Option.some.inj hs)
    exact (store_clearCodes t _).trans ht

theorem applyPullEntities_congr {s : LocalStore} {record' : Dict} {id : Uuid}
    (hid : recordId record = some id) (hid' : recordId record' = some id)
    (hversion : record.get .version = record'.get .version)
    (hdeleted : recordDeleted record = recordDeleted record')
    (hfree : id ∉ s.pendingOutboxIds entity) :
    s.applyPullEntities entity [record] = s.applyPullEntities entity [record'] := by
  have hpulled : pulledVersion entity record = pulledVersion entity record' := by
    unfold pulledVersion recordVersion versionOf
    rw [hversion]
  simp only [LocalStore.applyPullEntities, List.foldl_cons, List.foldl_nil,
    LocalStore.applyPullRecord, hid, hid', if_neg hfree, hpulled, hdeleted]

theorem pending_deleteOutboxIds {s : LocalStore} {e : Entry} (hd : s.outbox.Distinct)
    (he : e ∈ s.outbox) : e.entityId ∉ ({ s with
      outbox := s.outbox.deleteOutboxIds [e.changeId] } : LocalStore).pendingOutboxIds
      e.entity := by
  rw [LocalStore.mem_pendingOutboxIds, Option.not_isSome_iff_eq_none]
  refine (Table.find_eq_none Entry.key).mpr fun e' he' hk ↦ ?_
  obtain ⟨hin, hne⟩ := List.mem_filter.mp he'
  have hsame := hd.eq_of_key hin he hk
  simp [hsame] at hne

theorem acknowledgeSent_store {sent : Entry} (hd : c.outbox.Distinct) (hsent : sent ∈ c.outbox)
    (h : (acknowledgeSent projectId sent result).eval c = some ((), c')) :
    c.store.acknowledgeSent projectId sent result = some c'.store := by
  obtain ⟨hmatch, h⟩ := require_eval h
  rw [Work.eval_bind, changeOutbox, Work.eval_modify, Option.bind_some] at h
  have hcond : (decide (result.entity ≠ sent.entity) ||
      result.entityId.any (· ≠ sent.entityId)) = false := by
    simp only [Bool.and_eq_true, decide_eq_true_eq] at hmatch
    cases hid : result.entityId with
    | none => simp [hmatch.1]
    | some id =>
      rw [hid] at hmatch
      simp only [Option.all_some, decide_eq_true_eq] at hmatch
      simp [hmatch.1, hmatch.2]
  rw [LocalStore.acknowledgeSent, if_neg (by rw [hcond]; simp)]
  have hd₁ : (c.setOutbox (·.deleteOutboxIds [sent.changeId])).outbox.Distinct := hd.filter _
  unfold applyPushAcknowledgement at h
  cases hrecord : serverRecord result with
  | some record =>
    rw [hrecord] at h
    obtain ⟨hident, h⟩ := require_eval h
    obtain ⟨hversion, h⟩ := require_eval h
    have hany : (serverVersion result).any (· ≠ recordVersion record) = false := by
      cases hv : serverVersion result with
      | none => rfl
      | some v =>
        rw [hv, Option.all_some, decide_eq_true_eq] at hversion
        simp [recordVersion, ← hversion]
    rw [LocalStore.applyPushAcknowledgement, hident, hany, applyPullEntities_store hd₁ h]
    refine congrArg some (applyPullEntities_congr rfl rfl rfl rfl ?_)
    exact pending_deleteOutboxIds hd hsent
  | none =>
    rw [hrecord] at h
    cases hv : serverVersion result with
    | none =>
      rw [hv] at h
      obtain rfl : _ = c' := congrArg Prod.snd (Option.some.inj h)
      rfl
    | some v =>
      rw [hv] at h
      obtain rfl : _ = c' := congrArg Prod.snd (Option.some.inj h)
      have hview := store_updateRows_key (c.setOutbox (·.deleteOutboxIds [sent.changeId])) sent.key
        (f := versionedRow v) (g := fun r ↦ { r with version := v }) fun _ ↦ rfl
      exact congrArg some hview.symm

theorem advanceRow_view (version : Option ℤ) (code : Option Val) (r : CachedRow) :
    (advanceRow version code r).toLocalRow =
      { r.toLocalRow with version := version.elim r.version (max r.version) } := by
  cases code <;> rfl

theorem store_advanceRow (c : Cache) (k : EntityKey) (version : Option ℤ) (code : Option Val) :
    (c.updateRows (·.key = k) (advanceRow version code)).store = { c.store with
      rows := c.store.rows.map fun r ↦
        if r.key = k then { r with version := version.elim r.version (max r.version) } else r } :=
  store_updateRows_key c k (advanceRow_view version code)

theorem advancePushAcknowledgement_store {version : Option ℤ} {serverRecord : Option Dict}
    (h : (advancePushAcknowledgement projectId k version serverRecord).eval c = some ((), c')) :
    c.store.advancePushAcknowledgement projectId k version serverRecord = some c'.store := by
  obtain ⟨hident, h⟩ := require_eval h
  obtain ⟨hversion, h⟩ := require_eval h
  have hagree : (version.isSome && (LocalStore.strictVersion (serverRecord.getD .empty)).isSome &&
      decide (version ≠ LocalStore.strictVersion (serverRecord.getD .empty))) = false := by
    cases version <;> cases hv : LocalStore.strictVersion (serverRecord.getD .empty) <;>
      simp_all
  simp only [LocalStore.advancePushAcknowledgement, hident, hagree]
  generalize hcode : (if k.1.scored && (serverRecord.getD Dict.empty).has .code then
    some ((serverRecord.getD Dict.empty).get .code) else none) = code at h
  generalize version.or (LocalStore.strictVersion (serverRecord.getD .empty)) = v at h ⊢
  dsimp only at h
  split at h
  · rename_i hnone
    obtain rfl : c = c' := congrArg Prod.snd (Option.some.inj h)
    simp only [Bool.and_eq_true, Option.isNone_iff_eq_none] at hnone
    rw [hnone.1]
    rfl
  · obtain ⟨⟨⟩, c₁, hupdate, hcommit⟩ := Work.bind_eval h
    obtain rfl : c₁ = c' := congrArg Prod.snd (Option.some.inj hcommit)
    rw [Work.eval_statement] at hupdate
    split at hupdate
    · cases hupdate
    · obtain rfl : _ = c₁ := congrArg Prod.snd (Option.some.inj hupdate)
      rw [store_advanceRow]
      cases v with
      | some v => rfl
      | none =>
        have hrows : (c.store.rows.map fun r ↦
            if r.key = k then { r with version := r.version } else r) = c.store.rows :=
          (List.map_congr_left fun r _ ↦ ite_self r).trans (List.map_id _)
        exact congrArg (fun rows ↦ some (⟨rows, c.outbox, c.watermark⟩ : LocalStore)) hrows.symm

theorem advanceReplacement_store
    (h : (advanceReplacement projectId result).eval c = some ((), c')) :
    c.store.advanceReplacement projectId result = some c'.store := by
  unfold advanceReplacement at h
  unfold LocalStore.advanceReplacement
  cases hid : result.entityId with
  | none =>
    rw [hid] at h
    obtain rfl : c = c' := congrArg Prod.snd (Option.some.inj h)
    rfl
  | some entityId =>
    rw [hid] at h
    dsimp only at h ⊢
    rw [Work.eval_bind, Work.eval_select, Option.bind_some] at h
    have hout : c.store.outbox = c.outbox := rfl
    rw [hout]
    cases hr : (Outbox.oldestFirst (c.outbox.filter fun e ↦
      e.key = (result.entity, entityId) && e.queued)).head? with
    | none =>
      rw [hr] at h
      obtain rfl : c = c' := congrArg Prod.snd (Option.some.inj h)
      rfl
    | some replacement =>
      rw [hr] at h
      dsimp only at h ⊢
      rw [Work.eval_bind, changeOutbox, Work.eval_modify, Option.bind_some] at h
      exact advancePushAcknowledgement_store h

theorem acknowledgeResult_store (hd : c.outbox.Distinct)
    (h : (acknowledgeResult projectId result).eval c = some ((), c')) :
    c.store.acknowledgeResult projectId result = some c'.store := by
  unfold acknowledgeResult at h
  unfold LocalStore.acknowledgeResult
  split at h
  · rename_i hstatus
    obtain rfl : c = c' := congrArg Prod.snd (Option.some.inj h)
    exact if_pos hstatus
  · rename_i hstatus
    rw [if_neg hstatus]
    rw [Work.eval_bind, Work.eval_select, Option.bind_some] at h
    have hout : c.store.outbox = c.outbox := rfl
    rw [hout]
    cases hsent : c.outbox.find? (·.changeId = result.changeId) with
    | some sent =>
      rw [hsent] at h
      exact acknowledgeSent_store hd (List.mem_of_find?_eq_some hsent) h
    | none =>
      rw [hsent] at h
      exact advanceReplacement_store h

theorem acknowledgeAcceptedResults_store {results : List ChangeResult} (hd : c.outbox.Distinct)
    (h : (acknowledgeAcceptedResults projectId results).eval c = some ((), c')) :
    c.store.acknowledgeAcceptedResults projectId results = some c'.store := by
  rw [acknowledgeAcceptedResults, Work.eval_writeTransaction] at h
  obtain ⟨⟨⟩, c₁, hrelease, hloop⟩ := Work.bind_eval h
  have hstore := releaseScoredCodes_store hrelease
  have hd₁ : c₁.store.outbox.Distinct := hstore ▸ hd
  have hrun := Work.eval_forM_induction (P := fun done t ↦
    c.store.acknowledgeAcceptedResults projectId done = some t.store ∧ t.outbox.Distinct) hloop
    ⟨congrArg some hstore.symm, hd₁⟩ fun done r t t' _ ht hs ↦ ?_
  · exact hrun.1
  · have hack := acknowledgeResult_store ht.2 hs
    refine ⟨?_, (LocalStore.acknowledgeResult_acknowledged ht.2 hack).distinct ht.2⟩
    rw [LocalStore.acknowledgeAcceptedResults, List.foldlM_append]
    have hdone : done.foldlM (LocalStore.acknowledgeResult projectId) c.store = some t.store := ht.1
    rw [hdone]
    exact (congrArg (Option.bind · pure) hack)

end Acknowledgement

section Resolution

variable {projectId changeId : Uuid} {expected : Option ℤ} {t : LocalStore.Stamp}

theorem requireConflict_eval {β : Type} {f : Entry → Work Cache β} {b : β}
    (h : (requireConflict changeId expected >>= f).eval c = some (b, c')) :
    ∃ e, c.store.requireConflict changeId expected = some e ∧ (f e).eval c = some (b, c') := by
  obtain ⟨e, c₁, hreq, h⟩ := Work.bind_eval h
  rw [requireConflict, Work.eval_bind, Work.eval_select, Option.bind_some,
    Work.eval_ofOption] at hreq
  obtain ⟨e', he', hpair⟩ := Option.map_eq_some_iff.mp hreq
  obtain ⟨rfl, rfl⟩ := Prod.mk.inj hpair
  exact ⟨e', he', h⟩

theorem getVersion_eval {β : Type} {f : ℤ → Work Cache β} {b : β}
    (h : (getVersion k >>= f).eval c = some (b, c')) :
    ∃ v, c.store.version k = some v ∧ (f v).eval c = some (b, c') := by
  obtain ⟨v, c₁, hver, h⟩ := Work.bind_eval h
  rw [eval_getVersion] at hver
  obtain ⟨r, hr, hpair⟩ := Option.map_eq_some_iff.mp hver
  obtain ⟨rfl, rfl⟩ := Prod.mk.inj hpair
  refine ⟨r.version, ?_, h⟩
  rw [store_version, hr]
  rfl

theorem keepMine_store (h : (keepMine changeId expected t).eval c = some ((), c')) :
    c.store.keepMine changeId expected t = some c'.store := by
  rw [keepMine, Work.eval_writeTransaction] at h
  obtain ⟨e, he, h⟩ := requireConflict_eval h
  obtain ⟨saved, hsaved, h⟩ := ofOption_eval h
  obtain ⟨current, hcurrent, h⟩ := getVersion_eval h
  rw [eval_replaceOutboxEntry] at h
  obtain rfl : _ = c' := congrArg Prod.snd (Option.some.inj h)
  rw [LocalStore.keepMine, he]
  dsimp only [Option.bind_eq_bind, Option.bind_some]
  rw [hsaved, Option.bind_some, hcurrent]
  rfl

theorem takeServerCopy_store {e : Entry} (hd : c.outbox.Distinct)
    (h : (takeServerCopy e record).eval c = some ((), c')) :
    c'.store = c.store.takeServerCopy e record ∧ c'.outbox.Distinct := by
  obtain ⟨⟨⟩, c₁, hdelete, h⟩ := Work.bind_eval h
  obtain rfl : _ = c₁ := congrArg Prod.snd (Option.some.inj hdelete)
  have hd₁ : (c.setOutbox (·.deleteOutboxIds [e.changeId])).outbox.Distinct := hd.filter _
  exact ⟨applyPullEntities_store hd₁ h, applyPullEntities_distinct hd₁ h⟩

theorem useServer_store (hd : c.outbox.Distinct)
    (h : (useServer projectId changeId expected).eval c = some ((), c')) :
    c.store.useServer projectId changeId expected = some c'.store := by
  rw [useServer, Work.eval_writeTransaction] at h
  obtain ⟨e, he, h⟩ := requireConflict_eval h
  obtain ⟨record, hrecord, h⟩ := ofOption_eval h
  obtain ⟨⟨⟩, c₁, hcopy, h⟩ := Work.bind_eval h
  obtain rfl := setSyncWatermark_eval h
  rw [LocalStore.useServer, he]
  dsimp only [Option.bind_eq_bind, Option.bind_some]
  rw [hrecord, Option.bind_some, ← (takeServerCopy_store hd hcopy).1]
  rfl

theorem applyMergedFields_store (h : (applyMergedFields k record).eval c = some ((), c')) :
    c'.store = c.store := by
  obtain ⟨-, h⟩ := require_eval h
  obtain ⟨⟨⟩, c₁, hupdate, hcommit⟩ := Work.bind_eval h
  obtain rfl : c₁ = c' := congrArg Prod.snd (Option.some.inj hcommit)
  rw [Work.eval_statement] at hupdate
  split at hupdate
  · cases hupdate
  · obtain rfl : _ = c₁ := congrArg Prod.snd (Option.some.inj hupdate)
    exact store_updateRows_of_view c _ (f := mergedRow record) fun _ ↦ rfl

theorem merge_store {merged : Dict} (hd : c.outbox.Distinct)
    (h : (merge projectId changeId expected merged t).eval c = some ((), c')) :
    c.store.merge projectId changeId expected merged t = some c'.store := by
  rw [merge, Work.eval_writeTransaction] at h
  obtain ⟨e, he, h⟩ := requireConflict_eval h
  obtain ⟨record, hrecord, h⟩ := ofOption_eval h
  obtain ⟨version, hversion, h⟩ := ofOption_eval h
  obtain ⟨current, hcurrent, h⟩ := getVersion_eval h
  obtain ⟨hmay, h⟩ := require_eval h
  obtain ⟨⟨⟩, c₁, hcopy, h⟩ := Work.bind_eval h
  obtain ⟨⟨⟩, c₂, hfields, h⟩ := Work.bind_eval h
  rw [Work.eval_bind, eval_replaceOutboxEntry, Option.bind_some] at h
  obtain rfl := setSyncWatermark_eval h
  have hcond : (decide (version < current) || decide (e.op ≠ .upsert) ||
      LocalStore.deletedRecord e.record || LocalStore.deletedRecord record) = false := by
    simp only [Bool.and_eq_true, decide_eq_true_eq, Bool.not_eq_true'] at hmay
    obtain ⟨⟨⟨hle, hop⟩, hmine⟩, htheirs⟩ := hmay
    rw [hmine, htheirs, decide_eq_false (not_lt.mpr hle), decide_eq_false (not_not.mpr hop)]
    rfl
  have hstore : c₂.store = c.store.takeServerCopy e record :=
    (applyMergedFields_store hfields).trans (takeServerCopy_store hd hcopy).1
  rw [LocalStore.merge, he]
  dsimp only [Option.bind_eq_bind, Option.bind_some]
  rw [hrecord, Option.bind_some, hversion, Option.bind_some, hcurrent, Option.bind_some, hcond,
    ← hstore]
  rfl

end Resolution

end Cache

namespace Operation

def transaction (c : Cache) : Operation → Transaction
  | command cmd t => .edit (cmd.edit c t.now) t
  | markAttempted ids now => .markAttempted ids now
  | acknowledge results => .acknowledge results
  | deleteIds ids => .deleteIds ids
  | deferId changeId err retryAfterSeconds now => .deferId changeId err retryAfterSeconds now
  | blockId changeId err now => .blockId changeId err now
  | releaseAuthentication => .releaseAuthentication
  | applyPull pull => .applyPull pull
  | keepMine changeId expected t => .keepMine changeId expected t
  | useServer changeId expected => .useServer changeId expected
  | merge changeId expected merged t => .merge changeId expected merged t

/-- What a unit of work that returns leaves is what its transaction commits. -/
theorem work_commits {projectId : Uuid} {c c' : Cache} {op : Operation} (hd : c.outbox.Distinct)
    (h : (op.work projectId).eval c = some ((), c')) :
    c.store.commit projectId (op.transaction c) = some c'.store := by
  cases op with
  | command cmd t =>
    replace h : (if cmd.wired then cmd.work t else .raise).eval c = some ((), c') := h
    split at h
    · rename_i hw
      exact (Command.work_done hw h).edited
    · cases h
  | markAttempted ids now =>
    obtain rfl : _ = c' := congrArg Prod.snd (Option.some.inj h)
    rfl
  | acknowledge results => exact Cache.acknowledgeAcceptedResults_store hd h
  | deleteIds ids =>
    obtain rfl : _ = c' := congrArg Prod.snd (Option.some.inj h)
    rfl
  | deferId changeId err retryAfterSeconds now =>
    rw [work, Cache.deferOutboxId, Work.eval_writeTransaction, Work.eval_bind, Work.eval_select,
      Option.bind_some] at h
    dsimp only at h
    split at h
    · obtain rfl : _ = c' := congrArg Prod.snd (Option.some.inj h)
      rfl
    · rename_i hunknown
      obtain rfl : c = c' := congrArg Prod.snd (Option.some.inj h)
      refine congrArg (fun o ↦ some (⟨_, o, c.watermark⟩ : LocalStore)) ?_
      refine (List.map_congr_left fun e he ↦ ?_).trans (List.map_id _)
      have hne : e.changeId ≠ changeId := fun hid ↦
        hunknown (List.any_eq_true.mpr ⟨e, he, decide_eq_true hid⟩)
      simp [hne]
  | blockId changeId err now =>
    obtain rfl : _ = c' := congrArg Prod.snd (Option.some.inj h)
    rfl
  | releaseAuthentication =>
    obtain rfl : _ = c' := congrArg Prod.snd (Option.some.inj h)
    rfl
  | applyPull pull => exact congrArg some (Cache.applyPull_store hd h).symm
  | keepMine changeId expected t => exact Cache.keepMine_store h
  | useServer changeId expected => exact Cache.useServer_store hd h
  | merge changeId expected merged t => exact Cache.merge_store hd h

end Operation

end RiskApp.Client
