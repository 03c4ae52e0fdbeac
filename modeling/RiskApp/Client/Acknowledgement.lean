import RiskApp.Client.InFlight

namespace RiskApp.Client

open Lib Server

/-- The server row as `apply_push_acknowledgement` passes it on. -/
def ackRecord (projectId : Uuid) (k : EntityKey) (record : Dict) : Dict :=
  (record.set .id (.uuid k.2)).set .projectId (.uuid projectId)

def followedCode (entity : Entity) (result : ChangeResult) : Option Val :=
  if entity.scored then (serverRecord result).bind fun record ↦ record .code else none

theorem withServerCode_eq (entity : Entity) (record : Dict) (result : ChangeResult) :
    LocalStore.withServerCode entity record (serverRecord result) =
      match followedCode entity result with
      | some code => record.set .code code
      | none => record := by
  unfold LocalStore.withServerCode followedCode
  cases serverRecord result with
  | none => cases entity.scored <;> rfl
  | some server =>
    cases entity.scored with
    | false => rfl
    | true =>
      have hbind : (some server).bind (fun record ↦ record .code) = server .code := rfl
      simp only [Bool.true_and, if_true, hbind]
      unfold Dict.has Dict.get
      cases server .code <;> rfl

/-- What `_advance_replacement` passes on of the server row: of a replay only its identity. -/
def keptRecord (result : ChangeResult) : Option Dict :=
  if result.replayed && acknowledgedVersion result ≠ serverVersion result then
    (serverRecord result).map LocalStore.replayIdentity
  else serverRecord result

def advancedVersion (result : ChangeResult) : Option ℤ :=
  (acknowledgedVersion result).or
    (LocalStore.strictVersion ((keptRecord result).getD Dict.empty))

namespace Cache

/-- An accepted change that is still queued is answered. -/
inductive AcknowledgesSent (projectId : Uuid) (t : Cache) (sent : Entry) (result : ChangeResult) :
    Cache → Prop
  | copied {record : Dict} {columns : Columns} (state : serverRecord result = some record)
      (built : (t.setOutbox (·.deleteOutboxIds [sent.changeId])).pulledColumns sent.entity
        (ackRecord projectId sent.key record) = some columns) :
      AcknowledgesSent projectId t sent result
        ((t.setOutbox (·.deleteOutboxIds [sent.changeId])).takeRecord sent.key
          (ackRecord projectId sent.key record) columns)
  | versioned {v : ℤ} (state : serverRecord result = none)
      (version : serverVersion result = some v) :
      AcknowledgesSent projectId t sent result
        ((t.setOutbox (·.deleteOutboxIds [sent.changeId])).updateRows (·.key = sent.key)
          (versionedRow v))
  | removed (state : serverRecord result = none) (version : serverVersion result = none) :
      AcknowledgesSent projectId t sent result (t.setOutbox (·.deleteOutboxIds [sent.changeId]))

/-- A newer change follows the answer of the one it replaced. -/
inductive AdvancesReplacement (t : Cache) (result : ChangeResult) : Cache → Prop
  | passed (alone : ∀ e ∈ t.outbox, e.queued = true → result.entity = e.entity →
      result.entityId ≠ some e.entityId) : AdvancesReplacement t result t
  | advanced {e : Entry} (mem : e ∈ t.outbox) (entity : result.entity = e.entity)
      (entityId : result.entityId = some e.entityId) (queued : e.queued = true) :
      AdvancesReplacement t result
        ((t.setOutbox (·.update (·.changeId = e.changeId) (Entry.advanced
            (LocalStore.advancedBase e.baseVersion (acknowledgedVersion result))
            (LocalStore.withServerCode e.entity e.record (serverRecord result))))).updateRows
          (·.key = e.key) (advanceRow (advancedVersion result) (followedCode e.entity result)))

variable {projectId : Uuid} {t t' : Cache} {result : ChangeResult}

theorem applyPullEntities_single {entity : Entity} {id : Uuid} {record : Dict}
    (hid : recordId record = some id) (hfree : id ∉ t.store.pendingOutboxIds entity)
    (h : (applyPullEntities entity [record]).eval t = some ((), t')) :
    ∃ columns, t.pulledColumns entity record = some columns ∧
      t' = t.takeRecord (entity, id) record columns := by
  obtain ⟨⟨⟩, t₁, hstep, hnil⟩ := Work.bind_eval (applyPullEntities_eval h)
  obtain rfl : t₁ = t' := congrArg Prod.snd (Option.some.inj hnil)
  cases pullRecord_pulls hstep with
  | skipped nameless => cases hid.symm.trans nameless
  | @kept id' _ named pending remembered =>
    obtain rfl : id = id' := Option.some.inj (hid.symm.trans named)
    exact absurd pending hfree
  | @saved id' columns named free built =>
    obtain rfl : id = id' := Option.some.inj (hid.symm.trans named)
    exact ⟨columns, built, rfl⟩

def ResultOf (result : ChangeResult) (sent : Entry) : Prop :=
  result.entity = sent.entity ∧ ∀ id, result.entityId = some id → id = sent.entityId

theorem acknowledgeSent_eval {sent : Entry} (hd : t.outbox.Distinct) (hsent : sent ∈ t.outbox)
    (h : (acknowledgeSent projectId sent result).eval t = some ((), t')) :
    ResultOf result sent ∧ AcknowledgesSent projectId t sent result t' := by
  obtain ⟨hmatch, h⟩ := require_eval h
  rw [Work.eval_bind, changeOutbox, Work.eval_modify, Option.bind_some] at h
  simp only [Bool.and_eq_true, decide_eq_true_eq] at hmatch
  refine ⟨⟨hmatch.1, fun id hid ↦ ?_⟩, ?_⟩
  · have hnamed := hmatch.2
    rw [hid] at hnamed
    exact of_decide_eq_true hnamed
  unfold applyPushAcknowledgement at h
  cases hrecord : serverRecord result with
  | some record =>
    rw [hrecord] at h
    obtain ⟨-, h⟩ := require_eval h
    obtain ⟨-, h⟩ := require_eval h
    obtain ⟨columns, hbuilt, rfl⟩ :=
      applyPullEntities_single rfl (pending_deleteOutboxIds (s := t.store) hd hsent) h
    exact .copied hrecord hbuilt
  | none =>
    rw [hrecord] at h
    cases hv : serverVersion result with
    | none =>
      rw [hv] at h
      obtain rfl : _ = t' := congrArg Prod.snd (Option.some.inj h)
      exact .removed hrecord hv
    | some v =>
      rw [hv] at h
      obtain rfl : _ = t' := congrArg Prod.snd (Option.some.inj h)
      exact .versioned hrecord hv

theorem advanceRow_none (r : CachedRow) : advanceRow none none r = r := by
  simp [advanceRow]

theorem assignedCode_eq (entity : Entity) (serverRecord : Option Dict) :
    (if entity.scored && (serverRecord.getD Dict.empty).has .code then
      some ((serverRecord.getD Dict.empty).get .code) else none) =
      if entity.scored then serverRecord.bind fun record ↦ record .code else none := by
  cases entity.scored with
  | false => rfl
  | true =>
    cases serverRecord with
    | none => rfl
    | some record =>
      have hbind : (some record).bind (fun record ↦ record .code) = record .code := rfl
      simp only [Bool.true_and, if_true, Option.getD_some, hbind]
      unfold Dict.has Dict.get
      cases record .code <;> rfl

theorem advancePushAcknowledgement_eval {k : EntityKey} {version : Option ℤ}
    {serverRecord : Option Dict}
    (h : (advancePushAcknowledgement projectId k version serverRecord).eval t = some ((), t')) :
    t' = t.updateRows (·.key = k) (advanceRow
      (version.or (LocalStore.strictVersion (serverRecord.getD Dict.empty)))
      (if k.1.scored then serverRecord.bind fun record ↦ record .code else none)) := by
  obtain ⟨-, h⟩ := require_eval h
  obtain ⟨-, h⟩ := require_eval h
  rw [assignedCode_eq] at h
  generalize (if k.1.scored then serverRecord.bind fun record ↦ record .code else none) = code
    at h ⊢
  generalize version.or (LocalStore.strictVersion (serverRecord.getD .empty)) = v at h ⊢
  dsimp only at h
  split at h
  · rename_i hnone
    obtain rfl : t = t' := congrArg Prod.snd (Option.some.inj h)
    simp only [Bool.and_eq_true, Option.isNone_iff_eq_none] at hnone
    obtain ⟨rfl, rfl⟩ := hnone
    have hrows : (t.rows.map fun r ↦ if decide (r.key = k) = true then advanceRow none none r
        else r) = t.rows := by
      refine (List.map_congr_left fun r _ ↦ ?_).trans (List.map_id _)
      rw [advanceRow_none, ite_self]
      rfl
    rw [updateRows, hrows]
  · obtain ⟨⟨⟩, t₁, hupdate, hcommit⟩ := Work.bind_eval h
    obtain rfl : t₁ = t' := congrArg Prod.snd (Option.some.inj hcommit)
    rw [Work.eval_statement] at hupdate
    split at hupdate
    · cases hupdate
    · exact (congrArg Prod.snd (Option.some.inj hupdate)).symm

theorem keptCode_eq (entity : Entity) (result : ChangeResult) :
    (if entity.scored then (keptRecord result).bind fun record ↦ record .code else none) =
      followedCode entity result := by
  have hkept : (keptRecord result).bind (fun record ↦ record .code) =
      (serverRecord result).bind fun record ↦ record .code := by
    unfold keptRecord
    split
    · cases serverRecord result <;> rfl
    · rfl
  rw [hkept]
  rfl

theorem advanceReplacement_eval
    (h : (advanceReplacement projectId result).eval t = some ((), t')) :
    AdvancesReplacement t result t' := by
  unfold advanceReplacement at h
  cases hid : result.entityId with
  | none =>
    rw [hid] at h
    obtain rfl : t = t' := congrArg Prod.snd (Option.some.inj h)
    exact .passed fun e _ _ _ he ↦ by cases hid.symm.trans he
  | some entityId =>
    rw [hid] at h
    dsimp only at h
    rw [Work.eval_bind, Work.eval_select, Option.bind_some] at h
    cases hr : (Outbox.oldestFirst (t.outbox.filter fun e ↦
      e.key = (result.entity, entityId) && e.queued)).head? with
    | none =>
      rw [hr] at h
      obtain rfl : t = t' := congrArg Prod.snd (Option.some.inj h)
      refine .passed fun e he hq hentity hname ↦ ?_
      have hempty := List.head?_eq_none_iff.mp hr
      have hin : e ∈ t.outbox.filter fun e ↦ e.key = (result.entity, entityId) && e.queued := by
        refine List.mem_filter.mpr ⟨he, ?_⟩
        have hkey : e.key = (result.entity, entityId) :=
          Prod.ext hentity.symm (Option.some.inj (hid.symm.trans hname)).symm
        rw [decide_eq_true hkey, hq]
        rfl
      have hsorted := (List.mem_insertionSort fun e f : Entry ↦ e.createdAt ≤ f.createdAt).mpr hin
      have hnone : List.insertionSort (fun e f : Entry ↦ e.createdAt ≤ f.createdAt)
          (t.outbox.filter fun e ↦ e.key = (result.entity, entityId) && e.queued) = [] := hempty
      rw [hnone] at hsorted
      cases hsorted
    | some e =>
      rw [hr] at h
      dsimp only at h
      have hfilter := (List.mem_insertionSort _).mp (List.mem_of_mem_head? hr)
      obtain ⟨hin, hp⟩ := List.mem_filter.mp hfilter
      simp only [Bool.and_eq_true, decide_eq_true_eq] at hp
      obtain ⟨hkey, hqueued⟩ := hp
      rw [← hkey, Work.eval_bind, changeOutbox, Work.eval_modify, Option.bind_some] at h
      have hafter := @advancePushAcknowledgement_eval _ _ _ e.key _ (keptRecord result) h
      have hentity : result.entity = e.entity := (congrArg Prod.fst hkey).symm
      rw [keptCode_eq] at hafter
      rw [hafter, hentity]
      exact .advanced hin hentity
        (hid.trans (congrArg (fun k : EntityKey ↦ some k.2) hkey).symm) hqueued

theorem acknowledgeResult_eval (hd : t.outbox.Distinct) (ha : result.status = .accepted)
    (h : (acknowledgeResult projectId result).eval t = some ((), t')) :
    (∃ sent ∈ t.outbox, sent.changeId = result.changeId ∧ ResultOf result sent ∧
      AcknowledgesSent projectId t sent result t') ∨
    ((∀ e ∈ t.outbox, e.changeId ≠ result.changeId) ∧ AdvancesReplacement t result t') := by
  unfold acknowledgeResult at h
  rw [if_neg (by simp [ha]), Work.eval_bind, Work.eval_select, Option.bind_some] at h
  cases hsent : t.outbox.find? (·.changeId = result.changeId) with
  | some sent =>
    rw [hsent] at h
    have hmem := List.mem_of_find?_eq_some hsent
    obtain ⟨hof, hack⟩ := acknowledgeSent_eval hd hmem h
    exact Or.inl ⟨sent, hmem, by simpa using List.find?_some hsent, hof, hack⟩
  | none =>
    rw [hsent] at h
    refine Or.inr ⟨fun e he ↦ ?_, advanceReplacement_eval h⟩
    simpa using List.find?_eq_none.mp hsent e he

end Cache

end RiskApp.Client
