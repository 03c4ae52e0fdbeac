import RiskApp.Client.UnitsOfWork

namespace RiskApp.Client

open Lib Server

def Outbox.Named (o : Outbox) : Prop := ∀ e ∈ o, e.record .id = some (.uuid e.entityId)

namespace Outbox.Named

variable {o o' : Outbox}

theorem filter (h : o.Named) (p : Entry → Bool) : Outbox.Named (o.filter p) :=
  fun e he ↦ h e (List.mem_filter.mp he).1

theorem update (h : o.Named) {p : Entry → Bool} {f : Entry → Entry}
    (hf : ∀ e ∈ o, p e = true → e.record .id = some (.uuid e.entityId) →
      (f e).record .id = some (.uuid (f e).entityId)) : (o.update p f).Named := by
  intro e' he'
  obtain ⟨e, he, ⟨hp, rfl⟩ | ⟨-, rfl⟩⟩ := Outbox.mem_update he'
  · exact hf e he hp (h e he)
  · exact h e' he

theorem insertEntry (h : o.Named) {d : Outbox.Draft} {b : Option ℤ}
    (hd : d.record .id = some (.uuid d.entityId)) : (o.insertEntry d b).Named := by
  intro e he
  rcases Outbox.mem_insertEntry he with rfl | ⟨he, -⟩
  · exact hd
  · exact h e he

theorem refreshed (h : o.Named) (hr : o.Refreshed o') : o'.Named := by
  intro e' he'
  obtain ⟨e, he, out, rfl⟩ := hr.mem he'
  exact h e he

end Outbox.Named

theorem Edit.record_id (op : Edit) : op.record .id = some (.uuid op.key.2) := by
  cases op with
  | upsertMyAssessment assessmentId form version =>
    have hrecord : form.record assessmentId .id = some (.uuid assessmentId) := by
      unfold AssessmentForm.record
      by_cases hrisk : form.itemType = .risk <;> simp [hrisk, Dict.ofList, Dict.set]
    exact hrecord
  | _ => rfl

namespace LocalStore

variable {projectId : Uuid} {s s' : LocalStore} {tx : Transaction}

theorem withServerCode_of_ne {a : Attr} (entity : Entity) (record : Dict)
    (serverRecord : Option Dict) (ha : a ≠ .code) :
    withServerCode entity record serverRecord a = record a := by
  unfold withServerCode
  split
  · split
    · exact Dict.set_of_ne _ _ ha
    · rfl
  · rfl

theorem edit_named {op : Edit} {t : Stamp} (h : Edited s op t s') (hd : s.outbox.Distinct)
    (hn : s.outbox.Named) : s'.outbox.Named := by
  cases h with
  | rewritten joins entry conflict saved row =>
    obtain ⟨hmem, hkey⟩ := Outbox.entry_some entry
    refine hn.update fun e he hp _ ↦ ?_
    obtain rfl := hd.eq_of_id he hmem (of_decide_eq_true hp)
    exact (op.record_id).trans (congrArg (fun k : EntityKey ↦ some (Val.uuid k.2)) hkey.symm)
  | queued base saved row => exact hn.insertEntry op.record_id
  | discarded delete unsynced unsent row gone => exact hn.filter _

theorem takeServerCopy_named {e : Entry} {record : Dict} (hd : s.outbox.Distinct)
    (hn : s.outbox.Named) (hmem : e ∈ s.outbox) (hid : recordId record = some e.entityId) :
    (s.takeServerCopy e record).outbox.Named := by
  rw [Device.takeServerCopy_outbox hd hmem hid]
  exact hn.filter _

theorem commit_named (h : s.commit projectId tx = some s') (hd : s.outbox.Distinct)
    (hn : s.outbox.Named) : s'.outbox.Named := by
  cases tx with
  | edit op t => exact edit_named (edit_edited hd h) hd hn
  | acknowledge results =>
    refine (acknowledgeAcceptedResults_induction (P := fun s ↦ s.outbox.Named)
      (fun s result s' _ hd hn hack ↦ ?_) hd hn h).2
    cases hack with
    | passed => exact hn
    | applied => exact hn.filter _
    | settled => exact hn.filter _
    | advanced mem gone entity entityId queued version row =>
      refine hn.update fun e he hp hrecord ↦ ?_
      obtain rfl := hd.eq_of_id he mem (of_decide_eq_true hp)
      exact (withServerCode_of_ne _ _ _ (by decide)).trans hrecord
  | deleteIds ids =>
    obtain rfl := Option.some.inj h
    exact hn.filter _
  | applyPull pull =>
    obtain rfl := Option.some.inj h
    obtain ⟨t, ht, he⟩ := applyPull_pulls s pull
    rw [he]
    exact hn.refreshed ht.outbox
  | keepMine changeId expected t =>
    obtain ⟨e, he, -, -, version, rfl⟩ := Device.keepMine_some h
    exact hn.insertEntry (hn e he)
  | useServer changeId expected =>
    obtain ⟨e, he, -, -, record, hrecord, rfl⟩ := Device.useServer_some h
    exact takeServerCopy_named hd hn he hrecord
  | merge changeId expected merged t =>
    obtain ⟨e, he, -, -, record, version, hrecord, rfl⟩ := Device.merge_some h
    exact (takeServerCopy_named hd hn he hrecord).insertEntry
      (Dict.set_same merged .id (.uuid e.entityId))
  | _ =>
    obtain rfl := Option.some.inj h
    exact hn.update fun _ _ _ he ↦ he

end LocalStore

theorem Cache.Reaches.named {projectId : Uuid} {c c' : Cache} (h : Cache.Reaches projectId c c')
    (hc : c.Sound) (hn : c.outbox.Named) : c'.outbox.Named := by
  induction h with
  | refl => exact hn
  | @tail b c' hb hs ih =>
    obtain ⟨op, faults, hfresh, rfl⟩ := hs
    have hd := (Cache.Reaches.sound hb hc).distinct
    rcases op.work_after projectId faults b with hsame | hdone
    · rw [hsame]
      exact ih
    · exact LocalStore.commit_named (Operation.work_commits hd hdone) hd ih

def resultMatchesChange (projectId : Uuid) (r : ChangeResult) (e : Entry) : Bool :=
  r.entity = e.entity &&
    (!(e.record.get .id).truthy || r.entityId.all (fun id ↦ .uuid id = e.record.get .id)) &&
    (serverRecord r).all fun record ↦
      (!(e.record.get .id).truthy || record.get .id ∈ [.null, e.record.get .id]) &&
        record.get .projectId ∈ [.null, .uuid projectId]

def validatedPushResults (projectId : Uuid) (changes : Outbox) (results : List ChangeResult) :
    Option (List ChangeResult) :=
  if results ≠ [] ∧ (results.map ChangeResult.changeId).Nodup ∧
      (∀ r ∈ results, ∃ e ∈ changes, e.changeId = r.changeId ∧ resultMatchesChange projectId r e) ∧
      (∀ e ∈ changes, ∃ r ∈ results, r.changeId = e.changeId)
  then some results else none

theorem resultMatchesChange_names {projectId : Uuid} {r : ChangeResult} {e : Entry}
    (hn : e.record .id = some (.uuid e.entityId)) (h : resultMatchesChange projectId r e = true) :
    r.entity = e.entity ∧ (∀ id, r.entityId = some id → id = e.entityId) ∧
      ∀ record id, serverRecord r = some record → recordId record = some id →
        id = e.entityId := by
  have hget : e.record.get .id = .uuid e.entityId := by rw [Dict.get, hn]; rfl
  have htrue : (Val.uuid e.entityId).truthy = true := rfl
  simp only [resultMatchesChange, hget, htrue, Bool.not_true, Bool.false_or, Bool.and_eq_true,
    decide_eq_true_eq] at h
  obtain ⟨⟨hentity, hid⟩, hrecord⟩ := h
  refine ⟨hentity, fun id hname ↦ ?_, fun record id hserver hname ↦ ?_⟩
  · rw [hname] at hid
    exact Val.uuid.inj (of_decide_eq_true hid)
  · rw [hserver] at hrecord
    simp only [Option.all_some, Bool.and_eq_true, decide_eq_true_eq] at hrecord
    unfold recordId at hname
    split at hname
    · rename_i u hu
      obtain rfl := Option.some.inj hname
      rw [hu] at hrecord
      simpa using hrecord.1
    · cases hname

theorem validatedPushResults_some {projectId : Uuid} {changes : Outbox}
    {raw results : List ChangeResult}
    (h : validatedPushResults projectId changes raw = some results) :
    (results.map ChangeResult.changeId).Nodup ∧ ∀ r ∈ results, ∃ e ∈ changes,
      e.changeId = r.changeId ∧ resultMatchesChange projectId r e = true := by
  unfold validatedPushResults at h
  split at h
  · rename_i hall
    obtain rfl := Option.some.inj h
    exact ⟨hall.2.1, hall.2.2.1⟩
  · cases h

/-- The results that `_acknowledge` passes to `acknowledge_accepted_results`. -/
def acknowledged (results : List ChangeResult) : List ChangeResult :=
  results.filter fun r ↦ r.status = .accepted && hasServerState r

/-- What can happen to the store while a push waits for its answer. -/
def Operation.InFlight : Operation → Prop
  | .command _ _ => True
  | .markAttempted _ _ => True
  | _ => False

namespace Cache

/-- One unit of work while that batch is on its way; ids are not drawn twice. -/
def FlightStep (projectId : Uuid) (batch : Outbox) (c c' : Cache) : Prop :=
  ∃ op : Operation, ∃ faults, op.InFlight ∧ op.Fresh c ∧
    (∀ id, (op.transaction c).draws = some id → ∀ e ∈ batch, e.changeId ≠ id) ∧
    c' = (op.work projectId).after faults c

def Flight (projectId : Uuid) (batch : Outbox) : Cache → Cache → Prop :=
  Relation.ReflTransGen (FlightStep projectId batch)

variable {projectId : Uuid} {batch : Outbox} {c c' : Cache} {k : EntityKey}

theorem Flight.reaches (h : Flight projectId batch c c') : Reaches projectId c c' := by
  induction h with
  | refl => exact .refl
  | tail _ hs ih =>
    obtain ⟨op, faults, -, hfresh, -, rfl⟩ := hs
    exact ih.tail ⟨op, faults, hfresh, rfl⟩

/-- What holds while the batch is on its way: its ids stay with their entities, and the entry of an
entity that was sent is not blocked. -/
structure Flying (batch : Outbox) (k : EntityKey) (c : Cache) : Prop where
  ids : ∀ e ∈ c.outbox, ∀ e' ∈ batch, e.changeId = e'.changeId → e.key = e'.key
  queued : ∀ e, c.outbox.entry k = some e → e.queued = true

theorem queued_update {o : Outbox} {p : Entry → Bool} {f : Entry → Entry}
    (hkey : ∀ e, (f e).key = e.key) (hf : ∀ e, (f e).queued = e.queued)
    (h : ∀ e, o.entry k = some e → e.queued = true) (e : Entry)
    (he : (o.update p f).entry k = some e) : e.queued = true := by
  rw [Outbox.entry_update hkey] at he
  obtain ⟨e₁, he₁, rfl⟩ := Option.map_eq_some_iff.mp he
  split
  · rw [hf]
    exact h e₁ he₁
  · exact h e₁ he₁

theorem flying_edited {s s' : LocalStore} {op : Edit} {t : LocalStore.Stamp}
    (h : Edited s op t s')
    (hids : ∀ e ∈ s.outbox, ∀ e' ∈ batch, e.changeId = e'.changeId → e.key = e'.key)
    (hnew : ∀ e ∈ batch, e.changeId ≠ t.changeId)
    (hqueued : ∀ e, s.outbox.entry k = some e → e.queued = true) :
    (∀ e ∈ s'.outbox, ∀ e' ∈ batch, e.changeId = e'.changeId → e.key = e'.key) ∧
      ∀ e, s'.outbox.entry k = some e → e.queued = true := by
  cases h with
  | @rewritten e₀ rows joins entry conflict saved row =>
    refine ⟨fun e he e' he' hid ↦ ?_, fun e he ↦ ?_⟩
    · obtain ⟨e₁, hmem, ⟨-, rfl⟩ | ⟨-, rfl⟩⟩ := Outbox.mem_update he
      · exact hids e₁ hmem e' he' hid
      · exact hids e hmem e' he' hid
    · exact queued_update (f := Entry.rewrite op.op op.record) (fun _ ↦ rfl) (fun _ ↦ rfl) hqueued
        e he
  | queued base saved row =>
    refine ⟨fun e he e' he' hid ↦ ?_, fun e he ↦ ?_⟩
    · rcases Outbox.mem_insertEntry he with rfl | ⟨hmem, -⟩
      · exact absurd hid.symm (hnew e' he')
      · exact hids e hmem e' he' hid
    · have hfind : (s.outbox.insertEntry (op.draft t) _).entry k = some e := he
      rw [Outbox.entry_insertEntry] at hfind
      split at hfind
      · obtain rfl := Option.some.inj hfind
        rfl
      · exact hqueued e hfind
  | discarded delete unsynced unsent row gone =>
    refine ⟨fun e he ↦ hids e (List.mem_filter.mp he).1, fun e he ↦ ?_⟩
    have hfind : (s.outbox.deleteOpenEntries op.key).entry k = some e := he
    rw [Outbox.entry_deleteOpenEntries] at hfind
    split at hfind
    · cases hfind
    · exact hqueued e hfind

theorem Flying.step (h : Flying batch k c) (hd : c.outbox.Distinct)
    (hs : FlightStep projectId batch c c') : Flying batch k c' := by
  obtain ⟨op, faults, hflight, -, hnew, rfl⟩ := hs
  rcases op.work_after projectId faults c with hsame | hdone
  · rw [hsame]
    exact h
  · have hcommit := Operation.work_commits hd hdone
    generalize hc' : (op.work projectId).after faults c = c' at hcommit
    cases op with
    | command cmd t =>
      obtain ⟨hids, hqueued⟩ := flying_edited (LocalStore.edit_edited hd hcommit) h.ids
        (hnew t.changeId rfl) h.queued
      exact ⟨hids, hqueued⟩
    | markAttempted ids now =>
      have hout : c'.outbox = c.outbox.markOutboxIdsAttempted ids now :=
        (congrArg LocalStore.outbox (Option.some.inj hcommit)).symm
      refine ⟨fun e he e' he' hid ↦ ?_, fun e he ↦ ?_⟩
      · rw [hout] at he
        obtain ⟨e₁, hmem, ⟨-, rfl⟩ | ⟨-, rfl⟩⟩ := Outbox.mem_update he
        · exact h.ids e₁ hmem e' he' hid
        · exact h.ids e hmem e' he' hid
      · rw [hout] at he
        exact queued_update (f := Entry.attempted now) (fun _ ↦ rfl) (fun _ ↦ rfl) h.queued e he
    | _ => cases hflight

theorem Flight.flying (h : Flight projectId batch c c') (hc : c.Sound) (hf : Flying batch k c) :
    Flying batch k c' := by
  induction h with
  | refl => exact hf
  | tail hb hs ih => exact ih.step ((Flight.reaches hb).sound hc).distinct hs

end Cache

end RiskApp.Client
