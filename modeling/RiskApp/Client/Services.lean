import RiskApp.Client.Outbox

namespace RiskApp.Client

open Lib Server

/-- What synchronization reads of a row of the local tables. -/
structure LocalRow where
  entity : Entity
  id : Uuid
  version : ℤ
  isDeleted : Bool
  deriving DecidableEq

def LocalRow.key (r : LocalRow) : EntityKey := (r.entity, r.id)

/-- The part of the SQLite database that belongs to one project. `watermark` is
`last_server_sequence`. -/
structure LocalStore where
  rows : List LocalRow := []
  outbox : Outbox := []
  watermark : ℕ := 0

namespace LocalStore

def row (s : LocalStore) (k : EntityKey) : Option LocalRow := Table.find LocalRow.key k s.rows

/-- `get_*_project_and_version`: none is the `KeyError`. -/
def version (s : LocalStore) (k : EntityKey) : Option ℤ := (s.row k).map LocalRow.version

/-- The server has not given the row a version. -/
def Unsynced (s : LocalStore) (k : EntityKey) : Prop := ∃ version < 1, s.version k = some version

def upsertRow (s : LocalStore) (r : LocalRow) : LocalStore :=
  { s with rows := Table.upsert LocalRow.key r s.rows }

def softDelete (s : LocalStore) (k : EntityKey) : LocalStore :=
  { s with rows := s.rows.map (fun r ↦ if r.key = k then { r with isDeleted := true } else r) }

def deleteRow (s : LocalStore) (k : EntityKey) : LocalStore :=
  { s with rows := s.rows.filter (·.key ≠ k) }

structure Stamp where
  changeId : Uuid
  now : Time

def draft (k : EntityKey) (op : ChangeOp) (baseVersion : Option ℤ) (record : Dict) (t : Stamp) :
    Outbox.Draft :=
  ⟨t.changeId, t.now, k.1, op, k.2, baseVersion, record⟩

def queueUpsert (s : LocalStore) (k : EntityKey) (record : Dict) (t : Stamp) :
    Option LocalStore := do
  let ver ← s.version k
  let base := if 1 ≤ ver then some ver else none
  return { s with outbox := s.outbox.replaceOutboxEntry (draft k .upsert base record t) false }

def queueDelete (s : LocalStore) (k : EntityKey) (t : Stamp) : Option LocalStore := do
  let ver ← s.version k
  let record := Dict.empty.set .id (.uuid k.2)
  if 1 ≤ ver then
    return { s with outbox := s.outbox.replaceOutboxEntry (draft k .delete ver record t) false }
  else if s.outbox.remoteCreateMayExist k then
    return { s with outbox := s.outbox.replaceOutboxEntry (draft k .delete (some 1) record t) true }
  else
    return { s with outbox := s.outbox.deleteOpenEntries k }

end LocalStore

def scoredAllowedKeys : List Attr :=
  [.id, .title, .probability, .impact, .code, .description, .category, .threat, .triggers,
    .mitigationPlan, .documentUrl, .ownerUserId, .status, .identifiedAt, .statusChangedAt,
    .responseAt, .occurredAt, .impactCost, .impactTime, .impactScope, .impactQuality, .isDeleted,
    .createdAt, .createdBy]

def scoredRecord (entityId : Uuid) (record : Dict) : Dict :=
  let clean : Dict := fun a ↦ if a ∈ scoredAllowedKeys then record a else none
  (((clean.set .id (.uuid entityId)).set .title
    (Val.orElse (clean.get .title) (.str ""))).set .probability
    (.int (intOrOne (clean.get .probability)))).set .impact (.int (intOrOne (clean.get .impact)))

structure ActionForm where
  targetType : Entity
  targetId : Uuid
  kind : Val
  title : Val
  description : Val
  status : Val
  ownerUserId : Val

def ActionForm.record (f : ActionForm) (actionId : Uuid) : Dict :=
  .ofList [(.riskId, if f.targetType = .risk then .uuid f.targetId else .null),
    (.opportunityId, if f.targetType = .opportunity then .uuid f.targetId else .null),
    (.kind, f.kind), (.title, f.title), (.description, Val.orElse f.description (.str "")),
    (.status, Val.orElse f.status (.str "open")), (.ownerUserId, f.ownerUserId),
    (.id, .uuid actionId)]

structure AssessmentForm where
  itemType : Entity
  itemId : Uuid
  probability : ℤ
  impact : ℤ
  notes : Val

def AssessmentForm.record (f : AssessmentForm) (assessmentId : Uuid) : Dict :=
  .ofList [(.itemId, .uuid f.itemId),
    (if f.itemType = .risk then .riskId else .opportunityId, .uuid f.itemId),
    (.probability, .int f.probability), (.impact, .int f.impact),
    (.notes, Val.orElse f.notes (.str "")), (.id, .uuid assessmentId)]

structure TicketForm where
  title : Val
  description : Val
  category : Val
  priority : Val
  status : Val
  reporterEmail : Val

def TicketForm.record (f : TicketForm) (ticketId : Uuid) : Dict :=
  .ofList [(.title, f.title), (.description, f.description), (.category, f.category),
    (.priority, f.priority), (.status, f.status), (.reporterEmail, f.reporterEmail),
    (.id, .uuid ticketId)]

/-- The writes of the user, with the ids the services draw. A scored record is the one the service
assembled from the form and the stored row; an assessment's id is derived from its item and its
assessor, and its version was read before the transaction. -/
inductive Edit
  | createScored (entity : Entity) (entityId : Uuid) (record : Dict)
  | updateScored (entity : Entity) (entityId : Uuid) (record : Dict) (baseVersion : Option ℤ)
  | deleteScored (entity : Entity) (entityId : Uuid)
  | createTicket (ticketId : Uuid) (form : TicketForm)
  | updateTicket (ticketId : Uuid) (form : TicketForm)
  | deleteTicket (ticketId : Uuid)
  | createAction (actionId : Uuid) (form : ActionForm)
  | updateAction (actionId : Uuid) (form : ActionForm) (baseVersion : Option ℤ)
  | upsertMyAssessment (assessmentId : Uuid) (form : AssessmentForm) (version : ℤ)

namespace Edit

def key : Edit → EntityKey
  | createScored entity entityId _ => (entity, entityId)
  | updateScored entity entityId _ _ => (entity, entityId)
  | deleteScored entity entityId => (entity, entityId)
  | createTicket ticketId _ => (.helpdeskTicket, ticketId)
  | updateTicket ticketId _ => (.helpdeskTicket, ticketId)
  | deleteTicket ticketId => (.helpdeskTicket, ticketId)
  | createAction actionId _ => (.action, actionId)
  | updateAction actionId _ _ => (.action, actionId)
  | upsertMyAssessment assessmentId _ _ => (.assessment, assessmentId)

def op : Edit → ChangeOp
  | deleteScored _ _ | deleteTicket _ => .delete
  | _ => .upsert

def record : Edit → Dict
  | createScored _ entityId record => scoredRecord entityId record
  | updateScored _ entityId record _ => scoredRecord entityId record
  | createTicket ticketId form => form.record ticketId
  | updateTicket ticketId form => form.record ticketId
  | createAction actionId form => form.record actionId
  | updateAction actionId form _ => form.record actionId
  | upsertMyAssessment assessmentId form _ => form.record assessmentId
  | deleteScored _ entityId => Dict.empty.set .id (.uuid entityId)
  | deleteTicket ticketId => Dict.empty.set .id (.uuid ticketId)

def baseVersion : Edit → Option ℤ
  | updateScored _ _ _ baseVersion => baseVersion
  | updateAction _ _ baseVersion => baseVersion
  | _ => none

/-- The services for risks and opportunities take no other entity. -/
def wired : Edit → Bool
  | createScored entity _ _ => entity.scored
  | updateScored entity _ _ _ => entity.scored
  | deleteScored entity _ => entity.scored
  | _ => true

end Edit

namespace LocalStore

def saveAndQueue (s : LocalStore) (k : EntityKey) (version : ℤ) (isDeleted : Bool) (record : Dict)
    (t : Stamp) : Option LocalStore :=
  (s.upsertRow ⟨k.1, k.2, version, isDeleted⟩).queueUpsert k record t

/-- `override_base_version`, in the transaction of the update. -/
def rebased (s : LocalStore) (k : EntityKey) (baseVersion : Option ℤ) : LocalStore :=
  { s with outbox := s.outbox.overrideBaseVersion k baseVersion }

def updateScored (s : LocalStore) (k : EntityKey) (record : Dict) (baseVersion : Option ℤ)
    (t : Stamp) : Option LocalStore := do
  let version ← s.version k
  let s ← s.saveAndQueue k version false (scoredRecord k.2 record) t
  return s.rebased k baseVersion

def deleteScored (s : LocalStore) (k : EntityKey) (t : Stamp) : Option LocalStore := do
  let version ← s.version k
  let s := s.softDelete k
  if version < 1 && !s.outbox.remoteCreateMayExist k then
    return { s with outbox := s.outbox.deleteOpenEntries k }
  else s.queueDelete k t

def updateTicket (s : LocalStore) (k : EntityKey) (form : TicketForm) (t : Stamp) :
    Option LocalStore := do
  let _ ← s.row k
  s.queueUpsert k (form.record k.2) t

/-- `HelpDeskService.delete`: an unsent ticket leaves the local table too. -/
def deleteTicket (s : LocalStore) (k : EntityKey) (t : Stamp) : Option LocalStore := do
  let version ← s.version k
  if version < 1 && !s.outbox.remoteCreateMayExist k then
    return { s.deleteRow k with outbox := s.outbox.deleteOpenEntries k }
  else (s.softDelete k).queueDelete k t

def updateAction (s : LocalStore) (k : EntityKey) (form : ActionForm) (baseVersion : Option ℤ)
    (t : Stamp) : Option LocalStore := do
  let version ← s.version k
  let s ← s.saveAndQueue k version false (form.record k.2) t
  return s.rebased k baseVersion

/-- One user write: none when it raises, and then nothing is written. -/
def edit (s : LocalStore) (op : Edit) (t : Stamp) : Option LocalStore :=
  if !op.wired then none
  else match op with
    | .createScored _ entityId record =>
      s.saveAndQueue op.key 0 false (scoredRecord entityId record) t
    | .updateScored _ _ record baseVersion => s.updateScored op.key record baseVersion t
    | .deleteScored _ _ => s.deleteScored op.key t
    | .createTicket ticketId form => s.saveAndQueue op.key 0 false (form.record ticketId) t
    | .updateTicket _ form => s.updateTicket op.key form t
    | .deleteTicket _ => s.deleteTicket op.key t
    | .createAction actionId form => s.saveAndQueue op.key 0 false (form.record actionId) t
    | .updateAction _ form baseVersion => s.updateAction op.key form baseVersion t
    | .upsertMyAssessment assessmentId form version =>
      s.saveAndQueue op.key version false (form.record assessmentId) t

end LocalStore

def Edit.savedRow (op : Edit) (r : Option LocalRow) : Option LocalRow :=
  match op with
  | .createScored _ _ _ | .createTicket _ _ | .createAction _ _ =>
    some ⟨op.key.1, op.key.2, 0, false⟩
  | .upsertMyAssessment _ _ version => some ⟨op.key.1, op.key.2, version, false⟩
  | .updateScored _ _ _ _ | .updateAction _ _ _ => r.map fun r ↦ { r with isDeleted := false }
  | .updateTicket _ _ => r
  | .deleteScored _ _ | .deleteTicket _ => r.map fun r ↦ { r with isDeleted := true }

def Edit.draft (op : Edit) (t : LocalStore.Stamp) : Outbox.Draft :=
  LocalStore.draft op.key op.op none op.record t

/-- A delete joins the queued change only when its entity has been synchronized. -/
def Edit.Joins (s : LocalStore) (op : Edit) : Prop :=
  op.op = .delete → ∃ r, s.row op.key = some r ∧ 1 ≤ r.version

inductive Edit.Base (s : LocalStore) (op : Edit) : Option ℤ → Prop
  | squashed {e : Entry} (joins : op.Joins s) (entry : s.outbox.entry op.key = some e)
      (free : e.inConflict = false) (editor : op.baseVersion = none) :
      Base s op (Outbox.squashedBase e)
  | stored {r : LocalRow} (joins : op.Joins s) (entry : s.outbox.entry op.key = none)
      (row : op.savedRow (s.row op.key) = some r) (editor : op.baseVersion = none) :
      Base s op (if 1 ≤ r.version then some r.version else none)
  | sentCreate {e : Entry} (delete : op.op = .delete) (unsynced : s.Unsynced op.key)
      (entry : s.outbox.entry op.key = some e) (sent : e.createMayExistRemotely = true) :
      Base s op (some 1)
  | editor {bv : ℤ} (free : ∀ e, s.outbox.entry op.key = some e → e.inConflict = false)
      (editor : op.baseVersion = some bv) :
      Base s op (if 1 ≤ bv then some bv else none)

inductive Edited (s : LocalStore) (op : Edit) (t : LocalStore.Stamp) : LocalStore → Prop
  | rewritten {e : Entry} {rows : List LocalRow} (joins : op.Joins s)
      (entry : s.outbox.entry op.key = some e) (conflict : e.inConflict = true)
      (saved : (op.savedRow (s.row op.key)).isSome)
      (row : ∀ k, Table.find LocalRow.key k rows =
        if op.key = k then op.savedRow (s.row k) else s.row k) :
      Edited s op t { s with
        rows := rows
        outbox := s.outbox.update (·.changeId = e.changeId) (Entry.rewrite op.op op.record) }
  | queued {b : Option ℤ} {rows : List LocalRow} (base : op.Base s b)
      (saved : (op.savedRow (s.row op.key)).isSome)
      (row : ∀ k, Table.find LocalRow.key k rows =
        if op.key = k then op.savedRow (s.row k) else s.row k) :
      Edited s op t { s with rows := rows, outbox := s.outbox.insertEntry (op.draft t) b }
  | discarded {rows : List LocalRow} (delete : op.op = .delete)
      (unsynced : s.Unsynced op.key)
      (unsent : s.outbox.remoteCreateMayExist op.key = false)
      (row : ∀ k, op.key ≠ k → Table.find LocalRow.key k rows = s.row k)
      (gone : ∀ r, Table.find LocalRow.key op.key rows = some r →
        r.isDeleted = true ∧ r.version < 1) :
      Edited s op t { s with rows := rows, outbox := s.outbox.deleteOpenEntries op.key }

namespace LocalStore

variable {s s' : LocalStore} {op : Edit} {t : Stamp}

theorem row_upsertRow (s : LocalStore) (r : LocalRow) (k : EntityKey) :
    (s.upsertRow r).row k = if r.key = k then some r else s.row k :=
  Table.find_upsert LocalRow.key k r s.rows

theorem row_softDelete (s : LocalStore) (k k' : EntityKey) :
    (s.softDelete k').row k =
      if k' = k then (s.row k).map (fun r ↦ { r with isDeleted := true }) else s.row k := by
  have hmap : (s.softDelete k').row k =
      (s.row k).map (fun r ↦ if r.key = k' then { r with isDeleted := true } else r) := by
    refine Table.find_map LocalRow.key k (fun r ↦ ?_) s.rows
    split <;> rfl
  rw [hmap]
  cases hr : s.row k with
  | none => split <;> rfl
  | some r =>
    have hk : r.key = k := Table.key_of_find LocalRow.key hr
    by_cases he : k' = k
    · simp [he, hk]
    · simp [he, hk, Ne.symm he]

theorem row_deleteRow (s : LocalStore) (k k' : EntityKey) :
    (s.deleteRow k').row k = if k' = k then none else s.row k := by
  split
  · rename_i hk
    refine (Table.find_eq_none LocalRow.key).mpr fun r hr ↦ ?_
    simpa [hk] using (List.mem_filter.mp hr).2
  · rename_i hk
    refine Table.find_filter LocalRow.key k s.rows fun r _ hr ↦ ?_
    simpa [hr] using Ne.symm hk

theorem overrideBaseVersion_conflict {o : Outbox} {k : EntityKey} (hd : o.Distinct) {e : Entry}
    (he : o.entry k = some e) (hc : e.inConflict = true) (f : Entry → Entry)
    (hf : ∀ e, (f e).key = e.key ∧ (f e).status = e.status) (bv : Option ℤ) :
    (o.update (·.changeId = e.changeId) f).overrideBaseVersion k bv =
      o.update (·.changeId = e.changeId) f := by
  cases bv with
  | none => rfl
  | some bv =>
    refine (List.map_congr_left fun e' he' ↦ ?_).trans (List.map_id _)
    obtain ⟨e₀, h₀, hcase⟩ := Outbox.mem_update he'
    have hsame : e'.key = e₀.key ∧ e'.status = e₀.status := by
      rcases hcase with ⟨-, rfl⟩ | ⟨-, rfl⟩
      · exact hf e₀
      · exact ⟨rfl, rfl⟩
    have hout : ¬ (e'.key = k ∧ e'.queued = true) := by
      rintro ⟨hk, hq⟩
      obtain ⟨hmem, hek⟩ := Outbox.entry_some he
      obtain rfl := hd.eq_of_key h₀ hmem (hsame.1.symm.trans (hk.trans hek.symm))
      simp only [Entry.inConflict, Bool.and_eq_true, decide_eq_true_eq] at hc
      rw [Entry.queued, hsame.2, hc.1] at hq
      cases hq
    simpa using fun hk hq ↦ absurd ⟨hk, hq⟩ hout

theorem overrideBaseVersion_insertEntry (o : Outbox) (d : Outbox.Draft) (b : Option ℤ) (bv : ℤ) :
    (o.insertEntry d b).overrideBaseVersion d.key (some bv) =
      o.insertEntry d (if 1 ≤ bv then some bv else none) := by
  have hkeep : (o.deleteOpenEntries d.key).overrideBaseVersion d.key (some bv) =
      o.deleteOpenEntries d.key := by
    refine (List.map_congr_left fun e he ↦ ?_).trans (List.map_id _)
    have hk : e.key ≠ d.key := by simpa using (List.mem_filter.mp he).2
    simp [hk]
  have hnew : Outbox.overrideBaseVersion [d.entry b] d.key (some bv) =
      [d.entry (if 1 ≤ bv then some bv else none)] := by
    simp [Outbox.overrideBaseVersion, Outbox.update, Outbox.Draft.entry, Outbox.Draft.key,
      Entry.key, Entry.queued]
  calc (o.insertEntry d b).overrideBaseVersion d.key (some bv)
      = (o.deleteOpenEntries d.key).overrideBaseVersion d.key (some bv) ++
          Outbox.overrideBaseVersion [d.entry b] d.key (some bv) := List.map_append
    _ = _ := by rw [hkeep, hnew]; rfl

/-- The squashing path of every edit, up to the override of its editor. -/
theorem replaced_edited (hd : s.outbox.Distinct) (hjoin : op.Joins s) {rows : List LocalRow}
    {r : LocalRow} (hrow : ∀ k, Table.find LocalRow.key k rows =
      if op.key = k then op.savedRow (s.row k) else s.row k)
    (hr : op.savedRow (s.row op.key) = some r) :
    Edited s op t { s with
      rows := rows
      outbox := (s.outbox.replaceOutboxEntry (draft op.key op.op
        (if 1 ≤ r.version then some r.version else none) op.record t) false).overrideBaseVersion
          op.key op.baseVersion } := by
  have hsome : (op.savedRow (s.row op.key)).isSome := by rw [hr]; rfl
  have hinsert : ∀ b, (∀ e, s.outbox.entry op.key = some e → e.inConflict = false) →
      (op.baseVersion = none → op.Base s b) → Edited s op t { s with
        rows := rows
        outbox := (s.outbox.insertEntry (op.draft t) b).overrideBaseVersion op.key
          op.baseVersion } := by
    intro b hfree hb
    cases hbv : op.baseVersion with
    | none => exact .queued (hb hbv) hsome hrow
    | some bv =>
      have ho := overrideBaseVersion_insertEntry s.outbox (op.draft t) b bv
      have hk : (op.draft t).key = op.key := rfl
      rw [hk] at ho
      rw [ho]
      exact .queued (.editor hfree hbv) hsome hrow
  rcases Outbox.replaceOutboxEntry_cases hd (draft op.key op.op
    (if 1 ≤ r.version then some r.version else none) op.record t) false with
    ⟨e, he, hc, -, heq⟩ | ⟨e, he, hc, -, heq⟩ | ⟨hforce | he, heq⟩
  · have he : s.outbox.entry op.key = some e := he
    have ho := overrideBaseVersion_conflict hd he hc (Entry.rewrite op.op op.record)
      (fun e ↦ ⟨rfl, rfl⟩) op.baseVersion
    have hdone : Edited s op t _ := .rewritten hjoin he hc hsome hrow
    rw [← ho] at hdone
    rw [heq]
    exact hdone
  · have he : s.outbox.entry op.key = some e := he
    rw [heq]
    refine hinsert _ (fun e' he' ↦ ?_) fun hbv ↦ .squashed hjoin he hc hbv
    rwa [Option.some.inj (he'.symm.trans he)]
  · cases hforce
  · have he : s.outbox.entry op.key = none := he
    rw [heq]
    refine hinsert _ (fun e' he' ↦ ?_) fun hbv ↦ .stored hjoin he hr hbv
    cases he'.symm.trans he

theorem queueUpsert_some {k : EntityKey} {record : Dict} (h : s.queueUpsert k record t = some s') :
    ∃ r, s.row k = some r ∧ s' = { s with
      outbox := s.outbox.replaceOutboxEntry (draft k .upsert
        (if 1 ≤ r.version then some r.version else none) record t) false } := by
  obtain ⟨ver, hver, hs'⟩ := Option.bind_eq_some_iff.mp h
  obtain ⟨r, hr, rfl⟩ := Option.map_eq_some_iff.mp hver
  exact ⟨r, hr, (Option.some.inj hs').symm⟩

theorem saveAndQueue_some {k : EntityKey} {version : ℤ} {isDeleted : Bool} {record : Dict}
    (h : s.saveAndQueue k version isDeleted record t = some s') :
    s' = { s.upsertRow ⟨k.1, k.2, version, isDeleted⟩ with
      outbox := s.outbox.replaceOutboxEntry (draft k .upsert
        (if 1 ≤ version then some version else none) record t) false } := by
  obtain ⟨r, hr, rfl⟩ := queueUpsert_some h
  have hk : (⟨k.1, k.2, version, isDeleted⟩ : LocalRow).key = k := rfl
  rw [row_upsertRow, if_pos hk] at hr
  obtain rfl := Option.some.inj hr
  rfl

theorem saved_edited (hd : s.outbox.Distinct) {version : ℤ} (hop : op.op = .upsert)
    (hrow : op.savedRow (s.row op.key) = some ⟨op.key.1, op.key.2, version, false⟩)
    (h : s.saveAndQueue op.key version false op.record t = some s') :
    Edited s op t (s'.rebased op.key op.baseVersion) := by
  rw [saveAndQueue_some h, ← hop]
  refine replaced_edited hd (fun hdel ↦ ?_) (fun k ↦ ?_) hrow
  · rw [hop] at hdel
    cases hdel
  have hfind := row_upsertRow s ⟨op.key.1, op.key.2, version, false⟩ k
  refine hfind.trans ?_
  by_cases hk : op.key = k
  · subst hk
    rw [if_pos rfl, hrow]
    exact if_pos rfl
  · rw [if_neg hk]
    exact if_neg hk

theorem unsynced_of {k : EntityKey} {r : LocalRow} (hr : s.row k = some r) (h : r.version < 1) :
    s.Unsynced k :=
  ⟨r.version, h, congrArg (Option.map LocalRow.version) hr⟩

theorem queueDelete_edited (hd : s.outbox.Distinct) (hop : op.op = .delete)
    (hbv : op.baseVersion = none) (hrec : op.record = Dict.empty.set .id (.uuid op.key.2))
    {r : LocalRow} (hr : s.row op.key = some r)
    (hsaved : op.savedRow (s.row op.key) = some { r with isDeleted := true })
    (hkeep : ¬ (r.version < 1 ∧ s.outbox.remoteCreateMayExist op.key = false))
    (h : (s.softDelete op.key).queueDelete op.key t = some s') : Edited s op t s' := by
  have hrows : ∀ k, (s.softDelete op.key).row k =
      if op.key = k then op.savedRow (s.row k) else s.row k := by
    intro k
    rw [row_softDelete]
    split
    · rename_i hk
      subst hk
      rw [hsaved, hr]
      rfl
    · rfl
  have hver : (s.softDelete op.key).version op.key = some r.version := by
    rw [LocalStore.version, hrows, if_pos rfl, hsaved]
    rfl
  obtain ⟨ver, hv, hs'⟩ := Option.bind_eq_some_iff.mp h
  obtain rfl : r.version = ver := Option.some.inj (hver.symm.trans hv)
  by_cases hpos : 1 ≤ r.version
  · rw [if_pos hpos] at hs'
    obtain rfl := Option.some.inj hs'
    have hdone := @replaced_edited s op t hd (fun _ ↦ ⟨r, hr, hpos⟩) _ _ hrows hsaved
    rw [hbv, if_pos hpos, hop, hrec] at hdone
    exact hdone
  · have hmay : s.outbox.remoteCreateMayExist op.key = true := by
      cases hm : s.outbox.remoteCreateMayExist op.key with
      | true => rfl
      | false => exact absurd ⟨by omega, hm⟩ hkeep
    have hmay' : (s.softDelete op.key).outbox.remoteCreateMayExist op.key = true := hmay
    rw [if_neg hpos, if_pos hmay'] at hs'
    obtain rfl := Option.some.inj hs'
    rw [Outbox.remoteCreateMayExist_eq hd] at hmay
    obtain ⟨e, he, hsent⟩ := (Option.any_eq_true _ _).mp hmay
    have hdone : Edited s op t _ :=
      .queued (.sentCreate hop (unsynced_of hr (by omega)) he hsent) (by rw [hsaved]; rfl) hrows
    rw [Edit.draft, hop, hrec] at hdone
    exact hdone

theorem deleteScored_edited (hd : s.outbox.Distinct) {entity : Entity} {entityId : Uuid}
    (h : s.deleteScored (entity, entityId) t = some s') :
    Edited s (.deleteScored entity entityId) t s' := by
  obtain ⟨version, hv, h₁⟩ := Option.bind_eq_some_iff.mp h
  obtain ⟨r, hr, rfl⟩ := Option.map_eq_some_iff.mp hv
  have hsaved : (Edit.deleteScored entity entityId).savedRow (s.row (entity, entityId)) =
      some { r with isDeleted := true } := congrArg (Option.map _) hr
  dsimp only at h₁
  split at h₁
  · rename_i hcond
    obtain rfl := Option.some.inj h₁
    have hsplit : r.version < 1 ∧ s.outbox.remoteCreateMayExist (entity, entityId) = false := by
      simpa [softDelete] using hcond
    refine .discarded rfl (unsynced_of hr hsplit.1) hsplit.2 (fun k hk ↦ ?_) fun r' hr' ↦ ?_
    · exact (row_softDelete s k _).trans (if_neg hk)
    · have hsoft := (row_softDelete s (entity, entityId) (entity, entityId)).trans (if_pos rfl)
      rw [hr] at hsoft
      obtain rfl := Option.some.inj (hr'.symm.trans hsoft)
      exact ⟨rfl, hsplit.1⟩
  · rename_i hcond
    refine queueDelete_edited hd rfl rfl rfl hr hsaved (fun hsplit ↦ hcond ?_) h₁
    have hmay : (s.softDelete (entity, entityId)).outbox.remoteCreateMayExist (entity, entityId) =
        false := hsplit.2
    rw [hmay, decide_eq_true hsplit.1]
    rfl

theorem deleteTicket_edited (hd : s.outbox.Distinct) {ticketId : Uuid}
    (h : s.deleteTicket (.helpdeskTicket, ticketId) t = some s') :
    Edited s (.deleteTicket ticketId) t s' := by
  obtain ⟨version, hv, h₁⟩ := Option.bind_eq_some_iff.mp h
  obtain ⟨r, hr, rfl⟩ := Option.map_eq_some_iff.mp hv
  have hsaved : (Edit.deleteTicket ticketId).savedRow (s.row (.helpdeskTicket, ticketId)) =
      some { r with isDeleted := true } := congrArg (Option.map _) hr
  split at h₁
  · rename_i hcond
    obtain rfl := Option.some.inj h₁
    have hsplit : r.version < 1 ∧
        s.outbox.remoteCreateMayExist (.helpdeskTicket, ticketId) = false := by
      simpa using hcond
    refine .discarded rfl (unsynced_of hr hsplit.1) hsplit.2 (fun k hk ↦ ?_) fun r' hr' ↦ ?_
    · exact (row_deleteRow s k _).trans (if_neg hk)
    · have hnone := (row_deleteRow s (.helpdeskTicket, ticketId) _).trans (if_pos rfl)
      exact absurd (hr'.symm.trans hnone) (by simp)
  · rename_i hcond
    refine queueDelete_edited hd rfl rfl rfl hr hsaved (fun hsplit ↦ hcond ?_) h₁
    have hmay : s.outbox.remoteCreateMayExist (.helpdeskTicket, ticketId) = false := hsplit.2
    rw [hmay, decide_eq_true hsplit.1]
    rfl

theorem row_live {k : EntityKey} {version : ℤ} (h : s.version k = some version) :
    (s.row k).map (fun r ↦ { r with isDeleted := false }) = some ⟨k.1, k.2, version, false⟩ := by
  obtain ⟨r, hr, rfl⟩ := Option.map_eq_some_iff.mp h
  have hk : r.key = k := Table.key_of_find LocalRow.key hr
  rw [hr, ← hk]
  rfl

theorem edit_edited (hd : s.outbox.Distinct) (h : s.edit op t = some s') : Edited s op t s' := by
  unfold edit at h
  split at h
  · cases h
  · cases op with
    | createScored entity entityId record => exact saved_edited hd rfl rfl h
    | createTicket ticketId form => exact saved_edited hd rfl rfl h
    | createAction actionId form => exact saved_edited hd rfl rfl h
    | upsertMyAssessment assessmentId form version => exact saved_edited hd rfl rfl h
    | updateScored entity entityId record baseVersion =>
      obtain ⟨version, hv, h₁⟩ := Option.bind_eq_some_iff.mp h
      obtain ⟨s₁, h₂, h₃⟩ := Option.bind_eq_some_iff.mp h₁
      obtain rfl := Option.some.inj h₃
      exact saved_edited hd rfl (row_live hv) h₂
    | updateAction actionId form baseVersion =>
      obtain ⟨version, hv, h₁⟩ := Option.bind_eq_some_iff.mp h
      obtain ⟨s₁, h₂, h₃⟩ := Option.bind_eq_some_iff.mp h₁
      obtain rfl := Option.some.inj h₃
      exact saved_edited hd rfl (row_live hv) h₂
    | updateTicket ticketId form =>
      obtain ⟨r, hr, h₁⟩ := Option.bind_eq_some_iff.mp h
      obtain ⟨r', hr', rfl⟩ := queueUpsert_some h₁
      refine replaced_edited hd (fun hdel ↦ ?_) (fun k ↦ ?_) hr'
      · cases hdel
      · split <;> rfl
    | deleteScored entity entityId => exact deleteScored_edited hd h
    | deleteTicket ticketId => exact deleteTicket_edited hd h

end LocalStore

namespace Edited

variable {s s' : LocalStore} {op : Edit} {t : LocalStore.Stamp}

theorem distinct (h : Edited s op t s') (hd : s.outbox.Distinct)
    (hfresh : ∀ e ∈ s.outbox, e.changeId ≠ t.changeId) : s'.outbox.Distinct := by
  cases h with
  | rewritten => exact hd.update (fun _ ↦ rfl) fun _ ↦ rfl
  | queued => exact hd.insertEntry _ hfresh
  | discarded => exact hd.filter _

theorem frame (h : Edited s op t s') (hd : s.outbox.Distinct) {k : EntityKey} (hk : op.key ≠ k) :
    s'.outbox.entry k = s.outbox.entry k ∧ s'.row k = s.row k := by
  cases h with
  | rewritten _ entry _ _ row =>
    obtain ⟨hmem, hkey⟩ := Outbox.entry_some entry
    exact ⟨hd.entry_update_other hmem (fun he ↦ hk (hkey.symm.trans he)) fun _ ↦ rfl,
      (row k).trans (if_neg hk)⟩
  | queued _ _ row =>
    exact ⟨(Outbox.entry_insertEntry _ _ _ _).trans (if_neg hk), (row k).trans (if_neg hk)⟩
  | discarded _ _ _ row _ =>
    exact ⟨(Outbox.entry_deleteOpenEntries _ _ _).trans (if_neg (Ne.symm hk)), row k hk⟩

end Edited

end RiskApp.Client
