import RiskApp.Client.Exchange

namespace RiskApp.Client

open Lib Server

namespace Command

def key : Command → EntityKey
  | createScored entity entityId _ _ => (entity, entityId)
  | updateScored entity entityId _ _ _ => (entity, entityId)
  | deleteScored entity entityId => (entity, entityId)
  | createTicket ticketId _ => (.helpdeskTicket, ticketId)
  | updateTicket ticketId _ => (.helpdeskTicket, ticketId)
  | deleteTicket ticketId => (.helpdeskTicket, ticketId)
  | createAction actionId _ => (.action, actionId)
  | updateAction actionId _ _ => (.action, actionId)
  | upsertMyAssessment assessmentId _ _ _ => (.assessment, assessmentId)

/-- The edit of the store that a command comes down to. -/
def edit (c : Cache) (now : Time) : Command → Edit
  | createScored entity entityId form nextCode =>
    .createScored entity entityId (form.createRecord entityId nextCode now)
  | updateScored entity entityId form nextCode baseVersion =>
    .updateScored entity entityId (form.updateRecord entityId (c.columns (entity, entityId))
      nextCode now) baseVersion
  | deleteScored entity entityId => .deleteScored entity entityId
  | createTicket ticketId form => .createTicket ticketId (ticketOf (savedTicket form now))
  | updateTicket ticketId fields => .updateTicket ticketId
      (ticketOf (updatedTicket fields now (c.columns (.helpdeskTicket, ticketId))))
  | deleteTicket ticketId => .deleteTicket ticketId
  | createAction actionId form => .createAction actionId form
  | updateAction actionId form baseVersion => .updateAction actionId form baseVersion
  | upsertMyAssessment assessmentId form _ version => .upsertMyAssessment assessmentId form version

def savedRow (c : Cache) (now : Time) (cmd : Command) : Option CachedRow :=
  match cmd with
  | createScored _ entityId form nextCode =>
    (savedScored (form.createRecord entityId nextCode now) now).map (Cache.userRow cmd.key 0)
  | updateScored _ entityId form nextCode _ => do
    let r ← c.row cmd.key
    let columns ← savedScored (form.updateRecord entityId (c.columns cmd.key) nextCode now) now
    return Cache.userRow cmd.key r.version columns
  | createTicket _ form => some (Cache.userRow cmd.key 0 (savedTicket form now))
  | updateTicket _ fields => (c.row cmd.key).map (Cache.editedTicket fields now)
  | createAction _ form => some (Cache.userRow cmd.key 0 (savedAction form now))
  | updateAction _ form _ =>
    (c.row cmd.key).map fun r ↦ Cache.userRow cmd.key r.version (savedAction form now)
  | upsertMyAssessment _ form assessorUserId version =>
    some (Cache.userRow cmd.key version (savedAssessment form assessorUserId now))
  | deleteScored _ _ | deleteTicket _ => (c.row cmd.key).map (Cache.deletedRow now)

theorem edit_key (c : Cache) (now : Time) (cmd : Command) : (cmd.edit c now).key = cmd.key := by
  cases cmd <;> rfl

/-- What a command that returns has done. -/
structure Done (c : Cache) (cmd : Command) (t : LocalStore.Stamp) (c' : Cache) : Prop where
  edited : c.store.edit (cmd.edit c t.now) t = some c'.store
  frame : ∀ k, cmd.key ≠ k → c'.row k = c.row k
  row : c'.row cmd.key = cmd.savedRow c t.now ∨
    (cmd.edit c t.now).op = .delete ∧ c'.row cmd.key = none

end Command

namespace Cache

variable {c c' : Cache} {k : EntityKey} {t : LocalStore.Stamp}

theorem store_row (c : Cache) (k : EntityKey) :
    c.store.row k = (c.row k).map CachedRow.toLocalRow :=
  Table.find_map_view CachedRow.key LocalRow.key k (fun _ ↦ rfl) c.rows

theorem store_version (c : Cache) (k : EntityKey) :
    c.store.version k = (c.row k).map fun r ↦ r.version := by
  rw [LocalStore.version, store_row, Option.map_map]
  rfl

theorem store_saveRow (c : Cache) (r : CachedRow) :
    (c.saveRow r).store = c.store.upsertRow r.toLocalRow := by
  have hrows := Table.map_upsert CachedRow.key LocalRow.key (fun _ ↦ rfl) r c.rows
  exact congrArg (fun rows ↦ (⟨rows, c.outbox, c.watermark⟩ : LocalStore)) hrows

theorem store_updateRows_of_view (c : Cache) (p : CachedRow → Bool) {f : CachedRow → CachedRow}
    (hf : ∀ r, (f r).toLocalRow = r.toLocalRow) : (c.updateRows p f).store = c.store := by
  have hrows : (c.rows.map fun r ↦ if p r then f r else r).map CachedRow.toLocalRow =
      c.rows.map CachedRow.toLocalRow := by
    rw [List.map_map]
    refine List.map_congr_left fun r _ ↦ ?_
    by_cases hp : p r <;> simp [hp, hf]
  unfold store updateRows
  rw [hrows]

theorem store_updateRows_key (c : Cache) (k : EntityKey) {f : CachedRow → CachedRow}
    {g : LocalRow → LocalRow} (hf : ∀ r, (f r).toLocalRow = g r.toLocalRow) :
    (c.updateRows (·.key = k) f).store =
      { c.store with rows := c.store.rows.map fun r ↦ if r.key = k then g r else r } := by
  have hrows : (c.rows.map fun r ↦ if r.key = k then f r else r).map CachedRow.toLocalRow =
      (c.rows.map CachedRow.toLocalRow).map fun r ↦ if r.key = k then g r else r := by
    rw [List.map_map, List.map_map]
    refine List.map_congr_left fun r _ ↦ ?_
    have hk : r.key = r.toLocalRow.key := rfl
    by_cases hp : r.key = k
    · simp [hp, ← hk, hf]
    · simp [hp, ← hk]
  unfold store updateRows
  simp only [decide_eq_true_eq]
  rw [hrows]

theorem store_deleteRow (c : Cache) (k : EntityKey) :
    (c.deleteRow k).store = c.store.deleteRow k := by
  unfold store deleteRow LocalStore.deleteRow
  rw [List.filter_map]
  rfl

theorem eval_getVersion (k : EntityKey) (c : Cache) :
    (getVersion k).eval c = (c.row k).map fun r ↦ (r.version, c) := by
  unfold getVersion
  simp only [Work.eval_bind, Work.eval_select, Option.bind_some, Work.eval_ofOption, Option.map_map]
  rfl

theorem eval_replaceOutboxEntry (d : Outbox.Draft) (forceRebase : Bool) (c : Cache) :
    (replaceOutboxEntry d forceRebase).eval c =
      some ((), c.setOutbox (·.replaceOutboxEntry d forceRebase)) := by
  unfold replaceOutboxEntry setOutbox Outbox.replaceOutboxEntry
  cases forceRebase with
  | true => rfl
  | false =>
    cases he : c.outbox.oldestOpenEntry d.key with
    | none => simp [he, changeOutbox, setOutbox, Outbox.insertEntry]
    | some e =>
      cases hc : e.inConflict <;> simp [he, hc, changeOutbox, setOutbox, Outbox.insertEntry]

theorem eval_overrideBaseVersion (k : EntityKey) (baseVersion : Option ℤ) (c : Cache) :
    (overrideBaseVersion k baseVersion).eval c =
      some ((), c.setOutbox (·.overrideBaseVersion k baseVersion)) := by
  cases baseVersion <;> rfl

theorem eval_queueUpsert (k : EntityKey) (record : Dict) (t : LocalStore.Stamp) (c : Cache) :
    (queueUpsert k record t).eval c = (c.row k).map fun r ↦ ((), c.setOutbox
      (·.replaceOutboxEntry (LocalStore.draft k .upsert
        (if 1 ≤ r.version then some r.version else none) record t) false)) := by
  unfold queueUpsert
  rw [Work.eval_bind, eval_getVersion]
  cases c.row k with
  | none => rfl
  | some r => exact eval_replaceOutboxEntry _ _ _

theorem queueUpsert_store {record : Dict} (h : (queueUpsert k record t).eval c = some ((), c')) :
    c.store.queueUpsert k record t = some c'.store := by
  rw [eval_queueUpsert] at h
  obtain ⟨r, hr, he⟩ := Option.map_eq_some_iff.mp h
  obtain rfl : _ = c' := congrArg Prod.snd he
  rw [LocalStore.queueUpsert, store_version, hr]
  rfl

theorem queueDelete_store (h : (queueDelete k t).eval c = some ((), c')) :
    c.store.queueDelete k t = some c'.store := by
  unfold queueDelete at h
  rw [Work.eval_bind, eval_getVersion] at h
  rw [LocalStore.queueDelete, store_version]
  cases hr : c.row k with
  | none =>
    rw [hr] at h
    cases h
  | some r =>
    rw [hr] at h
    by_cases hv : 1 ≤ r.version
    · have hwork : (replaceOutboxEntry (LocalStore.draft k .delete (some r.version)
          (Dict.empty.set .id (.uuid k.2)) t) false).eval c = some ((), c') := by
        simpa [hv] using h
      rw [eval_replaceOutboxEntry] at hwork
      obtain rfl : _ = c' := congrArg Prod.snd (Option.some.inj hwork)
      simp [hv, setOutbox, store]
    · cases hm : c.outbox.remoteCreateMayExist k with
      | true =>
        have hwork : (replaceOutboxEntry (LocalStore.draft k .delete (some 1)
            (Dict.empty.set .id (.uuid k.2)) t) true).eval c = some ((), c') := by
          simpa [hv, hm] using h
        rw [eval_replaceOutboxEntry] at hwork
        obtain rfl : _ = c' := congrArg Prod.snd (Option.some.inj hwork)
        simp [hv, hm, setOutbox, store]
      | false =>
        have hwork : (discardEntityChanges k).eval c = some ((), c') := by
          simpa [hv, hm] using h
        obtain rfl : _ = c' := congrArg Prod.snd (Option.some.inj hwork)
        simp [hv, hm, setOutbox, store]

theorem queueUpsert_rows {record : Dict} (h : (queueUpsert k record t).eval c = some ((), c')) :
    c'.rows = c.rows := by
  rw [eval_queueUpsert] at h
  obtain ⟨r, -, he⟩ := Option.map_eq_some_iff.mp h
  obtain rfl : _ = c' := congrArg Prod.snd he
  rfl

theorem queueDelete_rows (h : (queueDelete k t).eval c = some ((), c')) : c'.rows = c.rows := by
  unfold queueDelete at h
  rw [Work.eval_bind, eval_getVersion] at h
  obtain ⟨⟨ver, c₁⟩, hver, h⟩ := Option.bind_eq_some_iff.mp h
  obtain ⟨r, -, he⟩ := Option.map_eq_some_iff.mp hver
  obtain rfl : c = c₁ := congrArg Prod.snd he
  dsimp only at h
  split at h
  · rw [eval_replaceOutboxEntry] at h
    obtain rfl : _ = c' := congrArg Prod.snd (Option.some.inj h)
    rfl
  · rw [Work.eval_bind, Work.eval_select, Option.bind_some] at h
    dsimp only at h
    split at h
    · rw [eval_replaceOutboxEntry] at h
      obtain rfl : _ = c' := congrArg Prod.snd (Option.some.inj h)
      rfl
    · obtain rfl : _ = c' := congrArg Prod.snd (Option.some.inj h)
      rfl

theorem upsertRow_eval {r : CachedRow} (h : (upsertRow r).eval c = some ((), c')) :
    c' = c.saveRow r := by
  unfold upsertRow at h
  rw [Work.eval_statement] at h
  split at h
  · cases h
  · exact (congrArg Prod.snd (Option.some.inj h)).symm

theorem upsertLocal_eval {version : ℤ} {record : Dict} {now : Time}
    (h : (upsertLocal k version record now).eval c = some ((), c')) :
    ∃ columns, savedScored record now = some columns ∧
      c' = c.saveRow (userRow k version columns) := by
  unfold upsertLocal at h
  rw [Work.eval_bind, Work.eval_select, Option.bind_some, Work.eval_bind, Work.eval_ofOption] at h
  obtain ⟨⟨columns, c₁⟩, hcolumns, h⟩ := Option.bind_eq_some_iff.mp h
  obtain ⟨_, hsaved, he⟩ := Option.map_eq_some_iff.mp hcolumns
  obtain ⟨rfl, rfl⟩ := Prod.mk.inj he
  obtain ⟨⟨⟨⟩, c₂⟩, hrow, hcommit⟩ := Option.bind_eq_some_iff.mp h
  obtain rfl : c₂ = c' := congrArg Prod.snd (Option.some.inj hcommit)
  exact ⟨_, hsaved, upsertRow_eval hrow⟩

theorem eval_softDelete (k : EntityKey) (now : Time) (c : Cache) :
    (softDelete k now).eval c =
      (c.row k).map fun r ↦ (r.version, c.updateRows (·.key = k) (deletedRow now)) := by
  unfold softDelete
  rw [Work.eval_bind, eval_getVersion]
  cases c.row k <;> rfl

theorem store_softDelete (c : Cache) (k : EntityKey) (now : Time) :
    (c.updateRows (·.key = k) (deletedRow now)).store = c.store.softDelete k :=
  store_updateRows_key c k fun _ ↦ rfl

theorem row_saveRow (c : Cache) (r : CachedRow) (k : EntityKey) :
    (c.saveRow r).row k = if r.key = k then some r else c.row k :=
  Table.find_upsert CachedRow.key k r c.rows

theorem row_updateRows (c : Cache) {p : CachedRow → Bool} {f : CachedRow → CachedRow}
    (hf : ∀ r, (f r).key = r.key) (k : EntityKey) :
    (c.updateRows p f).row k = (c.row k).map fun r ↦ if p r then f r else r := by
  refine Table.find_map CachedRow.key k (fun r ↦ ?_) c.rows
  split
  · exact hf r
  · rfl

theorem row_updateRows_key (c : Cache) (k : EntityKey) {f : CachedRow → CachedRow}
    (hf : ∀ r, (f r).key = r.key) (k' : EntityKey) :
    (c.updateRows (·.key = k) f).row k' = if k = k' then (c.row k).map f else c.row k' := by
  rw [row_updateRows c hf]
  by_cases hk : k = k'
  · subst hk
    rw [if_pos rfl]
    cases hr : c.row k with
    | none => rfl
    | some r => simp [Table.key_of_find CachedRow.key hr]
  · rw [if_neg hk]
    cases hr : c.row k' with
    | none => rfl
    | some r =>
      have hne : r.key ≠ k := fun h ↦ hk (h.symm.trans (Table.key_of_find CachedRow.key hr))
      simp [hne]

theorem saved_store {r : CachedRow} {record : Dict} (hk : r.key = k) (hlive : r.isDeleted = false)
    (h : (queueUpsert k record t).eval (c.saveRow r) = some ((), c')) :
    c.store.saveAndQueue k r.version false record t = some c'.store := by
  have hview : r.toLocalRow = ⟨k.1, k.2, r.version, false⟩ := by
    rw [← hk, ← hlive]
    rfl
  have hqueued := queueUpsert_store h
  rw [store_saveRow, hview] at hqueued
  exact hqueued

theorem row_of_rows (h : c'.rows = c.rows) (k : EntityKey) : c'.row k = c.row k := by
  rw [row, row, h]

end Cache

namespace Command

variable {c c' : Cache} {t : LocalStore.Stamp} {cmd : Command}

theorem done_of_saved {r : CachedRow} (hkey : r.key = cmd.key)
    (hrows : c'.rows = (c.saveRow r).rows) (hsaved : cmd.savedRow c t.now = some r)
    (hedit : c.store.edit (cmd.edit c t.now) t = some c'.store) : Done c cmd t c' := by
  have hrow : ∀ k, c'.row k = if r.key = k then some r else c.row k := fun k ↦
    (Cache.row_of_rows hrows k).trans (c.row_saveRow r k)
  refine ⟨hedit, fun k hk ↦ ?_, Or.inl ?_⟩
  · rw [hrow, hkey, if_neg hk]
  · rw [hrow, hkey, if_pos rfl, hsaved]

theorem createScored_done {entity : Entity} {entityId : Uuid} {form : ScoredForm} {nextCode : Val}
    (hw : entity.scored = true)
    (h : ((createScored entity entityId form nextCode).work t).eval c = some ((), c')) :
    Done c (createScored entity entityId form nextCode) t c' := by
  rw [work, Cache.createScored, Work.eval_writeTransaction] at h
  obtain ⟨⟨⟩, c₁, hlocal, hqueue⟩ := Work.bind_eval h
  obtain ⟨columns, hcolumns, rfl⟩ := Cache.upsertLocal_eval hlocal
  refine done_of_saved rfl (Cache.queueUpsert_rows hqueue) (congrArg (Option.map _) hcolumns) ?_
  have hstore := Cache.saved_store rfl rfl hqueue
  simp only [edit, LocalStore.edit, Edit.wired, hw]
  exact hstore

theorem updated_store {k : EntityKey} {r : CachedRow} {record : Dict} (baseVersion : Option ℤ)
    {s : LocalStore} (hr : c.row k = some r)
    (h : c.store.saveAndQueue k r.version false record t = some s) :
    (c.store.version k).bind (fun version ↦
      (c.store.saveAndQueue k version false record t).bind fun s ↦
        some (s.rebased k baseVersion)) = some (s.rebased k baseVersion) := by
  rw [Cache.store_version, hr, Option.map_some, Option.bind_some, h, Option.bind_some]

theorem updateScored_done {entity : Entity} {entityId : Uuid} {form : ScoredForm} {nextCode : Val}
    {baseVersion : Option ℤ} (hw : entity.scored = true)
    (h : ((updateScored entity entityId form nextCode baseVersion).work t).eval c =
      some ((), c')) : Done c (updateScored entity entityId form nextCode baseVersion) t c' := by
  rw [work, Cache.updateScored, Work.eval_writeTransaction] at h
  obtain ⟨version, c₁, hver, h⟩ := Work.bind_eval h
  rw [Cache.eval_getVersion] at hver
  obtain ⟨r, hr, he⟩ := Option.map_eq_some_iff.mp hver
  obtain ⟨rfl, rfl⟩ := Prod.mk.inj he
  rw [Work.eval_bind, Work.eval_select, Option.bind_some] at h
  obtain ⟨⟨⟩, c₂, hbody, hbase⟩ := Work.bind_eval h
  rw [Work.eval_writeTransaction] at hbody
  obtain ⟨⟨⟩, c₃, hlocal, hqueue⟩ := Work.bind_eval hbody
  obtain ⟨columns, hcolumns, rfl⟩ := Cache.upsertLocal_eval hlocal
  rw [Cache.eval_overrideBaseVersion] at hbase
  obtain rfl : _ = c' := congrArg Prod.snd (Option.some.inj hbase)
  have hrows : c₂.rows = _ := Cache.queueUpsert_rows hqueue
  have hstore := Cache.saved_store rfl rfl hqueue
  refine done_of_saved (r := Cache.userRow (entity, entityId) r.version columns) rfl hrows ?_ ?_
  · have hrow : c.row (updateScored entity entityId form nextCode baseVersion).key = some r := hr
    have hcols : savedScored (form.updateRecord entityId (c.columns (entity, entityId)) nextCode
      t.now) t.now = some columns := hcolumns
    simp only [savedRow, hrow]
    exact congrArg (Option.bind · fun columns ↦ some (Cache.userRow _ r.version columns)) hcols
  · simp only [edit, LocalStore.edit, Edit.wired, hw]
    exact updated_store baseVersion hr hstore

theorem createTicket_done {ticketId : Uuid} {form : TicketForm}
    (h : ((createTicket ticketId form).work t).eval c = some ((), c')) :
    Done c (createTicket ticketId form) t c' := by
  rw [work, Cache.createTicket, Work.eval_writeTransaction] at h
  obtain ⟨⟨⟩, c₁, hrow, h⟩ := Work.bind_eval h
  obtain rfl := Cache.upsertRow_eval hrow
  have hread : (c.saveRow (Cache.userRow (.helpdeskTicket, ticketId) 0
      (savedTicket form t.now))).row
      (.helpdeskTicket, ticketId) =
      some (Cache.userRow (.helpdeskTicket, ticketId) 0 (savedTicket form t.now)) :=
    (Cache.row_saveRow _ _ _).trans (if_pos rfl)
  simp only [Work.eval_bind, Work.eval_commitIfNeeded, Work.eval_select, Option.bind_some, hread,
    Work.eval_ofOption, Option.map_some] at h
  exact done_of_saved rfl (Cache.queueUpsert_rows h) rfl (Cache.saved_store rfl rfl h)

theorem createAction_done {actionId : Uuid} {form : ActionForm}
    (h : ((createAction actionId form).work t).eval c = some ((), c')) :
    Done c (createAction actionId form) t c' := by
  rw [work, Cache.upsertAction, Work.eval_writeTransaction, Work.eval_bind, Work.eval_select,
    Option.bind_some] at h
  obtain ⟨⟨⟩, c₁, hrow, h⟩ := Work.bind_eval h
  obtain rfl := Cache.upsertRow_eval hrow
  rw [Work.eval_bind, Work.eval_commitIfNeeded, Option.bind_some] at h
  exact done_of_saved rfl (Cache.queueUpsert_rows h) rfl (Cache.saved_store rfl rfl h)

theorem upsertMyAssessment_done {assessmentId : Uuid} {form : AssessmentForm}
    {assessorUserId : Uuid} {version : ℤ}
    (h : ((upsertMyAssessment assessmentId form assessorUserId version).work t).eval c =
      some ((), c')) : Done c (upsertMyAssessment assessmentId form assessorUserId version)
      t c' := by
  rw [work, Cache.upsertMyAssessment, Work.eval_writeTransaction] at h
  obtain ⟨⟨⟩, c₁, hrow, h⟩ := Work.bind_eval h
  obtain rfl := Cache.upsertRow_eval hrow
  rw [Work.eval_bind, Work.eval_commitIfNeeded, Option.bind_some] at h
  exact done_of_saved rfl (Cache.queueUpsert_rows h) rfl (Cache.saved_store rfl rfl h)

theorem updateAction_done {actionId : Uuid} {form : ActionForm} {baseVersion : Option ℤ}
    (h : ((updateAction actionId form baseVersion).work t).eval c = some ((), c')) :
    Done c (updateAction actionId form baseVersion) t c' := by
  rw [work, Cache.updateAction, Work.eval_writeTransaction] at h
  obtain ⟨version, c₁, hver, h⟩ := Work.bind_eval h
  rw [Cache.eval_getVersion] at hver
  obtain ⟨r, hr, he⟩ := Option.map_eq_some_iff.mp hver
  obtain ⟨rfl, rfl⟩ := Prod.mk.inj he
  obtain ⟨⟨⟩, c₂, hbody, hbase⟩ := Work.bind_eval h
  rw [Cache.upsertAction, Work.eval_writeTransaction, Work.eval_bind, Work.eval_select,
    Option.bind_some] at hbody
  obtain ⟨⟨⟩, c₃, hrow, hqueue⟩ := Work.bind_eval hbody
  obtain rfl := Cache.upsertRow_eval hrow
  rw [Work.eval_bind, Work.eval_commitIfNeeded, Option.bind_some] at hqueue
  rw [Cache.eval_overrideBaseVersion] at hbase
  obtain rfl : _ = c' := congrArg Prod.snd (Option.some.inj hbase)
  dsimp only at hqueue
  have hrows : c₂.rows = _ := Cache.queueUpsert_rows hqueue
  have hstore := Cache.saved_store rfl rfl hqueue
  refine done_of_saved (r := Cache.userRow (.action, actionId) r.version (savedAction form t.now))
    rfl hrows ?_ ?_
  · exact congrArg (Option.map _) hr
  · have hedit := updated_store baseVersion hr hstore
    exact hedit

theorem updateTicket_done {ticketId : Uuid} {fields : Dict}
    (h : ((updateTicket ticketId fields).work t).eval c = some ((), c')) :
    Done c (updateTicket ticketId fields) t c' := by
  rw [work, Cache.updateTicket, Work.eval_writeTransaction] at h
  obtain ⟨version, c₁, hver, h⟩ := Work.bind_eval h
  rw [Cache.eval_getVersion] at hver
  obtain ⟨r, hr, he⟩ := Option.map_eq_some_iff.mp hver
  obtain ⟨-, rfl⟩ := Prod.mk.inj he
  set k : EntityKey := (.helpdeskTicket, ticketId)
  set c₁ := c.updateRows (·.key = k) (Cache.editedTicket fields t.now) with hc₁
  have hrows : ∀ k', c₁.row k' =
      if k = k' then (c.row k).map (Cache.editedTicket fields t.now) else c.row k' :=
    Cache.row_updateRows_key c k fun _ ↦ rfl
  have hread : c₁.row k = some (Cache.editedTicket fields t.now r) := by
    rw [hrows, if_pos rfl, hr]
    rfl
  have hstore : c₁.store = c.store := Cache.store_updateRows_of_view c _ fun _ ↦ rfl
  have hqueue : (Cache.queueUpsert k ((ticketOf (Cache.editedTicket fields t.now r).columns).record
      k.2) t).eval c₁ = some ((), c') := by
    simpa only [Work.eval_bind, Cache.changeRows, Work.eval_modify, Work.eval_commitIfNeeded,
      Work.eval_select, Option.bind_some, ← hc₁, hread, Work.eval_ofOption, Option.map_some] using h
  have hcolumns : c.columns k = r.columns := by rw [Cache.columns, hr]; rfl
  refine ⟨?_, fun k' hk ↦ ?_, Or.inl ?_⟩
  · have hqueued := Cache.queueUpsert_store hqueue
    rw [hstore] at hqueued
    have hrow : c.store.row k = some r.toLocalRow := by rw [Cache.store_row, hr]; rfl
    have hedit : c.store.updateTicket k (ticketOf (updatedTicket fields t.now (c.columns k))) t =
        some c'.store := by
      rw [LocalStore.updateTicket, hrow, hcolumns]
      exact hqueued
    exact hedit
  · exact (Cache.row_of_rows (Cache.queueUpsert_rows hqueue) k').trans
      ((hrows k').trans (if_neg hk))
  · exact (Cache.row_of_rows (Cache.queueUpsert_rows hqueue) k).trans
      ((hrows k).trans (if_pos rfl))

theorem deleted_done (hrows : c'.rows = (c.updateRows (·.key = cmd.key)
      (Cache.deletedRow t.now)).rows)
    (hsaved : cmd.savedRow c t.now = (c.row cmd.key).map (Cache.deletedRow t.now))
    (hedit : c.store.edit (cmd.edit c t.now) t = some c'.store) : Done c cmd t c' := by
  have hrow : ∀ k, c'.row k = if cmd.key = k then (c.row cmd.key).map (Cache.deletedRow t.now)
      else c.row k := fun k ↦
    (Cache.row_of_rows hrows k).trans
      (Cache.row_updateRows_key c cmd.key (f := Cache.deletedRow t.now) (fun _ ↦ rfl) k)
  exact ⟨hedit, fun k hk ↦ (hrow k).trans (if_neg hk),
    Or.inl ((hrow cmd.key).trans ((if_pos rfl).trans hsaved.symm))⟩

theorem deleteScored_done {entity : Entity} {entityId : Uuid} (hw : entity.scored = true)
    (h : ((deleteScored entity entityId).work t).eval c = some ((), c')) :
    Done c (deleteScored entity entityId) t c' := by
  rw [work, Cache.deleteScored, Work.eval_writeTransaction] at h
  obtain ⟨version, c₁, hver, h⟩ := Work.bind_eval h
  rw [Cache.eval_softDelete] at hver
  obtain ⟨r, hr, he⟩ := Option.map_eq_some_iff.mp hver
  obtain ⟨rfl, rfl⟩ := Prod.mk.inj he
  rw [Work.eval_bind, Work.eval_select, Option.bind_some] at h
  have hversion : c.store.version (entity, entityId) = some r.version := by
    rw [Cache.store_version, hr]
    rfl
  have hsoft := Cache.store_softDelete c (entity, entityId) t.now
  have hdelete : c.store.edit ((deleteScored entity entityId).edit c t.now) t =
      if r.version < 1 && !c.outbox.remoteCreateMayExist (entity, entityId) then
        some { c.store.softDelete (entity, entityId) with
          outbox := c.outbox.deleteOpenEntries (entity, entityId) }
      else (c.store.softDelete (entity, entityId)).queueDelete (entity, entityId) t := by
    simp only [edit, LocalStore.edit, Edit.wired, hw, LocalStore.deleteScored]
    exact congrArg (Option.bind · _) hversion
  dsimp only at h
  split at h
  · rename_i hcond
    obtain rfl : _ = c' := congrArg Prod.snd (Option.some.inj h)
    refine deleted_done rfl rfl (hdelete.trans ((if_pos hcond).trans ?_))
    rw [← hsoft]
    rfl
  · rename_i hcond
    refine deleted_done (Cache.queueDelete_rows h) rfl (hdelete.trans ((if_neg hcond).trans ?_))
    rw [← hsoft]
    exact Cache.queueDelete_store h

theorem deleteTicket_done {ticketId : Uuid}
    (h : ((deleteTicket ticketId).work t).eval c = some ((), c')) :
    Done c (deleteTicket ticketId) t c' := by
  rw [work, Cache.deleteTicket, Work.eval_writeTransaction] at h
  obtain ⟨version, c₁, hver, h⟩ := Work.bind_eval h
  rw [Cache.eval_getVersion] at hver
  obtain ⟨r, hr, he⟩ := Option.map_eq_some_iff.mp hver
  obtain ⟨rfl, rfl⟩ := Prod.mk.inj he
  rw [Work.eval_bind, Work.eval_select, Option.bind_some] at h
  have hversion : c.store.version (.helpdeskTicket, ticketId) = some r.version := by
    rw [Cache.store_version, hr]
    rfl
  have hedit : ∀ s, c.store.deleteTicket (.helpdeskTicket, ticketId) t = some s →
      c.store.edit ((deleteTicket ticketId).edit c t.now) t = some s := fun _ hs ↦ hs
  dsimp only at h
  split at h
  · rename_i hcond
    obtain rfl : _ = c' := congrArg Prod.snd (Option.some.inj h)
    refine ⟨hedit _ ?_, fun k hk ↦ ?_, Or.inr ⟨rfl, ?_⟩⟩
    · rw [LocalStore.deleteTicket, hversion, ← Cache.store_deleteRow]
      exact if_pos hcond
    · refine Table.find_filter CachedRow.key k c.rows fun r' _ hr' ↦ ?_
      simpa [hr', key] using Ne.symm hk
    · refine (Table.find_eq_none CachedRow.key).mpr fun r' hr' ↦ ?_
      simpa [key] using (List.mem_filter.mp hr').2
  · rename_i hcond
    obtain ⟨v, c₂, hsoft, hqueue⟩ := Work.bind_eval h
    rw [Cache.eval_softDelete, hr] at hsoft
    obtain ⟨-, rfl⟩ := Prod.mk.inj (Option.some.inj hsoft)
    refine deleted_done (Cache.queueDelete_rows hqueue) rfl (hedit _ ?_)
    rw [LocalStore.deleteTicket, hversion, ← Cache.store_softDelete c _ t.now]
    exact (if_neg hcond).trans (Cache.queueDelete_store hqueue)

theorem work_done (hw : cmd.wired = true) (h : (cmd.work t).eval c = some ((), c')) :
    Done c cmd t c' := by
  cases cmd with
  | createScored entity entityId form nextCode => exact createScored_done hw h
  | updateScored entity entityId form nextCode baseVersion => exact updateScored_done hw h
  | deleteScored entity entityId => exact deleteScored_done hw h
  | createTicket ticketId form => exact createTicket_done h
  | updateTicket ticketId fields => exact updateTicket_done h
  | deleteTicket ticketId => exact deleteTicket_done h
  | createAction actionId form => exact createAction_done h
  | updateAction actionId form baseVersion => exact updateAction_done h
  | upsertMyAssessment assessmentId form assessorUserId version => exact upsertMyAssessment_done h

end Command

end RiskApp.Client
