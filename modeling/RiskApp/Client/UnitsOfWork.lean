import Mathlib.Logic.Relation
import RiskApp.Client.Device
import RiskApp.Client.Projection

namespace RiskApp.Client

open Lib Server

def Transaction.draws : Transaction → Option Uuid
  | .edit _ t => some t.changeId
  | .keepMine _ _ t => some t.changeId
  | .merge _ _ _ t => some t.changeId
  | _ => none

namespace LocalStore

variable {projectId : Uuid} {s s' : LocalStore} {tx : Transaction}

/-- Every open entry has its row, and a queued deletion a deleted one. -/
def Paired (s : LocalStore) : Prop :=
  ∀ e ∈ s.outbox, ∃ r, s.row e.key = some r ∧ (e.op = .delete → r.isDeleted = true)

theorem commit_distinct (h : s.commit projectId tx = some s') (hd : s.outbox.Distinct)
    (hfresh : ∀ id, tx.draws = some id → ∀ e ∈ s.outbox, e.changeId ≠ id) :
    s'.outbox.Distinct := by
  have hdr : ∀ {t : Stamp} {dr : Outbox.Draft}, tx.draws = some t.changeId →
      dr.changeId = t.changeId → ∀ d ∈ some dr, ∀ e ∈ s.outbox, e.changeId ≠ d.changeId := by
    intro t dr ht hid d hd' e he
    obtain rfl := Option.some.inj hd'
    rw [hid]
    exact hfresh _ ht e he
  cases tx with
  | edit op t => exact (edit_edited hd h).distinct hd (hfresh _ rfl)
  | acknowledge results =>
    exact (acknowledgeAcceptedResults_induction (P := fun _ ↦ True) (fun _ _ _ _ _ _ _ ↦ trivial)
      hd trivial h).1
  | deleteIds ids =>
    obtain rfl := Option.some.inj h
    exact hd.filter _
  | applyPull pull =>
    obtain rfl := Option.some.inj h
    obtain ⟨t, ht, he⟩ := applyPull_pulls s pull
    rw [he]
    exact ht.outbox.distinct hd
  | keepMine changeId expected t =>
    obtain ⟨e, -, -, -, dr, hid, hres⟩ := Device.keepMine_resolved h
    exact hres.distinct hd (hdr rfl hid)
  | useServer changeId expected =>
    obtain ⟨e, -, -, -, hres⟩ := Device.useServer_resolved hd h
    exact hres.distinct hd fun d hd' ↦ by cases hd'
  | merge changeId expected merged t =>
    obtain ⟨e, -, -, -, dr, hid, hres⟩ := Device.merge_resolved hd h
    exact hres.distinct hd (hdr rfl hid)
  | _ =>
    obtain rfl := Option.some.inj h
    exact hd.update (fun _ ↦ rfl) fun _ ↦ rfl

theorem Paired.update (hp : s.Paired) {p : Entry → Bool} {f : Entry → Entry}
    (hf : ∀ e, (f e).key = e.key ∧ (f e).op = e.op) :
    ({ s with outbox := s.outbox.update p f } : LocalStore).Paired := by
  intro e' he'
  obtain ⟨e, he, ⟨-, rfl⟩ | ⟨-, rfl⟩⟩ := Outbox.mem_update he'
  · rw [(hf e).1, (hf e).2]
    exact hp e he
  · exact hp e' he

theorem Paired.filter (hp : s.Paired) (p : Entry → Bool) :
    ({ s with outbox := s.outbox.filter p } : LocalStore).Paired :=
  fun e he ↦ hp e (List.mem_filter.mp he).1

theorem savedRow_deleted {op : Edit} {o : Option LocalRow} {r : LocalRow} (hop : op.op = .delete)
    (h : op.savedRow o = some r) : r.isDeleted = true := by
  cases op with
  | deleteScored | deleteTicket =>
    obtain ⟨r', -, rfl⟩ := Option.map_eq_some_iff.mp h
    rfl
  | _ => cases hop

theorem Paired.edited {op : Edit} {t : Stamp} (hp : s.Paired) (hd : s.outbox.Distinct)
    (h : Edited s op t s') : s'.Paired := by
  have hmine : ∀ {rows : List LocalRow}, (op.savedRow (s.row op.key)).isSome →
      (∀ k, Table.find LocalRow.key k rows =
        if op.key = k then op.savedRow (s.row k) else s.row k) →
      ∃ r, Table.find LocalRow.key op.key rows = some r ∧
        (op.op = .delete → r.isDeleted = true) := by
    intro rows hsome hrow
    obtain ⟨r, hr⟩ := Option.isSome_iff_exists.mp hsome
    exact ⟨r, (hrow op.key).trans ((if_pos rfl).trans hr), fun hop ↦ savedRow_deleted hop hr⟩
  cases h with
  | rewritten joins entry conflict saved row =>
    intro e' he'
    obtain ⟨e, he, ⟨hsel, rfl⟩ | ⟨hsel, rfl⟩⟩ := Outbox.mem_update he'
    · obtain ⟨hmem, hkey⟩ := Outbox.entry_some entry
      have hk : (e.rewrite op.op op.record).key = op.key := by
        rw [← hkey, ← hd.eq_of_id he hmem (of_decide_eq_true hsel)]
        rfl
      rw [hk]
      exact hmine saved row
    · obtain ⟨hmem, hkey⟩ := Outbox.entry_some entry
      have hne : op.key ≠ e'.key := fun hk ↦
        of_decide_eq_false hsel (congrArg Entry.changeId
          (hd.eq_of_key he hmem (hk.symm.trans hkey.symm)))
      obtain ⟨r, hr, hdel⟩ := hp e' he
      exact ⟨r, (row e'.key).trans ((if_neg hne).trans hr), hdel⟩
  | queued base saved row =>
    intro e' he'
    rcases Outbox.mem_insertEntry he' with rfl | ⟨he, hne⟩
    · exact hmine saved row
    · obtain ⟨r, hr, hdel⟩ := hp e' he
      exact ⟨r, (row e'.key).trans ((if_neg (Ne.symm hne)).trans hr), hdel⟩
  | discarded delete unsynced unsent row gone =>
    intro e' he'
    obtain ⟨he, hne⟩ := List.mem_filter.mp he'
    obtain ⟨r, hr, hdel⟩ := hp e' he
    exact ⟨r, (row e'.key (Ne.symm (of_decide_eq_true hne))).trans hr, hdel⟩

theorem Paired.acknowledged {result : ChangeResult} (hp : s.Paired) (hd : s.outbox.Distinct)
    (h : Acknowledged s result s') : s'.Paired := by
  have hothers : ∀ {sent : Entry} {rows : List LocalRow} {g : EntityKey → Option LocalRow},
      sent ∈ s.outbox → (∀ k, Table.find LocalRow.key k rows =
        if sent.key = k then g k else s.row k) →
      ({ s with rows := rows, outbox := s.outbox.deleteOutboxIds [sent.changeId] } :
        LocalStore).Paired := by
    intro sent rows g hmem hrow e he
    obtain ⟨he, hne⟩ := List.mem_filter.mp he
    have hk : sent.key ≠ e.key := by
      intro hk
      rw [hd.eq_of_key he hmem hk.symm] at hne
      simp at hne
    obtain ⟨r, hr, hdel⟩ := hp e he
    exact ⟨r, (hrow e.key).trans ((if_neg hk).trans hr), hdel⟩
  cases h with
  | passed => exact hp
  | applied mem id entity state version row => exact hothers mem row
  | settled mem id entity state row => exact hothers mem row
  | advanced mem gone entity entityId queued version row =>
    refine Paired.update (s := { s with rows := _ }) (fun e he ↦ ?_) fun e ↦ ⟨rfl, rfl⟩
    obtain ⟨r, hr, hdel⟩ := hp e he
    have hfind := row e.key
    rw [hr] at hfind
    split at hfind
    · exact ⟨_, hfind, hdel⟩
    · exact ⟨r, hfind, hdel⟩

theorem Paired.refreshed {rows : List LocalRow} {o : Outbox} {w : ℕ} (hp : s.Paired)
    (ho : s.outbox.Refreshed o) (hrow : ∀ k, (s.outbox.entry k).isSome →
      Table.find LocalRow.key k rows = s.row k) : (⟨rows, o, w⟩ : LocalStore).Paired := by
  intro e' he'
  obtain ⟨e, he, out, rfl⟩ := ho.mem he'
  obtain ⟨r, hr, hdel⟩ := hp e he
  exact ⟨r, (hrow e.key (Table.find_isSome Entry.key he rfl)).trans hr, hdel⟩

theorem applyPull_paired (hp : s.Paired) (pull : Download) : (s.applyPull pull).Paired := by
  obtain ⟨t, ht, he⟩ := applyPull_pulls s pull
  rw [he]
  refine hp.refreshed ht.outbox fun k hk ↦ ?_
  rcases ht.row k with hsame | ⟨hnone, -⟩
  · exact hsame
  · rw [hnone] at hk
    cases hk

theorem takeServerCopy_row {e : Entry} {record : Dict} (hd : s.outbox.Distinct)
    (hmem : e ∈ s.outbox) (hid : recordId record = some e.entityId) (k : EntityKey) :
    (s.takeServerCopy e record).row k =
      if e.key = k then some (pulledRow e.entity e.entityId record) else s.row k := by
  have hfree := Cache.pending_deleteOutboxIds hd hmem
  have hcopy : s.takeServerCopy e record = LocalStore.upsertRow
      { s with outbox := s.outbox.deleteOutboxIds [e.changeId] }
      (pulledRow e.entity e.entityId record) := by
    simp only [takeServerCopy, applyPullEntities, List.foldl_cons, List.foldl_nil,
      applyPullRecord, hid, if_neg hfree, pulledRow]
  rw [hcopy]
  exact row_upsertRow _ _ _

theorem Paired.takeServerCopy {e : Entry} {record : Dict} (hp : s.Paired) (hd : s.outbox.Distinct)
    (hmem : e ∈ s.outbox) (hid : recordId record = some e.entityId) :
    (s.takeServerCopy e record).Paired := by
  intro e' he'
  rw [Device.takeServerCopy_outbox hd hmem hid] at he'
  obtain ⟨hin, hne⟩ := List.mem_filter.mp he'
  have hk : e.key ≠ e'.key := by
    intro hk
    rw [hd.eq_of_key hin hmem hk.symm] at hne
    simp at hne
  rw [takeServerCopy_row hd hmem hid, if_neg hk]
  exact hp e' hin

theorem Paired.insertEntry {dr : Outbox.Draft} {b : Option ℤ} {r : LocalRow} (hp : s.Paired)
    (hr : s.row dr.key = some r) (hdel : dr.op = .delete → r.isDeleted = true) :
    ({ s with outbox := s.outbox.insertEntry dr b } : LocalStore).Paired := by
  intro e' he'
  rcases Outbox.mem_insertEntry he' with rfl | ⟨he, -⟩
  · exact ⟨r, hr, hdel⟩
  · exact hp e' he

theorem keepMine_paired {changeId : Uuid} {expected : Option ℤ} {t : Stamp} (hp : s.Paired)
    (h : s.keepMine changeId expected t = some s') : s'.Paired := by
  obtain ⟨e, he, -, -, version, rfl⟩ := Device.keepMine_some h
  obtain ⟨r, hr, hdel⟩ := hp e he
  exact hp.insertEntry hr hdel

theorem useServer_paired {changeId : Uuid} {expected : Option ℤ} (hp : s.Paired)
    (hd : s.outbox.Distinct) (h : s.useServer projectId changeId expected = some s') :
    s'.Paired := by
  obtain ⟨e, he, -, -, record, hrecord, rfl⟩ := Device.useServer_some h
  exact hp.takeServerCopy hd he hrecord

theorem merge_paired {changeId : Uuid} {expected : Option ℤ} {merged : Dict} {t : Stamp}
    (hp : s.Paired) (hd : s.outbox.Distinct)
    (h : s.merge projectId changeId expected merged t = some s') : s'.Paired := by
  obtain ⟨e, he, -, -, record, version, hrecord, rfl⟩ := Device.merge_some h
  have hrow := (takeServerCopy_row hd he hrecord e.key).trans (if_pos rfl)
  exact (hp.takeServerCopy hd he hrecord).insertEntry hrow fun hop ↦ by cases hop

theorem commit_paired (h : s.commit projectId tx = some s') (hd : s.outbox.Distinct)
    (hp : s.Paired) : s'.Paired := by
  cases tx with
  | edit op t => exact hp.edited hd (edit_edited hd h)
  | acknowledge results =>
    exact (acknowledgeAcceptedResults_induction (P := Paired)
      (fun _ _ _ _ hd hp hack ↦ hp.acknowledged hd hack) hd hp h).2
  | deleteIds ids =>
    obtain rfl := Option.some.inj h
    exact hp.filter _
  | applyPull pull =>
    obtain rfl := Option.some.inj h
    exact applyPull_paired hp pull
  | keepMine changeId expected t => exact keepMine_paired hp h
  | useServer changeId expected => exact useServer_paired hp hd h
  | merge changeId expected merged t => exact merge_paired hp hd h
  | _ =>
    obtain rfl := Option.some.inj h
    exact hp.update fun _ ↦ ⟨rfl, rfl⟩

end LocalStore

namespace Operation

variable {projectId : Uuid} {c c' : Cache} {op : Operation}

def Fresh (c : Cache) (op : Operation) : Prop :=
  ∀ id, (op.transaction c).draws = some id → ∀ e ∈ c.outbox, e.changeId ≠ id

theorem work_after (projectId : Uuid) (op : Operation) (faults : List Fate) (c : Cache) :
    (op.work projectId).after faults c = c ∨
      (op.work projectId).eval c = some ((), (op.work projectId).after faults c) := by
  cases op with
  | command cmd t =>
    by_cases hw : cmd.wired = true
    · have hwork : (command cmd t).work projectId = cmd.work t := if_pos hw
      rw [hwork]
      cases cmd <;> exact Work.writeTransaction_cases _ faults c
    · have hwork : (command cmd t).work projectId = .raise := if_neg hw
      rw [hwork]
      exact Or.inl rfl
  | _ => exact Work.writeTransaction_cases _ faults c

end Operation

namespace Cache

def Step (projectId : Uuid) (c c' : Cache) : Prop :=
  ∃ op : Operation, ∃ faults, op.Fresh c ∧ c' = (op.work projectId).after faults c

def Reaches (projectId : Uuid) : Cache → Cache → Prop := Relation.ReflTransGen (Step projectId)

variable {projectId : Uuid} {c c' : Cache}

structure Sound (c : Cache) : Prop where
  distinct : c.outbox.Distinct
  paired : c.store.Paired

theorem sound_empty : Sound {} :=
  ⟨⟨.nil, .nil⟩, fun _ he ↦ absurd he List.not_mem_nil⟩

theorem Sound.eval {op : Operation} (h : c.Sound) (hfresh : op.Fresh c)
    (hdone : (op.work projectId).eval c = some ((), c')) : c'.Sound := by
  have hcommit := Operation.work_commits h.distinct hdone
  exact ⟨LocalStore.commit_distinct hcommit h.distinct hfresh,
    LocalStore.commit_paired hcommit h.distinct h.paired⟩

theorem Sound.step (h : c.Sound) (hs : Step projectId c c') : c'.Sound := by
  obtain ⟨op, faults, hfresh, rfl⟩ := hs
  rcases op.work_after projectId faults c with hsame | hdone
  · rw [hsame]
    exact h
  · exact h.eval hfresh hdone

theorem Reaches.sound (h : Reaches projectId c c') (hc : c.Sound) : c'.Sound := by
  induction h with
  | refl => exact hc
  | tail _ hs ih => exact ih.step hs

end Cache

namespace Command

variable {c c' : Cache} {cmd : Command} {t : LocalStore.Stamp}

/-- The row of the entity and its open entry both come from this command: a change is queued, or
the deletion of what was never sent leaves neither. -/
structure Reflected (c : Cache) (cmd : Command) (t : LocalStore.Stamp) (c' : Cache) : Prop where
  frame : ∀ k, cmd.key ≠ k → c'.row k = c.row k ∧ c'.outbox.entry k = c.outbox.entry k
  both : (∃ r e, cmd.savedRow c t.now = some r ∧ c'.row cmd.key = some r ∧
      c'.outbox.entry cmd.key = some e ∧ e.op = (cmd.edit c t.now).op ∧
      e.record = (cmd.edit c t.now).record) ∨
    (cmd.edit c t.now).op = .delete ∧ c'.outbox.entry cmd.key = none ∧
      ∀ r, c'.row cmd.key = some r → r.isDeleted = true

theorem Done.saved (h : Done c cmd t c') (hsome : (c'.store.row cmd.key).isSome) :
    ∃ r, cmd.savedRow c t.now = some r ∧ c'.row cmd.key = some r := by
  rw [Cache.store_row, Option.isSome_map] at hsome
  obtain ⟨r, hr⟩ := Option.isSome_iff_exists.mp hsome
  rcases h.row with hrow | ⟨-, hnone⟩
  · exact ⟨r, hrow.symm.trans hr, hr⟩
  · cases hnone.symm.trans hr

theorem Done.reflected (h : Done c cmd t c') (hd : c.outbox.Distinct) : Reflected c cmd t c' := by
  have hkey := edit_key c t.now cmd
  have hedit := LocalStore.edit_edited hd h.edited
  refine ⟨fun k hk ↦ ⟨h.frame k hk, (hedit.frame hd (hkey ▸ hk)).1⟩, ?_⟩
  have hrow : ∀ {o : Option LocalRow}, (cmd.edit c t.now).savedRow (c.store.row cmd.key) = o →
      o.isSome → c'.store.row cmd.key = o → ∃ r, cmd.savedRow c t.now = some r ∧
        c'.row cmd.key = some r := fun _ hsome hr ↦ h.saved (hr ▸ hsome)
  generalize hs : c'.store = s' at hedit
  have hout : c'.outbox = s'.outbox := congrArg LocalStore.outbox hs
  rw [hout]
  cases hedit with
  | rewritten joins entry conflict saved row =>
    rw [hkey] at entry saved row
    have hfind : c'.store.row cmd.key = _ := (congrArg (LocalStore.row · cmd.key) hs).trans
      ((row cmd.key).trans (if_pos rfl))
    obtain ⟨r, hsaved, hr⟩ := hrow rfl saved hfind
    exact Or.inl ⟨r, _, hsaved, hr, Outbox.entry_update_self (fun _ ↦ rfl) entry, rfl, rfl⟩
  | queued base saved row =>
    rw [hkey] at saved row
    have hfind : c'.store.row cmd.key = _ := (congrArg (LocalStore.row · cmd.key) hs).trans
      ((row cmd.key).trans (if_pos rfl))
    obtain ⟨r, hsaved, hr⟩ := hrow rfl saved hfind
    refine Or.inl ⟨r, _, hsaved, hr, (Outbox.entry_insertEntry _ _ _ _).trans (if_pos hkey), rfl,
      rfl⟩
  | discarded delete unsynced unsent row gone =>
    rw [hkey] at gone
    refine Or.inr ⟨delete, ?_, fun r hr ↦ ?_⟩
    · rw [hkey, Outbox.entry_deleteOpenEntries, if_pos rfl]
    · have hfind : c'.store.row cmd.key = some r.toLocalRow := by
        rw [Cache.store_row, hr]
        rfl
      exact (gone _ ((congrArg (LocalStore.row · cmd.key) hs).symm.trans hfind)).1

end Command

end RiskApp.Client
