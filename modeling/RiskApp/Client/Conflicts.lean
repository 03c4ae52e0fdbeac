import RiskApp.Client.Device

namespace RiskApp.Client

open Lib Server

def SavedOutcome.AtLeast (old new : SavedOutcome) : Prop :=
  ∀ v, old.serverVersion = some v → ∃ v', new.serverVersion = some v' ∧ v ≤ v'

/-- The same conflict; op and record may follow the local copy. -/
structure Entry.StaysBlocked (e e' : Entry) : Prop where
  changeId : e'.changeId = e.changeId
  status : e'.status = e.status
  failureKind : e'.failureKind = e.failureKind
  baseVersion : e'.baseVersion = e.baseVersion
  outcome : e.outcome.AtLeast e'.outcome

theorem Entry.StaysBlocked.refl (e : Entry) : e.StaysBlocked e :=
  ⟨rfl, rfl, rfl, rfl, fun v hv ↦ ⟨v, hv, le_rfl⟩⟩

theorem Entry.StaysBlocked.trans {e e' e'' : Entry} (h : e.StaysBlocked e')
    (h' : e'.StaysBlocked e'') : e.StaysBlocked e'' := by
  refine ⟨h'.changeId.trans h.changeId, h'.status.trans h.status,
    h'.failureKind.trans h.failureKind, h'.baseVersion.trans h.baseVersion, fun v hv ↦ ?_⟩
  obtain ⟨v', hv', hle⟩ := h.outcome v hv
  obtain ⟨v'', hv'', hle'⟩ := h'.outcome v' hv'
  exact ⟨v'', hv'', hle.trans hle'⟩

theorem Entry.StaysBlocked.inConflict {e e' : Entry} (h : e.StaysBlocked e') :
    e'.inConflict = e.inConflict := by
  rw [Entry.inConflict, Entry.inConflict, h.status, h.failureKind]

def Transaction.resolves : Transaction → Option Uuid
  | .keepMine changeId _ _ => some changeId
  | .useServer changeId _ => some changeId
  | .merge changeId _ _ _ => some changeId
  | _ => none

namespace Device

/-- The entity is not deleted at a local version below 1 while its entry is a conflict. -/
def SparesConflict (k : EntityKey) (d : Device) : Transaction → Prop
  | .edit op _ => op.key = k → op.op = .delete → d.store.Unsynced k →
      ∀ e, d.store.outbox.entry k = some e → e.inConflict = false
  | _ => True

variable {projectId : Uuid} {d d' : Device} {k : EntityKey} {e : Entry}

theorem Sound.not_sent (h : d.Sound) (he : d.store.outbox.entry k = some e)
    (hc : e.inConflict = true) : e.changeId ∉ d.sent := by
  intro hs
  have hq := (h.fits e (Outbox.entry_some he).1).queued hs
  simp only [Entry.queued, Entry.inConflict, Bool.and_eq_true, decide_eq_true_eq] at hq hc
  exact hq hc.1

theorem entry_update_of_ne {o : Outbox} (he : o.entry k = some e) {p : Entry → Bool}
    {f : Entry → Entry} (hf : ∀ e, (f e).key = e.key) (hp : p e = false) :
    (o.update p f).entry k = some e := by
  rw [Outbox.entry_update hf, he, Option.map_some, hp]
  rfl

theorem entry_filter_of_mem {o : Outbox} (hd : o.Distinct) (he : o.entry k = some e)
    {p : Entry → Bool} (hp : p e = true) : Outbox.entry (o.filter p) k = some e := by
  refine (Table.find_filter Entry.key k o fun e' he' hk ↦ ?_).trans he
  obtain ⟨hmem, hkey⟩ := Outbox.entry_some he
  rw [hd.eq_of_key he' hmem (hk.trans hkey.symm)]
  exact hp

theorem entry_acknowledged {s s' : LocalStore} {result : ChangeResult} (hd : s.outbox.Distinct)
    (h : LocalStore.Acknowledged s result s') (he : s.outbox.entry k = some e)
    (hc : e.inConflict = true) (hne : e.changeId ≠ result.changeId) :
    s'.outbox.entry k = some e := by
  cases h with
  | passed => exact he
  | applied mem id => exact entry_filter_of_mem hd he (by simpa [id] using hne)
  | settled mem id => exact entry_filter_of_mem hd he (by simpa [id] using hne)
  | @advanced e' rows v mem gone entity entityId queued =>
    refine entry_update_of_ne he (fun _ ↦ rfl) (decide_eq_false fun hid ↦ ?_)
    rw [← hd.eq_of_id (Outbox.entry_some he).1 mem hid] at queued
    simp only [Entry.queued, Entry.inConflict, Bool.and_eq_true, decide_eq_true_eq] at queued hc
    exact queued hc.1

theorem entry_edited {s s' : LocalStore} {op : Edit} {t : LocalStore.Stamp}
    (hd : s.outbox.Distinct) (h : Edited s op t s') (he : s.outbox.entry k = some e)
    (hc : e.inConflict = true)
    (hspares : op.key = k → op.op = .delete → ¬ s.Unsynced k) :
    ∃ e', s'.outbox.entry k = some e' ∧ e.StaysBlocked e' := by
  by_cases hk : op.key = k
  · subst hk
    cases h with
    | @rewritten e₀ rows joins entry conflict saved row =>
      obtain rfl := Option.some.inj (he.symm.trans entry)
      exact ⟨_, Outbox.entry_update_self (fun _ ↦ rfl) he,
        ⟨rfl, rfl, rfl, rfl, fun v hv ↦ ⟨v, hv, le_rfl⟩⟩⟩
    | queued base saved row =>
      cases base with
      | squashed joins entry free editor =>
        rw [Option.some.inj (entry.symm.trans he), hc] at free
        cases free
      | stored joins entry row editor => cases he.symm.trans entry
      | sentCreate delete unsynced entry sent => exact absurd unsynced (hspares rfl delete)
      | editor free editor =>
        have hfree := free e he
        rw [hc] at hfree
        cases hfree
    | discarded delete unsynced unsent row gone => exact absurd unsynced (hspares rfl delete)
  · exact ⟨e, (h.frame hd hk).1.trans he, .refl e⟩

theorem resolved_other {s s' : LocalStore} {e₀ : Entry} {dr : Option Outbox.Draft}
    (h : Resolved s e₀ dr s') (hd : s.outbox.Distinct) (hmem : e₀ ∈ s.outbox)
    (he : s.outbox.entry k = some e) (hne : e₀.changeId ≠ e.changeId) :
    s'.outbox.entry k = some e := by
  refine (h.entry hd hmem fun hk ↦ hne ?_).trans he
  obtain ⟨hin, hkey⟩ := Outbox.entry_some he
  rw [hd.eq_of_key hmem hin (hk.trans hkey.symm)]

/-- No transaction but its resolution ends a conflict, unless the entity is deleted before it was
ever synchronized. -/
theorem conflict_commit (h : d.Sound) {tx : Transaction} {store : LocalStore}
    (hp : d.Permits tx) (hcommit : d.store.commit projectId tx = some store)
    (he : d.store.outbox.entry k = some e) (hc : e.inConflict = true)
    (hres : tx.resolves ≠ some e.changeId) (hspares : d.SparesConflict k tx) :
    ∃ e', store.outbox.entry k = some e' ∧ e.StaysBlocked e' := by
  have hd := h.distinct
  have hsent := h.not_sent he hc
  have hkeep : ∀ {o : Outbox}, o.entry k = some e → ∃ e', o.entry k = some e' ∧
      e.StaysBlocked e' := fun hentry ↦ ⟨e, hentry, .refl e⟩
  cases tx with
  | edit op t =>
    refine entry_edited hd (LocalStore.edit_edited hd hcommit) he hc fun hk hdel hver ↦ ?_
    have hfree := hspares hk hdel hver e he
    rw [hc] at hfree
    cases hfree
  | markAttempted ids now =>
    obtain rfl := Option.some.inj hcommit
    obtain rfl : ids = d.sent := hp
    exact hkeep (entry_update_of_ne he (fun _ ↦ rfl) (decide_eq_false hsent))
  | acknowledge results =>
    refine hkeep (LocalStore.acknowledgeAcceptedResults_induction
      (P := fun s ↦ s.outbox.entry k = some e) (fun s r s' hr hds hs hack ↦ ?_) hd he hcommit).2
    exact entry_acknowledged hds hack hs hc fun hid ↦ hsent (hid ▸ hp r hr)
  | deleteIds ids =>
    obtain rfl := Option.some.inj hcommit
    exact hkeep (entry_filter_of_mem hd he (decide_eq_true fun hid ↦ hsent (hp hid)))
  | deferId changeId err retryAfter now =>
    obtain rfl := Option.some.inj hcommit
    exact hkeep (entry_update_of_ne he (fun _ ↦ rfl)
      (decide_eq_false fun hid ↦ hsent (hid ▸ hp)))
  | blockId changeId err now =>
    obtain rfl := Option.some.inj hcommit
    have hne : e.changeId ≠ changeId := fun hid ↦ hsent (hid ▸ hp.1)
    exact hkeep (entry_update_of_ne he (fun _ ↦ rfl) (by simp [hne]))
  | releaseAuthentication =>
    obtain rfl := Option.some.inj hcommit
    simp only [Entry.inConflict, Bool.and_eq_true, decide_eq_true_eq] at hc
    exact hkeep (entry_update_of_ne he (fun _ ↦ rfl) (by simp [hc.2]))
  | applyPull pull =>
    obtain rfl := Option.some.inj hcommit
    obtain ⟨out, hentry, hout⟩ := (LocalStore.applyPull_refreshedFrom d.store pull).entry he
    refine ⟨_, hentry, rfl, rfl, rfl, rfl, fun v hv ↦ ?_⟩
    rcases hout with rfl | ⟨record, ⟨key, hk, hmem, hid⟩, rfl⟩
    · exact ⟨v, hv, le_rfl⟩
    · obtain ⟨hin, hkey⟩ := Outbox.entry_some he
      have hcovers := ((h.fits e hin).saved hc v hv).2
      rw [hp, hkey] at hcovers
      exact ⟨_, rfl, hcovers key hk.symm record hmem hid⟩
  | keepMine changeId expected t =>
    obtain ⟨e₀, hmem, hid, -, dr, -, hr⟩ := keepMine_resolved hcommit
    exact hkeep (resolved_other hr hd hmem he fun hsame ↦ hres (by rw [← hsame, hid]; rfl))
  | useServer changeId expected =>
    obtain ⟨e₀, hmem, hid, -, hr⟩ := useServer_resolved hd hcommit
    exact hkeep (resolved_other hr hd hmem he fun hsame ↦ hres (by rw [← hsame, hid]; rfl))
  | merge changeId expected merged t =>
    obtain ⟨e₀, hmem, hid, -, dr, -, hr⟩ := merge_resolved hd hcommit
    exact hkeep (resolved_other hr hd hmem he fun hsame ↦ hres (by rw [← hsame, hid]; rfl))

theorem conflict_step (h : d.Sound) {tx : Option Transaction} (hs : d.Step projectId tx d')
    (he : d.store.outbox.entry k = some e) (hc : e.inConflict = true)
    (hres : ∀ t, tx = some t → t.resolves ≠ some e.changeId ∧ d.SparesConflict k t) :
    ∃ e', d'.store.outbox.entry k = some e' ∧ e.StaysBlocked e' := by
  cases hs with
  | commit permits committed =>
    obtain ⟨hne, hspares⟩ := hres _ rfl
    exact conflict_commit h permits committed he hc hne hspares
  | _ => exact ⟨e, he, .refl e⟩

theorem conflict_run {x : Uuid} (h : d.Sound)
    (hr : Runs projectId (fun d tx ↦ tx.resolves ≠ some x ∧ d.SparesConflict k tx) d d')
    (he : d.store.outbox.entry k = some e) (hc : e.inConflict = true) (hx : e.changeId = x) :
    ∃ e', d'.store.outbox.entry k = some e' ∧ e.StaysBlocked e' := by
  induction hr with
  | refl => exact ⟨e, he, .refl e⟩
  | tail hrun hstep ih =>
    obtain ⟨e', he', hstays⟩ := ih
    obtain ⟨tx, hstep, hallowed⟩ := hstep
    have hsound := Runs.sound hrun h
    obtain ⟨e'', he'', hstays'⟩ := conflict_step hsound hstep he' (hstays.inConflict.trans hc)
      fun t ht ↦ by rw [hstays.changeId, hx]; exact hallowed t ht
    exact ⟨e'', he'', hstays.trans hstays'⟩

end Device

/-- A conflict stays blocked until it is resolved, in every run that does not delete the entity
while it is in conflict and was never synchronized. -/
theorem conflict_stays_blocked (projectId : Uuid) {d d' : Device} {k : EntityKey} {e : Entry}
    (hreach : Device.Runs projectId (fun _ _ ↦ True) {} d)
    (he : d.store.outbox.entry k = some e) (hc : e.inConflict = true)
    (hrun : Device.Runs projectId
      (fun d tx ↦ tx.resolves ≠ some e.changeId ∧ d.SparesConflict k tx) d d') :
    ∃ e', d'.store.outbox.entry k = some e' ∧ e.StaysBlocked e' :=
  Device.conflict_run (hreach.sound Device.sound_empty) hrun he hc rfl

section Sample

namespace Device

variable {allowed : Device → Transaction → Prop} {d d' d'' : Device}

theorem Runs.then (h : Runs 7 allowed d d') (hs : d'.Step 7 none d'') : Runs 7 allowed d d'' :=
  h.tail ⟨none, hs, fun _ ht ↦ by cases ht⟩

theorem Runs.tx (h : Runs 7 allowed d d') (tx : Transaction) {store : LocalStore}
    (hp : d'.Permits tx) (hc : d'.store.commit 7 tx = some store) (ha : allowed d' tx) :
    Runs 7 allowed d (d'.after tx store) :=
  h.tail ⟨some tx, .commit hp hc, fun _ ht ↦ Option.some.inj ht ▸ ha⟩

end Device

/-- A create whose answer was lost, edited and answered with a conflict: another device has edited
the row meanwhile. -/
def staleEntry : Entry where
  changeId := 12
  entity := .risk
  op := .upsert
  entityId := 1
  baseVersion := some 1
  record := scoredRecord 1 Dict.empty
  status := .blocked
  failureKind := some .conflict
  outcome := ⟨some 2, none⟩
  lastAttemptAt := some 6
  createdAt := 4

theorem staleEntry_reached : ∃ d, Device.Runs 7 (fun _ _ ↦ True) {} d ∧
    d.store = ⟨[⟨.risk, 1, 0, false⟩], [staleEntry], 0⟩ ∧ d.sent = [] := by
  have h₀ : Device.Runs 7 (fun _ _ ↦ True) {} {} := .refl
  have h₁ := h₀.tx (.edit (.createScored .risk 1 Dict.empty) ⟨11, 1⟩) ⟨by simp, by simp⟩ rfl trivial
  have h₂ := h₁.then (.batch 100 2 rfl rfl)
  have h₃ := h₂.tx (.markAttempted [11] 2) rfl rfl trivial
  have h₄ := h₃.tx (.deferId 11 ⟨.transient, {}⟩ none 3) (List.mem_singleton.mpr rfl) rfl trivial
  have h₅ := h₄.then (@Device.Step.server 7 _ (fun _ ↦ 2) fun _ ↦ (by decide : (0 : ℤ) ≤ 2))
  have h₆ := h₅.tx (.edit (.updateScored .risk 1 Dict.empty none) ⟨12, 4⟩)
    ⟨by decide, by decide⟩ rfl trivial
  have h₇ := h₆.then (.batch 100 5 rfl rfl)
  have h₈ := h₇.tx (.markAttempted [12] 5) rfl rfl trivial
  have h₉ := h₈.tx (.blockId 12 ⟨.conflict, ⟨some 2, none⟩⟩ 6)
    ⟨List.mem_singleton.mpr rfl, fun e _ _ v hv ↦ by cases hv; exact le_rfl⟩ rfl trivial
  exact ⟨_, h₉, rfl, rfl⟩

/-- Editing the risk again keeps the conflict. -/
theorem conflict_stays_blocked_sample : ∃ d d' : Device, Device.Runs 7 (fun _ _ ↦ True) {} d ∧
    d.store.outbox.entry (.risk, 1) = some staleEntry ∧
    (∃ e', d'.store.outbox.entry (.risk, 1) = some e' ∧ staleEntry.StaysBlocked e') := by
  obtain ⟨d, hd, hstore, hsent⟩ := staleEntry_reached
  have hentry : d.store.outbox.entry (.risk, 1) = some staleEntry := by rw [hstore]; rfl
  obtain ⟨s', hs'⟩ : ∃ s', d.store.commit 7
      (.edit (.updateScored .risk 1 Dict.empty none) ⟨13, 7⟩) = some s' := by
    rw [hstore]
    exact ⟨_, rfl⟩
  have hrun : Device.Runs 7 (fun d tx ↦ tx.resolves ≠ some staleEntry.changeId ∧
      d.SparesConflict (.risk, 1) tx) d
      (d.after (.edit (.updateScored .risk 1 Dict.empty none) ⟨13, 7⟩) s') := by
    have hpermits : d.Permits (.edit (.updateScored .risk 1 Dict.empty none) ⟨13, 7⟩) := by
      refine ⟨?_, by simp [hsent]⟩
      rw [hstore]
      decide
    refine Device.Runs.tx .refl _ hpermits hs' ⟨by simp [Transaction.resolves], fun _ hdel ↦ ?_⟩
    cases hdel
  exact ⟨d, _, hd, hentry, conflict_stays_blocked 7 hd hentry rfl hrun⟩

/-- Deleting the risk instead replaces the blocked change by a new pending one. -/
theorem conflict_lost_by_delete : ∃ d d' : Device, Device.Runs 7 (fun _ _ ↦ True) {} d ∧
    d.store.outbox.entry (.risk, 1) = some staleEntry ∧ staleEntry.inConflict = true ∧
    Device.Runs 7 (fun _ tx ↦ tx.resolves ≠ some staleEntry.changeId) d d' ∧
    ¬ ∃ e', d'.store.outbox.entry (.risk, 1) = some e' ∧ staleEntry.StaysBlocked e' := by
  obtain ⟨d, hd, hstore, hsent⟩ := staleEntry_reached
  obtain ⟨s', hs', hlost⟩ : ∃ s', d.store.commit 7
      (.edit (.deleteScored .risk 1) ⟨13, 7⟩) = some s' ∧
      (s'.outbox.entry (.risk, 1)).map Entry.changeId = some 13 := by
    rw [hstore]
    exact ⟨_, rfl, rfl⟩
  have hpermits : d.Permits (.edit (.deleteScored .risk 1) ⟨13, 7⟩) := by
    refine ⟨?_, by simp [hsent]⟩
    rw [hstore]
    decide
  refine ⟨d, d.after _ s', hd, by rw [hstore]; rfl, rfl,
    Device.Runs.tx .refl _ hpermits hs' (by simp [Transaction.resolves]), ?_⟩
  · rintro ⟨e', he', hstays⟩
    have hid : s'.outbox.entry (.risk, 1) = some e' := he'
    rw [hid, Option.map_some, hstays.changeId] at hlost
    exact absurd hlost (by decide)

end Sample

end RiskApp.Client
