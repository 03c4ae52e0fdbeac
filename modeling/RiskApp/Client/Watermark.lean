import RiskApp.Client.Answers
import RiskApp.Client.InFlight

namespace RiskApp.Client

open Lib Server

/-- The local row that says what the server's row says. -/
def localRow (k : EntityKey) (row : Row) : LocalRow :=
  ⟨k.1, k.2, row.version, (row.attrs .isDeleted).truthy⟩

/-- Every row of the project under a sequence up to `g` has an open entry or is as on the server. -/
def Covers (d : Data) (projectId : Uuid) (s : LocalStore) (g : ℕ) : Prop :=
  ∀ row ∈ d.rows, d.projectOf row = some projectId → row.changeSequence ≤ g →
    ∀ k, entityKey row = some k → (s.outbox.entry k).isSome ∨ s.row k = some (localRow k row)

/-- What a download after `since` says of the rows of the project: all that have changed are in it,
and a record of a row shows it, as long as the row has not changed again. -/
structure Fetches (d : Data) (projectId : Uuid) (since : ℕ) (pull : Download) : Prop where
  counter : ∃ n, d.lastSequence projectId = some n ∧ pull.serverSequence ≤ n
  complete : ∀ row ∈ d.rows, d.projectOf row = some projectId → since < row.changeSequence →
    row.changeSequence ≤ pull.serverSequence → ∀ k, entityKey row = some k →
    ∃ key : PullKey, key.entity = k.1 ∧ ∃ record ∈ pull.records key, recordId record = some k.2
  current : ∀ row ∈ d.rows, d.projectOf row = some projectId →
    row.changeSequence ≤ pull.serverSequence → ∀ k, entityKey row = some k →
    ∀ key : PullKey, key.entity = k.1 → ∀ record ∈ pull.records key,
    recordId record = some k.2 → Shows record row

theorem Shows.localRow {record : Dict} {row : Row} (h : Shows record row) (k : EntityKey) :
    LocalStore.pulledRow k.1 k.2 record = localRow k row := by
  rw [LocalStore.pulledRow, pulledVersion_int k.1 h.version, h.deleted]
  rfl

namespace Outbox

variable {o : Outbox} {k : EntityKey} {e : Entry} {ids : List Uuid}

theorem entry_deleteOutboxIds (hd : o.Distinct)
    (h : ∀ e, o.entry k = some e → e.changeId ∉ ids) :
    Outbox.entry (o.deleteOutboxIds ids) k = o.entry k := by
  refine Table.find_filter Entry.key k o fun e he hk ↦ ?_
  have hfree := h e (hk ▸ hd.entry_of_mem he)
  simpa using hfree

theorem entry_deleteOutboxId_other (hd : o.Distinct) (he : e ∈ o) (hk : e.key ≠ k) :
    Outbox.entry (o.deleteOutboxIds [e.changeId]) k = o.entry k := by
  refine entry_deleteOutboxIds hd fun e' he' hmem ↦ hk ?_
  obtain ⟨hin, hkey⟩ := entry_some he'
  rw [← hd.eq_of_id hin he (List.mem_singleton.mp hmem)]
  exact hkey

theorem isSome_update {p : Entry → Bool} {f : Entry → Entry} (hf : ∀ e, (f e).key = e.key)
    (k : EntityKey) : ((o.update p f).entry k).isSome = (o.entry k).isSome := by
  rw [entry_update hf, Option.isSome_map]

end Outbox

section Covers

variable {d d' : Data} {projectId : Uuid} {s s' : LocalStore} {g m : ℕ}

theorem Covers.mono (h : Covers d projectId s g) (hle : m ≤ g) : Covers d projectId s m :=
  fun row hr hp hm ↦ h row hr hp (hm.trans hle)

theorem Covers.later (h : Covers d projectId s g) (hstep : FeedStep d d') (hd' : d'.WellFormed)
    (hm : d.lastSequence projectId = some m) (hle : g ≤ m) : Covers d' projectId s g := by
  intro row hr hp hg
  obtain ⟨hold, hpold⟩ := old_of_feedStep hstep hd' hm hr hp (hg.trans hle)
  exact h row hold hpold hg

theorem covers_zero (hd : d.WellFormed) : Covers d projectId s 0 := by
  intro row hr _ hle
  obtain ⟨_, _, _, _, hpos, _⟩ := hd.bounded row hr
  omega

/-- A step of the store keeps what is covered when every row that it touches has an open entry or
is as on the server afterwards. -/
theorem Covers.keep (h : Covers d projectId s g)
    (hstep : ∀ row ∈ d.rows, d.projectOf row = some projectId → row.changeSequence ≤ g →
      ∀ k, entityKey row = some k → (s'.outbox.entry k).isSome ∨
        (s.outbox.entry k = none ∧ s'.row k = s.row k) ∨ s'.row k = some (localRow k row)) :
    Covers d projectId s' g := by
  intro row hr hp hle k hk
  rcases hstep row hr hp hle k hk with hopen | ⟨hnone, hsame⟩ | hrow
  · exact Or.inl hopen
  · rcases h row hr hp hle k hk with hopen | hrow
    · rw [hnone] at hopen
      cases hopen
    · exact Or.inr (hsame.trans hrow)
  · exact Or.inr hrow

theorem Covers.same (h : Covers d projectId s g)
    (hopen : ∀ k, (s'.outbox.entry k).isSome = (s.outbox.entry k).isSome)
    (hrow : ∀ k, s.outbox.entry k = none → s'.row k = s.row k) : Covers d projectId s' g := by
  refine h.keep fun _ _ _ _ k _ ↦ ?_
  cases hk : s.outbox.entry k with
  | none => exact Or.inr (Or.inl ⟨rfl, hrow k hk⟩)
  | some e => exact Or.inl (by rw [hopen k, hk]; rfl)

/-- The edit discards an entity that has never been sent. -/
def Edit.Discards (s : LocalStore) (op : Edit) : Prop :=
  op.op = .delete ∧ s.Unsynced op.key ∧ s.outbox.remoteCreateMayExist op.key = false

theorem Covers.edit (h : Covers d projectId s g) (hd : s.outbox.Distinct) {op : Edit}
    {t : LocalStore.Stamp} (hedit : Edited s op t s')
    (hknown : op.Discards s → ∀ row ∈ d.rows, d.projectOf row = some projectId →
      entityKey row ≠ some op.key) : Covers d projectId s' g := by
  refine h.keep fun row hr hp _ k hk ↦ ?_
  by_cases hkey : op.key = k
  · subst hkey
    cases hedit with
    | rewritten joins entry conflict saved row =>
      refine Or.inl ?_
      rw [Outbox.isSome_update (f := Entry.rewrite op.op op.record) fun _ ↦ rfl, entry]
      rfl
    | queued base saved row =>
      refine Or.inl ?_
      rw [Outbox.entry_insertEntry, if_pos (show (op.draft t).key = op.key from rfl)]
      rfl
    | discarded delete unsynced unsent row gone =>
      exact absurd hk (hknown ⟨delete, unsynced, unsent⟩ _ hr hp)
  · obtain ⟨hentry, hrow⟩ := hedit.frame hd hkey
    cases hopen : s.outbox.entry k with
    | none => exact Or.inr (Or.inl ⟨rfl, hrow⟩)
    | some e => exact Or.inl (by rw [hentry, hopen]; rfl)

open LocalStore in
theorem acknowledgeSent_names {sent : Entry} {r : ChangeResult}
    (h : s.acknowledgeSent projectId sent r = some s') :
    r.entity = sent.entity ∧ ∀ id, r.entityId = some id → id = sent.entityId := by
  unfold acknowledgeSent at h
  split at h
  · cases h
  · rename_i hmatch
    simp only [Bool.or_eq_true, decide_eq_true_eq, not_or, not_not, Bool.not_eq_true] at hmatch
    refine ⟨hmatch.1, fun id hid ↦ ?_⟩
    have hany := hmatch.2
    rw [hid] at hany
    simpa using hany

/-- The acknowledgement of an accepted result leaves the row of its entity as the result shows it,
or its entry open. -/
theorem Covers.acknowledged (h : Covers d projectId s g) (hd : s.outbox.Distinct)
    {r : ChangeResult} (hr : Answered d projectId g r) (hack : LocalStore.Acknowledged s r s')
    (hnames : ∀ e ∈ s.outbox, e.changeId = r.changeId → ∀ id, r.entityId = some id →
      id = e.entityId) : Covers d projectId s' g := by
  obtain ⟨entityId, hid⟩ := Option.isSome_iff_exists.mp hr.named
  have hother : ∀ {sent : Entry} {rows : List LocalRow} {k : EntityKey}, sent ∈ s.outbox →
      sent.key ≠ k → Table.find LocalRow.key k rows = s.row k →
      (Outbox.entry (s.outbox.deleteOutboxIds [sent.changeId]) k).isSome ∨
        (s.outbox.entry k = none ∧ Table.find LocalRow.key k rows = s.row k) := by
    intro sent rows k hmem hne hrow
    rw [Outbox.entry_deleteOutboxId_other hd hmem hne]
    cases hk : s.outbox.entry k with
    | none => exact Or.inr ⟨rfl, hrow⟩
    | some e => exact Or.inl rfl
  cases hack with
  | passed => exact h
  | @applied sent record rows mem sentId entity state version hrows =>
    refine h.keep fun row hrow hp hle k hk ↦ ?_
    by_cases hne : sent.key = k
    · subst hne
      obtain rfl := hnames sent mem sentId entityId hid
      obtain ⟨record', hrecord, hshows⟩ := hr.shows row hrow hp hle _ hid (by rw [entity]; exact hk)
      obtain rfl : record = record' := Option.some.inj (state.symm.trans hrecord)
      refine Or.inr (Or.inr ?_)
      rw [← hshows.localRow]
      exact (hrows _).trans (if_pos rfl)
    · exact (hother mem hne ((hrows k).trans (if_neg hne))).imp id Or.inl
  | @settled sent rows mem sentId entity state hrows =>
    refine h.keep fun row hrow hp hle k hk ↦ ?_
    by_cases hne : sent.key = k
    · subst hne
      obtain rfl := hnames sent mem sentId entityId hid
      obtain ⟨record', hrecord, -⟩ := hr.shows row hrow hp hle _ hid (by rw [entity]; exact hk)
      cases state.symm.trans hrecord
    · exact (hother mem hne ((hrows k).trans (if_neg hne))).imp id Or.inl
  | @advanced e rows v mem gone entity named queued version hrows =>
    refine h.same (fun k ↦ ?_) fun k hnone ↦ ?_
    · exact Outbox.isSome_update (f := Entry.advanced _ _) (fun _ ↦ rfl) k
    refine (hrows k).trans (if_neg fun he ↦ ?_)
    rw [← he, hd.entry_of_mem mem] at hnone
    cases hnone

open LocalStore in
theorem Covers.acknowledgeResult (h : Covers d projectId s g) (hd : s.outbox.Distinct)
    {r : ChangeResult} (hr : r.status = .accepted → Answered d projectId g r)
    (hack : s.acknowledgeResult projectId r = some s') : Covers d projectId s' g := by
  have hdone := acknowledgeResult_acknowledged hd hack
  unfold LocalStore.acknowledgeResult at hack
  split at hack
  · obtain rfl := Option.some.inj hack
    exact h
  · rename_i haccepted
    refine h.acknowledged hd (hr (not_not.mp haccepted)) hdone fun e he hid ↦ ?_
    split at hack
    · rename_i sent hsent
      have hsentId : sent.changeId = r.changeId := by simpa using List.find?_some hsent
      rw [hd.eq_of_id he (List.mem_of_find?_eq_some hsent) (hid.trans hsentId.symm)]
      exact (acknowledgeSent_names hack).2
    · rename_i hnone
      exact absurd hid (by simpa using List.find?_eq_none.mp hnone e he)

theorem Covers.acknowledge {results : List ChangeResult} (h : Covers d projectId s g)
    (hd : s.outbox.Distinct)
    (hr : ∀ r ∈ results, r.status = .accepted → Answered d projectId g r)
    (hack : s.acknowledgeAcceptedResults projectId results = some s') :
    Covers d projectId s' g := by
  unfold LocalStore.acknowledgeAcceptedResults at hack
  induction results generalizing s with
  | nil =>
    obtain rfl := Option.some.inj hack
    exact h
  | cons r results ih =>
    rw [List.foldlM_cons] at hack
    obtain ⟨t, ht, hrest⟩ := Option.bind_eq_some_iff.mp hack
    refine ih (h.acknowledgeResult hd (hr r List.mem_cons_self) ht)
      ((LocalStore.acknowledgeResult_acknowledged hd ht).distinct hd)
      (fun r' hr' ↦ hr r' (List.mem_cons_of_mem _ hr')) hrest

theorem Covers.deleteIds {ids : List Uuid} (h : Covers d projectId s g) (hd : s.outbox.Distinct)
    (hr : ∀ e ∈ s.outbox, e.changeId ∈ ids → ∃ r, Answered d projectId g r ∧
      serverRecord r = none ∧ r.entity = e.entity ∧ r.entityId = some e.entityId) :
    Covers d projectId { s with outbox := s.outbox.deleteOutboxIds ids } g := by
  refine h.keep fun row hrow hp hle k hk ↦ ?_
  by_cases hgone : ∀ e, s.outbox.entry k = some e → e.changeId ∉ ids
  · rw [show Outbox.entry (s.outbox.deleteOutboxIds ids) k = s.outbox.entry k from
      Outbox.entry_deleteOutboxIds hd hgone]
    cases hopen : s.outbox.entry k with
    | none => exact Or.inr (Or.inl ⟨rfl, rfl⟩)
    | some e => exact Or.inl rfl
  · obtain ⟨e, he, hin⟩ : ∃ e, s.outbox.entry k = some e ∧ e.changeId ∈ ids := by
      simpa using hgone
    obtain ⟨hmem, rfl⟩ := Outbox.entry_some he
    obtain ⟨r, hanswer, hstateless, hentity, hid⟩ := hr e hmem hin
    obtain ⟨record, hrecord, -⟩ := hanswer.shows row hrow hp hle _ hid (by rw [hentity]; exact hk)
    cases hstateless.symm.trans hrecord

theorem Covers.applyPull {since : ℕ} {pull : Download} (h : Covers d projectId s since)
    (hpull : Fetches d projectId since pull) :
    Covers d projectId (s.applyPull pull) pull.serverSequence := by
  obtain ⟨t, ht, heq⟩ := LocalStore.applyPull_pulls s pull
  rw [heq]
  intro row hr hp hle k hk
  cases hopen : s.outbox.entry k with
  | some e =>
    refine Or.inl ?_
    rw [show (t.outbox.entry k).isSome = (s.outbox.entry k).isSome from ht.outbox.isSome_entry k,
      hopen]
    rfl
  | none =>
    refine Or.inr ?_
    rcases Nat.lt_or_ge since row.changeSequence with hlt | hge
    · obtain ⟨key, hkey, record, hrecord, hid⟩ := hpull.complete row hr hp hlt hle k hk
      obtain ⟨record', hrecord', hid', hrow⟩ := ht.written key (by cases key <;> decide) k.2
        (by rw [hkey]; exact hopen) record hrecord hid
      rw [hkey] at hrow
      rw [← (hpull.current row hr hp hle k hk key hkey record' hrecord' hid').localRow]
      exact hrow
    · have hold : s.row k = some (localRow k row) := by
        rcases h row hr hp hge k hk with hsome | hrow
        · rw [hopen] at hsome
          cases hsome
        · exact hrow
      rcases ht.row k with hsame | ⟨-, key, -, hkey, record, hrecord, hid, hrow⟩
      · exact hsame.trans hold
      · rw [← (hpull.current row hr hp hle k hk key hkey record hrecord hid).localRow]
        exact hrow

theorem Fetches.later {since : ℕ} {pull : Download} (h : Fetches d projectId since pull)
    (hstep : FeedStep d d') (hd' : d'.WellFormed) : Fetches d' projectId since pull := by
  obtain ⟨n, hn, hle⟩ := h.counter
  obtain ⟨n', hn', hnn⟩ := hstep.counter projectId n hn
  refine ⟨⟨n', hn', hle.trans hnn⟩, fun row hr hp hlt hseq ↦ ?_, fun row hr hp hseq ↦ ?_⟩
  · obtain ⟨hold, hpold⟩ := old_of_feedStep hstep hd' hn hr hp (hseq.trans hle)
    exact h.complete row hold hpold hlt hseq
  · obtain ⟨hold, hpold⟩ := old_of_feedStep hstep hd' hn hr hp (hseq.trans hle)
    exact h.current row hold hpold hseq

end Covers

section Commit

variable {d : Data} {projectId : Uuid} {s s' : LocalStore} {g : ℕ}

theorem Covers.keepMine (h : Covers d projectId s g) {changeId : Uuid} {expected : Option ℤ}
    {t : LocalStore.Stamp} (hc : s.keepMine changeId expected t = some s') :
    Covers d projectId s' g := by
  obtain ⟨e, -, -, -, version, rfl⟩ := Device.keepMine_some hc
  refine h.keep fun _ _ _ _ k _ ↦ ?_
  set dr := LocalStore.draft e.key e.op (some version) e.record t
  have hentry : Outbox.entry (s.outbox.replaceOutboxEntry dr true) k =
      if dr.key = k then some (dr.entry dr.baseVersion) else s.outbox.entry k :=
    Outbox.entry_insertEntry s.outbox dr dr.baseVersion k
  by_cases hk : dr.key = k
  · rw [if_pos hk] at hentry
    exact Or.inl (by rw [hentry]; rfl)
  · rw [if_neg hk] at hentry
    cases hopen : s.outbox.entry k with
    | none => exact Or.inr (Or.inl ⟨rfl, rfl⟩)
    | some e' => exact Or.inl (by rw [hentry, hopen]; rfl)

theorem Covers.merge (h : Covers d projectId s g) (hd : s.outbox.Distinct) {changeId : Uuid}
    {expected : Option ℤ} {merged : Dict} {t : LocalStore.Stamp}
    (hc : s.merge projectId changeId expected merged t = some s') : Covers d projectId s' g := by
  obtain ⟨e, hmem, -, -, record, version, hid, rfl⟩ := Device.merge_some hc
  set dr := LocalStore.draft e.key .upsert (some version) (merged.set .id (.uuid e.entityId)) t
  have hentry : ∀ k, Outbox.entry ((s.takeServerCopy e record).outbox.replaceOutboxEntry dr true)
      k = if e.key = k then some (dr.entry dr.baseVersion)
        else (s.takeServerCopy e record).outbox.entry k :=
    Outbox.entry_insertEntry _ dr dr.baseVersion
  refine h.keep fun _ _ _ _ k _ ↦ ?_
  by_cases hk : e.key = k
  · exact Or.inl (by rw [hentry k, if_pos hk]; rfl)
  · have hkept : (s.takeServerCopy e record).outbox.entry k = s.outbox.entry k := by
      rw [Device.takeServerCopy_outbox hd hmem hid]
      exact Outbox.entry_deleteOutboxId_other hd hmem hk
    have hrow : (s.takeServerCopy e record).row k = s.row k := by
      rcases (LocalStore.applyPullEntities_pulls
        { s with outbox := s.outbox.deleteOutboxIds [e.changeId] } e.entity [record]).row k with
        hsame | ⟨hentity, -, record', hr', hid', -⟩
      · exact hsame
      · rw [List.mem_singleton.mp hr', hid] at hid'
        exact absurd (Prod.ext hentity.symm (Option.some.inj hid')) hk
    cases hopen : s.outbox.entry k with
    | none => exact Or.inr (Or.inl ⟨rfl, hrow⟩)
    | some e' => exact Or.inl (by rw [hentry k, if_neg hk, hkept, hopen]; rfl)

end Commit

end RiskApp.Client
