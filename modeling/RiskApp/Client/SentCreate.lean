import RiskApp.Client.ServerState

namespace RiskApp.Client

open Lib Server

def Edit.creates : Edit → Bool
  | .createScored _ _ _ | .createTicket _ _ | .createAction _ _ => true
  | _ => false

def LocalStore.Draws (s : LocalStore) : Transaction → Prop
  | .edit op t => (∀ e ∈ s.outbox, e.changeId ≠ t.changeId) ∧
      (op.creates = true → s.row op.key = none)
  | _ => True

/-- The operations that queue changes, and those of a push that is not acknowledged. -/
def Transaction.unacknowledged : Transaction → Bool
  | .edit _ _ | .markAttempted _ _ | .deferId _ _ _ _ | .blockId _ _ _ => true
  | .releaseAuthentication => true
  | _ => false

/-- A store, whether a create of the entity was marked attempted, and whether the last operation
of the user on the entity is a delete. -/
structure Track where
  store : LocalStore
  sent : Bool
  deleted : Bool

namespace Track

variable (k : EntityKey)

def marksCreate (s : LocalStore) : Transaction → Bool
  | .markAttempted ids _ => s.outbox.any fun e ↦
      e.key = k && e.changeId ∈ ids && e.op = .upsert && e.baseVersion = none
  | _ => false

def next (x : Track) (tx : Transaction) (s' : LocalStore) : Track where
  store := s'
  sent := x.sent || marksCreate k x.store tx
  deleted := match tx with
    | .edit op _ => if op.key = k then op.op = .delete else x.deleted
    | _ => x.deleted

inductive Reach (projectId : Uuid) (allowed : Track → Transaction → Prop) : Track → Prop
  | start {s : LocalStore} (distinct : s.outbox.Distinct) (row : s.row k = none)
      (entry : s.outbox.entry k = none) : Reach projectId allowed ⟨s, false, false⟩
  | step {x : Track} {tx : Transaction} {s' : LocalStore} (reach : Reach projectId allowed x)
      (commit : x.store.commit projectId tx = some s') (draws : x.store.Draws tx)
      (unacknowledged : tx.unacknowledged = true) (meets : allowed x tx) :
      Reach projectId allowed (x.next k tx s')

def Remembered (x : Track) : Prop :=
  x.sent = true → (∀ v, x.store.version k = some v → v = 0) →
    ∃ e ∈ x.store.outbox, e.key = k ∧
      (x.deleted = true → e.op = .delete ∧ ∃ b, e.baseVersion = some b ∧ 1 ≤ b)

/-- After the send, no editor passes a base version below one, unless on a conflict, and no delete
meets the entry of a delete. -/
def KeepsSend (x : Track) : Transaction → Prop
  | .edit op _ => op.key = k → x.sent = true → ∀ e, x.store.outbox.entry k = some e →
      (∀ bv, op.baseVersion = some bv → bv < 1 → e.inConflict = true) ∧
      (op.op = .delete → e.op = .upsert)
  | _ => True

end Track

def Entry.Holds (e : Entry) : Prop :=
  (e.op = .upsert ∧ e.createMayExistRemotely = true) ∨ (e.op = .delete ∧ e.baseVersion.isSome)

theorem Entry.holds_of_base {e : Entry} (h : e.baseVersion.isSome) : e.Holds := by
  cases hop : e.op with
  | upsert => exact Or.inl ⟨hop, by simp [createMayExistRemotely, hop, h]⟩
  | delete => exact Or.inr ⟨hop, h⟩

theorem Entry.Holds.squashedBase {e : Entry} (h : e.Holds) : (Outbox.squashedBase e).isSome := by
  rw [Outbox.squashedBase]
  split
  · rfl
  · rename_i hcond
    rcases h with ⟨-, hmay⟩ | ⟨-, hbase⟩
    · rw [hmay, Bool.and_true, decide_eq_true_eq] at hcond
      exact Option.isSome_iff_ne_none.mpr hcond
    · exact hbase

theorem Outbox.squashedBase_pos {e : Entry} (h : ∀ b, e.baseVersion = some b → 1 ≤ b) {b : ℤ}
    (hb : Outbox.squashedBase e = some b) : 1 ≤ b := by
  rw [Outbox.squashedBase] at hb
  split at hb
  · obtain rfl := Option.some.inj hb
    exact le_rfl
  · exact h b hb

namespace Track

variable {k : EntityKey} {projectId : Uuid} {x : Track}

structure Inv (k : EntityKey) (x : Track) : Prop where
  distinct : x.store.outbox.Distinct
  unsynced : ∀ r, x.store.row k = some r → r.version < 1
  rowed : ∀ e, x.store.outbox.entry k = some e → (x.store.row k).isSome
  positive : ∀ e, x.store.outbox.entry k = some e → ∀ b, e.baseVersion = some b → 1 ≤ b
  last : x.deleted = true → ∀ e, x.store.outbox.entry k = some e → e.op = .delete
  held : x.sent = true → ∃ e, x.store.outbox.entry k = some e ∧ e.Holds

theorem holds_parks {e e' : Entry} (he : e.Holds) (h : e.Parks e') : e'.Holds := by
  rcases he with ⟨hop, hmay⟩ | ⟨hop, hsome⟩
  · refine Or.inl ⟨h.op.trans hop, ?_⟩
    simp only [Entry.createMayExistRemotely, Bool.and_eq_true, Bool.or_eq_true, decide_eq_true_eq,
      h.baseVersion, h.op] at hmay ⊢
    exact ⟨hmay.1, hmay.2.imp id h.attempt⟩
  · exact Or.inr ⟨h.op.trans hop, h.baseVersion ▸ hsome⟩

theorem Inv.parks (h : x.Inv k) {p : Entry → Bool} {f : Entry → Entry}
    (hf : ∀ e : Entry, e.Parks (f e)) (sent : Bool)
    (hsent : sent = true → x.sent = true ∨
      ∃ e, x.store.outbox.entry k = some e ∧ p e = true ∧ (f e).Holds) :
    Inv k ⟨{ x.store with outbox := x.store.outbox.update p f }, sent, x.deleted⟩ := by
  have hentry : ∀ e', (x.store.outbox.update p f).entry k = some e' →
      ∃ e, x.store.outbox.entry k = some e ∧ (e' = f e ∨ e' = e) := by
    intro e' he'
    rw [Outbox.entry_update fun e ↦ (hf e).key] at he'
    obtain ⟨e, he, rfl⟩ := Option.map_eq_some_iff.mp he'
    refine ⟨e, he, ?_⟩
    by_cases hp : p e = true
    · exact Or.inl (if_pos hp)
    · exact Or.inr (if_neg hp)
  refine ⟨h.distinct.update (fun e ↦ (hf e).key) fun e ↦ (hf e).changeId, h.unsynced,
    fun e' he' ↦ ?_, fun e' he' b hb ↦ ?_, fun hdel e' he' ↦ ?_, fun hs ↦ ?_⟩
  · obtain ⟨e, he, -⟩ := hentry e' he'
    exact h.rowed e he
  · obtain ⟨e, he, rfl | rfl⟩ := hentry e' he'
    · exact h.positive e he b ((hf e).baseVersion ▸ hb)
    · exact h.positive e' he b hb
  · obtain ⟨e, he, rfl | rfl⟩ := hentry e' he'
    · exact (hf e).op.trans (h.last hdel e he)
    · exact h.last hdel e' he
  · have hmap := Outbox.entry_update (p := p) (fun e ↦ (hf e).key) x.store.outbox k
    rcases hsent hs with hold | ⟨e, he, hp, hholds⟩
    · obtain ⟨e, he, hholds⟩ := h.held hold
      rw [he] at hmap
      refine ⟨_, hmap, ?_⟩
      dsimp only
      split
      · exact holds_parks hholds (hf e)
      · exact hholds
    · rw [he] at hmap
      exact ⟨_, hmap, by simpa [hp] using hholds⟩

theorem savedRow_unsynced {op : Edit} {s : LocalStore} {r : LocalRow}
    (hk : op.key.1 ≠ .assessment) (h : ∀ r, s.row op.key = some r → r.version < 1)
    (hr : op.savedRow (s.row op.key) = some r) : r.version < 1 := by
  cases op with
  | createScored | createTicket | createAction =>
    obtain rfl := Option.some.inj hr
    exact one_pos
  | upsertMyAssessment => exact absurd rfl hk
  | updateTicket => exact h r hr
  | updateScored | updateAction | deleteScored | deleteTicket =>
    obtain ⟨r₀, hr₀, rfl⟩ := Option.map_eq_some_iff.mp hr
    exact h r₀ hr₀

theorem base_of_sent {s : LocalStore} {op : Edit} {b : Option ℤ} (hb : op.Base s b) {e : Entry}
    (he : s.outbox.entry op.key = some e) (hholds : e.Holds)
    (heditor : ∀ bv, op.baseVersion = some bv → bv < 1 → e.inConflict = true) : b.isSome := by
  cases hb with
  | squashed _ he' _ _ =>
    obtain rfl := Option.some.inj (he.symm.trans he')
    exact hholds.squashedBase
  | stored _ hnone _ _ => cases he.symm.trans hnone
  | sentCreate => rfl
  | @editor bv hfree hbv =>
    by_cases hpos : 1 ≤ bv
    · rw [if_pos hpos]
      rfl
    · have hconflict := heditor bv hbv (by omega)
      rw [hfree e he] at hconflict
      cases hconflict

theorem base_pos {s : LocalStore} {op : Edit} {b : ℤ} (hb : op.Base s (some b))
    (hpos : ∀ e, s.outbox.entry op.key = some e → ∀ b, e.baseVersion = some b → 1 ≤ b) :
    1 ≤ b := by
  generalize hc : some b = c at hb
  cases hb with
  | squashed _ he _ _ => exact Outbox.squashedBase_pos (hpos _ he) hc.symm
  | stored _ _ _ _ =>
    split at hc
    · rename_i hv
      rw [Option.some.inj hc]
      exact hv
    · cases hc
  | sentCreate =>
    rw [Option.some.inj hc]
  | editor _ _ =>
    split at hc
    · rename_i hv
      have := Option.some.inj hc
      omega
    · cases hc

theorem Inv.edited (h : x.Inv k) {op : Edit} {t : LocalStore.Stamp} {s' : LocalStore}
    (hk : op.key = k) (hassess : k.1 ≠ .assessment) (hedit : Edited x.store op t s')
    (hfresh : ∀ e ∈ x.store.outbox, e.changeId ≠ t.changeId)
    (hmeets : x.KeepsSend k (.edit op t)) : Inv k ⟨s', x.sent, op.op = .delete⟩ := by
  subst hk
  have hunsynced : ¬ ∃ r, x.store.row op.key = some r ∧ 1 ≤ r.version := by
    rintro ⟨r, hr, hpos⟩
    have := h.unsynced r hr
    omega
  cases hedit with
  | @rewritten e rows joins entry conflict saved row =>
    have hup : op.op = .upsert := by
      cases hop : op.op with
      | upsert => rfl
      | delete => exact absurd (joins hop) hunsynced
    have hentry := Outbox.entry_update_self (f := Entry.rewrite op.op op.record) (fun _ ↦ rfl) entry
    have hrow := (row op.key).trans (if_pos rfl)
    refine ⟨h.distinct.update (fun _ ↦ rfl) fun _ ↦ rfl, fun r hr ↦ ?_, fun e' he' ↦ ?_,
      fun e' he' b hb ↦ ?_, fun hdel e' he' ↦ ?_, fun hs ↦ ?_⟩
    · exact savedRow_unsynced hassess h.unsynced (hrow.symm.trans hr)
    · rw [LocalStore.row, hrow]
      exact saved
    · obtain rfl := Option.some.inj (hentry.symm.trans he')
      exact h.positive e entry b hb
    · rw [hup] at hdel
      cases hdel
    · obtain ⟨e₀, he₀, hholds⟩ := h.held hs
      obtain rfl := Option.some.inj (he₀.symm.trans entry)
      refine ⟨_, hentry, ?_⟩
      rcases hholds with ⟨hop, hmay⟩ | ⟨-, hbase⟩
      · refine Or.inl ⟨hup, ?_⟩
        simpa [Entry.createMayExistRemotely, Entry.rewrite, hup, hop] using hmay
      · exact Entry.holds_of_base hbase
  | @queued b rows base saved row =>
    have hentry : (x.store.outbox.insertEntry (op.draft t) b).entry op.key =
        some ((op.draft t).entry b) :=
      (Outbox.entry_insertEntry _ _ _ _).trans (if_pos rfl)
    have hrow := (row op.key).trans (if_pos rfl)
    refine ⟨h.distinct.insertEntry b hfresh, fun r hr ↦ ?_, fun e' he' ↦ ?_, fun e' he' c hc ↦ ?_,
      fun hdel e' he' ↦ ?_, fun hs ↦ ?_⟩
    · exact savedRow_unsynced hassess h.unsynced (hrow.symm.trans hr)
    · rw [LocalStore.row, hrow]
      exact saved
    · obtain rfl := Option.some.inj (hentry.symm.trans he')
      obtain rfl : b = some c := hc
      exact base_pos base h.positive
    · obtain rfl := Option.some.inj (hentry.symm.trans he')
      exact of_decide_eq_true hdel
    · obtain ⟨e, he, hholds⟩ := h.held hs
      have hmeets' := hmeets rfl hs e he
      exact ⟨_, hentry, Entry.holds_of_base (base_of_sent base he hholds hmeets'.1)⟩
  | @discarded rows delete unsynced unsent row gone =>
    have hnone : (x.store.outbox.deleteOpenEntries op.key).entry op.key = none :=
      (Outbox.entry_deleteOpenEntries _ _ _).trans (if_pos rfl)
    refine ⟨h.distinct.filter _, fun r hr ↦ ?_, fun e' he' ↦ ?_, fun e' he' ↦ ?_, fun _ e' he' ↦ ?_,
      fun hs ↦ ?_⟩
    · exact (gone r hr).2
    · cases he'.symm.trans hnone
    · cases he'.symm.trans hnone
    · cases he'.symm.trans hnone
    · obtain ⟨e, he, hholds⟩ := h.held hs
      rw [Outbox.remoteCreateMayExist_eq h.distinct, he, Option.any_some] at unsent
      rcases hholds with ⟨-, hmay⟩ | ⟨hop, -⟩
      · cases hmay.symm.trans unsent
      · cases hop.symm.trans ((hmeets rfl hs e he).2 delete)

theorem Inv.frame (h : x.Inv k) {s' : LocalStore} (hd : s'.outbox.Distinct)
    (hentry : s'.outbox.entry k = x.store.outbox.entry k) (hrow : s'.row k = x.store.row k) :
    Inv k ⟨s', x.sent, x.deleted⟩ := by
  obtain ⟨-, hunsynced, hrowed, hpos, hlast, hheld⟩ := h
  rw [← hrow] at hunsynced hrowed
  rw [← hentry] at hrowed hpos hlast hheld
  exact ⟨hd, hunsynced, hrowed, hpos, hlast, hheld⟩

theorem Inv.step (h : x.Inv k) (hassess : k.1 ≠ .assessment) {tx : Transaction} {s' : LocalStore}
    (hcommit : x.store.commit projectId tx = some s') (hdraws : x.store.Draws tx)
    (hunack : tx.unacknowledged = true) (hmeets : x.KeepsSend k tx) : (x.next k tx s').Inv k := by
  have hkeep : x.sent = (x.sent || false) := (Bool.or_false _).symm
  cases tx with
  | edit op t =>
    have hedit := LocalStore.edit_edited h.distinct hcommit
    have hnext : x.next k (.edit op t) s' =
        ⟨s', x.sent, if op.key = k then decide (op.op = .delete) else x.deleted⟩ := by
      simp [next, marksCreate]
    rw [hnext]
    by_cases hk : op.key = k
    · rw [if_pos hk]
      exact h.edited hk hassess hedit hdraws.1 hmeets
    · obtain ⟨hentry, hrow⟩ := hedit.frame h.distinct hk
      rw [if_neg hk]
      exact h.frame (hedit.distinct h.distinct hdraws.1) hentry hrow
  | markAttempted ids now =>
    obtain rfl := Option.some.inj hcommit
    refine h.parks (Entry.parks_attempted now) _ fun hs ↦ ?_
    rcases (Bool.or_eq_true _ _).mp hs with hs | hs
    · exact Or.inl hs
    · obtain ⟨e, he, hmark⟩ := List.any_eq_true.mp hs
      simp only [Bool.and_eq_true, decide_eq_true_eq] at hmark
      obtain ⟨⟨⟨hk, hid⟩, hop⟩, -⟩ := hmark
      refine Or.inr ⟨e, hk ▸ h.distinct.entry_of_mem he, decide_eq_true hid, Or.inl ⟨hop, ?_⟩⟩
      simp [Entry.createMayExistRemotely, Entry.attempted, hop]
  | deferId changeId err retryAfter now =>
    obtain rfl := Option.some.inj hcommit
    exact h.parks (Entry.parks_deferred err retryAfter now) _ fun hs ↦ Or.inl (hkeep.trans hs)
  | blockId changeId err now =>
    obtain rfl := Option.some.inj hcommit
    exact h.parks (Entry.parks_parked err now) _ fun hs ↦ Or.inl (hkeep.trans hs)
  | releaseAuthentication =>
    obtain rfl := Option.some.inj hcommit
    exact h.parks Entry.parks_released _ fun hs ↦ Or.inl (hkeep.trans hs)
  | acknowledge | deleteIds | applyPull | keepMine | useServer | merge => cases hunack

theorem Reach.inv (hassess : k.1 ≠ .assessment) (h : Reach k projectId (KeepsSend k) x) :
    x.Inv k := by
  induction h with
  | @start s distinct row entry =>
    have hno : ∀ e, s.outbox.entry k = some e → False := fun e he ↦ by cases he.symm.trans entry
    refine ⟨distinct, fun r hr ↦ ?_, fun e he ↦ (hno e he).elim, fun e he ↦ (hno e he).elim,
      fun _ e he ↦ (hno e he).elim, fun hs ↦ ?_⟩
    · cases hr.symm.trans row
    · cases hs
  | step _ commit draws unacknowledged meets ih =>
    exact ih.step hassess commit draws unacknowledged meets

end Track

/-- A create that was sent is not forgotten, in every history that keeps the conditions. -/
theorem sent_create_remembered (k : EntityKey) (hk : k.1.scored = true ∨ k.1 = .helpdeskTicket)
    (projectId : Uuid) {x : Track} (h : Track.Reach k projectId (Track.KeepsSend k) x) :
    x.Remembered k := by
  have hassess : k.1 ≠ .assessment := by
    rintro he
    rw [he] at hk
    rcases hk with hk | hk <;> cases hk
  have hinv := h.inv hassess
  intro hsent _
  obtain ⟨e, he, hholds⟩ := hinv.held hsent
  obtain ⟨hmem, hkey⟩ := Outbox.entry_some he
  refine ⟨e, hmem, hkey, fun hdel ↦ ?_⟩
  have hop := hinv.last hdel e he
  rcases hholds with ⟨hup, -⟩ | ⟨-, hbase⟩
  · cases hup.symm.trans hop
  · obtain ⟨b, hb⟩ := Option.isSome_iff_exists.mp hbase
    exact ⟨hop, b, hb, hinv.positive e he b hb⟩

section Sample

variable {k : EntityKey} {allowed : Track → Transaction → Prop} {x : Track}

theorem Track.Reach.tx (h : Reach k 7 allowed x) (tx : Transaction) {s' : LocalStore}
    (hcommit : x.store.commit 7 tx = some s') (hdraws : x.store.Draws tx)
    (hunack : tx.unacknowledged = true) (hmeets : allowed x tx) :
    Reach k 7 allowed (x.next k tx s') :=
  h.step hcommit hdraws hunack hmeets

theorem empty_distinct : Outbox.Distinct [] := ⟨.nil, .nil⟩

def sampleTicket : TicketForm :=
  ⟨.str "Printer", .str "", .str "bug", .str "low", .str "open", .null⟩

/-- A create is attempted, edited and deleted. -/
theorem sent_create_remembered_sample : ∃ x,
    Track.Reach (.risk, 1) 7 (Track.KeepsSend (.risk, 1)) x ∧ x.sent = true ∧ x.deleted = true ∧
      x.Remembered (.risk, 1) := by
  have h₀ : Track.Reach (.risk, 1) 7 (Track.KeepsSend (.risk, 1)) ⟨{}, false, false⟩ :=
    .start empty_distinct rfl rfl
  have h₁ := h₀.tx (.edit (.createScored .risk 1 Dict.empty) ⟨11, 1⟩) rfl ⟨by simp, fun _ ↦ rfl⟩ rfl
    (fun _ hs ↦ by cases hs)
  have h₂ := h₁.tx (.markAttempted [11] 2) rfl trivial rfl trivial
  have h₃ := h₂.tx (.edit (.updateScored .risk 1 Dict.empty none) ⟨12, 3⟩) rfl
    ⟨by decide, fun h ↦ by cases h⟩ rfl
    (fun _ _ e he ↦ by cases he; exact ⟨by simp [Edit.baseVersion], by decide⟩)
  have h₄ := h₃.tx (.edit (.deleteScored .risk 1) ⟨13, 4⟩) rfl ⟨by decide, fun h ↦ by cases h⟩ rfl
    (fun _ _ e he ↦ by cases he; exact ⟨by simp [Edit.baseVersion], fun _ ↦ rfl⟩)
  exact ⟨_, h₄, rfl, rfl, sent_create_remembered (.risk, 1) (Or.inl rfl) 7 h₄⟩

/-- An editor that was opened before the first acknowledgement passes base version zero, and a
delete may be repeated: both lose the create that was sent. -/
theorem sent_create_forgotten :
    (∃ x, Track.Reach (.risk, 1) 7 (fun _ _ ↦ True) x ∧ ¬ x.Remembered (.risk, 1)) ∧
    ∃ x, Track.Reach (.helpdeskTicket, 1) 7 (fun _ _ ↦ True) x ∧
      ¬ x.Remembered (.helpdeskTicket, 1) := by
  constructor
  · have h₀ : Track.Reach (.risk, 1) 7 (fun _ _ ↦ True) ⟨{}, false, false⟩ :=
      .start empty_distinct rfl rfl
    have h₁ := h₀.tx (.edit (.createScored .risk 1 Dict.empty) ⟨11, 1⟩) rfl
      ⟨by simp, fun _ ↦ rfl⟩ rfl trivial
    have h₂ := h₁.tx (.markAttempted [11] 2) rfl trivial rfl trivial
    have h₃ := h₂.tx (.edit (.updateScored .risk 1 Dict.empty (some 0)) ⟨12, 3⟩) rfl
      ⟨by decide, fun h ↦ by cases h⟩ rfl trivial
    have h₄ := h₃.tx (.edit (.deleteScored .risk 1) ⟨13, 4⟩) rfl
      ⟨by decide, fun h ↦ by cases h⟩ rfl trivial
    refine ⟨_, h₄, fun hr ↦ ?_⟩
    obtain ⟨e, he, -⟩ := hr rfl fun v hv ↦ (Option.some.inj hv).symm
    exact absurd he List.not_mem_nil
  · have h₀ : Track.Reach (.helpdeskTicket, 1) 7 (fun _ _ ↦ True) ⟨{}, false, false⟩ :=
      .start empty_distinct rfl rfl
    have h₁ := h₀.tx (.edit (.createTicket 1 sampleTicket) ⟨11, 1⟩) rfl ⟨by simp, fun _ ↦ rfl⟩ rfl
      trivial
    have h₂ := h₁.tx (.markAttempted [11] 2) rfl trivial rfl trivial
    have h₃ := h₂.tx (.edit (.deleteTicket 1) ⟨12, 3⟩) rfl
        ⟨by decide, fun h ↦ by cases h⟩ rfl trivial
    have h₄ := h₃.tx (.edit (.deleteTicket 1) ⟨13, 4⟩) rfl
        ⟨by decide, fun h ↦ by cases h⟩ rfl trivial
    refine ⟨_, h₄, fun hr ↦ ?_⟩
    obtain ⟨e, he, -⟩ := hr rfl fun v hv ↦ by cases hv
    exact absurd he List.not_mem_nil

end Sample

end RiskApp.Client
