import RiskApp.Client.Pull
import RiskApp.Client.ServerState
import RiskApp.Server.ExactlyOnce
import RiskApp.Server.Serialize

namespace RiskApp.Client

open Lib Server

/-- The key under which a device keeps a row of the server. -/
def entityKey (row : Row) : Option EntityKey := (pullKey row).map fun key ↦ (key.entity, row.id)

/-- What synchronization reads of a record is what the row says. -/
structure Shows (record : Dict) (row : Row) : Prop where
  id : recordId record = some row.id
  version : record.get .version = .int row.version
  deleted : recordDeleted record = (row.attrs .isDeleted).truthy

/-- An accepted result names its entity, and its record shows the row that the server has of the
entity, if the sequence of that row is not above `n`. -/
structure Answered (d : Data) (projectId : Uuid) (n : ℕ) (r : ChangeResult) : Prop where
  named : r.entityId.isSome
  shows : ∀ row ∈ d.rows, d.projectOf row = some projectId → row.changeSequence ≤ n →
    ∀ id, r.entityId = some id → entityKey row = some (r.entity, id) →
    ∃ record, serverRecord r = some record ∧ Shows record row

/-- What a replay starts from names its entity, and an assessment is the caller's own. -/
structure Rooted (d : Data) (userId : Uuid) (entity : Entity) (entityId : Option Uuid) : Prop where
  named : entityId.isSome
  mine : entity = .assessment → ∀ id, entityId = some id →
    ∃ row ∈ d.rows, row.key = (.assessments, id) ∧ row.attrs .assessorUserId = .uuid userId

section Rows

variable {d d' : Data} {projectId : Uuid} {row : Row} {k : EntityKey} {n m : ℕ}

theorem shows_modelToSyncDict (d : Data) (entity : Entity) (row : Row) :
    Shows (modelToSyncDict d entity row) row := by
  have hcolumn : ∀ a ∈ [Attr.id, .version, .isDeleted], modelToSyncDict d entity row a =
      some (row.get a) := by
    intro a ha
    simp only [List.mem_cons, List.not_mem_nil, or_false] at ha
    refine modelToSyncDict_column d ?_ ?_ ?_
    · rcases ha with rfl | rfl | rfl <;> cases row.table <;> decide
    · rcases ha with rfl | rfl | rfl <;> decide
    · rcases ha with rfl | rfl | rfl <;> decide
  refine ⟨?_, ?_, ?_⟩
  · rw [recordId, Dict.get, hcolumn .id (by decide)]
    rfl
  · rw [Dict.get, hcolumn .version (by decide)]
    rfl
  · rw [recordDeleted, Dict.get, hcolumn .isDeleted (by decide)]
    rfl

theorem shows_pulledRecord (d : Data) (entity : Entity) (row : Row) :
    Shows (pulledRecord d entity row) row := by
  have hget : ∀ a ∈ [Attr.id, .version, .isDeleted], (pulledRecord d entity row).get a =
      (modelToSyncDict d entity row).get a := by
    intro a ha
    simp only [List.mem_cons, List.not_mem_nil, or_false] at ha
    refine pulledRecord_get d (Or.inl ?_)
    rcases ha with rfl | rfl | rfl <;> cases entity <;> decide
  have hshows := shows_modelToSyncDict d entity row
  refine ⟨?_, ?_, ?_⟩
  · rw [recordId, hget .id (by decide)]
    exact hshows.id
  · rw [hget .version (by decide)]
    exact hshows.version
  · rw [recordDeleted, hget .isDeleted (by decide)]
    exact hshows.deleted

theorem entityKey_some (h : entityKey row = some k) :
    ∃ key, pullKey row = some key ∧ k = (key.entity, row.id) := by
  obtain ⟨key, hkey, rfl⟩ := Option.map_eq_some_iff.mp h
  exact ⟨key, hkey, rfl⟩

theorem entityKey_key (h : entityKey row = some k) : row.key = (k.1.table, k.2) := by
  obtain ⟨key, hkey, rfl⟩ := entityKey_some h
  have htable : row.table = key.entity.table := by
    unfold pullKey at hkey
    cases ht : row.table <;> rw [ht] at hkey
    · dsimp only at hkey
      split at hkey
      · obtain rfl := Option.some.inj hkey
        rfl
      · split at hkey
        · obtain rfl := Option.some.inj hkey
          rfl
        · cases hkey
    all_goals
      obtain rfl := Option.some.inj hkey
      rfl
  exact Prod.ext htable rfl

theorem entityKey_type (h : entityKey row = some k) (hs : k.1.scored = true) :
    row.attrs .type = .str k.1.name := by
  obtain ⟨key, hkey, rfl⟩ := entityKey_some h
  unfold pullKey at hkey
  cases ht : row.table <;> rw [ht] at hkey
  · dsimp only at hkey
    split at hkey
    · rename_i htype
      obtain rfl := Option.some.inj hkey
      exact htype
    · split at hkey
      · rename_i htype
        obtain rfl := Option.some.inj hkey
        exact htype
      · cases hkey
  all_goals
    obtain rfl := Option.some.inj hkey
    cases hs

theorem entityKey_inj (hd : d.WellFormed) {row' : Row} (hr : row ∈ d.rows) (hr' : row' ∈ d.rows)
    (h : entityKey row = some k) (h' : entityKey row' = some k) : row = row' :=
  hd.eq_of_key hr hr' ((entityKey_key h).trans (entityKey_key h').symm)

theorem old_of_feedStep (h : FeedStep d d') (hd' : d'.WellFormed)
    (hm : d.lastSequence projectId = some m) (hr : row ∈ d'.rows)
    (hp : d'.projectOf row = some projectId) (hle : row.changeSequence ≤ m) :
    row ∈ d.rows ∧ d.projectOf row = some projectId := by
  rcases h.stamped row hr with hold | ⟨p, n', hp', -, -, hgt⟩
  · exact ⟨hold, (h.projectOf_eq hd' hold hr).symm.trans hp⟩
  · obtain rfl : p = projectId := Option.some.inj (hp'.symm.trans hp)
    have := hgt m hm
    omega

theorem Answered.later {r : ChangeResult} (h : Answered d projectId n r) (hstep : FeedStep d d')
    (hd' : d'.WellFormed) (hm : d.lastSequence projectId = some m) (hle : n ≤ m) :
    Answered d' projectId n r := by
  refine ⟨h.named, fun row hr hp hn id hid hk ↦ ?_⟩
  obtain ⟨hold, hpold⟩ := old_of_feedStep hstep hd' hm hr hp (hn.trans hle)
  exact h.shows row hold hpold hn id hid hk

theorem Answered.mono {r : ChangeResult} (h : Answered d projectId n r) (hle : m ≤ n) :
    Answered d projectId m r :=
  ⟨h.named, fun row hr hp hm ↦ h.shows row hr hp (hm.trans hle)⟩

theorem Rooted.later {userId : Uuid} {entity : Entity} {entityId : Option Uuid}
    (h : Rooted d userId entity entityId) (hstep : FeedStep d d') :
    Rooted d' userId entity entityId := by
  refine ⟨h.named, fun he id hid ↦ ?_⟩
  obtain ⟨row, hr, hk, ha⟩ := h.mine he id hid
  obtain ⟨row', hr', hkeeps, -⟩ := hstep.persists row hr
  exact ⟨row', hr', hkeeps.key.trans hk, (hkeeps.fixed .assessorUserId (by decide)).trans ha⟩

/-- A replay reports the row as it is now. -/
theorem refreshAcceptedReplay_answered (hd : d.WellFormed) {userId : Uuid} {replay : ChangeResult}
    (hs : replay.status = .accepted) (hroot : Rooted d userId replay.entity replay.entityId)
    (n : ℕ) : Answered d projectId n (refreshAcceptedReplay d projectId userId replay) := by
  obtain ⟨id, hid⟩ := Option.isSome_iff_exists.mp hroot.named
  have hfound : ∀ row ∈ d.rows, d.projectOf row = some projectId →
      entityKey row = some (replay.entity, id) →
      (d.row (replay.entity.table, id)).filter
        (inVersionScope d replay.entity projectId userId) = some row := by
    intro row hr hp hk
    have hkey : row.key = (replay.entity.table, id) := entityKey_key hk
    rw [← hkey, hd.row_of_mem hr, Option.filter_some, if_pos]
    have htype : replay.entity.scored = true → row.attrs .type = .str replay.entity.name :=
      entityKey_type hk
    have hassessor : replay.entity = .assessment → row.attrs .assessorUserId = .uuid userId := by
      intro he
      obtain ⟨row', hr', hk', ha⟩ := hroot.mine he id hid
      have hsame : row' = row := hd.eq_of_key hr' hr (by rw [hk', hkey, he]; rfl)
      exact hsame ▸ ha
    simp only [inVersionScope, Bool.and_eq_true, Bool.or_eq_true, decide_eq_true_eq,
      Bool.not_eq_true']
    refine ⟨⟨hp, ?_⟩, ?_⟩
    · cases hscored : replay.entity.scored with
      | false => exact Or.inl rfl
      | true => exact Or.inr (htype hscored)
    · by_cases he : replay.entity = .assessment
      · exact Or.inr (hassessor he)
      · exact Or.inl he
  unfold refreshAcceptedReplay
  rw [if_neg (not_not.mpr hs), hid]
  dsimp only
  cases hfilter : (d.row (replay.entity.table, id)).filter
      (inVersionScope d replay.entity projectId userId) with
  | none =>
    rw [currentServerState, hfilter]
    refine ⟨hroot.named, fun row hr hp _ id' hid' hk ↦ ?_⟩
    obtain rfl : id' = id := Option.some.inj (hid'.symm.trans hid)
    cases hfilter.symm.trans (hfound row hr hp hk)
  | some row₀ =>
    rw [currentServerState, hfilter]
    refine ⟨rfl, fun row hr hp _ id' hid' hk ↦ ?_⟩
    obtain rfl : id = id' := Option.some.inj hid'
    obtain rfl : row₀ = row := Option.some.inj (hfilter.symm.trans (hfound row hr hp hk))
    exact ⟨_, rfl, shows_modelToSyncDict d replay.entity row₀⟩

/-- A change that is applied leaves no row of its entity under a sequence given out before. -/
theorem lt_sequence_of_applied {userId entityId : Uuid} {change : SyncChange} (hd : d.WellFormed)
    (h : Applied d userId projectId change entityId d') (hm : d.lastSequence projectId = some m)
    (hr : row ∈ d'.rows) (hp : d'.projectOf row = some projectId)
    (hk : row.key = (change.entity.table, entityId)) : m < row.changeSequence := by
  obtain ⟨hd', hstep⟩ := h.feedStep hd
  refine not_le.mp fun hle ↦ ?_
  obtain ⟨hold, hpold⟩ := old_of_feedStep hstep hd' hm hr hp hle
  have hrow : fetchObj d change.entity entityId projectId = some row := by
    rw [fetchObj, ← hk, hd.row_of_mem hold, Option.filter_some, if_pos (decide_eq_true hpold)]
  cases h with
  | absent op missing => cases missing.symm.trans hrow
  | @modified r r' n entry found scope base pos keeps version project last sequence parent =>
    obtain rfl : r = row := Option.some.inj (found.symm.trans hrow)
    obtain rfl : n = m := Option.some.inj (last.symm.trans hm)
    have hr' : r' ∈ Table.replace Row.key r' d.rows :=
      List.mem_map.mpr ⟨r, hold, by simp [keeps.key]⟩
    have hsame : r = r' := hd'.eq_of_key hr hr' keeps.key.symm
    rw [hsame] at hle
    omega
  | created entry op missing => cases missing.symm.trans hrow

theorem rooted_of_applied {userId entityId : Uuid} {change : SyncChange}
    (h : Applied d userId projectId change entityId d')
    (hop : change.entity = .assessment → change.op = .upsert) :
    Rooted d' userId change.entity (some entityId) := by
  refine ⟨rfl, fun he id hid ↦ ?_⟩
  obtain rfl : entityId = id := Option.some.inj hid
  cases h with
  | absent op missing => cases op.symm.trans (hop he)
  | @modified r r' n entry found scope base pos keeps version project last sequence parent =>
    obtain ⟨hrow, -⟩ := fetchObj_some found
    have hmem := Table.mem_of_find Row.key hrow
    have hkey : r.key = (.assessments, entityId) := by
      rw [Table.key_of_find Row.key hrow, he]
      rfl
    refine ⟨r', List.mem_map.mpr ⟨r, hmem, by simp [keeps.key]⟩, keeps.key.trans hkey, ?_⟩
    rw [keeps.fixed .assessorUserId (by decide)]
    simp only [inVersionScope, he, Bool.and_eq_true, Bool.or_eq_true, decide_eq_true_eq] at scope
    exact scope.2.resolve_left fun hne ↦ hne rfl
  | @created r' n entry op missing fresh key version type assessor project last sequence parent =>
    refine ⟨r', by simp, ?_, assessor he⟩
    rw [key, he]
    rfl

end Rows

section Push

variable {Digest : Type} [DecidableEq Digest] (conv : Conv) (sha : Payload → Digest)

/-- The receipt can be replayed to its user. -/
def Replayable (d : Data) (receipt : SyncReceipt Digest) : Prop :=
  receipt.status = .accepted →
    Rooted d receipt.userId receipt.entity (receipt.response.entityId.or receipt.entityId)

omit [DecidableEq Digest] in
theorem Replayable.later {d d' : Data} {receipt : SyncReceipt Digest} (h : Replayable d receipt)
    (hstep : FeedStep d d') : Replayable d' receipt :=
  fun hs ↦ (h hs).later hstep

/-- What holds along a push when the project's counter stood at `n` or later before it. -/
structure Answering (n : ℕ) (ctx : PushContext Digest) : Prop where
  wellFormed : ctx.db.data.WellFormed
  counter : ∃ m, ctx.db.data.lastSequence ctx.projectId = some m ∧ n ≤ m
  existing : ∀ id receipt, ctx.existingReceipts id = some receipt →
    Replayable ctx.db.data receipt
  kept : ∀ id result, ctx.batchResults id = some result → result.status = .accepted →
    Rooted ctx.db.data ctx.userId result.entity result.entityId
  results : ∀ r ∈ ctx.results, r.status = .accepted → Answered ctx.db.data ctx.projectId n r

variable {conv sha} {ctx : PushContext Digest} {n : ℕ}

theorem duplicateErrorReason_user {change : SyncChange} {receipt : SyncReceipt Digest}
    {hash : Option Digest} {userId projectId : Uuid}
    (h : duplicateErrorReason sha change (some receipt) hash userId projectId = none) :
    receipt.userId = userId := by
  unfold duplicateErrorReason at h
  dsimp only at h
  split at h
  · cases h
  · rename_i howner
    exact not_not.mp fun hne ↦ howner (Or.inl hne)

theorem refreshAcceptedReplay_accepted {d : Data} {projectId userId : Uuid} {replay : ChangeResult}
    (h : (refreshAcceptedReplay d projectId userId replay).status = .accepted) :
    replay.status = .accepted := by
  rwa [refreshAcceptedReplay_status] at h

theorem Answering.duplicate (h : Answering n ctx) {change : SyncChange}
    (hs : (ctx.duplicateResult conv sha change).status = .accepted) :
    Answered ctx.db.data ctx.projectId n (ctx.duplicateResult conv sha change) := by
  unfold PushContext.duplicateResult at hs ⊢
  dsimp only at hs ⊢
  cases hreceipt : ctx.existingReceipts change.changeId with
  | some receipt =>
    rw [hreceipt] at hs
    cases hreason : duplicateErrorReason sha change (some receipt)
        (ctx.batchHashes change.changeId) ctx.userId ctx.projectId with
    | some reason =>
      rw [hreason] at hs
      cases hs
    | none =>
      rw [hreason] at hs
      have hacc : (receiptResult receipt).status = .accepted := refreshAcceptedReplay_accepted hs
      have hroot := h.existing _ _ hreceipt hacc
      rw [duplicateErrorReason_user hreason] at hroot
      exact refreshAcceptedReplay_answered h.wellFormed hacc hroot n
  | none =>
    rw [hreceipt] at hs
    cases hreason : duplicateErrorReason sha change none
        (ctx.batchHashes change.changeId) ctx.userId ctx.projectId with
    | some reason =>
      rw [hreason] at hs
      cases hs
    | none =>
      rw [hreason] at hs
      cases hkept : ctx.batchResults change.changeId with
      | none =>
        rw [hkept] at hs
        cases hs
      | some result =>
        rw [hkept] at hs
        set replay : ChangeResult := { result with replayed := true }
        have hacc : replay.status = .accepted := refreshAcceptedReplay_accepted hs
        have hroot : Rooted ctx.db.data ctx.userId replay.entity replay.entityId :=
          h.kept _ result hkept hacc
        exact refreshAcceptedReplay_answered h.wellFormed hacc hroot n

omit [DecidableEq Digest] in
theorem outcome_accepted {c : SyncChange × Time} (hs : (ctx.outcome conv c).status = .accepted) :
    ∃ entityId, ((ctx.outcome conv c).result c.1).entityId = some entityId ∧
      Applied ctx.db.data ctx.userId ctx.projectId c.1 entityId (ctx.outcome conv c).data := by
  rcases processNewPushChange_cases conv ctx.db.data ctx.userId ctx.projectId ctx.role c.1 c.2 with
    h | ⟨e, h⟩ | ⟨db', entityId, hok, h⟩
  · rw [PushContext.outcome, h] at hs
    cases hs
  · rw [PushContext.outcome, h] at hs
    exact absurd hs (failedOutcome_data conv ctx.db.data c.1 e).2.1
  · refine ⟨entityId, ?_, ?_⟩
    · rw [PushContext.outcome, h]
      rfl
    · rw [PushContext.outcome, h]
      exact (applyChange_ok hok).2

theorem Answering.step (conv : Conv) (sha : Payload → Digest) (h : Answering n ctx)
    {c : SyncChange × Time}
    (hop : c.1.entity = .assessment → c.1.op = .upsert) :
    Answering n (ctx.step conv sha c) ∧ ∀ receipt ∈ (ctx.step conv sha c).db.receipts,
      receipt ∈ ctx.db.receipts ∨ Replayable (ctx.step conv sha c).db.data receipt := by
  obtain ⟨m, hm, hle⟩ := h.counter
  obtain ⟨hd', hstep⟩ := step_feedStep conv sha ctx c h.wellFormed
  obtain ⟨m', hm', hmm⟩ := hstep.counter ctx.projectId m hm
  by_cases hseen : ctx.seen c.1.changeId = true
  · rw [PushContext.step_of_seen conv sha hseen]
    refine ⟨⟨h.wellFormed, h.counter, h.existing, h.kept, fun r hr hs ↦ ?_⟩,
      fun receipt hr ↦ Or.inl hr⟩
    rcases List.mem_append.mp hr with hr | hr
    · exact h.results r hr hs
    · rw [List.mem_singleton.mp hr] at hs ⊢
      exact h.duplicate hs
  · rw [PushContext.step_of_new conv sha hseen] at hd' hstep hm' ⊢
    have hnew : ((ctx.outcome conv c).result c.1).status = .accepted →
        Rooted (ctx.outcome conv c).data ctx.userId c.1.entity
            ((ctx.outcome conv c).result c.1).entityId ∧
          Answered (ctx.outcome conv c).data ctx.projectId n
            ((ctx.outcome conv c).result c.1) := by
      intro hs
      obtain ⟨entityId, hid, happ⟩ := outcome_accepted hs
      have hroot := rooted_of_applied happ hop
      refine ⟨hid ▸ hroot, ?_, fun row hr hp hn id hid' hk ↦ ?_⟩
      · rw [hid]
        rfl
      · obtain rfl : id = entityId := Option.some.inj (hid'.symm.trans hid)
        have := lt_sequence_of_applied h.wellFormed happ hm hr hp (entityKey_key hk)
        omega
    refine ⟨⟨hd', ⟨m', hm', hle.trans hmm⟩, fun id receipt hfind ↦
      (h.existing id receipt hfind).later hstep, fun id result hkept hs ↦ ?_, fun r hr hs ↦ ?_⟩,
      fun receipt hr ↦ ?_⟩
    · by_cases hid : id = c.1.changeId
      · subst hid
        have hupdate := Function.update_self (f := ctx.batchResults) c.1.changeId
          (some ((ctx.outcome conv c).result c.1))
        obtain rfl := Option.some.inj (hupdate.symm.trans hkept)
        exact (hnew hs).1
      · exact (h.kept id result ((Function.update_of_ne hid _ _).symm.trans hkept) hs).later hstep
    · rcases List.mem_append.mp hr with hr | hr
      · exact (h.results r hr hs).later hstep hd' hm hle
      · rw [List.mem_singleton.mp hr] at hs ⊢
        exact (hnew hs).2
    · rcases List.mem_append.mp hr with hr | hr
      · exact Or.inl hr
      · unfold Outcome.receipts at hr
        split at hr
        · rw [List.mem_singleton.mp hr]
          exact Or.inr fun hs ↦ (hnew hs).1
        · cases hr

theorem Answering.run (conv : Conv) (sha : Payload → Digest) (h : Answering n ctx)
    {changes : List (SyncChange × Time)}
    (hops : ∀ c ∈ changes, c.1.entity = .assessment → c.1.op = .upsert) :
    Answering n (ctx.run conv sha changes) ∧ ∀ receipt ∈ (ctx.run conv sha changes).db.receipts,
      receipt ∈ ctx.db.receipts ∨ Replayable (ctx.run conv sha changes).db.data receipt := by
  induction changes generalizing ctx with
  | nil => exact ⟨h, fun receipt hr ↦ Or.inl hr⟩
  | cons c changes ih =>
    obtain ⟨hnext, hreceipts⟩ := h.step conv sha (hops c List.mem_cons_self)
    obtain ⟨hrun, hrest⟩ := ih hnext fun c' hc' ↦ hops c' (List.mem_cons_of_mem _ hc')
    refine ⟨hrun, fun receipt hr ↦ ?_⟩
    rcases hrest receipt hr with hr | hr
    · refine (hreceipts receipt hr).imp id fun hreplay ↦ hreplay.later ?_
      exact (run_feedStep conv sha _ changes hnext.wellFormed).2
    · exact Or.inr hr

/-- An accepted result shows every row that its entity has under a sequence given out before the
push, and what the push stores can be replayed. -/
theorem pushChanges_answered {db db' : Db Digest} {userId projectId : Uuid}
    {changes : List (SyncChange × Time)} {results : List ChangeResult} {m : ℕ}
    (hd : db.data.WellFormed) (hm : db.data.lastSequence projectId = some m) (hle : n ≤ m)
    (hreceipts : ∀ receipt ∈ db.receipts, (∃ c ∈ changes, c.1.changeId = receipt.changeId) →
      Replayable db.data receipt)
    (hops : ∀ c ∈ changes, c.1.entity = .assessment → c.1.op = .upsert)
    (h : pushChanges conv sha db userId projectId changes = .ok (db', results)) :
    (∀ receipt ∈ db'.receipts, receipt ∈ db.receipts ∨ Replayable db'.data receipt) ∧
      ∀ r ∈ results, r.status = .accepted → Answered db'.data projectId n r := by
  obtain ⟨ctx, hopen, hrun⟩ := Result.map_ok h
  obtain ⟨-, role, -, rfl⟩ := openPush_ok hopen
  have hstart : Answering n (PushContext.start db userId projectId role changes) := by
    refine ⟨hd, ⟨m, hm, hle⟩, fun id receipt hfind ↦ ?_, fun _ _ h ↦ ?_, fun _ hr ↦ ?_⟩
    · change loadExistingReceipts db changes id = some receipt at hfind
      unfold loadExistingReceipts at hfind
      split at hfind
      · rename_i hmem
        obtain ⟨c, hc, hid⟩ := List.mem_map.mp hmem
        have hkey := Table.key_of_find SyncReceipt.changeId hfind
        exact hreceipts receipt (Table.mem_of_find SyncReceipt.changeId hfind)
          ⟨c, hc, hid.trans hkey.symm⟩
      · cases hfind
    · cases h
    · cases hr
  obtain ⟨hanswering, hstored⟩ := hstart.run conv sha hops
  have howner := PushContext.run_owner conv sha (.start db userId projectId role changes) changes
  cases hrun
  refine ⟨hstored, fun r hr hs ↦ ?_⟩
  have hanswer := hanswering.results r hr hs
  rw [howner.2.1] at hanswer
  exact hanswer

end Push

end RiskApp.Client
