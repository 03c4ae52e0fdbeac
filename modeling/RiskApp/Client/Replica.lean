import RiskApp.Client.Receive
import RiskApp.Client.Watermark

namespace RiskApp.Client

open Lib Server Lib.Window

namespace PullState

/-- What the loop of `_pull_paginated` does with a page, and whether it asks for another. -/
def receive (st : PullState) (resp : PullResponse) : Except PullFailure (PullState × Bool) :=
  if st.snapshot.any (· ≠ resp.serverSequence) then .error .snapshotChanged
  else
    let st' := { st with
      snapshot := some resp.serverSequence
      merged := fun k ↦ st.merged k ++ resp.rows k }
    match nextPageCursors resp st.cursors with
    | .error e => .error e
    | .ok none => .ok (st', false)
    | .ok (some cursors) => .ok ({ st' with cursors := cursors }, true)

end PullState

/-- Where the download of a synchronization run stands; `since` is the watermark that it has read,
and the records are those of the pages so far. -/
inductive Fetch
  | idle
  | asking (since : ℕ)
  | paging (since : ℕ) (st : PullState) (records : PullKey → List Dict)
  | fetched (since : ℕ) (pull : Download)

def rendered (d : Data) (resp : PullResponse) (key : PullKey) : List Dict :=
  (resp.rows key).map (pulledRecord d key.entity)

/-- A device and the server: the batch of the push under way, its answers that are not yet
acknowledged, the changes that may still reach the server, and the ids that the device has drawn. -/
structure Replica (Digest : Type) where
  db : Db Digest
  store : LocalStore := {}
  batch : Outbox := []
  replies : List ChangeResult := []
  sent : List SyncChange := []
  drawn : List Uuid := []
  fetch : Fetch := .idle

namespace Replica

variable {Digest : Type}

/-- The answers that a transaction of a push acts on have arrived and passed the validation, and
the pull that is applied was downloaded. -/
def Permits (projectId : Uuid) (w : Replica Digest) : Transaction → Prop
  | .acknowledge results => ∀ r ∈ results, r ∈ w.replies
  | .deleteIds ids => ∀ id ∈ ids, ∃ r ∈ w.replies, r.changeId = id ∧ r.status = .accepted ∧
      hasServerState r = false ∧ ∃ b ∈ w.batch, b.changeId = id ∧ resultMatchesChange projectId r b
  | .applyPull pull => ∃ since, w.fetch = .fetched since pull
  | _ => True

/-- A deletion discards no entity that the server has, and no server copy is taken over a conflict
while a download is under way. -/
def Careful (projectId : Uuid) (w : Replica Digest) : Transaction → Prop
  | .edit op _ => op.Discards w.store → ∀ row ∈ w.db.data.rows,
      w.db.data.projectOf row = some projectId → entityKey row ≠ some op.key
  | .useServer _ _ => w.fetch = .idle
  | _ => True

def after (w : Replica Digest) (tx : Transaction) (store : LocalStore) : Replica Digest :=
  { w with
    store := store
    drawn := w.drawn ++ tx.draws.toList
    fetch := match tx with
      | .applyPull _ => .idle
      | _ => w.fetch }

variable [DecidableEq Digest]

/-- One batch is pushed and then everything new is pulled; the user writes and resolves conflicts at
any time. What is sent may reach the server late, more than once or never, and others write there
between all steps. -/
inductive Step (conv : Conv) (sha : Payload → Digest) (hardCap : ℕ) (projectId : Uuid)
    (w : Replica Digest) : Option Transaction → Replica Digest → Prop
  | others {db : Db Digest} (wellFormed : db.data.WellFormed)
      (feed : FeedStep w.db.data db.data) (receipts : ∀ receipt ∈ db.receipts,
        receipt.changeId ∈ w.drawn → receipt ∈ w.db.receipts) :
      Step conv sha hardCap projectId w none { w with db := db }
  | capture (limit : ℕ) (now : Time) (free : w.batch = [] ∧ w.replies = [])
      (idle : w.fetch = .idle) :
      Step conv sha hardCap projectId w none { w with
        batch := w.store.outbox.getPendingChanges limit now
        sent := w.sent ++ (w.store.outbox.getPendingChanges limit now).map Entry.change }
  | answer {userId : Uuid} {changes : List (SyncChange × Time)} {db : Db Digest}
      {results : List ChangeResult} (idle : w.fetch = .idle)
      (taken : ∀ c ∈ changes, c.1 ∈ w.batch.map Entry.change)
      (push : pushChanges conv sha w.db userId projectId changes = .ok (db, results)) :
      Step conv sha hardCap projectId w none
        { w with db := db, replies := w.replies ++ results }
  | lost {userId : Uuid} {changes : List (SyncChange × Time)} {db : Db Digest}
      {results : List ChangeResult} (sent : ∀ c ∈ changes, c.1 ∈ w.sent)
      (push : pushChanges conv sha w.db userId projectId changes = .ok (db, results)) :
      Step conv sha hardCap projectId w none { w with db := db }
  | pushed : Step conv sha hardCap projectId w none { w with batch := [], replies := [] }
  | read (free : w.batch = [] ∧ w.replies = []) (idle : w.fetch = .idle) :
      Step conv sha hardCap projectId w none { w with fetch := .asking w.store.watermark }
  | whole {since : ℕ} {resp : PullResponse} (asking : w.fetch = .asking since)
      (pull : pullSince hardCap w.db.data projectId since none (fun _ ↦ none) none = .ok resp) :
      Step conv sha hardCap projectId w none
        { w with fetch := .fetched since ⟨rendered w.db.data resp, resp.serverSequence⟩ }
  | refused {since : ℕ} (asking : w.fetch = .asking since)
      (pull : pullSince hardCap w.db.data projectId since none (fun _ ↦ none) none = .error 413) :
      Step conv sha hardCap projectId w none { w with fetch := .paging since {} fun _ ↦ [] }
  | page {since : ℕ} {st st' : PullState} {records : PullKey → List Dict} {resp : PullResponse}
      (paging : w.fetch = .paging since st records)
      (pull : pullSince hardCap w.db.data projectId since (some pageLimit) st.cursors st.snapshot =
        .ok resp) (more : st.receive resp = .ok (st', true)) :
      Step conv sha hardCap projectId w none
        { w with fetch := .paging since st' fun key ↦ records key ++ rendered w.db.data resp key }
  | lastPage {since n : ℕ} {st st' : PullState} {records : PullKey → List Dict}
      {resp : PullResponse} (paging : w.fetch = .paging since st records)
      (pull : pullSince hardCap w.db.data projectId since (some pageLimit) st.cursors st.snapshot =
        .ok resp) (last : st.receive resp = .ok (st', false)) (sequence : st'.snapshot = some n) :
      Step conv sha hardCap projectId w none { w with
        fetch := .fetched since ⟨fun key ↦ records key ++ rendered w.db.data resp key, n⟩ }
  | giveUp : Step conv sha hardCap projectId w none { w with fetch := .idle }
  | commit {tx : Transaction} {store : LocalStore} (permits : w.Permits projectId tx)
      (new : ∀ id, tx.draws = some id →
        id ∉ w.drawn ∧ ∀ receipt ∈ w.db.receipts, receipt.changeId ≠ id)
      (committed : w.store.commit projectId tx = some store) :
      Step conv sha hardCap projectId w (some tx) (w.after tx store)

def Runs (conv : Conv) (sha : Payload → Digest) (hardCap : ℕ) (projectId : Uuid)
    (allowed : Replica Digest → Transaction → Prop) : Replica Digest → Replica Digest → Prop :=
  Relation.ReflTransGen fun w w' ↦
    ∃ tx, w.Step conv sha hardCap projectId tx w' ∧ ∀ t, tx = some t → allowed w t

end Replica

section Pages

variable {d₀ d d' : Data} {projectId : Uuid} {since snapshot limit : ℕ} {st st' : PullState}
  {c : PullKey → ℕ} {resp : PullResponse}

def firstAndNow (d₀ d : Data) : ℕ → Data
  | 0 => d₀
  | _ + 1 => d

theorem Paging.later (h : Paging d₀ d projectId since snapshot st c)
    (hst : st.snapshot = some snapshot) (hd : d.WellFormed) (hd' : d'.WellFormed)
    (hstep : FeedStep d d') : Paging d₀ d' projectId since snapshot st c := by
  obtain ⟨n, hn, hle, -⟩ := h.current
  obtain ⟨n', hn', hnn⟩ := hstep.counter projectId n hn
  refine ⟨⟨n', hn', hle.trans hnn, by rw [hst]; rfl⟩, h.cursors, fun k ↦ ?_⟩
  exact (h.collected k).later hd hd' hstep hn hle

theorem PullState.receive_ok {more : Bool} (h : st.receive resp = .ok (st', more)) :
    (∀ k, st'.merged k = st.merged k ++ resp.rows k) ∧ st'.snapshot = some resp.serverSequence ∧
      (more = false → nextPageCursors resp st.cursors = .ok none) ∧
      (more = true → nextPageCursors resp st.cursors = .ok (some st'.cursors)) := by
  unfold PullState.receive at h
  split at h
  · cases h
  · dsimp only at h
    split at h
    · cases h
    · rename_i hnext
      cases h
      exact ⟨fun _ ↦ rfl, rfl, fun _ ↦ hnext, (nomatch ·)⟩
    · rename_i cursors hnext
      cases h
      exact ⟨fun _ ↦ rfl, rfl, (nomatch ·), fun _ ↦ hnext⟩

theorem renderCursor_ne (n : ℕ) : renderCursor n ≠ [] := by simp [renderCursor]

section Page

variable (h : Paging d₀ d projectId since snapshot st c) (hd₀ : d₀.WellFormed) (hd : d.WellFormed)
  (hstep : FeedStep d₀ d) (hsnap : d₀.lastSequence projectId = some snapshot)

include h hd₀ hd hstep hsnap

theorem Paging.collectedPage (k : PullKey) :
    Collected d₀ d projectId since snapshot k (nextStart d projectId snapshot limit c k)
      (st.merged k ++ (pageAt d projectId snapshot limit c).rows k) :=
  (h.collected k).page hd₀ hd hstep hsnap le_rfl limit

theorem Paging.receiveLast
    (hlast : st.receive (pageAt d projectId snapshot limit c) = .ok (st', false)) :
    Pulled d₀ d projectId since snapshot st' := by
  obtain ⟨hmerged, hsnapshot, hnext, -⟩ := PullState.receive_ok hlast
  have hnone : ∀ k, ¬ morePages d projectId snapshot limit c k := by
    intro k hk
    have hnext := hnext rfl
    simp only [nextPageCursors, pageAt] at hnext
    split at hnext
    · rename_i hempty
      have hfalse := List.filter_eq_nil_iff.mp hempty k (by cases k <;> decide)
      exact hfalse (decide_eq_true hk)
    · split at hnext <;> cases hnext
  refine ⟨hsnapshot, fun k ↦ ⟨nextStart d projectId snapshot limit c k, ?_⟩,
    fun k r hr hlo hhi ↦ ?_⟩
  · rw [hmerged k]
    exact h.collectedPage hd₀ hd hstep hsnap k
  · rw [hmerged k]
    exact (h.collected k).complete (not_lt.mp (hnone k)) hr hlo hhi

theorem Paging.receiveMore
    (hmore : st.receive (pageAt d projectId snapshot limit c) = .ok (st', true)) :
    st'.snapshot = some snapshot ∧
      Paging d₀ d projectId since snapshot st' (nextStart d projectId snapshot limit c) := by
  obtain ⟨hmerged, hsnapshot, -, hnext⟩ := PullState.receive_ok hmore
  have hnext := hnext rfl
  obtain ⟨n, hn, hle, -⟩ := h.current
  refine ⟨hsnapshot, ⟨n, hn, hle, by rw [hsnapshot]; rfl⟩, fun k ↦ Or.inr ?_, fun k ↦ ?_⟩
  · simp only [nextPageCursors, pageAt] at hnext
    split at hnext
    · cases hnext
    · split at hnext
      · cases hnext
      · rw [← Option.some.inj (Except.ok.inj hnext)]
        exact if_neg (renderCursor_ne _)
  · rw [hmerged k]
    exact h.collectedPage hd₀ hd hstep hsnap k

end Page

/-- Every record shows one of the rows, and every row is shown. -/
structure Copies (records : List Dict) (rows : List Row) : Prop where
  shown : ∀ record ∈ records, ∃ row ∈ rows, Shows record row
  all : ∀ row ∈ rows, ∃ record ∈ records, Shows record row

theorem copies_rendered (d : Data) (resp : PullResponse) (key : PullKey) :
    Copies (rendered d resp key) (resp.rows key) := by
  refine ⟨fun record hr ↦ ?_, fun row hr ↦ ?_⟩
  · obtain ⟨row, hrow, rfl⟩ := List.mem_map.mp hr
    exact ⟨row, hrow, shows_pulledRecord d key.entity row⟩
  · exact ⟨_, List.mem_map_of_mem hr, shows_pulledRecord d key.entity row⟩

theorem Copies.append {records records' : List Dict} {rows rows' : List Row}
    (h : Copies records rows) (h' : Copies records' rows') :
    Copies (records ++ records') (rows ++ rows') := by
  refine ⟨fun record hr ↦ ?_, fun row hr ↦ ?_⟩
  · rcases List.mem_append.mp hr with hr | hr
    · obtain ⟨row, hrow, hshows⟩ := h.shown record hr
      exact ⟨row, List.mem_append_left _ hrow, hshows⟩
    · obtain ⟨row, hrow, hshows⟩ := h'.shown record hr
      exact ⟨row, List.mem_append_right _ hrow, hshows⟩
  · rcases List.mem_append.mp hr with hr | hr
    · obtain ⟨record, hrecord, hshows⟩ := h.all row hr
      exact ⟨record, List.mem_append_left _ hrecord, hshows⟩
    · obtain ⟨record, hrecord, hshows⟩ := h'.all row hr
      exact ⟨record, List.mem_append_right _ hrecord, hshows⟩

/-- The records of a finished download are what it has to bring. -/
theorem Pulled.fetches (h : Pulled d₀ d projectId since snapshot st) (hd₀ : d₀.WellFormed)
    (hd : d.WellFormed) (hstep : FeedStep d₀ d)
    (hsnap : d₀.lastSequence projectId = some snapshot) {records : PullKey → List Dict}
    (hcopies : ∀ key, Copies (records key) (st.merged key)) :
    Fetches d projectId since ⟨records, snapshot⟩ := by
  obtain ⟨n, hn, hle⟩ := hstep.counter projectId snapshot hsnap
  refine ⟨⟨n, hn, hle⟩, fun row hr hp hlo hhi k hk ↦ ?_,
    fun row hr hp hhi k hk key hkey record hrecord hid ↦ ?_⟩
  · obtain ⟨key, hkey, rfl⟩ := entityKey_some hk
    have hfeed := (mem_entityFeed hd).mpr ⟨hr, hp, hkey⟩
    obtain ⟨record, hrecord, hshows⟩ := (hcopies key).all row (h.complete key row hfeed hlo hhi)
    exact ⟨key, rfl, record, hrecord, hshows.id⟩
  · obtain ⟨row', hmerged, hshows⟩ := (hcopies key).shown record hrecord
    obtain ⟨_, hcollected⟩ := h.collected key
    obtain ⟨hr', -, hkey'⟩ := (mem_entityFeed hd₀).mp (hcollected.origin row' hmerged)
    have hk' : entityKey row' = some k := by
      have hsame : row'.id = k.2 := Option.some.inj (hshows.id.symm.trans hid)
      rw [entityKey, hkey', Option.map_some, hkey, hsame]
    obtain ⟨hold, -⟩ := old_of_feedStep hstep hd hsnap hr hp hhi
    rwa [entityKey_inj hd₀ hr' hold hk' hk] at hshows

end Pages

/-- Nothing deletes an assessment. -/
def Plain (entity : Entity) (op : ChangeOp) : Prop := entity = .assessment → op = .upsert

theorem Edit.plain {op : Edit} (h : op.wired = true) : Plain op.key.1 op.op := by
  intro he
  cases op with
  | deleteScored entity entityId =>
    rw [show entity = Entity.assessment from he] at h
    cases h
  | deleteTicket ticketId => cases he
  | _ => rfl

section Entries

variable {projectId : Uuid} {s s' : LocalStore} {tx : Transaction}

def Grown (o : Outbox) (new : Option Uuid) (e' : Entry) : Prop :=
  Plain e'.entity e'.op ∧
    (new = some e'.changeId ∨ ∃ e ∈ o, e.changeId = e'.changeId ∧ e.key = e'.key)

theorem edit_grown {op : Edit} {t : LocalStore.Stamp} (h : s.edit op t = some s')
    (hd : s.outbox.Distinct) (hplain : ∀ e ∈ s.outbox, Plain e.entity e.op) :
    ∀ e' ∈ s'.outbox, Grown s.outbox (some t.changeId) e' := by
  have hwired : op.wired = true := by
    cases hw : op.wired with
    | true => rfl
    | false =>
      unfold LocalStore.edit at h
      rw [hw] at h
      cases h
  have hnew := Edit.plain hwired
  cases LocalStore.edit_edited hd h with
  | @rewritten e₀ rows joins entry conflict saved row =>
    intro e' he'
    obtain ⟨e, he, ⟨hsel, rfl⟩ | ⟨-, rfl⟩⟩ := Outbox.mem_update he'
    · obtain ⟨hmem, hkey⟩ := Outbox.entry_some entry
      obtain rfl : e = e₀ := hd.eq_of_id he hmem (of_decide_eq_true hsel)
      refine ⟨fun hentity ↦ hnew ?_, Or.inr ⟨e, he, rfl, rfl⟩⟩
      rw [← hkey]
      exact hentity
    · exact ⟨hplain e' he, Or.inr ⟨e', he, rfl, rfl⟩⟩
  | queued base saved row =>
    intro e' he'
    rcases Outbox.mem_insertEntry he' with rfl | ⟨he, -⟩
    · exact ⟨hnew, Or.inl rfl⟩
    · exact ⟨hplain e' he, Or.inr ⟨e', he, rfl, rfl⟩⟩
  | discarded =>
    intro e' he'
    have he := (List.mem_filter.mp he').1
    exact ⟨hplain e' he, Or.inr ⟨e', he, rfl, rfl⟩⟩

theorem commit_grown (h : s.commit projectId tx = some s') (hd : s.outbox.Distinct)
    (hplain : ∀ e ∈ s.outbox, Plain e.entity e.op) :
    ∀ e' ∈ s'.outbox, Grown s.outbox tx.draws e' := by
  have hold : ∀ e ∈ s.outbox, Grown s.outbox tx.draws e :=
    fun e he ↦ ⟨hplain e he, Or.inr ⟨e, he, rfl, rfl⟩⟩
  have hfilter : ∀ p : Entry → Bool, ∀ e ∈ s.outbox.filter p, Grown s.outbox tx.draws e :=
    fun _ e he ↦ hold e (List.mem_filter.mp he).1
  have hupdate : ∀ (p : Entry → Bool) (f : Entry → Entry),
      (∀ e, (f e).changeId = e.changeId ∧ (f e).key = e.key ∧ (f e).op = e.op) →
      ∀ e' ∈ s.outbox.update p f, Grown s.outbox tx.draws e' := by
    intro p f hf e' he'
    obtain ⟨e, he, ⟨-, rfl⟩ | ⟨-, rfl⟩⟩ := Outbox.mem_update he'
    · obtain ⟨hid, hkey, hop⟩ := hf e
      refine ⟨?_, Or.inr ⟨e, he, hid.symm, hkey.symm⟩⟩
      rw [hop, show (f e).entity = e.entity from congrArg Prod.fst hkey]
      exact hplain e he
    · exact hold e' he
  have hinsert : ∀ {o : Outbox} {dr : Outbox.Draft} {b : Option ℤ}, Plain dr.entity dr.op →
      tx.draws = some dr.changeId → (∀ e ∈ o, Grown s.outbox tx.draws e) →
      ∀ e' ∈ o.insertEntry dr b, Grown s.outbox tx.draws e' := by
    intro o dr b hdr hid ho e' he'
    rcases Outbox.mem_insertEntry he' with rfl | ⟨he, -⟩
    · exact ⟨hdr, Or.inl hid⟩
    · exact ho e' he
  cases tx with
  | edit op t => exact edit_grown h hd hplain
  | acknowledge results =>
    refine (LocalStore.acknowledgeAcceptedResults_induction
      (P := fun t ↦ ∀ e' ∈ t.outbox, Grown s.outbox none e')
      (fun u r u' _ _ hu hack e' he' ↦ ?_) hd hold h).2
    cases hack with
    | passed => exact hu e' he'
    | applied => exact hu e' (List.mem_filter.mp he').1
    | settled => exact hu e' (List.mem_filter.mp he').1
    | advanced =>
      obtain ⟨e, he, ⟨-, rfl⟩ | ⟨-, rfl⟩⟩ := Outbox.mem_update he'
      · exact hu e he
      · exact hu e' he
  | markAttempted ids now =>
    obtain rfl := Option.some.inj h
    exact hupdate _ _ fun e ↦ ⟨rfl, rfl, rfl⟩
  | deleteIds ids =>
    obtain rfl := Option.some.inj h
    exact hfilter _
  | deferId changeId err retryAfter now =>
    obtain rfl := Option.some.inj h
    exact hupdate _ _ fun e ↦ ⟨rfl, rfl, rfl⟩
  | blockId changeId err now =>
    obtain rfl := Option.some.inj h
    exact hupdate _ _ fun e ↦ ⟨rfl, rfl, rfl⟩
  | releaseAuthentication =>
    obtain rfl := Option.some.inj h
    exact hupdate _ _ fun e ↦ ⟨rfl, rfl, rfl⟩
  | applyPull pull =>
    obtain rfl := Option.some.inj h
    obtain ⟨t, ht, heq⟩ := LocalStore.applyPull_pulls s pull
    rw [heq]
    intro e' he'
    obtain ⟨e, he, out, rfl⟩ := ht.outbox.mem he'
    exact hold e he
  | keepMine changeId expected t =>
    obtain ⟨e, he, -, -, version, rfl⟩ := Device.keepMine_some h
    exact @hinsert _ (LocalStore.draft e.key e.op (some version) e.record t) _ (hplain e he) rfl
      hold
  | useServer changeId expected =>
    obtain ⟨e, he, -, -, record, hrecord, rfl⟩ := Device.useServer_some h
    have hcopy := Device.takeServerCopy_outbox hd he hrecord
    change ∀ e' ∈ (s.takeServerCopy e record).outbox, _
    rw [hcopy]
    exact hfilter _
  | merge changeId expected merged t =>
    obtain ⟨e, he, -, -, record, version, hrecord, rfl⟩ := Device.merge_some h
    have hcopy := Device.takeServerCopy_outbox hd he hrecord
    refine @hinsert _ (LocalStore.draft e.key .upsert (some version)
      (merged.set .id (.uuid e.entityId)) t) _ (fun _ ↦ rfl) rfl ?_
    rw [hcopy]
    exact hfilter _

end Entries

namespace Fetch

/-- What the download will have covered when it is applied; the watermark, if there is none. -/
def since (watermark : ℕ) : Fetch → ℕ
  | .idle => watermark
  | .asking since | .paging since _ _ | .fetched since _ => since

def Sound (d : Data) (projectId : Uuid) : Fetch → Prop
  | .idle | .asking _ => True
  | .paging since st records => (st = {} ∧ records = fun _ ↦ []) ∨
      ∃ d₀ snapshot c, d₀.WellFormed ∧ FeedStep d₀ d ∧
        d₀.lastSequence projectId = some snapshot ∧ st.snapshot = some snapshot ∧
        Paging d₀ d projectId since snapshot st c ∧ ∀ key, Copies (records key) (st.merged key)
  | .fetched since pull => Fetches d projectId since pull

theorem Sound.later {d d' : Data} {projectId : Uuid} {f : Fetch} (h : f.Sound d projectId)
    (hd : d.WellFormed) (hd' : d'.WellFormed) (hstep : FeedStep d d') : f.Sound d' projectId := by
  cases f with
  | idle => trivial
  | asking since => trivial
  | paging since st records =>
    rcases h with hstart | ⟨d₀, snapshot, c, hd₀, hfeed, hsnap, hst, hpaging, hcopies⟩
    · exact Or.inl hstart
    · exact Or.inr ⟨d₀, snapshot, c, hd₀, hfeed.trans hd' hstep, hsnap, hst,
        hpaging.later hst hd hd' hstep, hcopies⟩
  | fetched since pull => exact Fetches.later h hstep hd'

end Fetch

namespace Replica

variable {Digest : Type} {projectId : Uuid} {w w' : Replica Digest}

def level (w : Replica Digest) : ℕ := w.fetch.since w.store.watermark

structure Sound (projectId : Uuid) (w : Replica Digest) : Prop where
  wellFormed : w.db.data.WellFormed
  counter : ∃ n, w.db.data.lastSequence projectId = some n ∧ w.level ≤ n
  below : w.store.watermark ≤ w.level
  distinct : w.store.outbox.Distinct
  named : w.store.outbox.Named
  plain : ∀ e ∈ w.store.outbox, Plain e.entity e.op
  ids : ∀ e ∈ w.store.outbox, e.changeId ∈ w.drawn
  batch : w.batch.Named ∧ ∀ b ∈ w.batch, b.change ∈ w.sent
  batchIds : ∀ b ∈ w.batch, ∀ e ∈ w.store.outbox, e.changeId = b.changeId → e.key = b.key
  sent : ∀ c ∈ w.sent, c.changeId ∈ w.drawn ∧ Plain c.entity c.op
  receipts : ∀ receipt ∈ w.db.receipts, receipt.changeId ∈ w.drawn →
    Replayable w.db.data receipt
  replies : ∀ r ∈ w.replies, r.status = .accepted → Answered w.db.data projectId w.level r
  covers : Covers w.db.data projectId w.store w.level
  fetch : w.fetch.Sound w.db.data projectId
  turns : w.fetch ≠ .idle → w.batch = [] ∧ w.replies = []

theorem sound_empty {db : Db Digest} (hd : db.data.WellFormed) {n : ℕ}
    (hn : db.data.lastSequence projectId = some n) : Sound projectId { db := db } where
  wellFormed := hd
  counter := ⟨n, hn, Nat.zero_le n⟩
  below := le_rfl
  distinct := ⟨.nil, .nil⟩
  named := fun _ h ↦ absurd h List.not_mem_nil
  plain := fun _ h ↦ absurd h List.not_mem_nil
  ids := fun _ h ↦ absurd h List.not_mem_nil
  batch := ⟨fun _ h ↦ absurd h List.not_mem_nil, fun _ h ↦ absurd h List.not_mem_nil⟩
  batchIds := fun _ h ↦ absurd h List.not_mem_nil
  sent := fun _ h ↦ absurd h List.not_mem_nil
  receipts := fun _ _ h ↦ absurd h List.not_mem_nil
  replies := fun _ h ↦ absurd h List.not_mem_nil
  covers := covers_zero hd
  fetch := trivial
  turns := fun _ ↦ ⟨rfl, rfl⟩

theorem Sound.serve (h : w.Sound projectId) {db : Db Digest} {replies : List ChangeResult}
    (hd : db.data.WellFormed) (hstep : FeedStep w.db.data db.data)
    (hreceipts : ∀ receipt ∈ db.receipts, receipt.changeId ∈ w.drawn →
      receipt ∈ w.db.receipts ∨ Replayable db.data receipt)
    (hreplies : ∀ r ∈ replies, r ∈ w.replies ∨
      (r.status = .accepted → Answered db.data projectId w.level r))
    (hturns : w.fetch ≠ .idle → replies = []) :
    Sound projectId { w with db := db, replies := replies } := by
  obtain ⟨n, hn, hle⟩ := h.counter
  obtain ⟨n', hn', hnn⟩ := hstep.counter projectId n hn
  exact
    { h with
      wellFormed := hd
      counter := ⟨n', hn', hle.trans hnn⟩
      receipts := fun receipt hr hid ↦ (hreceipts receipt hr hid).elim
        (fun hold ↦ (h.receipts receipt hold hid).later hstep) fun hnew ↦ hnew
      replies := fun r hr hs ↦ (hreplies r hr).elim
        (fun hold ↦ (h.replies r hold hs).later hstep hd hn hle) fun hnew ↦ hnew hs
      covers := h.covers.later hstep hd hn hle
      fetch := h.fetch.later h.wellFormed hd hstep
      turns := fun hbusy ↦ ⟨(h.turns hbusy).1, hturns hbusy⟩ }

variable {hardCap : ℕ}

theorem Sound.capture (h : w.Sound projectId) (limit : ℕ) (now : Time) (idle : w.fetch = .idle) :
    Sound projectId { w with
      batch := w.store.outbox.getPendingChanges limit now
      sent := w.sent ++ (w.store.outbox.getPendingChanges limit now).map Entry.change } := by
  have htaken : ∀ b ∈ w.store.outbox.getPendingChanges limit now, b ∈ w.store.outbox :=
    fun b hb ↦ (Device.mem_getPendingChanges hb).1
  exact
    { h with
      batch := ⟨fun b hb ↦ h.named b (htaken b hb),
        fun b hb ↦ List.mem_append_right _ (List.mem_map_of_mem hb)⟩
      batchIds := fun b hb e he hid ↦ by rw [h.distinct.eq_of_id he (htaken b hb) hid]
      sent := fun c hc ↦ by
        rcases List.mem_append.mp hc with hc | hc
        · exact h.sent c hc
        · obtain ⟨b, hb, rfl⟩ := List.mem_map.mp hc
          exact ⟨h.ids b (htaken b hb), h.plain b (htaken b hb)⟩
      turns := fun hbusy ↦ absurd idle hbusy }

theorem Sound.fetching (h : w.Sound projectId) {f : Fetch} (hidle : w.batch = [] ∧ w.replies = [])
    (hlevel : f.since w.store.watermark = w.level) (hf : f.Sound w.db.data projectId) :
    Sound projectId { w with fetch := f } := by
  have hlevel : ({ w with fetch := f } : Replica Digest).level = w.level := hlevel
  exact
    { h with
      counter := by rw [hlevel]; exact h.counter
      below := by rw [hlevel]; exact h.below
      replies := fun r hr hs ↦ by rw [hlevel]; exact h.replies r hr hs
      covers := by rw [hlevel]; exact h.covers
      fetch := hf
      turns := fun _ ↦ hidle }

theorem Sound.giveUp (h : w.Sound projectId) : Sound projectId { w with fetch := .idle } := by
  obtain ⟨n, hn, hle⟩ := h.counter
  exact
    { h with
      counter := ⟨n, hn, h.below.trans hle⟩
      below := le_rfl
      replies := fun r hr hs ↦ (h.replies r hr hs).mono h.below
      covers := h.covers.mono h.below
      fetch := trivial
      turns := fun hbusy ↦ absurd rfl hbusy }

theorem Sound.whole (h : w.Sound projectId) (hcap : 1 ≤ hardCap) {since : ℕ} {resp : PullResponse}
    (asking : w.fetch = .asking since)
    (pull : pullSince hardCap w.db.data projectId since none (fun _ ↦ none) none = .ok resp) :
    Fetches w.db.data projectId since ⟨rendered w.db.data resp, resp.serverSequence⟩ := by
  obtain ⟨n, hn, hle⟩ := h.counter
  have hsince : since ≤ n := by
    rw [level, asking] at hle
    exact hle
  rw [pullSince_unseen hcap hn hsince] at pull
  split at pull
  · cases pull
  · obtain rfl := Except.ok.inj pull
    refine (unseen_pulled h.wellFormed hn hsince).fetches h.wellFormed h.wellFormed (.refl _) hn
      fun key ↦ ?_
    exact copies_rendered w.db.data ⟨n, unseen projectId since w.db.data n, none⟩ key

theorem Sound.paging (h : w.Sound projectId) {since : ℕ} {st : PullState}
    {records : PullKey → List Dict} (paging : w.fetch = .paging since st records) :
    ∃ d₀ snapshot c, d₀.WellFormed ∧ FeedStep d₀ w.db.data ∧
      d₀.lastSequence projectId = some snapshot ∧
      Paging d₀ w.db.data projectId since snapshot st c ∧
      ∀ key, Copies (records key) (st.merged key) := by
  have hf := h.fetch
  rw [paging] at hf
  rcases hf with ⟨rfl, rfl⟩ | ⟨d₀, snapshot, c, hd₀, hfeed, hsnap, -, hpaging, hcopies⟩
  · obtain ⟨n, hn, hle⟩ := h.counter
    rw [level, paging] at hle
    refine ⟨w.db.data, n, _, h.wellFormed, .refl _, hn, .start hn hle, fun key ↦ ⟨?_, ?_⟩⟩
    · exact fun _ hr ↦ absurd hr List.not_mem_nil
    · exact fun _ hr ↦ absurd hr List.not_mem_nil
  · exact ⟨d₀, snapshot, c, hd₀, hfeed, hsnap, hpaging, hcopies⟩

theorem Paging.pulls {d₀ d : Data} {since snapshot : ℕ} {st : PullState} {c : PullKey → ℕ}
    {resp : PullResponse} (h : Paging d₀ d projectId since snapshot st c)
    (hpull : pullSince hardCap d projectId since (some pageLimit) st.cursors st.snapshot =
      .ok resp) : resp = pageAt d projectId snapshot pageLimit c := by
  have hanswer := @Paging.response hardCap (firstAndNow d₀ d) projectId since pageLimit snapshot
    (by decide) 1 st c h
  exact Except.ok.inj (hpull.symm.trans hanswer)

theorem Sound.page (h : w.Sound projectId) {since : ℕ} {st st' : PullState}
    {records : PullKey → List Dict} {resp : PullResponse}
    (paging : w.fetch = .paging since st records)
    (pull : pullSince hardCap w.db.data projectId since (some pageLimit) st.cursors st.snapshot =
      .ok resp) (more : st.receive resp = .ok (st', true)) :
    Sound projectId
      { w with
        fetch := .paging since st' fun key ↦ records key ++ rendered w.db.data resp key } := by
  obtain ⟨d₀, snapshot, c, hd₀, hfeed, hsnap, hpaging, hcopies⟩ := h.paging paging
  obtain ⟨hmerged, -⟩ := PullState.receive_ok more
  have hresp := Paging.pulls hpaging pull
  obtain ⟨hst, hnext⟩ := hpaging.receiveMore hd₀ h.wellFormed hfeed hsnap (hresp ▸ more)
  refine h.fetching (h.turns (by rw [paging]; exact Fetch.noConfusion)) ?_
    (Or.inr ⟨d₀, snapshot, _, hd₀, hfeed, hsnap, hst, hnext, fun key ↦ ?_⟩)
  · rw [level, paging]
    rfl
  · rw [hmerged key]
    exact (hcopies key).append (copies_rendered w.db.data resp key)

theorem Sound.lastPage (h : w.Sound projectId) {since n : ℕ} {st st' : PullState}
    {records : PullKey → List Dict} {resp : PullResponse}
    (paging : w.fetch = .paging since st records)
    (pull : pullSince hardCap w.db.data projectId since (some pageLimit) st.cursors st.snapshot =
      .ok resp) (last : st.receive resp = .ok (st', false)) (sequence : st'.snapshot = some n) :
    Fetches w.db.data projectId since
      ⟨fun key ↦ records key ++ rendered w.db.data resp key, n⟩ := by
  obtain ⟨d₀, snapshot, c, hd₀, hfeed, hsnap, hpaging, hcopies⟩ := h.paging paging
  obtain ⟨hmerged, -⟩ := PullState.receive_ok last
  have hresp := Paging.pulls hpaging pull
  have hpulled := hpaging.receiveLast hd₀ h.wellFormed hfeed hsnap (hresp ▸ last)
  obtain rfl : n = snapshot := Option.some.inj (sequence.symm.trans hpulled.fixed)
  refine hpulled.fetches hd₀ h.wellFormed hfeed hsnap fun key ↦ ?_
  rw [hmerged key]
  exact (hcopies key).append (copies_rendered w.db.data resp key)

/-- What the user, an answer or a downloaded pull changes in the store keeps what is covered. -/
theorem Sound.commit_covers (h : w.Sound projectId) {tx : Transaction} {store : LocalStore}
    (permits : w.Permits projectId tx) (careful : w.Careful projectId tx)
    (committed : w.store.commit projectId tx = some store) :
    store.watermark ≤ (w.after tx store).level ∧
      ((w.after tx store).level ≤ w.level ∨ w.replies = [] ∧
        ∃ n, w.db.data.lastSequence projectId = some n ∧ (w.after tx store).level ≤ n) ∧
      Covers w.db.data projectId store (w.after tx store).level := by
  have hd := h.distinct
  have hlevel : ∀ {store : LocalStore}, store.watermark = w.store.watermark →
      Covers w.db.data projectId store w.level →
      store.watermark ≤ w.fetch.since store.watermark ∧
        (w.fetch.since store.watermark ≤ w.level ∨ w.replies = [] ∧
          ∃ n, w.db.data.lastSequence projectId = some n ∧
            w.fetch.since store.watermark ≤ n) ∧
        Covers w.db.data projectId store (w.fetch.since store.watermark) := by
    intro store hmark hcovers
    rw [hmark]
    exact ⟨h.below, Or.inl le_rfl, hcovers⟩
  have hreset : ∀ {store : LocalStore}, store.watermark = 0 →
      (w.fetch ≠ .idle → Covers w.db.data projectId store w.level) →
      store.watermark ≤ w.fetch.since store.watermark ∧
        (w.fetch.since store.watermark ≤ w.level ∨ w.replies = [] ∧
          ∃ n, w.db.data.lastSequence projectId = some n ∧
            w.fetch.since store.watermark ≤ n) ∧
        Covers w.db.data projectId store (w.fetch.since store.watermark) := by
    intro store hmark hcovers
    rw [hmark]
    cases hf : w.fetch with
    | idle => exact ⟨le_rfl, Or.inl (Nat.zero_le _), covers_zero h.wellFormed⟩
    | _ =>
      have hsame : w.level = w.fetch.since 0 := by rw [level, hf]; rfl
      rw [← hf, ← hsame]
      exact ⟨Nat.zero_le _, Or.inl le_rfl, hcovers (by rw [hf]; exact Fetch.noConfusion)⟩
  have hupdate : ∀ {p : Entry → Bool} {f : Entry → Entry}, (∀ e, (f e).key = e.key) →
      Covers w.db.data projectId { w.store with outbox := w.store.outbox.update p f } w.level :=
    fun hf ↦ h.covers.same (fun k ↦ Outbox.isSome_update hf k) fun _ _ ↦ rfl
  cases tx with
  | edit op t =>
    have hedit := LocalStore.edit_edited hd committed
    refine hlevel ?_ (h.covers.edit hd hedit careful)
    cases hedit <;> rfl
  | markAttempted ids now =>
    obtain rfl := Option.some.inj committed
    exact hlevel rfl (hupdate fun _ ↦ rfl)
  | acknowledge results =>
    refine hlevel ?_ (h.covers.acknowledge hd (fun r hr ↦ h.replies r (permits r hr)) committed)
    refine (LocalStore.acknowledgeAcceptedResults_induction
      (P := fun s ↦ s.watermark = w.store.watermark) (fun s r s' _ _ hs hack ↦ ?_) hd rfl
      committed).2
    cases hack <;> exact hs
  | deleteIds ids =>
    obtain rfl := Option.some.inj committed
    refine hlevel rfl (h.covers.deleteIds hd fun e he hid ↦ ?_)
    obtain ⟨r, hr, hrid, haccepted, hstateless, b, hb, hbid, hmatch⟩ := permits e.changeId hid
    have hanswer := h.replies r hr haccepted
    obtain ⟨entityId, hentityId⟩ := Option.isSome_iff_exists.mp hanswer.named
    obtain ⟨hentity, hnames, -⟩ := resultMatchesChange_names (h.batch.1 b hb) hmatch
    have hkey : e.key = b.key := h.batchIds b hb e he hbid.symm
    refine ⟨r, hanswer, ?_, hentity.trans (congrArg Prod.fst hkey).symm, ?_⟩
    · simp only [hasServerState, Bool.or_eq_false_iff, Option.isSome_eq_false_iff,
        Option.isNone_iff_eq_none] at hstateless
      exact hstateless.1
    · rw [hentityId, hnames entityId hentityId]
      exact congrArg some (congrArg Prod.snd hkey).symm
  | deferId changeId err retryAfter now =>
    obtain rfl := Option.some.inj committed
    exact hlevel rfl (hupdate fun _ ↦ rfl)
  | blockId changeId err now =>
    obtain rfl := Option.some.inj committed
    exact hlevel rfl (hupdate fun _ ↦ rfl)
  | releaseAuthentication =>
    obtain rfl := Option.some.inj committed
    exact hlevel rfl (hupdate fun _ ↦ rfl)
  | applyPull pull =>
    obtain ⟨since, hf⟩ := permits
    obtain rfl := Option.some.inj committed
    have hfetches := h.fetch
    have hcovers := h.covers
    rw [hf] at hfetches
    rw [level, hf] at hcovers
    have hquiet := (h.turns (by rw [hf]; exact Fetch.noConfusion)).2
    exact ⟨le_rfl, Or.inr ⟨hquiet, Fetches.counter hfetches⟩, hcovers.applyPull hfetches⟩
  | keepMine changeId expected t =>
    have hcovers := h.covers.keepMine committed
    obtain ⟨e, -, committed⟩ := Option.bind_eq_some_iff.mp committed
    obtain ⟨saved, -, committed⟩ := Option.bind_eq_some_iff.mp committed
    obtain ⟨current, -, committed⟩ := Option.bind_eq_some_iff.mp committed
    obtain rfl := Option.some.inj committed
    exact hlevel rfl hcovers
  | useServer changeId expected =>
    obtain ⟨e, -, committed⟩ := Option.bind_eq_some_iff.mp committed
    obtain ⟨record, -, committed⟩ := Option.bind_eq_some_iff.mp committed
    obtain rfl := Option.some.inj committed
    exact hreset rfl fun hbusy ↦ absurd careful hbusy
  | merge changeId expected merged t =>
    have hcovers := h.covers.merge hd committed
    obtain ⟨e, -, committed⟩ := Option.bind_eq_some_iff.mp committed
    obtain ⟨record, -, committed⟩ := Option.bind_eq_some_iff.mp committed
    obtain ⟨version, -, committed⟩ := Option.bind_eq_some_iff.mp committed
    obtain ⟨current, -, committed⟩ := Option.bind_eq_some_iff.mp committed
    split at committed
    · cases committed
    · obtain rfl := Option.some.inj committed
      exact hreset rfl fun _ ↦ hcovers

theorem Sound.commit (h : w.Sound projectId) {tx : Transaction} {store : LocalStore}
    (permits : w.Permits projectId tx) (careful : w.Careful projectId tx)
    (new : ∀ id, tx.draws = some id →
      id ∉ w.drawn ∧ ∀ receipt ∈ w.db.receipts, receipt.changeId ≠ id)
    (committed : w.store.commit projectId tx = some store) :
    (w.after tx store).Sound projectId := by
  obtain ⟨hbelow, hup, hcovers⟩ := h.commit_covers permits careful committed
  have hdrawn : ∀ {id : Uuid}, id ∈ w.drawn → id ∈ w.drawn ++ tx.draws.toList :=
    List.mem_append_left _
  have hfresh : ∀ id, tx.draws = some id → ∀ e ∈ w.store.outbox, e.changeId ≠ id :=
    fun id hid e he heq ↦ (new id hid).1 (heq ▸ h.ids e he)
  have hgrown := commit_grown committed h.distinct h.plain
  have hdraws : ∀ e ∈ store.outbox, e.changeId ∈ w.drawn ++ tx.draws.toList ∧
      ∀ b ∈ w.batch, e.changeId = b.changeId → e.key = b.key := by
    intro e' he'
    rcases (hgrown e' he').2 with hnew | ⟨e, he, hid, hkey⟩
    · refine ⟨List.mem_append_right _ (Option.mem_toList.mpr hnew), fun b hb hbid ↦ ?_⟩
      have hdrawn : b.changeId ∈ w.drawn := (h.sent _ (h.batch.2 b hb)).1
      exact absurd (hbid ▸ hdrawn) (new _ hnew).1
    · exact ⟨hdrawn (hid ▸ h.ids e he),
        fun b hb hbid ↦ hkey.symm.trans (h.batchIds b hb e he (hid.trans hbid))⟩
  obtain ⟨n, hn, hle⟩ := h.counter
  exact
    { wellFormed := h.wellFormed
      counter := hup.elim (fun hlow ↦ ⟨n, hn, hlow.trans hle⟩) And.right
      below := hbelow
      distinct := LocalStore.commit_distinct committed h.distinct hfresh
      named := LocalStore.commit_named committed h.distinct h.named
      plain := fun e he ↦ (hgrown e he).1
      ids := fun e he ↦ (hdraws e he).1
      batch := h.batch
      batchIds := fun b hb e he ↦ (hdraws e he).2 b hb
      sent := fun c hc ↦ ⟨hdrawn (h.sent c hc).1, (h.sent c hc).2⟩
      receipts := fun receipt hr hid ↦ by
        rcases List.mem_append.mp hid with hid | hid
        · exact h.receipts receipt hr hid
        · exact absurd rfl ((new _ (Option.mem_toList.mp hid)).2 receipt hr)
      replies := fun r hr hs ↦ hup.elim (fun hlow ↦ (h.replies r hr hs).mono hlow)
        fun hquiet ↦ absurd (hquiet.1 ▸ hr : r ∈ []) List.not_mem_nil
      covers := hcovers
      fetch := by
        cases tx with
        | applyPull pull => trivial
        | _ => exact h.fetch
      turns := fun hbusy ↦ by
        cases tx with
        | applyPull pull => exact absurd rfl hbusy
        | _ => exact h.turns hbusy }

variable [DecidableEq Digest] {conv : Conv} {sha : Payload → Digest}

/-- A push of changes that were taken from the outbox is answered as it should be. -/
theorem Sound.push (h : w.Sound projectId) {userId : Uuid} {changes : List (SyncChange × Time)}
    {db : Db Digest} {results : List ChangeResult} (hsent : ∀ c ∈ changes, c.1 ∈ w.sent)
    (hpush : pushChanges conv sha w.db userId projectId changes = .ok (db, results)) :
    db.data.WellFormed ∧ FeedStep w.db.data db.data ∧
      (∀ receipt ∈ db.receipts, receipt.changeId ∈ w.drawn →
        receipt ∈ w.db.receipts ∨ Replayable db.data receipt) ∧
      ∀ r ∈ results, r.status = .accepted → Answered db.data projectId w.level r := by
  obtain ⟨n, hn, hle⟩ := h.counter
  obtain ⟨hd, hstep⟩ := pushChanges_feedStep conv sha h.wellFormed hpush
  obtain ⟨hreceipts, hresults⟩ := pushChanges_answered h.wellFormed hn hle
    (fun receipt hr ⟨c, hc, hid⟩ ↦ h.receipts receipt hr (hid ▸ (h.sent c.1 (hsent c hc)).1))
    (fun c hc ↦ (h.sent c.1 (hsent c hc)).2) hpush
  exact ⟨hd, hstep, fun receipt hr _ ↦ hreceipts receipt hr, hresults⟩

theorem Sound.step (h : w.Sound projectId) (hcap : 1 ≤ hardCap) {tx : Option Transaction}
    (hs : w.Step conv sha hardCap projectId tx w')
    (careful : ∀ t, tx = some t → w.Careful projectId t) : w'.Sound projectId := by
  cases hs with
  | others wellFormed feed receipts =>
    exact h.serve wellFormed feed (fun receipt hr hid ↦ Or.inl (receipts receipt hr hid))
      (fun r hr ↦ Or.inl hr) fun hbusy ↦ (h.turns hbusy).2
  | capture limit now free idle => exact h.capture limit now idle
  | @answer userId changes db results idle taken push =>
    have hsent : ∀ c ∈ changes, c.1 ∈ w.sent := by
      intro c hc
      obtain ⟨b, hb, heq⟩ := List.mem_map.mp (taken c hc)
      exact heq ▸ h.batch.2 b hb
    obtain ⟨hd, hstep, hreceipts, hresults⟩ := h.push hsent push
    exact h.serve hd hstep hreceipts (fun r hr ↦ (List.mem_append.mp hr).imp id (hresults r))
      fun hbusy ↦ absurd idle hbusy
  | lost sent push =>
    obtain ⟨hd, hstep, hreceipts, -⟩ := h.push sent push
    exact h.serve hd hstep hreceipts (fun r hr ↦ Or.inl hr) fun hbusy ↦ (h.turns hbusy).2
  | pushed =>
    exact
      { h with
        batch := ⟨fun _ hb ↦ absurd hb List.not_mem_nil, fun _ hb ↦ absurd hb List.not_mem_nil⟩
        batchIds := fun _ hb ↦ absurd hb List.not_mem_nil
        replies := fun _ hr ↦ absurd hr List.not_mem_nil
        turns := fun _ ↦ ⟨rfl, rfl⟩ }
  | read free idle =>
    refine h.fetching free ?_ trivial
    rw [level, idle]
    rfl
  | whole asking pull =>
    refine h.fetching (h.turns (by rw [asking]; exact Fetch.noConfusion)) ?_
      (h.whole hcap asking pull)
    rw [level, asking]
    rfl
  | refused asking pull =>
    refine h.fetching (h.turns (by rw [asking]; exact Fetch.noConfusion)) ?_ (Or.inl ⟨rfl, rfl⟩)
    rw [level, asking]
    rfl
  | page paging pull more => exact h.page paging pull more
  | lastPage paging pull last sequence =>
    refine h.fetching (h.turns (by rw [paging]; exact Fetch.noConfusion)) ?_
      (h.lastPage paging pull last sequence)
    rw [level, paging]
    rfl
  | giveUp => exact h.giveUp
  | commit permits new committed => exact h.commit permits (careful _ rfl) new committed

theorem Runs.sound (h : Runs conv sha hardCap projectId (Careful projectId) w w')
    (hcap : 1 ≤ hardCap) (hw : w.Sound projectId) : w'.Sound projectId := by
  induction h with
  | refl => exact hw
  | tail _ hs ih =>
    obtain ⟨tx, hstep, hcareful⟩ := hs
    exact ih.step hcap hstep hcareful

end Replica

variable {Digest : Type} [DecidableEq Digest]

/-- The watermark passes over no row of the server: each one up to it has an open entry or is as on
the server. So a device whose watermark is the counter of the project has everything else. -/
theorem watermark_covers_the_server {conv : Conv} {sha : Payload → Digest} {hardCap : ℕ}
    {projectId : Uuid} (hcap : 1 ≤ hardCap) {db : Db Digest} (hd : db.data.WellFormed) {n : ℕ}
    (hn : db.data.lastSequence projectId = some n) {w : Replica Digest}
    (h : Replica.Runs conv sha hardCap projectId (Replica.Careful projectId) { db := db } w) :
    (∀ row ∈ w.db.data.rows, w.db.data.projectOf row = some projectId →
      row.changeSequence ≤ w.store.watermark → ∀ k, entityKey row = some k →
        (w.store.outbox.entry k).isSome ∨ w.store.row k = some (localRow k row)) ∧
    (w.db.data.lastSequence projectId = some w.store.watermark → w.store.outbox = [] →
      ∀ row ∈ w.db.data.rows, w.db.data.projectOf row = some projectId →
        ∃ k, entityKey row = some k ∧ w.store.row k = some (localRow k row)) := by
  have hsound := h.sound hcap (Replica.sound_empty hd hn)
  have hcovers := hsound.covers.mono hsound.below
  refine ⟨hcovers, fun hlast hempty row hr hp ↦ ?_⟩
  obtain ⟨key, hkey⟩ := pullKey_isSome hsound.wellFormed hr
  have hk : entityKey row = some (key.entity, row.id) := by rw [entityKey, hkey]; rfl
  obtain ⟨q, m, hq, hm, -, hle⟩ := hsound.wellFormed.bounded row hr
  obtain rfl : q = projectId := Option.some.inj (hq.symm.trans hp)
  obtain rfl : m = w.store.watermark := Option.some.inj (hm.symm.trans hlast)
  refine ⟨_, hk, (hcovers row hr hp hle _ hk).resolve_left ?_⟩
  rw [hempty]
  exact Bool.false_ne_true

/-- A risk is created, its answer is lost, and a pull brings the risk that the server had before. -/
theorem watermark_covers_the_server_sample : ∃ w : Replica Val,
    Replica.Runs Conv.strict titleDigest 5 1 (Replica.Careful 1) { db := sampleDb } w ∧
    w.store.watermark = 2 ∧ w.store.outbox.map Entry.changeId = [11] ∧
    ∀ row ∈ w.db.data.rows, w.db.data.projectOf row = some 1 →
      row.changeSequence ≤ w.store.watermark → ∀ k, entityKey row = some k →
        (w.store.outbox.entry k).isSome ∨ w.store.row k = some (localRow k row) := by
  have h₀ : Replica.Runs Conv.strict titleDigest 5 1 (Replica.Careful 1) { db := sampleDb }
      { db := sampleDb } := .refl
  have h₁ := h₀.tail ⟨_, @Replica.Step.commit _ _ _ _ _ _ _
    (.edit (.createScored .risk 7 Dict.empty) ⟨11, 1⟩) _ trivial
    (fun _ _ ↦ ⟨List.not_mem_nil, fun _ hr ↦ absurd hr List.not_mem_nil⟩) rfl,
    fun _ ht ↦ by cases ht; exact fun hdiscards ↦ by cases hdiscards.1⟩
  have h₂ := h₁.tail ⟨_, .capture 100 2 ⟨rfl, rfl⟩ rfl, fun _ ht ↦ by cases ht⟩
  have h₃ := h₂.tail ⟨_, @Replica.Step.lost _ _ _ _ _ _ _ 10
    [(⟨11, .risk, .upsert, none, scoredRecord 7 Dict.empty⟩, 3)] _ _
    (fun c hc ↦ by rw [List.mem_singleton.mp hc]; exact List.mem_singleton.mpr rfl) rfl,
    fun _ ht ↦ by cases ht⟩
  have h₄ := h₃.tail ⟨_, .pushed, fun _ ht ↦ by cases ht⟩
  have h₅ := h₄.tail ⟨_, .read ⟨rfl, rfl⟩ rfl, fun _ ht ↦ by cases ht⟩
  have h₆ := h₅.tail ⟨_, .whole rfl rfl, fun _ ht ↦ by cases ht⟩
  have h₇ := h₆.tail ⟨_, @Replica.Step.commit _ _ _ _ _ _ _ (.applyPull _) _ ⟨0, rfl⟩
    (fun _ hid ↦ by cases hid) rfl, fun _ ht ↦ by cases ht; trivial⟩
  exact ⟨_, h₇, rfl, rfl, (watermark_covers_the_server (by decide) sampleDb_wellFormed rfl h₇).1⟩

end RiskApp.Client
