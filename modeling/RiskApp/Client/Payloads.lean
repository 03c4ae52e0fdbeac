import RiskApp.Client.InFlight
import RiskApp.Server.PayloadHashes

namespace RiskApp.Client

open Lib Server

def Unspoken (out : List SyncChange) (changeId : Uuid) : Prop := ∀ c ∈ out, c.changeId ≠ changeId

/-- An entry afterwards: still the same change, or a conflict, which is not sent again. -/
structure Entry.Lasts (e e' : Entry) : Prop where
  changeId : e'.changeId = e.changeId
  key : e'.key = e.key
  conflict : e.inConflict = true → e'.inConflict = true
  change : e'.change = e.change ∨ e'.inConflict = true

theorem Entry.Lasts.refl (e : Entry) : e.Lasts e := ⟨rfl, rfl, id, Or.inl rfl⟩

theorem Entry.Lasts.parks {e e' : Entry} (h : e.Parks e') (hc : e.inConflict = false) :
    e.Lasts e' :=
  ⟨h.changeId, h.key, fun hbad ↦ absurd (hc.symm.trans hbad) (by decide), Or.inl h.change⟩

theorem Entry.inConflict_of_queued {e : Entry} (h : e.queued = true) : e.inConflict = false := by
  rw [Entry.queued, decide_eq_true_eq] at h
  rw [Entry.inConflict, decide_eq_false h, Bool.false_and]

namespace Outbox

def Lasts (new : Uuid → Prop) (o o' : Outbox) : Prop :=
  ∀ e' ∈ o', new e'.changeId ∨ ∃ e ∈ o, e.Lasts e'

/-- What goes out under the id of an entry is its change, unless it is in conflict. What takes the
place of a change on its way does not go out. -/
structure Faithful (out : List SyncChange) (sent : List Uuid) (batch o : Outbox) : Prop where
  same : ∀ e ∈ o, ∀ c ∈ out, c.changeId = e.changeId → c = e.change ∨ e.inConflict = true
  replaced : ∀ b ∈ batch, b.changeId ∈ sent → ∀ e ∈ o, e.key = b.key → e.changeId ≠ b.changeId →
    Unspoken out e.changeId

variable {new : Uuid → Prop} {out : List SyncChange} {sent : List Uuid} {batch o o' : Outbox}

theorem lasts_filter (o : Outbox) (p : Entry → Bool) : Lasts new o (o.filter p) :=
  fun e he ↦ Or.inr ⟨e, (List.mem_filter.mp he).1, .refl e⟩

theorem lasts_update {p : Entry → Bool} {f : Entry → Entry}
    (h : ∀ e ∈ o, p e = true → new (f e).changeId ∨ e.Lasts (f e)) :
    Lasts new o (o.update p f) := by
  intro e' he'
  obtain ⟨e, he, ⟨hp, rfl⟩ | ⟨-, rfl⟩⟩ := mem_update he'
  · exact (h e he hp).imp id fun hlasts ↦ ⟨e, he, hlasts⟩
  · exact Or.inr ⟨e', he, .refl e'⟩

theorem lasts_insertEntry {d : Draft} (b : Option ℤ) (h : new d.changeId) :
    Lasts new o (o.insertEntry d b) := by
  intro e' he'
  rcases mem_insertEntry he' with rfl | ⟨he, -⟩
  · exact Or.inl h
  · exact Or.inr ⟨e', he, .refl e'⟩

theorem Refreshed.lasts (h : o.Refreshed o') : Lasts new o o' := by
  intro e' he'
  obtain ⟨e, he, saved, rfl⟩ := h.mem he'
  exact Or.inr ⟨e, he, rfl, rfl, id, Or.inl rfl⟩

theorem Faithful.lasts (h : Faithful out sent batch o) (hlasts : Lasts (Unspoken out) o o') :
    Faithful out sent batch o' := by
  refine ⟨fun e' he' c hc hid ↦ ?_, fun b hb hsent e' he' hkey hne ↦ ?_⟩
  · rcases hlasts e' he' with hnew | ⟨e, he, hsame⟩
    · exact absurd hid (hnew c hc)
    · rcases h.same e he c hc (hid.trans hsame.changeId) with hchange | hconflict
      · exact hsame.change.imp (fun heq ↦ hchange.trans heq.symm) id
      · exact Or.inr (hsame.conflict hconflict)
  · rcases hlasts e' he' with hnew | ⟨e, he, hsame⟩
    · exact hnew
    · rw [hsame.changeId]
      exact h.replaced b hb hsent e he (hsame.key.symm.trans hkey)
        fun heq ↦ hne (hsame.changeId.trans heq)

theorem Faithful.take {passed : List SyncChange} {taken : Outbox} {sent' : List Uuid}
    (h : Faithful (passed ++ batch.map Entry.change) sent batch o) (hd : o.Distinct)
    (htaken : ∀ b ∈ taken, b ∈ o) :
    Faithful (passed ++ taken.map Entry.change) sent' taken o := by
  refine ⟨fun e he c hc hid ↦ ?_, fun b hb _ e he hkey hne ↦ ?_⟩
  · rcases List.mem_append.mp hc with hc | hc
    · exact h.same e he c (List.mem_append_left _ hc) hid
    · obtain ⟨b, hb, rfl⟩ := List.mem_map.mp hc
      rw [hd.eq_of_id (htaken b hb) he hid]
      exact Or.inl rfl
  · exact absurd (congrArg Entry.changeId (hd.eq_of_key he (htaken b hb) hkey)) hne

theorem Faithful.onePayload {passed : List SyncChange} {taken : Outbox}
    (h : Faithful (passed ++ batch.map Entry.change) sent batch o) (hd : o.Distinct)
    (hone : OnePayload (passed ++ batch.map Entry.change))
    (htaken : ∀ b ∈ taken, b ∈ o ∧ b.inConflict = false) :
    OnePayload (passed ++ taken.map Entry.change) := by
  have hold : ∀ c ∈ passed, ∀ b ∈ taken, c.changeId = b.changeId → c = b.change := by
    intro c hc b hb hid
    obtain ⟨hmem, hconflict⟩ := htaken b hb
    refine (h.same b hmem c (List.mem_append_left _ hc) hid).resolve_right fun hbad ↦ ?_
    exact absurd (hconflict.symm.trans hbad) (by decide)
  intro c hc c' hc' hid
  rcases List.mem_append.mp hc with hc | hc <;> rcases List.mem_append.mp hc' with hc' | hc'
  · exact hone c (List.mem_append_left _ hc) c' (List.mem_append_left _ hc') hid
  · obtain ⟨b, hb, rfl⟩ := List.mem_map.mp hc'
    exact hold c hc b hb hid
  · obtain ⟨b, hb, rfl⟩ := List.mem_map.mp hc
    exact (hold c' hc' b hb hid.symm).symm
  · obtain ⟨b, hb, rfl⟩ := List.mem_map.mp hc
    obtain ⟨b', hb', rfl⟩ := List.mem_map.mp hc'
    rw [hd.eq_of_id (htaken b hb).1 (htaken b' hb').1 hid]

theorem Faithful.mono {sent' : List Uuid} (h : Faithful out sent batch o) (hsub : sent' ⊆ sent) :
    Faithful out sent' batch o :=
  ⟨h.same, fun b hb hs ↦ h.replaced b hb (hsub hs)⟩

end Outbox

open Outbox in
theorem LocalStore.edit_lasts {new : Uuid → Prop} {s s' : LocalStore} {op : Edit}
    {t : LocalStore.Stamp} (h : Edited s op t s') (hd : s.outbox.Distinct)
    (hnew : new t.changeId) : Lasts new s.outbox s'.outbox := by
  cases h with
  | @rewritten e₀ rows joins entry conflict saved row =>
    refine lasts_update fun e he hsel ↦ Or.inr ?_
    obtain rfl : e = e₀ := hd.eq_of_id he (entry_some entry).1 (of_decide_eq_true hsel)
    exact ⟨rfl, rfl, id, Or.inr conflict⟩
  | queued base saved row => exact lasts_insertEntry _ hnew
  | discarded delete unsynced unsent row gone => exact lasts_filter _ _

def Matched (projectId : Uuid) (batch : Outbox) : Transaction → Prop
  | .acknowledge results => ∀ r ∈ results, ∃ b ∈ batch, b.changeId = r.changeId ∧
      resultMatchesChange projectId r b = true
  | _ => True

namespace Device

open Outbox

variable {projectId : Uuid} {d d' : Device} {new : Uuid → Prop} {out : List SyncChange}
  {batch : Outbox} {tx : Transaction} {store : LocalStore}

theorem Resolved.lasts {s s' : LocalStore} {e : Entry} {dr : Option Draft}
    (h : Resolved s e dr s') (hnew : ∀ d ∈ dr, new d.changeId) : Lasts new s.outbox s'.outbox := by
  cases h with
  | requeued key outbox =>
    rw [outbox]
    exact lasts_insertEntry _ (hnew _ rfl)
  | dropped outbox =>
    rw [outbox]
    exact lasts_filter _ _
  | merged key outbox =>
    rw [outbox]
    intro e' he'
    rcases mem_insertEntry he' with rfl | ⟨he, -⟩
    · exact Or.inl (hnew _ rfl)
    · exact lasts_filter _ _ e' he

/-- Only an acknowledgement rewrites an entry that is not in conflict. -/
theorem commit_lasts (h : d.Sound) (hp : d.Permits tx)
    (hnew : ∀ id, tx.draws = some id → new id) (hc : d.store.commit projectId tx = some store) :
    Lasts new d.store.outbox store.outbox ∨ ∃ results, tx = .acknowledge results := by
  have hd := h.distinct
  have hunsent : ∀ e ∈ d.store.outbox, e.changeId ∈ d.sent → e.inConflict = false := fun e he hs ↦
    Entry.inConflict_of_queued ((h.fits e he).queued hs)
  have hdraft : ∀ {t : LocalStore.Stamp} {dr : Draft}, tx.draws = some t.changeId →
      dr.changeId = t.changeId → ∀ d ∈ some dr, new d.changeId := by
    intro t dr ht hid d hd
    obtain rfl := Option.some.inj hd
    rw [hid]
    exact hnew _ ht
  cases tx with
  | acknowledge results => exact Or.inr ⟨results, rfl⟩
  | edit op t =>
    exact Or.inl (LocalStore.edit_lasts (LocalStore.edit_edited hd hc) hd (hnew _ rfl))
  | markAttempted ids now =>
    obtain rfl := Option.some.inj hc
    exact Or.inl (lasts_update fun e _ _ ↦ Or.inr ⟨rfl, rfl, id, Or.inl rfl⟩)
  | deleteIds ids =>
    obtain rfl := Option.some.inj hc
    exact Or.inl (lasts_filter _ _)
  | deferId changeId err retryAfter now =>
    obtain rfl := Option.some.inj hc
    refine Or.inl (lasts_update fun e he hsel ↦ Or.inr ?_)
    have hid : e.changeId = changeId := of_decide_eq_true hsel
    exact .parks (e.parks_deferred _ _ _) (hunsent e he (hid ▸ hp))
  | blockId changeId err now =>
    obtain rfl := Option.some.inj hc
    refine Or.inl (lasts_update fun e he hsel ↦ Or.inr ?_)
    rw [Bool.and_eq_true, decide_eq_true_eq] at hsel
    exact .parks (e.parks_parked _ _) (hunsent e he (hsel.1 ▸ hp.1))
  | releaseAuthentication =>
    obtain rfl := Option.some.inj hc
    refine Or.inl (lasts_update fun e he hsel ↦ Or.inr (.parks e.parks_released ?_))
    simp only [Bool.and_eq_true, decide_eq_true_eq] at hsel
    simp [Entry.inConflict, hsel.2]
  | applyPull pull =>
    obtain rfl := Option.some.inj hc
    exact Or.inl (LocalStore.applyPull_refreshedFrom d.store pull).refreshed.lasts
  | keepMine changeId expected t =>
    obtain ⟨e, -, -, -, dr, hid, hres⟩ := keepMine_resolved hc
    exact Or.inl (hres.lasts (hdraft rfl hid))
  | useServer changeId expected =>
    obtain ⟨e, -, -, -, hres⟩ := useServer_resolved hd hc
    exact Or.inl (hres.lasts fun d hd ↦ by cases hd)
  | merge changeId expected merged t =>
    obtain ⟨e, -, -, -, dr, hid, hres⟩ := merge_resolved hd hc
    exact Or.inl (hres.lasts (hdraft rfl hid))

theorem acknowledged_faithful {sent : List Uuid} {s s' : LocalStore} {r : ChangeResult}
    (h : LocalStore.Acknowledged s r s') (hf : Faithful out sent batch s.outbox)
    (hd : s.outbox.Distinct) (hn : batch.Named) (hsent : r.changeId ∈ sent)
    (hmatch : ∃ b ∈ batch, b.changeId = r.changeId ∧ resultMatchesChange projectId r b = true) :
    Faithful out sent batch s'.outbox := by
  cases h with
  | passed => exact hf
  | applied => exact hf.lasts (lasts_filter _ _)
  | settled => exact hf.lasts (lasts_filter _ _)
  | @advanced e rows v mem gone entity entityId queued version row =>
    refine hf.lasts (lasts_update fun e' he' hsel ↦ Or.inl ?_)
    obtain rfl : e' = e := hd.eq_of_id he' mem (of_decide_eq_true hsel)
    obtain ⟨b, hb, hid, hr⟩ := hmatch
    obtain ⟨hentity, hentityId, -⟩ := resultMatchesChange_names (hn b hb) hr
    have hkey : e'.key = b.key := Prod.ext (entity.symm.trans hentity) (hentityId _ entityId)
    exact hf.replaced b hb (hid ▸ hsent) e' mem hkey fun hsame ↦ gone e' mem (hsame.trans hid)

theorem commit_faithful (h : d.Sound) (hf : Faithful out d.sent batch d.store.outbox)
    (hn : batch.Named) (hp : d.Permits tx) (hmatch : Matched projectId batch tx)
    (hnew : ∀ id, tx.draws = some id → Unspoken out id)
    (hc : d.store.commit projectId tx = some store) : Faithful out d.sent batch store.outbox := by
  rcases commit_lasts h hp hnew hc with hlasts | ⟨results, rfl⟩
  · exact hf.lasts hlasts
  · exact (LocalStore.acknowledgeAcceptedResults_induction
      (P := fun s ↦ Faithful out d.sent batch s.outbox)
      (fun s r s' hr hds hs hack ↦ acknowledged_faithful hack hs hds hn (hp r hr) (hmatch r hr))
      h.distinct hf hc).2

theorem commit_ids (h : d.Sound) (hp : d.Permits tx) (hnew : ∀ id, tx.draws = some id → new id)
    (hold : ∀ e ∈ d.store.outbox, new e.changeId) (hc : d.store.commit projectId tx = some store) :
    ∀ e ∈ store.outbox, new e.changeId := by
  rcases commit_lasts h hp hnew hc with hlasts | ⟨results, rfl⟩
  · intro e' he'
    rcases hlasts e' he' with hid | ⟨e, he, hsame⟩
    · exact hid
    · exact hsame.changeId ▸ hold e he
  · refine (LocalStore.acknowledgeAcceptedResults_induction
      (P := fun s ↦ ∀ e ∈ s.outbox, new e.changeId) (fun s r s' _ _ hs hack e' he' ↦ ?_)
      h.distinct hold hc).2
    rcases eachFrom_acknowledged hack (fun _ ↦ False) e' he' with ⟨e, he, halike⟩ | hfalse
    · exact halike.changeId ▸ hs e he
    · exact hfalse.elim

end Device

/-- A device, the server and what has passed between them: the batch of the push under way, the
changes passed to `sync_push`, and the ids that the device has drawn. -/
structure Traffic (Digest : Type) where
  db : Db Digest
  device : Device := {}
  batch : Outbox := []
  passed : List SyncChange := []
  drawn : List Uuid := []

namespace Traffic

variable {Digest : Type} [DecidableEq Digest]

def out (w : Traffic Digest) : List SyncChange := w.passed ++ w.batch.map Entry.change

/-- A push takes one batch and passes its changes, together or one by one. What is passed reaches
the server late, repeatedly or never, and so does its answer. Drawn ids are new to everyone. -/
inductive Step (conv : Conv) (sha : Payload → Digest) (projectId : Uuid) (w : Traffic Digest) :
    Traffic Digest → Prop
  | capture (limit : ℕ) (now : Time) (free : w.device.sent = []) (idle : w.device.phase = .idle) :
      Step conv sha projectId w { w with
        device := { w.device with
          sent := (w.device.store.outbox.getPendingChanges limit now).map Entry.changeId }
        batch := w.device.store.outbox.getPendingChanges limit now }
  | pass {changes : List SyncChange} (taken : changes ⊆ w.batch.map Entry.change) :
      Step conv sha projectId w { w with passed := w.passed ++ changes }
  | device {tx : Option Transaction} {d : Device} (moves : w.device.Step projectId tx d)
      (answered : d.sent ⊆ w.device.sent) (matched : ∀ t ∈ tx, Matched projectId w.batch t)
      (new : ∀ id, tx.bind Transaction.draws = some id →
        id ∉ w.drawn ∧ ∀ receipt ∈ w.db.receipts, receipt.changeId ≠ id) :
      Step conv sha projectId w
        { w with device := d, drawn := w.drawn ++ (tx.bind Transaction.draws).toList }
  | deliver {userId : Uuid} {changes : List (SyncChange × Time)} {db : Db Digest}
      {results : List ChangeResult} (passed : ∀ c ∈ changes, c.1 ∈ w.passed)
      (answer : pushChanges conv sha w.db userId projectId changes = .ok (db, results)) :
      Step conv sha projectId w { w with db := db }
  | others {db : Db Digest} (receipts : ∀ receipt ∈ db.receipts, receipt.changeId ∈ w.drawn →
        receipt ∈ w.db.receipts) :
      Step conv sha projectId w { w with db := db }

def Runs (conv : Conv) (sha : Payload → Digest) (projectId : Uuid) :
    Traffic Digest → Traffic Digest → Prop :=
  Relation.ReflTransGen (Step conv sha projectId)

/-- Each id goes out with one change, and the server has stored no other under it. -/
structure Sound (sha : Payload → Digest) (w : Traffic Digest) : Prop where
  device : w.device.Sound
  named : w.device.store.outbox.Named
  batchNamed : w.batch.Named
  faithful : Outbox.Faithful w.out w.device.sent w.batch w.device.store.outbox
  one : OnePayload w.out
  drawn : ∀ e ∈ w.device.store.outbox, e.changeId ∈ w.drawn
  outDrawn : ∀ c ∈ w.out, c.changeId ∈ w.drawn
  receipts : ∀ receipt ∈ w.db.receipts, receipt.changeId ∈ w.drawn → receipt.Of sha w.passed

variable {conv : Conv} {sha : Payload → Digest} {projectId : Uuid} {w w' : Traffic Digest}

omit [DecidableEq Digest] in
theorem sound_empty (sha : Payload → Digest) (db : Db Digest) : Sound sha { db := db } :=
  ⟨Device.sound_empty, fun _ h ↦ absurd h List.not_mem_nil, fun _ h ↦ absurd h List.not_mem_nil,
    ⟨fun _ h ↦ absurd h List.not_mem_nil, fun _ h ↦ absurd h List.not_mem_nil⟩,
    fun _ h ↦ absurd h List.not_mem_nil, fun _ h ↦ absurd h List.not_mem_nil,
    fun _ h ↦ absurd h List.not_mem_nil, fun _ _ h ↦ absurd h List.not_mem_nil⟩

omit [DecidableEq Digest] in
theorem Sound.capture (h : w.Sound sha) (projectId : Uuid) {limit : ℕ} {now : Time}
    (free : w.device.sent = []) (idle : w.device.phase = .idle) :
    Sound sha { w with
      device := { w.device with
        sent := (w.device.store.outbox.getPendingChanges limit now).map Entry.changeId }
      batch := w.device.store.outbox.getPendingChanges limit now } := by
  have hstep : w.device.Step projectId none _ := .batch limit now free idle
  have htaken : ∀ b ∈ w.device.store.outbox.getPendingChanges limit now,
      b ∈ w.device.store.outbox ∧ b.inConflict = false := by
    intro b hb
    obtain ⟨hmem, hready⟩ := Device.mem_getPendingChanges hb
    exact ⟨hmem, Entry.inConflict_of_queued (Device.queued_of_ready hready)⟩
  have hd := h.device.distinct
  refine ⟨h.device.step hstep, h.named, fun b hb ↦ h.named b (htaken b hb).1,
    h.faithful.take hd fun b hb ↦ (htaken b hb).1, h.faithful.onePayload hd h.one htaken, h.drawn,
    fun c hc ↦ ?_, h.receipts⟩
  rcases List.mem_append.mp hc with hc | hc
  · exact h.outDrawn c (List.mem_append_left _ hc)
  · obtain ⟨b, hb, rfl⟩ := List.mem_map.mp hc
    exact h.drawn b (htaken b hb).1

omit [DecidableEq Digest] in
theorem Sound.pass (h : w.Sound sha) {changes : List SyncChange}
    (htaken : changes ⊆ w.batch.map Entry.change) :
    Sound sha { w with passed := w.passed ++ changes } := by
  have hout : w.passed ++ changes ++ w.batch.map Entry.change ⊆ w.out := by
    intro c hc
    rcases List.mem_append.mp hc with hc | hc
    · rcases List.mem_append.mp hc with hc | hc
      · exact List.mem_append_left _ hc
      · exact List.mem_append_right _ (htaken hc)
    · exact List.mem_append_right _ hc
  exact ⟨h.device, h.named, h.batchNamed,
    ⟨fun e he c hc ↦ h.faithful.same e he c (hout hc),
      fun b hb hs e he hkey hne c hc ↦ h.faithful.replaced b hb hs e he hkey hne c (hout hc)⟩,
    fun c hc c' hc' ↦ h.one c (hout hc) c' (hout hc'), h.drawn, fun c hc ↦ h.outDrawn c (hout hc),
    fun receipt hr hid ↦ (h.receipts receipt hr hid).mono (List.subset_append_left _ _)⟩

omit [DecidableEq Digest] in
theorem Sound.moved (h : w.Sound sha) {tx : Option Transaction} {d : Device}
    (moves : w.device.Step projectId tx d) (answered : d.sent ⊆ w.device.sent)
    (matched : ∀ t ∈ tx, Matched projectId w.batch t)
    (new : ∀ id, tx.bind Transaction.draws = some id →
      id ∉ w.drawn ∧ ∀ receipt ∈ w.db.receipts, receipt.changeId ≠ id) :
    Sound sha
      { w with device := d, drawn := w.drawn ++ (tx.bind Transaction.draws).toList } := by
  have hunspoken : ∀ id, tx.bind Transaction.draws = some id → Unspoken w.out id := by
    intro id hid c hc heq
    exact (new id hid).1 (heq ▸ h.outDrawn c hc)
  have hstore : d.store.outbox.Named ∧
      Outbox.Faithful w.out w.device.sent w.batch d.store.outbox ∧
      ∀ e ∈ d.store.outbox, e.changeId ∈ w.drawn ++ (tx.bind Transaction.draws).toList := by
    cases moves with
    | @commit t store permits committed =>
      refine ⟨LocalStore.commit_named committed h.device.distinct h.named,
        Device.commit_faithful h.device h.faithful h.batchNamed permits (matched t rfl) hunspoken
          committed,
        Device.commit_ids h.device permits (fun id hid ↦ ?_)
          (fun e he ↦ List.mem_append_left _ (h.drawn e he)) committed⟩
      exact List.mem_append_right _ (Option.mem_toList.mpr hid)
    | _ => exact ⟨h.named, h.faithful, fun e he ↦ List.mem_append_left _ (h.drawn e he)⟩
  obtain ⟨hnamed, hfaithful, hdrawn⟩ := hstore
  refine ⟨h.device.step moves, hnamed, h.batchNamed, hfaithful.mono answered, h.one, hdrawn,
    fun c hc ↦ List.mem_append_left _ (h.outDrawn c hc), fun receipt hr hid ↦ ?_⟩
  rcases List.mem_append.mp hid with hid | hid
  · exact h.receipts receipt hr hid
  · exact absurd rfl ((new _ (Option.mem_toList.mp hid)).2 receipt hr)

theorem Sound.answer (h : w.Sound sha) {userId : Uuid} {changes : List (SyncChange × Time)}
    {db : Db Digest} {results : List ChangeResult} (passed : ∀ c ∈ changes, c.1 ∈ w.passed)
    (answer : pushChanges conv sha w.db userId projectId changes = .ok (db, results)) :
    (∀ receipt ∈ db.receipts, receipt ∈ w.db.receipts ∨ receipt.Of sha w.passed) ∧
      ∀ r ∈ results, r.body.reason ≠ some payloadMismatch := by
  refine pushChanges_passes (fun c hc c' hc' ↦ ?_) (fun receipt hr hid ↦ ?_) passed answer
  · exact h.one c (List.mem_append_left _ hc) c' (List.mem_append_left _ hc')
  · obtain ⟨c, hc, hid⟩ := hid
    exact h.receipts receipt hr (hid ▸ h.outDrawn c (List.mem_append_left _ hc))

theorem Sound.step (h : w.Sound sha) (hs : Step conv sha projectId w w') : w'.Sound sha := by
  cases hs with
  | capture limit now free idle => exact h.capture projectId free idle
  | pass taken => exact h.pass taken
  | device moves answered matched new => exact h.moved moves answered matched new
  | deliver passed answer =>
    exact ⟨h.device, h.named, h.batchNamed, h.faithful, h.one, h.drawn, h.outDrawn,
      fun receipt hr hid ↦ ((h.answer passed answer).1 receipt hr).elim
        (fun hold ↦ h.receipts receipt hold hid) id⟩
  | others receipts =>
    exact ⟨h.device, h.named, h.batchNamed, h.faithful, h.one, h.drawn, h.outDrawn,
      fun receipt hr hid ↦ h.receipts receipt (receipts receipt hr hid) hid⟩

theorem Runs.sound (h : Runs conv sha projectId w w') (hw : w.Sound sha) : w'.Sound sha := by
  induction h with
  | refl => exact hw
  | tail _ hs ih => exact ih.step hs

end Traffic

variable {Digest : Type} [DecidableEq Digest]

/-- No id is passed to the server with two payloads, and no retry is refused for it. -/
theorem one_payload_per_change_id {conv : Conv} {sha : Payload → Digest} {projectId : Uuid}
    {db : Db Digest} {w : Traffic Digest} (h : Traffic.Runs conv sha projectId { db := db } w) :
    (∀ c ∈ w.passed, ∀ c' ∈ w.passed, c.changeId = c'.changeId →
      (c.entity, c.op, c.baseVersion, c.record) = (c'.entity, c'.op, c'.baseVersion, c'.record)) ∧
    ∀ userId changes db' results, (∀ c ∈ changes, c.1 ∈ w.passed) →
      pushChanges conv sha w.db userId projectId changes = .ok (db', results) →
      ∀ r ∈ results, r.body.reason ≠ some payloadMismatch := by
  have hsound := h.sound (Traffic.sound_empty sha db)
  refine ⟨fun c hc c' hc' hid ↦ ?_, fun userId changes db' results hpassed hanswer ↦ ?_⟩
  · rw [hsound.one c (List.mem_append_left _ hc) c' (List.mem_append_left _ hc') hid]
  · exact (hsound.answer hpassed hanswer).2

/-- A create whose answer is lost goes out again and meets its receipt. -/
theorem one_payload_per_change_id_sample : ∃ w : Traffic Val,
    Traffic.Runs Conv.strict titleDigest 1 { db := sampleDb } w ∧
    w.db.receipts.map SyncReceipt.changeId = [11] ∧
    w.passed.map SyncChange.changeId = [11, 11] ∧
    ∀ c ∈ w.passed, ∀ c' ∈ w.passed, c.changeId = c'.changeId →
      (c.entity, c.op, c.baseVersion, c.record) =
        (c'.entity, c'.op, c'.baseVersion, c'.record) := by
  have h₀ : Traffic.Runs Conv.strict titleDigest 1 { db := sampleDb } { db := sampleDb } := .refl
  have h₁ := h₀.tail (.device (@Device.Step.commit 1 _
      (.edit (.createScored .risk 1 Dict.empty) ⟨11, 1⟩) _ ⟨by simp, by simp⟩ rfl)
    (List.Subset.refl _) (fun t ht ↦ by cases ht; trivial)
    fun id hid ↦ ⟨List.not_mem_nil, fun _ hr ↦ absurd hr List.not_mem_nil⟩)
  have h₂ := h₁.tail (.capture 100 2 rfl rfl)
  have h₃ := h₂.tail (.pass (List.Subset.refl _))
  have h₄ := h₃.tail (@Traffic.Step.deliver _ _ _ _ _ _ 10
    [(⟨11, .risk, .upsert, none, scoredRecord 1 Dict.empty⟩, 3)] _ _
    (fun c hc ↦ by rw [List.mem_singleton.mp hc]; exact List.mem_singleton.mpr rfl) rfl)
  have h₅ := h₄.tail (.device .giveUp (List.nil_subset _) (fun _ ht ↦ by cases ht)
    fun _ hid ↦ by cases hid)
  have h₆ := h₅.tail (.capture 100 4 rfl rfl)
  have h₇ := h₆.tail (.pass (List.Subset.refl _))
  exact ⟨_, h₇, rfl, rfl, (one_payload_per_change_id h₇).1⟩

end RiskApp.Client
