import Mathlib.Logic.Relation
import RiskApp.Client.ServerState

namespace RiskApp.Client

open Lib Server

/-- Where the pull of a synchronization run stands. `floor` holds the versions the server had when
the first page was requested. -/
inductive PullPhase
  | idle
  | reading (floor : EntityKey → ℤ)
  | downloaded (pull : Download)

/-- One device: its store, the ids of the running push that have not been answered yet, the pull
under way, and the versions the rows of the server have. -/
structure Device where
  store : LocalStore := {}
  sent : List Uuid := []
  phase : PullPhase := .idle
  server : EntityKey → ℤ := fun _ ↦ 0

def Transaction.settles : Transaction → List Uuid
  | .acknowledge results => results.map ChangeResult.changeId
  | .deleteIds ids => ids
  | .deferId changeId _ _ _ => [changeId]
  | .blockId changeId _ _ => [changeId]
  | _ => []

namespace Device

def Unused (d : Device) (changeId : Uuid) : Prop :=
  (∀ e ∈ d.store.outbox, e.changeId ≠ changeId) ∧ changeId ∉ d.sent

/-- When each transaction is run: new ids are unused, a push answers each of its changes once, with
a server copy that the server has had, and the pull that is applied was downloaded. -/
def Permits (d : Device) : Transaction → Prop
  | .edit _ t => d.Unused t.changeId
  | .markAttempted ids _ => ids = d.sent
  | .acknowledge results => ∀ r ∈ results, r.changeId ∈ d.sent
  | .deleteIds ids => ids ⊆ d.sent
  | .deferId changeId _ _ _ => changeId ∈ d.sent
  | .blockId changeId err _ => changeId ∈ d.sent ∧ ∀ e ∈ d.store.outbox, e.changeId = changeId →
      ∀ v, err.outcome.serverVersion = some v → v ≤ d.server e.key
  | .releaseAuthentication => True
  | .applyPull pull => d.phase = .downloaded pull
  | .keepMine _ _ t => d.Unused t.changeId
  | .useServer _ _ => True
  | .merge _ _ _ t => d.Unused t.changeId

def after (d : Device) (tx : Transaction) (store : LocalStore) : Device where
  store := store
  sent := d.sent.filter (· ∉ tx.settles)
  phase := match tx with
    | .applyPull _ => .idle
    | _ => d.phase
  server := d.server

/-- What happens on a device: synchronization runs push one batch and then pull, the user writes
and resolves conflicts at any time, and the server goes on. -/
inductive Step (projectId : Uuid) (d : Device) : Option Transaction → Device → Prop
  | server {server' : EntityKey → ℤ} (grows : ∀ k, d.server k ≤ server' k) :
      Step projectId d none { d with server := server' }
  | batch (limit : ℕ) (now : Time) (free : d.sent = []) (idle : d.phase = .idle) :
      Step projectId d none
        { d with sent := (d.store.outbox.getPendingChanges limit now).map Entry.changeId }
  | giveUp : Step projectId d none { d with sent := [], phase := .idle }
  | read (free : d.sent = []) (idle : d.phase = .idle) :
      Step projectId d none { d with phase := .reading d.server }
  -- each page holds the rows as they are when it is read
  | download {floor : EntityKey → ℤ} {pull : Download} (reading : d.phase = .reading floor)
      (current : ∀ key, ∀ record ∈ pull.records key, ∀ id, recordId record = some id →
        floor (key.entity, id) ≤ recordVersion record ∧
        recordVersion record ≤ d.server (key.entity, id)) :
      Step projectId d none { d with phase := .downloaded pull }
  | commit {tx : Transaction} {store : LocalStore} (permits : d.Permits tx)
      (committed : d.store.commit projectId tx = some store) :
      Step projectId d (some tx) (d.after tx store)

def Runs (projectId : Uuid) (allowed : Device → Transaction → Prop) : Device → Device → Prop :=
  Relation.ReflTransGen fun d d' ↦
    ∃ tx, d.Step projectId tx d' ∧ ∀ t, tx = some t → allowed d t

end Device

namespace PullPhase

def Covers (k : EntityKey) (v : ℤ) : PullPhase → Prop
  | .idle => True
  | .reading floor => v ≤ floor k
  | .downloaded pull => ∀ key, key.entity = k.1 → ∀ record ∈ pull.records key,
      recordId record = some k.2 → v ≤ recordVersion record

def Within (server : EntityKey → ℤ) : PullPhase → Prop
  | .idle => True
  | .reading floor => ∀ k, floor k ≤ server k
  | .downloaded pull => ∀ key, ∀ record ∈ pull.records key, ∀ id, recordId record = some id →
      recordVersion record ≤ server (key.entity, id)

end PullPhase

namespace Device

/-- A change that is being sent is not blocked, and the saved server copy of a conflict is older
than the server and than any pull that will be applied. -/
structure Fits (d : Device) (e : Entry) : Prop where
  queued : e.changeId ∈ d.sent → e.queued = true
  saved : e.inConflict = true → ∀ v, e.outcome.serverVersion = some v →
    v ≤ d.server e.key ∧ d.phase.Covers e.key v

structure Sound (d : Device) : Prop where
  distinct : d.store.outbox.Distinct
  fits : ∀ e ∈ d.store.outbox, d.Fits e
  within : d.phase.Within d.server
  turns : d.sent = [] ∨ d.phase = .idle

theorem sound_empty : Sound {} :=
  ⟨⟨.nil, .nil⟩, fun _ h ↦ absurd h List.not_mem_nil, trivial, Or.inl rfl⟩

end Device

/-- The same change in the same condition. -/
structure Entry.Alike (e e' : Entry) : Prop where
  changeId : e'.changeId = e.changeId
  key : e'.key = e.key
  status : e'.status = e.status
  failureKind : e'.failureKind = e.failureKind
  outcome : e'.outcome = e.outcome

theorem Entry.Alike.inConflict {e e' : Entry} (h : e.Alike e') : e'.inConflict = e.inConflict := by
  rw [Entry.inConflict, Entry.inConflict, h.status, h.failureKind]

theorem Entry.Alike.refl (e : Entry) : e.Alike e := ⟨rfl, rfl, rfl, rfl, rfl⟩

theorem Entry.Alike.trans {e e' e'' : Entry} (h : e.Alike e') (h' : e'.Alike e'') : e.Alike e'' :=
  ⟨h'.changeId.trans h.changeId, h'.key.trans h.key, h'.status.trans h.status,
    h'.failureKind.trans h.failureKind, h'.outcome.trans h.outcome⟩

theorem Entry.alike_rewrite (op : ChangeOp) (record : Dict) (e : Entry) :
    e.Alike (e.rewrite op record) :=
  ⟨rfl, rfl, rfl, rfl, rfl⟩

theorem Entry.alike_attempted (now : Time) (e : Entry) : e.Alike (e.attempted now) :=
  ⟨rfl, rfl, rfl, rfl, rfl⟩

theorem Entry.alike_advanced (base : Option ℤ) (record : Dict) (e : Entry) :
    e.Alike (e.advanced base record) :=
  ⟨rfl, rfl, rfl, rfl, rfl⟩

namespace Outbox

/-- Every entry is an old one, a replacement that is neither sent nor in conflict, or one of those
that the transaction settles. -/
def EachFrom (o o' : Outbox) (P : Entry → Prop) : Prop :=
  ∀ e' ∈ o', (∃ e ∈ o, e.Alike e') ∨ P e'

theorem eachFrom_filter (o : Outbox) (p : Entry → Bool) (P : Entry → Prop) :
    EachFrom o (o.filter p) P :=
  fun e he ↦ Or.inl ⟨e, (List.mem_filter.mp he).1, .refl e⟩

theorem eachFrom_update {o : Outbox} {p : Entry → Bool} {f : Entry → Entry} {P : Entry → Prop}
    (h : ∀ e ∈ o, p e = true → e.Alike (f e) ∨ P (f e)) : EachFrom o (o.update p f) P := by
  intro e' he'
  obtain ⟨e, he, ⟨hp, rfl⟩ | ⟨-, rfl⟩⟩ := mem_update he'
  · exact (h e he hp).imp (fun ha ↦ ⟨e, he, ha⟩) id
  · exact Or.inl ⟨e', he, .refl e'⟩

theorem eachFrom_insertEntry {o : Outbox} {d : Draft} {b : Option ℤ} {P : Entry → Prop}
    (h : P (d.entry b)) : EachFrom o (o.insertEntry d b) P := by
  intro e' he'
  rcases mem_insertEntry he' with rfl | ⟨he, -⟩
  · exact Or.inr h
  · exact Or.inl ⟨e', he, .refl e'⟩

theorem EachFrom.trans {o o' o'' : Outbox} {P : Entry → Prop} (h : EachFrom o o' P)
    (h' : EachFrom o' o'' P) (hP : ∀ e e', e.Alike e' → P e → P e') : EachFrom o o'' P := by
  intro e'' he''
  rcases h' e'' he'' with ⟨e', he', ha'⟩ | hp
  · rcases h e' he' with ⟨e, he, ha⟩ | hp
    · exact Or.inl ⟨e, he, ha.trans ha'⟩
    · exact Or.inr (hP e' e'' ha' hp)
  · exact Or.inr hp

def RefreshedFrom (o o' : Outbox) (pulled : EntityKey → Dict → Prop) : Prop :=
  ∃ g : Entry → SavedOutcome, o' = o.map (fun e ↦ e.withOutcome (g e)) ∧
    ∀ e, g e = e.outcome ∨ ∃ record, pulled e.key record ∧
      g e = ⟨some (recordVersion record), some record⟩

namespace RefreshedFrom

variable {o o' o'' : Outbox} {pulled : EntityKey → Dict → Prop}

theorem refl (o : Outbox) : o.RefreshedFrom o pulled :=
  ⟨Entry.outcome, (List.map_id o).symm, fun _ ↦ Or.inl rfl⟩

theorem trans (h : o.RefreshedFrom o' pulled) (h' : o'.RefreshedFrom o'' pulled) :
    o.RefreshedFrom o'' pulled := by
  obtain ⟨g, rfl, hg⟩ := h
  obtain ⟨g', rfl, hg'⟩ := h'
  refine ⟨fun e ↦ g' (e.withOutcome (g e)), by rw [List.map_map]; rfl, fun e ↦ ?_⟩
  rcases hg' (e.withOutcome (g e)) with he | ⟨record, hr, he⟩
  · dsimp only
    rw [he]
    exact hg e
  · exact Or.inr ⟨record, hr, he⟩

theorem mono {pulled' : EntityKey → Dict → Prop} (h : o.RefreshedFrom o' pulled)
    (hp : ∀ k record, pulled k record → pulled' k record) : o.RefreshedFrom o' pulled' := by
  obtain ⟨g, rfl, hg⟩ := h
  refine ⟨g, rfl, fun e ↦ (hg e).imp id ?_⟩
  rintro ⟨record, hr, he⟩
  exact ⟨record, hp _ _ hr, he⟩

theorem refreshed (h : o.RefreshedFrom o' pulled) : o.Refreshed o' := by
  obtain ⟨g, rfl, -⟩ := h
  exact ⟨g, rfl⟩

theorem entry (h : o.RefreshedFrom o' pulled) {k : EntityKey} {e : Entry}
    (he : o.entry k = some e) : ∃ out, o'.entry k = some (e.withOutcome out) ∧
      (out = e.outcome ∨ ∃ record, pulled k record ∧
        out = ⟨some (recordVersion record), some record⟩) := by
  obtain ⟨g, rfl, hg⟩ := h
  have hfind : Outbox.entry (o.map fun e ↦ e.withOutcome (g e)) k =
      (o.entry k).map fun e ↦ e.withOutcome (g e) := by
    refine Table.find_map Entry.key k (fun e ↦ ?_) o
    rfl
  rw [he] at hfind
  exact ⟨g e, hfind, (entry_some he).2 ▸ hg e⟩

end RefreshedFrom

end Outbox

namespace LocalStore

def Named (entity : Entity) (records : List Dict) (k : EntityKey) (record : Dict) : Prop :=
  k.1 = entity ∧ record ∈ records ∧ recordId record = some k.2

theorem remember_refreshedFrom (o : Outbox) (k : EntityKey) (record : Dict) :
    o.RefreshedFrom (rememberConflictServerRecord o k record) fun k' r ↦ k' = k ∧ r = record := by
  refine ⟨fun e ↦ if e.key = k && e.inConflict then ⟨some (recordVersion record), some record⟩
    else e.outcome, List.map_congr_left fun e _ ↦ ?_, fun e ↦ ?_⟩
  · by_cases hc : (decide (e.key = k) && e.inConflict) = true
    · simp only [hc, if_true]
    · simp only [hc]
      rfl
  · by_cases hc : (decide (e.key = k) && e.inConflict) = true
    · right
      refine ⟨record, ⟨of_decide_eq_true (Bool.and_eq_true _ _ ▸ hc).1, rfl⟩, ?_⟩
      simp only [hc, if_true]
    · left
      simp only [hc]
      rfl

theorem applyPullEntities_refreshedFrom (s : LocalStore) (entity : Entity) (records : List Dict) :
    s.outbox.RefreshedFrom (s.applyPullEntities entity records).outbox (Named entity records) := by
  unfold applyPullEntities
  generalize s.pendingOutboxIds entity = pendingIds
  induction records using List.reverseRecOn with
  | nil => exact .refl _
  | append_singleton records record ih =>
    rw [List.foldl_append, List.foldl_cons, List.foldl_nil]
    set t := records.foldl (applyPullRecord entity pendingIds) s
    have ih' : s.outbox.RefreshedFrom t.outbox (Named entity (records ++ [record])) :=
      ih.mono fun k r hr ↦ ⟨hr.1, List.mem_append_left _ hr.2.1, hr.2.2⟩
    unfold applyPullRecord
    cases hid : recordId record with
    | none => exact ih'
    | some id =>
      dsimp only
      split
      · refine ih'.trans ((remember_refreshedFrom t.outbox (entity, id) record).mono ?_)
        rintro k r ⟨rfl, rfl⟩
        exact ⟨rfl, by simp, hid⟩
      · exact ih'

theorem applyPull_refreshedFrom (s : LocalStore) (pull : Download) :
    s.outbox.RefreshedFrom (s.applyPull pull).outbox
      fun k record ↦ ∃ key : PullKey, Named key.entity (pull.records key) k record := by
  unfold applyPull
  dsimp only
  induction PullKey.all using List.reverseRecOn with
  | nil => exact .refl _
  | append_singleton keys key ih =>
    rw [List.foldl_append, List.foldl_cons, List.foldl_nil]
    exact ih.trans ((applyPullEntities_refreshedFrom _ key.entity (pull.records key)).mono
      fun k r hr ↦ ⟨key, hr⟩)

end LocalStore

namespace Device

variable {projectId : Uuid} {d d' : Device} {e e' : Entry}

theorem Fits.alike (h : d.Fits e) (ha : e.Alike e') : d.Fits e' := by
  refine ⟨fun hsent ↦ ?_, fun hc v hv ↦ ?_⟩
  · rw [Entry.queued, ha.status]
    exact h.queued (ha.changeId ▸ hsent)
  · rw [ha.key]
    exact h.saved (ha.inConflict ▸ hc) v (ha.outcome ▸ hv)

theorem Fits.mono (h : d.Fits e) (hsent : d'.sent ⊆ d.sent)
    (hserver : ∀ k, d.server k ≤ d'.server k) (hphase : d'.phase = d.phase ∨ d'.phase = .idle) :
    d'.Fits e := by
  refine ⟨fun hs ↦ h.queued (hsent hs), fun hc v hv ↦ ?_⟩
  obtain ⟨hle, hcovers⟩ := h.saved hc v hv
  refine ⟨hle.trans (hserver e.key), ?_⟩
  rcases hphase with hp | hp
  · rw [hp]
    exact hcovers
  · rw [hp]
    trivial

theorem fits_of_queued (hq : e.queued = true) : d.Fits e := by
  refine ⟨fun _ ↦ hq, fun hc ↦ ?_⟩
  simp only [Entry.queued, Entry.inConflict, Bool.and_eq_true, decide_eq_true_eq] at hq hc
  exact absurd hc.1 hq

theorem sent_after (d : Device) (tx : Transaction) (store : LocalStore) :
    (d.after tx store).sent ⊆ d.sent :=
  List.filter_sublist.subset

theorem phase_after (d : Device) (tx : Transaction) (store : LocalStore) :
    (d.after tx store).phase = d.phase ∨ (d.after tx store).phase = .idle := by
  cases tx <;> first | exact Or.inl rfl | exact Or.inr rfl

theorem Sound.after (h : d.Sound) {tx : Transaction} {store : LocalStore}
    (hd : store.outbox.Distinct)
    (heach : d.store.outbox.EachFrom store.outbox (d.after tx store).Fits) :
    (d.after tx store).Sound := by
  refine ⟨hd, fun e' he' ↦ ?_, ?_, ?_⟩
  · rcases heach e' he' with ⟨e, he, ha⟩ | hfits
    · exact ((h.fits e he).mono (d.sent_after tx store) (fun _ ↦ le_rfl)
        (d.phase_after tx store)).alike ha
    · exact hfits
  · rcases d.phase_after tx store with hp | hp
    · rw [hp]
      exact h.within
    · rw [hp]
      trivial
  · rcases h.turns with hs | hp
    · left
      exact List.subset_nil.mp (hs ▸ d.sent_after tx store)
    · right
      rcases d.phase_after tx store with ha | ha
      · exact ha.trans hp
      · exact ha

theorem eachFrom_acknowledged {s s' : LocalStore} {result : ChangeResult}
    (h : LocalStore.Acknowledged s result s') (P : Entry → Prop) :
    s.outbox.EachFrom s'.outbox P := by
  cases h with
  | passed => exact fun e he ↦ Or.inl ⟨e, he, .refl e⟩
  | applied => exact Outbox.eachFrom_filter _ _ _
  | settled => exact Outbox.eachFrom_filter _ _ _
  | advanced => exact Outbox.eachFrom_update fun e _ _ ↦ Or.inl (e.alike_advanced _ _)

theorem takeServerCopy_outbox {s : LocalStore} {record : Dict} (hd : s.outbox.Distinct)
    (he : e ∈ s.outbox) (hid : recordId record = some e.entityId) :
    (s.takeServerCopy e record).outbox = s.outbox.deleteOutboxIds [e.changeId] := by
  have hfree : e.entityId ∉ (⟨s.rows, s.outbox.deleteOutboxIds [e.changeId], s.watermark⟩ :
      LocalStore).pendingOutboxIds e.entity := by
    rw [LocalStore.mem_pendingOutboxIds, Option.not_isSome_iff_eq_none]
    refine (Table.find_eq_none Entry.key).mpr fun e' he' hk ↦ ?_
    obtain ⟨hin, hne⟩ := List.mem_filter.mp he'
    have hsame := hd.eq_of_key hin he hk
    simp [hsame] at hne
  simp only [LocalStore.takeServerCopy, LocalStore.applyPullEntities, List.foldl_cons,
    List.foldl_nil, LocalStore.applyPullRecord, hid, if_neg hfree]
  rfl

theorem requireConflict_some {s : LocalStore} {changeId : Uuid} {expected : Option ℤ}
    (h : s.requireConflict changeId expected = some e) :
    e ∈ s.outbox ∧ e.changeId = changeId ∧ e.inConflict = true := by
  obtain ⟨hfind, -⟩ := Option.filter_eq_some_iff.mp h
  have hp := List.find?_some hfind
  simp only [Bool.and_eq_true, decide_eq_true_eq] at hp
  exact ⟨List.mem_of_find?_eq_some hfind, hp⟩

theorem normalizeServerRecord_id {record : Dict}
    (h : LocalStore.normalizeServerRecord projectId e = some record) :
    recordId record = some e.entityId := by
  obtain ⟨saved, -, h⟩ := Option.bind_eq_some_iff.mp h
  split at h
  · cases h
  · rename_i hid
    split at h
    · cases h
    · split at h
      · cases h
      · obtain rfl := Option.some.inj h
        have hget : (saved.set .projectId (.uuid projectId)).get .id = .uuid e.entityId := by
          rw [Dict.get, Dict.set_of_ne _ _ (by decide)]
          exact not_not.mp hid
        simp [recordId, hget]

section Resolutions

variable {s s' : LocalStore} {changeId : Uuid} {expected : Option ℤ} {merged : Dict}
  {t : LocalStore.Stamp}

theorem keepMine_some (h : s.keepMine changeId expected t = some s') :
    ∃ e ∈ s.outbox, e.changeId = changeId ∧ e.inConflict = true ∧ ∃ version,
      s' = { s with
        outbox := s.outbox.replaceOutboxEntry
          (LocalStore.draft e.key e.op (some version) e.record t) true } := by
  obtain ⟨e, he, h⟩ := Option.bind_eq_some_iff.mp h
  obtain ⟨saved, -, h⟩ := Option.bind_eq_some_iff.mp h
  obtain ⟨current, -, h⟩ := Option.bind_eq_some_iff.mp h
  obtain ⟨hmem, hid, hc⟩ := requireConflict_some he
  exact ⟨e, hmem, hid, hc, max saved current, (Option.some.inj h).symm⟩

theorem useServer_some (h : s.useServer projectId changeId expected = some s') :
    ∃ e ∈ s.outbox, e.changeId = changeId ∧ e.inConflict = true ∧ ∃ record,
      recordId record = some e.entityId ∧
        s' = { s.takeServerCopy e record with watermark := 0 } := by
  obtain ⟨e, he, h⟩ := Option.bind_eq_some_iff.mp h
  obtain ⟨record, hrecord, h⟩ := Option.bind_eq_some_iff.mp h
  obtain ⟨hmem, hid, hc⟩ := requireConflict_some he
  exact ⟨e, hmem, hid, hc, record, normalizeServerRecord_id hrecord, (Option.some.inj h).symm⟩

theorem merge_some (h : s.merge projectId changeId expected merged t = some s') :
    ∃ e ∈ s.outbox, e.changeId = changeId ∧ e.inConflict = true ∧ ∃ record version,
      recordId record = some e.entityId ∧
        s' = { s.takeServerCopy e record with
          outbox := (s.takeServerCopy e record).outbox.replaceOutboxEntry
            (LocalStore.draft e.key .upsert (some version) (merged.set .id (.uuid e.entityId)) t)
            true
          watermark := 0 } := by
  obtain ⟨e, he, h⟩ := Option.bind_eq_some_iff.mp h
  obtain ⟨record, hrecord, h⟩ := Option.bind_eq_some_iff.mp h
  obtain ⟨version, -, h⟩ := Option.bind_eq_some_iff.mp h
  obtain ⟨current, -, h⟩ := Option.bind_eq_some_iff.mp h
  obtain ⟨hmem, hid, hc⟩ := requireConflict_some he
  split at h
  · cases h
  · exact ⟨e, hmem, hid, hc, record, version, normalizeServerRecord_id hrecord,
      (Option.some.inj h).symm⟩

end Resolutions

/-- What the resolution of a conflict does to the outbox: its entry goes, and a new pending one may
take its place. -/
inductive Resolved (s : LocalStore) (e : Entry) : Option Outbox.Draft → LocalStore → Prop
  | requeued {s' : LocalStore} {dr : Outbox.Draft} (key : dr.key = e.key)
      (outbox : s'.outbox = s.outbox.insertEntry dr dr.baseVersion) : Resolved s e (some dr) s'
  | dropped {s' : LocalStore} (outbox : s'.outbox = s.outbox.deleteOutboxIds [e.changeId]) :
      Resolved s e none s'
  | merged {s' : LocalStore} {dr : Outbox.Draft} (key : dr.key = e.key)
      (outbox : s'.outbox =
        Outbox.insertEntry (s.outbox.deleteOutboxIds [e.changeId]) dr dr.baseVersion) :
      Resolved s e (some dr) s'

theorem keepMine_resolved {s s' : LocalStore} {changeId : Uuid} {expected : Option ℤ}
    {t : LocalStore.Stamp} (h : s.keepMine changeId expected t = some s') :
    ∃ e ∈ s.outbox, e.changeId = changeId ∧ e.inConflict = true ∧
      ∃ dr, dr.changeId = t.changeId ∧ Resolved s e (some dr) s' := by
  obtain ⟨e, hmem, hid, hc, version, rfl⟩ := keepMine_some h
  exact ⟨e, hmem, hid, hc, LocalStore.draft e.key e.op (some version) e.record t, rfl,
    .requeued rfl rfl⟩

theorem useServer_resolved {s s' : LocalStore} {changeId : Uuid} {expected : Option ℤ}
    (hd : s.outbox.Distinct) (h : s.useServer projectId changeId expected = some s') :
    ∃ e ∈ s.outbox, e.changeId = changeId ∧ e.inConflict = true ∧ Resolved s e none s' := by
  obtain ⟨e, hmem, hid, hc, record, hrecord, rfl⟩ := useServer_some h
  exact ⟨e, hmem, hid, hc, .dropped (takeServerCopy_outbox hd hmem hrecord)⟩

theorem merge_resolved {s s' : LocalStore} {changeId : Uuid} {expected : Option ℤ} {merged : Dict}
    {t : LocalStore.Stamp} (hd : s.outbox.Distinct)
    (h : s.merge projectId changeId expected merged t = some s') :
    ∃ e ∈ s.outbox, e.changeId = changeId ∧ e.inConflict = true ∧
      ∃ dr, dr.changeId = t.changeId ∧ Resolved s e (some dr) s' := by
  obtain ⟨e, hmem, hid, hc, record, version, hrecord, rfl⟩ := merge_some h
  refine ⟨e, hmem, hid, hc, LocalStore.draft e.key .upsert (some version)
    (merged.set .id (.uuid e.entityId)) t, rfl, .merged rfl ?_⟩
  rw [← takeServerCopy_outbox hd hmem hrecord]
  rfl

theorem Resolved.distinct {s s' : LocalStore} {dr : Option Outbox.Draft}
    (h : Resolved s e dr s') (hd : s.outbox.Distinct)
    (hfresh : ∀ d ∈ dr, ∀ e ∈ s.outbox, e.changeId ≠ d.changeId) : s'.outbox.Distinct := by
  cases h with
  | requeued key outbox =>
    rw [outbox]
    exact hd.insertEntry _ (hfresh _ rfl)
  | dropped outbox =>
    rw [outbox]
    exact hd.filter _
  | merged key outbox =>
    rw [outbox]
    exact (hd.filter _).insertEntry _ fun e he ↦ hfresh _ rfl e (List.mem_filter.mp he).1

theorem Resolved.eachFrom {s s' : LocalStore} {dr : Option Outbox.Draft}
    (h : Resolved s e dr s') (d : Device) : s.outbox.EachFrom s'.outbox d.Fits := by
  have hnew : ∀ dr : Outbox.Draft, d.Fits (dr.entry dr.baseVersion) := fun dr ↦
    fits_of_queued rfl
  cases h with
  | requeued key outbox =>
    rw [outbox]
    exact Outbox.eachFrom_insertEntry (hnew _)
  | dropped outbox =>
    rw [outbox]
    exact Outbox.eachFrom_filter _ _ _
  | merged key outbox =>
    rw [outbox]
    exact (Outbox.eachFrom_filter _ _ _).trans (Outbox.eachFrom_insertEntry (hnew _))
      fun _ _ ha hf ↦ hf.alike ha

theorem Resolved.entry {s s' : LocalStore} {dr : Option Outbox.Draft} (h : Resolved s e dr s')
    (hd : s.outbox.Distinct) (he : e ∈ s.outbox) {k : EntityKey} (hk : e.key ≠ k) :
    s'.outbox.entry k = s.outbox.entry k := by
  have hdelete : Outbox.entry (s.outbox.deleteOutboxIds [e.changeId]) k = s.outbox.entry k := by
    refine Table.find_filter Entry.key k s.outbox fun e' he' hk' ↦ ?_
    have hne : e'.changeId ≠ e.changeId := fun hid ↦ hk (hd.eq_of_id he' he hid ▸ hk')
    simp [hne]
  cases h with
  | requeued key outbox => rw [outbox, Outbox.entry_insertEntry, if_neg (key ▸ hk)]
  | dropped outbox => rw [outbox, hdelete]
  | merged key outbox => rw [outbox, Outbox.entry_insertEntry, if_neg (key ▸ hk), hdelete]

/-- Every transaction of a device keeps it sound. -/
theorem Sound.commit (h : d.Sound) {tx : Transaction} {store : LocalStore} (hp : d.Permits tx)
    (hc : d.store.commit projectId tx = some store) : (d.after tx store).Sound := by
  have hd := h.distinct
  cases tx with
  | edit op t =>
    have hedit := LocalStore.edit_edited hd hc
    refine h.after (hedit.distinct hd hp.1) ?_
    cases hedit with
    | rewritten => exact Outbox.eachFrom_update fun e _ _ ↦ Or.inl (e.alike_rewrite _ _)
    | queued => exact Outbox.eachFrom_insertEntry (fits_of_queued rfl)
    | discarded => exact Outbox.eachFrom_filter _ _ _
  | markAttempted ids now =>
    obtain rfl := Option.some.inj hc
    exact h.after (hd.update (fun _ ↦ rfl) fun _ ↦ rfl)
      (Outbox.eachFrom_update fun e _ _ ↦ Or.inl (e.alike_attempted now))
  | acknowledge results =>
    obtain ⟨hd', heach⟩ := LocalStore.acknowledgeAcceptedResults_induction
      (P := fun s ↦ d.store.outbox.EachFrom s.outbox (d.after (.acknowledge results) store).Fits)
      (fun s r s' _ _ hs hack ↦ hs.trans (eachFrom_acknowledged hack _)
        fun _ _ ha hf ↦ hf.alike ha) hd (fun e he ↦ Or.inl ⟨e, he, .refl e⟩) hc
    exact h.after hd' heach
  | deleteIds ids =>
    obtain rfl := Option.some.inj hc
    exact h.after (hd.filter _) (Outbox.eachFrom_filter _ _ _)
  | deferId changeId err retryAfter now =>
    obtain rfl := Option.some.inj hc
    exact h.after (hd.update (fun _ ↦ rfl) fun _ ↦ rfl)
      (Outbox.eachFrom_update fun e _ _ ↦ Or.inr (fits_of_queued rfl))
  | blockId changeId err now =>
    obtain rfl := Option.some.inj hc
    obtain ⟨hsent, hserver⟩ := hp
    have hidle : d.phase = .idle := h.turns.resolve_left (List.ne_nil_of_mem hsent)
    refine h.after (hd.update (fun _ ↦ rfl) fun _ ↦ rfl)
      (Outbox.eachFrom_update fun e he hsel ↦ Or.inr ⟨fun hs ↦ ?_, fun _ v hv ↦ ⟨?_, ?_⟩⟩)
    · simp only [Bool.and_eq_true, decide_eq_true_eq] at hsel
      have hs' : e.changeId ∈ d.sent.filter (· ∉ [changeId]) := hs
      simp [hsel.1] at hs'
    · simp only [Bool.and_eq_true, decide_eq_true_eq] at hsel
      exact hserver e he hsel.1 v hv
    · have hphase : (d.after (.blockId changeId err now) { d.store with
          outbox := d.store.outbox.blockOutboxId changeId err now }).phase = d.phase := rfl
      rw [hphase, hidle]
      trivial
  | releaseAuthentication =>
    obtain rfl := Option.some.inj hc
    exact h.after (hd.update (fun _ ↦ rfl) fun _ ↦ rfl)
      (Outbox.eachFrom_update fun e _ _ ↦ Or.inr (fits_of_queued rfl))
  | applyPull pull =>
    obtain rfl := Option.some.inj hc
    have hfrom := LocalStore.applyPull_refreshedFrom d.store pull
    refine h.after (hfrom.refreshed.distinct hd) fun e' he' ↦ Or.inr ?_
    obtain ⟨g, ho, hg⟩ := hfrom
    rw [ho] at he'
    obtain ⟨e, he, rfl⟩ := List.mem_map.mp he'
    have hfits := h.fits e he
    have hwithin := h.within
    rw [hp] at hwithin
    refine ⟨fun hs ↦ hfits.queued (d.sent_after _ _ hs), fun hconf v hv ↦ ⟨?_, trivial⟩⟩
    rcases hg e with hsame | ⟨record, ⟨key, hk, hmem, hid⟩, hout⟩
    · have hv' : (g e).serverVersion = some v := hv
      rw [hsame] at hv'
      exact (hfits.saved hconf v hv').1
    · have hv' : (g e).serverVersion = some v := hv
      rw [hout] at hv'
      obtain rfl := Option.some.inj hv'
      have hle := hwithin key record hmem e.key.2 hid
      rw [← hk] at hle
      exact hle
  | keepMine changeId expected t =>
    obtain ⟨e, -, -, -, dr, hdr, hres⟩ := keepMine_resolved hc
    refine h.after (hres.distinct hd fun d' hd' ↦ ?_) (hres.eachFrom _)
    obtain rfl := Option.some.inj hd'
    rw [hdr]
    exact hp.1
  | useServer changeId expected =>
    obtain ⟨e, -, -, -, hres⟩ := useServer_resolved hd hc
    exact h.after (hres.distinct hd fun d' hd' ↦ by cases hd') (hres.eachFrom _)
  | merge changeId expected merged t =>
    obtain ⟨e, -, -, -, dr, hdr, hres⟩ := merge_resolved hd hc
    refine h.after (hres.distinct hd fun d' hd' ↦ ?_) (hres.eachFrom _)
    obtain rfl := Option.some.inj hd'
    rw [hdr]
    exact hp.1

theorem queued_of_ready {now : Time} (h : Outbox.ready now e = true) : e.queued = true := by
  simp only [Outbox.ready, Entry.queued, Bool.or_eq_true, Bool.and_eq_true,
    decide_eq_true_eq] at h ⊢
  rcases h with h | ⟨h, -⟩
  · simp [h]
  · simp [h]

theorem mem_getPendingChanges {o : Outbox} {limit : ℕ} {now : Time}
    (h : e ∈ o.getPendingChanges limit now) : e ∈ o ∧ Outbox.ready now e = true := by
  have hsorted := List.mem_of_mem_take h
  exact List.mem_filter.mp ((List.mem_insertionSort _).mp hsorted)

theorem Sound.step (h : d.Sound) {tx : Option Transaction} (hs : d.Step projectId tx d') :
    d'.Sound := by
  cases hs with
  | @server server' grows =>
    refine ⟨h.distinct, fun e he ↦ (h.fits e he).mono (List.Subset.refl _) grows (Or.inl rfl), ?_,
      h.turns⟩
    have hwithin := h.within
    cases hphase : d.phase with
    | idle => trivial
    | reading floor =>
      rw [hphase] at hwithin
      exact fun k ↦ (hwithin k).trans (grows k)
    | downloaded pull =>
      rw [hphase] at hwithin
      exact fun key record hr id hid ↦ (hwithin key record hr id hid).trans (grows _)
  | batch limit now free idle =>
    refine ⟨h.distinct, fun e he ↦ ⟨fun hsent ↦ ?_, fun hc v hv ↦ (h.fits e he).saved hc v hv⟩,
      h.within, Or.inr idle⟩
    obtain ⟨e', he', hid⟩ := List.mem_map.mp hsent
    obtain ⟨hmem, hready⟩ := mem_getPendingChanges he'
    rw [← h.distinct.eq_of_id hmem he hid]
    exact queued_of_ready hready
  | giveUp =>
    refine ⟨h.distinct, fun e he ↦ (h.fits e he).mono (by simp) (fun _ ↦ le_rfl) (Or.inr rfl),
      trivial, Or.inl rfl⟩
  | read free idle =>
    refine ⟨h.distinct, fun e he ↦ ⟨fun hsent ↦ (h.fits e he).queued hsent, fun hc v hv ↦ ?_⟩,
      fun k ↦ le_rfl, Or.inl free⟩
    have hle := ((h.fits e he).saved hc v hv).1
    exact ⟨hle, hle⟩
  | @download floor pull reading current =>
    refine ⟨h.distinct, fun e he ↦ ⟨fun hsent ↦ (h.fits e he).queued hsent, fun hc v hv ↦ ?_⟩,
      fun key record hr id hid ↦ (current key record hr id hid).2, ?_⟩
    · obtain ⟨hle, hcovers⟩ := (h.fits e he).saved hc v hv
      rw [reading] at hcovers
      refine ⟨hle, fun key hkey record hr hid ↦ ?_⟩
      have hfloor := (current key record hr e.key.2 hid).1
      rw [hkey] at hfloor
      exact hcovers.trans hfloor
    · refine Or.inl (h.turns.resolve_right ?_)
      rw [reading]
      simp
  | commit permits committed => exact h.commit permits committed

theorem Runs.sound {allowed : Device → Transaction → Prop} (h : Runs projectId allowed d d')
    (hd : d.Sound) : d'.Sound := by
  induction h with
  | refl => exact hd
  | tail _ hstep ih =>
    obtain ⟨tx, hstep, -⟩ := hstep
    exact ih.step hstep

end Device

end RiskApp.Client
