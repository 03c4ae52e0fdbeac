import Mathlib.Data.List.Sort
import RiskApp.Server.Engine

namespace RiskApp.Client

open Lib Server

abbrev EntityKey := Entity × Uuid

inductive EntryStatus
  | pending
  | retry
  | blocked
  deriving DecidableEq, Repr

structure SavedOutcome where
  serverVersion : Option ℤ := none
  serverRecord : Option Dict := none

/-- A row of the outbox. Empty texts of the table are `none`. -/
structure Entry where
  changeId : Uuid
  entity : Entity
  op : ChangeOp
  entityId : Uuid
  baseVersion : Option ℤ
  record : Dict
  status : EntryStatus := .pending
  failureKind : Option FailureKind := none
  outcome : SavedOutcome := {}
  retryCount : ℕ := 0
  nextRetryAt : Option Time := none
  lastAttemptAt : Option Time := none
  createdAt : Time

def retryDelaysSeconds : List ℕ := [2, 5, 15, 60, 300]

def retryDelay (retryCount : ℕ) : Option ℤ → ℕ
  | none => retryDelaysSeconds.getD (min retryCount (retryDelaysSeconds.length - 1)) 0
  | some seconds => (max 0 (min seconds 86400)).toNat

def microseconds (seconds : ℕ) : Time := seconds * 1000000

structure Failure where
  failureKind : FailureKind
  outcome : SavedOutcome

namespace Entry

def key (e : Entry) : EntityKey := (e.entity, e.entityId)

/-- What `get_pending_changes` hands to `sync_push`. -/
def change (e : Entry) : SyncChange where
  changeId := e.changeId
  entity := e.entity
  op := e.op
  baseVersion := e.baseVersion
  record := e.record

def inConflict (e : Entry) : Bool := e.status = .blocked && e.failureKind = some .conflict

/-- The entries that `override_base_version` and `_advance_replacement` reach. -/
def queued (e : Entry) : Bool := e.status ≠ .blocked

def rewrite (op : ChangeOp) (record : Dict) (e : Entry) : Entry :=
  { e with op := op, record := record }

def createMayExistRemotely (e : Entry) : Bool :=
  e.op = .upsert && (e.baseVersion.isSome || e.lastAttemptAt.isSome)

def withOutcome (e : Entry) (outcome : SavedOutcome) : Entry := { e with outcome := outcome }

def advanced (baseVersion : Option ℤ) (record : Dict) (e : Entry) : Entry :=
  { e with baseVersion := baseVersion, record := record }

def attempted (now : Time) (e : Entry) : Entry := { e with lastAttemptAt := some now }

def deferred (err : Failure) (retryAfterSeconds : Option ℤ) (now : Time) (e : Entry) : Entry :=
  { e with
    status := .retry
    failureKind := some err.failureKind
    outcome := err.outcome
    retryCount := e.retryCount + 1
    nextRetryAt := some (now + microseconds (retryDelay e.retryCount retryAfterSeconds))
    lastAttemptAt := some now }

def parked (err : Failure) (now : Time) (e : Entry) : Entry :=
  { e with
    status := .blocked
    failureKind := some err.failureKind
    outcome := err.outcome
    nextRetryAt := none
    lastAttemptAt := some now }

def released (e : Entry) : Entry := { e with status := .pending, nextRetryAt := none }

/-- The entry has been through a push: it is the same change, and no attempt is forgotten. -/
structure Parks (e e' : Entry) : Prop where
  change : e'.change = e.change
  entityId : e'.entityId = e.entityId
  baseVersion : e'.baseVersion = e.baseVersion
  createdAt : e'.createdAt = e.createdAt
  attempt : e.lastAttemptAt.isSome → e'.lastAttemptAt.isSome

theorem parks_attempted (now : Time) (e : Entry) : e.Parks (e.attempted now) :=
  ⟨rfl, rfl, rfl, rfl, fun _ ↦ rfl⟩

theorem parks_deferred (err : Failure) (retryAfterSeconds : Option ℤ) (now : Time) (e : Entry) :
    e.Parks (e.deferred err retryAfterSeconds now) :=
  ⟨rfl, rfl, rfl, rfl, fun _ ↦ rfl⟩

theorem parks_parked (err : Failure) (now : Time) (e : Entry) : e.Parks (e.parked err now) :=
  ⟨rfl, rfl, rfl, rfl, fun _ ↦ rfl⟩

theorem parks_released (e : Entry) : e.Parks e.released := ⟨rfl, rfl, rfl, rfl, id⟩

namespace Parks

variable {e e' : Entry}

theorem op (h : e.Parks e') : e'.op = e.op := congrArg SyncChange.op h.change

theorem changeId (h : e.Parks e') : e'.changeId = e.changeId :=
    congrArg SyncChange.changeId h.change

theorem key (h : e.Parks e') : e'.key = e.key :=
  Prod.ext (congrArg SyncChange.entity h.change) h.entityId

end Parks

end Entry

abbrev Outbox := List Entry

namespace Outbox

def oldestFirst (outbox : Outbox) : Outbox :=
  outbox.insertionSort (fun e f ↦ e.createdAt ≤ f.createdAt)

def ofKey (outbox : Outbox) (k : EntityKey) : Outbox := outbox.filter (·.key = k)

def oldestOpenEntry (outbox : Outbox) (k : EntityKey) : Option Entry :=
  (outbox.ofKey k).oldestFirst.head?

def deleteOpenEntries (outbox : Outbox) (k : EntityKey) : Outbox := outbox.filter (·.key ≠ k)

def deleteOutboxIds (outbox : Outbox) (ids : List Uuid) : Outbox :=
  outbox.filter (·.changeId ∉ ids)

def update (outbox : Outbox) (p : Entry → Bool) (f : Entry → Entry) : Outbox :=
  outbox.map (fun e ↦ if p e then f e else e)

structure Draft where
  changeId : Uuid
  now : Time
  entity : Entity
  op : ChangeOp
  entityId : Uuid
  baseVersion : Option ℤ
  record : Dict

def Draft.key (d : Draft) : EntityKey := (d.entity, d.entityId)

def Draft.entry (d : Draft) (baseVersion : Option ℤ) : Entry where
  changeId := d.changeId
  entity := d.entity
  op := d.op
  entityId := d.entityId
  baseVersion := baseVersion
  record := d.record
  createdAt := d.now

/-- The base version a squashed edit keeps. -/
def squashedBase (e : Entry) : Option ℤ :=
  if e.baseVersion = none && e.createMayExistRemotely then some 1 else e.baseVersion

def insertEntry (outbox : Outbox) (d : Draft) (baseVersion : Option ℤ) : Outbox :=
  outbox.deleteOpenEntries d.key ++ [d.entry baseVersion]

def replaceOutboxEntry (outbox : Outbox) (d : Draft) (forceRebase : Bool) : Outbox :=
  match if forceRebase then none else outbox.oldestOpenEntry d.key with
  | none => outbox.insertEntry d d.baseVersion
  | some e =>
    if e.inConflict then outbox.update (·.changeId = e.changeId) (Entry.rewrite d.op d.record)
    else outbox.insertEntry d (squashedBase e)

def overrideBaseVersion (outbox : Outbox) (k : EntityKey) : Option ℤ → Outbox
  | none => outbox
  | some bv => outbox.update (fun e ↦ e.key = k && e.queued) fun e ↦
      { e with baseVersion := if 1 ≤ bv then some bv else none }

def remoteCreateMayExist (outbox : Outbox) (k : EntityKey) : Bool :=
  (outbox.oldestOpenEntry k).any Entry.createMayExistRemotely

def ready (now : Time) (e : Entry) : Bool :=
  e.status = .pending || (e.status = .retry && e.nextRetryAt.all (· ≤ now))

/-- The entries `get_pending_changes` selects. -/
def getPendingChanges (outbox : Outbox) (limit : ℕ) (now : Time) : Outbox :=
  (oldestFirst (outbox.filter (ready now))).take (max 1 (min limit 1000))

def markOutboxIdsAttempted (outbox : Outbox) (ids : List Uuid) (now : Time) : Outbox :=
  outbox.update (·.changeId ∈ ids) (Entry.attempted now)

def deferOutboxId (outbox : Outbox) (changeId : Uuid) (err : Failure)
    (retryAfterSeconds : Option ℤ) (now : Time) : Outbox :=
  outbox.update (·.changeId = changeId) (Entry.deferred err retryAfterSeconds now)

/-- `block_outbox_id`, which refuses a transient failure. -/
def blockOutboxId (outbox : Outbox) (changeId : Uuid) (err : Failure) (now : Time) : Outbox :=
  outbox.update (fun e ↦ e.changeId = changeId && err.failureKind ≠ .transient)
    (Entry.parked err now)

def releaseAuthenticationBlocks (outbox : Outbox) : Outbox :=
  outbox.update (fun e ↦ e.status = .blocked && e.failureKind = some .authentication)
    Entry.released

/-- The open entry of an entity, once there is at most one. -/
def entry (outbox : Outbox) (k : EntityKey) : Option Entry := Table.find Entry.key k outbox

/-- No two entries share their id or their entity. -/
structure Distinct (outbox : Outbox) : Prop where
  keys : (outbox.map Entry.key).Nodup
  ids : (outbox.map Entry.changeId).Nodup

section Lemmas

variable {outbox : Outbox} {k : EntityKey} {e e' : Entry} {d : Draft}

theorem entry_some (h : outbox.entry k = some e) : e ∈ outbox ∧ e.key = k :=
  ⟨Table.mem_of_find Entry.key h, Table.key_of_find Entry.key h⟩

theorem Distinct.entry_of_mem (h : outbox.Distinct) (he : e ∈ outbox) :
    outbox.entry e.key = some e :=
  Table.find_of_mem Entry.key h.keys he

theorem Distinct.eq_of_key (h : outbox.Distinct) (he : e ∈ outbox) (he' : e' ∈ outbox)
    (hk : e.key = e'.key) : e = e' := by
  have hfind := h.entry_of_mem he
  rw [hk, h.entry_of_mem he'] at hfind
  exact (Option.some.inj hfind).symm

theorem Distinct.eq_of_id (h : outbox.Distinct) (he : e ∈ outbox) (he' : e' ∈ outbox)
    (hid : e.changeId = e'.changeId) : e = e' :=
  List.inj_on_of_nodup_map h.ids he he' hid

theorem Distinct.oldestOpenEntry_eq (h : outbox.Distinct) (k : EntityKey) :
    outbox.oldestOpenEntry k = outbox.entry k := by
  rw [oldestOpenEntry, ofKey, Table.filter_key Entry.key h.keys]
  cases hk : outbox.entry k with
  | none => simp [entry] at hk; simp [hk, oldestFirst]
  | some e => simp [entry] at hk; simp [hk, oldestFirst]

theorem remoteCreateMayExist_eq (h : outbox.Distinct) (k : EntityKey) :
    outbox.remoteCreateMayExist k = (outbox.entry k).any Entry.createMayExistRemotely := by
  rw [remoteCreateMayExist, h.oldestOpenEntry_eq]

theorem entry_insertEntry (outbox : Outbox) (d : Draft) (b : Option ℤ) (k : EntityKey) :
    (outbox.insertEntry d b).entry k = if d.key = k then some (d.entry b) else outbox.entry k :=
  Table.find_upsert Entry.key k (d.entry b) outbox

theorem entry_update {p : Entry → Bool} {f : Entry → Entry} (hf : ∀ e, (f e).key = e.key)
    (outbox : Outbox) (k : EntityKey) :
    (outbox.update p f).entry k = (outbox.entry k).map (fun e ↦ if p e then f e else e) := by
  refine Table.find_map Entry.key k (fun e ↦ ?_) outbox
  split
  · exact hf e
  · rfl

theorem entry_update_self {f : Entry → Entry} (hf : ∀ e, (f e).key = e.key)
    (he : outbox.entry k = some e) :
    (outbox.update (·.changeId = e.changeId) f).entry k = some (f e) := by
  rw [entry_update hf, he]
  simp

theorem Distinct.entry_update_other (hd : outbox.Distinct) (he : e ∈ outbox) (hk : e.key ≠ k)
    {f : Entry → Entry} (hf : ∀ e, (f e).key = e.key) :
    (outbox.update (·.changeId = e.changeId) f).entry k = outbox.entry k := by
  rw [entry_update hf]
  cases hentry : outbox.entry k with
  | none => rfl
  | some e' =>
    obtain ⟨he', hk'⟩ := entry_some hentry
    have hne : e'.changeId ≠ e.changeId := fun hid ↦ hk (hd.eq_of_id he' he hid ▸ hk')
    simp [hne]

theorem entry_deleteOpenEntries (outbox : Outbox) (k k' : EntityKey) :
    (outbox.deleteOpenEntries k').entry k = if k = k' then none else outbox.entry k := by
  split
  · rename_i hk
    refine (Table.find_eq_none Entry.key).mpr fun e he ↦ ?_
    simpa [hk] using (List.mem_filter.mp he).2
  · rename_i hk
    exact Table.find_filter Entry.key k outbox fun e _ he ↦ by simpa [he] using hk

theorem Distinct.update (h : outbox.Distinct) {p : Entry → Bool} {f : Entry → Entry}
    (hk : ∀ e, (f e).key = e.key) (hid : ∀ e, (f e).changeId = e.changeId) :
    (outbox.update p f).Distinct := by
  have hkeys : (outbox.update p f).map Entry.key = outbox.map Entry.key := by
    rw [Outbox.update, List.map_map]
    refine List.map_congr_left fun e _ ↦ ?_
    by_cases hp : p e <;> simp [hp, hk]
  have hids : (outbox.update p f).map Entry.changeId = outbox.map Entry.changeId := by
    rw [Outbox.update, List.map_map]
    refine List.map_congr_left fun e _ ↦ ?_
    by_cases hp : p e <;> simp [hp, hid]
  exact ⟨hkeys ▸ h.keys, hids ▸ h.ids⟩

theorem Distinct.filter (h : outbox.Distinct) (p : Entry → Bool) :
    Distinct (outbox.filter p) :=
  ⟨h.keys.sublist (List.filter_sublist.map _), h.ids.sublist (List.filter_sublist.map _)⟩

theorem mem_insertEntry {b : Option ℤ} (h : e ∈ outbox.insertEntry d b) :
    e = d.entry b ∨ e ∈ outbox ∧ e.key ≠ d.key := by
  rcases List.mem_append.mp h with h | h
  · exact Or.inr (by simpa [deleteOpenEntries] using h)
  · exact Or.inl (List.mem_singleton.mp h)

theorem Distinct.insertEntry (h : outbox.Distinct) (b : Option ℤ)
    (hfresh : ∀ e ∈ outbox, e.changeId ≠ d.changeId) : (outbox.insertEntry d b).Distinct := by
  refine ⟨Table.nodup_upsert Entry.key h.keys (d.entry b), ?_⟩
  rw [Outbox.insertEntry, List.map_append, List.map_cons, List.map_nil]
  refine List.nodup_append.mpr ⟨(h.filter _).ids, by simp, ?_⟩
  intro i hi j hj he
  obtain ⟨e, hmem, rfl⟩ := List.mem_map.mp hi
  exact hfresh e (List.mem_filter.mp hmem).1 (he.trans (List.mem_singleton.mp hj))

theorem mem_update {p : Entry → Bool} {f : Entry → Entry} (h : e' ∈ outbox.update p f) :
    ∃ e ∈ outbox, (p e = true ∧ e' = f e) ∨ (p e = false ∧ e' = e) := by
  obtain ⟨e, he, rfl⟩ := List.mem_map.mp h
  refine ⟨e, he, ?_⟩
  cases hp : p e <;> simp

/-- What queueing a change does: the open entry is replaced, or a conflict keeps its entry. -/
theorem replaceOutboxEntry_cases (h : outbox.Distinct) (d : Draft) (forceRebase : Bool) :
    (∃ e, outbox.entry d.key = some e ∧ e.inConflict = true ∧ forceRebase = false ∧
      outbox.replaceOutboxEntry d forceRebase =
        outbox.update (·.changeId = e.changeId) (Entry.rewrite d.op d.record)) ∨
    (∃ e, outbox.entry d.key = some e ∧ e.inConflict = false ∧ forceRebase = false ∧
      outbox.replaceOutboxEntry d forceRebase = outbox.insertEntry d (squashedBase e)) ∨
    ((forceRebase = true ∨ outbox.entry d.key = none) ∧
      outbox.replaceOutboxEntry d forceRebase = outbox.insertEntry d d.baseVersion) := by
  unfold replaceOutboxEntry
  rw [h.oldestOpenEntry_eq]
  cases forceRebase with
  | true => exact Or.inr (Or.inr ⟨Or.inl rfl, rfl⟩)
  | false =>
    cases he : outbox.entry d.key with
    | none => exact Or.inr (Or.inr ⟨Or.inr rfl, rfl⟩)
    | some e =>
      cases hc : e.inConflict with
      | true => exact Or.inl ⟨e, rfl, hc, rfl, by simp [hc]⟩
      | false => exact Or.inr (Or.inl ⟨e, rfl, hc, rfl, by simp [hc]⟩)

end Lemmas

end Outbox

end RiskApp.Client
