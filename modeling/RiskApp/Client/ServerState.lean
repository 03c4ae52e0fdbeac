import Mathlib.Data.List.Induction
import RiskApp.Client.Conversions
import RiskApp.Client.Services
import RiskApp.Server.Pull

namespace RiskApp

open Lib

def Server.PullKey.entity : Server.PullKey → Entity
  | .risks => .risk
  | .opportunities => .opportunity
  | .actions => .action
  | .assessments => .assessment
  | .helpdeskTickets => .helpdeskTicket

namespace Client

open Server

/-- `int(record.get("version") or 0)`, none when it raises. -/
def versionOf (record : Dict) : Option ℤ := intOr (record.get .version) 0

/-- What `versionOf` reads; the transactions of `Exchange` raise where it reads nothing. -/
def recordVersion (record : Dict) : ℤ := (versionOf record).getD 0

/-- The version of the row of a pulled record; `action_from_mapping` and
`assessment_from_mapping` read it in their own way. -/
def pulledVersion (entity : Entity) (record : Dict) : ℤ :=
  match entity with
  | .action | .assessment => optIntOr (record.get .version) 0
  | _ => recordVersion record

section Versions

variable {record : Dict} {n : ℤ}

theorem versionOf_int (h : record.get .version = .int n) : versionOf record = some n := by
  by_cases hn : n = 0
  · simp [versionOf, intOr, intOf, h, hn, Val.orElse, Val.truthy]
  · simp [versionOf, intOr, intOf, h, hn, Val.orElse, Val.truthy]

theorem recordVersion_int (h : record.get .version = .int n) : recordVersion record = n := by
  rw [recordVersion, versionOf_int h, Option.getD_some]

theorem pulledVersion_int (entity : Entity) (h : record.get .version = .int n) :
    pulledVersion entity record = n := by
  have hopt : optIntOr (record.get .version) 0 = n := by
    rw [h, optIntOr]
    split
    · rename_i hn
      exact hn.symm
    · rfl
  cases entity with
  | risk | opportunity | helpdeskTicket => exact recordVersion_int h
  | action | assessment => exact hopt

end Versions

def recordDeleted (record : Dict) : Bool := (record.get .isDeleted).truthy

def recordId (record : Dict) : Option Uuid :=
  match record.get .id with
  | .uuid u => some u
  | _ => none

/-- What a pull brought: the merged pages. -/
structure Download where
  records : PullKey → List Dict
  serverSequence : ℕ

namespace LocalStore

def pendingOutboxIds (s : LocalStore) (entity : Entity) : List Uuid :=
  (s.outbox.filter (·.entity = entity)).map Entry.entityId

def rememberConflictServerRecord (o : Outbox) (k : EntityKey) (record : Dict) : Outbox :=
  o.update (fun e ↦ e.key = k && e.inConflict)
    (·.withOutcome ⟨some (recordVersion record), some record⟩)

def applyPullRecord (entity : Entity) (pendingIds : List Uuid) (s : LocalStore) (record : Dict) :
    LocalStore :=
  match recordId record with
  | none => s
  | some id =>
    if id ∈ pendingIds then
      { s with outbox := rememberConflictServerRecord s.outbox (entity, id) record }
    else s.upsertRow ⟨entity, id, pulledVersion entity record, recordDeleted record⟩

/-- `_apply_pull_entities` and its two siblings. -/
def applyPullEntities (s : LocalStore) (entity : Entity) (records : List Dict) : LocalStore :=
  records.foldl (applyPullRecord entity (s.pendingOutboxIds entity)) s

def applyPull (s : LocalStore) (pull : Download) : LocalStore :=
  { PullKey.all.foldl (fun s key ↦ s.applyPullEntities key.entity (pull.records key)) s with
    watermark := pull.serverSequence }

def checkAckIdentity (projectId : Uuid) (entityId : Uuid) (record : Dict) : Bool :=
  (!(record.get .id).truthy || record.get .id = .uuid entityId) &&
    (!(record.get .projectId).truthy || record.get .projectId = .uuid projectId)

def applyPushAcknowledgement (projectId : Uuid) (s : LocalStore) (k : EntityKey)
    (serverVersion : Option ℤ) : Option Dict → Option LocalStore
  | some record =>
    if !checkAckIdentity projectId k.2 record then none
    else if serverVersion.any (· ≠ recordVersion record) then none
    else some (s.applyPullEntities k.1 [record.set .id (.uuid k.2)])
  | none => match serverVersion with
    | none => some s
    | some v => some
        { s with rows := s.rows.map (fun r ↦ if r.key = k then { r with version := v } else r) }

def strictVersion (record : Dict) : Option ℤ :=
  match record.get .version with
  | .int n => some n
  | _ => none

def advancePushAcknowledgement (projectId : Uuid) (s : LocalStore) (k : EntityKey)
    (serverVersion : Option ℤ) (serverRecord : Option Dict) : Option LocalStore :=
  let record := serverRecord.getD Dict.empty
  if !checkAckIdentity projectId k.2 record then none
  else if serverVersion.isSome && (strictVersion record).isSome &&
      serverVersion ≠ strictVersion record then none
  else match serverVersion.or (strictVersion record) with
    | none => some s
    | some v => some
        { s with
          rows := s.rows.map (fun r ↦ if r.key = k then
          { r with version := max r.version v } else r) }

end LocalStore

section Results

variable (r : ChangeResult)

def serverVersion : Option ℤ := r.body.serverVersion.join.map Nat.cast

def serverRecord : Option Dict := r.body.serverRecord.join

def acknowledgedVersion : Option ℤ :=
  if r.replayed then (r.receiptServerVersion.map Nat.cast).or (serverVersion r)
  else serverVersion r

def hasServerState : Bool := (serverRecord r).isSome || (serverVersion r).isSome

end Results

namespace LocalStore

def acknowledgeSent (projectId : Uuid) (s : LocalStore) (sent : Entry) (result : ChangeResult) :
    Option LocalStore :=
  if result.entity ≠ sent.entity || result.entityId.any (· ≠ sent.entityId) then none
  else { s with outbox := s.outbox.deleteOutboxIds [sent.changeId] }.applyPushAcknowledgement
    projectId sent.key (serverVersion result) (serverRecord result)

def withServerCode (entity : Entity) (record : Dict) : Option Dict → Dict
  | some serverRecord =>
    if entity.scored && serverRecord.has .code then record.set .code (serverRecord.get .code)
    else record
  | none => record

/-- A replay's current row may hold later edits; only its identity is kept. -/
def replayIdentity (record : Dict) : Dict := fun a ↦
  if a ∈ [.id, .projectId, .code] then record a else none

def advancedBase (base version : Option ℤ) : Option ℤ :=
  let b := max (base.getD 0) (version.getD 0)
  if b = 0 then none else some b

/-- `_advance_replacement`; a result without a replacement is passed over. -/
def advanceReplacement (projectId : Uuid) (s : LocalStore) (result : ChangeResult) :
    Option LocalStore :=
  match result.entityId with
  | none => some s
  | some entityId =>
    let k := (result.entity, entityId)
    match (Outbox.oldestFirst (s.outbox.filter (fun e ↦ e.key = k && e.queued))).head? with
    | none => some s
    | some replacement =>
      let version := acknowledgedVersion result
      let record := withServerCode k.1 replacement.record (serverRecord result)
      let s := { s with
        outbox := s.outbox.update (·.changeId = replacement.changeId)
          (Entry.advanced (advancedBase replacement.baseVersion version) record) }
      let kept := if result.replayed && version ≠ serverVersion result
        then (serverRecord result).map replayIdentity else serverRecord result
      s.advancePushAcknowledgement projectId k version kept

def acknowledgeResult (projectId : Uuid) (s : LocalStore) (result : ChangeResult) :
    Option LocalStore :=
  if result.status ≠ .accepted then some s
  else match s.outbox.find? (·.changeId = result.changeId) with
    | some sent => s.acknowledgeSent projectId sent result
    | none => s.advanceReplacement projectId result

/-- `acknowledge_accepted_results`, one transaction. -/
def acknowledgeAcceptedResults (projectId : Uuid) (s : LocalStore) (results : List ChangeResult) :
    Option LocalStore :=
  results.foldlM (acknowledgeResult projectId) s

/-- `_require_conflict` and `_require_unchanged_server_copy`. -/
def requireConflict (s : LocalStore) (changeId : Uuid) (expectedServerVersion : Option ℤ) :
    Option Entry :=
  (s.outbox.find? (fun e ↦ e.changeId = changeId && e.inConflict)).filter fun e ↦
    expectedServerVersion.all (fun v ↦ e.outcome.serverVersion = some v)

def keepMine (s : LocalStore) (changeId : Uuid) (expected : Option ℤ) (t : Stamp) :
    Option LocalStore := do
  let e ← s.requireConflict changeId expected
  let saved ← e.outcome.serverVersion.filter (1 ≤ ·)
  let current ← s.version e.key
  let target := max saved current
  return { s with
    outbox := s.outbox.replaceOutboxEntry (draft e.key e.op (some target) e.record t) true }

/-- `_normalize_server_record`, without the repair of records from older servers. -/
def normalizeServerRecord (projectId : Uuid) (e : Entry) : Option Dict := do
  let record ← e.outcome.serverRecord
  if record.get .id ≠ .uuid e.entityId then none
  else if (record.get .projectId).truthy && record.get .projectId ≠ .uuid projectId then none
  else if e.entity.scored &&
      Val.orElse (record.get .type) (.str e.entity.name) ≠ .str e.entity.name then none
  else some (record.set .projectId (.uuid projectId))

def takeServerCopy (s : LocalStore) (e : Entry) (record : Dict) : LocalStore :=
  { s with outbox := s.outbox.deleteOutboxIds [e.changeId] }.applyPullEntities e.entity [record]

def useServer (projectId : Uuid) (s : LocalStore) (changeId : Uuid) (expected : Option ℤ) :
    Option LocalStore := do
  let e ← s.requireConflict changeId expected
  let record ← normalizeServerRecord projectId e
  return { s.takeServerCopy e record with watermark := 0 }

def deletedRecord (record : Dict) : Bool :=
  recordDeleted record || match record.get .status with
    | .str status => Text.lower status.toList = "deleted".toList
    | _ => false

/-- `_merge`; `merged` is the record that `merged_record` builds from the choices of the user. -/
def merge (projectId : Uuid) (s : LocalStore) (changeId : Uuid) (expected : Option ℤ)
    (merged : Dict) (t : Stamp) : Option LocalStore := do
  let e ← s.requireConflict changeId expected
  let record ← normalizeServerRecord projectId e
  let version ← e.outcome.serverVersion.filter (fun v ↦ 1 ≤ v && recordVersion record = v)
  let current ← s.version e.key
  if version < current || e.op ≠ .upsert || deletedRecord e.record || deletedRecord record then none
  else
    let s := s.takeServerCopy e record
    return { s with
      outbox := s.outbox.replaceOutboxEntry
        (draft e.key .upsert (some version) (merged.set .id (.uuid e.entityId)) t) true
      watermark := 0 }

end LocalStore

namespace Outbox

def Refreshed (o o' : Outbox) : Prop :=
  ∃ g : Entry → SavedOutcome, o' = o.map (fun e ↦ e.withOutcome (g e))

namespace Refreshed

variable {o o' o'' : Outbox}

theorem refl (o : Outbox) : o.Refreshed o := ⟨Entry.outcome, (List.map_id o).symm⟩

theorem trans (h : o.Refreshed o') (h' : o'.Refreshed o'') : o.Refreshed o'' := by
  obtain ⟨g, rfl⟩ := h
  obtain ⟨g', rfl⟩ := h'
  refine ⟨fun e ↦ g' (e.withOutcome (g e)), ?_⟩
  rw [List.map_map]
  rfl

theorem entry (h : o.Refreshed o') (k : EntityKey) :
    ∃ g : Entry → SavedOutcome, o'.entry k = (o.entry k).map (fun e ↦ e.withOutcome (g e)) := by
  obtain ⟨g, rfl⟩ := h
  refine ⟨g, Table.find_map Entry.key k (fun e ↦ ?_) o⟩
  rfl

theorem isSome_entry (h : o.Refreshed o') (k : EntityKey) :
    (o'.entry k).isSome = (o.entry k).isSome := by
  obtain ⟨g, hg⟩ := h.entry k
  rw [hg, Option.isSome_map]

theorem distinct (h : o.Refreshed o') (hd : o.Distinct) : o'.Distinct := by
  obtain ⟨g, rfl⟩ := h
  constructor
  · rw [List.map_map]
    exact hd.keys
  · rw [List.map_map]
    exact hd.ids

theorem mem (h : o.Refreshed o') {e' : Entry} (he : e' ∈ o') :
    ∃ e ∈ o, ∃ out, e' = e.withOutcome out := by
  obtain ⟨g, rfl⟩ := h
  obtain ⟨e, hmem, rfl⟩ := List.mem_map.mp he
  exact ⟨e, hmem, g e, rfl⟩

end Refreshed

end Outbox

namespace LocalStore

variable {s s' : LocalStore} {k : EntityKey} {entity : Entity} {record : Dict} {records : List Dict}

theorem remember_refreshed (o : Outbox) (k : EntityKey) (record : Dict) :
    o.Refreshed (rememberConflictServerRecord o k record) := by
  refine ⟨fun e ↦ if e.key = k && e.inConflict then ⟨some (recordVersion record), some record⟩
    else e.outcome, List.map_congr_left fun e _ ↦ ?_⟩
  by_cases hc : (decide (e.key = k) && e.inConflict) = true
  · simp only [hc, if_true]
  · simp only [hc]
    rfl

theorem mem_pendingOutboxIds {id : Uuid} :
    id ∈ s.pendingOutboxIds entity ↔ (s.outbox.entry (entity, id)).isSome := by
  constructor
  · intro h
    obtain ⟨e, he, rfl⟩ := List.mem_map.mp h
    obtain ⟨hmem, hentity⟩ := List.mem_filter.mp he
    exact Table.find_isSome Entry.key hmem (Prod.ext (of_decide_eq_true hentity) rfl)
  · intro h
    obtain ⟨e, he⟩ := Option.isSome_iff_exists.mp h
    obtain ⟨hmem, hkey⟩ := Outbox.entry_some he
    refine List.mem_map.mpr ⟨e, List.mem_filter.mpr ⟨hmem, ?_⟩, congrArg Prod.snd hkey⟩
    exact decide_eq_true (congrArg Prod.fst hkey)

def pulledRow (entity : Entity) (id : Uuid) (record : Dict) : LocalRow :=
  ⟨entity, id, pulledVersion entity record, recordDeleted record⟩

/-- What applying records can do: outcomes are refreshed, and a row changes only when its entity
has no open entry, to what one of the records says. -/
structure PullsRecords (s : LocalStore) (entity : Entity) (pendingIds : List Uuid)
    (records : List Dict) (s' : LocalStore) : Prop where
  watermark : s'.watermark = s.watermark
  outbox : s.outbox.Refreshed s'.outbox
  row : ∀ k, s'.row k = s.row k ∨ k.1 = entity ∧ k.2 ∉ pendingIds ∧
    ∃ record ∈ records, recordId record = some k.2 ∧ s'.row k = some (pulledRow k.1 k.2 record)
  written : ∀ id, id ∉ pendingIds → ∀ record ∈ records, recordId record = some id →
    ∃ record' ∈ records, recordId record' = some id ∧
      s'.row (entity, id) = some (pulledRow entity id record')

theorem foldl_applyPullRecord (entity : Entity) (pendingIds : List Uuid) (records : List Dict)
    (s : LocalStore) :
    PullsRecords s entity pendingIds records
      (records.foldl (applyPullRecord entity pendingIds) s) := by
  induction records using List.reverseRecOn with
  | nil =>
    exact ⟨rfl, .refl _, fun _ ↦ Or.inl rfl, fun _ _ _ h ↦ absurd h List.not_mem_nil⟩
  | append_singleton records record ih =>
    rw [List.foldl_append, List.foldl_cons, List.foldl_nil]
    set t := records.foldl (applyPullRecord entity pendingIds) s
    have hin : ∀ {r : Dict}, r ∈ records → r ∈ records ++ [record] := List.mem_append_left _
    have hkeep : ∀ k, t.row k = s.row k ∨ k.1 = entity ∧ k.2 ∉ pendingIds ∧
        ∃ r ∈ records ++ [record], recordId r = some k.2 ∧ t.row k =
        some (pulledRow k.1 k.2 r) := by
      intro k
      refine (ih.row k).imp id fun ⟨he, hp, r, hr, hid, hrow⟩ ↦ ⟨he, hp, r, hin hr, hid, hrow⟩
    unfold applyPullRecord
    cases hid : recordId record with
    | none =>
      refine ⟨ih.watermark, ih.outbox, hkeep, fun id hp r hr hrid ↦ ?_⟩
      rcases List.mem_append.mp hr with hr | hr
      · obtain ⟨r', hr', hrid', hrow⟩ := ih.written id hp r hr hrid
        exact ⟨r', hin hr', hrid', hrow⟩
      · rw [List.mem_singleton.mp hr, hid] at hrid
        cases hrid
    | some id =>
      dsimp only
      split
      · rename_i hpending
        refine ⟨ih.watermark, ih.outbox.trans (remember_refreshed _ _ _), hkeep,
          fun id' hp r hr hrid ↦ ?_⟩
        rcases List.mem_append.mp hr with hr | hr
        · obtain ⟨r', hr', hrid', hrow⟩ := ih.written id' hp r hr hrid
          exact ⟨r', hin hr', hrid', hrow⟩
        · rw [List.mem_singleton.mp hr, hid] at hrid
          exact absurd (Option.some.inj hrid ▸ hpending) hp
      · rename_i hpending
        have hlast : record ∈ records ++ [record] := by simp
        have hrow : ∀ k, (t.upsertRow (pulledRow entity id record)).row k =
            if (entity, id) = k then some (pulledRow entity id record) else t.row k :=
          row_upsertRow t (pulledRow entity id record)
        refine ⟨ih.watermark, ih.outbox, fun k ↦ ?_, fun id' hp r hr hrid ↦ ?_⟩
        · by_cases hk : (entity, id) = k
          · subst hk
            exact Or.inr ⟨rfl, hpending, record, hlast, hid, (hrow _).trans (if_pos rfl)⟩
          · have hsame := (hrow k).trans (if_neg hk)
            refine (hkeep k).imp hsame.trans fun ⟨he, hp, r, hr, hrid, hold⟩ ↦ ?_
            exact ⟨he, hp, r, hr, hrid, hsame.trans hold⟩
        · by_cases hk : id = id'
          · subst hk
            exact ⟨record, hlast, hid, (hrow _).trans (if_pos rfl)⟩
          · have hsame := (hrow (entity, id')).trans (if_neg fun he ↦ hk (congrArg Prod.snd he))
            rcases List.mem_append.mp hr with hr | hr
            · obtain ⟨r', hr', hrid', hold⟩ := ih.written id' hp r hr hrid
              exact ⟨r', hin hr', hrid', hsame.trans hold⟩
            · rw [List.mem_singleton.mp hr, hid] at hrid
              exact absurd (Option.some.inj hrid) hk

theorem applyPullEntities_pulls (s : LocalStore) (entity : Entity) (records : List Dict) :
    PullsRecords s entity (s.pendingOutboxIds entity) records
    (s.applyPullEntities entity records) :=
  foldl_applyPullRecord entity (s.pendingOutboxIds entity) records s

structure Pulls (s : LocalStore) (keys : List PullKey) (records : PullKey → List Dict)
    (s' : LocalStore) : Prop where
  watermark : s'.watermark = s.watermark
  outbox : s.outbox.Refreshed s'.outbox
  row : ∀ k, s'.row k = s.row k ∨ s.outbox.entry k = none ∧ ∃ key ∈ keys, key.entity = k.1 ∧
    ∃ record ∈ records key, recordId record = some k.2 ∧ s'.row k = some (pulledRow k.1 k.2 record)
  written : ∀ key ∈ keys, ∀ id, s.outbox.entry (key.entity, id) = none →
    ∀ record ∈ records key, recordId record = some id →
    ∃ record' ∈ records key, recordId record' = some id ∧
      s'.row (key.entity, id) = some (pulledRow key.entity id record')

theorem PullKey.entity_inj {key key' : PullKey} (h : key.entity = key'.entity) : key = key' := by
  cases key <;> cases key' <;> first | rfl | cases h

theorem foldl_applyPullEntities (s : LocalStore) {keys : List PullKey} (hkeys : keys.Nodup)
    (records : PullKey → List Dict) :
    Pulls s keys records
      (keys.foldl (fun s key ↦ s.applyPullEntities key.entity (records key)) s) := by
  induction keys using List.reverseRecOn with
  | nil =>
    exact ⟨rfl, .refl _, fun _ ↦ Or.inl rfl, fun _ h ↦ absurd h List.not_mem_nil⟩
  | append_singleton keys key ih =>
    rw [List.nodup_append] at hkeys
    have hnew : key ∉ keys := fun hmem ↦ hkeys.2.2 key hmem key (by simp) rfl
    have ih := ih hkeys.1
    rw [List.foldl_append, List.foldl_cons, List.foldl_nil]
    set t := keys.foldl (fun s key ↦ s.applyPullEntities key.entity (records key)) s
    have hstep := applyPullEntities_pulls t key.entity (records key)
    set t' := t.applyPullEntities key.entity (records key)
    have hopen : ∀ id, id ∉ t.pendingOutboxIds key.entity ↔ s.outbox.entry (key.entity, id) =
        none := by
      intro id
      rw [mem_pendingOutboxIds, ih.outbox.isSome_entry, Option.not_isSome_iff_eq_none]
    have hin : ∀ {c : PullKey}, c ∈ keys → c ∈ keys ++ [key] := List.mem_append_left _
    refine ⟨hstep.watermark.trans ih.watermark, ih.outbox.trans hstep.outbox, fun k ↦ ?_,
      fun c hc id hnone record hr hid ↦ ?_⟩
    · rcases hstep.row k with hsame | ⟨he, hp, record, hr, hid, hrow⟩
      · refine (ih.row k).imp hsame.trans fun ⟨hnone, c, hc, hck, record, hr, hid, hrow⟩ ↦ ?_
        exact ⟨hnone, c, hin hc, hck, record, hr, hid, hsame.trans hrow⟩
      · obtain ⟨e, id⟩ := k
        obtain rfl : e = key.entity := he
        exact Or.inr ⟨(hopen id).mp hp, key, by simp, rfl, record, hr, hid, hrow⟩
    · rcases List.mem_append.mp hc with hc | hc
      · obtain ⟨record', hr', hid', hrow⟩ := ih.written c hc id hnone record hr hid
        refine ⟨record', hr', hid', ?_⟩
        rcases hstep.row (c.entity, id) with hsame | ⟨he, -⟩
        · exact hsame.trans hrow
        · exact absurd (PullKey.entity_inj he ▸ hc) hnew
      · obtain rfl := List.mem_singleton.mp hc
        exact hstep.written id ((hopen id).mpr hnone) record hr hid

theorem applyPull_pulls (s : LocalStore) (pull : Download) : ∃ t,
    Pulls s PullKey.all pull.records t ∧
      s.applyPull pull = { t with watermark := pull.serverSequence } :=
  ⟨_, foldl_applyPullEntities s (by decide) pull.records, rfl⟩

inductive Acknowledged (s : LocalStore) (result : ChangeResult) : LocalStore → Prop
  | passed : Acknowledged s result s
  | applied {sent : Entry} {record : Dict} {rows : List LocalRow} (mem : sent ∈ s.outbox)
      (id : sent.changeId = result.changeId) (entity : result.entity = sent.entity)
      (state : serverRecord result = some record)
      (version : ∀ v, serverVersion result = some v → v = recordVersion record)
      (row : ∀ k, Table.find LocalRow.key k rows =
        if sent.key = k then some (pulledRow k.1 k.2 record) else s.row k) :
      Acknowledged s result
        { s with rows := rows, outbox := s.outbox.deleteOutboxIds [sent.changeId] }
  | settled {sent : Entry} {rows : List LocalRow} (mem : sent ∈ s.outbox)
      (id : sent.changeId = result.changeId) (entity : result.entity = sent.entity)
      (state : serverRecord result = none)
      (row : ∀ k, Table.find LocalRow.key k rows = if sent.key = k
        then (s.row k).map (fun r ↦ { r with version := (serverVersion result).getD r.version })
        else s.row k) :
      Acknowledged s result
        { s with rows := rows, outbox := s.outbox.deleteOutboxIds [sent.changeId] }
  | advanced {e : Entry} {rows : List LocalRow} {v : ℤ} (mem : e ∈ s.outbox)
      (gone : ∀ e' ∈ s.outbox, e'.changeId ≠ result.changeId) (entity : result.entity = e.entity)
      (entityId : result.entityId = some e.entityId) (queued : e.queued = true)
      (version : ∀ a, acknowledgedVersion result = some a → v = a)
      (row : ∀ k, Table.find LocalRow.key k rows = if e.key = k
        then (s.row k).map (fun r ↦ { r with version := max r.version v }) else s.row k) :
      Acknowledged s result { s with
        rows := rows
        outbox := s.outbox.update (·.changeId = e.changeId) (Entry.advanced
          (advancedBase e.baseVersion (acknowledgedVersion result))
          (withServerCode e.entity e.record (serverRecord result))) }

theorem find_mapVersion (rows : List LocalRow) (k k' : EntityKey) (f : LocalRow → ℤ) :
    Table.find LocalRow.key k
        (rows.map (fun r ↦ if r.key = k' then { r with version := f r } else r)) =
      if k' = k then (Table.find LocalRow.key k rows).map (fun r ↦ { r with version := f r })
      else Table.find LocalRow.key k rows := by
  rw [Table.find_map LocalRow.key k fun r ↦ by split <;> rfl]
  cases hr : Table.find LocalRow.key k rows with
  | none => split <;> rfl
  | some r =>
    have hk : r.key = k := Table.key_of_find LocalRow.key hr
    by_cases he : k' = k
    · simp [he, hk]
    · simp [he, hk, Ne.symm he]

theorem acknowledgeSent_acknowledged (hd : s.outbox.Distinct) {projectId : Uuid} {sent : Entry}
    {result : ChangeResult} (hmem : sent ∈ s.outbox) (hid : sent.changeId = result.changeId)
    (h : s.acknowledgeSent projectId sent result = some s') : Acknowledged s result s' := by
  unfold acknowledgeSent at h
  split at h
  · cases h
  rename_i hmatch
  have hentity : result.entity = sent.entity := by
    by_contra hne
    exact hmatch (by simp [hne])
  unfold applyPushAcknowledgement at h
  split at h
  · rename_i record hrec
    split at h
    · cases h
    split at h
    · cases h
    rename_i hversion
    obtain rfl := Option.some.inj h
    have hrid : recordId (record.set .id (.uuid sent.key.2)) = some sent.key.2 := by
      simp [recordId, Dict.get]
    have hfree : sent.key.2 ∉ (⟨s.rows, s.outbox.deleteOutboxIds [sent.changeId], s.watermark⟩ :
        LocalStore).pendingOutboxIds sent.key.1 := by
      rw [mem_pendingOutboxIds, Option.not_isSome_iff_eq_none]
      refine (Table.find_eq_none Entry.key).mpr fun e he hk ↦ ?_
      obtain ⟨hin, hne⟩ := List.mem_filter.mp he
      have hsame := hd.eq_of_key hin hmem hk
      simp [hsame] at hne
    have hwrite : recordVersion (record.set .id (.uuid sent.key.2)) = recordVersion record ∧
        recordDeleted (record.set .id (.uuid sent.key.2)) = recordDeleted record := ⟨rfl, rfl⟩
    have hdone : applyPullEntities ⟨s.rows, s.outbox.deleteOutboxIds [sent.changeId], s.watermark⟩
        sent.key.1 [record.set .id (.uuid sent.key.2)] =
        { s with
          rows := Table.upsert LocalRow.key (pulledRow sent.key.1 sent.key.2 record) s.rows
          outbox := s.outbox.deleteOutboxIds [sent.changeId] } := by
      simp only [applyPullEntities, List.foldl_cons, List.foldl_nil, applyPullRecord, hrid,
        if_neg hfree]
      rfl
    rw [hdone]
    refine .applied hmem hid hentity hrec (fun v hv ↦ ?_) fun k ↦ ?_
    · by_contra hne
      exact hversion (by simp [hv, hne])
    · refine (row_upsertRow s _ k).trans ?_
      by_cases hk : sent.key = k
      · subst hk
        rw [if_pos rfl]
        exact if_pos rfl
      · rw [if_neg hk]
        exact if_neg hk
  · rename_i hrec
    split at h
    · rename_i hver
      obtain rfl := Option.some.inj h
      refine .settled hmem hid hentity hrec fun k ↦ ?_
      rw [hver]
      split
      · exact Option.map_id'.symm
      · rfl
    · rename_i v hver
      obtain rfl := Option.some.inj h
      refine .settled hmem hid hentity hrec fun k ↦ ?_
      rw [hver]
      exact find_mapVersion s.rows k sent.key fun _ ↦ v

theorem advancePushAcknowledgement_some {projectId : Uuid} {version : Option ℤ}
    {record : Option Dict}
    (h : s.advancePushAcknowledgement projectId k version record = some s') :
    ∃ v rows, (∀ a, version = some a → v = a) ∧ s' = { s with rows := rows } ∧
      ∀ k', Table.find LocalRow.key k' rows = if k = k'
        then (s.row k').map (fun r ↦ { r with version := max r.version v }) else s.row k' := by
  unfold advancePushAcknowledgement at h
  dsimp only at h
  split at h
  · cases h
  split at h
  · cases h
  split at h
  · rename_i hnone
    obtain ⟨hversion, -⟩ := Option.or_eq_none_iff.mp hnone
    -- no row gets past the version that it has
    refine ⟨((s.row k).map LocalRow.version).getD 0, s.rows, fun a ha ↦ ?_,
      (Option.some.inj h).symm, fun k' ↦ ?_⟩
    · cases hversion.symm.trans ha
    · split
      · rename_i hk
        subst hk
        change s.row k = _
        cases s.row k with
        | none => rfl
        | some r => simp
      · rfl
  · rename_i v hv
    refine ⟨v, _, fun a ha ↦ ?_, (Option.some.inj h).symm, fun k' ↦ ?_⟩
    · rw [ha, Option.some_or] at hv
      exact (Option.some.inj hv).symm
    · exact find_mapVersion s.rows k' k fun r ↦ max r.version v

theorem advanceReplacement_acknowledged {projectId : Uuid} {result : ChangeResult}
    (hgone : ∀ e ∈ s.outbox, e.changeId ≠ result.changeId)
    (h : s.advanceReplacement projectId result = some s') : Acknowledged s result s' := by
  unfold advanceReplacement at h
  split at h
  · obtain rfl := Option.some.inj h
    exact .passed
  rename_i entityId hentityId
  dsimp only at h
  split at h
  · obtain rfl := Option.some.inj h
    exact .passed
  rename_i e hhead
  have hmem : e ∈ s.outbox ∧ e.key = (result.entity, entityId) ∧ e.queued = true := by
    have hsorted := List.mem_of_mem_head? hhead
    have hfilter := (List.mem_insertionSort _).mp hsorted
    obtain ⟨hin, hp⟩ := List.mem_filter.mp hfilter
    simp only [Bool.and_eq_true, decide_eq_true_eq] at hp
    exact ⟨hin, hp⟩
  obtain ⟨hin, hk, hq⟩ := hmem
  have hentity : result.entity = e.entity := (congrArg Prod.fst hk).symm
  have hid : result.entityId = some e.entityId := by
    rw [hentityId]
    exact congrArg some (congrArg Prod.snd hk).symm
  rw [← hk, hentity] at h
  obtain ⟨v, rows, hv, rfl, hrows⟩ := advancePushAcknowledgement_some h
  exact .advanced hin hgone hentity hid hq hv hrows

theorem acknowledgeResult_acknowledged (hd : s.outbox.Distinct) {projectId : Uuid}
    {result : ChangeResult} (h : s.acknowledgeResult projectId result = some s') :
    Acknowledged s result s' := by
  unfold acknowledgeResult at h
  split at h
  · obtain rfl := Option.some.inj h
    exact .passed
  split at h
  · rename_i sent hsent
    have hid : sent.changeId = result.changeId := by simpa using List.find?_some hsent
    exact acknowledgeSent_acknowledged hd (List.mem_of_find?_eq_some hsent) hid h
  · rename_i hnone
    refine advanceReplacement_acknowledged (fun e he ↦ ?_) h
    simpa using List.find?_eq_none.mp hnone e he

theorem Acknowledged.distinct {result : ChangeResult} (h : Acknowledged s result s')
    (hd : s.outbox.Distinct) : s'.outbox.Distinct := by
  cases h with
  | passed => exact hd
  | applied => exact hd.filter _
  | settled => exact hd.filter _
  | advanced => exact hd.update (fun _ ↦ rfl) fun _ ↦ rfl

theorem acknowledgeAcceptedResults_induction {projectId : Uuid} {P : LocalStore → Prop}
    {results : List ChangeResult}
    (hstep : ∀ s result s', result ∈ results → s.outbox.Distinct → P s →
      Acknowledged s result s' → P s')
    (hd : s.outbox.Distinct) (hP : P s)
    (h : s.acknowledgeAcceptedResults projectId results = some s') : s'.outbox.Distinct ∧ P s' := by
  unfold acknowledgeAcceptedResults at h
  induction results generalizing s with
  | nil =>
    obtain rfl := Option.some.inj h
    exact ⟨hd, hP⟩
  | cons result results ih =>
    rw [List.foldlM_cons] at h
    obtain ⟨t, ht, hrest⟩ := Option.bind_eq_some_iff.mp h
    have hack := acknowledgeResult_acknowledged hd ht
    refine ih (fun s r s' hr ↦ hstep s r s' (List.mem_cons_of_mem _ hr)) (hack.distinct hd) ?_ hrest
    exact hstep s result t List.mem_cons_self hd hP hack

end LocalStore

inductive Transaction
  | edit (op : Edit) (t : LocalStore.Stamp)
  | markAttempted (ids : List Uuid) (now : Time)
  | acknowledge (results : List ChangeResult)
  | deleteIds (ids : List Uuid)
  | deferId (changeId : Uuid) (err : Failure) (retryAfterSeconds : Option ℤ) (now : Time)
  | blockId (changeId : Uuid) (err : Failure) (now : Time)
  | releaseAuthentication
  | applyPull (pull : Download)
  | keepMine (changeId : Uuid) (expected : Option ℤ) (t : LocalStore.Stamp)
  | useServer (changeId : Uuid) (expected : Option ℤ)
  | merge (changeId : Uuid) (expected : Option ℤ) (merged : Dict) (t : LocalStore.Stamp)

/-- A transaction that raises is rolled back: none. -/
def LocalStore.commit (projectId : Uuid) (s : LocalStore) : Transaction → Option LocalStore
  | .edit op t => s.edit op t
  | .markAttempted ids now => some { s with outbox := s.outbox.markOutboxIdsAttempted ids now }
  | .acknowledge results => s.acknowledgeAcceptedResults projectId results
  | .deleteIds ids => some { s with outbox := s.outbox.deleteOutboxIds ids }
  | .deferId changeId err retryAfterSeconds now =>
    some { s with outbox := s.outbox.deferOutboxId changeId err retryAfterSeconds now }
  | .blockId changeId err now => some { s with outbox := s.outbox.blockOutboxId changeId err now }
  | .releaseAuthentication => some { s with outbox := s.outbox.releaseAuthenticationBlocks }
  | .applyPull pull => some (s.applyPull pull)
  | .keepMine changeId expected t => s.keepMine changeId expected t
  | .useServer changeId expected => s.useServer projectId changeId expected
  | .merge changeId expected merged t => s.merge projectId changeId expected merged t

end Client

end RiskApp
