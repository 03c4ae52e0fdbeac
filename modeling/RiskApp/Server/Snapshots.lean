import RiskApp.Lib.Top
import RiskApp.Server.Models

namespace RiskApp.Server.Snapshots

open Lib

structure ScoreSnapshot where
  id : Uuid
  batchId : Uuid
  capturedAt : Time
  projectId : Uuid
  kind : String
  itemId : Uuid
  title : Val
  probability : Val
  impact : Val
  score : Val
  createdBy : Uuid

structure TopItem where
  itemId : Uuid
  title : Val
  probability : Val
  impact : Val
  score : Val

structure TopBatch where
  batchId : Uuid
  capturedAt : Time
  top : List TopItem

def topItem (r : ScoreSnapshot) : TopItem := ⟨r.itemId, r.title, r.probability, r.impact, r.score⟩

def points : Val → ℤ
  | .int n => n
  | _ => 0

def scored (projectId : Uuid) (kind : String) (d : Data) : List Row :=
  d.rows.filter fun r ↦ r.table = .items && r.ownProject = some projectId &&
    r.attrs .isDeleted = .bool false && r.attrs .type = .str kind

def itemOf (r : Row) : TopItem :=
  ⟨r.id, r.attrs .title, r.attrs .probability, r.attrs .impact, r.attrs .score⟩

def normalized (default kind : List Char) : String :=
  String.ofList (Text.lower (Text.strip (if kind = [] then default else kind)))

/-- The types `create_snapshot` captures, none for a bad request. -/
def wantedKinds (kind : List Char) : Option (List String) :=
  let k := normalized "both".toList kind
  if k ∈ ["both", "all"] then some ["risk", "opportunity"]
  else if k ∈ ["risk", "risks"] then some ["risk"]
  else if k ∈ ["opportunity", "opportunities", "opp", "opps"] then some ["opportunity"]
  else none

/-- One call of `create_snapshot`: what it draws, the data it finds, and the rows its queries answer
with, each with the id drawn for its snapshot. -/
structure Taken where
  batchId : Uuid
  capturedAt : Time
  projectId : Uuid
  userId : Uuid
  wanted : List String
  data : Data
  selected : String → List (Row × Uuid)

def Taken.row (t : Taken) (kind : String) (i : Row × Uuid) : ScoreSnapshot where
  id := i.2
  batchId := t.batchId
  capturedAt := t.capturedAt
  projectId := t.projectId
  kind := kind
  itemId := i.1.id
  title := i.1.attrs .title
  probability := i.1.attrs .probability
  impact := i.1.attrs .impact
  score := i.1.attrs .score
  createdBy := t.userId

/-- The local variables of `create_snapshot` and the table. -/
structure Progress where
  table : List ScoreSnapshot
  chunk : List ScoreSnapshot
  counts : String → ℕ

def Progress.flushChunk (p : Progress) : Progress :=
  { p with table := p.table ++ p.chunk, chunk := [] }

def Progress.add (p : Progress) (r : ScoreSnapshot) : Progress :=
  { p with
    counts := Function.update p.counts r.kind (p.counts r.kind + 1)
    chunk := p.chunk ++ [r] }

def Progress.append (chunkSize : ℕ) (p : Progress) (r : ScoreSnapshot) : Progress :=
  if chunkSize ≤ (p.add r).chunk.length then (p.add r).flushChunk else p.add r

def Progress.appendKind (chunkSize : ℕ) (t : Taken) (p : Progress) (kind : String) : Progress :=
  (t.selected kind).foldl (fun p i ↦ p.append chunkSize (t.row kind i)) p

def createSnapshot (chunkSize : ℕ) (t : Taken) (table : List ScoreSnapshot) : Progress :=
  (t.wanted.foldl (Progress.appendKind chunkSize t) ⟨table, [], fun _ ↦ 0⟩).flushChunk

structure Database where
  byScore : List ScoreSnapshot → List ScoreSnapshot
  byCapture : List (Uuid × Time) → List (Uuid × Time)
  latestFirst : List ScoreSnapshot → List ScoreSnapshot
  byBatch : List (ScoreSnapshot × ℕ) → List (ScoreSnapshot × ℕ)
  byScore_perm : ∀ l, (byScore l).Perm l
  byScore_sorted : ∀ l, (byScore l).Pairwise fun x y ↦ points y.score ≤ points x.score
  byCapture_perm : ∀ l, (byCapture l).Perm l
  byCapture_sorted : ∀ l, (byCapture l).Pairwise fun x y ↦ x.2 ≤ y.2
  latestFirst_perm : ∀ l, (latestFirst l).Perm l
  latestFirst_sorted : ∀ l, (latestFirst l).Pairwise fun x y ↦ y.capturedAt ≤ x.capturedAt
  byBatch_perm : ∀ l, (byBatch l).Perm l
  byBatch_sorted : ∀ l, (byBatch l).Pairwise fun x y ↦
    x.1.batchId < y.1.batchId ∨ x.1.batchId = y.1.batchId ∧ x.2 ≤ y.2

def bounded (limit : ℤ) : ℕ := (max 1 (min limit 100)).toNat

variable (db : Database)

/-- The answer of the route once its `kind` names a type. -/
def latestSnapshot (table : List ScoreSnapshot) (projectId : Uuid) (kind : String) :
    Option (Uuid × Time × ℕ) :=
  (db.latestFirst (table.filter fun r ↦ r.projectId = projectId && r.kind = kind)).head?.map
    fun row ↦ (row.batchId, row.capturedAt, (table.filter fun r ↦ r.projectId = projectId &&
      r.batchId = row.batchId && r.kind = kind).length)

def topItems (table : List ScoreSnapshot) (projectId batchId : Uuid) (kind : String) (limit : ℤ) :
    Option TopBatch :=
  let rows := (db.byScore (table.filter fun r ↦ r.projectId = projectId && r.batchId = batchId &&
    r.kind = kind)).take (bounded limit)
  rows.head?.map fun row ↦ ⟨batchId, row.capturedAt, rows.map topItem⟩

def inWindow (fromTs toTs : Option Time) (capturedAt : Time) : Bool :=
  fromTs.all (· ≤ capturedAt) && toTs.all (capturedAt ≤ ·)

/-- The batches of `top_history`, with `GROUP BY batch_id, captured_at`. -/
def historyBatches (table : List ScoreSnapshot) (projectId : Uuid) (kind : String)
    (fromTs toTs : Option Time) : List (Uuid × Time) :=
  db.byCapture (((table.filter fun r ↦ r.projectId = projectId && r.kind = kind &&
    inWindow fromTs toTs r.capturedAt).map fun r ↦ (r.batchId, r.capturedAt)).dedup)

/-- The answer of the route once its `kind` names a type. -/
def topHistory (table : List ScoreSnapshot) (projectId : Uuid) (kind : String) (limit : ℤ)
    (fromTs toTs : Option Time) : List TopBatch :=
  let batches := historyBatches db table projectId kind fromTs toTs
  let batchIds := batches.map Prod.fst
  let ranked := Top.rowNumbers ScoreSnapshot.batchId db.byScore
    (table.filter fun r ↦ r.projectId = projectId && r.kind = kind && r.batchId ∈ batchIds)
  let allRows := db.byBatch ((Top.join ScoreSnapshot.id table
    (ranked.map fun y ↦ (y.1.id, y.2))).filter fun y ↦ y.2 ≤ bounded limit)
  batches.map fun (batchId, capturedAt) ↦
    ⟨batchId, capturedAt,
      ((allRows.filter fun y ↦ y.1.batchId = batchId).map Prod.fst).map topItem⟩

structure State where
  data : Data
  snapshots : List ScoreSnapshot

def Taken.stored (t : Taken) : List ScoreSnapshot :=
  t.wanted.flatMap fun kind ↦ (t.selected kind).map (t.row kind)

/-- Runs, with the snapshots taken of the projects that are left. Anything else may be written in
between. -/
inductive Runs (chunkSize : ℕ) : State → List Taken → Prop
  | start (data : Data) : Runs chunkSize ⟨data, []⟩ []
  | write {s : State} {ts : List Taken} (before : Runs chunkSize s ts) (data : Data) :
      Runs chunkSize { s with data } ts
  | snapshot {s : State} {ts : List Taken} (before : Runs chunkSize s ts) (t : Taken)
      (kind : List Char) (wanted : wantedKinds kind = some t.wanted) (found : t.data = s.data)
      (selects : ∀ k ∈ t.wanted,
        ((t.selected k).map Prod.fst).Perm (scored t.projectId k s.data))
      (newBatch : t.batchId ∉ ts.map Taken.batchId)
      (newIds : ((s.snapshots ++ t.stored).map ScoreSnapshot.id).Nodup) :
      Runs chunkSize { s with snapshots := (createSnapshot chunkSize t s.snapshots).table }
        (ts ++ [t])
  | deleteProject {s : State} {ts : List Taken} (before : Runs chunkSize s ts) (p : Uuid)
      (data : Data) :
      Runs chunkSize ⟨data, s.snapshots.filter fun r ↦ r.projectId ≠ p⟩
        (ts.filter fun t ↦ t.projectId ≠ p)

section Create

variable {chunkSize : ℕ} {t : Taken}

def Progress.rows (p : Progress) : List ScoreSnapshot := p.table ++ p.chunk

theorem Progress.append_rows (p : Progress) (r : ScoreSnapshot) :
    (p.append chunkSize r).rows = p.rows ++ [r] := by
  unfold Progress.append
  split <;> simp [Progress.rows, Progress.flushChunk, Progress.add]

theorem Progress.appendKind_rows (p : Progress) (kind : String) :
    (p.appendKind chunkSize t kind).rows = p.rows ++ (t.selected kind).map (t.row kind) := by
  unfold Progress.appendKind
  induction t.selected kind generalizing p with
  | nil => simp
  | cons i l ih => simp [ih, Progress.append_rows]

/-- However large the chunks are, every row is written. -/
theorem createSnapshot_table (table : List ScoreSnapshot) :
    (createSnapshot chunkSize t table).table = table ++ t.stored := by
  have hloop : ∀ (kinds : List String) (p : Progress),
      (kinds.foldl (Progress.appendKind chunkSize t) p).rows =
        p.rows ++ kinds.flatMap fun kind ↦ (t.selected kind).map (t.row kind) := by
    intro kinds
    induction kinds with
    | nil => simp
    | cons kind kinds ih =>
      intro p
      rw [List.foldl_cons, ih, Progress.appendKind_rows, List.flatMap_cons, List.append_assoc]
  have hrows := hloop t.wanted ⟨table, [], fun _ ↦ 0⟩
  rw [show (⟨table, [], fun _ ↦ 0⟩ : Progress).rows = table by simp [Progress.rows]] at hrows
  exact hrows

theorem Progress.append_counts (p : Progress) (r : ScoreSnapshot) :
    (p.append chunkSize r).counts =
      Function.update p.counts r.kind (p.counts r.kind + 1) := by
  unfold Progress.append
  split <;> rfl

theorem Progress.appendKind_counts (p : Progress) (kind k : String) :
    (p.appendKind chunkSize t kind).counts k =
      p.counts k + if kind = k then (t.selected kind).length else 0 := by
  unfold Progress.appendKind
  induction t.selected kind generalizing p with
  | nil => simp
  | cons i l ih =>
    rw [List.foldl_cons, ih, Progress.append_counts]
    by_cases hk : kind = k
    · subst hk
      rw [if_pos rfl, if_pos rfl, List.length_cons]
      simp only [Taken.row, Function.update_self]
      omega
    · rw [if_neg hk, if_neg hk]
      simp [Taken.row, Function.update_of_ne (Ne.symm hk)]

theorem createSnapshot_counts (hwanted : t.wanted.Nodup) (table : List ScoreSnapshot)
    (k : String) : (createSnapshot chunkSize t table).counts k =
      if k ∈ t.wanted then (t.selected k).length else 0 := by
  have hloop : ∀ (kinds : List String), kinds.Nodup → ∀ p : Progress,
      (kinds.foldl (Progress.appendKind chunkSize t) p).counts k =
        p.counts k + if k ∈ kinds then (t.selected k).length else 0 := by
    intro kinds hkinds
    induction kinds with
    | nil => simp
    | cons kind kinds ih =>
      obtain ⟨hnew, hrest⟩ := List.nodup_cons.mp hkinds
      intro p
      rw [List.foldl_cons, ih hrest, Progress.appendKind_counts]
      by_cases hk : kind = k
      · subst hk
        rw [if_pos rfl, if_neg hnew, if_pos List.mem_cons_self]
        omega
      · by_cases hmem : k ∈ kinds
        · rw [if_neg hk, if_pos hmem, if_pos (List.mem_cons_of_mem _ hmem)]
          omega
        · rw [if_neg hk, if_neg hmem, if_neg fun h ↦
            (List.mem_cons.mp h).elim (fun h ↦ hk h.symm) hmem]
  have hcounts := hloop t.wanted hwanted ⟨table, [], fun _ ↦ 0⟩
  rw [Nat.zero_add] at hcounts
  exact hcounts

end Create

structure Inv (s : State) (ts : List Taken) : Prop where
  table : s.snapshots = ts.flatMap Taken.stored
  ids : (s.snapshots.map ScoreSnapshot.id).Nodup
  batches : (ts.map Taken.batchId).Nodup
  wanted : ∀ t ∈ ts, t.wanted.Nodup
  selected : ∀ t ∈ ts, ∀ k ∈ t.wanted,
    ((t.selected k).map Prod.fst).Perm (scored t.projectId k t.data)

theorem wantedKinds_nodup {kind : List Char} {kinds : List String}
    (h : wantedKinds kind = some kinds) : kinds.Nodup := by
  unfold wantedKinds at h
  simp only at h
  split at h
  · cases h; decide
  · split at h
    · cases h; decide
    · split at h
      · cases h; decide
      · cases h

theorem mem_stored {t : Taken} {r : ScoreSnapshot} :
    r ∈ t.stored ↔ ∃ k ∈ t.wanted, ∃ i ∈ t.selected k, t.row k i = r := by
  simp [Taken.stored, List.mem_flatMap]

theorem stored_projectId {t : Taken} {r : ScoreSnapshot} (h : r ∈ t.stored) :
    r.projectId = t.projectId := by
  obtain ⟨k, -, i, -, rfl⟩ := mem_stored.mp h
  rfl

theorem stored_batchId {t : Taken} {r : ScoreSnapshot} (h : r ∈ t.stored) :
    r.batchId = t.batchId := by
  obtain ⟨k, -, i, -, rfl⟩ := mem_stored.mp h
  rfl

theorem stored_capturedAt {t : Taken} {r : ScoreSnapshot} (h : r ∈ t.stored) :
    r.capturedAt = t.capturedAt := by
  obtain ⟨k, -, i, -, rfl⟩ := mem_stored.mp h
  rfl

theorem filter_stored (ts : List Taken) (p : Uuid) :
    (ts.flatMap Taken.stored).filter (fun r ↦ r.projectId ≠ p) =
      (ts.filter fun t ↦ t.projectId ≠ p).flatMap Taken.stored := by
  induction ts with
  | nil => rfl
  | cons t ts ih =>
    rw [List.flatMap_cons, List.filter_append, ih]
    by_cases hp : t.projectId = p
    · rw [List.filter_cons_of_neg (by simpa using hp), List.filter_eq_nil_iff.mpr, List.nil_append]
      intro r hr
      simpa [stored_projectId hr] using hp
    · rw [List.filter_cons_of_pos (by simpa using hp), List.flatMap_cons, List.filter_eq_self.mpr]
      intro r hr
      simpa [stored_projectId hr] using hp

theorem inv {chunkSize : ℕ} {s : State} {ts : List Taken} (h : Runs chunkSize s ts) : Inv s ts := by
  induction h with
  | start data => exact ⟨rfl, .nil, .nil, (fun _ h ↦ nomatch h), fun _ h ↦ nomatch h⟩
  | write _ data ih => exact ⟨ih.table, ih.ids, ih.batches, ih.wanted, ih.selected⟩
  | @snapshot s ts _ t kind wanted found selects newBatch newIds ih =>
    have htable : (createSnapshot chunkSize t s.snapshots).table = s.snapshots ++ t.stored :=
      createSnapshot_table _
    refine ⟨?_, ?_, ?_, ?_, ?_⟩
    · rw [htable, ih.table, List.flatMap_append, List.flatMap_singleton]
    · simpa only [htable] using newIds
    · rw [List.map_append, List.map_cons, List.map_nil]
      refine List.nodup_append.mpr ⟨ih.batches, List.nodup_singleton _, ?_⟩
      rintro b hb _ hb' rfl
      exact newBatch (List.mem_singleton.mp hb' ▸ hb)
    · intro u hu
      obtain hu | hu := List.mem_append.mp hu
      · exact ih.wanted u hu
      · exact List.mem_singleton.mp hu ▸ wantedKinds_nodup wanted
    · intro u hu k hk
      obtain hu | hu := List.mem_append.mp hu
      · exact ih.selected u hu k hk
      · cases List.mem_singleton.mp hu
        exact found ▸ selects k hk
  | @deleteProject s ts _ p data ih =>
    refine ⟨?_, ?_, ?_, ?_, ?_⟩
    · simp only [ih.table]
      exact filter_stored ts p
    · exact ih.ids.sublist (List.filter_sublist.map _)
    · exact ih.batches.sublist (List.filter_sublist.map _)
    · exact fun u hu ↦ ih.wanted u (List.mem_of_mem_filter hu)
    · exact fun u hu ↦ ih.selected u (List.mem_of_mem_filter hu)

section Parts

variable {s : State} {ts : List Taken} {t : Taken} {k : String}

theorem stored_kind (hwanted : t.wanted.Nodup) (k : String) :
    t.stored.filter (fun r ↦ r.kind = k) =
      if k ∈ t.wanted then (t.selected k).map (t.row k) else [] := by
  have hpart : ∀ k' ∈ t.wanted, ∀ r ∈ (t.selected k').map (t.row k'), r.kind = k' := by
    intro k' _ r hr
    obtain ⟨i, -, rfl⟩ := List.mem_map.mp hr
    rfl
  by_cases hk : k ∈ t.wanted
  · rw [if_pos hk]
    refine Top.filter_parts ?_ hpart hk
    rwa [List.map_id']
  · rw [if_neg hk]
    refine Top.filter_parts_of_notMem hpart ?_
    rwa [List.map_id']

theorem Inv.batch (h : Inv s ts) (ht : t ∈ ts) :
    s.snapshots.filter (fun r ↦ r.batchId = t.batchId) = t.stored := by
  rw [h.table]
  exact Top.filter_parts h.batches (fun _ _ _ hr ↦ stored_batchId hr) ht

theorem Inv.part (h : Inv s ts) (ht : t ∈ ts) (k : String) :
    s.snapshots.filter (fun r ↦ r.projectId = t.projectId && r.batchId = t.batchId &&
      r.kind = k) = if k ∈ t.wanted then (t.selected k).map (t.row k) else [] := by
  rw [← stored_kind (h.wanted t ht) k, ← h.batch ht, List.filter_filter]
  refine List.filter_congr fun r hr ↦ ?_
  by_cases hbatch : r.batchId = t.batchId
  · have hstored : r ∈ t.stored := by
      rw [← h.batch ht]
      exact List.mem_filter.mpr ⟨hr, decide_eq_true hbatch⟩
    simp [hbatch, stored_projectId hstored]
  · simp [hbatch]

def Taken.items (t : Taken) (k : String) : List TopItem :=
  if k ∈ t.wanted then (scored t.projectId k t.data).map itemOf else []

theorem Inv.items (h : Inv s ts) (ht : t ∈ ts) (k : String) :
    ((s.snapshots.filter fun r ↦ r.projectId = t.projectId && r.batchId = t.batchId &&
      r.kind = k).map topItem).Perm (t.items k) := by
  rw [h.part ht]
  unfold Taken.items
  by_cases hk : k ∈ t.wanted
  · rw [if_pos hk, if_pos hk]
    have hselected := (h.selected t ht k hk).map itemOf
    rw [List.map_map] at hselected ⊢
    exact hselected
  · rw [if_neg hk, if_neg hk]
    exact .nil

theorem Inv.items_ne_nil (h : Inv s ts) (ht : t ∈ ts) :
    t.items k ≠ [] ↔ ∃ r ∈ t.stored, r.kind = k := by
  rw [← h.batch ht]
  constructor
  · intro hne
    have hpart : (s.snapshots.filter fun r ↦ r.projectId = t.projectId &&
        r.batchId = t.batchId && r.kind = k) ≠ [] := by
      intro hnil
      have hitems := h.items ht k
      rw [hnil] at hitems
      exact hne hitems.symm.eq_nil
    obtain ⟨r, hr⟩ := List.exists_mem_of_ne_nil _ hpart
    simp only [List.mem_filter, Bool.and_eq_true, decide_eq_true_eq] at hr
    exact ⟨r, List.mem_filter.mpr ⟨hr.1, decide_eq_true hr.2.1.2⟩, hr.2.2⟩
  · rintro ⟨r, hr, hk⟩ hnil
    have hproject := stored_projectId (h.batch ht ▸ hr)
    have hitems := h.items ht k
    rw [hnil] at hitems
    have hmem : topItem r ∈ ((s.snapshots.filter fun r ↦ r.projectId = t.projectId &&
        r.batchId = t.batchId && r.kind = k).map topItem) := by
      refine List.mem_map_of_mem (List.mem_filter.mpr ⟨List.mem_of_mem_filter hr, ?_⟩)
      simpa [hproject, hk] using (List.mem_filter.mp hr).2
    rw [hitems.eq_nil] at hmem
    exact List.not_mem_nil hmem

theorem Inv.mem_snapshots (h : Inv s ts) {r : ScoreSnapshot} :
    r ∈ s.snapshots ↔ ∃ t ∈ ts, r ∈ t.stored := by
  rw [h.table]
  exact List.mem_flatMap

end Parts

/-- The best items by score, whatever the order of ties. -/
abbrev Best (limit : ℤ) : List TopItem → List TopItem → Prop :=
  Top.IsTop (fun i ↦ points i.score) (bounded limit)

def Taken.shows (t : Taken) (projectId : Uuid) (kind : String) (fromTs toTs : Option Time) : Bool :=
  t.projectId = projectId && !(t.items kind).isEmpty && inWindow fromTs toTs t.capturedAt

/-- What the routes answer about the snapshots taken. -/
structure Tells (chunkSize : ℕ) (db : Database) (table : List ScoreSnapshot) (ts : List Taken)
    (projectId : Uuid) (kind : String) : Prop where
  stored : ∀ t ∈ ts, ((table.filter fun r ↦ r.batchId = t.batchId && r.kind = kind).map
      fun r ↦ (r.projectId, r.capturedAt, r.createdBy, topItem r)).Perm
    ((t.items kind).map fun i ↦ (t.projectId, t.capturedAt, t.userId, i))
  counted : ∀ t ∈ ts, ∀ table, (createSnapshot chunkSize t table).counts kind =
    (t.items kind).length
  batches : ∀ limit fromTs toTs, ((topHistory db table projectId kind limit fromTs toTs).map
      fun batch ↦ (batch.batchId, batch.capturedAt)).Perm
    ((ts.filter fun t ↦ t.shows projectId kind fromTs toTs).map
      fun t ↦ (t.batchId, t.capturedAt))
  ordered : ∀ limit fromTs toTs, (topHistory db table projectId kind limit fromTs toTs).Pairwise
    fun batch batch' ↦ batch.capturedAt ≤ batch'.capturedAt
  tops : ∀ limit fromTs toTs, ∀ batch ∈ topHistory db table projectId kind limit fromTs toTs,
    ∀ t ∈ ts, t.batchId = batch.batchId → Best limit (t.items kind) batch.top
  batch : ∀ limit, ∀ t ∈ ts, t.projectId = projectId →
    match topItems db table projectId t.batchId kind limit with
    | none => t.items kind = []
    | some batch => batch.capturedAt = t.capturedAt ∧ Best limit (t.items kind) batch.top ∧
      t.items kind ≠ []
  latest : match latestSnapshot db table projectId kind with
    | none => ∀ t ∈ ts, t.projectId = projectId → t.items kind = []
    | some (batchId, capturedAt, count) => ∃ t ∈ ts, t.projectId = projectId ∧
      t.batchId = batchId ∧ t.capturedAt = capturedAt ∧ count = (t.items kind).length ∧
      ∀ t' ∈ ts, t'.projectId = projectId → t'.items kind ≠ [] → t'.capturedAt ≤ capturedAt

section Answers

variable {chunkSize : ℕ} {s : State} {ts : List Taken} {t : Taken} {projectId : Uuid}
  {kind : String}

theorem Inv.best (h : Inv s ts) (ht : t ∈ ts) (kind : String) (limit : ℤ) :
    Best limit (t.items kind) (((db.byScore (s.snapshots.filter fun r ↦
      r.projectId = t.projectId && r.batchId = t.batchId && r.kind = kind)).take
        (bounded limit)).map topItem) :=
  Top.IsTop.of_perm (Top.IsTop.map ⟨_, db.byScore_perm _, db.byScore_sorted _, rfl⟩)
    (h.items ht kind)

theorem Inv.history_batches (h : Inv s ts) (fromTs toTs : Option Time) :
    (historyBatches db s.snapshots projectId kind fromTs toTs).Perm
      ((ts.filter fun t ↦ t.shows projectId kind fromTs toTs).map
        fun t ↦ (t.batchId, t.capturedAt)) := by
  refine (db.byCapture_perm _).trans ?_
  have hnodup : ((ts.filter fun t ↦ t.shows projectId kind fromTs toTs).map
      fun t ↦ (t.batchId, t.capturedAt)).Nodup := by
    refine List.Nodup.of_map Prod.fst ?_
    rw [List.map_map]
    exact h.batches.sublist (List.filter_sublist.map _)
  refine (List.perm_ext_iff_of_nodup (List.nodup_dedup _) hnodup).mpr fun pair ↦ ?_
  simp only [List.mem_dedup, List.mem_map, List.mem_filter, Taken.shows, Bool.and_eq_true,
    decide_eq_true_eq, Bool.not_eq_true', List.isEmpty_eq_false_iff]
  constructor
  · rintro ⟨r, ⟨hr, ⟨hproject, hkind⟩, hwindow⟩, rfl⟩
    obtain ⟨t, ht, hstored⟩ := h.mem_snapshots.mp hr
    rw [stored_batchId hstored, stored_capturedAt hstored]
    rw [stored_projectId hstored] at hproject
    rw [stored_capturedAt hstored] at hwindow
    exact ⟨t, ⟨ht, ⟨hproject, (h.items_ne_nil ht).mpr ⟨r, hstored, hkind⟩⟩, hwindow⟩, rfl⟩
  · rintro ⟨t, ⟨ht, ⟨hproject, hitems⟩, hwindow⟩, rfl⟩
    obtain ⟨r, hstored, hkind⟩ := (h.items_ne_nil ht).mp hitems
    refine ⟨r, ⟨h.mem_snapshots.mpr ⟨t, ht, hstored⟩, ⟨?_, hkind⟩, ?_⟩, ?_⟩
    · rw [stored_projectId hstored, hproject]
    · rwa [stored_capturedAt hstored]
    · rw [stored_batchId hstored, stored_capturedAt hstored]

/-- The window function finds what a query of each batch finds. -/
theorem Inv.top_history (h : Inv s ts) (limit : ℤ) (fromTs toTs : Option Time) :
    topHistory db s.snapshots projectId kind limit fromTs toTs =
      (historyBatches db s.snapshots projectId kind fromTs toTs).map fun pair ↦
        ⟨pair.1, pair.2, ((db.byScore (s.snapshots.filter fun r ↦ r.projectId = projectId &&
          r.batchId = pair.1 && r.kind = kind)).take (bounded limit)).map topItem⟩ := by
  refine List.map_congr_left fun pair hpair ↦ ?_
  obtain ⟨batchId, capturedAt⟩ := pair
  have hids : batchId ∈ (historyBatches db s.snapshots projectId kind fromTs toTs).map
      Prod.fst := List.mem_map_of_mem hpair
  have hpart := Top.ranked_part (g := ScoreSnapshot.batchId)
    db.byScore_perm h.ids (l := s.snapshots.filter fun r ↦ r.projectId = projectId &&
      r.kind = kind && r.batchId ∈ (historyBatches db s.snapshots projectId kind
        fromTs toTs).map Prod.fst)
    (fun r hr ↦ List.mem_of_mem_filter hr) (bounded limit) (db.byBatch_perm _)
    ((db.byBatch_sorted _).imp fun hle heq ↦
      hle.elim (fun hlt ↦ absurd (heq ▸ hlt) (Nat.lt_irrefl _)) And.right) batchId
  simp only [hpart]
  rw [List.filter_filter]
  congr 4
  refine List.filter_congr fun r _ ↦ ?_
  by_cases hbatch : r.batchId = batchId
  · simp [hbatch, hids]
  · simp [hbatch]

theorem Inv.counted (h : Inv s ts) (ht : t ∈ ts) (table : List ScoreSnapshot) :
    (createSnapshot chunkSize t table).counts kind = (t.items kind).length := by
  rw [createSnapshot_counts (h.wanted t ht), Taken.items]
  by_cases hk : kind ∈ t.wanted
  · rw [if_pos hk, if_pos hk, List.length_map, ← (h.selected t ht kind hk).length_eq,
      List.length_map]
  · rw [if_neg hk, if_neg hk, List.length_nil]

theorem Inv.stored (h : Inv s ts) (ht : t ∈ ts) :
    ((s.snapshots.filter fun r ↦ r.batchId = t.batchId && r.kind = kind).map
      fun r ↦ (r.projectId, r.capturedAt, r.createdBy, topItem r)).Perm
    ((t.items kind).map fun i ↦ (t.projectId, t.capturedAt, t.userId, i)) := by
  have hpart : (s.snapshots.filter fun r ↦ r.batchId = t.batchId && r.kind = kind) =
      if kind ∈ t.wanted then (t.selected kind).map (t.row kind) else [] := by
    rw [← stored_kind (h.wanted t ht) kind, ← h.batch ht, List.filter_filter]
    exact List.filter_congr fun r _ ↦ Bool.and_comm _ _
  rw [hpart, Taken.items]
  by_cases hk : kind ∈ t.wanted
  · rw [if_pos hk, if_pos hk]
    have hselected := (h.selected t ht kind hk).map
      fun r ↦ (t.projectId, t.capturedAt, t.userId, itemOf r)
    rw [List.map_map] at hselected
    rw [List.map_map, List.map_map]
    exact hselected
  · rw [if_neg hk, if_neg hk]
    exact .nil

theorem Inv.batch_top (h : Inv s ts) (ht : t ∈ ts) (limit : ℤ) :
    match topItems db s.snapshots t.projectId t.batchId kind limit with
    | none => t.items kind = []
    | some batch => batch.capturedAt = t.capturedAt ∧ Best limit (t.items kind) batch.top ∧
      t.items kind ≠ [] := by
  have hbest := h.best db ht kind limit
  have hrows : ∀ r ∈ (db.byScore (s.snapshots.filter fun r ↦ r.projectId = t.projectId &&
      r.batchId = t.batchId && r.kind = kind)).take (bounded limit),
      r ∈ t.stored ∧ r.kind = kind := by
    intro r hr
    have hmem := (db.byScore_perm _).mem_iff.mp (List.mem_of_mem_take hr)
    simp only [List.mem_filter, Bool.and_eq_true, decide_eq_true_eq] at hmem
    exact ⟨h.batch ht ▸ List.mem_filter.mpr ⟨hmem.1, decide_eq_true hmem.2.1.2⟩, hmem.2.2⟩
  unfold topItems
  cases htake : (db.byScore (s.snapshots.filter fun r ↦ r.projectId = t.projectId &&
      r.batchId = t.batchId && r.kind = kind)).take (bounded limit) with
  | nil =>
    rw [htake] at hbest
    obtain ⟨order, hperm, -, hnil⟩ := hbest
    have hpos : bounded limit ≠ 0 := by
      unfold bounded
      omega
    have horder : order = [] :=
      (List.take_eq_nil_iff.mp hnil.symm).resolve_left hpos
    exact (horder ▸ hperm).nil_eq.symm
  | cons r rows =>
    rw [htake] at hbest hrows
    obtain ⟨hstored, hkind⟩ := hrows r List.mem_cons_self
    exact ⟨stored_capturedAt hstored, hbest, (h.items_ne_nil ht).mpr ⟨r, hstored, hkind⟩⟩

theorem Inv.latest (h : Inv s ts) :
    match latestSnapshot db s.snapshots projectId kind with
    | none => ∀ t ∈ ts, t.projectId = projectId → t.items kind = []
    | some (batchId, capturedAt, count) => ∃ t ∈ ts, t.projectId = projectId ∧
      t.batchId = batchId ∧ t.capturedAt = capturedAt ∧ count = (t.items kind).length ∧
      ∀ t' ∈ ts, t'.projectId = projectId → t'.items kind ≠ [] →
        t'.capturedAt ≤ capturedAt := by
  unfold latestSnapshot
  have hrow : ∀ {t : Taken}, t ∈ ts → t.projectId = projectId → t.items kind ≠ [] →
      ∃ r ∈ db.latestFirst (s.snapshots.filter fun r ↦ r.projectId = projectId &&
        r.kind = kind), r.capturedAt = t.capturedAt := by
    intro t ht hproject hitems
    obtain ⟨r, hstored, hkind⟩ := (h.items_ne_nil ht).mp hitems
    refine ⟨r, (db.latestFirst_perm _).mem_iff.mpr (List.mem_filter.mpr
      ⟨h.mem_snapshots.mpr ⟨t, ht, hstored⟩, ?_⟩), stored_capturedAt hstored⟩
    simp [stored_projectId hstored, hproject, hkind]
  cases hlatest : db.latestFirst (s.snapshots.filter fun r ↦ r.projectId = projectId &&
      r.kind = kind) with
  | nil =>
    intro t ht hproject
    by_contra hitems
    obtain ⟨r, hr, -⟩ := hrow ht hproject hitems
    rw [hlatest] at hr
    exact List.not_mem_nil hr
  | cons row rows =>
    have hmem := (db.latestFirst_perm _).mem_iff.mp (hlatest ▸ List.mem_cons_self : row ∈ _)
    simp only [List.mem_filter, Bool.and_eq_true, decide_eq_true_eq] at hmem
    obtain ⟨hrow', hproject, hkind⟩ := hmem
    obtain ⟨t, ht, hstored⟩ := h.mem_snapshots.mp hrow'
    have hown : t.projectId = projectId := (stored_projectId hstored).symm.trans hproject
    refine ⟨t, ht, hown, (stored_batchId hstored).symm, (stored_capturedAt hstored).symm, ?_, ?_⟩
    · have hitems := (h.items ht kind).length_eq
      rw [List.length_map, hown, ← stored_batchId hstored] at hitems
      exact hitems
    · intro t' ht' hproject' hitems'
      obtain ⟨r, hr, hcaptured⟩ := hrow ht' hproject' hitems'
      have hsorted := db.latestFirst_sorted (s.snapshots.filter fun r ↦
        r.projectId = projectId && r.kind = kind)
      rw [hlatest] at hr hsorted
      rw [← hcaptured]
      obtain rfl | hr := List.mem_cons.mp hr
      · exact Nat.le_refl _
      · exact (List.pairwise_cons.mp hsorted).1 r hr

end Answers

theorem mergeSort_sorted {α : Type} (f : α → ℤ) (l : List α) :
    (l.mergeSort fun x y ↦ f x ≤ f y).Pairwise fun x y ↦ f x ≤ f y := by
  refine (List.pairwise_mergeSort ?_ ?_ l).imp fun {x y} h ↦ of_decide_eq_true h
  · intro x y z hxy hyz
    simp only [decide_eq_true_eq] at hxy hyz ⊢
    omega
  · intro x y
    simp only [Bool.or_eq_true, decide_eq_true_eq]
    omega

def stableDatabase : Database where
  byScore l := l.mergeSort fun x y ↦ -points x.score ≤ -points y.score
  byCapture l := l.mergeSort fun x y ↦ (x.2 : ℤ) ≤ y.2
  latestFirst l := l.mergeSort fun x y ↦ -(x.capturedAt : ℤ) ≤ -y.capturedAt
  byBatch l := l.mergeSort fun x y ↦
    x.1.batchId < y.1.batchId || (x.1.batchId = y.1.batchId && x.2 ≤ y.2)
  byScore_perm l := List.mergeSort_perm l _
  byScore_sorted l := (mergeSort_sorted (fun x : ScoreSnapshot ↦ -points x.score) l).imp
    fun h ↦ by omega
  byCapture_perm l := List.mergeSort_perm l _
  byCapture_sorted l := (mergeSort_sorted (fun x : Uuid × Time ↦ (x.2 : ℤ)) l).imp
    Int.ofNat_le.mp
  latestFirst_perm l := List.mergeSort_perm l _
  latestFirst_sorted l := (mergeSort_sorted (fun x : ScoreSnapshot ↦ -(x.capturedAt : ℤ)) l).imp
    fun h ↦ Int.ofNat_le.mp (Int.neg_le_neg_iff.mp h)
  byBatch_perm l := List.mergeSort_perm l _
  byBatch_sorted l := by
    have htrans : ∀ a b c i j k : ℕ, a < b ∨ a = b ∧ i ≤ j → b < c ∨ b = c ∧ j ≤ k →
        a < c ∨ a = c ∧ i ≤ k := by omega
    have htotal : ∀ a b i j : ℕ, (a < b ∨ a = b ∧ i ≤ j) ∨ (b < a ∨ b = a ∧ j ≤ i) := by omega
    refine (List.pairwise_mergeSort ?_ ?_ l).imp fun h ↦ ?_
    · intro x y z hxy hyz
      simp only [Bool.or_eq_true, Bool.and_eq_true, decide_eq_true_eq] at hxy hyz ⊢
      exact htrans _ _ _ _ _ _ hxy hyz
    · intro x y
      simp only [Bool.or_eq_true, Bool.and_eq_true, decide_eq_true_eq]
      exact htotal _ _ _ _
    · simpa using h

def sampleRow (id : Uuid) (isDeleted : Bool) (score : ℤ) : Row where
  table := .items
  id := id
  version := 1
  changeSequence := 1
  attrs
    | .projectId => .uuid 1
    | .isDeleted => .bool isDeleted
    | .type => .str "risk"
    | .title => .str "Supplier"
    | .score => .int score
    | _ => .int 3

def sampleData (rows : List Row) : Data := ⟨rows, [], fun _ ↦ none, fun _ _ ↦ none, [], []⟩

def before : Data := sampleData [sampleRow 5 false 4, sampleRow 6 false 12, sampleRow 7 true 20]

def later : Data := sampleData [sampleRow 5 false 16, sampleRow 6 true 12, sampleRow 7 true 20]

def firstTaken : Taken :=
  ⟨20, 1000, 1, 2, ["risk"], before,
    fun _ ↦ [(sampleRow 6 false 12, 31), (sampleRow 5 false 4, 30)]⟩

def secondTaken : Taken := ⟨21, 2000, 1, 2, ["risk", "opportunity"], later,
  fun kind ↦ if kind = "risk" then [(sampleRow 5 false 16, 32)] else []⟩

end RiskApp.Server.Snapshots
