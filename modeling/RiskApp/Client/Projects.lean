import RiskApp.Client.Cache

namespace RiskApp.Client

open Lib

structure Owned (α : Type) where
  projectId : String
  row : α

structure Project where
  id : String
  name : String
  description : String
  createdBy : String
  deriving DecidableEq

structure SyncState where
  lastServerTime : String
  lastServerSequence : ℕ

/-- The whole SQLite file; `rows` are the tables of risks, opportunities, actions, assessments and
tickets. -/
structure LocalDb where
  projects : List Project := []
  rows : List (Owned CachedRow) := []
  outbox : List (Owned Entry) := []
  syncStates : List (Owned SyncState) := []
  metadata : String → Option String := fun _ ↦ none

def Owned.within {α : Type} (projectId : String) (rows : List (Owned α)) : List α :=
  (rows.filter (·.projectId = projectId)).map Owned.row

def Owned.move {α : Type} (old new : String) (r : Owned α) : Owned α :=
  if r.projectId = old then { r with projectId := new } else r

namespace LocalDb

/-- The part of the file that one project sees. -/
def cache (db : LocalDb) (projectId : String) : Cache where
  rows := Owned.within projectId db.rows
  outbox := Owned.within projectId db.outbox
  watermark := ((Owned.within projectId db.syncStates).head?.map (·.lastServerSequence)).getD 0

def references (entity : Entity) : Bool := entity ≠ .action

def knows (db : LocalDb) (projectId : String) : Bool := db.projects.any (·.id = projectId)

/-- The foreign keys, which are checked at the end of the transaction when they are deferred. -/
def foreignKeys (db : LocalDb) : Bool :=
  db.rows.all fun r ↦ !references r.row.entity || db.knows r.projectId

def codesDistinct (db : LocalDb) (entity : Entity) : Bool :=
  !entity.scored || db.rows.all fun r ↦ db.rows.all fun s ↦
    !(r.row.entity = entity && s.row.entity = entity && r.projectId = s.projectId &&
      r.row.columns .code ≠ .null && r.row.columns .code = s.row.columns .code)
        || r.row.id = s.row.id

/-- What the schema enforces: the primary keys, the unique indexes and the foreign keys. -/
structure Intact (db : LocalDb) : Prop where
  projects : (db.projects.map Project.id).Nodup
  rows : (db.rows.map fun r ↦ r.row.key).Nodup
  outbox : (db.outbox.map fun e ↦ e.row.changeId).Nodup
  syncStates : (db.syncStates.map Owned.projectId).Nodup
  codes : ∀ entity, db.codesDistinct entity = true
  foreignKeys : db.foreignKeys = true

structure Unused (db : LocalDb) (projectId : String) : Prop where
  projects : ∀ p ∈ db.projects, p.id ≠ projectId
  rows : ∀ r ∈ db.rows, r.projectId ≠ projectId
  outbox : ∀ e ∈ db.outbox, e.projectId ≠ projectId
  syncStates : ∀ s ∈ db.syncStates, s.projectId ≠ projectId

def getProject (projectId : String) (db : LocalDb) : Option Project :=
  Table.find Project.id projectId db.projects

def upsertProject (p : Project) : Work LocalDb Unit :=
  .modify fun db ↦ { db with projects := Table.upsert Project.id p db.projects }

section Migration

variable (old new : String)

def moveRows (entity : Entity) : Work LocalDb Unit := .statement fun db ↦
  let db := { db with
    rows := db.rows.map fun r ↦ if r.row.entity = entity then r.move old new else r }
  if db.codesDistinct entity then some ((), db) else none

def moveOutbox : Work LocalDb Unit :=
  .modify fun db ↦ { db with outbox := db.outbox.map (Owned.move old new) }

def moveSyncState : Work LocalDb Unit := .statement fun db ↦
  let db := { db with syncStates := db.syncStates.map (Owned.move old new) }
  if (db.syncStates.map Owned.projectId).Nodup then some ((), db) else none

def deleteProject : Work LocalDb Unit :=
  .modify fun db ↦ { db with projects := db.projects.filter (·.id ≠ old) }

def setMeta (key value : String) : Work LocalDb Unit := do
  .modify fun db ↦ { db with metadata := Function.update db.metadata key (some value) }
  .commitIfNeeded

def bootstrapMetaKeys : List String :=
  ["bootstrap_project_id", "bootstrap_user_project_id", "bootstrap_anon_project_id"]

def moveMeta (key : String) : Work LocalDb Unit := do
  let value ← .select fun db ↦ db.metadata key
  if value.getD "" = old then setMeta key new else pure ()

/-- The statements inside of the block of `migrate_project_id`; `p` is the project that was read
before it. -/
def migrateRows (p : Project) : Work LocalDb Unit := do
  upsertProject { p with id := new }
  [Entity.risk, .opportunity, .action, .assessment, .helpdeskTicket].forM (moveRows old new)
  moveOutbox old new
  moveSyncState old new
  deleteProject old
  bootstrapMetaKeys.forM (moveMeta old new)

def checkForeignKeys : Work LocalDb Unit :=
  .statement fun db ↦ if db.foreignKeys then some ((), db) else none

def migrateProjectId : Work LocalDb Unit :=
  if old = "" ∨ new = "" ∨ old = new then pure ()
  else do
    let project ← .select (getProject old)
    match project with
    | none => pure ()
    | some p => .writeTransaction do
      migrateRows old new p
      checkForeignKeys

def renameProject (name : String) : Work LocalDb Unit :=
  .modify fun db ↦ { db with
    projects := db.projects.map fun p ↦ if p.id = old then { p with name := name } else p }

/-- The transaction of `_promote_local_project`: `name` is free of collisions, and `created` is
what the server answered. -/
def promoteLocalProject (name : String) (created : Project) : Work LocalDb Unit :=
  .writeTransaction do
    renameProject old name
    if old = "" ∨ created.id = "" ∨ old = created.id then pure ()
    else do
      let project ← .select (getProject old)
      match project with
      | none => pure ()
      | some p => .writeTransaction (migrateRows old created.id p)
    upsertProject created
    .commitIfNeeded
    checkForeignKeys

/-- `db'` is `db` with the rows of the project under its new id. -/
structure Moved (db db' : LocalDb) : Prop where
  rows : db'.rows = db.rows.map (Owned.move old new)
  outbox : db'.outbox = db.outbox.map (Owned.move old new)
  syncStates : db'.syncStates = db.syncStates.map (Owned.move old new)
  metadata : ∀ key, db'.metadata key =
    if key ∈ bootstrapMetaKeys ∧ db.metadata key = some old then some new else db.metadata key

/-- What a reader of the file finds once the project has its new id. -/
structure Published (db db' : LocalDb) : Prop where
  project : db'.cache new = db.cache old
  others : ∀ q, q ≠ old → q ≠ new →
    db'.cache q = db.cache q ∧ getProject q db' = getProject q db
  gone : db'.Unused old
  metadata : ∀ key ∈ bootstrapMetaKeys, db'.metadata key ≠ some old
  intact : db'.Intact

end Migration

end LocalDb

namespace Owned

variable {α : Type} {old new : String}

theorem move_row (r : Owned α) : (r.move old new).row = r.row := by
  unfold move
  split <;> rfl

theorem move_projectId (r : Owned α) :
    (r.move old new).projectId = if r.projectId = old then new else r.projectId := by
  unfold move
  split <;> rfl

theorem move_of_ne {r : Owned α} (h : r.projectId ≠ old) : r.move old new = r := if_neg h

theorem within_move_new {rows : List (Owned α)} (h : ∀ r ∈ rows, r.projectId ≠ new) :
    within new (rows.map (move old new)) = within old rows := by
  induction rows with
  | nil => rfl
  | cons r rows ih =>
    have ih := ih fun s hs ↦ h s (List.mem_cons_of_mem r hs)
    have hr := h r List.mem_cons_self
    unfold within at ih ⊢
    rw [List.map_cons]
    by_cases ho : r.projectId = old
    · have hm : (r.move old new).projectId = new := by rw [move_projectId, if_pos ho]
      rw [List.filter_cons_of_pos (by simpa using hm), List.filter_cons_of_pos (by simpa using ho),
        List.map_cons, List.map_cons, ih, move_row]
    · have hm : (r.move old new).projectId ≠ new := by rwa [move_of_ne ho]
      rw [List.filter_cons_of_neg (by simpa using hm), List.filter_cons_of_neg (by simpa using ho),
        ih]

theorem within_move_of_ne {q : String} (rows : List (Owned α)) (ho : q ≠ old) (hn : q ≠ new) :
    within q (rows.map (move old new)) = within q rows := by
  induction rows with
  | nil => rfl
  | cons r rows ih =>
    unfold within at ih ⊢
    rw [List.map_cons]
    by_cases hr : r.projectId = old
    · have hm : (r.move old new).projectId ≠ q := by
        rw [move_projectId, if_pos hr]
        exact hn.symm
      have hq : r.projectId ≠ q := fun h ↦ ho (h.symm.trans hr)
      rw [List.filter_cons_of_neg (by simpa using hm), List.filter_cons_of_neg (by simpa using hq),
        ih]
    · rw [move_of_ne hr]
      by_cases hq : r.projectId = q
      · rw [List.filter_cons_of_pos (by simpa using hq), List.filter_cons_of_pos
          (by simpa using hq),
          List.map_cons, List.map_cons, ih]
      · rw [List.filter_cons_of_neg (by simpa using hq), List.filter_cons_of_neg
          (by simpa using hq),
          ih]

theorem move_ne_old (hne : old ≠ new) (r : Owned α) : (r.move old new).projectId ≠ old := by
  rw [move_projectId]
  split
  · exact hne.symm
  · assumption

end Owned

namespace LocalDb

variable {old new : String} {db db' : LocalDb}

/-- No two rows of a table would share a code if the project had both ids. -/
def Apart (old new : String) (db : LocalDb) : Prop :=
  ∀ r ∈ db.rows, ∀ s ∈ db.rows, r.row.entity = s.row.entity → r.row.entity.scored = true →
    (r.move old new).projectId = (s.move old new).projectId → r.row.columns .code ≠ .null →
    r.row.columns .code = s.row.columns .code → r.row.id = s.row.id

theorem codesDistinct_iff {entity : Entity} : db.codesDistinct entity = true ↔
    entity.scored = true → ∀ r ∈ db.rows, ∀ s ∈ db.rows, r.row.entity = entity →
      s.row.entity = entity → r.projectId = s.projectId → r.row.columns .code ≠ .null →
      r.row.columns .code = s.row.columns .code → r.row.id = s.row.id := by
  unfold codesDistinct
  cases entity.scored with
  | false => simp
  | true =>
    simp only [Bool.not_true, Bool.false_or, List.all_eq_true, Bool.or_eq_true,
      Bool.not_eq_true', decide_eq_true_eq, Bool.and_eq_false_iff, decide_eq_false_iff_not,
      forall_const]
    refine forall₂_congr fun r _ ↦ forall₂_congr fun s _ ↦ ?_
    tauto

theorem Intact.apart (h : db.Intact) (hunused : db.Unused new) : db.Apart old new := by
  intro r hr s hs hentity hscored hproject hnull hcode
  have hsame : r.projectId = s.projectId := by
    rw [Owned.move_projectId, Owned.move_projectId] at hproject
    have hrn := hunused.rows r hr
    have hsn := hunused.rows s hs
    split at hproject <;> split at hproject
    · rename_i hro hso
      exact hro.trans hso.symm
    · exact absurd hproject.symm hsn
    · exact absurd hproject hrn
    · exact hproject
  exact codesDistinct_iff.mp (h.codes r.row.entity) hscored r hr s hs rfl hentity.symm hsame hnull
    hcode

def movedIn (old new : String) (entities : List Entity) (db : LocalDb) : LocalDb := { db with
  rows := db.rows.map fun r ↦ if r.row.entity ∈ entities then r.move old new else r }

theorem move_move (hne : old ≠ new) {α : Type} (r : Owned α) :
    (r.move old new).move old new = r.move old new :=
  Owned.move_of_ne (Owned.move_ne_old hne r)

theorem Apart.movedIn (h : db.Apart old new) (hne : old ≠ new) (entities : List Entity) :
    (db.movedIn old new entities).Apart old new := by
  have hrow : ∀ r : Owned CachedRow,
      (if r.row.entity ∈ entities then r.move old new else r).row = r.row ∧
        (if r.row.entity ∈ entities then r.move old new else r).move old new = r.move old new := by
    intro r
    split
    · exact ⟨r.move_row, move_move hne r⟩
    · exact ⟨rfl, rfl⟩
  intro r' hr' s' hs' hentity hscored hproject hnull hcode
  obtain ⟨r, hr, rfl⟩ := List.mem_map.mp hr'
  obtain ⟨s, hs, rfl⟩ := List.mem_map.mp hs'
  rw [(hrow r).1] at hentity hscored hnull hcode ⊢
  rw [(hrow s).1] at hentity hcode ⊢
  rw [(hrow r).2, (hrow s).2] at hproject
  exact h r hr s hs hentity hscored hproject hnull hcode

theorem Apart.codesDistinct (h : db.Apart old new) (entity : Entity) :
    db.codesDistinct entity = true := by
  rw [codesDistinct_iff]
  rintro hscored r hr s hs rfl hentity hproject hnull hcode
  refine h r hr s hs hentity.symm hscored ?_ hnull hcode
  rw [Owned.move_projectId, Owned.move_projectId, hproject]

theorem moveRows_eval (h : db.Apart old new) (hne : old ≠ new) (entities : List Entity) :
    (entities.forM (moveRows old new)).eval db = some ((), db.movedIn old new entities) := by
  induction entities generalizing db with
  | nil =>
    have hsame : db.movedIn old new [] = db := by
      unfold LocalDb.movedIn
      simp
    rw [hsame]
    rfl
  | cons entity entities ih =>
    have hcons : (entity :: entities).forM (moveRows old new) =
        (moveRows old new entity >>= fun _ ↦ entities.forM (moveRows old new)) := rfl
    have hfirst : (moveRows old new entity).eval db = some ((), db.movedIn old new [entity]) := by
      have hdistinct := (h.movedIn hne [entity]).codesDistinct entity
      unfold LocalDb.movedIn at hdistinct ⊢
      simp only [List.mem_singleton] at hdistinct ⊢
      exact if_pos hdistinct
    rw [hcons, Work.eval_bind, hfirst, Option.bind_some, ih (h.movedIn hne [entity])]
    have hrows : (db.movedIn old new [entity]).movedIn old new entities =
        db.movedIn old new (entity :: entities) := by
      unfold LocalDb.movedIn
      simp only [List.map_map]
      congr 1
      refine List.map_congr_left fun r _ ↦ ?_
      simp only [Function.comp_apply, List.mem_cons, List.not_mem_nil, or_false]
      by_cases he : r.row.entity = entity
      · simp only [he, if_true, true_or, Owned.move_row, move_move hne, ite_self]
      · simp only [he, if_false, false_or]
    rw [hrows]

theorem moveMeta_eval (hold : old ≠ "") (hne : old ≠ new) (keys : List String) (db : LocalDb) :
    ∃ metadata,
      (keys.forM (moveMeta old new)).eval db = some ((), { db with metadata := metadata }) ∧
      ∀ key, metadata key = if key ∈ keys ∧ db.metadata key = some old then some new
        else db.metadata key := by
  induction keys generalizing db with
  | nil => exact ⟨db.metadata, rfl, fun key ↦ by simp⟩
  | cons k keys ih =>
    have hcons : (k :: keys).forM (moveMeta old new) =
        (moveMeta old new k >>= fun _ ↦ keys.forM (moveMeta old new)) := rfl
    have hread : db.metadata k = some old ↔ (db.metadata k).getD "" = old := by
      cases db.metadata k with
      | none => simp [Ne.symm hold]
      | some value => simp
    by_cases hk : db.metadata k = some old
    · have hfirst : (moveMeta old new k).eval db =
          some ((), { db with metadata := Function.update db.metadata k (some new) }) := by
        unfold moveMeta
        rw [Work.eval_bind, Work.eval_select, Option.bind_some, if_pos (hread.mp hk)]
        rfl
      obtain ⟨metadata, heval, hall⟩ := ih
        { db with metadata := Function.update db.metadata k (some new) }
      refine ⟨metadata, ?_, fun key ↦ ?_⟩
      · rw [hcons, Work.eval_bind, hfirst]
        exact heval
      · rw [hall]
        by_cases he : key = k
        · subst he
          simp [hk, Ne.symm hne]
        · simp [he]
    · have hfirst : (moveMeta old new k).eval db = some ((), db) := by
        unfold moveMeta
        rw [Work.eval_bind, Work.eval_select, Option.bind_some, if_neg fun h ↦ hk (hread.mpr h)]
        rfl
      obtain ⟨metadata, heval, hall⟩ := ih db
      refine ⟨metadata, ?_, fun key ↦ ?_⟩
      · rw [hcons, Work.eval_bind, hfirst]
        exact heval
      · rw [hall]
        by_cases he : key = k
        · subst he
          simp [hk]
        · simp [he]

theorem migrateRows_eval (hapart : db.Apart old new) (hold : old ≠ "") (hne : old ≠ new)
    (hnew : ∀ p ∈ db.projects, p.id ≠ new)
    (hsync : ((db.syncStates.map (Owned.move old new)).map Owned.projectId).Nodup) (p : Project) :
    ∃ db', (migrateRows old new p).eval db = some ((), db') ∧ db.Moved old new db' ∧
      db'.projects = db.projects.filter (·.id ≠ old) ++ [{ p with id := new }] := by
  have hproject : Table.upsert Project.id { p with id := new } db.projects =
      db.projects ++ [{ p with id := new }] := by
    have hkeep : db.projects.filter (fun q ↦ Project.id q ≠ new) = db.projects :=
      List.filter_eq_self.mpr fun q hq ↦ decide_eq_true (hnew q hq)
    exact congrArg (· ++ [{ p with id := new }]) hkeep
  have hentities : ∀ db : LocalDb, db.movedIn old new
      [Entity.risk, .opportunity, .action, .assessment, .helpdeskTicket] =
        { db with rows := db.rows.map (Owned.move old new) } := by
    intro db
    unfold movedIn
    congr 1
    refine List.map_congr_left fun r _ ↦ if_pos ?_
    cases r.row.entity <;> decide
  have hfilter : (db.projects ++ [{ p with id := new }]).filter (fun q ↦ q.id ≠ old) =
      db.projects.filter (·.id ≠ old) ++ [{ p with id := new }] := by
    rw [List.filter_append]
    congr 1
    exact List.filter_eq_self.mpr fun q hq ↦ by
      rw [List.mem_singleton.mp hq]
      exact decide_eq_true hne.symm
  obtain ⟨metadata, hmeta, hkeys⟩ := moveMeta_eval hold hne bootstrapMetaKeys
    { db with
      projects := (db.projects ++ [{ p with id := new }]).filter (fun q ↦ q.id ≠ old)
      rows := db.rows.map (Owned.move old new)
      outbox := db.outbox.map (Owned.move old new)
      syncStates := db.syncStates.map (Owned.move old new) }
  refine ⟨{
      projects := (db.projects ++ [{ p with id := new }]).filter (fun q ↦ q.id ≠ old)
      rows := db.rows.map (Owned.move old new)
      outbox := db.outbox.map (Owned.move old new)
      syncStates := db.syncStates.map (Owned.move old new)
      metadata := metadata }, ?_, ⟨rfl, rfl, rfl, hkeys⟩, hfilter⟩
  have happly : Apart old new { db with projects := db.projects ++ [{ p with id := new }] } :=
      hapart
  unfold migrateRows upsertProject
  rw [Work.eval_bind, Work.eval_modify, Option.bind_some, hproject, Work.eval_bind,
    moveRows_eval happly hne, hentities, Option.bind_some, Work.eval_bind, moveOutbox,
    Work.eval_modify, Option.bind_some, Work.eval_bind, moveSyncState, Work.eval_statement]
  dsimp only
  rw [if_pos hsync, Option.bind_some, Work.eval_bind, deleteProject, Work.eval_modify,
    Option.bind_some]
  exact hmeta

theorem syncStates_moved (hdb : db.Intact) (hunused : db.Unused new) :
    ((db.syncStates.map (Owned.move old new)).map Owned.projectId).Nodup := by
  rw [List.map_map]
  have hinj : ∀ s ∈ db.syncStates, ∀ t ∈ db.syncStates,
      (s.move old new).projectId = (t.move old new).projectId → s.projectId = t.projectId := by
    intro s hs t ht he
    have hsn := hunused.syncStates s hs
    have htn := hunused.syncStates t ht
    rw [Owned.move_projectId, Owned.move_projectId] at he
    split at he <;> split at he
    · rename_i hso hto
      exact hso.trans hto.symm
    · exact absurd he.symm htn
    · exact absurd he hsn
    · exact he
  have hpair := List.pairwise_map.mp hdb.syncStates
  refine List.pairwise_map.mpr (hpair.imp_of_mem fun {s t} hs ht hne he ↦ hne ?_)
  exact hinj s hs t ht he

theorem Moved.published (h : db.Moved old new db') (hdb : db.Intact) (hunused : db.Unused new)
    (hne : old ≠ new) {q : Project} (hq : q.id = new)
    (hprojects : db'.projects = db.projects.filter (·.id ≠ old) ++ [q]) :
    db.Published old new db' := by
  have hmem : ∀ p, p ∈ db'.projects ↔ (p ∈ db.projects ∧ p.id ≠ old) ∨ p = q := by
    intro p
    rw [hprojects, List.mem_append, List.mem_filter, List.mem_singleton, decide_eq_true_eq]
  have hknows : ∀ id, id ≠ old → db.knows id = true → db'.knows id = true := by
    intro id hid hk
    obtain ⟨p, hp, he⟩ := List.any_eq_true.mp hk
    refine List.any_eq_true.mpr ⟨p, (hmem p).mpr (Or.inl ⟨hp, ?_⟩), he⟩
    rw [of_decide_eq_true he]
    exact hid
  have hnew : db'.knows new = true :=
    List.any_eq_true.mpr ⟨q, (hmem q).mpr (Or.inr rfl), decide_eq_true hq⟩
  refine ⟨?_, fun r ho hn ↦ ⟨?_, ?_⟩, ⟨fun p hp ↦ ?_, fun r hr ↦ ?_, fun e he ↦ ?_, fun s hs ↦ ?_⟩,
    fun key hkey hold ↦ ?_, ⟨?_, ?_, ?_, ?_, fun entity ↦ ?_, ?_⟩⟩
  · unfold cache
    rw [h.rows, h.outbox, h.syncStates, Owned.within_move_new hunused.rows,
      Owned.within_move_new hunused.outbox, Owned.within_move_new hunused.syncStates]
  · unfold cache
    rw [h.rows, h.outbox, h.syncStates, Owned.within_move_of_ne _ ho hn,
      Owned.within_move_of_ne _ ho hn, Owned.within_move_of_ne _ ho hn]
  · unfold getProject
    rw [hprojects, Table.find_append, Table.find_singleton, if_neg fun he ↦ hn (he.symm.trans hq),
      Option.or_none]
    exact Table.find_filter Project.id r db.projects fun p _ he ↦ decide_eq_true (he ▸ ho)
  · rcases (hmem p).mp hp with ⟨-, hp⟩ | rfl
    · exact hp
    · exact fun he ↦ hne (he.symm.trans hq)
  · rw [h.rows] at hr
    obtain ⟨r, -, rfl⟩ := List.mem_map.mp hr
    exact r.move_ne_old hne
  · rw [h.outbox] at he
    obtain ⟨e, -, rfl⟩ := List.mem_map.mp he
    exact e.move_ne_old hne
  · rw [h.syncStates] at hs
    obtain ⟨s, -, rfl⟩ := List.mem_map.mp hs
    exact s.move_ne_old hne
  · rw [h.metadata] at hold
    by_cases hm : db.metadata key = some old
    · rw [if_pos ⟨hkey, hm⟩] at hold
      exact hne (Option.some.inj hold).symm
    · rw [if_neg fun hboth ↦ hm hboth.2] at hold
      exact hm hold
  · rw [hprojects, List.map_append, List.map_singleton, hq, List.nodup_append]
    refine ⟨hdb.projects.sublist (List.filter_sublist.map _), List.nodup_singleton _, ?_⟩
    intro id hid new' hnew' he
    obtain ⟨p, hp, rfl⟩ := List.mem_map.mp hid
    rw [List.mem_singleton.mp hnew'] at he
    exact hunused.projects p (List.mem_filter.mp hp).1 he
  · rw [h.rows, List.map_map]
    simp only [Function.comp_def, Owned.move_row]
    exact hdb.rows
  · rw [h.outbox, List.map_map]
    simp only [Function.comp_def, Owned.move_row]
    exact hdb.outbox
  · rw [h.syncStates]
    exact syncStates_moved hdb hunused
  · have hapart : db.Apart old new := hdb.apart hunused
    rw [codesDistinct_iff]
    rw [h.rows]
    rintro hscored r' hr' s' hs' rfl hentity hproject hnull hcode
    obtain ⟨r, hr, rfl⟩ := List.mem_map.mp hr'
    obtain ⟨s, hs, rfl⟩ := List.mem_map.mp hs'
    rw [Owned.move_row] at hscored hentity hnull hcode ⊢
    rw [Owned.move_row] at hentity hcode ⊢
    exact hapart r hr s hs hentity.symm hscored hproject hnull hcode
  · refine List.all_eq_true.mpr fun r' hr' ↦ ?_
    rw [h.rows] at hr'
    obtain ⟨r, hr, rfl⟩ := List.mem_map.mp hr'
    have hforeign := List.all_eq_true.mp hdb.foreignKeys r hr
    rw [Owned.move_row, Owned.move_projectId]
    by_cases ho : r.projectId = old
    · rw [if_pos ho, hnew, Bool.or_true]
    · rw [if_neg ho]
      rcases (Bool.or_eq_true _ _).mp hforeign with hno | hk
      · rw [hno, Bool.true_or]
      · rw [hknows _ ho hk, Bool.or_true]

/-- The work moves the project and all of its rows, or it raises and the file is as it was. -/
def Migrates (old new : String) (project : Project) (db : LocalDb) (w : Work LocalDb Unit) : Prop :=
  w.returned [] db = true ∧ ∀ faults,
    (w.returned faults db = true ∧ db.Moved old new (w.after faults db) ∧
      db.Published old new (w.after faults db) ∧
      getProject new (w.after faults db) = some project) ∨
    (w.returned faults db = false ∧ w.after faults db = db)

theorem getProject_added {q : Project} (hnew : ∀ p ∈ db.projects, p.id ≠ q.id)
    (hprojects : db'.projects = db.projects.filter (·.id ≠ old) ++ [q]) :
    getProject q.id db' = some q := by
  unfold getProject
  have hnone : Table.find Project.id q.id (db.projects.filter (·.id ≠ old)) = none :=
    (Table.find_eq_none Project.id).mpr fun p hp ↦ hnew p (List.mem_filter.mp hp).1
  rw [hprojects, Table.find_append, hnone, Option.none_or, Table.find_singleton, if_pos rfl]

theorem migrates_writeTransaction {w : Work LocalDb Unit} (hdb : db.Intact)
    (hunused : db.Unused new) (hne : old ≠ new) {q : Project} (hq : q.id = new)
    (heval : w.eval db = some ((), db')) (hmoved : db.Moved old new db')
    (hprojects : db'.projects = db.projects.filter (·.id ≠ old) ++ [q]) :
    Migrates old new q db w.writeTransaction := by
  refine ⟨(Work.writeTransaction_completed heval).1, fun faults ↦ ?_⟩
  rcases w.writeTransaction_after faults db with ⟨hfalse, hsame⟩ | ⟨htrue, a, hdone⟩
  · exact Or.inr ⟨hfalse, hsame⟩
  · rw [heval] at hdone
    rw [← (Prod.mk.inj (Option.some.inj hdone)).2]
    refine Or.inl ⟨htrue, hmoved, hmoved.published hdb hunused hne hq hprojects, ?_⟩
    rw [← hq]
    exact getProject_added (fun p hp ↦ hq ▸ hunused.projects p hp) hprojects

theorem checkForeignKeys_eval (h : db.foreignKeys = true) :
    checkForeignKeys.eval db = some ((), db) := if_pos h

/-- Publishing a local project moves all of its rows to the new id and nothing else, and a failure
at any statement leaves the file as it was; the transaction that renames the project before it and
takes the server's copy after it does the same. -/
theorem migrate_project_id_moves (hdb : db.Intact) {p : Project} (hp : getProject old db = some p)
    (hunused : db.Unused new) (hold : old ≠ "") (hnew : new ≠ "") :
    Migrates old new { p with id := new } db (migrateProjectId old new) ∧
      ∀ (name : String) (created : Project), created.id = new →
        Migrates old new created db (promoteLocalProject old name created) := by
  have hne : old ≠ new := by
    rintro rfl
    exact hunused.projects p (Table.mem_of_find Project.id hp) (Table.key_of_find Project.id hp)
  have hguard : ¬ (old = "" ∨ new = "" ∨ old = new) := by tauto
  have hapart : db.Apart old new := hdb.apart hunused
  have hsync : ((db.syncStates.map (Owned.move old new)).map Owned.projectId).Nodup :=
    syncStates_moved hdb hunused
  refine ⟨?_, fun name created hcreated ↦ ?_⟩
  · obtain ⟨db', heval, hmoved, hprojects⟩ := migrateRows_eval hapart hold hne hunused.projects
      hsync p
    have hq : ({ p with id := new } : Project).id = new := rfl
    have hforeign := (hmoved.published hdb hunused hne hq hprojects).intact.foreignKeys
    have hblock : (migrateRows old new p >>= fun _ ↦ checkForeignKeys).eval db =
        some ((), db') := by
      rw [Work.eval_bind, heval, Option.bind_some, checkForeignKeys_eval hforeign]
    have hall := migrates_writeTransaction hdb hunused hne hq hblock hmoved hprojects
    have hexec : ∀ faults, (migrateProjectId old new).exec (.idle db faults) =
        if faults.headD .returns ≠ .returns then (none, .idle db faults.tail)
        else (Work.writeTransaction (migrateRows old new p >>= fun _ ↦ checkForeignKeys)).exec
          (.idle db faults.tail) := by
      intro faults
      unfold migrateProjectId
      rw [if_neg hguard, Work.select_bind_exec, hp]
    refine ⟨?_, fun faults ↦ ?_⟩
    · have hfirst := hall.1
      unfold Work.returned at hfirst ⊢
      rw [hexec]
      exact hfirst
    · have hrest := hall.2 faults.tail
      unfold Work.returned Work.after at hrest ⊢
      rw [hexec]
      cases faults.headD .returns with
      | returns => exact hrest
      | fails | endsTransaction => exact Or.inr ⟨rfl, rfl⟩
  · let renamed : LocalDb := { db with
      projects := db.projects.map fun q ↦ if q.id = old then { q with name := name } else q }
    have hid : ∀ q : Project, (if q.id = old then { q with name := name } else q).id = q.id := by
      intro q
      split <;> rfl
    have hread : getProject old renamed = some { p with name := name } := by
      have hfind := Table.find_map Project.id old hid db.projects
      have hold' : p.id = old := Table.key_of_find Project.id hp
      have hp' : Table.find Project.id old db.projects = some p := hp
      rw [hp', Option.map_some, if_pos hold'] at hfind
      exact hfind
    have hfresh : ∀ q ∈ renamed.projects, q.id ≠ created.id := by
      intro q hq
      obtain ⟨q', hq', rfl⟩ := List.mem_map.mp hq
      rw [hid, hcreated]
      exact hunused.projects q' hq'
    have hkept : renamed.projects.filter (fun q ↦ q.id ≠ old) =
        db.projects.filter (fun q ↦ q.id ≠ old) := by
      have hall : ∀ l : List Project, (l.map fun q ↦ if q.id = old then { q with name := name }
          else q).filter (fun q ↦ q.id ≠ old) = l.filter fun q ↦ q.id ≠ old := by
        intro l
        induction l with
        | nil => rfl
        | cons q l ih =>
          rw [List.map_cons, List.filter_cons, List.filter_cons, ih, hid]
          by_cases hq : q.id = old
          · simp [hq]
          · simp [hq]
      exact hall db.projects
    obtain ⟨db₁, heval, hmoved, hprojects⟩ := @migrateRows_eval old created.id
      renamed (hcreated ▸ hapart) hold (hcreated ▸ hne) hfresh (hcreated ▸ hsync)
      { p with name := name }
    have hmoved : db.Moved old new { db₁ with
        projects := Table.upsert Project.id created db₁.projects } :=
      hcreated ▸ ⟨hmoved.rows, hmoved.outbox, hmoved.syncStates, hmoved.metadata⟩
    have hlast : Table.upsert Project.id created db₁.projects =
        db.projects.filter (·.id ≠ old) ++ [created] := by
      unfold Table.upsert
      rw [hprojects, hkept, List.filter_append]
      have hkeep : (db.projects.filter (·.id ≠ old)).filter (fun q ↦ q.id ≠ created.id) =
          db.projects.filter (·.id ≠ old) :=
        List.filter_eq_self.mpr fun q hq ↦ decide_eq_true
          (hcreated ▸ hunused.projects q (List.mem_filter.mp hq).1)
      rw [hkeep]
      simp
    have hforeign := (hmoved.published hdb hunused hne hcreated hlast).intact.foreignKeys
    refine migrates_writeTransaction hdb hunused hne hcreated ?_ hmoved hlast
    have hguard' : ¬ (old = "" ∨ created.id = "" ∨ old = created.id) := hcreated ▸ hguard
    unfold renameProject
    rw [Work.eval_bind, Work.eval_modify, Option.bind_some, if_neg hguard', Work.eval_bind,
      Work.eval_select, Option.bind_some, hread]
    dsimp only
    rw [Work.eval_bind, Work.eval_writeTransaction, heval, Option.bind_some, Work.eval_bind,
      upsertProject,
      Work.eval_modify, Option.bind_some, Work.eval_bind, Work.eval_commitIfNeeded,
      Option.bind_some, checkForeignKeys_eval hforeign]

def sampleLocalDb : LocalDb where
  projects := [⟨"local-1", "Plan", "", "me"⟩, ⟨"p2", "Other", "", ""⟩]
  rows := [⟨"local-1", ⟨⟨.risk, 1, 0, false⟩, true, fun _ ↦ .null⟩⟩,
    ⟨"local-1", ⟨⟨.action, 2, 0, false⟩, true, fun _ ↦ .null⟩⟩,
    ⟨"p2", ⟨⟨.risk, 3, 4, false⟩, false, fun _ ↦ .null⟩⟩]
  outbox := [⟨"local-1", ⟨7, .risk, .upsert, 1, none, .empty, .pending, none, {}, 0, none,
    none, 5⟩⟩]
  syncStates := [⟨"p2", ⟨"", 4⟩⟩]
  metadata := fun key ↦ if key = "bootstrap_user_project_id" then some "local-1" else none

theorem sampleLocalDb_intact : sampleLocalDb.Intact := by
  refine ⟨by decide, by decide, by decide, by decide, fun entity ↦ ?_, by decide⟩
  cases entity <;> decide

theorem sampleLocalDb_unused : sampleLocalDb.Unused "p1" := by
  constructor <;> decide

theorem migrate_project_id_moves_sample :
    Migrates "local-1" "p1" ⟨"p1", "Plan", "", "me"⟩ sampleLocalDb
      (migrateProjectId "local-1" "p1") :=
  (migrate_project_id_moves sampleLocalDb_intact (p := ⟨"local-1", "Plan", "", "me"⟩) rfl
    sampleLocalDb_unused (by decide) (by decide)).1

end LocalDb

end RiskApp.Client
