import RiskApp.Client.Projects
import RiskApp.Client.Push

namespace RiskApp.Client

open Lib

inductive DataTable
  | rows (entity : Entity)
  | outbox

def projectDataTables : List DataTable :=
  [.rows .risk, .rows .opportunity, .rows .action, .rows .assessment, .rows .helpdeskTicket,
    .outbox]

def isLocalId (projectId : String) : Bool := "local-".toList.isPrefixOf projectId.toList

namespace LocalDb

def holds (db : LocalDb) (projectId : String) : DataTable → Bool
  | .rows entity => db.rows.any fun r ↦ r.projectId = projectId && r.row.entity = entity
  | .outbox => db.outbox.any (·.projectId = projectId)

def hasLocalData (db : LocalDb) (projectId : String) : Bool :=
  projectDataTables.any (db.holds projectId)

def dropSyncState (projectId : String) (db : LocalDb) : LocalDb :=
  { db with syncStates := db.syncStates.filter (·.projectId ≠ projectId) }

/-- Both DELETE statements; the second one checks the foreign keys. -/
def dropProject (projectId : String) (db : LocalDb) : Option LocalDb :=
  let db := { db.dropSyncState projectId with
    projects := db.projects.filter (·.id ≠ projectId) }
  if db.foreignKeys then some db else none

def upsertProjects (ps : List Project) (db : LocalDb) : LocalDb :=
  { db with projects := ps.foldl (fun l p ↦ Table.upsert Project.id p l) db.projects }

/-- `sync_projects` leaves such a project alone. -/
def leavesAlone (server : List Project) (projectId : String) : Bool :=
  isLocalId projectId || server.any (·.id = projectId)

def settle (server : List Project) : List String → LocalDb → Option LocalDb
  | [], db => some (db.upsertProjects server)
  | projectId :: todo, db =>
    if leavesAlone server projectId || db.hasLocalData projectId then settle server todo db
    else (db.dropProject projectId).bind (settle server todo)

/-- `sync_projects`, when nobody else writes meanwhile. -/
def syncProjects (server : List Project) (db : LocalDb) : Option LocalDb :=
  settle server (db.projects.map Project.id) db

end LocalDb

/-- Where `sync_projects` stands before its first DELETE takes the write lock: at the next project,
or at the next table that is looked at for one. -/
inductive RefreshAt
  | looking (todo : List String)
  | checking (projectId : String) (tables : List DataTable) (todo : List String)

/-- The file, and a refresh of its projects under way on one of the connections. -/
structure Shared where
  db : LocalDb
  refresh : Option (List Project × RefreshAt) := none

namespace Shared

/-- A step of the refresh. From its first DELETE to its commit nobody else writes. -/
inductive Refreshes : Shared → Shared → Prop
  | begin {db : LocalDb} (server : List Project) :
      Refreshes ⟨db, none⟩ ⟨db, some (server, .looking (db.projects.map Project.id))⟩
  | skip {db : LocalDb} {server : List Project} {projectId : String} {todo : List String}
      (alone : LocalDb.leavesAlone server projectId = true) :
      Refreshes ⟨db, some (server, .looking (projectId :: todo))⟩ ⟨db, some (server, .looking todo)⟩
  | look {db : LocalDb} {server : List Project} {projectId : String} {todo : List String}
      (gone : LocalDb.leavesAlone server projectId = false) :
      Refreshes ⟨db, some (server, .looking (projectId :: todo))⟩
        ⟨db, some (server, .checking projectId projectDataTables todo)⟩
  | found {db : LocalDb} {server : List Project} {projectId : String} {table : DataTable}
      {tables : List DataTable} {todo : List String} (held : db.holds projectId table = true) :
      Refreshes ⟨db, some (server, .checking projectId (table :: tables) todo)⟩
        ⟨db, some (server, .looking todo)⟩
  | absent {db : LocalDb} {server : List Project} {projectId : String} {table : DataTable}
      {tables : List DataTable} {todo : List String} (empty : db.holds projectId table = false) :
      Refreshes ⟨db, some (server, .checking projectId (table :: tables) todo)⟩
        ⟨db, some (server, .checking projectId tables todo)⟩
  | drop {db db' : LocalDb} {server : List Project} {projectId : String} {todo : List String}
      (dropped : (db.dropProject projectId).bind (LocalDb.settle server todo) = some db') :
      Refreshes ⟨db, some (server, .checking projectId [] todo)⟩ ⟨db', none⟩
  -- the first DELETE is left in the open transaction, and is committed with what comes next
  | refuse {db : LocalDb} {server : List Project} {projectId : String} {todo : List String}
      (refused : db.dropProject projectId = none) :
      Refreshes ⟨db, some (server, .checking projectId [] todo)⟩ ⟨db.dropSyncState projectId, none⟩
  | finish {db : LocalDb} {server : List Project} :
      Refreshes ⟨db, some (server, .looking [])⟩ ⟨db.upsertProjects server, none⟩
  | raise {db : LocalDb} {refresh : List Project × RefreshAt} :
      Refreshes ⟨db, some refresh⟩ ⟨db, none⟩

def Step (writes : LocalDb → LocalDb → Prop) (s s' : Shared) : Prop :=
  s.Refreshes s' ∨ writes s.db s'.db ∧ s'.refresh = s.refresh

def Runs (writes : LocalDb → LocalDb → Prop) : Shared → Shared → Prop :=
  Relation.ReflTransGen (Step writes)

end Shared

namespace LocalDb

variable {db db' : LocalDb} {server : List Project} {projectId : String} {todo : List String}

theorem knows_iff : db.knows projectId = true ↔ ∃ p ∈ db.projects, p.id = projectId := by
  simp [knows]

/-- What a refresh does to the file: it loses no row, no queued change and no project that it must
leave alone or that a row refers to. -/
structure Refreshed (server : List Project) (db db' : LocalDb) : Prop where
  rows : db'.rows = db.rows
  outbox : db'.outbox = db.outbox
  metadata : db'.metadata = db.metadata
  listed : ∀ p ∈ server, db'.knows p.id = true
  only : ∀ q, db'.knows q = true → db.knows q = true ∨ leavesAlone server q = true
  stays : ∀ q, db.knows q = true → db'.knows q = true ∨
    leavesAlone server q = false ∧ ∀ r ∈ db.rows, references r.row.entity = true → r.projectId ≠ q
  states : ∀ r ∈ db.syncStates, db'.knows r.projectId = true → r ∈ db'.syncStates
  intact : db.Intact → db'.Intact

theorem knows_iff_getProject : db.knows projectId = true ↔ (getProject projectId db).isSome := by
  simp [knows, getProject, Table.find, List.find?_isSome]

theorem getProject_upsertProjects : getProject projectId (db.upsertProjects server) =
    (Table.find Project.id projectId server.reverse).or (getProject projectId db) :=
  Table.find_foldl Project.id (fun k x l ↦ Table.find_upsert Project.id k x l) ..

theorem upsertProjects_knows : (db.upsertProjects server).knows projectId = true ↔
    db.knows projectId = true ∨ server.any (·.id = projectId) = true := by
  rw [knows_iff_getProject, knows_iff_getProject, getProject_upsertProjects, Option.isSome_or,
    Bool.or_eq_true, or_comm]
  simp [Table.find, List.find?_isSome]

theorem foreignKeys_iff : db.foreignKeys = true ↔
    ∀ r ∈ db.rows, references r.row.entity = true → db.knows r.projectId = true := by
  unfold foreignKeys
  rw [List.all_eq_true]
  refine forall₂_congr fun r _ ↦ ?_
  cases references r.row.entity <;> simp

theorem upsertProjects_refreshed : Refreshed server db (db.upsertProjects server) where
  rows := rfl
  outbox := rfl
  metadata := rfl
  listed p hp := upsertProjects_knows.mpr (Or.inr (List.any_eq_true.mpr ⟨p, hp, by simp⟩))
  only q hq := by
    rcases upsertProjects_knows.mp hq with hq | hq
    · exact Or.inl hq
    · exact Or.inr ((Bool.or_eq_true _ _).mpr (Or.inr hq))
  stays q hq := Or.inl (upsertProjects_knows.mpr (Or.inl hq))
  states r hr _ := hr
  intact h := by
    refine ⟨Table.nodup_foldl Project.id (fun p _ hl ↦ Table.nodup_upsert Project.id hl p) server
      h.projects, h.rows, h.outbox, h.syncStates, h.codes, ?_⟩
    refine foreignKeys_iff.mpr fun r hr href ↦ ?_
    exact upsertProjects_knows.mpr (Or.inl (foreignKeys_iff.mp h.foreignKeys r hr href))

theorem dropSyncState_intact (h : db.Intact) : (db.dropSyncState projectId).Intact :=
  ⟨h.projects, h.rows, h.outbox, h.syncStates.sublist (List.filter_sublist.map _), h.codes,
    h.foreignKeys⟩

theorem dropProject_some (h : db.dropProject projectId = some db') :
    db' = { db with
      syncStates := db.syncStates.filter (·.projectId ≠ projectId)
      projects := db.projects.filter (·.id ≠ projectId) } ∧ db'.foreignKeys = true := by
  unfold dropProject at h
  dsimp only at h
  split at h
  · cases h
    exact ⟨rfl, by assumption⟩
  · cases h

theorem dropProject_knows (h : db.dropProject projectId = some db') {q : String} :
    db'.knows q = true ↔ db.knows q = true ∧ q ≠ projectId := by
  obtain ⟨rfl, -⟩ := dropProject_some h
  rw [knows_iff, knows_iff]
  constructor
  · rintro ⟨p, hp, rfl⟩
    obtain ⟨hp, hne⟩ := List.mem_filter.mp hp
    exact ⟨⟨p, hp, rfl⟩, of_decide_eq_true hne⟩
  · rintro ⟨⟨p, hp, rfl⟩, hne⟩
    exact ⟨p, List.mem_filter.mpr ⟨hp, decide_eq_true hne⟩, rfl⟩

theorem dropProject_intact (h : db.dropProject projectId = some db') (hdb : db.Intact) :
    db'.Intact := by
  obtain ⟨rfl, hkeys⟩ := dropProject_some h
  exact ⟨hdb.projects.sublist (List.filter_sublist.map _), hdb.rows, hdb.outbox,
    hdb.syncStates.sublist (List.filter_sublist.map _), hdb.codes, hkeys⟩

theorem Refreshed.drop {db₁ : LocalDb} (hdrop : db.dropProject projectId = some db₁)
    (hgone : leavesAlone server projectId = false) (h : Refreshed server db₁ db') :
    Refreshed server db db' := by
  have hknows := fun q ↦ dropProject_knows hdrop (q := q)
  obtain ⟨he, hkeys⟩ := dropProject_some hdrop
  have hrows : db₁.rows = db.rows := by rw [he]
  refine ⟨h.rows.trans hrows, h.outbox.trans (by rw [he]), h.metadata.trans (by rw [he]),
    h.listed, fun q hq ↦ ?_, fun q hq ↦ ?_, fun r hr hr' ↦ ?_,
    fun hdb ↦ h.intact (dropProject_intact hdrop hdb)⟩
  · exact (h.only q hq).imp_left fun hq ↦ ((hknows q).mp hq).1
  · by_cases hne : q = projectId
    · refine Or.inr ⟨hne ▸ hgone, fun r hr href hproject ↦ ?_⟩
      have hk := foreignKeys_iff.mp hkeys r (hrows ▸ hr) href
      exact ((hknows _).mp hk).2 (hproject.trans hne)
    · exact hrows ▸ h.stays q ((hknows q).mpr ⟨hq, hne⟩)
  · refine h.states r ?_ hr'
    rw [he]
    refine List.mem_filter.mpr ⟨hr, decide_eq_true fun hne ↦ ?_⟩
    rcases h.only _ hr' with hk | halone
    · exact ((hknows _).mp hk).2 hne
    · exact Bool.noConfusion ((hne ▸ halone).symm.trans hgone)

theorem settle_refreshed (h : settle server todo db = some db') : Refreshed server db db' := by
  induction todo generalizing db with
  | nil =>
    cases h
    exact upsertProjects_refreshed
  | cons projectId todo ih =>
    unfold settle at h
    split at h
    · exact ih h
    · rename_i hdata
      obtain ⟨db₁, hdrop, hrest⟩ := Option.bind_eq_some_iff.mp h
      have hgone := (Bool.or_eq_false_iff.mp (Bool.not_eq_true _ ▸ hdata)).1
      exact (ih hrest).drop hdrop hgone

theorem settle_keeps (h : settle server todo db = some db') {q : String} {table : DataTable}
    (hq : db.knows q = true) (htable : table ∈ projectDataTables)
    (hheld : db.holds q table = true) : db'.knows q = true := by
  induction todo generalizing db with
  | nil =>
    cases h
    exact upsertProjects_knows.mpr (Or.inl hq)
  | cons projectId todo ih =>
    unfold settle at h
    split at h
    · exact ih h hq hheld
    · rename_i hdata
      obtain ⟨db₁, hdrop, hrest⟩ := Option.bind_eq_some_iff.mp h
      have hempty := (Bool.or_eq_false_iff.mp (Bool.not_eq_true _ ▸ hdata)).2
      have hne : q ≠ projectId := by
        rintro rfl
        exact Bool.noConfusion (hempty.symm.trans (List.any_eq_true.mpr ⟨table, htable, hheld⟩))
      refine ih hrest ((dropProject_knows hdrop).mpr ⟨hq, hne⟩) ?_
      obtain ⟨rfl, -⟩ := dropProject_some hdrop
      cases table <;> exact hheld

end LocalDb

/-- The project is there, and is local or has a row in that table. -/
def LocalDb.Needs (q : String) (table : DataTable) (db : LocalDb) : Prop :=
  db.knows q = true ∧ (isLocalId q = true ∨ db.holds q table = true)

theorem LocalDb.Needs.congr {q : String} {table : DataTable} {db db' : LocalDb}
    (h : db.Needs q table) (hrows : db'.rows = db.rows) (houtbox : db'.outbox = db.outbox)
    (hknows : db'.knows q = true) : db'.Needs q table := by
  refine ⟨hknows, h.2.imp_right fun hheld ↦ ?_⟩
  cases table with
  | rows entity => exact (congrArg (List.any · _) hrows).trans hheld
  | outbox => exact (congrArg (List.any · _) houtbox).trans hheld

namespace Shared

open LocalDb

variable {writes : LocalDb → LocalDb → Prop} {s s' : Shared} {q : String} {table : DataTable}

def Gone (s : Shared) : Prop := ∀ server projectId tables todo,
  s.refresh = some (server, .checking projectId tables todo) → leavesAlone server projectId = false

def Looked (q : String) (table : DataTable) (s : Shared) : Prop := ∀ server tables todo,
  s.refresh = some (server, .checking q tables todo) → table ∈ tables

theorem Refreshes.gone (h : s.Refreshes s') (hs : s.Gone) : s'.Gone := by
  intro server projectId tables todo he
  cases h with
  | look gone =>
    cases he
    exact gone
  | absent empty =>
    cases he
    exact hs _ _ _ _ rfl
  | begin | skip | found | drop | refuse | finish | raise => cases he

theorem Refreshes.looked (h : s.Refreshes s') (htable : table ∈ projectDataTables) (hgone : s.Gone)
    (hs : s.Looked q table) (hneeds : s.db.Needs q table) : s'.Looked q table := by
  intro server tables todo he
  cases h with
  | look gone =>
    cases he
    exact htable
  | absent empty =>
    cases he
    rcases List.mem_cons.mp (hs _ _ _ rfl) with rfl | hmem
    · have halone := hgone _ _ _ _ rfl
      rcases hneeds.2 with hlocal | hheld
      · rw [leavesAlone, hlocal, Bool.true_or] at halone
        cases halone
      · exact Bool.noConfusion (empty.symm.trans hheld)
    · exact hmem
  | begin | skip | found | drop | refuse | finish | raise => cases he

theorem Refreshes.refreshed (h : s.Refreshes s') (hs : s.Gone) : s'.db = s.db ∨
    ∃ server refresh, s.refresh = some (server, refresh) ∧ (Refreshed server s.db s'.db ∨
      ∃ q, leavesAlone server q = false ∧ s'.db = s.db.dropSyncState q) := by
  cases h with
  | drop dropped =>
    obtain ⟨db₁, hdrop, hrest⟩ := Option.bind_eq_some_iff.mp dropped
    exact Or.inr ⟨_, _, rfl, Or.inl ((settle_refreshed hrest).drop hdrop (hs _ _ _ _ rfl))⟩
  | refuse refused => exact Or.inr ⟨_, _, rfl, Or.inr ⟨_, hs _ _ _ _ rfl, rfl⟩⟩
  | finish => exact Or.inr ⟨_, _, rfl, Or.inl upsertProjects_refreshed⟩
  | begin | skip | look | found | absent | raise => exact Or.inl rfl

theorem Refreshes.needs (h : s.Refreshes s') (htable : table ∈ projectDataTables)
    (hs : s.Looked q table) (hneeds : s.db.Needs q table) : s'.db.Needs q table := by
  cases h with
  | @drop db db' server projectId todo dropped =>
    obtain ⟨db₁, hdrop, hrest⟩ := Option.bind_eq_some_iff.mp dropped
    have hne : q ≠ projectId := by
      rintro rfl
      exact List.not_mem_nil (hs server [] todo rfl)
    have hknows := (dropProject_knows hdrop).mpr ⟨hneeds.1, hne⟩
    have hall := settle_refreshed hrest
    obtain ⟨he, -⟩ := dropProject_some hdrop
    have hneeds₁ : db₁.Needs q table := hneeds.congr (by rw [he]) (by rw [he]) hknows
    refine hneeds₁.congr hall.rows hall.outbox ?_
    rcases hneeds₁.2 with hlocal | hheld
    · refine (hall.stays q hknows).resolve_right fun hboth ↦ ?_
      have hfalse := hboth.1
      rw [leavesAlone, hlocal, Bool.true_or] at hfalse
      cases hfalse
    · exact settle_keeps hrest hknows htable hheld
  | finish => exact hneeds.congr rfl rfl (upsertProjects_knows.mpr (Or.inl hneeds.1))
  | refuse => exact hneeds.congr rfl rfl hneeds.1
  | begin | skip | look | found | absent | raise => exact hneeds

theorem Runs.gone (hr : Runs writes s s') (hidle : s.refresh = none) : s'.Gone := by
  induction hr with
  | refl => exact fun server projectId tables todo he ↦ nomatch hidle.symm.trans he
  | tail _ hs ih =>
    rcases hs with hs | ⟨-, he⟩
    · exact hs.gone ih
    · exact fun server projectId tables todo hrefresh ↦ ih _ _ _ _ (he ▸ hrefresh)

/-- A refresh of the list of projects loses no row, no queued change and no bootstrap key, whatever
the other connection writes meanwhile; it drops no project that is local, that the server lists or
that a row refers to, and a project that has data in one table throughout is there in the end. -/
theorem refresh_keeps_local_work (hwrites : ∀ db db', writes db db' → db.Intact → db'.Intact)
    (hr : Runs writes s s') (hidle : s.refresh = none) (hdb : s.db.Intact) :
    s'.db.Intact ∧
    (∀ s'', s'.Refreshes s'' → s''.db = s'.db ∨
      ∃ server refresh, s'.refresh = some (server, refresh) ∧ (Refreshed server s'.db s''.db ∨
        ∃ q, leavesAlone server q = false ∧ s''.db = s'.db.dropSyncState q)) ∧
    ∀ q table, table ∈ projectDataTables →
      (∀ db db', writes db db' → db.Needs q table → db'.Needs q table) →
      s.db.Needs q table → s'.db.Needs q table := by
  refine ⟨?_, fun s'' h ↦ h.refreshed (hr.gone hidle), fun q table htable hkeeps hneeds ↦ ?_⟩
  · induction hr with
    | refl => exact hdb
    | tail hr hs ih =>
      rcases hs with hs | ⟨hw, -⟩
      · rcases hs.refreshed (Runs.gone hr hidle) with he | ⟨server, refresh, -, h | ⟨q, -, he⟩⟩
        · exact he ▸ ih
        · exact h.intact ih
        · exact he ▸ dropSyncState_intact ih
      · exact hwrites _ _ hw ih
  · have hboth : s'.db.Needs q table ∧ s'.Looked q table := by
      induction hr with
      | refl => exact ⟨hneeds, fun server tables todo he ↦ nomatch hidle.symm.trans he⟩
      | tail hr hs ih =>
        rcases hs with hs | ⟨hw, he⟩
        · exact ⟨hs.needs htable ih.2 ih.1, hs.looked htable (Runs.gone hr hidle) ih.2 ih.1⟩
        · refine ⟨hkeeps _ _ hw ih.1, fun server tables todo hrefresh ↦ ?_⟩
          exact ih.2 server tables todo (he ▸ hrefresh)
    exact hboth.1

/-- The queued change of a user's edit to `"p2"`. -/
def sampleEdit : Owned Entry :=
  ⟨"p2", ⟨9, .risk, .upsert, 3, some 4, .empty, .pending, none, {}, 0, none, none, 6⟩⟩

/-- The transaction of the edit, on the other connection. -/
def Edits (db db' : LocalDb) : Prop :=
  (∀ e ∈ db.outbox, e.row.changeId ≠ 9) ∧ db' = { db with outbox := db.outbox ++ [sampleEdit] }

theorem Edits.intact {db db' : LocalDb} (h : Edits db db') (hdb : db.Intact) : db'.Intact := by
  obtain ⟨hnew, rfl⟩ := h
  refine ⟨hdb.projects, hdb.rows, ?_, hdb.syncStates, hdb.codes, hdb.foreignKeys⟩
  rw [List.map_append, List.map_singleton, List.nodup_append]
  refine ⟨hdb.outbox, List.nodup_singleton _, fun changeId hold k hk ↦ ?_⟩
  obtain ⟨e, he, rfl⟩ := List.mem_map.mp hold
  rw [List.mem_singleton.mp hk]
  exact hnew e he

def edited : LocalDb :=
  { sampleLocalDb with outbox := sampleLocalDb.outbox ++ [sampleEdit] }

/-- The edit is committed while the refresh looks at the tables of `"p2"`. -/
theorem sampleRefresh_runs : Runs Edits ⟨sampleLocalDb, none⟩
    ⟨edited.upsertProjects [⟨"p3", "New", "", "me"⟩], none⟩ := by
  refine Relation.ReflTransGen.head (Or.inl (Refreshes.begin [⟨"p3", "New", "", "me"⟩])) ?_
  refine Relation.ReflTransGen.head (Or.inl (Refreshes.skip (by decide))) ?_
  refine Relation.ReflTransGen.head (Or.inl (Refreshes.look (by decide))) ?_
  have hedits : Edits sampleLocalDb edited := ⟨by decide, rfl⟩
  refine Relation.ReflTransGen.head (b := ⟨edited, _⟩) (Or.inr ⟨hedits, rfl⟩) ?_
  refine Relation.ReflTransGen.head (Or.inl (Refreshes.found (by decide))) ?_
  exact Relation.ReflTransGen.single (Or.inl Refreshes.finish)

theorem refresh_keeps_local_work_sample :
    (edited.upsertProjects [⟨"p3", "New", "", "me"⟩]).Intact ∧
    (edited.upsertProjects [⟨"p3", "New", "", "me"⟩]).Needs "p2" (.rows .risk) ∧
    sampleEdit ∈ (edited.upsertProjects [⟨"p3", "New", "", "me"⟩]).outbox := by
  have hneeds : ∀ db db' : LocalDb, Edits db db' → db.Needs "p2" (.rows .risk) →
      db'.Needs "p2" (.rows .risk) := by
    rintro db _ ⟨-, rfl⟩ hdb
    exact hdb
  obtain ⟨hintact, -, hkept⟩ := refresh_keeps_local_work (fun _ _ h ↦ h.intact) sampleRefresh_runs
    rfl sampleLocalDb_intact
  exact ⟨hintact, hkept "p2" (.rows .risk) (by simp [projectDataTables]) hneeds
    ⟨by decide, Or.inr (by decide)⟩, List.mem_append_right _ List.mem_cons_self⟩

end Shared

end RiskApp.Client
