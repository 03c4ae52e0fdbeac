import Mathlib.Data.String.Basic
import RiskApp.Client.ProjectLists

namespace RiskApp.Client

open Lib

inductive ProjectsAnswer
  | offline
  | answers (server : List Project)
  | fails (status : ℕ)

def isAnonymousLocal (p : Project) : Bool := isLocalId p.id && p.createdBy = ""

/-- `_fetch_remote_projects`: only a request that was itself invalid raises. -/
def fetchRemoteProjects : ProjectsAnswer → Except Unit (Option (List Project))
  | .offline => .ok none
  | .answers server => .ok (some server)
  | .fails status =>
    if (classifyHttpStatus status).1 = .validation then .error () else .ok none

namespace LocalDb

def storedProjects (db : LocalDb) : List Project :=
  db.projects.mergeSort fun p q ↦ p.name ≤ q.name

def visibleCachedProjects (anonymousOffline : Bool) (db : LocalDb) : List Project :=
  db.storedProjects.filter fun p ↦ isAnonymousLocal p = anonymousOffline

def withSyncableLocalProjects (server : List Project) (db : LocalDb) : List Project :=
  Table.dict Project.id
    (server ++ db.storedProjects.filter fun p ↦ isLocalId p.id && p.createdBy ≠ "")

def putMeta (key value : String) (db : LocalDb) : LocalDb :=
  { db with metadata := Function.update db.metadata key (some value) }

def createLocalProject (p : Project) (db : LocalDb) : LocalDb := db.upsertProjects [p]

def bootstrapKey (anonymousOffline : Bool) : String :=
  if anonymousOffline then "bootstrap_anon_project_id" else "bootstrap_user_project_id"

def sessionOwner (anonymousOffline : Bool) (db : LocalDb) : String :=
  if anonymousOffline then "" else (db.metadata "last_email").getD ""

def newBootstrapProject (anonymousOffline : Bool) (newId : String) (db : LocalDb) : Project :=
  ⟨newId, "Local Project", "Offline project", db.sessionOwner anonymousOffline⟩

/-- `_bootstrap_local_project`; `newId` is the id that is drawn. -/
def bootstrapLocalProject (anonymousOffline : Bool) (newId : String) (db : LocalDb) :
    Project × LocalDb :=
  let existing := (db.metadata (bootstrapKey anonymousOffline)).bind fun bootstrapId ↦
    if bootstrapId = "" then none else getProject bootstrapId db
  match existing with
  | some p => (p, db)
  | none =>
    let p := db.newBootstrapProject anonymousOffline newId
    (p, (db.createLocalProject p).putMeta (bootstrapKey anonymousOffline) p.id)

/-- The part of `list_projects` that works on the cache. -/
def listCached (anonymousOffline online : Bool) (newId : String) (db : LocalDb) :
    List Project × LocalDb :=
  let cached := db.visibleCachedProjects anonymousOffline
  if cached ≠ [] || online then (cached, db)
  else
    let (p, db) := db.bootstrapLocalProject anonymousOffline newId
    ([p], db)

def listProjects (anonymousOffline : Bool) (answer : ProjectsAnswer) (newId : String)
    (db : LocalDb) : Except Unit (List Project × LocalDb) :=
  match fetchRemoteProjects answer with
  | .error e => .error e
  | .ok (some server) => match db.syncProjects server with
    | none => .error ()
    | some db =>
      if anonymousOffline then .ok (db.listCached true true newId)
      else .ok (db.withSyncableLocalProjects server, db)
  | .ok none =>
    .ok (db.listCached anonymousOffline (answer matches .fails _) newId)

/-- `list_sync_projects`, once the server has answered. -/
def listSyncProjects (server : List Project) (db : LocalDb) : Option (List Project × LocalDb) :=
  (db.syncProjects server).map fun db ↦ (db.withSyncableLocalProjects server, db)

/-- A new project id, `local-` and a random UUID. -/
def Draws (db : LocalDb) (newId : String) : Prop := isLocalId newId = true ∧ db.Unused newId

/-- Logging in stores the address before a session of the account starts. -/
def SignedIn (anonymousOffline : Bool) (db : LocalDb) : Prop :=
  anonymousOffline = true ∨ db.sessionOwner false ≠ ""

end LocalDb

/-- The server draws its ids itself, and none of them is local. -/
def FromServer (ps : List Project) : Prop := ∀ p ∈ ps, isLocalId p.id = false

def ProjectsAnswer.Genuine (answer : ProjectsAnswer) : Prop :=
  ∀ server, answer = .answers server → FromServer server

open LocalDb in
/-- What the sessions on a device do to the list of projects. -/
inductive Happens : LocalDb → List String → LocalDb → Prop
  | login {db : LocalDb} {email : String} (given : email ≠ "") :
      Happens db [] (db.putMeta "last_email" email)
  | lists {db db' : LocalDb} {anonymousOffline : Bool} {answer : ProjectsAnswer} {newId : String}
      {shown : List Project} (signedIn : db.SignedIn anonymousOffline) (genuine : answer.Genuine)
      (drawn : db.Draws newId)
      (listed : db.listProjects anonymousOffline answer newId = .ok (shown, db')) :
      Happens db [] db'
  | synchronizes {db db' : LocalDb} {server shown : List Project} (genuine : FromServer server)
      (listed : db.listSyncProjects server = some (shown, db')) : Happens db [] db'
  | creates {db : LocalDb} {anonymousOffline : Bool} {p : Project}
      (signedIn : db.SignedIn anonymousOffline) (drawn : db.Draws p.id)
      (owner : p.createdBy = db.sessionOwner anonymousOffline) :
      Happens db [] (db.createLocalProject p)
  | createsOnServer {db : LocalDb} {p : Project} (genuine : isLocalId p.id = false) :
      Happens db [] (db.upsertProjects [p])
  | works {db db' : LocalDb} (projects : db'.projects = db.projects)
      (metadata : db'.metadata = db.metadata) (intact : db'.Intact) : Happens db [] db'
  -- what is known of the transaction of `_promote_local_project` that completes
  | publishes {db db' : LocalDb} {p created : Project} (stored : getProject p.id db = some p)
      (isLocal : isLocalId p.id = true) (owned : p.createdBy ≠ "")
      (genuine : isLocalId created.id = false) (moved : db.Moved p.id created.id db')
      (published : db.Published p.id created.id db') : Happens db [p.id] db'

inductive Happened (db : LocalDb) : List String → LocalDb → Prop
  | refl : Happened db [] db
  | tail {published : List String} {db' : LocalDb} {now : List String} {db'' : LocalDb}
      (run : Happened db published db') (step : Happens db' now db'') :
      Happened db (published ++ now) db''

namespace LocalDb

variable {db db' : LocalDb} {server : List Project} {projectId : String} {todo : List String}

theorem dropProject_getProject (h : db.dropProject projectId = some db') {q : String}
    (hne : q ≠ projectId) : getProject q db' = getProject q db := by
  obtain ⟨rfl, -⟩ := dropProject_some h
  exact Table.find_filter Project.id q db.projects fun p _ he ↦ decide_eq_true (he ▸ hne)

theorem settle_getProject (h : settle server todo db = some db') {q : String}
    (hq : leavesAlone server q = true) : getProject q db' =
      (Table.find Project.id q server.reverse).or (getProject q db) := by
  induction todo generalizing db with
  | nil =>
    cases h
    exact getProject_upsertProjects
  | cons projectId todo ih =>
    unfold settle at h
    split at h
    · exact ih h
    · rename_i hdata
      obtain ⟨db₁, hdrop, hrest⟩ := Option.bind_eq_some_iff.mp h
      have hgone := (Bool.or_eq_false_iff.mp (Bool.not_eq_true _ ▸ hdata)).1
      have hne : q ≠ projectId := by
        rintro rfl
        exact Bool.noConfusion (hgone.symm.trans hq)
      rw [ih hrest, dropProject_getProject hdrop hne]

theorem hasLocalData_of_row {r : Owned CachedRow} (hr : r ∈ db.rows) :
    db.hasLocalData r.projectId = true := by
  refine List.any_eq_true.mpr ⟨.rows r.row.entity, ?_, List.any_eq_true.mpr ⟨r, hr, by simp⟩⟩
  cases r.row.entity <;> simp [projectDataTables]

theorem dropProject_total (hdb : db.Intact) (hempty : db.hasLocalData projectId = false) :
    ∃ db', db.dropProject projectId = some db' := by
  refine ⟨_, if_pos (foreignKeys_iff.mpr fun r hr href ↦ ?_)⟩
  obtain ⟨p, hp, he⟩ := knows_iff.mp (foreignKeys_iff.mp hdb.foreignKeys r hr href)
  refine knows_iff.mpr ⟨p, List.mem_filter.mpr ⟨hp, decide_eq_true fun hid ↦ ?_⟩, he⟩
  exact Bool.noConfusion (hempty.symm.trans (hid ▸ he ▸ hasLocalData_of_row hr))

theorem settle_total (hdb : db.Intact) : ∃ db', settle server todo db = some db' := by
  induction todo generalizing db with
  | nil => exact ⟨_, rfl⟩
  | cons projectId todo ih =>
    unfold settle
    split
    · exact ih hdb
    · rename_i hdata
      have hempty := (Bool.or_eq_false_iff.mp (Bool.not_eq_true _ ▸ hdata)).2
      obtain ⟨db₁, hdrop⟩ := dropProject_total hdb hempty
      rw [hdrop]
      exact ih (dropProject_intact hdrop hdb)

theorem find_fromServer (hserver : FromServer server) {q : String} (hq : isLocalId q = true) :
    Table.find Project.id q server.reverse = none := by
  refine (Table.find_eq_none Project.id).mpr fun p hp he ↦ ?_
  exact Bool.noConfusion ((hserver p (List.mem_reverse.mp hp)).symm.trans (he ▸ hq))

theorem syncProjects_local (h : db.syncProjects server = some db') (hserver : FromServer server)
    {q : String} (hq : isLocalId q = true) : getProject q db' = getProject q db := by
  rw [settle_getProject h (by rw [leavesAlone, hq, Bool.true_or]), find_fromServer hserver hq,
    Option.none_or]

theorem mem_storedProjects (hdb : db.Intact) {p : Project} :
    p ∈ db.storedProjects ↔ getProject p.id db = some p :=
  List.mem_mergeSort.trans (Table.mem_iff_find Project.id hdb.projects)

theorem nodup_storedProjects (hdb : db.Intact) : (db.storedProjects.map Project.id).Nodup :=
  ((List.mergeSort_perm ..).map Project.id).nodup_iff.mpr hdb.projects

theorem mem_visibleCachedProjects (hdb : db.Intact) {anonymousOffline : Bool} {p : Project} :
    p ∈ db.visibleCachedProjects anonymousOffline ↔
      getProject p.id db = some p ∧ isAnonymousLocal p = anonymousOffline := by
  rw [visibleCachedProjects, List.mem_filter, mem_storedProjects hdb, decide_eq_true_eq]

theorem nodup_visibleCachedProjects (hdb : db.Intact) (anonymousOffline : Bool) :
    ((db.visibleCachedProjects anonymousOffline).map Project.id).Nodup :=
  (nodup_storedProjects hdb).sublist (List.filter_sublist.map _)

theorem mem_withSyncableLocalProjects (h : db.syncProjects server = some db') (hdb : db.Intact)
    (hserver : FromServer server) {p : Project} : p ∈ db'.withSyncableLocalProjects server ↔
      getProject p.id db' = some p ∧ isAnonymousLocal p = false ∧
        leavesAlone server p.id = true := by
  have hdb' : db'.Intact := (settle_refreshed h).intact hdb
  let owned := db'.storedProjects.filter fun p ↦ isLocalId p.id && p.createdBy ≠ ""
  have howned : ∀ p, p ∈ owned ↔
      getProject p.id db' = some p ∧ isLocalId p.id = true ∧ p.createdBy ≠ "" := by
    intro p
    rw [List.mem_filter, mem_storedProjects hdb', Bool.and_eq_true, decide_eq_true_eq]
  have hnodup : (owned.reverse.map Project.id).Nodup := by
    rw [List.map_reverse, List.nodup_reverse]
    exact (nodup_storedProjects hdb').sublist (List.filter_sublist.map _)
  have hmem : p ∈ db'.withSyncableLocalProjects server ↔
      (Table.find Project.id p.id owned.reverse).or (Table.find Project.id p.id server.reverse) =
        some p := by
    rw [withSyncableLocalProjects, Table.mem_iff_find Project.id (Table.nodup_dict ..),
      Table.find_dict, List.reverse_append, Table.find_append]
  rw [hmem]
  cases hlocal : isLocalId p.id with
  | true =>
    rw [find_fromServer hserver hlocal, Option.or_none, ← Table.mem_iff_find Project.id hnodup,
      List.mem_reverse, howned, isAnonymousLocal, leavesAlone, hlocal]
    simp
  | false =>
    have hnone : Table.find Project.id p.id owned.reverse = none := by
      refine (Table.find_eq_none Project.id).mpr fun q hq he ↦ ?_
      have hq := ((howned q).mp (List.mem_reverse.mp hq)).2.1
      exact Bool.noConfusion (hlocal.symm.trans (he ▸ hq))
    rw [hnone, Option.none_or, isAnonymousLocal, hlocal, Bool.false_and]
    constructor
    · intro hfind
      have halone : leavesAlone server p.id = true := by
        rw [leavesAlone, Bool.or_eq_true]
        have hp := List.mem_reverse.mp (Table.mem_of_find Project.id hfind)
        exact Or.inr (List.any_eq_true.mpr ⟨p, hp, by simp⟩)
      refine ⟨?_, rfl, halone⟩
      rw [settle_getProject h halone, hfind, Option.some_or]
    · rintro ⟨hget, -, halone⟩
      rw [settle_getProject h halone] at hget
      rw [leavesAlone, hlocal, Bool.false_or] at halone
      obtain ⟨q, hq, hid⟩ := List.any_eq_true.mp halone
      have hsome := Table.find_isSome Project.id (List.mem_reverse.mpr hq) (of_decide_eq_true hid)
      obtain ⟨r, hr⟩ := Option.isSome_iff_exists.mp hsome
      rwa [hr, Option.some_or, ← hr] at hget

structure Sound (db : LocalDb) : Prop where
  intact : db.Intact
  keys : ∀ anonymousOffline id, db.metadata (bootstrapKey anonymousOffline) = some id →
    (anonymousOffline = true ∨ isLocalId id = true) →
    ∃ p, getProject id db = some p ∧ isAnonymousLocal p = anonymousOffline

theorem isLocalId_of_anonymous {id : String} {p : Project} (hp : getProject id db = some p)
    (hanonymous : isAnonymousLocal p = true) : isLocalId id = true := by
  rw [← Table.key_of_find Project.id hp]
  exact (Bool.and_eq_true_iff.mp hanonymous).1

theorem Sound.transfer (h : db.Sound) (hdb' : db'.Intact)
    (hmetadata : ∀ anonymousOffline, db'.metadata (bootstrapKey anonymousOffline) =
      db.metadata (bootstrapKey anonymousOffline))
    (hlocal : ∀ q p, isLocalId q = true → getProject q db = some p → getProject q db' = some p) :
    db'.Sound := by
  refine ⟨hdb', fun anonymousOffline id hid hkind ↦ ?_⟩
  obtain ⟨p, hp, hanonymous⟩ := h.keys anonymousOffline id (hmetadata _ ▸ hid) hkind
  refine ⟨p, hlocal id p ?_ hp, hanonymous⟩
  rcases hkind with rfl | hkind
  · exact isLocalId_of_anonymous hp hanonymous
  · exact hkind

/-- Local projects stay as they are, unless they have an owner and are published. -/
def StaysLocal (published : List String) (db db' : LocalDb) : Prop :=
  ∀ q p, isLocalId q = true → getProject q db = some p →
    getProject q db' = some p ∨ p.createdBy ≠ "" ∧ q ∈ published

theorem Sound.keepsLocal (h : db.Sound) (hdb' : db'.Intact)
    (hmetadata : ∀ anonymousOffline, db'.metadata (bootstrapKey anonymousOffline) =
      db.metadata (bootstrapKey anonymousOffline))
    (hlocal : ∀ q p, isLocalId q = true → getProject q db = some p → getProject q db' = some p) :
    db'.Sound ∧ StaysLocal [] db db' :=
  ⟨h.transfer hdb' hmetadata hlocal, fun q p hq hp ↦ Or.inl (hlocal q p hq hp)⟩

theorem createLocalProject_getProject {p : Project} (hdrawn : db.Draws p.id) {q : String}
    {old : Project} (hq : getProject q db = some old) :
    getProject q (db.createLocalProject p) = some old := by
  have hne : p.id ≠ q := by
    rintro rfl
    exact hdrawn.2.projects old (Table.mem_of_find Project.id hq) (Table.key_of_find Project.id hq)
  have hnone : Table.find Project.id q [p].reverse = none := by
    rw [List.reverse_singleton, Table.find_singleton, if_neg hne]
  rw [createLocalProject, getProject_upsertProjects, hnone, Option.none_or, hq]

section Listing

variable {anonymousOffline : Bool} {newId : String}

theorem Sound.bootstrap (h : db.Sound) (hempty : db.visibleCachedProjects anonymousOffline = []) :
    db.bootstrapLocalProject anonymousOffline newId =
      (db.newBootstrapProject anonymousOffline newId,
        (db.createLocalProject (db.newBootstrapProject anonymousOffline newId)).putMeta
          (bootstrapKey anonymousOffline) newId) := by
  have hnone : ((db.metadata (bootstrapKey anonymousOffline)).bind fun bootstrapId ↦
      if bootstrapId = "" then none else getProject bootstrapId db) = none := by
    refine Option.eq_none_iff_forall_ne_some.mpr fun p hp ↦ ?_
    obtain ⟨id, hid, hget⟩ := Option.bind_eq_some_iff.mp hp
    split at hget
    · cases hget
    · have hkind : isAnonymousLocal p = anonymousOffline := by
        by_cases hlocal : anonymousOffline = true ∨ isLocalId id = true
        · obtain ⟨p', hp', hkind⟩ := h.keys anonymousOffline id hid hlocal
          cases hget.symm.trans hp'
          exact hkind
        · have hboth := not_or.mp hlocal
          have hfalse : isLocalId p.id = false := by
            rw [Table.key_of_find Project.id hget]
            exact Bool.eq_false_of_not_eq_true hboth.2
          rw [isAnonymousLocal, hfalse, Bool.false_and, Bool.eq_false_of_not_eq_true hboth.1]
      have hmem := (mem_visibleCachedProjects h.intact (p := p)).mpr
        ⟨Table.key_of_find Project.id hget ▸ hget, hkind⟩
      rw [hempty] at hmem
      exact List.not_mem_nil hmem
  unfold bootstrapLocalProject
  rw [hnone]
  rfl

theorem newBootstrapProject_kind (hdrawn : db.Draws newId)
    (hsigned : db.SignedIn anonymousOffline) :
    isAnonymousLocal (db.newBootstrapProject anonymousOffline newId) = anonymousOffline := by
  have hlocal : isLocalId (db.newBootstrapProject anonymousOffline newId).id = true := hdrawn.1
  rw [isAnonymousLocal, hlocal, Bool.true_and]
  cases anonymousOffline with
  | true => exact decide_eq_true rfl
  | false => exact decide_eq_false (hsigned.resolve_left Bool.false_ne_true)

theorem putMeta_self {value : String} (key : String) :
    (db.putMeta key value).metadata key = some value := Function.update_self ..

theorem putMeta_of_ne {key key' value : String} (h : key' ≠ key) :
    (db.putMeta key value).metadata key' = db.metadata key' := Function.update_of_ne h ..

theorem putMeta_intact {key value : String} (h : db.Intact) : (db.putMeta key value).Intact :=
  ⟨h.projects, h.rows, h.outbox, h.syncStates, h.codes, h.foreignKeys⟩

theorem bootstrapKey_inj {a b : Bool} (h : bootstrapKey a = bootstrapKey b) : a = b := by
  revert h
  cases a <;> cases b <;> decide

theorem createLocalProject_self {p : Project} :
    getProject p.id (db.createLocalProject p) = some p := by
  rw [createLocalProject, getProject_upsertProjects, List.reverse_singleton, Table.find_singleton,
    if_pos rfl, Option.some_or]

theorem createLocalProject_intact (hdb : db.Intact) {p : Project} :
    (db.createLocalProject p).Intact := upsertProjects_refreshed.intact hdb

theorem Sound.bootstrapped (h : db.Sound) (hdrawn : db.Draws newId)
    (hsigned : db.SignedIn anonymousOffline) :
    ((db.createLocalProject (db.newBootstrapProject anonymousOffline newId)).putMeta
      (bootstrapKey anonymousOffline) newId).Sound := by
  refine ⟨?_, fun kind id hid hkind ↦ ?_⟩
  · exact putMeta_intact (createLocalProject_intact h.intact)
  · by_cases he : kind = anonymousOffline
    · subst he
      cases (putMeta_self (bootstrapKey kind)).symm.trans hid
      exact ⟨_, createLocalProject_self (p := db.newBootstrapProject kind newId),
        newBootstrapProject_kind hdrawn hsigned⟩
    · rw [putMeta_of_ne fun hkey ↦ he (bootstrapKey_inj hkey)] at hid
      obtain ⟨p, hp, hanonymous⟩ := h.keys kind id hid hkind
      exact ⟨p, createLocalProject_getProject (p := db.newBootstrapProject anonymousOffline newId)
        hdrawn hp, hanonymous⟩

/-- What a listing shows, and what it leaves in the file. -/
structure Listed (anonymousOffline : Bool) (answer : ProjectsAnswer) (db : LocalDb)
    (shown : List Project) (db' : LocalDb) : Prop where
  sound : db'.Sound
  stays : StaysLocal [] db db'
  rows : db'.rows = db.rows
  outbox : db'.outbox = db.outbox
  nodup : (shown.map Project.id).Nodup
  mem : ∀ p, p ∈ shown ↔ getProject p.id db' = some p ∧ isAnonymousLocal p = anonymousOffline ∧
    ∀ server, answer = .answers server → anonymousOffline = false → leavesAlone server p.id = true
  nonempty : answer = .offline → shown ≠ []

theorem Sound.synced (h : db.Sound) (hserver : FromServer server)
    (hsync : db.syncProjects server = some db') : db'.Sound := by
  refine h.transfer ((settle_refreshed hsync).intact h.intact) (fun _ ↦ ?_) fun q p hq hp ↦ ?_
  · rw [(settle_refreshed hsync).metadata]
  · rw [syncProjects_local hsync hserver hq, hp]

theorem StaysLocal.refl (db : LocalDb) : StaysLocal [] db db := fun _ _ _ hp ↦ Or.inl hp

theorem Sound.cached_listed (h : db.Sound) {answer : ProjectsAnswer}
    (hcache : ∀ server, answer = .answers server → anonymousOffline = true)
    (hsome : answer = .offline → db.visibleCachedProjects anonymousOffline ≠ []) :
    Listed anonymousOffline answer db (db.visibleCachedProjects anonymousOffline) db := by
  refine ⟨h, StaysLocal.refl db, rfl, rfl, nodup_visibleCachedProjects h.intact _, fun p ↦ ?_,
    hsome⟩
  rw [mem_visibleCachedProjects h.intact]
  refine and_congr_right fun _ ↦ ⟨fun hkind ↦ ⟨hkind, fun server hanswer hfalse ↦ ?_⟩, And.left⟩
  exact Bool.noConfusion ((hcache server hanswer).symm.trans hfalse)

theorem Sound.bootstrap_listed (h : db.Sound) (hdrawn : db.Draws newId)
    (hsigned : db.SignedIn anonymousOffline)
    (hempty : db.visibleCachedProjects anonymousOffline = []) :
    Listed anonymousOffline .offline db [db.newBootstrapProject anonymousOffline newId]
      ((db.createLocalProject (db.newBootstrapProject anonymousOffline newId)).putMeta
        (bootstrapKey anonymousOffline) newId) := by
  refine ⟨h.bootstrapped hdrawn hsigned, fun q p _ hp ↦ Or.inl ?_, rfl, rfl, by simp,
    fun p ↦ ?_, fun _ ↦ List.cons_ne_nil _ _⟩
  · exact createLocalProject_getProject (p := db.newBootstrapProject anonymousOffline newId)
      hdrawn hp
  · rw [List.mem_singleton]
    constructor
    · rintro rfl
      exact ⟨createLocalProject_self (p := db.newBootstrapProject anonymousOffline newId),
        newBootstrapProject_kind hdrawn hsigned, fun server hanswer ↦ nomatch hanswer⟩
    · rintro ⟨hget, hkind, -⟩
      by_contra hne
      have hold : getProject p.id db = some p := by
        have hget : getProject p.id (db.createLocalProject
            (db.newBootstrapProject anonymousOffline newId)) = some p := hget
        rw [createLocalProject, getProject_upsertProjects, List.reverse_singleton,
          Table.find_singleton] at hget
        split at hget
        · exact absurd (Option.some.inj hget).symm hne
        · exact hget
      have hmem := (mem_visibleCachedProjects h.intact).mpr ⟨hold, hkind⟩
      rw [hempty] at hmem
      exact List.not_mem_nil hmem

theorem StaysLocal.trans {published now : List String} {db'' : LocalDb}
    (h : StaysLocal published db db') (h' : StaysLocal now db' db'') :
    StaysLocal (published ++ now) db db'' := by
  intro q p hq hp
  rcases h q p hq hp with hp' | ⟨howner, hmem⟩
  · rcases h' q p hq hp' with hp'' | ⟨howner, hmem⟩
    · exact Or.inl hp''
    · exact Or.inr ⟨howner, List.mem_append_right _ hmem⟩
  · exact Or.inr ⟨howner, List.mem_append_left _ hmem⟩

theorem syncProjects_staysLocal (hserver : FromServer server)
    (hsync : db.syncProjects server = some db') : StaysLocal [] db db' := by
  intro q p hq hp
  rw [syncProjects_local hsync hserver hq]
  exact Or.inl hp

theorem Sound.listProjects (h : db.Sound) {answer : ProjectsAnswer} (genuine : answer.Genuine)
    (hdrawn : db.Draws newId) (hsigned : db.SignedIn anonymousOffline) :
    match db.listProjects anonymousOffline answer newId with
    | .error () => ∃ status, answer = .fails status ∧ (classifyHttpStatus status).1 = .validation
    | .ok (shown, db') => Listed anonymousOffline answer db shown db' := by
  unfold LocalDb.listProjects
  cases answer with
  | offline =>
    change Listed anonymousOffline .offline db (db.listCached anonymousOffline false newId).1
      (db.listCached anonymousOffline false newId).2
    unfold listCached
    by_cases hcached : db.visibleCachedProjects anonymousOffline = []
    · rw [if_neg (by simp [hcached]), h.bootstrap hcached]
      exact h.bootstrap_listed hdrawn hsigned hcached
    · rw [if_pos (by simp [hcached])]
      exact h.cached_listed (fun server hanswer ↦ nomatch hanswer) fun _ ↦ hcached
  | fails status =>
    by_cases hstatus : (classifyHttpStatus status).1 = .validation
    · have hfetch : fetchRemoteProjects (.fails status) = .error () := if_pos hstatus
      rw [hfetch]
      exact ⟨status, rfl, hstatus⟩
    · have hfetch : fetchRemoteProjects (.fails status) = .ok none := if_neg hstatus
      rw [hfetch]
      change Listed anonymousOffline (.fails status) db
        (db.listCached anonymousOffline true newId).1 (db.listCached anonymousOffline true newId).2
      unfold listCached
      rw [if_pos (by simp)]
      exact h.cached_listed (fun server hanswer ↦ nomatch hanswer) fun hanswer ↦ nomatch hanswer
  | answers server =>
    have hserver : FromServer server := genuine server rfl
    obtain ⟨db₁, hsync⟩ : ∃ db₁, db.syncProjects server = some db₁ := settle_total h.intact
    have hstays := syncProjects_staysLocal hserver hsync
    have hall := settle_refreshed hsync
    have hfetch : fetchRemoteProjects (.answers server) = .ok (some server) := rfl
    rw [hfetch]
    dsimp only
    rw [hsync]
    cases anonymousOffline with
    | true =>
      change Listed true (.answers server) db (db₁.listCached true true newId).1
        (db₁.listCached true true newId).2
      have hlist : Listed true (.answers server) db₁ (db₁.visibleCachedProjects true) db₁ :=
        (h.synced hserver hsync).cached_listed (fun _ _ ↦ rfl) fun hanswer ↦ nomatch hanswer
      unfold listCached
      rw [if_pos (by simp)]
      exact ⟨hlist.sound, hstays, hall.rows, hall.outbox, hlist.nodup, hlist.mem, hlist.nonempty⟩
    | false =>
      refine ⟨h.synced hserver hsync, hstays, hall.rows, hall.outbox, Table.nodup_dict ..,
        fun p ↦ ?_, fun hanswer ↦ nomatch hanswer⟩
      rw [mem_withSyncableLocalProjects hsync h.intact hserver]
      refine and_congr_right fun _ ↦ and_congr_right fun _ ↦ ⟨fun halone server' hanswer _ ↦ ?_,
        fun hlist ↦ hlist server rfl rfl⟩
      cases hanswer
      exact halone

end Listing

theorem Sound.createdLocally (h : db.Sound) {p : Project} (hdrawn : db.Draws p.id) :
    (db.createLocalProject p).Sound ∧ StaysLocal [] db (db.createLocalProject p) := by
  refine h.keepsLocal (createLocalProject_intact h.intact) (fun _ ↦ rfl) fun q old _ hq ↦ ?_
  exact createLocalProject_getProject hdrawn hq

theorem upsertProjects_local (hserver : FromServer server) {q : String}
    (hq : isLocalId q = true) : getProject q (db.upsertProjects server) = getProject q db := by
  rw [getProject_upsertProjects, find_fromServer hserver hq, Option.none_or]

theorem Sound.createdOnServer (h : db.Sound) {p : Project} (hp : isLocalId p.id = false) :
    (db.upsertProjects [p]).Sound ∧ StaysLocal [] db (db.upsertProjects [p]) := by
  have hserver : FromServer [p] := fun q hq ↦ by rw [List.mem_singleton.mp hq, hp]
  refine h.keepsLocal (upsertProjects_refreshed.intact h.intact) (fun _ ↦ rfl)
    fun q old hq hget ↦ ?_
  rw [upsertProjects_local hserver hq, hget]

theorem bootstrapKey_mem (anonymousOffline : Bool) :
    bootstrapKey anonymousOffline ∈ bootstrapMetaKeys := by
  cases anonymousOffline <;> decide

theorem bootstrapKey_ne (anonymousOffline : Bool) :
    bootstrapKey anonymousOffline ≠ "last_email" := by
  cases anonymousOffline <;> decide

theorem Sound.published (h : db.Sound) {p created : Project} (stored : getProject p.id db = some p)
    (isLocal : isLocalId p.id = true) (owned : p.createdBy ≠ "")
    (genuine : isLocalId created.id = false) (moved : db.Moved p.id created.id db')
    (published : db.Published p.id created.id db') :
    db'.Sound ∧ StaysLocal [p.id] db db' := by
  have hsame : ∀ q, isLocalId q = true → q ≠ p.id → getProject q db' = getProject q db := by
    intro q hq hne
    refine (published.others q hne ?_).2
    rintro rfl
    exact Bool.noConfusion (genuine.symm.trans hq)
  refine ⟨⟨published.intact, fun kind id hid hkind ↦ ?_⟩, fun q old hq hold ↦ ?_⟩
  · rw [moved.metadata] at hid
    split at hid
    · rename_i hmoved
      obtain ⟨p', hp', hanonymous⟩ := h.keys kind p.id hmoved.2 (Or.inr isLocal)
      cases stored.symm.trans hp'
      have howned : isAnonymousLocal p = false := by
        rw [isAnonymousLocal, decide_eq_false owned, Bool.and_false]
      have hkind' : kind = false := hanonymous.symm.trans howned
      rcases hkind with htrue | hlocal
      · exact Bool.noConfusion (hkind'.symm.trans htrue)
      · cases hid
        exact Bool.noConfusion (genuine.symm.trans hlocal)
    · obtain ⟨p', hp', hanonymous⟩ := h.keys kind id hid hkind
      have hlocal : isLocalId id = true := by
        rcases hkind with rfl | hlocal
        · exact isLocalId_of_anonymous hp' hanonymous
        · exact hlocal
      refine ⟨p', ?_, hanonymous⟩
      rw [hsame id hlocal, hp']
      rintro rfl
      rename_i hmoved
      exact hmoved ⟨bootstrapKey_mem kind, hid⟩
  · by_cases hne : q = p.id
    · subst hne
      cases stored.symm.trans hold
      exact Or.inr ⟨owned, List.mem_singleton.mpr rfl⟩
    · exact Or.inl ((hsame q hq hne).trans hold)

end LocalDb

namespace Happens

open LocalDb

variable {db db' : LocalDb} {now : List String}

/-- One step of a session keeps the bootstrap keys sound and the local projects. -/
theorem sound (h : Happens db now db') (hdb : db.Sound) : db'.Sound ∧ StaysLocal now db db' := by
  cases h with
  | login =>
    refine hdb.keepsLocal (putMeta_intact hdb.intact) (fun kind ↦ ?_) fun _ _ _ hq ↦ hq
    exact putMeta_of_ne (bootstrapKey_ne kind)
  | lists signedIn genuine drawn listed =>
    have hall := hdb.listProjects genuine drawn signedIn
    rw [listed] at hall
    exact ⟨hall.sound, hall.stays⟩
  | synchronizes genuine listed =>
    obtain ⟨db₁, hsync, he⟩ := Option.map_eq_some_iff.mp listed
    cases he
    exact ⟨hdb.synced genuine hsync, syncProjects_staysLocal genuine hsync⟩
  | creates signedIn drawn owner => exact hdb.createdLocally drawn
  | createsOnServer genuine => exact hdb.createdOnServer genuine
  | works projects metadata intact =>
    have hsame : ∀ q, getProject q db' = getProject q db := fun q ↦ by
      rw [getProject, projects, getProject]
    exact hdb.keepsLocal intact (fun kind ↦ by rw [metadata]) fun q p _ hq ↦ (hsame q).trans hq
  | publishes stored isLocal owned genuine moved published =>
    exact hdb.published stored isLocal owned genuine moved published

end Happens

namespace Happened

open LocalDb

variable {db db' : LocalDb} {before published : List String}

theorem sound (h : Happened db published db') (hdb : db.Sound) :
    db'.Sound ∧ StaysLocal published db db' := by
  induction h with
  | refl => exact ⟨hdb, StaysLocal.refl db⟩
  | tail run step ih =>
    obtain ⟨hsound, hstays⟩ := step.sound ih.1
    exact ⟨hsound, ih.2.trans hstays⟩

theorem empty_sound : ({} : LocalDb).Sound := by
  refine ⟨⟨List.nodup_nil, List.nodup_nil, List.nodup_nil, List.nodup_nil, fun entity ↦ ?_, rfl⟩,
    fun kind id hid ↦ nomatch hid⟩
  cases entity <;> rfl

/-- In every run of sessions on a device, a listing fails only when the request was invalid; what it
shows is stored, each project once, all of the cached projects of its kind of session, and for an
account online those that the server lists or that are local; it is not empty offline. A local
project stays as it is until it is published, which only happens to one that has an owner. -/
theorem sessions_see_their_projects (hstart : Happened {} before db)
    (hr : Happened db published db') :
    StaysLocal published db db' ∧
    ∀ anonymousOffline answer newId, answer.Genuine → db'.Draws newId →
      db'.SignedIn anonymousOffline →
      match db'.listProjects anonymousOffline answer newId with
      | .error () => ∃ status, answer = .fails status ∧ (classifyHttpStatus status).1 = .validation
      | .ok (shown, db'') => Listed anonymousOffline answer db' shown db'' := by
  have hdb := (hstart.sound empty_sound).1
  obtain ⟨hsound, hstays⟩ := hr.sound hdb
  refine ⟨hstays, fun anonymousOffline answer newId genuine drawn signedIn ↦ ?_⟩
  exact hsound.listProjects genuine drawn signedIn

def sampleSession : LocalDb :=
  (({} : LocalDb).putMeta "last_email" "me").createLocalProject ⟨"local-1", "Plan", "", "me"⟩

theorem sessions_see_their_projects_sample :
    Listed false .offline sampleSession (sampleSession.listCached false false "local-2").1
      (sampleSession.listCached false false "local-2").2 := by
  have hlogin : Happens {} [] (({} : LocalDb).putMeta "last_email" "me") := .login (by decide)
  have hcreate : Happens (({} : LocalDb).putMeta "last_email" "me") [] sampleSession :=
    @Happens.creates _ false _ (.inr (by decide))
      ⟨by decide, by constructor <;> decide⟩ (by decide)
  exact (sessions_see_their_projects .refl (.tail (.tail .refl hlogin) hcreate)).2 false .offline
    "local-2" (fun _ h ↦ nomatch h) ⟨by decide, by constructor <;> decide⟩ (.inr (by decide))

end Happened

end RiskApp.Client
