import Mathlib.Data.List.Nodup
import Mathlib.Logic.Relation
import RiskApp.Lib.Disk

namespace RiskApp.Server.Backups

open Lib

def serverTables : List String :=
  ["users", "projects", "project_members", "items", "assessments", "actions", "helpdesk_tickets",
    "sync_project_state", "sync_receipts", "audit_log", "refresh_tokens", "password_reset_tokens",
    "score_snapshots"]

def schemaGuards : List (String × String) :=
  [("sync_receipts", "payload_hash"), ("sync_project_state", "last_sequence"),
    ("items", "change_sequence"), ("assessments", "change_sequence"),
    ("actions", "change_sequence"), ("helpdesk_tickets", "change_sequence")]

def sidecars : List String := ["-wal", "-shm", "-journal"]

structure SqlTable (ρ : Type) where
  name : String
  columns : List String
  rows : List ρ

/-- What a reader of a database sees: what its checks answer, the tables, and the revisions that
`alembic_version` holds. -/
structure Database (ρ : Type) where
  integrityCheck : List String := ["ok"]
  foreignKeyCheck : List String := []
  tables : List (SqlTable ρ)
  revisions : List String

/-- A file, with the database that SQLite finds in it, which may be in WAL mode. -/
structure Contents (β ρ : Type) where
  bytes : β
  database : Option (Database ρ)
  wal : Bool

/-- The files that SQLite makes beside a database in WAL mode, also when it only reads. -/
def walFiles : List String := ["-wal", "-shm"]

structure BackupInfo (δ : Type) where
  path : FilePath
  revision : Option String
  sha256 : δ

structure Platform (β δ : Type) where
  migrationHead : String
  sha256 : β → δ

variable {ι β δ ρ : Type} (pf : Platform β δ)

def inspect (allowUnversioned : Bool) (db : Database ρ) : Except String (Option String) :=
  if db.integrityCheck ≠ ["ok"] then .error "SQLite integrity check failed"
  else if db.foreignKeyCheck ≠ [] then .error "SQLite foreign-key check failed"
  else
    let tables := db.tables.map SqlTable.name
    if !serverTables.all (· ∈ tables) then .error "Not a RiskApp server database"
    else if "alembic_version" ∈ tables then
      if db.revisions ≠ [pf.migrationHead] then
        .error "Snapshot revision does not match this server migration head"
      else .ok (some pf.migrationHead)
    else if !allowUnversioned then
      .error "Unversioned database requires explicit --allow-unversioned"
    else
      let columns := fun table ↦ (db.tables.filter (·.name = table)).flatMap SqlTable.columns
      if schemaGuards.any fun guard ↦ guard.2 ∉ columns guard.1 then
        .error "Unversioned database lacks current sync columns"
      else .ok none

/-- `verify_backup` on the file that its path leads to, apart from the files beside it. -/
def verifyFile (path : FilePath) (allowUnversioned : Bool) (file : Contents β ρ) :
    Except String (BackupInfo δ) :=
  match file.database with
  | none => .error "file is not a database"
  | some db => (inspect pf allowUnversioned db).map fun revision ↦
    ⟨path, revision, pf.sha256 file.bytes⟩

section Checks

variable [DecidableEq ι] (d : Disk ι (Contents β ρ))

def withSuffix (p : FilePath) (suffix : String) : FilePath :=
  p.dropLast ++ [p.getLastD "" ++ suffix]

def noSidecars (p : FilePath) : Except String Unit :=
  if sidecars.any fun suffix ↦ (d.find (withSuffix p suffix)).isSome then
    .error ("SQLite sidecars are present; stop every API worker and close its " ++
      "connections before recovery. Do not delete WAL/journal files.")
  else .ok ()

def readOnly (p : FilePath) : Except String ι :=
  match d.fileAt p with
  | none => .error "Source database must be an existing regular file"
  | some i => .ok i

def destination (source target : FilePath) (replace : Bool) : Except String Unit :=
  if d.isSymlink target then .error "Destination must not be a symbolic link"
  else if d.resolve source = d.resolve target then
    .error "Source and destination must be different files"
  else if (d.find target).isSome ∧ (d.find source).isNone then .error "No such file or directory"
  else if (d.fileAt target).isSome ∧ d.fileAt source = d.fileAt target then
    .error "Source and destination must be different files"
  else if !d.isDir target.dropLast then .error "Destination directory must already exist"
  else if (d.find target).isSome ∧ (!replace ∨ (d.fileAt target).isNone) then
    .error "Destination exists; backups never overwrite existing files"
  else .ok ()

def verifyBackup (p : FilePath) (allowUnversioned : Bool) : Except String (BackupInfo δ) := do
  noSidecars d p
  let i ← readOnly d p
  verifyFile pf p allowUnversioned (d.contents i)

end Checks

inductive Kind
  | backup
  | restore
  deriving DecidableEq

structure Args where
  kind : Kind
  source : FilePath
  target : FilePath
  offline : Bool := false
  replace : Bool := false
  allowUnversioned : Bool := false

def tempPrefix : Kind → String
  | .backup => ".riskapp-backup."
  | .restore => ".riskapp-restore."

def stagedName : Kind → String
  | .backup => "snapshot.sqlite3"
  | .restore => "restored.sqlite3"

def Args.Apart (args : Args) : Prop :=
  ∀ c ∈ args.target, ∀ kind random, c ≠ tempPrefix kind ++ random

inductive Stage (δ : Type)
  | copying
  | copied
  | verified (info : BackupInfo δ)
  | synced (info : BackupInfo δ)
  | rechecked (info : BackupInfo δ)
  | ready (info : BackupInfo δ)
  | published (info : BackupInfo δ)

/-- Where a call stands; `opened` is the file that its source has led to. -/
inductive Phase (ι δ : Type)
  | begun
  | aimed
  | cleared
  | accepted
  | working (dir : FilePath)
  | staged (dir : FilePath) (i opened : ι) (stage : Stage δ)
  | returned (info : BackupInfo δ)
  | raised

def Phase.dir : Phase ι δ → Option FilePath
  | .working dir | .staged dir _ _ _ => some dir
  | _ => none

def Phase.Reads : Phase ι δ → Prop
  | .cleared | .accepted | .staged _ _ _ .copying => True
  | _ => False

structure Job (ι δ : Type) where
  args : Args
  phase : Phase ι δ

def Job.lose (job : Job ι δ) : Job ι δ :=
  match job.phase with
  | .returned _ => job
  | _ => { job with phase := .raised }

structure Made (ι : Type) where
  job : ℕ
  dir : FilePath
  name : String
  inode : ι

def Made.path (m : Made ι) : FilePath := m.dir ++ [m.name]

structure Publication (ι β δ ρ : Type) where
  job : ℕ
  args : Args
  inode : ι
  opened : ι
  info : BackupInfo δ
  file : Contents β ρ

/-- The file system, the calls, the files that they have made and published, and the files that
others have written since. -/
structure State (ι β δ ρ : Type) where
  disk : Disk ι (Contents β ρ)
  jobs : ℕ → Option (Job ι δ) := fun _ ↦ none
  made : List (Made ι) := []
  published : List (Publication ι β δ ρ) := []
  touched : ι → Bool := fun _ ↦ false

namespace State

def Unpublished (s : State ι β δ ρ) (i : ι) : Prop := ∀ pub ∈ s.published, pub.inode ≠ i

/-- The name of a file that SQLite makes beside the source. -/
def BesideSource (s : State ι β δ ρ) (args : Args) (p : FilePath) : Prop :=
  ∃ opened, s.disk.fileAt args.source = some opened ∧ (s.disk.contents opened).wal = true ∧
    ∃ suffix ∈ walFiles, p = withSuffix (s.disk.resolve args.source) suffix

def put (s : State ι β δ ρ) (n : ℕ) (args : Args) (phase : Phase ι δ) : State ι β δ ρ :=
  { s with jobs := Function.update s.jobs n (some ⟨args, phase⟩) }

def onDisk (s : State ι β δ ρ) (d : Disk ι (Contents β ρ)) : State ι β δ ρ :=
  { s with disk := d }

def cleanUp (s : State ι β δ ρ) (kind : Kind) (dir : FilePath) : State ι β δ ρ :=
  s.onDisk ((s.disk.setName (dir ++ [stagedName kind]) none).setName dir none)

def publish (s : State ι β δ ρ) (n : ℕ) (args : Args) (i opened : ι) (info : BackupInfo δ) :
    State ι β δ ρ :=
  { s with
    disk := s.disk.setName args.target (some (.file i))
    published := ⟨n, args, i, opened, { info with path := args.target }, s.disk.contents i⟩ ::
      s.published }

section Steps

variable [DecidableEq ι]

def make (s : State ι β δ ρ) (m : Made ι) (file : Contents β ρ) : State ι β δ ρ :=
  { s with
    disk := (s.disk.write m.inode file).setName m.path (some (.file m.inode))
    made := m :: s.made }

def writeBeside (s : State ι β δ ρ) (p : FilePath) (i : ι) (file : Contents β ρ) : State ι β δ ρ :=
  { s with
    disk := (s.disk.write i file).setName p (some (.file i))
    touched := Function.update s.touched i true }

/-- What a call does next. An exception can end it anywhere, and removes the temporary directory. -/
inductive Act (s : State ι β δ ρ) (n : ℕ) : State ι β δ ρ → Prop
  | aim {args : Args} (job : s.jobs n = some ⟨args, .begun⟩)
      (offline : args.kind = .restore → args.offline = true)
      (ok : destination s.disk args.source args.target (args.kind = .restore && args.replace) =
        .ok ()) :
      Act s n (s.put n args .aimed)
  | clear {args : Args} (job : s.jobs n = some ⟨args, .aimed⟩) (restore : args.kind = .restore)
      (ok : noSidecars s.disk args.target = .ok ()) :
      Act s n (s.put n args .cleared)
  | accept {args : Args} {info : BackupInfo δ} (job : s.jobs n = some ⟨args, .cleared⟩)
      (ok : verifyBackup pf s.disk args.source args.allowUnversioned = .ok info) :
      Act s n (s.put n args .accepted)
  | makeDir {args : Args} (random : String)
      (job : s.jobs n = some ⟨args, if args.kind = .backup then .aimed else .accepted⟩)
      (new : s.disk.names (args.target.dropLast ++ [tempPrefix args.kind ++ random]) = none) :
      Act s n ((s.onDisk (s.disk.setName (args.target.dropLast ++ [tempPrefix args.kind ++ random])
        (some .directory))).put n args
          (.working (args.target.dropLast ++ [tempPrefix args.kind ++ random])))
  | openFiles {args : Args} {dir : FilePath} {i opened : ι} {file : Contents β ρ}
      (job : s.jobs n = some ⟨args, .working dir⟩)
      (source : readOnly s.disk args.source = .ok opened)
      (new : ∀ m ∈ s.made, m.inode ≠ i) (unnamed : ∀ p, ¬ s.disk.Leads p i)
      (clean : s.touched i = false) :
      Act s n ((s.make ⟨n, dir, stagedName args.kind, i⟩ file).put n args
        (.staged dir i opened .copying))
  | copyPages {args : Args} {dir : FilePath} {i opened : ι} (file : Contents β ρ)
      (job : s.jobs n = some ⟨args, .staged dir i opened .copying⟩) :
      Act s n (s.onDisk (s.disk.write i file))
  | copied {args : Args} {dir : FilePath} {i opened : ι} {db : Database ρ} (bytes : β)
      (job : s.jobs n = some ⟨args, .staged dir i opened .copying⟩)
      (read : (s.disk.contents opened).database = some db) :
      Act s n ((s.onDisk (s.disk.write i ⟨bytes, some db, false⟩)).put n args
        (.staged dir i opened .copied))
  | verify {args : Args} {dir : FilePath} {i opened : ι} {info : BackupInfo δ}
      (job : s.jobs n = some ⟨args, .staged dir i opened .copied⟩)
      (ok : verifyBackup pf s.disk (dir ++ [stagedName args.kind]) args.allowUnversioned =
        .ok info) :
      Act s n (s.put n args (.staged dir i opened (.verified info)))
  | fsync {args : Args} {dir : FilePath} {i opened : ι} {info : BackupInfo δ}
      (job : s.jobs n = some ⟨args, .staged dir i opened (.verified info)⟩) :
      Act s n ((s.onDisk (s.disk.sync i)).put n args (.staged dir i opened (.synced info)))
  | recheck {args : Args} {dir : FilePath} {i opened : ι} {info : BackupInfo δ}
      (job : s.jobs n = some ⟨args, .staged dir i opened (.synced info)⟩)
      (restore : args.kind = .restore) (ok : noSidecars s.disk args.target = .ok ()) :
      Act s n (s.put n args (.staged dir i opened (.rechecked info)))
  | ready {args : Args} {dir : FilePath} {i opened : ι} {info : BackupInfo δ}
      (job : s.jobs n = some ⟨args, .staged dir i opened (.rechecked info)⟩)
      (ok : s.disk.isSymlink args.target = false) :
      Act s n (s.put n args (.staged dir i opened (.ready info)))
  | link {args : Args} {dir : FilePath} {i opened : ι} {info : BackupInfo δ}
      (job : s.jobs n = some ⟨args, .staged dir i opened
        (if args.kind = .backup then .synced info else .ready info)⟩)
      (new : args.kind = .restore → args.replace = false)
      (free : s.disk.names args.target = none) :
      Act s n ((s.publish n args i opened info).put n args (.staged dir i opened (.published info)))
  | replace {args : Args} {dir : FilePath} {i opened : ι} {info : BackupInfo δ}
      (job : s.jobs n = some ⟨args, .staged dir i opened (.ready info)⟩)
      (restore : args.kind = .restore) (replace : args.replace = true) :
      Act s n ((((s.onDisk (s.disk.setName (dir ++ [stagedName args.kind]) none)).publish n args i
        opened info)).put n args (.staged dir i opened (.published info)))
  | sidecar {args : Args} {phase : Phase ι δ} {p : FilePath} {i : ι} (file : Contents β ρ)
      (job : s.jobs n = some ⟨args, phase⟩) (reads : phase.Reads) (beside : s.BesideSource args p)
      (found : s.disk.names p = some (.file i) ∨ s.disk.names p = none ∧
        (∀ m ∈ s.made, m.inode ≠ i) ∧ ∀ q, ¬ s.disk.Leads q i) :
      Act s n (s.writeBeside p i file)
  | finish {args : Args} {dir : FilePath} {i opened : ι} {info : BackupInfo δ}
      (job : s.jobs n = some ⟨args, .staged dir i opened (.published info)⟩) :
      Act s n ((s.cleanUp args.kind dir).put n args
        (.returned { info with path := args.target }))
  | raise {args : Args} {phase : Phase ι δ} (job : s.jobs n = some ⟨args, phase⟩)
      (active : phase = .begun ∨ phase = .aimed ∨ phase = .cleared ∨ phase = .accepted) :
      Act s n (s.put n args .raised)
  | raiseEmpty {args : Args} {dir : FilePath} (job : s.jobs n = some ⟨args, .working dir⟩) :
      Act s n ((s.cleanUp args.kind dir).put n args .raised)
  | raiseStaged {args : Args} {dir : FilePath} {i opened : ι} {stage : Stage δ}
      (job : s.jobs n = some ⟨args, .staged dir i opened stage⟩) :
      Act s n ((s.cleanUp args.kind dir).put n args .raised)

/-- The API, the operator and everything else. They keep out of the temporary directories, and what
they write to is marked. -/
structure Others (s s' : State ι β δ ρ) : Prop where
  jobs : s'.jobs = s.jobs
  made : s'.made = s.made
  published : s'.published = s.published
  stable : s'.disk.stable = s.disk.stable
  names : ∀ m ∈ s.made, s.Unpublished m.inode → ∀ p,
    s'.disk.names p = some (.file m.inode) → s.disk.names p = some (.file m.inode)
  temps : ∀ n job dir, s.jobs n = some job → job.phase.dir = some dir → ∀ p, dir <+: p →
    s'.disk.names p = s.disk.names p
  marked : ∀ i, s'.touched i = false → s.touched i = false ∧
    s'.disk.contents i = s.disk.contents i ∧ s'.disk.synced i = s.disk.synced i
  apart : ∀ m ∈ s.made, s.Unpublished m.inode → s'.touched m.inode = s.touched m.inode

inductive Step (s : State ι β δ ρ) : State ι β δ ρ → Prop
  | call (n : ℕ) (args : Args) (new : s.jobs n = none) (apart : args.Apart) :
      Step s (s.put n args .begun)
  | act {n : ℕ} {s' : State ι β δ ρ} (does : s.Act pf n s') : Step s s'
  | others {s' : State ι β δ ρ} (others : s.Others s') : Step s s'
  | flush (p : FilePath) : Step s (s.onDisk (s.disk.flush p))
  | powerLoss {d : Disk ι (Contents β ρ)} (loss : s.disk.PowerLoss d) : Step s
      { s with disk := d, jobs := fun n ↦ (s.jobs n).map Job.lose }

def Runs : State ι β δ ρ → State ι β δ ρ → Prop := Relation.ReflTransGen (Step pf)

end Steps

end State

end RiskApp.Server.Backups
