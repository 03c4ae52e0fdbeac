import Mathlib.Logic.Relation
import RiskApp.Server.Rest

namespace RiskApp.Server

open Lib

/-- A flushed write: the row as it was left, and the version its writer had read. -/
structure Mutation where
  base : ℕ
  after : Row

/-- The rows and counters a transaction has locked, with the values it gave them, and the writes
it made. -/
structure Work where
  rows : List Row
  counters : Uuid → Option ℕ
  log : List Mutation

namespace Work

def empty : Work := ⟨[], fun _ ↦ none, []⟩

/-- What the statements of the transaction see: committed rows, and its own writes over them. -/
def view (w : Work) (d : Data) : Data :=
  { d with
    rows := Table.overlay Row.key w.rows d.rows
    lastSequence := fun p ↦ (w.counters p).or (d.lastSequence p) }

def row (w : Work) (k : RowKey) : Option Row := Table.find Row.key k w.rows

def put (w : Work) (r : Row) : Work := { w with rows := Table.upsert Row.key r w.rows }

def setCounter (w : Work) (p : Uuid) (n : ℕ) : Work :=
  { w with counters := Function.update w.counters p (some n) }

def record (w : Work) (base : ℕ) (r : Row) : Work := { w with log := w.log ++ [⟨base, r⟩] }

end Work

/-- One change of a push, or the one write of a REST request. -/
inductive Task
  | sync (userId projectId : Uuid) (change : SyncChange) (now : Time)
  | create (new : NewRow)
  | patch (p : Patch)
  | put (new : NewRow) (p : Patch)
  | remove (m : Removal)

namespace Task

def now : Task → Time
  | sync _ _ _ now => now
  | create new => new.now
  | patch p => p.now
  | put new _ => new.now
  | remove m => m.now

def isSync : Task → Bool
  | sync .. => true
  | _ => false

end Task

/-- How far the first task is. `base` is the version the writer read; `loaded` is the object as
the ORM loaded it, none for a new one. -/
inductive Stage
  | locking (projectId : Uuid)
  | ready
  | selected (obj : Option Row)
  | claimed (base : ℕ) (loaded : Row)
  | pending (base : ℕ) (loaded : Option Row) (obj : Row)
  | sequenced (base : ℕ) (loaded : Option Row) (obj : Row)
  | written

structure Tx where
  tasks : List Task
  stage : Stage
  work : Work
  saved : Option Work

namespace Tx

def push (userId projectId : Uuid) (changes : List (SyncChange × Time)) : Tx :=
  ⟨changes.map fun c ↦ .sync userId projectId c.1 c.2, .locking projectId, .empty, none⟩

def rest (t : Task) : Tx := ⟨[t], .ready, .empty, none⟩

def Initial (tx : Tx) : Prop :=
  (∃ userId projectId changes, tx = push userId projectId changes) ∨
    ∃ t, t.isSync = false ∧ tx = rest t

def Done (tx : Tx) : Prop :=
  tx.saved = none ∧ (tx.tasks = [] ∧ tx.stage = .ready ∨ tx.stage = .written)

end Tx

/-- The UPDATE that a flush issues: only columns that differ from the loaded object are set. -/
def Row.writeChanges (stored loaded obj : Row) : Row :=
  { stored with
    version := if obj.version = loaded.version then stored.version else obj.version
    changeSequence := obj.changeSequence
    attrs := fun a ↦ if obj.attrs a = loaded.attrs a then stored.attrs a else obj.attrs a }

def rowsWhere (d : Data) (table : Table) (p : Row → Bool) : List Row :=
  d.rows.filter fun r ↦ r.table = table && p r

theorem mem_rowsWhere {d : Data} {table : Table} {p : Row → Bool} {r : Row} :
    r ∈ rowsWhere d table p ↔ r ∈ d.rows ∧ r.table = table ∧ p r = true := by
  simp [rowsWhere]

/-- The statements of one transaction. A statement that needs a lock waits until it is free;
an UPDATE then sees the row as it was committed last. -/
inductive TxStep (conv : Conv) (d : Data) (rowFree : RowKey → Prop) (counterFree : Uuid → Prop) :
    Tx → Tx → Prop
  | lock {tasks w p n} (free : counterFree p) (found : (w.view d).lastSequence p = some n) :
      TxStep conv d rowFree counterFree ⟨tasks, .locking p, w, none⟩
        ⟨tasks, .ready, w.setCounter p n, none⟩
  -- a repeated, malformed or forbidden change is answered without a write
  | skip {userId projectId change now tasks w} :
      TxStep conv d rowFree counterFree
        ⟨.sync userId projectId change now :: tasks, .ready, w, none⟩ ⟨tasks, .ready, w, none⟩
  | fetch {userId projectId change now tasks w entityId}
      (id : parseUuid conv "record.id" (change.record.get .id) = .ok entityId) :
      TxStep conv d rowFree counterFree
        ⟨.sync userId projectId change now :: tasks, .ready, w, none⟩
        ⟨.sync userId projectId change now :: tasks,
          .selected (fetchObj (w.view d) change.entity entityId projectId), w, some w⟩
  | absent {userId projectId change now tasks w saved} (op : change.op = .delete) :
      TxStep conv d rowFree counterFree
        ⟨.sync userId projectId change now :: tasks, .selected none, w, saved⟩
        ⟨.sync userId projectId change now :: tasks, .written, w, saved⟩
  | build {userId projectId change now tasks w saved entityId obj} (op : change.op = .upsert)
      (id : parseUuid conv "record.id" (change.record.get .id) = .ok entityId)
      (new : createNew conv (w.view d) userId projectId change.entity entityId change.record now =
        .ok obj) :
      TxStep conv d rowFree counterFree
        ⟨.sync userId projectId change now :: tasks, .selected none, w, saved⟩
        ⟨.sync userId projectId change now :: tasks, .pending 0 none obj, w, saved⟩
  | claim {userId projectId change now tasks w saved r s d'}
      (checked : claimExisting (w.view d) r change.entity r.id projectId userId
        change.baseVersion now = .ok d')
      (found : (w.view d).row (change.entity.table, r.id) = some s) (free : rowFree s.key) :
      TxStep conv d rowFree counterFree
        ⟨.sync userId projectId change now :: tasks, .selected (some r), w, saved⟩
        ⟨.sync userId projectId change now :: tasks, .claimed r.version r, w.put (s.claim now),
          saved⟩
  | update {userId projectId change now tasks w saved base r obj} (op : change.op = .upsert)
      (edit : updateExisting conv (w.view d) projectId change.entity r change.record now =
        .ok obj) :
      TxStep conv d rowFree counterFree
        ⟨.sync userId projectId change now :: tasks, .claimed base r, w, saved⟩
        ⟨.sync userId projectId change now :: tasks, .pending base (some r) obj, w, saved⟩
  | delete {userId projectId change now tasks w saved base r} (op : change.op = .delete) :
      TxStep conv d rowFree counterFree
        ⟨.sync userId projectId change now :: tasks, .claimed base r, w, saved⟩
        ⟨.sync userId projectId change now :: tasks, .pending base (some r) (r.softDelete now), w,
          saved⟩
  | add {new w} (check : new.check (w.view d) = true) :
      TxStep conv d rowFree counterFree ⟨[.create new], .ready, w, none⟩
        ⟨[.create new], .pending 0 none new.row, w, none⟩
  -- rowcount 1: exactly one row matches
  | claimPatch {p w s}
      (found : rowsWhere (w.view d) p.table (fun r ↦ p.selects r && (r.version : ℤ) = p.base) =
        [s])
      (free : rowFree s.key) :
      TxStep conv d rowFree counterFree ⟨[.patch p], .ready, w, none⟩
        ⟨[.patch p], .claimed s.version (s.claim p.now), w.put (s.claim p.now), none⟩
  | edit {p w base r} (check : p.check (w.view d) = true) :
      TxStep conv d rowFree counterFree ⟨[.patch p], .claimed base r, w, none⟩
        ⟨[.patch p], .pending base (some r) (p.edit r), w, none⟩
  | putMissing {new p w} (none' : rowsWhere (w.view d) p.table p.selects = []) (base : p.base = 0) :
      TxStep conv d rowFree counterFree ⟨[.put new p], .ready, w, none⟩
        ⟨[.create new], .ready, w, none⟩
  | putFound {new p w} (some' : rowsWhere (w.view d) p.table p.selects ≠ []) :
      TxStep conv d rowFree counterFree ⟨[.put new p], .ready, w, none⟩
        ⟨[.patch p], .ready, w, none⟩
  | selectRemoved {m w r rest} (found : rowsWhere (w.view d) m.table m.selects = r :: rest) :
      TxStep conv d rowFree counterFree ⟨[.remove m], .ready, w, none⟩
        ⟨[.remove m], .selected (some r), w, none⟩
  | markRemoved {m w r} :
      TxStep conv d rowFree counterFree ⟨[.remove m], .selected (some r), w, none⟩
        ⟨[.remove m], .pending r.version (some r) (r.softDelete m.now), w, none⟩
  -- the listeners of a flush
  | sequence {t tasks w saved base loaded obj d' obj' p n}
      (stamped : beforeWrite (w.view d) obj = .ok (d', obj'))
      (project : (w.view d).projectOf obj = some p) (next : d'.lastSequence p = some n)
      (free : counterFree p) :
      TxStep conv d rowFree counterFree ⟨t :: tasks, .pending base loaded obj, w, saved⟩
        ⟨t :: tasks, .sequenced base loaded obj', w.setCounter p n, saved⟩
  | insert {t tasks w saved base obj r} (row : r = obj.withDefaults t.now)
      (fits : r.dataFits = true) (admitted : (w.view d).admits r = true)
      (fresh : (w.view d).row r.key = none) (free : rowFree r.key) :
      TxStep conv d rowFree counterFree ⟨t :: tasks, .sequenced base none obj, w, saved⟩
        ⟨t :: tasks, .written, (w.put r).record base r, saved⟩
  | write {t tasks w saved base l obj s r} (found : (w.view d).row obj.key = some s)
      (row : r = s.writeChanges l obj) (fits : r.dataFits = true)
      (admitted : (w.view d).admits r = true) (free : rowFree r.key) :
      TxStep conv d rowFree counterFree ⟨t :: tasks, .sequenced base (some l) obj, w, saved⟩
        ⟨t :: tasks, .written, (w.put r).record base r, saved⟩
  | release {t tasks w w₀} :
      TxStep conv d rowFree counterFree ⟨t :: tasks, .written, w, some w₀⟩
        ⟨tasks, .ready, w, none⟩
  -- a failed change rolls back to its savepoint, whatever the statement that raised
  | fail {t tasks stage w w₀} :
      TxStep conv d rowFree counterFree ⟨t :: tasks, stage, w, some w₀⟩ ⟨tasks, .ready, w₀, none⟩

/-- The committed data, the open transactions, and the committed writes in order. -/
structure Sys where
  data : Data
  txs : ℕ → Option Tx
  history : List Mutation

namespace Sys

def start (d : Data) : Sys := ⟨d, fun _ ↦ none, []⟩

def rowFree (s : Sys) (t : ℕ) (k : RowKey) : Prop :=
  ∀ u tx, u ≠ t → s.txs u = some tx → tx.work.row k = none

def counterFree (s : Sys) (t : ℕ) (p : Uuid) : Prop :=
  ∀ u tx, u ≠ t → s.txs u = some tx → tx.work.counters p = none

end Sys

/-- Requests begin, run statement by statement in any interleaving, and commit or fail. -/
inductive Step (conv : Conv) (s : Sys) (t : ℕ) : Sys → Prop
  | begin {tx} (fresh : s.txs t = none) (new : tx.Initial) :
      Step conv s t { s with txs := Function.update s.txs t (some tx) }
  | exec {tx tx'} (running : s.txs t = some tx)
      (step : TxStep conv s.data (s.rowFree t) (s.counterFree t) tx tx') :
      Step conv s t { s with txs := Function.update s.txs t (some tx') }
  | commit {tx} (running : s.txs t = some tx) (done : tx.Done) :
      Step conv s t ⟨tx.work.view s.data, Function.update s.txs t none, s.history ++ tx.work.log⟩
  | abort {tx} (running : s.txs t = some tx) :
      Step conv s t { s with txs := Function.update s.txs t none }

/-- Every state of the server in some interleaving from `s`. -/
def Runs (conv : Conv) : Sys → Sys → Prop :=
  Relation.ReflTransGen fun s s' ↦ ∃ t, Step conv s t s'

end RiskApp.Server
