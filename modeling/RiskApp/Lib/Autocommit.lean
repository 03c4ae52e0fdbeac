import Mathlib.Data.Nat.Notation
import Mathlib.Data.Option.Basic
import Mathlib.Tactic.Common

namespace RiskApp.Lib.Autocommit

variable {D α : Type}

structure Session (D : Type) where
  committed : D
  working : Option D

namespace Session

def idle (d : D) : Session D := ⟨d, none⟩

def current (c : Session D) : D := c.working.getD c.committed

def rollback (c : Session D) : Session D := idle c.committed

def commit (c : Session D) : Session D := idle c.current

/-- A statement that opens no transaction: it is durable at once, unless one is open. -/
def apply (c : Session D) (d : D) : Session D :=
  if c.working.isSome then ⟨c.committed, some d⟩ else idle d

/-- A statement that opens a transaction, or joins the open one. -/
def join (c : Session D) (d : D) : Session D := ⟨c.committed, some d⟩

@[simp] theorem current_idle (d : D) : (idle d).current = d := rfl

@[simp] theorem rollback_idle (d : D) : (idle d).rollback = idle d := rfl

@[simp] theorem apply_idle (d d' : D) : (idle d).apply d' = idle d' := rfl

end Session

/-- A program of statements. Each may fail on the state it finds, and an exception of the program
ends it. -/
inductive Script (D : Type)
  | done
  | raise
  /-- A query or a PRAGMA. -/
  | read (k : D → Script D)
  /-- A query whose failure the program catches. -/
  | tryRead (k : D → Script D) (caught : Script D)
  /-- CREATE, ALTER and DROP. -/
  | ddl (f : D → Option D) (k : Script D)
  /-- INSERT, UPDATE and DELETE. -/
  | dml (f : D → Option D) (k : Script D)
  | commit (k : Script D)

/-- What befalls a statement from outside. -/
inductive Fault
  | none
  | failure
  | stop
  deriving DecidableEq

/-- Whether nothing befalls the next `k` statements. -/
def lasts (faults : List Fault) (k : ℕ) : Bool := (faults.take k).all (· = .none)

def after (faults : List Fault) (k : ℕ) : List Fault := faults.drop k

namespace Script

/-- Whether the program ends by itself, and what is left. A failure is answered with a rollback, and
what a stopped process has not committed is gone. -/
def run : Script D → List Fault → Session D → Bool × Session D
  | .done, _, c => (true, c)
  | .raise, _, c => (false, c.rollback)
  | .read k, faults, c =>
    if lasts faults 1 then run (k c.current) (after faults 1) c else (false, c.rollback)
  | .tryRead k caught, faults, c =>
    if lasts faults 1 then run (k c.current) (after faults 1) c
    else if faults.head? = some .failure then run caught (after faults 1) c
    else (false, c.rollback)
  | .ddl f k, faults, c =>
    if lasts faults 1 then
      (f c.current).elim (false, c.rollback) fun d ↦ run k (after faults 1) (c.apply d)
    else (false, c.rollback)
  | .dml f k, faults, c =>
    if lasts faults 1 then
      (f c.current).elim (false, c.rollback) fun d ↦ run k (after faults 1) (c.join d)
    else (false, c.rollback)
  | .commit k, faults, c =>
    if lasts faults 1 then run k (after faults 1) c.commit else (false, c.rollback)

def each (statement : α → Option (D → Option D)) : List α → Script D → Script D
  | [], k => k
  | a :: as, k => (statement a).elim .raise fun f ↦ .dml f (each statement as k)

def all (fs : List (D → Option D)) (k : Script D) : Script D := fs.foldr .ddl k

end Script

def effect (statement : α → Option (D → Option D)) : List α → D → Option D
  | [], d => some d
  | a :: as, d => (statement a).bind fun f ↦ (f d).bind (effect statement as)

theorem lasts_zero (faults : List Fault) : lasts faults 0 = true := rfl

theorem lasts_add (faults : List Fault) (j k : ℕ) :
    lasts faults (j + k) = (lasts faults j && lasts (after faults j) k) := by
  unfold lasts after
  rw [List.take_add, List.all_append]

theorem after_add (faults : List Fault) (j k : ℕ) :
    after (after faults j) k = after faults (j + k) :=
  List.drop_drop

theorem exists_fault {faults : List Fault} {k : ℕ} (h : lasts faults k = false) :
    ∃ fault ∈ faults, fault ≠ .none := by
  obtain ⟨fault, hmem, hfault⟩ := List.all_eq_false.mp h
  exact ⟨fault, List.mem_of_mem_take hmem, by simpa using hfault⟩

theorem lasts_of_le {faults : List Fault} {j k : ℕ} (h : lasts faults k = true) (hle : j ≤ k) :
    lasts faults j = true := by
  obtain ⟨i, rfl⟩ := Nat.exists_eq_add_of_le hle
  rw [lasts_add, Bool.and_eq_true] at h
  exact h.1

namespace Script

variable {k : Script D} {faults : List Fault} {c : Session D}

theorem run_read {k : D → Script D} (faults : List Fault) (c : Session D) :
    run (.read k) faults c =
      if lasts faults 1 then run (k c.current) (after faults 1) c else (false, c.rollback) := rfl

theorem if_lasts_add {β : Type} (faults : List Fault) (j k : ℕ) (x y : β) :
    (if lasts faults j then if lasts (after faults j) k then x else y else y) =
      if lasts faults (j + k) then x else y := by
  rw [lasts_add]
  cases lasts faults j <;> rfl

/-- A loop is an all or nothing of the state, as long as nothing is committed. -/
theorem run_each (statement : α → Option (D → Option D)) (as : List α) (faults : List Fault)
    (c : Session D) :
    run (each statement as k) faults c =
      if lasts faults as.length then
        (effect statement as c.current).elim (false, c.rollback) fun d ↦
          run k (after faults as.length) (if as = [] then c else c.join d)
      else (false, c.rollback) := by
  induction as generalizing faults c with
  | nil => simp [each, effect, lasts_zero, after]
  | cons a as ih =>
    rw [List.length_cons, Nat.add_comm, lasts_add]
    cases hstatement : statement a with
    | none => simp [each, effect, hstatement, run]
    | some f =>
      simp only [each, effect, hstatement, Option.elim_some, Option.bind_some, run]
      cases hlasts : lasts faults 1 with
      | false => simp
      | true =>
        cases hf : f c.current with
        | none => simp
        | some d =>
          have hcurrent : (c.join d).current = d := rfl
          have hrollback : (c.join d).rollback = c.rollback := rfl
          have hjoin : ∀ d', (if as = [] then c.join d else (c.join d).join d') =
              if as = [] then c.join d else c.join d' := fun _ ↦ rfl
          simp only [Option.elim_some, Option.bind_some, ih, hcurrent, hrollback, hjoin, after_add,
            if_true, Bool.true_and, reduceCtorEq, if_false]
          cases as with
          | nil => simp [effect]
          | cons a' as => simp

theorem run_all_keeps {P : D → Prop} {fs : List (D → Option D)}
    (hfs : ∀ f ∈ fs, ∀ d d', P d → f d = some d' → P d')
    (hk : ∀ faults d, P d → P (run k faults (.idle d)).2.committed)
    (faults : List Fault) (d : D) (hd : P d) : P (run (all fs k) faults (.idle d)).2.committed := by
  induction fs generalizing faults d with
  | nil => exact hk faults d hd
  | cons f fs ih =>
    change P (run (.ddl f (all fs k)) faults (.idle d)).2.committed
    unfold run
    split
    · cases hf : f (Session.idle d).current with
      | none => exact hd
      | some d' =>
        exact ih (fun g hg ↦ hfs g (List.mem_cons_of_mem f hg)) _ d'
          (hfs f List.mem_cons_self _ _ hd hf)
    · exact hd

end Script

end RiskApp.Lib.Autocommit
