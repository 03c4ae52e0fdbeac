import Mathlib.Logic.Basic

namespace RiskApp.Lib

/-- Two connections to one store. A write of the first reads before its transaction and acts on what
it has read; the second runs transactions. -/
structure Sharing (σ ω ρ τ : Type) where
  look : ω → σ → ρ
  act : ω → ρ → σ → σ
  work : τ → σ → σ

namespace Sharing

variable {σ ω ρ τ : Type}

/-- The write lock, and the store that the transaction under way has begun on. -/
inductive Lock (σ ω ρ τ : Type)
  | free
  | write (w : ω) (r : ρ) (seen : σ)
  | work (t : τ) (seen : σ)

structure State (σ ω ρ τ : Type) where
  store : σ
  read : Option (ω × ρ) := none
  lock : Lock σ ω ρ τ := .free

variable (p : Sharing σ ω ρ τ)

/-- Reads see the committed store at any time; one transaction is under way at most. `ok` is what is
asked of a write whose transaction begins. -/
inductive Step (ok : ω → ρ → σ → Prop) :
    State σ ω ρ τ → Option (ω ⊕ τ) → State σ ω ρ τ → Prop
  | look {s : σ} (w : ω) : Step ok ⟨s, none, .free⟩ none ⟨s, some (w, p.look w s), .free⟩
  | lookPast {s seen : σ} {t : τ} (w : ω) :
      Step ok ⟨s, none, .work t seen⟩ none ⟨s, some (w, p.look w s), .work t seen⟩
  | beginWrite {s : σ} {w : ω} {r : ρ} (meets : ok w r s) :
      Step ok ⟨s, some (w, r), .free⟩ none ⟨s, none, .write w r s⟩
  | commitWrite {s seen : σ} {w : ω} {r : ρ} :
      Step ok ⟨s, none, .write w r seen⟩ (some (.inl w)) ⟨p.act w r seen, none, .free⟩
  | beginWork {s : σ} {read : Option (ω × ρ)} (t : τ) :
      Step ok ⟨s, read, .free⟩ none ⟨s, read, .work t s⟩
  | commitWork {s seen : σ} {read : Option (ω × ρ)} {t : τ} :
      Step ok ⟨s, read, .work t seen⟩ (some (.inr t)) ⟨p.work t seen, read, .free⟩

/-- Runs, with what they commit in the order of the commits. -/
inductive Runs (ok : ω → ρ → σ → Prop) (start : σ) : List (ω ⊕ τ) → State σ ω ρ τ → Prop
  | idle : Runs ok start [] ⟨start, none, .free⟩
  | step {order : List (ω ⊕ τ)} {s s' : State σ ω ρ τ} {commit : Option (ω ⊕ τ)}
      (before : Runs ok start order s) (next : Step p ok s commit s') :
      Runs ok start (order ++ commit.toList) s'

def serial (order : List (ω ⊕ τ)) (s : σ) : σ :=
  order.foldl (fun s c ↦ c.elim (fun w ↦ p.act w (p.look w s) s) fun t ↦ p.work t s) s

variable {p} {ok : ω → ρ → σ → Prop} {start : σ} {order : List (ω ⊕ τ)} {s : State σ ω ρ τ}

theorem serial_append (order order' : List (ω ⊕ τ)) (s : σ) :
    p.serial (order ++ order') s = p.serial order' (p.serial order s) :=
  List.foldl_append

/-- The transaction under way has begun on the store as it still is, and has met what was asked. -/
def Lock.Holds (ok : ω → ρ → σ → Prop) (s : σ) : Lock σ ω ρ τ → Prop
  | .free => True
  | .write w r seen => seen = s ∧ ok w r s
  | .work _ seen => seen = s

theorem Runs.holds (h : p.Runs ok start order s) : s.lock.Holds ok s.store := by
  induction h with
  | idle => trivial
  | step before next ih =>
    cases next with
    | look w => trivial
    | lookPast w => exact ih
    | beginWrite meets => exact ⟨rfl, meets⟩
    | commitWrite => trivial
    | beginWork t => rfl
    | commitWork => trivial

/-- Where what a write has read makes no difference, the store is that of a serial run. -/
theorem Runs.serial_eq (h : p.Runs ok start order s)
    (hok : ∀ w r s, ok w r s → p.act w r s = p.act w (p.look w s) s) :
    s.store = p.serial order start := by
  induction h with
  | idle => rfl
  | step before next ih =>
    have hlock := before.holds
    rw [serial_append]
    cases next with
    | look w | lookPast w | beginWrite meets | beginWork t => exact ih
    | commitWrite =>
      obtain ⟨rfl, meets⟩ := hlock
      exact (hok _ _ _ meets).trans (congrArg (fun s ↦ p.act _ (p.look _ s) s) ih)
    | commitWork =>
      obtain rfl : _ = _ := hlock
      exact congrArg (p.work _) ih

end Sharing

end RiskApp.Lib
