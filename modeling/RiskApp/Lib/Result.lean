import Mathlib.Order.Basic

namespace RiskApp.Lib.Result

variable {ε α β : Type}

def require (b : Bool) (e : ε) : Except ε Unit := if b then .ok () else .error e

theorem bind_ok {x : Except ε α} {f : α → Except ε β} {b : β} (h : x >>= f = .ok b) :
    ∃ a, x = .ok a ∧ f a = .ok b := by
  cases x with
  | error e => cases h
  | ok a => exact ⟨a, rfl, h⟩

theorem map_ok {x : Except ε α} {f : α → β} {b : β} (h : x.map f = .ok b) :
    ∃ a, x = .ok a ∧ f a = b := by
  cases x with
  | error e => cases h
  | ok a => exact ⟨a, rfl, Except.ok.inj h⟩

theorem require_ok {b : Bool} {e : ε} {u : Unit} (h : require b e = .ok u) : b = true := by
  cases b with
  | false => cases h
  | true => rfl

theorem bind_eq_error {x : Except ε α} {f : α → Except ε β} {e : ε} :
    x >>= f = .error e ↔ x = .error e ∨ ∃ a, x = .ok a ∧ f a = .error e := by
  cases x with
  | error e' =>
    constructor
    · intro h
      cases h
      exact Or.inl rfl
    · rintro (h | ⟨a, h, -⟩)
      · cases h
        rfl
      · cases h
  | ok a =>
    constructor
    · intro h
      exact Or.inr ⟨a, rfl, h⟩
    · rintro (h | ⟨b, h, hb⟩)
      · cases h
      · cases h
        exact hb

theorem map_eq_error {x : Except ε α} {f : α → β} {e : ε} :
    x.map f = .error e ↔ x = .error e := by
  cases x with
  | error e' =>
    constructor <;> intro h <;> cases h <;> rfl
  | ok a =>
    constructor <;> intro h <;> cases h

theorem require_eq_error {b : Bool} {e e' : ε} : require b e = .error e' ↔ b = false ∧ e = e' := by
  cases b with
  | false => exact ⟨fun h ↦ ⟨rfl, Except.error.inj h⟩, fun h ↦ h.2 ▸ rfl⟩
  | true =>
    constructor
    · intro h
      cases h
    · rintro ⟨h, -⟩
      cases h

/-- Every error the computation can end with satisfies `P`. -/
def Raises (P : ε → Prop) (x : Except ε α) : Prop := ∀ e, x = .error e → P e

namespace Raises

variable {P : ε → Prop}

theorem ok (a : α) : Raises P (.ok a) := by
  intro e h
  cases h

theorem error {e : ε} (he : P e) : Raises P (.error e : Except ε α) := by
  intro e' h
  cases h
  exact he

theorem bind {x : Except ε α} {f : α → Except ε β} (hx : Raises P x)
    (hf : ∀ a, Raises P (f a)) : Raises P (x >>= f) := by
  intro e h
  cases x with
  | error e' =>
    cases h
    exact hx e rfl
  | ok a => exact hf a e h

theorem map {x : Except ε α} (f : α → β) (hx : Raises P x) : Raises P (x.map f) := by
  intro e h
  cases x with
  | error e' =>
    cases h
    exact hx e rfl
  | ok a => cases h

theorem require {e : ε} (b : Bool) (he : P e) : Raises P (require b e) := by
  cases b with
  | false => exact error he
  | true => exact ok ()

theorem mono {Q : ε → Prop} {x : Except ε α} (hx : Raises P x) (h : ∀ e, P e → Q e) :
    Raises Q x :=
  fun e he ↦ h e (hx e he)

end Raises

inductive Agree (R : α → β → Prop) : Except ε α → Except ε β → Prop
  | error (e : ε) : Agree R (.error e) (.error e)
  | ok {a : α} {b : β} (related : R a b) : Agree R (.ok a) (.ok b)

namespace Agree

variable {γ δ : Type} {R : α → β → Prop} {S : γ → δ → Prop}

theorem of_eq {x y : Except ε α} (h : x = y) : Agree Eq x y := by
  subst h
  cases x with
  | error e => exact error e
  | ok a => exact ok rfl

theorem bind {x : Except ε α} {y : Except ε β} {f : α → Except ε γ} {g : β → Except ε δ}
    (h : Agree R x y) (hf : ∀ a b, x = .ok a → y = .ok b → R a b → Agree S (f a) (g b)) :
    Agree S (x >>= f) (y >>= g) := by
  cases h with
  | error e => exact error e
  | ok related => exact hf _ _ rfl rfl related

theorem map {x : Except ε α} {y : Except ε β} {f : α → γ} {g : β → δ} (h : Agree R x y)
    (hf : ∀ a b, R a b → S (f a) (g b)) : Agree S (x.map f) (y.map g) := by
  cases h with
  | error e => exact error e
  | ok related => exact ok (hf _ _ related)

theorem imp {x : Except ε α} {y : Except ε β} {S : α → β → Prop} (h : Agree R x y)
    (hS : ∀ a b, x = .ok a → y = .ok b → R a b → S a b) : Agree S x y := by
  cases h with
  | error e => exact error e
  | ok related => exact ok (hS _ _ rfl rfl related)

end Agree

end RiskApp.Lib.Result
