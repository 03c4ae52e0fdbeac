import Mathlib.Algebra.Order.Group.Nat
import Mathlib.Data.List.Basic

namespace RiskApp.Lib.Digits

/-- The last `width` decimal digits of a number. -/
def padded : ℕ → ℕ → List Char
  | 0, _ => []
  | width + 1, n => (n / 10 ^ width % 10).digitChar :: padded width (n % 10 ^ width)

theorem length_padded (width n : ℕ) : (padded width n).length = width := by
  induction width generalizing n with
  | zero => rfl
  | succ width ih => rw [padded, List.length_cons, ih]

theorem digitChar_lt {i j : ℕ} (hi : i < 10) (hj : j < 10) :
    i.digitChar < j.digitChar ↔ i < j := by
  have hall : ∀ i < 10, ∀ j < 10, i.digitChar < j.digitChar ↔ i < j := by decide
  exact hall i hi j hj

theorem digitChar_inj {i j : ℕ} (hi : i < 10) (hj : j < 10) :
    i.digitChar = j.digitChar ↔ i = j := by
  have hall : ∀ i < 10, ∀ j < 10, i.digitChar = j.digitChar ↔ i = j := by decide
  exact hall i hi j hj

section

variable {α : Type} [LT α]

/-- Behind prefixes of one length, the rests decide only between equal prefixes. -/
theorem append_lt_append [Std.Irrefl fun a b : α ↦ a < b] {xs ys s t : List α}
    (h : xs.length = ys.length) :
    xs ++ s < ys ++ t ↔ xs < ys ∨ xs = ys ∧ s < t := by
  induction xs generalizing ys with
  | nil =>
    obtain rfl := List.length_eq_zero_iff.mp h.symm
    simp
  | cons x xs ih =>
    cases ys with
    | nil => cases h
    | cons y ys =>
      rw [List.cons_append, List.cons_append, List.cons_lt_cons_iff, List.cons_lt_cons_iff,
        ih (Nat.succ.inj h), List.cons.injEq]
      tauto

end

theorem div_mod_lt {b n m : ℕ} (hb : 0 < b) :
    n / b < m / b ∨ n / b = m / b ∧ n % b < m % b ↔ n < m := by
  have hn := Nat.div_add_mod n b
  have hm := Nat.div_add_mod m b
  have hrn := Nat.mod_lt n hb
  have hrm := Nat.mod_lt m hb
  rcases Nat.lt_trichotomy (n / b) (m / b) with hlt | heq | hgt
  · have hstep : b * (n / b) + b ≤ b * (m / b) := Nat.mul_le_mul_left b hlt
    omega
  · rw [heq] at hn
    omega
  · have hstep : b * (m / b) + b ≤ b * (n / b) := Nat.mul_le_mul_left b hgt
    omega

theorem mul_add_lt {b x x' y y' : ℕ} (hy : y < b) (hy' : y' < b) :
    x * b + y < x' * b + y' ↔ x < x' ∨ x = x' ∧ y < y' := by
  rcases Nat.lt_trichotomy x x' with hlt | rfl | hgt
  · have hstep : (x + 1) * b ≤ x' * b := Nat.mul_le_mul_right b hlt
    rw [Nat.add_mul, Nat.one_mul] at hstep
    omega
  · omega
  · have hstep : (x' + 1) * b ≤ x * b := Nat.mul_le_mul_right b hgt
    rw [Nat.add_mul, Nat.one_mul] at hstep
    omega

theorem padded_lt {width n m : ℕ} (hn : n < 10 ^ width) (hm : m < 10 ^ width) :
    padded width n < padded width m ↔ n < m := by
  induction width generalizing n m with
  | zero =>
    have h : n = 0 ∧ m = 0 := by simpa using And.intro hn hm
    simp [padded, h.1, h.2]
  | succ width ih =>
    have hpos : 0 < 10 ^ width := Nat.pow_pos (by decide)
    have hdn : n / 10 ^ width < 10 := Nat.div_lt_of_lt_mul (by rwa [pow_succ] at hn)
    have hdm : m / 10 ^ width < 10 := Nat.div_lt_of_lt_mul (by rwa [pow_succ] at hm)
    rw [padded, padded, List.cons_lt_cons_iff, Nat.mod_eq_of_lt hdn, Nat.mod_eq_of_lt hdm,
      digitChar_lt hdn hdm, digitChar_inj hdn hdm, ih (Nat.mod_lt _ hpos) (Nat.mod_lt _ hpos)]
    exact div_mod_lt hpos

theorem padded_inj {width n m : ℕ} (hn : n < 10 ^ width) (hm : m < 10 ^ width) :
    padded width n = padded width m ↔ n = m := by
  refine ⟨fun h ↦ ?_, fun h ↦ h ▸ rfl⟩
  have hnm := padded_lt hn hm
  have hmn := padded_lt hm hn
  have hirr : ¬padded width n < padded width n := List.lt_irrefl _
  rw [h] at hnm hmn hirr
  have := hnm.not.mp hirr
  have := hmn.not.mp hirr
  omega

def field (separator : List Char) (width n : ℕ) : List Char := separator ++ padded width n

theorem field_append_lt {separator s t : List Char} {width n m : ℕ} (hn : n < 10 ^ width)
    (hm : m < 10 ^ width) :
    field separator width n ++ s < field separator width m ++ t ↔ n < m ∨ n = m ∧ s < t := by
  have hlen : (padded width n).length = (padded width m).length := by
    rw [length_padded, length_padded]
  rw [field, field, List.append_assoc, List.append_assoc, append_lt_append rfl,
    append_lt_append hlen, padded_lt hn hm, padded_inj hn hm]
  simp only [List.lt_irrefl, false_or, true_and]

end RiskApp.Lib.Digits
