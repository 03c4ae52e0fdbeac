import Mathlib.Data.Int.Notation
import Mathlib.Data.List.Basic
import RiskApp.Lib.Unicode

namespace RiskApp.Text

open Lib Lib.Unicode

/-- The characters `str.strip` removes. -/
def isSpace (c : Char) : Bool :=
  c.toNat ∈ [0x9, 0xa, 0xb, 0xc, 0xd, 0x1c, 0x1d, 0x1e, 0x1f, 0x20, 0x85, 0xa0, 0x1680, 0x2028,
    0x2029, 0x202f, 0x205f, 0x3000] || (0x2000 ≤ c.toNat && c.toNat ≤ 0x200a)

/-- The characters that `int` skips around a number. -/
def isNumberSpace (c : Char) : Bool := isSpace c && !(0x1c ≤ c.toNat && c.toNat ≤ 0x1f)

def trim (space : Char → Bool) (s : List Char) : List Char :=
  ((s.dropWhile space).reverse.dropWhile space).reverse

def strip : List Char → List Char := trim isSpace

def lower : List Char → List Char := lowerAfter []

/-- The capitals of ASCII letters: no other character has R or O as its capital. -/
def upper (s : List Char) : List Char := s.map Char.toUpper

def isDigit (s : List Char) : Bool := !s.isEmpty && s.all Unicode.isDigit

/-- `int` on a text that `str.isdigit` accepts. -/
def digitsValue (s : List Char) : Option ℕ :=
  s.foldl (fun acc c ↦ acc.bind fun n ↦ (decimalValue c).map (10 * n + ·)) (some 0)

def splitOnce (sep : Char) (s : List Char) : List Char × Option (List Char) :=
  match s.dropWhile (· ≠ sep) with
  | [] => (s, none)
  | _ :: rest => (s.takeWhile (· ≠ sep), some rest)

/-- `f"{n:03d}"`. -/
def padThree (n : ℕ) : List Char :=
  let digits := Nat.toDigits 10 n
  List.replicate (3 - digits.length) '0' ++ digits

/-- Decimal digits with single underscores between them, as `int` reads them. -/
def digitGroups : Bool → ℕ → List Char → Option ℕ
  | afterDigit, n, [] => if afterDigit then some n else none
  | afterDigit, n, c :: cs =>
    if c = '_' then if afterDigit then digitGroups false n cs else none
    else (decimalValue c).bind fun v ↦ digitGroups true (10 * n + v) cs

def writtenInt (s : List Char) : Option ℤ :=
  match trim isNumberSpace s with
  | '-' :: rest => (digitGroups false 0 rest).map fun n ↦ -(n : ℤ)
  | '+' :: rest => (digitGroups false 0 rest).map fun n ↦ (n : ℤ)
  | rest => (digitGroups false 0 rest).map fun n ↦ (n : ℤ)

/-- `sys.int_info.default_max_str_digits`: `int` reads, and a format writes, no more digits. -/
def maxStrDigits : ℕ := 4300

/-- `int` on a text. -/
def toInt (s : List Char) : Option ℤ :=
  if s.countP (fun c ↦ (decimalValue c).isSome) ≤ maxStrDigits then writtenInt s else none

theorem digitGroups_digits {ds : List Char} (h : ∀ c ∈ ds, c.isDigit = true) (n : ℕ) :
    digitGroups true n ds = some (Nat.ofDigitChars 10 ds n) := by
  induction ds generalizing n with
  | nil => rfl
  | cons c ds ih =>
    have hc := h c List.mem_cons_self
    have hne : c ≠ '_' := by
      rintro rfl
      exact absurd hc (by decide)
    rw [digitGroups, if_neg hne, decimalValue_of_isDigit hc, Option.bind_some,
      ih fun d hd ↦ h d (List.mem_cons_of_mem c hd), Nat.ofDigitChars_cons]
    rfl

section Trim

variable {space : Char → Bool}

theorem dropWhile_of_head {l : List Char} (h : ∀ c ∈ l.head?, space c = false) :
    l.dropWhile space = l := by
  cases l with
  | nil => rfl
  | cons c l => rw [List.dropWhile_cons, if_neg (by simp [h c rfl])]

theorem head_dropWhile {l : List Char} : ∀ c ∈ (l.dropWhile space).head?, space c = false := by
  induction l with
  | nil =>
    intro c hc
    cases hc
  | cons a l ih =>
    rw [List.dropWhile_cons]
    split
    · exact ih
    · rename_i ha
      intro c hc
      obtain rfl := Option.some.inj hc
      exact Bool.eq_false_iff.mpr ha

theorem trim_of_no_space {s : List Char} (h : ∀ c ∈ s, space c = false) : trim space s = s := by
  unfold trim
  rw [dropWhile_of_head fun c hc ↦ h c (List.mem_of_mem_head? hc),
    dropWhile_of_head fun c hc ↦ h c (List.mem_reverse.mp (List.mem_of_mem_head? hc)),
    List.reverse_reverse]

theorem trim_trim (s : List Char) : trim space (trim space s) = trim space s := by
  unfold trim
  generalize ha : s.dropWhile space = a
  generalize hb : a.reverse.dropWhile space = b
  have hsuffix : b <:+ a.reverse := hb ▸ List.dropWhile_suffix space
  have hprefix : b.reverse <+: a := by
    have h := List.reverse_prefix.mpr hsuffix
    rwa [List.reverse_reverse] at h
  have hfront : b.reverse.dropWhile space = b.reverse := by
    refine dropWhile_of_head fun c hc ↦ ?_
    have hhead : c ∈ a.head? := by
      obtain ⟨rest, hrest⟩ := hprefix
      rw [← hrest, List.head?_append, hc]
      rfl
    rw [← ha] at hhead
    exact head_dropWhile c hhead
  rw [hfront, List.reverse_reverse]
  have hback : b.dropWhile space = b := dropWhile_of_head fun c hc ↦ by
    rw [← hb] at hc
    exact head_dropWhile c hc
  rw [hback]

end Trim

theorem strip_of_no_space {s : List Char} (h : ∀ c ∈ s, isSpace c = false) : strip s = s :=
  trim_of_no_space h

theorem strip_strip (s : List Char) : strip (strip s) = strip s := trim_trim s

theorem isSpace_of_isDigit {c : Char} (h : c.isDigit = true) : isSpace c = false := by
  obtain ⟨hlo, hhi⟩ := toNat_of_isDigit h
  simp only [isSpace, Bool.or_eq_false_iff, decide_eq_false_iff_not, Bool.and_eq_false_iff]
  refine ⟨?_, by omega⟩
  simp only [List.mem_cons, List.not_mem_nil, or_false]
  omega

theorem writtenInt_toDigits (n : ℕ) : writtenInt (Nat.toDigits 10 n) = some (n : ℤ) := by
  have hdigit : ∀ c ∈ Nat.toDigits 10 n, c.isDigit = true := fun c hc ↦
    Nat.isDigit_of_mem_toDigits (by decide) (by decide) hc
  have hvalue : digitGroups false 0 (Nat.toDigits 10 n) = some n := by
    have htrue := digitGroups_digits hdigit 0
    rw [Nat.ofDigitChars_toDigits (by decide) (by decide)] at htrue
    cases hds : Nat.toDigits 10 n with
    | nil => exact absurd hds Nat.toDigits_ne_nil
    | cons c ds =>
      rw [hds] at htrue hdigit
      have hne : c ≠ '_' := by
        rintro rfl
        exact absurd (hdigit _ List.mem_cons_self) (by decide)
      simpa only [digitGroups, if_neg hne] using htrue
  unfold writtenInt
  rw [trim_of_no_space fun c hc ↦ by simp [isNumberSpace, isSpace_of_isDigit (hdigit c hc)]]
  split
  · rename_i rest heq
    exact absurd (hdigit '-' (heq ▸ List.mem_cons_self)) (by decide)
  · rename_i rest heq
    exact absurd (hdigit '+' (heq ▸ List.mem_cons_self)) (by decide)
  · rw [hvalue]
    rfl

end RiskApp.Text
