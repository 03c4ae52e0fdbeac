import Mathlib.Data.List.Sort

namespace RiskApp.Lib.Window

variable {α : Type} (num : α → ℕ)

/-- The elements numbered in `(lo, hi]`, in ascending order. -/
def window (lo hi : ℕ) (l : List α) : List α :=
  (l.filter (fun x ↦ lo < num x && num x ≤ hi)).insertionSort (fun x y ↦ num x ≤ num y)

/-- Where a page ends: the number of its last element, or where it started. -/
def cursor (lo : ℕ) (page : List α) : ℕ := (page.getLast?.map num).getD lo

variable {num} {lo hi limit : ℕ} {l : List α} {x : α}

theorem mem_window : x ∈ window num lo hi l ↔ x ∈ l ∧ lo < num x ∧ num x ≤ hi := by
  simp [window, List.mem_filter]

theorem window_strict (hl : l.Nodup) (hinj : ∀ x ∈ l, ∀ y ∈ l, num x = num y → x = y) :
    (window num lo hi l).Pairwise (fun x y ↦ num x < num y) := by
  let r := fun x y : α ↦ num x ≤ num y
  have hsorted : (window num lo hi l).Pairwise r := by
    have htotal : Std.Total r := ⟨fun x y ↦ le_total (num x) (num y)⟩
    have htrans : IsTrans α r := ⟨fun x y z ↦ le_trans⟩
    exact List.pairwise_insertionSort r _
  have hnodup : (window num lo hi l).Nodup :=
    (List.perm_insertionSort r _).nodup_iff.mpr (hl.filter _)
  have hboth := hsorted.and hnodup
  refine List.Pairwise.imp_of_mem (fun {x y} hx hy h ↦ ?_) hboth
  refine lt_of_le_of_ne h.1 fun he ↦ h.2 ?_
  exact hinj x (mem_window.mp hx).1 y (mem_window.mp hy).1 he

theorem lo_le_cursor {page : List α} (h : ∀ x ∈ page, lo < num x) : lo ≤ cursor num lo page := by
  unfold cursor
  cases hlast : page.getLast? with
  | none => exact le_rfl
  | some x => exact (h x (List.mem_of_getLast? hlast)).le

theorem lo_lt_cursor {page : List α} (h : ∀ x ∈ page, lo < num x) (hne : page ≠ []) :
    lo < cursor num lo page := by
  unfold cursor
  rw [List.getLast?_eq_some_getLast hne]
  exact h _ (List.getLast_mem hne)

theorem le_cursor {page : List α} (h : page.Pairwise (fun x y ↦ num x < num y)) (hx : x ∈ page) :
    num x ≤ cursor num lo page := by
  unfold cursor
  have hne := List.ne_nil_of_mem hx
  rw [List.getLast?_eq_some_getLast hne]
  rcases List.mem_append.mp (List.dropLast_append_getLast hne ▸ hx) with hmem | hmem
  · rw [← List.dropLast_append_getLast hne] at h
    exact ((List.pairwise_append.mp h).2.2 x hmem _ (List.mem_singleton_self _)).le
  · rw [List.mem_singleton.mp hmem]
    rfl

theorem cursor_le {page : List α} (hlo : lo ≤ hi) (h : ∀ x ∈ page, num x ≤ hi) :
    cursor num lo page ≤ hi := by
  unfold cursor
  cases hlast : page.getLast? with
  | none => exact hlo
  | some x => exact h x (List.mem_of_getLast? hlast)

/-- A page holds every element of its window up to the number it ends with. -/
theorem mem_page_of_le_cursor (h : (window num lo hi l).Pairwise (fun x y ↦ num x < num y))
    (hx : x ∈ window num lo hi l)
    (hle : num x ≤ cursor num lo ((window num lo hi l).take limit)) :
    x ∈ (window num lo hi l).take limit := by
  have hbounds := (mem_window.mp hx).2
  rw [← List.take_append_drop limit (window num lo hi l)] at hx h
  rcases List.mem_append.mp hx with hx | hx
  · exact hx
  · exfalso
    have hafter := (List.pairwise_append.mp h).2.2
    unfold cursor at hle
    cases hlast : ((window num lo hi l).take limit).getLast? with
    | none =>
      rw [hlast] at hle
      simp only [Option.map_none, Option.getD_none] at hle
      omega
    | some y =>
      rw [hlast] at hle
      simp only [Option.map_some, Option.getD_some] at hle
      have := hafter y (List.mem_of_getLast? hlast) x hx
      omega

end RiskApp.Lib.Window
