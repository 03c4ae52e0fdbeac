import Mathlib.Data.List.Count
import Mathlib.Data.List.Dedup

namespace RiskApp.Lib.Tally

variable {α β γ : Type} [DecidableEq β] [DecidableEq γ]

/-- `Counter`: how many elements have each label; a label that none has is no key. -/
def tally (label : α → β) (l : List α) (b : β) : Option ℕ :=
  if l.countP (label · = b) = 0 then none else some (l.countP (label · = b))

/-- `{label(value): count for value, count in groups}`: one group for each value, and the last group
of a label gives its count. -/
def groupCounts (value : α → γ) (label : γ → β) (l : List α) (b : β) : Option ℕ :=
  ((l.map value).dedup.reverse.find? (label · = b)).map fun v ↦ l.countP (value · = v)

omit [DecidableEq γ] in
theorem tally_perm (label : α → β) {l l' : List α} (h : l.Perm l') :
    tally label l = tally label l' := by
  funext b
  unfold tally
  rw [h.countP_eq]

omit [DecidableEq γ] in
theorem tally_map {δ : Type} (label : α → β) (f : δ → α) (l : List δ) :
    tally label (l.map f) = tally (fun x ↦ label (f x)) l := by
  funext b
  unfold tally
  rw [List.countP_map]
  rfl

omit [DecidableEq γ] in
theorem tally_eq_none {label : α → β} {l : List α} {b : β} :
    tally label l b = none ↔ ∀ x ∈ l, label x ≠ b := by
  have hcount : l.countP (label · = b) = 0 ↔ ∀ x ∈ l, label x ≠ b := by
    rw [List.countP_eq_zero]
    simp
  unfold tally
  split
  · exact iff_of_true rfl (hcount.mp ‹_›)
  · exact iff_of_false (by simp) fun h ↦ ‹¬_› (hcount.mpr h)

section Groups

variable {value : α → γ} {label : γ → β} {l : List α} {b : β}

theorem groupCounts_eq_none :
    groupCounts value label l b = none ↔ ∀ x ∈ l, label (value x) ≠ b := by
  unfold groupCounts
  rw [Option.map_eq_none_iff, List.find?_eq_none]
  simp

theorem groupCounts_eq_some {n : ℕ} (h : groupCounts value label l b = some n) :
    ∃ x ∈ l, label (value x) = b ∧ n = l.countP (value · = value x) := by
  obtain ⟨v, hv, rfl⟩ := Option.map_eq_some_iff.mp h
  have hmem := List.mem_of_find?_eq_some hv
  rw [List.mem_reverse, List.mem_dedup, List.mem_map] at hmem
  obtain ⟨x, hx, rfl⟩ := hmem
  exact ⟨x, hx, by simpa using List.find?_some hv, rfl⟩

theorem countP_lt_of_collision {x y : α} (hy : y ∈ l) (hlabel : label (value x) = label (value y))
    (hne : value x ≠ value y) :
    l.countP (value · = value x) < l.countP (fun z ↦ label (value z) = label (value x)) := by
  induction l with
  | nil => cases hy
  | cons z l ih =>
    have hle : l.countP (value · = value x) ≤
        l.countP (fun z ↦ label (value z) = label (value x)) := by
      refine List.countP_mono_left fun w _ hw ↦ ?_
      simp only [decide_eq_true_eq] at hw ⊢
      rw [hw]
    rw [List.countP_cons, List.countP_cons]
    rcases List.mem_cons.mp hy with rfl | hy
    · rw [if_neg (by simpa using Ne.symm hne), if_pos (by simpa using hlabel.symm)]
      omega
    · have hlt := ih hy
      by_cases hz : value z = value x
      · rw [if_pos (by simpa using hz), if_pos (by simp [hz])]
        omega
      · rw [if_neg (by simpa using hz)]
        omega

/-- The groups count what a counter counts exactly when no label stands for two values. -/
theorem groupCounts_eq_tally_iff : groupCounts value label l = tally (fun x ↦ label (value x)) l ↔
    ∀ x ∈ l, ∀ y ∈ l, label (value x) = label (value y) → value x = value y := by
  constructor
  · intro h x hx y hy hlabel
    by_contra hne
    cases hgroup : groupCounts value label l (label (value x)) with
    | none => exact groupCounts_eq_none.mp hgroup x hx rfl
    | some n =>
      obtain ⟨w, hw, hwlabel, rfl⟩ := groupCounts_eq_some hgroup
      have hcount : l.countP (value · = value w) =
          l.countP (fun z ↦ label (value z) = label (value w)) := by
        have htally := congrFun h (label (value x))
        rw [hgroup, ← hwlabel] at htally
        unfold tally at htally
        split at htally
        · cases htally
        · exact Option.some.inj htally
      by_cases hwx : value w = value x
      · refine absurd hcount (Nat.ne_of_lt (countP_lt_of_collision hy (hwlabel.trans hlabel) ?_))
        rwa [hwx]
      · exact absurd hcount (Nat.ne_of_lt (countP_lt_of_collision hx hwlabel hwx))
  · intro h
    funext b
    cases hgroup : groupCounts value label l b with
    | none => exact (tally_eq_none.mpr (groupCounts_eq_none.mp hgroup)).symm
    | some n =>
      obtain ⟨w, hw, rfl, rfl⟩ := groupCounts_eq_some hgroup
      have hcount : l.countP (value · = value w) =
          l.countP (fun z ↦ label (value z) = label (value w)) := by
        refine List.countP_congr fun x hx ↦ ?_
        simp only [decide_eq_true_eq]
        exact ⟨fun hx' ↦ by rw [hx'], fun hx' ↦ h x hx w hw hx'⟩
      unfold tally
      rw [← hcount, if_neg]
      rw [List.countP_eq_zero]
      exact fun hno ↦ hno w hw (by simp)

end Groups

end RiskApp.Lib.Tally
