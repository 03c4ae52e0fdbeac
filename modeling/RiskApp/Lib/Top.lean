import Mathlib.Data.List.Dedup
import Mathlib.Data.List.Perm.Basic
import Mathlib.Data.Int.Notation

namespace RiskApp.Lib.Top

variable {α β κ ι : Type}

/-- What the first `n` by `f`, the greatest first, may be: ties are in any order. -/
def IsTop (f : α → ℤ) (n : ℕ) (l out : List α) : Prop :=
  ∃ order : List α, order.Perm l ∧ order.Pairwise (fun x y ↦ f y ≤ f x) ∧ out = order.take n

theorem IsTop.map {f : β → ℤ} {g : α → β} {n : ℕ} {l out : List α}
    (h : IsTop (fun x ↦ f (g x)) n l out) : IsTop f n (l.map g) (out.map g) := by
  obtain ⟨order, hperm, hsorted, rfl⟩ := h
  exact ⟨order.map g, hperm.map g, List.pairwise_map.mpr hsorted, List.map_take⟩

theorem IsTop.of_perm {f : α → ℤ} {n : ℕ} {l l' out : List α} (h : IsTop f n l out)
    (hl : l.Perm l') : IsTop f n l' out := by
  obtain ⟨order, hperm, hsorted, rfl⟩ := h
  exact ⟨order, hperm.trans hl, hsorted, rfl⟩

variable [DecidableEq κ] [DecidableEq ι]

/-- `row_number() OVER (PARTITION BY g ORDER BY ..)`. -/
def rowNumbers (g : α → κ) (order : List α → List α) (l : List α) : List (α × ℕ) :=
  (l.map g).dedup.flatMap fun k ↦ (order (l.filter fun x ↦ g x = k)).zipIdx 1

def join (id : α → ι) (l : List α) (numbers : List (ι × ℕ)) : List (α × ℕ) :=
  l.flatMap fun x ↦ (numbers.filter fun y ↦ y.1 = id x).map fun y ↦ (x, y.2)

theorem flatMap_single {id : α → ι} {l : List α} (hid : (l.map id).Nodup) {x : α} (hx : x ∈ l)
    (b : β) : (l.flatMap fun y ↦ if id x = id y then [(y, b)] else []) = [(x, b)] := by
  induction l with
  | nil => exact absurd hx List.not_mem_nil
  | cons y l ih =>
    rw [List.map_cons, List.nodup_cons] at hid
    rw [List.flatMap_cons]
    obtain rfl | hx := List.mem_cons.mp hx
    · rw [if_pos rfl]
      have hnone : (l.flatMap fun y ↦ if id x = id y then [(y, b)] else []) = [] := by
        refine List.flatMap_eq_nil_iff.mpr fun y hy ↦ if_neg fun h ↦ hid.1 ?_
        rw [h]
        exact List.mem_map_of_mem hy
      rw [hnone, List.append_nil]
    · rw [if_neg fun h : id x = id y ↦ hid.1 (h ▸ List.mem_map_of_mem hx), List.nil_append]
      exact ih hid.2 hx

theorem join_perm {id : α → ι} {l : List α} (hid : (l.map id).Nodup) {m : List (α × ℕ)}
    (hm : ∀ y ∈ m, y.1 ∈ l) : (join id l (m.map fun y ↦ (id y.1, y.2))).Perm m := by
  induction m with
  | nil => simp [join]
  | cons y m ih =>
    have hsplit : (join id l ((y :: m).map fun y ↦ (id y.1, y.2))) =
        l.flatMap fun x ↦ (if id y.1 = id x then [(x, y.2)] else []) ++
          ((m.map fun y ↦ (id y.1, y.2)).filter fun y ↦ y.1 = id x).map fun y ↦ (x, y.2) := by
      unfold join
      refine List.flatMap_congr fun x _ ↦ ?_
      by_cases hy : id y.1 = id x
      · simp [hy]
      · simp [hy]
    rw [hsplit]
    refine (List.flatMap_append_perm l _ _).symm.trans ?_
    rw [flatMap_single hid (hm y List.mem_cons_self)]
    exact (ih fun z hz ↦ hm z (List.mem_cons_of_mem _ hz)).cons y

theorem zipIdx_filter (l : List α) (k n : ℕ) :
    (l.zipIdx k).filter (fun y ↦ y.2 < k + n) = (l.take n).zipIdx k := by
  induction l generalizing k n with
  | nil => simp
  | cons x l ih =>
    cases n with
    | zero =>
      refine List.filter_eq_nil_iff.mpr fun y hy ↦ ?_
      have hle := (List.le_snd_of_mem_zipIdx hy)
      simpa using hle
    | succ n =>
      rw [List.zipIdx_cons, List.take_succ_cons, List.zipIdx_cons,
        List.filter_cons_of_pos (by simp)]
      have hshift := ih (k + 1) n
      rw [show k + 1 + n = k + (n + 1) by omega] at hshift
      rw [hshift]

theorem zipIdx_sorted (l : List α) (k : ℕ) :
    (l.zipIdx k).Pairwise fun x y ↦ x.2 < y.2 := by
  induction l generalizing k with
  | nil => exact .nil
  | cons x l ih =>
    refine .cons (fun y hy ↦ ?_) (ih (k + 1))
    have hle := List.le_snd_of_mem_zipIdx hy
    exact Nat.lt_of_succ_le hle

section Parts

variable {g : β → κ} {part : α → List β} {label : α → κ} {l : List α}

theorem filter_parts_of_notMem (hpart : ∀ x ∈ l, ∀ y ∈ part x, g y = label x) {k : κ}
    (hk : k ∉ l.map label) : (l.flatMap part).filter (fun y ↦ g y = k) = [] := by
  refine List.filter_eq_nil_iff.mpr fun y hy h ↦ hk ?_
  obtain ⟨x, hx, hy⟩ := List.mem_flatMap.mp hy
  rw [← of_decide_eq_true h, hpart x hx y hy]
  exact List.mem_map_of_mem hx

theorem filter_parts (hl : (l.map label).Nodup) (hpart : ∀ x ∈ l, ∀ y ∈ part x, g y = label x)
    {x : α} (hx : x ∈ l) : (l.flatMap part).filter (fun y ↦ g y = label x) = part x := by
  induction l with
  | nil => exact absurd hx List.not_mem_nil
  | cons x' l ih =>
    obtain ⟨hnew, hrest⟩ := List.nodup_cons.mp hl
    have hpart' : ∀ x ∈ l, ∀ y ∈ part x, g y = label x := fun x hx ↦
      hpart x (List.mem_cons_of_mem _ hx)
    rw [List.flatMap_cons, List.filter_append]
    obtain rfl | hx := List.mem_cons.mp hx
    · rw [filter_parts_of_notMem hpart' hnew, List.append_nil, List.filter_eq_self.mpr]
      exact fun y hy ↦ decide_eq_true (hpart x List.mem_cons_self y hy)
    · rw [ih hrest hpart' hx, List.filter_eq_nil_iff.mpr, List.nil_append]
      intro y hy h
      refine hnew ?_
      rw [← hpart x' List.mem_cons_self y hy, of_decide_eq_true h]
      exact List.mem_map_of_mem hx

end Parts

theorem rowNumbers_filter {g : α → κ} {order : List α → List α}
    (horder : ∀ l, (order l).Perm l) (l : List α) (k : κ) :
    (rowNumbers g order l).filter (fun y ↦ g y.1 = k) =
      (order (l.filter fun x ↦ g x = k)).zipIdx 1 := by
  have hpart : ∀ k' ∈ (l.map g).dedup,
      ∀ y ∈ (order (l.filter fun x ↦ g x = k')).zipIdx 1, g y.1 = k' := by
    intro k' _ y hy
    have hmem := (horder _).mem_iff.mp (List.fst_mem_of_mem_zipIdx hy)
    exact of_decide_eq_true (List.mem_filter.mp hmem).2
  by_cases hk : k ∈ (l.map g).dedup
  · refine filter_parts (g := fun y : α × ℕ ↦ g y.1) ?_ hpart hk
    rw [List.map_id']
    exact List.nodup_dedup _
  · have hnone : (l.filter fun x ↦ g x = k) = [] := by
      refine List.filter_eq_nil_iff.mpr fun x hx h ↦ hk (List.mem_dedup.mpr ?_)
      exact of_decide_eq_true h ▸ List.mem_map_of_mem hx
    rw [hnone, (horder []).eq_nil]
    refine filter_parts_of_notMem (g := fun y : α × ℕ ↦ g y.1) hpart ?_
    rwa [List.map_id']

theorem mem_of_rowNumbers {g : α → κ} {order : List α → List α}
    (horder : ∀ l, (order l).Perm l) {l : List α} {y : α × ℕ} (hy : y ∈ rowNumbers g order l) :
    y.1 ∈ l := by
  obtain ⟨k, -, hy⟩ := List.mem_flatMap.mp hy
  exact List.mem_of_mem_filter ((horder _).mem_iff.mp (List.fst_mem_of_mem_zipIdx hy))

/-- The first rows of each part by their numbers, joined to their table and put in order, are for
each part what a query of the part alone answers. -/
theorem ranked_part {g : α → κ} {id : α → ι} {order : List α → List α}
    (horder : ∀ l, (order l).Perm l) {table l : List α} (hid : (table.map id).Nodup)
    (hl : l ⊆ table) (n : ℕ) {out : List (α × ℕ)}
    (hout : out.Perm ((join id table
      ((rowNumbers g order l).map fun y ↦ (id y.1, y.2))).filter fun y ↦ y.2 ≤ n))
    (hsorted : out.Pairwise fun x y ↦ g x.1 = g y.1 → x.2 ≤ y.2) (k : κ) :
    (out.filter fun y ↦ g y.1 = k).map Prod.fst =
      (order (l.filter fun x ↦ g x = k)).take n := by
  have hjoin := join_perm hid (m := rowNumbers g order l)
    fun y hy ↦ hl (mem_of_rowNumbers horder hy)
  have hpart : (out.filter fun y ↦ g y.1 = k).Perm
      (((order (l.filter fun x ↦ g x = k)).take n).zipIdx 1) := by
    have hperm := (hout.trans (hjoin.filter _)).filter fun y ↦ decide (g y.1 = k)
    rw [List.filter_filter] at hperm
    rw [← zipIdx_filter, ← rowNumbers_filter horder, List.filter_filter]
    refine hperm.trans (List.Perm.of_eq (List.filter_congr fun y _ ↦ ?_))
    rw [Bool.and_comm, decide_eq_decide.mpr (show y.2 ≤ n ↔ y.2 < 1 + n by omega)]
  have hnumbers := zipIdx_sorted ((order (l.filter fun x ↦ g x = k)).take n) 1
  have heq : (out.filter fun y ↦ g y.1 = k) =
      ((order (l.filter fun x ↦ g x = k)).take n).zipIdx 1 := by
    have hbelow : (out.filter fun y ↦ g y.1 = k).Pairwise fun x y ↦ x.2 ≤ y.2 := by
      refine (hsorted.filter _).imp_of_mem fun hx hy h ↦ h ?_
      have hgx := of_decide_eq_true (List.mem_filter.mp hx).2
      have hgy := of_decide_eq_true (List.mem_filter.mp hy).2
      exact hgx.trans hgy.symm
    refine List.Perm.eq_of_pairwise ?_ hbelow (hnumbers.imp Nat.le_of_lt) hpart
    intro a b ha hb hab hba
    have hnodup : ((((order (l.filter fun x ↦ g x = k)).take n).zipIdx 1).map
        Prod.snd).Nodup := by
      rw [List.zipIdx_map_snd]
      exact List.nodup_range'
    exact List.inj_on_of_nodup_map hnodup (hpart.mem_iff.mp ha) hb (Nat.le_antisymm hab hba)
  rw [heq]
  simp

end RiskApp.Lib.Top
