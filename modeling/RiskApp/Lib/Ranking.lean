import Mathlib.Data.List.Sort

namespace RiskApp.Lib.Ranking

variable {α : Type} (f : α → ℕ)

/-- Ascending by number; of two elements with the same number the earlier one comes first. -/
def ascending (l : List α) : List α := l.insertionSort fun x y ↦ f x ≤ f y

/-- How many elements of `pre ++ x :: post` come before `x`. -/
def rank (pre : List α) (x : α) (post : List α) : ℕ :=
  pre.countP (fun y ↦ f y ≤ f x) + post.countP (fun y ↦ f y < f x)

variable {f}

theorem ascending_perm (l : List α) : (ascending f l).Perm l := List.perm_insertionSort _ l

theorem ascending_sorted (l : List α) :
    (ascending f l).Pairwise fun x y ↦ f x ≤ f y := by
  let r := fun x y : α ↦ f x ≤ f y
  have htotal : Std.Total r := ⟨fun x y ↦ le_total (f x) (f y)⟩
  have htrans : IsTrans α r := ⟨fun x y z ↦ le_trans⟩
  exact List.pairwise_insertionSort r l

theorem insert_of_le {x y : α} (h : f y ≤ f x) (l : List α) :
    (x :: l).orderedInsert (fun x y ↦ f x ≤ f y) y = y :: x :: l := if_pos h

theorem insert_of_lt {x y : α} (h : f x < f y) (l : List α) :
    (x :: l).orderedInsert (fun x y ↦ f x ≤ f y) y =
      x :: l.orderedInsert (fun x y ↦ f x ≤ f y) y := if_neg (by omega)

theorem insert_into_front {x y : α} (h : f y ≤ f x) (a b : List α) :
    (a ++ x :: b).orderedInsert (fun x y ↦ f x ≤ f y) y =
      a.orderedInsert (fun x y ↦ f x ≤ f y) y ++ x :: b := by
  induction a with
  | nil => exact insert_of_le h _
  | cons z a ih =>
    by_cases hz : f y ≤ f z
    · rw [List.cons_append, insert_of_le hz, insert_of_le hz]
      rfl
    · have hz : f z < f y := by omega
      rw [List.cons_append, insert_of_lt hz, insert_of_lt hz, ih]
      rfl

theorem insert_into_back {x y : α} (h : f x < f y) {a : List α} (ha : ∀ z ∈ a, f z ≤ f x)
    (b : List α) : (a ++ x :: b).orderedInsert (fun x y ↦ f x ≤ f y) y =
      a ++ x :: b.orderedInsert (fun x y ↦ f x ≤ f y) y := by
  induction a with
  | nil => exact insert_of_lt h _
  | cons z a ih =>
    have hz := ha z List.mem_cons_self
    rw [List.cons_append, insert_of_lt (by omega), ih fun w hw ↦ ha w (List.mem_cons_of_mem z hw)]
    rfl

theorem ascending_split (pre : List α) (x : α) (post : List α) :
    ∃ a b, ascending f (pre ++ x :: post) = a ++ x :: b ∧ a.length = rank f pre x post := by
  induction pre with
  | nil =>
    have hcount : ∀ l : List α, l.Pairwise (fun y z ↦ f y ≤ f z) →
        ∃ a b, l.orderedInsert (fun x y ↦ f x ≤ f y) x = a ++ x :: b ∧
          a.length = l.countP fun y ↦ f y < f x := by
      intro l hl
      induction l with
      | nil => exact ⟨[], [], rfl, rfl⟩
      | cons y l ih =>
        obtain ⟨hy, hrest⟩ := List.pairwise_cons.mp hl
        by_cases hxy : f x ≤ f y
        · refine ⟨[], y :: l, insert_of_le hxy _, ?_⟩
          refine (List.countP_eq_zero.mpr fun z hz ↦ ?_).symm
          rcases List.mem_cons.mp hz with rfl | hz
          · simpa using hxy
          · have := hy z hz
            simp only [decide_eq_true_eq]
            omega
        · obtain ⟨a, b, heq, hlen⟩ := ih hrest
          refine ⟨y :: a, b, ?_, ?_⟩
          · rw [insert_of_lt (by omega), heq]
            rfl
          · rw [List.length_cons, hlen, List.countP_cons_of_pos (by simpa using hxy)]
    obtain ⟨a, b, heq, hlen⟩ := hcount (ascending f post) (ascending_sorted post)
    refine ⟨a, b, heq, ?_⟩
    rw [hlen, (ascending_perm post).countP_eq, rank, List.countP_nil, Nat.zero_add]
  | cons y pre ih =>
    obtain ⟨a, b, heq, hlen⟩ := ih
    have hcons : ascending f (y :: pre ++ x :: post) =
        (ascending f (pre ++ x :: post)).orderedInsert (fun x y ↦ f x ≤ f y) y := rfl
    have hbefore : ∀ z ∈ a, f z ≤ f x := by
      intro z hz
      have hsorted := ascending_sorted (f := f) (pre ++ x :: post)
      rw [heq] at hsorted
      exact (List.pairwise_append.mp hsorted).2.2 z hz x List.mem_cons_self
    rw [hcons, heq]
    by_cases hy : f y ≤ f x
    · refine ⟨_, b, insert_into_front hy a b, ?_⟩
      rw [List.orderedInsert_length, hlen, rank, rank, List.countP_cons_of_pos (by simpa using hy)]
      omega
    · refine ⟨a, _, insert_into_back (by omega) hbefore b, ?_⟩
      rw [hlen, rank, rank, List.countP_cons_of_neg (by simpa using hy)]

variable {l : List α} {p : α → Bool} {n : ℕ}

theorem take_filter_append (l : List α) (p : α → Bool) (n : ℕ) :
    ((ascending f l).take n).filter p ++ ((ascending f l).drop n).filter p =
      (ascending f l).filter p := by
  rw [← List.filter_append, List.take_append_drop]

/-- When the first elements are as many of a kind as there are, each of the kind is among them. -/
theorem rank_lt_of_length (h : (((ascending f l).take n).filter p).length = (l.filter p).length)
    {pre post : List α} {x : α} (hl : l = pre ++ x :: post) (hp : p x = true) :
    rank f pre x post < n := by
  by_contra hrank
  subst hl
  obtain ⟨a, b, heq, hlen⟩ := ascending_split (f := f) pre x post
  have hdrop : x ∈ (ascending f (pre ++ x :: post)).drop n := by
    rw [heq, List.drop_append_of_le_length (by omega)]
    exact List.mem_append_right _ List.mem_cons_self
  have hlost : 0 < (((ascending f (pre ++ x :: post)).drop n).filter p).length :=
    List.length_pos_of_mem (List.mem_filter.mpr ⟨hdrop, hp⟩)
  have hlength := congrArg List.length
    (take_filter_append (f := f) (pre ++ x :: post) p n)
  rw [List.length_append, ((ascending_perm _).filter p).length_eq, h] at hlength
  omega

theorem take_perm_of_rank (hl : l.Nodup)
    (h : ∀ pre x post, l = pre ++ x :: post → p x = true → rank f pre x post < n) :
    (((ascending f l).take n).filter p).Perm (l.filter p) := by
  have hnone : ((ascending f l).drop n).filter p = [] := by
    refine List.filter_eq_nil_iff.mpr fun x hx hp ↦ ?_
    have hmem : x ∈ l := (ascending_perm l).mem_iff.mp (List.mem_of_mem_drop hx)
    obtain ⟨pre, post, rfl⟩ := List.append_of_mem hmem
    obtain ⟨a, b, heq, hlen⟩ := ascending_split (f := f) pre x post
    have hsmall := h pre x post rfl hp
    have hnodup := (ascending_perm (f := f) (pre ++ x :: post)).nodup_iff.mpr hl
    have htake : x ∈ (ascending f (pre ++ x :: post)).take n := by
      rw [heq, List.take_append]
      refine List.mem_append_right _ ?_
      obtain ⟨m, hm⟩ : ∃ m, n - a.length = m + 1 := ⟨n - a.length - 1, by omega⟩
      rw [hm, List.take_succ_cons]
      exact List.mem_cons_self
    rw [← List.take_append_drop n (ascending f (pre ++ x :: post))] at hnodup
    exact (List.nodup_append.mp hnodup).2.2 x htake x hx rfl
  have hparts := take_filter_append (f := f) l p n
  rw [hnone, List.append_nil] at hparts
  rw [hparts]
  exact (ascending_perm l).filter p

end RiskApp.Lib.Ranking
