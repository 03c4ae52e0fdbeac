import Mathlib.Data.List.Nodup

namespace RiskApp.Lib.Table

variable {α κ : Type} [DecidableEq κ] (key : α → κ)

/-- A table is a list whose elements carry their primary key. -/
def find (k : κ) (l : List α) : Option α := l.find? (fun x ↦ key x = k)

def replace (x : α) (l : List α) : List α := l.map (fun y ↦ if key y = key x then x else y)

theorem find_cons (k : κ) (x : α) (l : List α) :
    find key k (x :: l) = if key x = k then some x else find key k l := by
  by_cases h : key x = k <;> simp [find, h]

theorem key_of_find {k : κ} {l : List α} {x : α} (h : find key k l = some x) : key x = k := by
  simpa using List.find?_some h

theorem mem_of_find {k : κ} {l : List α} {x : α} (h : find key k l = some x) : x ∈ l :=
  List.mem_of_find?_eq_some h

theorem find_eq_none {k : κ} {l : List α} : find key k l = none ↔ ∀ x ∈ l, key x ≠ k := by
  simp [find, List.find?_eq_none]

theorem find_isSome {k : κ} {l : List α} {x : α} (hx : x ∈ l) (hk : key x = k) :
    (find key k l).isSome := by
  rw [Option.isSome_iff_ne_none]
  exact fun h ↦ (find_eq_none key).mp h x hx hk

theorem find_append (k : κ) (l l' : List α) :
    find key k (l ++ l') = (find key k l).or (find key k l') := by
  simp [find, List.find?_append]

theorem find_singleton (k : κ) (x : α) :
    find key k [x] = if key x = k then some x else none := by
  by_cases h : key x = k <;> simp [find, h]

@[simp] theorem map_key_replace (x : α) (l : List α) : (replace key x l).map key = l.map key := by
  simp only [replace, List.map_map]
  apply List.map_congr_left
  intro y _
  by_cases h : key y = key x <;> simp [h]

theorem find_replace_self {x : α} {l : List α} (h : ∃ y ∈ l, key y = key x) :
    find key (key x) (replace key x l) = some x := by
  induction l with
  | nil => simp at h
  | cons y l ih =>
    by_cases hy : key y = key x
    · simp [find, replace, hy]
    · have hl : ∃ z ∈ l, key z = key x := by
        obtain ⟨z, hz, hk⟩ := h
        rcases List.mem_cons.mp hz with rfl | hz
        · exact absurd hk hy
        · exact ⟨z, hz, hk⟩
      simpa [find, replace, hy] using ih hl

theorem find_replace_of_ne {k : κ} {x : α} (l : List α) (h : k ≠ key x) :
    find key k (replace key x l) = find key k l := by
  induction l with
  | nil => rfl
  | cons y l ih =>
    by_cases hy : key y = key x
    · have hk : ¬ key y = k := fun e ↦ h (e.symm.trans hy)
      have hk' : ¬ key x = k := fun e ↦ h e.symm
      simpa [find, replace, hy, hk, hk'] using ih
    · by_cases hk : key y = k
      · have hx : ¬ k = key x := h
        simp [find, replace, hk, hx]
      · simpa [find, replace, hy, hk] using ih

theorem replace_replace {x y : α} (l : List α) (h : key y = key x) :
    replace key x (replace key y l) = replace key x l := by
  simp only [replace, List.map_map]
  apply List.map_congr_left
  intro z _
  by_cases hz : key z = key x <;> simp [h, hz]

theorem mem_replace {x y : α} {l : List α} (h : y ∈ replace key x l) :
    y = x ∨ (y ∈ l ∧ key y ≠ key x) := by
  obtain ⟨z, hz, he⟩ := List.mem_map.mp h
  by_cases hk : key z = key x
  · exact Or.inl (by simpa [hk] using he.symm)
  · right
    have hzy : z = y := by simpa [hk] using he
    exact hzy ▸ ⟨hz, hk⟩

theorem find_of_mem {l : List α} (hl : (l.map key).Nodup) {x : α} (hx : x ∈ l) :
    find key (key x) l = some x := by
  induction l with
  | nil => simp at hx
  | cons y l ih =>
    rw [List.map_cons, List.nodup_cons] at hl
    obtain ⟨hy, hn⟩ := hl
    rcases List.mem_cons.mp hx with rfl | hx'
    · simp [find]
    · have hk : ¬ key y = key x := fun e ↦ hy (e ▸ List.mem_map_of_mem hx')
      simpa [find, hk] using ih hn hx'

theorem find_filter (k : κ) {p : α → Bool} (l : List α) (hp : ∀ x ∈ l, key x = k → p x = true) :
    find key k (l.filter p) = find key k l := by
  induction l with
  | nil => rfl
  | cons x l ih =>
    have hl := ih fun y hy ↦ hp y (List.mem_cons_of_mem x hy)
    rw [List.filter_cons]
    split
    · rw [find_cons, find_cons, hl]
    · rename_i hx
      have hk : key x ≠ k := fun e ↦ hx (hp x List.mem_cons_self e)
      rw [find_cons, if_neg hk, hl]

theorem find_map (k : κ) {g : α → α} (hg : ∀ x, key (g x) = key x) (l : List α) :
    find key k (l.map g) = (find key k l).map g := by
  induction l with
  | nil => rfl
  | cons x l ih =>
    rw [List.map_cons, find_cons, find_cons, hg, ih]
    split <;> rfl

theorem find_map_view {β : Type} (key' : β → κ) (k : κ) {g : α → β} (hg : ∀ x, key' (g x) = key x)
    (l : List α) : find key' k (l.map g) = (find key k l).map g := by
  induction l with
  | nil => rfl
  | cons x l ih =>
    rw [List.map_cons, find_cons, find_cons, hg, ih]
    split <;> rfl

theorem filter_key {l : List α} (hl : (l.map key).Nodup) (k : κ) :
    l.filter (fun x ↦ key x = k) = (find key k l).toList := by
  induction l with
  | nil => rfl
  | cons x l ih =>
    rw [List.map_cons, List.nodup_cons] at hl
    rw [find_cons, List.filter_cons]
    by_cases hx : key x = k
    · have hnone : find key k l = none :=
        (find_eq_none key).mpr fun y hy he ↦ hl.1 (hx.trans he.symm ▸ List.mem_map_of_mem hy)
      rw [if_pos (decide_eq_true hx), if_pos hx, ih hl.2, hnone]
      rfl
    · rw [if_neg (by simpa using hx), if_neg hx, ih hl.2]

theorem filter_replace {x : α} {l : List α} {p : α → Bool} (hx : p x = false)
    (hl : ∀ y ∈ l, key y = key x → p y = false) : (replace key x l).filter p = l.filter p := by
  induction l with
  | nil => rfl
  | cons y l ih =>
    have htail := ih fun z hz ↦ hl z (List.mem_cons_of_mem y hz)
    simp only [replace, List.map_cons, List.filter_cons] at htail ⊢
    by_cases hy : key y = key x
    · rw [if_pos hy, hx, hl y List.mem_cons_self hy, htail, if_neg Bool.false_ne_true,
        if_neg Bool.false_ne_true]
    · rw [if_neg hy, htail]

theorem find_forall₂ {R : α → α → Prop} {l l' : List α} (h : List.Forall₂ R l l')
    (hk : ∀ x y, R x y → key x = key y) (k : κ) : Option.Rel R (find key k l) (find key k l') := by
  induction h with
  | nil => exact .none
  | @cons x y l l' hxy _ ih =>
    rw [find_cons, find_cons, ← hk x y hxy]
    split
    · exact .some hxy
    · exact ih

theorem filter_forall₂ {R : α → α → Prop} {l l' : List α} (h : List.Forall₂ R l l')
    {p q : α → Bool} (hpq : ∀ x y, R x y → p x = q y ∧ (p x = true → x = y)) :
    l.filter p = l'.filter q := by
  induction h with
  | nil => rfl
  | @cons x y l l' hxy _ ih =>
    obtain ⟨heq, hsame⟩ := hpq x y hxy
    rw [List.filter_cons, List.filter_cons, ← heq, ih]
    split
    · rename_i hx
      rw [hsame hx]
    · rfl

omit [DecidableEq κ] in
theorem map_key_forall₂ {R : α → α → Prop} {l l' : List α} (h : List.Forall₂ R l l')
    (hk : ∀ x y, R x y → key x = key y) : l.map key = l'.map key := by
  induction h with
  | nil => rfl
  | @cons x y l l' hxy _ ih => rw [List.map_cons, List.map_cons, hk x y hxy, ih]

theorem all_forall₂ {R : α → α → Prop} {l l' : List α} (h : List.Forall₂ R l l')
    {p q : α → Bool} (hpq : ∀ x y, R x y → p x = q y) : l.all p = l'.all q := by
  induction h with
  | nil => rfl
  | @cons x y l l' hxy _ ih => rw [List.all_cons, List.all_cons, hpq x y hxy, ih]

theorem forall₂_mem {R : α → α → Prop} {l l' : List α} (h : List.Forall₂ R l l') :
    List.Forall₂ (fun x y ↦ x ∈ l ∧ y ∈ l' ∧ R x y) l l' := by
  induction h with
  | nil => exact .nil
  | @cons x y l l' hxy _ ih =>
    refine .cons ⟨List.mem_cons_self, List.mem_cons_self, hxy⟩ (ih.imp ?_)
    exact fun a b ⟨ha, hb, hab⟩ ↦ ⟨List.mem_cons_of_mem x ha, List.mem_cons_of_mem y hb, hab⟩

def upsert (x : α) (l : List α) : List α := l.filter (fun y ↦ key y ≠ key x) ++ [x]

theorem find_upsert (k : κ) (x : α) (l : List α) :
    find key k (upsert key x l) = if key x = k then some x else find key k l := by
  rw [upsert, find_append, find_singleton]
  split
  · rename_i h
    have hnone : find key k (l.filter (fun y ↦ key y ≠ key x)) = none := by
      refine (find_eq_none key).mpr fun y hy ↦ ?_
      simpa [h] using (List.mem_filter.mp hy).2
    rw [hnone, Option.none_or]
  · rename_i h
    rw [Option.or_none]
    exact find_filter key k l fun y _ hy ↦ by simpa [hy] using Ne.symm h

theorem map_upsert {β : Type} (key' : β → κ) {g : α → β} (hg : ∀ x, key' (g x) = key x) (x : α)
    (l : List α) : (upsert key x l).map g = upsert key' (g x) (l.map g) := by
  rw [upsert, upsert, List.map_append, List.filter_map, hg]
  congr 2
  refine List.filter_congr fun y _ ↦ ?_
  rw [Function.comp_apply, hg]

theorem nodup_upsert {l : List α} (hl : (l.map key).Nodup) (x : α) :
    ((upsert key x l).map key).Nodup := by
  rw [upsert, List.map_append, List.map_cons, List.map_nil]
  refine List.nodup_append.mpr ⟨hl.sublist (List.filter_sublist.map key), by simp, ?_⟩
  intro k hk k' hk' he
  obtain ⟨y, hy, rfl⟩ := List.mem_map.mp hk
  have hne : key y ≠ key x := by simpa using (List.mem_filter.mp hy).2
  exact hne (he.trans (List.mem_singleton.mp hk'))

omit [DecidableEq κ] in
theorem length_le_one {l : List α} (hl : (l.map key).Nodup) {k : κ} (h : ∀ x ∈ l, key x = k) :
    l.length ≤ 1 := by
  cases l with
  | nil => exact Nat.zero_le 1
  | cons x l =>
    cases l with
    | nil => exact Nat.le_refl 1
    | cons y l =>
      have hsame : key x = key y := (h x (by simp)).trans (h y (by simp)).symm
      simp [hsame] at hl

/-- The rows of `l` as a transaction sees them that has written the rows `w`. -/
def overlay (w l : List α) : List α :=
  l.map (fun y ↦ (find key (key y) w).getD y) ++ w.filter (fun x ↦ (find key (key x) l).isNone)

theorem key_getD_find (w : List α) (y : α) : key ((find key (key y) w).getD y) = key y := by
  cases h : find key (key y) w with
  | none => rfl
  | some x => exact key_of_find key h

theorem map_key_overlay (w l : List α) : (overlay key w l).map key =
    l.map key ++ (w.filter (fun x ↦ (find key (key x) l).isNone)).map key := by
  rw [overlay, List.map_append, List.map_map]
  congr 1
  exact List.map_congr_left fun y _ ↦ key_getD_find key w y

theorem nodup_overlay {w l : List α} (hw : (w.map key).Nodup) (hl : (l.map key).Nodup) :
    ((overlay key w l).map key).Nodup := by
  rw [map_key_overlay]
  refine List.nodup_append.mpr ⟨hl, hw.sublist (List.filter_sublist.map key), ?_⟩
  intro k hk k' hk' he
  obtain ⟨y, hy, rfl⟩ := List.mem_map.mp hk
  obtain ⟨x, hx, rfl⟩ := List.mem_map.mp hk'
  have hnone := Option.isNone_iff_eq_none.mp (List.mem_filter.mp hx).2
  exact (find_eq_none key).mp hnone y hy he

theorem find_map_getD (k : κ) (w l : List α) :
    find key k (l.map (fun y ↦ (find key (key y) w).getD y)) =
      (find key k l).map (fun y ↦ (find key k w).getD y) := by
  induction l with
  | nil => rfl
  | cons y l ih =>
    rw [List.map_cons, find_cons, find_cons, key_getD_find key, ih]
    split
    · rename_i hk
      rw [hk, Option.map_some]
    · rfl

theorem find_overlay (k : κ) (w l : List α) :
    find key k (overlay key w l) = (find key k w).or (find key k l) := by
  rw [overlay, find_append, find_map_getD]
  cases hl : find key k l with
  | some y => cases hw : find key k w <;> simp
  | none =>
    rw [find_filter key k w fun x _ hk ↦ by rw [hk, hl]; rfl]
    simp

theorem mem_iff_find {l : List α} (hl : (l.map key).Nodup) {x : α} :
    x ∈ l ↔ find key (key x) l = some x :=
  ⟨find_of_mem key hl, mem_of_find key⟩

/-- An assignment to a key of a dictionary, which keeps the place that it has. -/
def assign (x : α) (l : List α) : List α :=
  if l.any (fun y ↦ key y = key x) then replace key x l else l ++ [x]

def dict (xs : List α) : List α := xs.foldl (fun l x ↦ assign key x l) []

theorem find_assign (k : κ) (x : α) (l : List α) :
    find key k (assign key x l) = if key x = k then some x else find key k l := by
  unfold assign
  split
  · rename_i hany
    have hold : ∃ y ∈ l, key y = key x := by simpa using hany
    split
    · rename_i hk
      exact hk ▸ find_replace_self key hold
    · rename_i hk
      exact find_replace_of_ne key l (Ne.symm hk)
  · rename_i hany
    have hnew : ∀ y ∈ l, key y ≠ key x := by simpa using hany
    rw [find_append, find_singleton]
    split
    · rename_i hk
      rw [(find_eq_none key).mpr fun y hy he ↦ hnew y hy (he.trans hk.symm), Option.none_or]
    · rw [Option.or_none]

theorem nodup_assign {l : List α} (hl : (l.map key).Nodup) (x : α) :
    ((assign key x l).map key).Nodup := by
  unfold assign
  split
  · rwa [map_key_replace]
  · rename_i hany
    have hnew : ∀ y ∈ l, key y ≠ key x := by simpa using hany
    rw [List.map_append, List.map_singleton]
    refine List.nodup_append.mpr ⟨hl, List.nodup_singleton _, fun k hk k' hk' he ↦ ?_⟩
    obtain ⟨y, hy, rfl⟩ := List.mem_map.mp hk
    exact hnew y hy (he.trans (List.mem_singleton.mp hk'))

theorem find_foldl {put : List α → α → List α}
    (hput : ∀ k x l, find key k (put l x) = if key x = k then some x else find key k l)
    (k : κ) (xs l : List α) :
    find key k (xs.foldl put l) = (find key k xs.reverse).or (find key k l) := by
  induction xs generalizing l with
  | nil => rfl
  | cons x xs ih =>
    rw [List.foldl_cons, ih, List.reverse_cons, find_append, hput, find_singleton, Option.or_assoc]
    congr 1
    split
    · rfl
    · rfl

omit [DecidableEq κ] in
theorem nodup_foldl {put : List α → α → List α}
    (hput : ∀ x l, (l.map key).Nodup → ((put l x).map key).Nodup) (xs : List α) {l : List α}
    (hl : (l.map key).Nodup) : ((xs.foldl put l).map key).Nodup := by
  induction xs generalizing l with
  | nil => exact hl
  | cons x xs ih => exact ih (hput x l hl)

theorem find_dict (k : κ) (xs : List α) : find key k (dict key xs) = find key k xs.reverse := by
  unfold dict
  rw [find_foldl key (find_assign key)]
  exact Option.or_none

theorem nodup_dict (xs : List α) : ((dict key xs).map key).Nodup :=
  nodup_foldl key (fun x _ hl ↦ nodup_assign key hl x) xs List.nodup_nil

end RiskApp.Lib.Table
