import Mathlib.Data.Set.Insert

namespace RiskApp.Lib.Labels

variable {κ τ γ : Type} (table : κ → τ) (blank : γ)

/-- No two keys of a table carry one label; blanks do not count. -/
def Distinct (f : κ → γ) : Prop := ∀ j k, table j = table k → f j = f k → f j ≠ blank → j = k

/-- The keys in `A` take the labels of `g`. Others keep theirs or lose them, but none loses the
label that `g` gives it. -/
structure Adopts (g : κ → γ) (A : Set κ) (f f' : κ → γ) : Prop where
  taken : ∀ k ∈ A, f' k = g k
  others : ∀ k ∉ A, f' k = f k ∨ f' k = blank
  kept : ∀ k, f k = g k → f' k = g k

open scoped Classical in
/-- A key takes a label from whoever has it. -/
noncomputable def claim (k : κ) (v : γ) (f : κ → γ) : κ → γ := fun j ↦
  if j = k then v else if table j = table k ∧ f j = v then blank else f j

open scoped Classical in
/-- The keys in `N` give up their labels, and others those that `g` gives to keys in `N`. -/
noncomputable def release (N : Set κ) (g f : κ → γ) : κ → γ := fun k ↦
  if k ∈ N ∨ ∃ j ∈ N, table j = table k ∧ g j = f k then blank else f k

open scoped Classical in
noncomputable def assign (D : Set κ) (g f : κ → γ) : κ → γ := fun k ↦ if k ∈ D then g k else f k

variable {table blank} {f g : κ → γ} {D N : Set κ} {j k : κ} {v : γ}

theorem claim_self : claim table blank k v f k = v := if_pos rfl

theorem claim_of_ne (h : j ≠ k) (hfree : ¬ (table j = table k ∧ f j = v)) :
    claim table blank k v f j = f j := by
  rw [claim, if_neg h, if_neg hfree]

theorem claim_taken (h : j ≠ k) (ht : table j = table k) (hv : f j = v) :
    claim table blank k v f j = blank := by
  rw [claim, if_neg h, if_pos ⟨ht, hv⟩]

theorem claim_or (table : κ → τ) (blank : γ) (v : γ) (f : κ → γ) (h : j ≠ k) :
    claim table blank k v f j = blank ∨
      claim table blank k v f j = f j ∧ ¬ (table j = table k ∧ f j = v) := by
  by_cases hv : table j = table k ∧ f j = v
  · exact Or.inl (claim_taken h hv.1 hv.2)
  · exact Or.inr ⟨claim_of_ne h hv, hv⟩

theorem Distinct.claim (hf : Distinct table blank f) (k : κ) (v : γ) :
    Distinct table blank (claim table blank k v f) := by
  intro i j ht he hne
  by_cases hi : i = k
  · by_cases hj : j = k
    · exact hi.trans hj.symm
    · subst hi
      rw [claim_self] at he hne
      rcases claim_or table blank v f hj with hb | ⟨hs, hn⟩
      · exact absurd (he.trans hb) hne
      · exact absurd ⟨ht.symm, (he.trans hs).symm⟩ hn
  · rcases claim_or table blank v f hi with hb | ⟨hs, hn⟩
    · exact absurd hb hne
    · by_cases hj : j = k
      · subst hj
        rw [claim_self] at he
        exact absurd ⟨ht, hs.symm.trans he⟩ hn
      · rcases claim_or table blank v f hj with hb | ⟨hs', -⟩
        · exact absurd (he.trans hb) hne
        · exact hf i j ht (hs.symm.trans (he.trans hs')) (hs ▸ hne)

theorem assign_of_mem (h : k ∈ D) : assign D g f k = g k := if_pos h

theorem assign_of_not_mem (h : k ∉ D) : assign D g f k = f k := if_neg h

theorem assign_empty : assign ∅ g f = f := funext fun k ↦ assign_of_not_mem (Set.notMem_empty k)

theorem assign_insert_of_ne (h : j ≠ k) : assign (insert k D) g f j = assign D g f j := by
  by_cases hj : j ∈ D
  · rw [assign_of_mem (Set.mem_insert_of_mem k hj), assign_of_mem hj]
  · rw [assign_of_not_mem fun hi ↦ hj (hi.resolve_left h), assign_of_not_mem hj]

theorem release_given (h : k ∈ N ∨ ∃ j ∈ N, table j = table k ∧ g j = f k) :
    release table blank N g f k = blank := if_pos h

theorem release_kept (h : ¬ (k ∈ N ∨ ∃ j ∈ N, table j = table k ∧ g j = f k)) :
    release table blank N g f k = f k := if_neg h

theorem release_or (table : κ → τ) (blank : γ) (N : Set κ) (g f : κ → γ) (k : κ) :
    release table blank N g f k = blank ∨
    release table blank N g f k = f k ∧ k ∉ N ∧ ∀ j ∈ N, table j = table k → g j ≠ f k := by
  by_cases h : k ∈ N ∨ ∃ j ∈ N, table j = table k ∧ g j = f k
  · exact Or.inl (release_given h)
  · refine Or.inr ⟨release_kept h, fun hk ↦ h (Or.inl hk), fun j hj ht he ↦ h
      (Or.inr ⟨j, hj, ht, he⟩)⟩

/-- After the release, the labels of `g` are free for the keys in `N`, in any order. -/
theorem assign_release_free (hg : Distinct table blank g) (hk : k ∈ N) (hne : j ≠ k)
    (ht : table j = table k) (hj : assign D g (release table blank N g f) j = g k) :
    g k = blank := by
  by_cases hjD : j ∈ D
  · rw [assign_of_mem hjD] at hj
    by_contra hb
    exact hne (hg j k ht hj (hj ▸ hb))
  · rw [assign_of_not_mem hjD] at hj
    rcases release_or table blank N g f j with hb | ⟨hs, -, hfree⟩
    · exact hj.symm.trans hb
    · exact absurd (hj.symm.trans hs) (hfree k hk ht.symm)

theorem claim_assign_release (hg : Distinct table blank g) (hk : k ∈ N) :
    claim table blank k (g k) (assign D g (release table blank N g f)) =
      assign (insert k D) g (release table blank N g f) := by
  funext j
  by_cases hj : j = k
  · subst hj
    rw [claim_self, assign_of_mem (Set.mem_insert j D)]
  · rw [assign_insert_of_ne hj]
    by_cases hv : table j = table k ∧ assign D g (release table blank N g f) j = g k
    · rw [claim_taken hj hv.1 hv.2, hv.2]
      exact (assign_release_free hg hk hj hv.1 hv.2).symm
    · exact claim_of_ne hj hv

theorem Distinct.assign_release (hf : Distinct table blank f) (hg : Distinct table blank g)
    (hD : D ⊆ N) : Distinct table blank (assign D g (release table blank N g f)) := by
  intro i j ht he hne
  by_contra hij
  by_cases hj : j ∈ D
  · have hgj : assign D g (release table blank N g f) j = g j := assign_of_mem hj
    have hblank := assign_release_free hg (hD hj) hij ht (he.trans hgj)
    exact hne ((he.trans hgj).trans hblank)
  · by_cases hi : i ∈ D
    · have hgi : assign D g (release table blank N g f) i = g i := assign_of_mem hi
      have hblank := assign_release_free hg (hD hi) (Ne.symm hij) ht.symm (he.symm.trans hgi)
      exact hne (hgi.trans hblank)
    · rw [assign_of_not_mem hi, assign_of_not_mem hj] at he
      rw [assign_of_not_mem hi] at hne
      rcases release_or table blank N g f i with hb | ⟨hsi, -⟩
      · exact hne hb
      rcases release_or table blank N g f j with hb | ⟨hsj, -⟩
      · exact hne (he.trans hb)
      exact hij (hf i j ht (hsi.symm.trans (he.trans hsj)) (hsi ▸ hne))

theorem adopts_assign_release (hg : Distinct table blank g)
    (hpassed : ∀ k ∈ N, k ∉ D → f k = blank) :
    Adopts blank g D f (assign D g (release table blank N g f)) := by
  refine ⟨fun k hk ↦ assign_of_mem hk, fun k hk ↦ ?_, fun k hright ↦ ?_⟩
  · rw [assign_of_not_mem hk]
    exact (release_or table blank N g f k).symm.imp And.left id
  · by_cases hkD : k ∈ D
    · exact assign_of_mem hkD
    rw [assign_of_not_mem hkD]
    by_cases hk : k ∈ N ∨ ∃ j ∈ N, table j = table k ∧ g j = f k
    · rw [release_given hk]
      by_contra hne
      -- the label can only be freed for `k` itself
      have hin : k ∈ N := by
        rcases hk with hin | ⟨j, hj, ht, he⟩
        · exact hin
        · have hsame : g j = g k := he.trans hright
          exact hg j k ht hsame (hsame ▸ Ne.symm hne) ▸ hj
      exact hne ((hpassed k hin hkD).symm.trans hright)
    · exact (release_kept hk).trans hright

end RiskApp.Lib.Labels
