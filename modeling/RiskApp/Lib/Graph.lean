import Mathlib.Data.Finset.Card
import Mathlib.Data.List.Nodup
import Mathlib.Logic.Relation

namespace RiskApp.Lib

open Relation

section Chain

variable {α : Type} {r : α → α → Prop}

/-- Where every node has at most one successor and at most one predecessor, a connected component
is a chain. -/
theorem chain_of_unique (hright : Relator.RightUnique r) (hleft : Relator.LeftUnique r) {a b : α}
    (h : EqvGen r a b) : ReflTransGen r a b ∨ ReflTransGen r b a := by
  have hback : Relator.RightUnique (Function.swap r) := fun _ _ _ hb hc ↦ hleft hb hc
  induction h with
  | rel a b h => exact Or.inl (.single h)
  | refl a => exact Or.inl .refl
  | symm a b _ ih => exact ih.symm
  | trans a b c _ _ ih ih' =>
    rcases ih with hab | hba <;> rcases ih' with hbc | hcb
    · exact Or.inl (hab.trans hbc)
    · have hab' := reflTransGen_swap.mpr hab
      have hcb' := reflTransGen_swap.mpr hcb
      rcases ReflTransGen.total_of_right_unique hback hab' hcb' with h | h
      · exact Or.inr (reflTransGen_swap.mp h)
      · exact Or.inl (reflTransGen_swap.mp h)
    · exact ReflTransGen.total_of_right_unique hright hba hbc
    · exact Or.inr (hcb.trans hba)

theorem eqvGen_of_reflTransGen {a b : α} (h : ReflTransGen r a b) : EqvGen r a b := by
  induction h with
  | refl => exact .refl a
  | tail _ hbc ih => exact .trans _ _ _ ih (.rel _ _ hbc)

end Chain

section Explore

variable {α : Type} [DecidableEq α] (nodes : List α) (next : α → List α)

/-- Depth-first search from the stack `remaining`, over the nodes not visited yet. -/
def explore (visited : List α) : List α → List α
  | [] => visited
  | a :: remaining =>
    if a ∈ visited ∨ a ∉ nodes then explore visited remaining
    else explore (a :: visited) ((next a).filter (· ∉ a :: visited) ++ remaining)
termination_by remaining => ((nodes.toFinset \ visited.toFinset).card, remaining.length)
decreasing_by
  · exact Prod.Lex.right _ (by simp)
  · rename_i h
    refine Prod.Lex.left _ _ (Finset.card_lt_card ?_)
    rw [not_or, not_not] at h
    refine Finset.ssubset_iff_of_subset (fun b hb ↦ ?_) |>.mpr ⟨a, ?_, ?_⟩
    · simp only [Finset.mem_sdiff, List.mem_toFinset, List.mem_cons, not_or] at hb ⊢
      exact ⟨hb.1, hb.2.2⟩
    · simpa using ⟨h.2, h.1⟩
    · simp

variable {nodes next}

theorem explore_sound {P : α → Prop} (hnext : ∀ a b, P a → b ∈ next a → P b)
    {visited remaining : List α} (hv : ∀ a ∈ visited, P a) (hr : ∀ a ∈ remaining, P a) :
    ∀ a ∈ explore nodes next visited remaining, P a := by
  induction visited, remaining using explore.induct nodes next with
  | case1 visited => simpa [explore] using hv
  | case2 visited a remaining h ih =>
    rw [explore, if_pos h]
    exact ih hv fun b hb ↦ hr b (List.mem_cons_of_mem a hb)
  | case3 visited a remaining h ih =>
    have ha := hr a List.mem_cons_self
    rw [explore, if_neg h]
    refine ih (fun b hb ↦ ?_) fun b hb ↦ ?_
    · rcases List.mem_cons.mp hb with rfl | hb
      · exact ha
      · exact hv b hb
    · rcases List.mem_append.mp hb with hb | hb
      · exact hnext a b ha (List.mem_filter.mp hb).1
      · exact hr b (List.mem_cons_of_mem a hb)

/-- The search keeps what it visited, visits its stack, and ends closed under successors. -/
theorem explore_closed {visited remaining : List α}
    (hclosed : ∀ a ∈ visited, ∀ b ∈ next a, b ∈ nodes → b ∈ visited ∨ b ∈ remaining) :
    (∀ a ∈ visited, a ∈ explore nodes next visited remaining) ∧
      (∀ a ∈ remaining, a ∈ nodes → a ∈ explore nodes next visited remaining) ∧
      ∀ a ∈ explore nodes next visited remaining, ∀ b ∈ next a, b ∈ nodes →
        b ∈ explore nodes next visited remaining := by
  induction visited, remaining using explore.induct nodes next with
  | case1 visited =>
    rw [explore]
    exact ⟨fun _ ha ↦ ha, fun a ha ↦ absurd ha List.not_mem_nil,
      fun a ha b hb hn ↦ (hclosed a ha b hb hn).resolve_right List.not_mem_nil⟩
  | case2 visited a remaining h ih =>
    rw [explore, if_pos h]
    obtain ⟨hv, hr, hc⟩ := ih fun x hx b hb hn ↦ by
      rcases hclosed x hx b hb hn with hb | hb
      · exact Or.inl hb
      · rcases List.mem_cons.mp hb with rfl | hb
        · exact Or.inl (h.resolve_right (not_not.mpr hn))
        · exact Or.inr hb
    refine ⟨hv, fun b hb hn ↦ ?_, hc⟩
    rcases List.mem_cons.mp hb with rfl | hb
    · exact hv b (h.resolve_right (not_not.mpr hn))
    · exact hr b hb hn
  | case3 visited a remaining h ih =>
    rw [explore, if_neg h]
    obtain ⟨hv, hr, hc⟩ := ih fun x hx b hb hn ↦ by
      by_cases hin : b ∈ a :: visited
      · exact Or.inl hin
      · refine Or.inr (List.mem_append.mpr ?_)
        rcases List.mem_cons.mp hx with rfl | hx
        · exact Or.inl (List.mem_filter.mpr ⟨hb, by simpa using hin⟩)
        · rcases hclosed x hx b hb hn with hb' | hb'
          · exact absurd (List.mem_cons_of_mem a hb') hin
          · exact Or.inr ((List.mem_cons.mp hb').resolve_left fun he ↦ hin
              (he ▸ List.mem_cons_self))
    refine ⟨fun b hb ↦ hv b (List.mem_cons_of_mem a hb), fun b hb hn ↦ ?_, hc⟩
    rcases List.mem_cons.mp hb with rfl | hb
    · exact hv b List.mem_cons_self
    · exact hr b (List.mem_append_right _ hb) hn

end Explore

end RiskApp.Lib
