import RiskApp.Auth.Tokens

namespace RiskApp.Auth

open Lib Relation

namespace Tokens

/-- The worklist loop of `_refresh_family_ids`, with the end of the list first. A candidate that is
no key of `neighbors` raises. -/
def familyLoop (tokens : Tokens) : ℕ → List Uuid → List Uuid → Option (List Uuid)
  | 0, _, _ => none
  | _ + 1, family, [] => some family
  | fuel + 1, family, candidateId :: remaining =>
    if candidateId ∈ family then familyLoop tokens fuel family remaining
    else if candidateId ∉ tokens.ids then none
    else familyLoop tokens fuel (candidateId :: family)
      ((tokens.neighbors candidateId).filter (· ∉ candidateId :: family) ++ remaining)

/-- `_refresh_family_ids`, in so many turns of its loop. -/
def refreshFamilyIdsWithin (tokens : Tokens) (fuel : ℕ) (tokenId : Uuid) : Option (List Uuid) :=
  if tokenId ∉ tokens.ids then some [] else tokens.familyLoop fuel [] [tokenId]

def assign (byId : Tokens) (t : RefreshToken) : Tokens :=
  if t.id ∈ byId.ids then Table.replace RefreshToken.id t byId else byId ++ [t]

def linkedTokens (table : Tokens) (userId : Uuid) (missing : List Uuid) : Tokens :=
  (table.filter fun t ↦ t.userId = userId && t.id ∈ missing).insertionSort (·.id ≤ ·.id)

/-- The loop of `_locked_user_refresh_tokens` over a table that nobody changes. -/
def followLinks (table : Tokens) (userId : Uuid) : ℕ → Tokens → List Uuid → Option Tokens
  | 0, _, _ => none
  | fuel + 1, byId, missing =>
    if missing = [] then some byId
    else
      let linked := table.linkedTokens userId missing
      if linked = [] then some byId
      else
        let byId := linked.foldl assign byId
        followLinks table userId fuel byId (missingIds linked byId)

/-- `_locked_user_refresh_tokens`, where the first SELECT returned `rows`. -/
def lockedUserRefreshTokens (table : Tokens) (userId : Uuid) (rows : Tokens) (fuel : ℕ) :
    Option Tokens :=
  let byId := rows.foldl assign []
  followLinks table userId fuel byId (missingIds rows byId)

def Linked (tokens : Tokens) (a b : Uuid) : Prop := tokens.Links a b ∧ b ∈ tokens.ids

def Follows (table : Tokens) (userId : Uuid) (t u : RefreshToken) : Prop :=
  t.replacedById = some u.id ∧ u ∈ table ∧ u.userId = userId

section Family

variable {tokens : Tokens} {a b : Uuid}

theorem mem_ids_of_linked (h : tokens.Linked a b) : a ∈ tokens.ids ∧ b ∈ tokens.ids := by
  obtain ⟨⟨t, ht, hid, -⟩, hb⟩ := h
  exact ⟨mem_ids.mpr ⟨t, ht, hid⟩, hb⟩

theorem linked_of_neighbors (h : b ∈ tokens.neighbors a) :
    tokens.Linked a b ∨ tokens.Linked b a := by
  rcases mem_neighbors.mp h with ⟨t, ht, hid, hr, hb⟩ | ⟨t, ht, hid, -, hr, ha⟩
  · exact Or.inl ⟨⟨t, ht, hid, hr⟩, hb⟩
  · exact Or.inr ⟨⟨t, ht, hid, hr⟩, ha⟩

theorem neighbors_mem_ids (h : b ∈ tokens.neighbors a) : b ∈ tokens.ids :=
  (linked_of_neighbors h).elim (fun hl ↦ (mem_ids_of_linked hl).2) fun hl ↦ (mem_ids_of_linked hl).1

theorem familyLoop_explore {visited remaining : List Uuid}
    (hknown : ∀ a ∈ remaining, a ∈ tokens.ids) :
    ∃ turns, ∀ fuel ≥ turns, tokens.familyLoop fuel visited remaining =
      some (explore tokens.ids tokens.neighbors visited remaining) := by
  induction visited, remaining using explore.induct tokens.ids tokens.neighbors with
  | case1 visited =>
    refine ⟨1, fun fuel hfuel ↦ ?_⟩
    obtain ⟨fuel, rfl⟩ := Nat.exists_eq_add_of_le' hfuel
    rw [familyLoop, explore]
  | case2 visited a remaining h ih =>
    have hseen := h.resolve_right (not_not.mpr (hknown a List.mem_cons_self))
    obtain ⟨turns, hloop⟩ := ih fun b hb ↦ hknown b (List.mem_cons_of_mem a hb)
    refine ⟨turns + 1, fun fuel hfuel ↦ ?_⟩
    obtain ⟨fuel, rfl⟩ := Nat.exists_eq_add_of_le' (Nat.le_of_add_left_le hfuel)
    rw [familyLoop, if_pos hseen, explore, if_pos h]
    exact hloop fuel (Nat.le_of_add_le_add_right hfuel)
  | case3 visited a remaining h ih =>
    obtain ⟨hnew, hin⟩ := not_or.mp h
    obtain ⟨turns, hloop⟩ := ih fun b hb ↦ by
      rcases List.mem_append.mp hb with hb | hb
      · exact neighbors_mem_ids (List.mem_filter.mp hb).1
      · exact hknown b (List.mem_cons_of_mem a hb)
    refine ⟨turns + 1, fun fuel hfuel ↦ ?_⟩
    obtain ⟨fuel, rfl⟩ := Nat.exists_eq_add_of_le' (Nat.le_of_add_left_le hfuel)
    rw [familyLoop, if_neg hnew, if_neg hin, explore, if_neg h]
    exact hloop fuel (Nat.le_of_add_le_add_right hfuel)

theorem refreshFamilyIdsWithin_returns (tokens : Tokens) (a : Uuid) :
    ∃ turns, ∀ fuel ≥ turns,
      tokens.refreshFamilyIdsWithin fuel a = some (tokens.refreshFamilyIds a) := by
  by_cases ha : a ∈ tokens.ids
  · obtain ⟨turns, hloop⟩ := @familyLoop_explore tokens [] [a] fun b hb ↦
      List.mem_singleton.mp hb ▸ ha
    refine ⟨turns, fun fuel hfuel ↦ ?_⟩
    rw [refreshFamilyIdsWithin, refreshFamilyIds, if_neg (not_not.mpr ha), if_neg (not_not.mpr ha)]
    exact hloop fuel hfuel
  · refine ⟨0, fun fuel _ ↦ ?_⟩
    rw [refreshFamilyIdsWithin, refreshFamilyIds, if_pos ha, if_pos ha]

/-- The family is the connected component of the token among the given tokens. -/
theorem mem_refreshFamilyIds :
    b ∈ tokens.refreshFamilyIds a ↔ a ∈ tokens.ids ∧ EqvGen tokens.Linked a b := by
  by_cases ha : a ∈ tokens.ids
  · constructor
    · intro h
      refine ⟨ha, ?_⟩
      rw [refreshFamilyIds, if_neg (not_not.mpr ha)] at h
      refine explore_sound (P := fun b ↦ EqvGen tokens.Linked a b) (fun x y hx hy ↦ ?_)
        (fun _ hx ↦ absurd hx List.not_mem_nil) (fun x hx ↦ ?_) b h
      · rcases linked_of_neighbors hy with hl | hl
        · exact .trans _ _ _ hx (.rel _ _ hl)
        · exact .trans _ _ _ hx (.symm _ _ (.rel _ _ hl))
      · obtain rfl := List.mem_singleton.mp hx
        exact .refl x
    · rintro ⟨-, h⟩
      have hiff : ∀ {x y}, EqvGen tokens.Linked x y →
          (x ∈ tokens.refreshFamilyIds a ↔ y ∈ tokens.refreshFamilyIds a) := by
        intro x y hxy
        induction hxy with
        | rel x y hl =>
          obtain ⟨hx, hy⟩ := mem_ids_of_linked hl
          exact ⟨fun h ↦ mem_family_of_links h hx hy (Or.inl hl.1),
            fun h ↦ mem_family_of_links h hy hx (Or.inr hl.1)⟩
        | refl x => exact Iff.rfl
        | symm x y _ ih => exact ih.symm
        | trans x y z _ _ ih ih' => exact ih.trans ih'
      exact (hiff h).mp (mem_family_self ha)
  · rw [refreshFamilyIds, if_pos ha]
    exact iff_of_false List.not_mem_nil fun h ↦ ha h.1

end Family

section Locked

variable {table byId rows : Tokens} {userId : Uuid} {missing : List Uuid}

theorem ids_assign (byId : Tokens) (t : RefreshToken) :
    ∀ x, x ∈ (byId.assign t).ids ↔ x ∈ byId.ids ∨ x = t.id := by
  intro x
  unfold assign
  split
  · rename_i hin
    have hids : Tokens.ids (Table.replace RefreshToken.id t byId) = byId.ids := by
      rw [ids, ids, Table.replace, List.map_map]
      refine List.map_congr_left fun y _ ↦ ?_
      rw [Function.comp_apply]
      split
      · rename_i he
        exact he.symm
      · rfl
    rw [hids]
    exact ⟨Or.inl, fun h ↦ h.elim id fun he ↦ he ▸ hin⟩
  · simp [ids]

theorem mem_assign {t u : RefreshToken} (h : u ∈ byId.assign t) : u ∈ byId ∨ u = t := by
  unfold assign at h
  split at h
  · exact (Table.mem_replace RefreshToken.id h).elim Or.inr fun h ↦ Or.inl h.1
  · exact (List.mem_append.mp h).imp_right List.mem_singleton.mp

theorem ids_foldl_assign (rows byId : Tokens) :
    ∀ x, x ∈ (rows.foldl assign byId).ids ↔ x ∈ byId.ids ∨ x ∈ rows.ids := by
  induction rows generalizing byId with
  | nil => simp [ids]
  | cons t rows ih =>
    intro x
    rw [List.foldl_cons, ih, ids_assign, or_assoc]
    simp [ids]

theorem mem_foldl_assign {u : RefreshToken} (h : u ∈ rows.foldl assign byId) :
    u ∈ byId ∨ u ∈ rows := by
  induction rows generalizing byId with
  | nil => exact Or.inl h
  | cons t rows ih =>
    rcases ih h with hu | hu
    · rcases mem_assign hu with hu | rfl
      · exact Or.inl hu
      · exact Or.inr List.mem_cons_self
    · exact Or.inr (List.mem_cons_of_mem t hu)

theorem mem_linkedTokens {t : RefreshToken} :
    t ∈ table.linkedTokens userId missing ↔ t ∈ table ∧ t.userId = userId ∧ t.id ∈ missing := by
  simp [linkedTokens, List.mem_insertionSort]

/-- The loaded rows are rows of the user, and whatever they link to is loaded, still to be looked
up, or no row of the user. -/
structure Loaded (table : Tokens) (userId : Uuid) (byId : Tokens) (missing : List Uuid) : Prop where
  rows : ∀ t ∈ byId, t ∈ table ∧ t.userId = userId
  links : ∀ t ∈ byId, ∀ u, table.Follows userId t u → u.id ∈ byId.ids ∨ u.id ∈ missing
  fresh : ∀ x ∈ missing, x ∉ byId.ids

theorem Loaded.start (hrows : ∀ t ∈ rows, t ∈ table ∧ t.userId = userId) :
    Loaded table userId (rows.foldl assign []) (missingIds rows (rows.foldl assign [])) := by
  have hmem : ∀ t ∈ rows.foldl assign [], t ∈ rows := fun t ht ↦
    (mem_foldl_assign ht).resolve_left List.not_mem_nil
  refine ⟨fun t ht ↦ hrows t (hmem t ht), fun t ht u hu ↦ ?_, fun x hx ↦ ?_⟩
  · by_cases hin : u.id ∈ Tokens.ids (rows.foldl assign [])
    · exact Or.inl hin
    · exact Or.inr (mem_missingIds.mpr ⟨t, hmem t ht, hu.1, hin⟩)
  · obtain ⟨-, -, -, hx⟩ := mem_missingIds.mp hx
    exact hx

theorem Loaded.next (h : Loaded table userId byId missing) :
    let linked := table.linkedTokens userId missing
    Loaded table userId (linked.foldl assign byId)
      (missingIds linked (linked.foldl assign byId)) := by
  intro linked
  have hids := ids_foldl_assign linked byId
  refine ⟨fun t ht ↦ ?_, fun t ht u hu ↦ ?_, fun x hx ↦ ?_⟩
  · rcases mem_foldl_assign ht with ht | ht
    · exact h.rows t ht
    · obtain ⟨hin, huser, -⟩ := mem_linkedTokens.mp ht
      exact ⟨hin, huser⟩
  · rcases mem_foldl_assign ht with ht | ht
    · refine Or.inl ((hids u.id).mpr ((h.links t ht u hu).imp id fun hmissing ↦ ?_))
      exact List.mem_map_of_mem (mem_linkedTokens.mpr ⟨hu.2.1, hu.2.2, hmissing⟩)
    · by_cases hin : u.id ∈ Tokens.ids (linked.foldl assign byId)
      · exact Or.inl hin
      · exact Or.inr (mem_missingIds.mpr ⟨t, ht, hu.1, hin⟩)
  · obtain ⟨-, -, -, hx⟩ := mem_missingIds.mp hx
    exact hx

/-- The loop ends, with loaded rows that no link leaves. -/
theorem followLinks_returns (h : Loaded table userId byId missing) :
    ∃ turns result, (∀ fuel ≥ turns, followLinks table userId fuel byId missing = some result) ∧
      (∀ x ∈ byId.ids, x ∈ result.ids) ∧ Loaded table userId result [] := by
  induction hn : (table.ids.toFinset \ byId.ids.toFinset).card using Nat.strong_induction_on
    generalizing byId missing with
  | _ n ih =>
    subst hn
    have hdone : table.linkedTokens userId missing = [] → Loaded table userId byId [] := by
      intro hnone
      refine ⟨h.rows, fun t ht u hu ↦ Or.inl ?_, fun x hx ↦ absurd hx List.not_mem_nil⟩
      refine (h.links t ht u hu).resolve_right fun hmissing ↦ ?_
      exact List.not_mem_nil (hnone ▸ mem_linkedTokens.mpr ⟨hu.2.1, hu.2.2, hmissing⟩)
    by_cases hmissing : missing = []
    · refine ⟨1, byId, fun fuel hfuel ↦ ?_, fun _ hx ↦ hx, hdone ?_⟩
      · obtain ⟨fuel, rfl⟩ := Nat.exists_eq_add_of_le' hfuel
        rw [followLinks, if_pos hmissing]
      · refine List.eq_nil_iff_forall_not_mem.mpr fun t ht ↦ ?_
        exact List.not_mem_nil (hmissing ▸ (mem_linkedTokens.mp ht).2.2)
    by_cases hlinked : table.linkedTokens userId missing = []
    · refine ⟨1, byId, fun fuel hfuel ↦ ?_, fun _ hx ↦ hx, hdone hlinked⟩
      obtain ⟨fuel, rfl⟩ := Nat.exists_eq_add_of_le' hfuel
      simp only [followLinks, if_neg hmissing, if_pos hlinked]
    · have hnext := h.next
      have hids := ids_foldl_assign (table.linkedTokens userId missing) byId
      obtain ⟨t, ht⟩ := List.exists_mem_of_ne_nil _ hlinked
      obtain ⟨hin, -, hwanted⟩ := mem_linkedTokens.mp ht
      have hfewer : (table.ids.toFinset \
          (Tokens.ids ((table.linkedTokens userId missing).foldl assign byId)).toFinset).card <
            (table.ids.toFinset \ byId.ids.toFinset).card := by
        refine Finset.card_lt_card (Finset.ssubset_iff_of_subset ?_ |>.mpr ⟨t.id, ?_, ?_⟩)
        · refine Finset.sdiff_subset_sdiff (Finset.Subset.refl _) fun x hx ↦ ?_
          rw [List.mem_toFinset] at hx ⊢
          exact (hids x).mpr (Or.inl hx)
        · rw [Finset.mem_sdiff, List.mem_toFinset, List.mem_toFinset]
          exact ⟨List.mem_map_of_mem hin, h.fresh _ hwanted⟩
        · rw [Finset.mem_sdiff, List.mem_toFinset, List.mem_toFinset, not_and, not_not]
          exact fun _ ↦ (hids t.id).mpr (Or.inr (List.mem_map_of_mem ht))
      obtain ⟨turns, result, hloop, hkept, hclosed⟩ := ih _ hfewer hnext rfl
      refine ⟨turns + 1, result, fun fuel hfuel ↦ ?_, fun x hx ↦ ?_, hclosed⟩
      · obtain ⟨fuel, rfl⟩ := Nat.exists_eq_add_of_le' (Nat.le_of_add_left_le hfuel)
        simp only [followLinks, if_neg hmissing, if_neg hlinked]
        exact hloop fuel (Nat.le_of_add_le_add_right hfuel)
      · exact hkept x ((hids x).mpr (Or.inl hx))

/-- The family search returns the connected component of the token, and the locking loop every
token that links between tokens of the user lead to. -/
theorem family_search_exact (tokens : Tokens) (tokenId : Uuid) (hkeys : table.ids.Nodup)
    (hrows : ∀ t ∈ rows, t ∈ table ∧ t.userId = userId) :
    (∃ turns family, (∀ fuel ≥ turns, tokens.refreshFamilyIdsWithin fuel tokenId = some family) ∧
      ∀ b, b ∈ family ↔ tokenId ∈ tokens.ids ∧ EqvGen tokens.Linked tokenId b) ∧
    ∃ turns result, (∀ fuel ≥ turns, lockedUserRefreshTokens table userId rows fuel = some result) ∧
      ∀ t ∈ rows, ∀ u, ReflTransGen (table.Follows userId) t u → u ∈ result := by
  constructor
  · obtain ⟨turns, hloop⟩ := refreshFamilyIdsWithin_returns tokens tokenId
    exact ⟨turns, _, hloop, fun b ↦ mem_refreshFamilyIds⟩
  · obtain ⟨turns, result, hloop, hkept, hloaded⟩ := followLinks_returns (Loaded.start hrows)
    refine ⟨turns, result, hloop, fun t ht u hu ↦ ?_⟩
    have hrow : ∀ v ∈ table, v.id ∈ result.ids → v ∈ result := by
      intro v hv hid
      obtain ⟨w, hw, hwid⟩ := mem_ids.mp hid
      have hsame := Table.find_of_mem RefreshToken.id hkeys hv
      rw [← hwid, Table.find_of_mem RefreshToken.id hkeys (hloaded.rows w hw).1] at hsame
      exact Option.some.inj hsame ▸ hw
    induction hu with
    | refl =>
      refine hrow t (hrows t ht).1 (hkept t.id ((ids_foldl_assign rows [] t.id).mpr ?_))
      exact Or.inr (List.mem_map_of_mem ht)
    | tail _ hlink ih =>
      exact hrow _ hlink.2.1 ((hloaded.links _ ih _ hlink).resolve_right List.not_mem_nil)

end Locked

section Sample

def sampleToken (id userId : Uuid) (replacedById : Option Uuid) : RefreshToken :=
  ⟨id, userId, "", 0, 1, none, replacedById⟩

/-- Two rotations of one user, of which the first SELECT saw only the first token. -/
theorem family_search_exact_sample :
    let table := [sampleToken 1 7 (some 2), sampleToken 2 7 (some 3), sampleToken 3 7 none]
    ∃ turns result,
      (∀ fuel ≥ turns, lockedUserRefreshTokens table 7 [sampleToken 1 7 (some 2)] fuel =
        some result) ∧ sampleToken 3 7 none ∈ result := by
  intro table
  have hrows : ∀ t ∈ [sampleToken 1 7 (some 2)], t ∈ table ∧ t.userId = 7 := by decide
  obtain ⟨turns, result, hloop, hall⟩ := (@family_search_exact table [sampleToken 1 7 (some 2)] 7
    [] 1 (by decide) hrows).2
  refine ⟨turns, result, hloop, hall _ List.mem_cons_self _ ?_⟩
  have hfirst : Follows table 7 (sampleToken 1 7 (some 2)) (sampleToken 2 7 (some 3)) :=
    ⟨rfl, by decide, rfl⟩
  have hsecond : Follows table 7 (sampleToken 2 7 (some 3)) (sampleToken 3 7 none) :=
    ⟨rfl, by decide, rfl⟩
  exact (ReflTransGen.single hfirst).tail hsecond

/-- The token of another user stands between two tokens of the user. -/
def crossedTokens : Tokens :=
  [sampleToken 1 7 (some 2), sampleToken 2 8 (some 3), sampleToken 3 7 none]

theorem links_of_others_not_followed : ¬ ∀ (table : Tokens) (userId : Uuid) (rows : Tokens),
    table.ids.Nodup → (∀ t ∈ rows, t ∈ table ∧ t.userId = userId) →
    ∃ turns result, (∀ fuel ≥ turns, lockedUserRefreshTokens table userId rows fuel = some result) ∧
      ∀ t ∈ rows, ∀ u ∈ table, u.userId = userId → ReflTransGen table.Links t.id u.id →
        u ∈ result := by
  intro h
  obtain ⟨turns, result, hloop, hall⟩ := h crossedTokens 7 [sampleToken 1 7 (some 2)] (by decide)
    (by decide)
  have hfirst : crossedTokens.Links 1 2 := ⟨sampleToken 1 7 (some 2), by decide, rfl, rfl⟩
  have hsecond : crossedTokens.Links 2 3 := ⟨sampleToken 2 8 (some 3), by decide, rfl, rfl⟩
  have hresult : lockedUserRefreshTokens crossedTokens 7 [sampleToken 1 7 (some 2)] (turns + 1) =
      some [sampleToken 1 7 (some 2)] := rfl
  obtain rfl := Option.some.inj (hresult.symm.trans (hloop (turns + 1) (Nat.le_succ turns)))
  have hmem := hall _ List.mem_cons_self (sampleToken 3 7 none) (by decide) rfl
    ((ReflTransGen.single hfirst).tail hsecond)
  exact absurd hmem (by decide)

end Sample

end Tokens

end RiskApp.Auth
