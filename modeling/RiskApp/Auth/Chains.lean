import Mathlib.Data.Nat.Basic
import RiskApp.Auth.Sessions

namespace RiskApp.Auth

open Lib Relation

/-- The links of the committed tokens: chains of replacements, revoked up to their tails. -/
structure Chains (tokens : Tokens) : Prop where
  ids : tokens.ids.Nodup
  revoked : ∀ t ∈ tokens, t.replacedById.isSome → t.revokedAt.isSome
  child : ∀ t ∈ tokens, ∀ c, t.replacedById = some c → ∃ u ∈ tokens, u.id = c ∧ u.userId = t.userId
  parent : ∀ a b c, tokens.Links a c → tokens.Links b c → a = b
  ranked : ∃ rank : Uuid → ℕ, ∀ a b, tokens.Links a b → rank a < rank b

namespace Chains

variable {tokens : Tokens} {a b c : Uuid}

theorem eq_of_id (h : Chains tokens) {t u : RefreshToken} (ht : t ∈ tokens) (hu : u ∈ tokens)
    (hid : t.id = u.id) : t = u :=
  List.inj_on_of_nodup_map h.ids ht hu hid

theorem rightUnique (h : Chains tokens) : Relator.RightUnique tokens.Links := by
  rintro a b c ⟨t, ht, rfl, hb⟩ ⟨u, hu, hid, hc⟩
  obtain rfl := h.eq_of_id hu ht hid
  exact Option.some.inj (hb.symm.trans hc)

theorem leftUnique (h : Chains tokens) : Relator.LeftUnique tokens.Links :=
  fun _ _ _ hab hcb ↦ h.parent _ _ _ hab hcb

theorem mem_of_links (h : Chains tokens) (hl : tokens.Links a b) :
    a ∈ tokens.ids ∧ b ∈ tokens.ids := by
  obtain ⟨t, ht, rfl, hb⟩ := hl
  obtain ⟨u, hu, rfl, -⟩ := h.child t ht b hb
  exact ⟨List.mem_map_of_mem ht, List.mem_map_of_mem hu⟩

theorem acyclic (h : Chains tokens) (a : Uuid) : ¬ TransGen tokens.Links a a := by
  obtain ⟨rank, hrank⟩ := h.ranked
  have hlt : ∀ b, TransGen tokens.Links a b → rank a < rank b := by
    intro b hb
    induction hb with
    | single hl => exact hrank _ _ hl
    | tail _ hl ih => exact ih.trans (hrank _ _ hl)
  exact fun hcycle ↦ absurd (hlt a hcycle) (lt_irrefl _)

theorem linear (h : Chains tokens) (hf : tokens.Family a b) :
    ReflTransGen tokens.Links a b ∨ ReflTransGen tokens.Links b a :=
  chain_of_unique h.rightUnique h.leftUnique hf

/-- What ends a path in both directions is the only unrevoked token of its family. -/
theorem eq_of_unrevoked (h : Chains tokens) {t u : RefreshToken} (ht : t ∈ tokens) (hu : u ∈ tokens)
    (hft : tokens.Family t.id u.id) (hnt : t.revokedAt = none) (hnu : u.revokedAt = none) :
    t = u := by
  have hend : ∀ x ∈ tokens, x.revokedAt = none →
      ∀ y, ReflTransGen tokens.Links x.id y → x.id = y := by
    intro x hx hn y hy
    rcases hy.cases_head with he | ⟨z, ⟨w, hw, hid, hz⟩, -⟩
    · exact he
    · obtain rfl := h.eq_of_id hw hx hid
      have hrev := h.revoked w hw (by rw [hz]; rfl)
      rw [hn] at hrev
      cases hrev
  rcases h.linear hft with hp | hp
  · exact h.eq_of_id ht hu (hend t ht hnt _ hp)
  · exact h.eq_of_id ht hu (hend u hu hnu _ hp).symm

end Chains

/-- A later value of a token: it stays revoked, and is linked at most once, to a token that is
committed with it. -/
structure RefreshToken.Succeeds (new : Tokens) (t w : RefreshToken) : Prop where
  userId : w.userId = t.userId
  revoked : t.revokedAt.isSome → w.revokedAt.isSome
  link : w.replacedById = t.replacedById ∨ t.revokedAt = none ∧ t.replacedById = none ∧
    w.revokedAt.isSome ∧ ∃ n ∈ new, w.replacedById = some n.id ∧ n.userId = t.userId

structure Commits (tokens work new : Tokens) : Prop where
  ids : work.ids.Nodup
  row : ∀ w ∈ work, ∃ t ∈ tokens, t.id = w.id ∧ t.Succeeds new w
  fresh : new = [] ∨ ∃ n, new = [n] ∧ n.id ∉ tokens.ids ∧ n.replacedById = none
  parent : ∀ w ∈ work, ∀ w' ∈ work, ∀ n ∈ new, w.replacedById = some n.id →
    w'.replacedById = some n.id → w = w'

namespace Commits

variable {tokens work new : Tokens} {t : RefreshToken} {a b : Uuid}

def result (tokens work new : Tokens) : Tokens := Table.overlay RefreshToken.id work tokens ++ new

theorem ids_result (h : Commits tokens work new) :
    (result tokens work new).ids = tokens.ids ++ new.ids := by
  have hnone : work.filter (fun x ↦ (Table.find RefreshToken.id x.id tokens).isNone) = [] := by
    refine List.filter_eq_nil_iff.mpr fun w hw ↦ ?_
    obtain ⟨t, ht, hid, -⟩ := h.row w hw
    have hsome := Table.find_isSome RefreshToken.id ht hid
    simpa using Option.isSome_iff_ne_none.mp hsome
  unfold result Tokens.ids
  rw [List.map_append, Table.map_key_overlay, hnone, List.map_nil, List.append_nil]

theorem mem_fresh (h : Commits tokens work new) {n : RefreshToken} (hn : n ∈ new) :
    new = [n] ∧ n.id ∉ tokens.ids ∧ n.replacedById = none := by
  rcases h.fresh with rfl | ⟨m, rfl, hm⟩
  · cases hn
  · obtain rfl := List.mem_singleton.mp hn
    exact ⟨rfl, hm⟩

theorem nodup_result (h : Commits tokens work new) (hc : Chains tokens) :
    (result tokens work new).ids.Nodup := by
  rw [h.ids_result]
  refine List.nodup_append.mpr ⟨hc.ids, ?_, fun x hx y hy he ↦ ?_⟩
  · rcases h.fresh with rfl | ⟨m, rfl, -⟩
    · exact .nil
    · simp [Tokens.ids]
  · obtain ⟨n, hn, rfl⟩ := Tokens.mem_ids.mp hy
    exact (h.mem_fresh hn).2.1 (he ▸ hx)

theorem mem_result (ht : t ∈ result tokens work new) :
    t ∈ work ∨ t ∈ tokens ∧ t.id ∉ work.ids ∨ t ∈ new := by
  rcases List.mem_append.mp ht with ht | ht
  · rcases List.mem_append.mp ht with ht | ht
    · obtain ⟨y, hy, rfl⟩ := List.mem_map.mp ht
      cases hw : Table.find RefreshToken.id y.id work with
      | some w => exact Or.inl (Table.mem_of_find RefreshToken.id hw)
      | none =>
        refine Or.inr (Or.inl ⟨hy, fun hin ↦ ?_⟩)
        obtain ⟨w, hmem, hid⟩ := Tokens.mem_ids.mp hin
        exact (Table.find_eq_none RefreshToken.id).mp hw w hmem hid
    · exact Or.inl (List.mem_filter.mp ht).1
  · exact Or.inr (Or.inr ht)

theorem kept_mem (ht : t ∈ tokens) (hid : t.id ∉ work.ids) : t ∈ result tokens work new := by
  refine List.mem_append_left _ (List.mem_append_left _ (List.mem_map.mpr ⟨t, ht, ?_⟩))
  have hnone : Table.find RefreshToken.id t.id work = none :=
    (Table.find_eq_none RefreshToken.id).mpr fun w hw he ↦ hid (Tokens.mem_ids.mpr ⟨w, hw, he⟩)
  rw [hnone]
  rfl

theorem work_mem (h : Commits tokens work new) (ht : t ∈ work) : t ∈ result tokens work new := by
  obtain ⟨y, hy, hid, -⟩ := h.row t ht
  refine List.mem_append_left _ (List.mem_append_left _ (List.mem_map.mpr ⟨y, hy, ?_⟩))
  have hfind : Table.find RefreshToken.id y.id work = some t := by
    rw [hid]
    exact Table.find_of_mem RefreshToken.id h.ids ht
  rw [hfind]
  rfl

theorem persists (h : Commits tokens work new) (ht : t ∈ tokens) (hc : Chains tokens) :
    ∃ w ∈ result tokens work new, w.id = t.id ∧ t.Succeeds new w := by
  by_cases hid : t.id ∈ work.ids
  · obtain ⟨w, hw, he⟩ := Tokens.mem_ids.mp hid
    obtain ⟨u, hu, hu', hs⟩ := h.row w hw
    obtain rfl := hc.eq_of_id hu ht (hu'.trans he)
    exact ⟨w, h.work_mem hw, he, hs⟩
  · exact ⟨t, kept_mem ht hid, rfl, ⟨rfl, id, Or.inl rfl⟩⟩

theorem links_mono (h : Commits tokens work new) (hc : Chains tokens) (hl : tokens.Links a b) :
    (result tokens work new).Links a b := by
  obtain ⟨t, ht, rfl, hb⟩ := hl
  obtain ⟨w, hw, hid, hs⟩ := h.persists ht hc
  refine ⟨w, hw, hid, ?_⟩
  rcases hs.link with he | ⟨-, hnone, -⟩
  · exact he.trans hb
  · cases hnone.symm.trans hb

theorem links_result (h : Commits tokens work new) (hl : (result tokens work new).Links a b) :
    tokens.Links a b ∨ ∃ n ∈ new, b = n.id ∧ ∃ w ∈ work, w.id = a ∧ w.replacedById = some n.id ∧
      ∃ t ∈ tokens, t.id = a ∧ t.revokedAt = none ∧ t.replacedById = none ∧
        n.userId = t.userId := by
  obtain ⟨t, ht, rfl, hb⟩ := hl
  rcases mem_result ht with hw | ⟨ht, -⟩ | hn
  · obtain ⟨u, hu, hid, hs⟩ := h.row t hw
    rcases hs.link with he | ⟨hrev, hnone, -, n, hn, hlink, huser⟩
    · exact Or.inl ⟨u, hu, hid, he.symm.trans hb⟩
    · exact Or.inr ⟨n, hn, Option.some.inj (hb.symm.trans hlink), t, hw, rfl, hlink, u, hu,
        hid, hrev,
        hnone, huser⟩
  · exact Or.inl ⟨t, ht, rfl, hb⟩
  · cases (h.mem_fresh hn).2.2.symm.trans hb

theorem chains (h : Commits tokens work new) (hc : Chains tokens) :
    Chains (result tokens work new) := by
  refine ⟨h.nodup_result hc, fun t ht hsome ↦ ?_, fun t ht c hlink ↦ ?_, fun a b c hac hbc ↦ ?_, ?_⟩
  · rcases mem_result ht with hw | ⟨ht, -⟩ | hn
    · obtain ⟨u, hu, -, hs⟩ := h.row t hw
      rcases hs.link with he | ⟨-, -, hrev, -⟩
      · exact hs.revoked (hc.revoked u hu (he ▸ hsome))
      · exact hrev
    · exact hc.revoked t ht hsome
    · rw [(h.mem_fresh hn).2.2] at hsome
      cases hsome
  · have hold : ∀ u ∈ tokens, u.userId = t.userId → u.replacedById = some c →
        ∃ v ∈ result tokens work new, v.id = c ∧ v.userId = t.userId := by
      intro u hu huser hc'
      obtain ⟨v, hv, rfl, hvu⟩ := hc.child u hu c hc'
      obtain ⟨w, hw, hid, hs⟩ := h.persists hv hc
      exact ⟨w, hw, hid, hs.userId.trans (hvu.trans huser)⟩
    rcases mem_result ht with hw | ⟨ht, -⟩ | hn
    · obtain ⟨u, hu, -, hs⟩ := h.row t hw
      rcases hs.link with he | ⟨-, -, -, n, hn, hlink', huser⟩
      · exact hold u hu hs.userId.symm (he.symm.trans hlink)
      · exact ⟨n, List.mem_append_right _ hn, Option.some.inj (hlink'.symm.trans hlink),
          huser.trans hs.userId.symm⟩
    · exact hold t ht rfl hlink
    · cases (h.mem_fresh hn).2.2.symm.trans hlink
  · rcases h.links_result hac with hac | ⟨n, hn, rfl, w, hw, rfl, hwn, -⟩ <;>
      rcases h.links_result hbc with hbc | ⟨m, hm, hmc, w', hw', rfl, hwm, -⟩
    · exact hc.parent a b c hac hbc
    · exact absurd (hc.mem_of_links hac).2 (hmc ▸ (h.mem_fresh hm).2.1)
    · exact absurd (hc.mem_of_links hbc).2 (h.mem_fresh hn).2.1
    · rw [h.parent w hw w' hw' n hn hwn (hmc ▸ hwm)]
  · obtain ⟨rank, hrank⟩ := hc.ranked
    by_cases hlink : ∃ n ∈ new, ∃ w ∈ work, w.replacedById = some n.id
    · obtain ⟨n, hn, w, hw, hwn⟩ := hlink
      have hfresh := (h.mem_fresh hn).2.1
      have hne : ∀ {x : Uuid}, x ∈ tokens.ids → x ≠ n.id := fun hx he ↦ hfresh (he ▸ hx)
      refine ⟨Function.update rank n.id (rank w.id + 1), fun a b hl ↦ ?_⟩
      rcases h.links_result hl with hl | ⟨m, hm, rfl, w', hw', rfl, hwm, t, ht, hid, -⟩
      · obtain ⟨ha, hb⟩ := hc.mem_of_links hl
        rw [Function.update_of_ne (hne ha), Function.update_of_ne (hne hb)]
        exact hrank a b hl
      · obtain rfl : n = m := by
          rw [(h.mem_fresh hm).1] at hn
          exact List.mem_singleton.mp hn
        rw [h.parent w hw w' hw' n hn hwn hwm, Function.update_self,
          Function.update_of_ne (hne (Tokens.mem_ids.mpr ⟨t, ht, hid⟩))]
        exact Nat.lt_succ_self _
    · refine ⟨rank, fun a b hl ↦ ?_⟩
      rcases h.links_result hl with hl | ⟨n, hn, -, w, hw, -, hwn, -⟩
      · exact hrank a b hl
      · exact absurd ⟨n, hn, w, hw, hwn⟩ hlink

end Commits

/-- A set of tokens that can never be exchanged again. -/
structure Dead (tokens : Tokens) (D : Uuid → Prop) : Prop where
  revoked : ∀ t ∈ tokens, D t.id → t.revokedAt.isSome
  closed : ∀ a b, tokens.Links a b → (D a ↔ D b)
  known : ∀ a, D a → a ∈ tokens.ids

theorem Dead.commits {tokens work new : Tokens} {D : Uuid → Prop} (h : Dead tokens D)
    (hw : Commits tokens work new) : Dead (Commits.result tokens work new) D := by
  refine ⟨fun t ht hD ↦ ?_, fun a b hl ↦ ?_, fun a ha ↦ ?_⟩
  · rcases Commits.mem_result ht with hmem | ⟨hmem, -⟩ | hn
    · obtain ⟨u, hu, hid, hs⟩ := hw.row t hmem
      exact hs.revoked (h.revoked u hu (hid ▸ hD))
    · exact h.revoked t hmem hD
    · exact absurd (h.known _ hD) (hw.mem_fresh hn).2.1
  · rcases hw.links_result hl with hl | ⟨n, hn, rfl, w, -, -, -, t, ht, rfl, hnone, -⟩
    · exact h.closed a b hl
    · refine ⟨fun hD ↦ ?_, fun hD ↦ absurd (h.known _ hD) (hw.mem_fresh hn).2.1⟩
      have hrev := h.revoked t ht hD
      rw [hnone] at hrev
      cases hrev
  · rw [hw.ids_result]
    exact List.mem_append_left _ (h.known a ha)

theorem Dead.family {tokens : Tokens} {D : Uuid → Prop} (h : Dead tokens D) {a b : Uuid}
    (hf : tokens.Family a b) : D a ↔ D b := by
  induction hf with
  | rel a b hl => exact h.closed a b hl
  | refl => exact Iff.rfl
  | symm _ _ _ ih => exact ih.symm
  | trans _ _ _ _ _ ih ih' => exact ih.trans ih'

end RiskApp.Auth
