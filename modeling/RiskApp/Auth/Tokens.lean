import Mathlib.Data.List.Sort
import RiskApp.Lib.Graph
import RiskApp.Lib.Table
import RiskApp.Values

namespace RiskApp.Auth

open Lib

structure RefreshToken where
  id : Uuid
  userId : Uuid
  tokenHash : String
  issuedAt : Time
  expiresAt : Time
  revokedAt : Option Time
  replacedById : Option Uuid
  deriving DecidableEq

structure Config where
  refreshTokenDays : ℕ
  reuseGraceSeconds : ℕ

def microsPerSecond : ℕ := 1000000

def Config.lifetime (cfg : Config) : Time := cfg.refreshTokenDays * 86400 * microsPerSecond

/-- `_new_refresh_token`, with the id and the hash of the secret that it drew. -/
def newRefreshToken (cfg : Config) (id : Uuid) (tokenHash : String) (userId : Uuid) (now : Time) :
    RefreshToken where
  id := id
  userId := userId
  tokenHash := tokenHash
  issuedAt := now
  expiresAt := now + cfg.lifetime
  revokedAt := none
  replacedById := none

namespace RefreshToken

/-- The WHERE clause of `_claim_refresh_token`. -/
def claimable (t : RefreshToken) (now : Time) : Bool :=
  t.revokedAt.isNone && t.replacedById.isNone && now < t.expiresAt

def claimed (t : RefreshToken) (replacementId : Uuid) (now : Time) : RefreshToken :=
  { t with revokedAt := some now, replacedById := some replacementId }

def revoked (t : RefreshToken) (now : Time) : RefreshToken := { t with revokedAt := some now }

def inGrace (cfg : Config) (t : RefreshToken) (now : Time) : Bool :=
  t.revokedAt.any fun since ↦ 0 < cfg.reuseGraceSeconds && since ≤ now &&
    now - since ≤ cfg.reuseGraceSeconds * microsPerSecond

end RefreshToken

abbrev Tokens := List RefreshToken

namespace Tokens

def token (tokens : Tokens) (id : Uuid) : Option RefreshToken :=
  Table.find RefreshToken.id id tokens

def ids (tokens : Tokens) : List Uuid := tokens.map RefreshToken.id

def inIdOrder (ids : List Uuid) : List Uuid := ids.insertionSort (· ≤ ·)

def idsWhere (tokens : Tokens) (p : RefreshToken → Bool) : List Uuid :=
  inIdOrder (ids (tokens.filter p))

/-- The replacements that the rows of the last statement name and that are not loaded yet. -/
def missingIds (rows byId : Tokens) : List Uuid :=
  rows.filterMap fun t ↦ t.replacedById.filter (· ∉ byId.ids)

/-- The rows that follow the links, in lock order. -/
def linkedIds (tokens : Tokens) (userId : Uuid) (missing : List Uuid) : List Uuid :=
  tokens.idsWhere fun t ↦ t.userId = userId && t.id ∈ missing

def neighbors (tokens : Tokens) (id : Uuid) : List Uuid :=
  tokens.filterMap fun t ↦ t.replacedById.bind fun c ↦
    if c ∉ tokens.ids then none
    else if t.id = id then some c
    else if c = id then some t.id
    else none

def refreshFamilyIds (tokens : Tokens) (tokenId : Uuid) : List Uuid :=
  if tokenId ∉ tokens.ids then [] else explore tokens.ids tokens.neighbors [] [tokenId]

/-- The replacement that a lost response may still be recovered from. -/
def graceReplacement (cfg : Config) (byId : Tokens) (t : RefreshToken) (now : Time) :
    Option RefreshToken :=
  if t.inGrace cfg now then
    (t.replacedById.bind byId.token).filter (·.claimable now)
  else none

/-- `replaced_by_id` of one token names the other. -/
def Links (tokens : Tokens) (a b : Uuid) : Prop :=
  ∃ t ∈ tokens, t.id = a ∧ t.replacedById = some b

/-- Tokens connected by replacements. -/
def Family (tokens : Tokens) : Uuid → Uuid → Prop := Relation.EqvGen (Links tokens)

section Lemmas

variable {tokens byId : Tokens} {a b : Uuid}

theorem token_some {t : RefreshToken} (h : tokens.token a = some t) : t ∈ tokens ∧ t.id = a :=
  ⟨Table.mem_of_find RefreshToken.id h, Table.key_of_find RefreshToken.id h⟩

theorem graceReplacement_some {cfg : Config} {t r : RefreshToken} {now : Time}
    (h : graceReplacement cfg byId t now = some r) :
    r ∈ byId ∧ t.replacedById = some r.id ∧ r.claimable now = true := by
  unfold graceReplacement at h
  split at h
  · obtain ⟨hbind, hclaimable⟩ := Option.filter_eq_some_iff.mp h
    obtain ⟨c, hc, hfound⟩ := Option.bind_eq_some_iff.mp hbind
    obtain ⟨hr, rfl⟩ := token_some hfound
    exact ⟨hr, hc, hclaimable⟩
  · cases h

theorem mem_ids {id : Uuid} : id ∈ tokens.ids ↔ ∃ t ∈ tokens, t.id = id := List.mem_map

theorem mem_idsWhere {p : RefreshToken → Bool} {id : Uuid} :
    id ∈ tokens.idsWhere p ↔ ∃ t ∈ tokens, p t = true ∧ t.id = id := by
  unfold idsWhere inIdOrder ids
  rw [List.mem_insertionSort, List.mem_map]
  simp only [List.mem_filter, and_assoc]

theorem mem_missingIds {rows : Tokens} {id : Uuid} :
    id ∈ missingIds rows byId ↔ ∃ t ∈ rows, t.replacedById = some id ∧ id ∉ byId.ids := by
  simp only [missingIds, List.mem_filterMap, Option.filter_eq_some_iff, decide_eq_true_eq]

theorem mem_neighbors : b ∈ tokens.neighbors a ↔
    (∃ t ∈ tokens, t.id = a ∧ t.replacedById = some b ∧ b ∈ tokens.ids) ∨
      ∃ t ∈ tokens, t.id = b ∧ t.id ≠ a ∧ t.replacedById = some a ∧ a ∈ tokens.ids := by
  simp only [neighbors, List.mem_filterMap, Option.bind_eq_some_iff]
  constructor
  · rintro ⟨t, ht, c, hc, h⟩
    split at h
    · cases h
    rename_i hin
    rw [not_not] at hin
    split at h
    · rename_i hid
      obtain rfl := Option.some.inj h
      exact Or.inl ⟨t, ht, hid, hc, hin⟩
    · rename_i hid
      split at h
      · rename_i hca
        obtain rfl := hca
        exact Or.inr ⟨t, ht, Option.some.inj h, hid, hc, hin⟩
      · cases h
  · rintro (⟨t, ht, hid, hb, hin⟩ | ⟨t, ht, hid, hne, ha, hin⟩)
    · exact ⟨t, ht, b, hb, by simp [hin, hid]⟩
    · exact ⟨t, ht, a, ha, by rw [if_neg (not_not.mpr hin), if_neg hne, if_pos rfl, hid]⟩

/-- Every id of a computed family is connected to the token it was computed for. -/
theorem family_of_mem (h : b ∈ byId.refreshFamilyIds a) : byId.Family a b := by
  unfold refreshFamilyIds at h
  split at h
  · cases h
  refine explore_sound (P := fun b ↦ byId.Family a b) (fun x y hx hy ↦ ?_)
    (fun _ hx ↦ absurd hx List.not_mem_nil) (fun x hx ↦ ?_) b h
  · rcases mem_neighbors.mp hy with ⟨t, ht, hid, hr, -⟩ | ⟨t, ht, hid, -, hr, -⟩
    · exact .trans _ _ _ hx (.rel _ _ ⟨t, ht, hid, hr⟩)
    · exact .trans _ _ _ hx (.symm _ _ (.rel _ _ ⟨t, ht, hid, hr⟩))
  · obtain rfl := List.mem_singleton.mp hx
    exact .refl x

theorem mem_family_self (h : a ∈ byId.ids) : a ∈ byId.refreshFamilyIds a := by
  have hclosed := @explore_closed _ _ byId.ids byId.neighbors [] [a] fun _ hx ↦
      absurd hx List.not_mem_nil
  rw [refreshFamilyIds, if_neg (not_not.mpr h)]
  exact hclosed.2.1 a (by simp) h

theorem mem_family_of_links {x y : Uuid} (hx : x ∈ byId.refreshFamilyIds a)
    (hin : x ∈ byId.ids) (hiny : y ∈ byId.ids) (h : byId.Links x y ∨ byId.Links y x) :
    y ∈ byId.refreshFamilyIds a := by
  have hclosed := @explore_closed _ _ byId.ids byId.neighbors [] [a] fun _ hx ↦
      absurd hx List.not_mem_nil
  unfold refreshFamilyIds at hx ⊢
  split at hx
  · cases hx
  rename_i ha
  rw [if_neg ha]
  by_cases hxy : y = x
  · rwa [hxy]
  refine hclosed.2.2 x hx y (mem_neighbors.mpr ?_) hiny
  rcases h with ⟨t, ht, hid, hr⟩ | ⟨t, ht, hid, hr⟩
  · exact Or.inl ⟨t, ht, hid, hr, hiny⟩
  · exact Or.inr ⟨t, ht, hid, fun he ↦ hxy (hid.symm.trans he), hr, hin⟩

end Lemmas

end Tokens

end RiskApp.Auth
