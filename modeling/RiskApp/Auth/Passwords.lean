import RiskApp.Auth.Rotation

namespace RiskApp.Auth

open Lib Relation

def Ended (cfg : Config) (s : Sys) (id : Uuid) : Prop :=
  (∀ t ∈ s.tokens, t.id = id → t.revokedAt.isSome) ∧
    ∀ sid parent child userId s', ¬ Step cfg s sid (some (.rotated id parent child userId)) s'

/-- An interleaving in which no rotation of the user commits. -/
def Undisturbed (cfg : Config) (userId : Uuid) : Sys → Sys → Prop :=
  ReflTransGen fun s s' ↦ ∃ sid event, Step cfg s sid event s' ∧
    ∀ presented parent child, event ≠ some (.rotated presented parent child userId)

/-- While the password of `userId` is being changed by the call `sid`: `D` are the tokens that its
SELECT could see, and those still unrevoked are locked or to be reached by it. -/
structure Covered (userId : Uuid) (sid : ℕ) (D : Uuid → Prop) (s : Sys) : Prop where
  user : ∀ t ∈ s.tokens, D t.id → t.userId = userId
  closed : ∀ a b, s.tokens.Links a b → (D a ↔ D b)
  known : ∀ a, D a → a ∈ s.tokens.ids
  reached : ∀ tokenHash now todo work,
    s.sessions sid = some ⟨tokenHash, .revoking userId now todo, work⟩ →
    ∀ t ∈ s.tokens, D t.id → t.revokedAt = none → t.id ∈ todo ∨ t.id ∈ work.ids

section Steps

variable {cfg : Config} {s s' : Sys} {sid i : ℕ} {event : Option Event} {userId : Uuid}
  {D : Uuid → Prop}

theorem Step.revoking_cases (hs : Step cfg s i event s') {tokenHash : String} {now : Time}
    {todo : List Uuid} {work : Tokens}
    (hses : s'.sessions sid = some ⟨tokenHash, .revoking userId now todo, work⟩) :
    s.sessions sid = some ⟨tokenHash, .revoking userId now todo, work⟩ ∨
    (s'.tokens = s.tokens ∧
      todo = s.tokens.idsWhere fun t ↦ t.userId = userId && t.revokedAt.isNone) ∨
    ∃ id work₀, s'.tokens = s.tokens ∧ id ∈ work.ids ∧ (∀ x ∈ work₀.ids, x ∈ work.ids) ∧
      s.sessions sid = some ⟨tokenHash, .revoking userId now (id :: todo), work₀⟩ := by
  have hother : ∀ ses, i ≠ sid → (s.put i ses).sessions sid = s.sessions sid := fun ses hne ↦
    Function.update_of_ne hne.symm _ _
  by_cases hi : i = sid
  · subst hi
    have hput : ∀ ses, (s.put i ses).sessions i = ses := fun ses ↦ Function.update_self _ _ _
    have hend : ∀ work new, (s.committed i work new).sessions i = none := fun _ _ ↦
      Function.update_self _ _ _
    cases hs with
    | users | issue => exact Or.inl hses
    | insert => cases (hend _ _).symm.trans hses
    | reuse => cases (hend _ _).symm.trans hses
    | revokeCommit => cases (hend _ _).symm.trans hses
    | @revokeSelect userId now free =>
      cases Option.some.inj ((hput _).symm.trans hses)
      exact Or.inr (Or.inl ⟨rfl, rfl⟩)
    | @revokeRow tokenHash userId id now todo work t running free row =>
      cases Option.some.inj ((hput _).symm.trans hses)
      refine Or.inr (Or.inr ⟨id, work, rfl, ?_, fun x hx ↦ ?_, running⟩)
      · rw [← (Tokens.token_some row).2]
        exact Tokens.mem_ids.mpr ⟨t.revoked now, List.mem_append_right _ (by simp), rfl⟩
      · rw [Tokens.ids, List.map_append]
        exact List.mem_append_left _ hx
    | claimLost | unrevoked =>
      have hretry := (hput _).symm.trans hses
      unfold Session.retry at hretry
      split at hretry <;> cases hretry
    | rotate | select | selectRevoked | claim | lockStart | lockRow | follow | recover =>
      cases Option.some.inj ((hput _).symm.trans hses)
    | refuse | abort => cases (hput _).symm.trans hses
  · left
    cases hs with
    | users | issue => exact hses
    | insert => exact (Function.update_of_ne (Ne.symm hi) _ _).symm.trans hses
    | reuse => exact (Function.update_of_ne (Ne.symm hi) _ _).symm.trans hses
    | revokeCommit => exact (Function.update_of_ne (Ne.symm hi) _ _).symm.trans hses
    | rotate | refuse | select | selectRevoked | claim | claimLost | lockStart | lockRow | follow |
      unrevoked | recover | revokeSelect | revokeRow | abort => exact (hother _ hi).symm.trans hses

theorem Covered.step (h : Covered userId sid D s) (hinv : Inv s) (hs : Step cfg s i event s')
    (hquiet : ∀ presented parent child, event ≠ some (.rotated presented parent child userId)) :
    Covered userId sid D s' := by
  obtain ⟨work, new, hw, htokens, heffect⟩ := hs.effect hinv
  have hold : ∀ t ∈ s'.tokens, D t.id → ∃ u ∈ s.tokens, u.id = t.id ∧ u.Succeeds new t := by
    intro t ht hD
    rw [htokens] at ht
    rcases Commits.mem_result ht with hmem | ⟨hmem, -⟩ | hn
    · exact hw.row t hmem
    · exact ⟨t, hmem, rfl, rfl, id, Or.inl rfl⟩
    · exact absurd (h.known _ hD) (hw.mem_fresh hn).2.1
  refine ⟨fun t ht hD ↦ ?_, fun a b hl ↦ ?_, fun a hD ↦ ?_,
    fun tokenHash now todo held hses t ht hD hnone ↦ ?_⟩
  · obtain ⟨u, hu, hid, hsucc⟩ := hold t ht hD
    exact hsucc.userId.trans (h.user u hu (hid ▸ hD))
  · rw [htokens] at hl
    rcases hw.links_result hl with hl | ⟨n, hn, rfl, w, hwin, hwid, hlink, t, ht, rfl, hnone,
    hplain, -⟩
    · exact h.closed a b hl
    · -- the new link belongs to a rotation of another user
      refine ⟨fun hD ↦ ?_, fun hD ↦ absurd (h.known _ hD) (hw.mem_fresh hn).2.1⟩
      cases event with
      | none =>
        obtain ⟨rfl, -⟩ := heffect
        cases hwin
      | some event =>
        cases event with
        | issued => obtain rfl := heffect; cases hwin
        | reused => obtain ⟨rfl, -⟩ := heffect; cases hn
        | selected => obtain ⟨rfl, -⟩ := heffect; cases hwin
        | ended => obtain rfl := heffect; cases hn
        | rotated presented parent child user =>
          obtain ⟨⟨u, hu, rfl, -, huser⟩, -, hothers, -⟩ := heffect
          have hparent : w.id = u.id := by
            by_contra hne
            obtain rfl := hinv.chains.eq_of_id (hothers w hwin hne) ht hwid
            cases hplain.symm.trans hlink
          obtain rfl := hinv.chains.eq_of_id hu ht (hparent.symm.trans hwid)
          exact absurd (by rw [← huser, h.user u hu hD]) (hquiet presented u.id child)
  · rw [htokens, hw.ids_result]
    exact List.mem_append_left _ (h.known a hD)
  · obtain ⟨u, hu, hid, hsucc⟩ := hold t ht hD
    have hunone : u.revokedAt = none := by
      cases hrev : u.revokedAt with
      | none => rfl
      | some at₀ =>
        have hsome := hsucc.revoked (by rw [hrev]; rfl)
        rw [hnone] at hsome
        cases hsome
    rw [← hid] at hD ⊢
    rcases hs.revoking_cases hses with hsame | ⟨-, rfl⟩ | ⟨id, work₀, -, hin, hsub, hrun⟩
    · exact h.reached _ _ _ _ hsame u hu hD hunone
    · refine Or.inl (Tokens.mem_idsWhere.mpr ⟨u, hu, ?_, rfl⟩)
      simp [h.user u hu hD, hunone]
    · rcases h.reached _ _ _ _ hrun u hu hD hunone with hmem | hmem
      · rcases List.mem_cons.mp hmem with he | hmem
        · exact Or.inr (he ▸ hin)
        · exact Or.inl hmem
      · exact Or.inr (hsub _ hmem)

theorem Covered.run (hr : Undisturbed cfg userId s s') (hinv : Inv s) (h : Covered userId sid D s) :
    Inv s' ∧ Covered userId sid D s' := by
  induction hr with
  | refl => exact ⟨hinv, h⟩
  | tail _ hstep ih =>
    obtain ⟨i, event, hstep, hquiet⟩ := hstep
    exact ⟨hstep.inv ih.1, ih.2.step ih.1 hstep hquiet⟩

theorem Covered.selected (hinv : Inv s) (hs : Step cfg s sid (some (.selected userId)) s') :
    Covered userId sid (fun id ↦ ∃ t ∈ s.tokens, t.id = id ∧ t.userId = userId) s' := by
  have huser : ∀ a b, s.tokens.Links a b → ((∃ t ∈ s.tokens, t.id = a ∧ t.userId = userId) ↔
      ∃ t ∈ s.tokens, t.id = b ∧ t.userId = userId) := by
    rintro a b ⟨t, ht, rfl, hlink⟩
    obtain ⟨u, hu, rfl, hut⟩ := hinv.chains.child t ht b hlink
    constructor
    · rintro ⟨v, hv, hid, hvu⟩
      obtain rfl := hinv.chains.eq_of_id hv ht hid
      exact ⟨u, hu, rfl, hut.trans hvu⟩
    · rintro ⟨v, hv, hid, hvu⟩
      obtain rfl := hinv.chains.eq_of_id hv hu hid
      exact ⟨t, ht, rfl, hut.symm.trans hvu⟩
  cases hs with
  | @revokeSelect userId now free =>
    refine ⟨?_, huser, ?_, fun tokenHash now' todo work hses t ht hD hnone ↦ ?_⟩
    · rintro t ht ⟨u, hu, hid, huu⟩
      obtain rfl := hinv.chains.eq_of_id hu ht hid
      exact huu
    · rintro a ⟨t, ht, rfl, -⟩
      exact List.mem_map_of_mem ht
    · have hput : ∀ ses, (s.put sid ses).sessions sid = ses := fun _ ↦ Function.update_self _ _ _
      cases Option.some.inj ((hput _).symm.trans hses)
      obtain ⟨u, hu, hid, huu⟩ := hD
      obtain rfl := hinv.chains.eq_of_id hu ht hid
      refine Or.inl (Tokens.mem_idsWhere.mpr ⟨u, hu, ?_, rfl⟩)
      simp [huu, hnone]

/-- At its commit the change has reached every token it had to. -/
theorem Covered.ended (h : Covered userId sid D s) (hinv : Inv s)
    (hs : Step cfg s sid (some (.ended userId)) s') : Dead s'.tokens D := by
  cases hs with
  | @revokeCommit tokenHash userId now work running =>
    have hrev : Revoking s.tokens now [] work := hinv.ok sid _ running
    have hw := hrev.commits
    refine ⟨fun t ht hD ↦ ?_, fun a b hl ↦ ?_, fun a hD ↦ ?_⟩
    · rcases Commits.mem_result ht with hmem | ⟨hmem, hfree⟩ | hn
      · obtain ⟨u, -, rfl⟩ := hrev.row t hmem
        rfl
      · refine Option.isSome_iff_ne_none.mpr fun hnone ↦ ?_
        rcases h.reached _ _ _ _ running t hmem hD hnone with hin | hin
        · cases hin
        · exact hfree hin
      · cases hn
    · rcases hw.links_result hl with hl | ⟨n, hn, -⟩
      · exact h.closed a b hl
      · cases hn
    · have hids := hw.ids_result
      exact hids ▸ List.mem_append_left _ (h.known a hD)

end Steps

/-- When no rotation of the user commits between the SELECT of a password change and its commit,
the change ends every session there was. -/
theorem password_change_ends_sessions (cfg : Config) (userId : Uuid) {s₀ s₁ s₂ s₃ s : Sys} {sid : ℕ}
    (h₀ : Reachable cfg s₀) (hselect : Step cfg s₀ sid (some (.selected userId)) s₁)
    (hwindow : Undisturbed cfg userId s₁ s₂) (hend : Step cfg s₂ sid (some (.ended userId)) s₃)
    (hrun : Runs cfg s₃ s) :
    ∀ t ∈ s₀.tokens, t.userId = userId → ∀ id, ReflTransGen s.tokens.Links t.id id →
      Ended cfg s id := by
  intro t ht huser id hpath
  have hinv₁ := hselect.inv h₀.inv
  obtain ⟨hinv₂, hcovered⟩ := Covered.run hwindow hinv₁ (.selected h₀.inv hselect)
  have hinv₃ := hend.inv hinv₂
  have hdead := Runs.dead hrun hinv₃ (hcovered.ended hinv₂ hend)
  have hD := (hdead.family (eqvGen_of_reflTransGen hpath)).mp ⟨t, ht, rfl, huser⟩
  refine ⟨fun u hu hid ↦ hdead.revoked u hu (hid ▸ hD), fun sid' parent child user s' hstep ↦ ?_⟩
  exact (hstep.dead (Runs.inv hrun hinv₃) hdead).2 id parent child user rfl hD

section Sample

variable {cfg : Config} {s t t' : Sys} {i : ℕ} {userId : Uuid} {event : Option Event}

theorem Undisturbed.after (userId : Uuid) (_ : Step cfg s i event t) : Undisturbed cfg userId t t :=
  .refl

theorem Undisturbed.quiet (h : Undisturbed cfg userId s t) (hs : Step cfg t i none t') :
    Undisturbed cfg userId s t' :=
  h.tail ⟨i, none, hs, fun _ _ _ he ↦ by cases he⟩

theorem Runs.after (_ : Step cfg s i event t) : Runs cfg t t := .refl

theorem Runs.then (h : Runs cfg s t) (hs : Step cfg t i event t') : Runs cfg s t' :=
  h.tail ⟨i, event, hs⟩

def sampleLogin : Sys :=
  ⟨[newRefreshToken sampleConfig 1 "a" 7 0], fun _ ↦ true, fun _ ↦ none, [1]⟩

theorem sampleLogin_reachable : Reachable sampleConfig sampleLogin :=
  have h₀ : Reachable sampleConfig (.start fun _ ↦ true) := ⟨_, .refl⟩
  h₀.step (@Step.issue sampleConfig _ 0 1 7 "a" 0 rfl (by decide))

/-- Nobody else has locked a row. -/
theorem Sys.rowFree_unlocked {j k : ℕ} (id : Uuid)
    (hnone : ∀ i, i ≠ j → i ≠ k → s.sessions i = none)
    (hk : ∀ ses, s.sessions k = some ses → ses.work = []) : s.rowFree j id := by
  intro i ses hi hses hin
  by_cases hik : i = k
  · subst hik
    rw [hk ses hses] at hin
    cases hin
  · cases (hnone i hi hik).symm.trans hses

/-- During the password change a rotation reads token 1 and another user logs in; the rotation comes
too late to claim the token. -/
theorem password_change_ends_sessions_sample : ∃ s, (∃ t ∈ s.tokens, t.id = 1) ∧
    (∃ t ∈ s.tokens, t.userId = 8 ∧ t.revokedAt = none) ∧ (s.sessions 0).isSome ∧
    Ended sampleConfig s 1 := by
  have hselect := @Step.revokeSelect sampleConfig sampleLogin 1 7 5 rfl
  have h₁ := (Undisturbed.after 7 hselect).quiet (@Step.rotate sampleConfig _ 0 "a" rfl)
  have h₂ := h₁.quiet
    (@Step.select sampleConfig _ 0 "a" "b" 0 6 2 _ rfl rfl rfl rfl (by decide) (by decide))
  have h₃ : Undisturbed sampleConfig 7 _ _ := h₂.tail
    ⟨2, _, @Step.issue sampleConfig _ 2 3 8 "c" 6 rfl (by decide), fun _ _ _ he ↦ by cases he⟩
  have hwindow := h₃.quiet (@Step.revokeRow sampleConfig _ 1 "" 7 1 5 [] [] _ rfl
    (@Sys.rowFree_unlocked _ 1 0 1 (fun i h1 h0 ↦ by simp [Sys.put, sampleLogin, h0, h1])
      fun ses hses ↦ by cases hses; rfl) rfl)
  have hended := password_change_ends_sessions sampleConfig 7 sampleLogin_reachable hselect hwindow
    (@Step.revokeCommit sampleConfig _ 1 "" 7 5 _ rfl)
    (.single ⟨0, none, @Step.claimLost sampleConfig _ 0 "a" 0 1 6 _ rfl fun t ht ↦ by
      cases ht
      rfl⟩)
  exact ⟨_, ⟨_, List.mem_cons_self, rfl⟩, ⟨_, List.mem_cons_of_mem _ List.mem_cons_self, rfl, rfl⟩,
    rfl, hended _ List.mem_cons_self rfl 1 .refl⟩

/-- The rotation reads and exchanges token 1 between the SELECT of the password change and its
UPDATE: token 2 survives. -/
theorem rotation_survives_password_change :
    ¬ ∀ (s₀ s₁ s₂ s₃ s : Sys) (sid : ℕ), Reachable sampleConfig s₀ →
      Step sampleConfig s₀ sid (some (.selected 7)) s₁ → Runs sampleConfig s₁ s₂ →
      Step sampleConfig s₂ sid (some (.ended 7)) s₃ → Runs sampleConfig s₃ s →
      ∀ t ∈ s₀.tokens, t.userId = 7 → ∀ id, ReflTransGen s.tokens.Links t.id id →
        Ended sampleConfig s id := by
  intro h
  have hselect := @Step.revokeSelect sampleConfig sampleLogin 1 7 5 rfl
  have h₁ := (Runs.after hselect).then (@Step.rotate sampleConfig _ 0 "a" rfl)
  have h₂ := h₁.then
    (@Step.select sampleConfig _ 0 "a" "b" 0 6 2 _ rfl rfl rfl rfl (by decide) (by decide))
  have h₃ := h₂.then (@Step.claim sampleConfig _ 0 "a" 0 1 6 _ _ rfl
    (@Sys.rowFree_unlocked _ 0 1 1 (fun i h0 h1 ↦ by simp [Sys.put, sampleLogin, h0, h1])
      fun ses hses ↦ by cases hses; rfl) rfl (by decide))
  have h₄ := h₃.then (@Step.insert sampleConfig _ 0 "a" 1 1 _ _ rfl)
  have h₅ := h₄.then (@Step.revokeRow sampleConfig _ 1 "" 7 1 5 [] [] _ rfl
    (@Sys.rowFree_unlocked _ 1 0 1
      (fun i h0 h1 ↦ by simp [Sys.put, Sys.committed, sampleLogin, h0, h1])
      fun ses hses ↦ by cases hses) rfl)
  have hended := h _ _ _ _ _ 1 sampleLogin_reachable hselect h₅
    (@Step.revokeCommit sampleConfig _ 1 "" 7 5 _ rfl) .refl _ List.mem_cons_self rfl 2
    (.single ⟨_, List.mem_cons_self, rfl, rfl⟩)
  have hrevoked := hended.1 _ (List.mem_cons_of_mem _ List.mem_cons_self) rfl
  cases hrevoked

end Sample

end RiskApp.Auth
