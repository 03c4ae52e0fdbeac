import RiskApp.Auth.Passwords

namespace RiskApp.Auth

open Lib Relation

def Session.presented (ses : Session) : Option Uuid :=
  match ses.stage with
  | .claiming _ presented _ _ | .recovering _ presented _ _ | .locking _ presented _ _ _ _ _ |
    .inserting presented _ _ => some presented
  | .selecting _ | .revoking _ _ _ => none

/-- The tokens `mine` of one user are closed under replacement, and no revocation for another user
reaches them. -/
structure Kept (s : Sys) (user : Uuid) (mine : List Uuid) : Prop where
  known : ∀ id ∈ mine, ∃ t ∈ s.tokens, t.id = id ∧ t.userId = user
  closed : ∀ a b, s.tokens.Links a b → (a ∈ mine ↔ b ∈ mine)
  revoking : ∀ sid tokenHash userId now todo work,
    s.sessions sid = some ⟨tokenHash, .revoking userId now todo, work⟩ → userId ≠ user →
      ∀ id ∈ todo ++ work.ids, id ∉ mine

section Steps

variable {cfg : Config} {s s' : Sys} {sid : ℕ} {event : Option Event} {user : Uuid}
  {mine : List Uuid}

theorem Step.elsewhere (hs : Step cfg s sid event s') {j : ℕ} (hj : j ≠ sid) :
    s'.sessions j = s.sessions j := by
  cases hs with
  | users | issue => rfl
  | insert | reuse | revokeCommit | rotate | refuse | select | selectRevoked | claim | claimLost |
    lockStart | lockRow | follow | unrevoked | recover | revokeSelect | revokeRow | abort =>
    exact Function.update_of_ne hj _ _

theorem Step.revoking_origin (hs : Step cfg s sid event s') {j : ℕ} {tokenHash : String}
    {userId : Uuid} {now : Time} {todo : List Uuid} {work : Tokens}
    (hses : s'.sessions j = some ⟨tokenHash, .revoking userId now todo, work⟩) {id : Uuid}
    (hid : id ∈ todo ++ work.ids) :
    (∃ todo' work', s.sessions j = some ⟨tokenHash, .revoking userId now todo', work'⟩ ∧
      id ∈ todo' ++ work'.ids) ∨ ∃ t ∈ s.tokens, t.id = id ∧ t.userId = userId := by
  have hsame : s'.sessions j = s.sessions j → ∃ todo' work',
      s.sessions j = some ⟨tokenHash, .revoking userId now todo', work'⟩ ∧
        id ∈ todo' ++ work'.ids :=
    fun h ↦ ⟨todo, work, h.symm.trans hses, hid⟩
  by_cases hj : j = sid
  · subst hj
    have hput : ∀ ses, (s.put j ses).sessions j = ses := fun ses ↦ Function.update_self _ _ _
    have hend : ∀ work new, (s.committed j work new).sessions j = none :=
      fun _ _ ↦ Function.update_self _ _ _
    cases hs with
    | users | issue => exact Or.inl (hsame rfl)
    | insert => cases (hend _ _).symm.trans hses
    | reuse => cases (hend _ _).symm.trans hses
    | revokeCommit => cases (hend _ _).symm.trans hses
    | revokeSelect free =>
      cases Option.some.inj ((hput _).symm.trans hses)
      obtain ⟨t, ht, hp, rfl⟩ := Tokens.mem_idsWhere.mp (by simpa [Tokens.ids] using hid)
      simp only [Bool.and_eq_true, decide_eq_true_eq] at hp
      exact Or.inr ⟨t, ht, rfl, hp.1⟩
    | @revokeRow _ _ x _ todo work t running free row =>
      cases Option.some.inj ((hput _).symm.trans hses)
      refine Or.inl ⟨_, _, running, ?_⟩
      have hx := (Tokens.token_some row).2
      simp only [Tokens.ids, List.map_append, List.map_cons, List.map_nil, List.mem_append,
        List.mem_cons, List.not_mem_nil, or_false] at hid ⊢
      rcases hid with hid | hid | hid
      · exact Or.inl (Or.inr hid)
      · exact Or.inr hid
      · exact Or.inl (Or.inl (hid.trans hx))
    | claimLost | unrevoked =>
      have hretry := (hput _).symm.trans hses
      unfold Session.retry at hretry
      split at hretry <;> cases hretry
    | rotate | select | selectRevoked | claim | lockStart | lockRow | follow | recover =>
      cases Option.some.inj ((hput _).symm.trans hses)
    | refuse | abort => cases (hput _).symm.trans hses
  · exact Or.inl (hsame (hs.elsewhere hj))

theorem Commits.kept {tokens work new : Tokens} (hw : Commits tokens work new) (hc : Chains tokens)
    (hclosed : ∀ a b, tokens.Links a b → (a ∈ mine ↔ b ∈ mine))
    (hknown : ∀ id ∈ mine, id ∈ tokens.ids) (hspares : ∀ w ∈ work, w.id ∈ mine → w ∈ tokens) :
    (∀ t ∈ tokens, t.id ∈ mine → t ∈ Commits.result tokens work new) ∧
      ∀ a b, (Commits.result tokens work new).Links a b → (a ∈ mine ↔ b ∈ mine) := by
  refine ⟨fun t ht hmine ↦ ?_, fun a b hl ↦ ?_⟩
  · by_cases hid : t.id ∈ work.ids
    · obtain ⟨w, hwin, hwid⟩ := Tokens.mem_ids.mp hid
      obtain rfl := hc.eq_of_id (hspares w hwin (hwid ▸ hmine)) ht hwid
      exact hw.work_mem hwin
    · exact Commits.kept_mem ht hid
  · rcases hw.links_result hl with hl | ⟨n, hn, rfl, w, hwin, rfl, hwn, -⟩
    · exact hclosed a b hl
    · have hfresh := (hw.mem_fresh hn).2.1
      refine ⟨fun hmine ↦ ?_, fun hmine ↦ absurd (hknown _ hmine) hfresh⟩
      exact absurd (hc.mem_of_links ⟨w, hspares w hwin hmine, rfl, hwn⟩).2 hfresh

theorem Kept.ids (h : Kept s user mine) : ∀ id ∈ mine, id ∈ s.tokens.ids := fun id hid ↦ by
  obtain ⟨t, ht, rfl, -⟩ := h.known id hid
  exact List.mem_map_of_mem ht

theorem Kept.family (h : Kept s user mine) {a b : Uuid} (hf : s.tokens.Family a b) :
    a ∈ mine ↔ b ∈ mine := by
  induction hf with
  | rel a b hl => exact h.closed a b hl
  | refl => exact Iff.rfl
  | symm _ _ _ ih => exact ih.symm
  | trans _ _ _ _ _ ih ih' => exact ih.trans ih'

theorem Kept.spares (h : Kept s user mine) (hinv : Inv s) (hs : Step cfg s sid event s')
    (hother : ∀ ses p, s.sessions sid = some ses → ses.presented = some p → p ∉ mine)
    (hevent : event ≠ some (.ended user)) : ∃ work new, Commits s.tokens work new ∧
      s'.tokens = Commits.result s.tokens work new ∧ ∀ w ∈ work, w.id ∈ mine → w ∈ s.tokens := by
  have hnothing : ∀ s'' : Sys, s''.tokens = s.tokens → ∃ work new, Commits s.tokens work new ∧
      s''.tokens = Commits.result s.tokens work new ∧ ∀ w ∈ work, w.id ∈ mine → w ∈ s.tokens :=
    fun s'' hs'' ↦ ⟨[], [], .nothing _, by rw [Commits.result_nil, List.append_nil, hs''],
      fun _ hw ↦ absurd hw List.not_mem_nil⟩
  cases hs with
  | issue free new =>
    exact ⟨[], [_], ⟨.nil, fun _ hw ↦ absurd hw List.not_mem_nil,
      Or.inr ⟨_, rfl, fun hin ↦ new (hinv.drawn _ hin), rfl⟩,
      fun _ hw ↦ absurd hw List.not_mem_nil⟩,
      (Commits.result_nil _ _).symm, fun _ hw ↦ absurd hw List.not_mem_nil⟩
  | @insert tokenHash presented parent new work running =>
    have hfresh := (hinv.news sid _ new.id running rfl).2
    have hclaimed : Claimed s.tokens presented parent new work := hinv.ok sid _ running
    refine ⟨work, [new], hclaimed.commits hinv.chains hfresh, rfl, fun w hw hmine ↦ ?_⟩
    have hpresented : presented ∉ mine := hother _ _ running rfl
    refine hclaimed.others w hw fun hid ↦ ?_
    rcases hclaimed.origin with rfl | hl
    · exact hpresented (hid ▸ hmine)
    · exact hpresented ((h.closed _ _ hl).mpr (hid ▸ hmine))
  | @reuse tokenHash attempt presented userId now rows byId work t running done row revoked grace =>
    obtain ⟨hwork, hlock⟩ := hinv.ok sid _ running
    obtain rfl : work = byId ++ rows := hwork
    refine ⟨_, [], hlock.commits _ now, rfl, fun w hw hmine ↦ ?_⟩
    have hpresented : presented ∉ mine := hother _ _ running rfl
    obtain ⟨v, hv, rfl⟩ := List.mem_map.mp hw
    rw [revokeFamily_id] at hmine
    unfold revokeFamily
    split
    · rename_i hin
      have hmono := EqvGen.mono (r := Tokens.Links (byId ++ rows)) (p := s.tokens.Links)
        fun a b ⟨x, hx, hid, hl⟩ ↦ ⟨x, (hlock.locked x hx).1, hid, hl⟩
      exact absurd ((h.family (hmono _ _ (Tokens.family_of_mem hin.1))).mpr hmine) hpresented
    · exact (hlock.locked v hv).1
  | @revokeCommit tokenHash userId now work running =>
    have hrev : Revoking s.tokens _ [] _ := hinv.ok sid _ running
    refine ⟨_, [], hrev.commits, rfl, fun w hw hmine ↦ ?_⟩
    have huser : userId ≠ user := fun he ↦ hevent (by rw [he])
    exact absurd hmine (h.revoking _ _ _ _ _ _ running huser _ (List.mem_map_of_mem hw))
  | users | rotate | refuse | select | selectRevoked | claim | claimLost | lockStart | lockRow |
    follow | unrevoked | recover | revokeSelect | revokeRow | abort => exact hnothing _ rfl

theorem Kept.step (h : Kept s user mine) (hinv : Inv s) (hs : Step cfg s sid event s')
    (hspares : ∃ work new, Commits s.tokens work new ∧
      s'.tokens = Commits.result s.tokens work new ∧ ∀ w ∈ work, w.id ∈ mine → w ∈ s.tokens) :
    Kept s' user mine ∧ ∀ t ∈ s.tokens, t.id ∈ mine → t ∈ s'.tokens := by
  obtain ⟨work, new, hw, htokens, hspares⟩ := hspares
  obtain ⟨hrows, hlinks⟩ := hw.kept hinv.chains h.closed h.ids hspares
  rw [← htokens] at hrows hlinks
  refine ⟨⟨fun id hid ↦ ?_, hlinks, fun j tokenHash userId now todo work hses huser id hid hmine ↦
    ?_⟩, hrows⟩
  · obtain ⟨t, ht, rfl, huser⟩ := h.known id hid
    exact ⟨t, hrows t ht hid, rfl, huser⟩
  · rcases hs.revoking_origin hses hid with ⟨todo', work', hses', hid'⟩ | ⟨t, ht, rfl, htu⟩
    · exact h.revoking j tokenHash userId now todo' work' hses' huser id hid' hmine
    · obtain ⟨u, hu, huid, huu⟩ := h.known t.id hmine
      obtain rfl := hinv.chains.eq_of_id hu ht huid
      exact huser (htu.symm.trans huu)

theorem Kept.unwritten (h : Kept s user mine) (hinv : Inv s) (hs : Step cfg s sid event s')
    (htokens : s'.tokens = s.tokens) : Kept s' user mine :=
  (h.step hinv hs ⟨[], [], .nothing _, by rw [Commits.result_nil, List.append_nil, htokens],
    fun _ hw ↦ absurd hw List.not_mem_nil⟩).1

theorem Inv.revoking_ids (hinv : Inv s) {tokenHash : String} {userId : Uuid} {now : Time}
    {todo : List Uuid} {work : Tokens}
    (hses : s.sessions sid = some ⟨tokenHash, .revoking userId now todo, work⟩) :
    ∀ id ∈ todo ++ work.ids, id ∈ s.tokens.ids := by
  intro id hid
  have hrev : Revoking s.tokens now todo work := hinv.ok sid _ hses
  rcases List.mem_append.mp hid with hid | hid
  · exact hrev.chosen id hid
  · obtain ⟨w, hw, rfl⟩ := Tokens.mem_ids.mp hid
    obtain ⟨t, ht, rfl⟩ := hrev.row w hw
    exact Tokens.mem_ids.mpr ⟨t, ht, rfl⟩

theorem Kept.rotated (h : Kept s user mine) (hinv : Inv s) {presented parent child userId : Uuid}
    (hs : Step cfg s sid (some (.rotated presented parent child userId)) s') (hp : parent ∈ mine)
    {n : RefreshToken} (hn : n ∈ s'.tokens) (hnid : n.id = child) (hnu : n.userId = user) :
    Kept s' user (child :: mine) := by
  obtain ⟨work, new, hw, htokens, heffect⟩ := hs.effect hinv
  obtain ⟨-, -, -, ⟨w₀, hw₀, hid₀, hlink₀⟩, hnew⟩ := heffect
  have hchild : child ∉ s.tokens.ids := by
    cases hs with
    | insert running => exact (hinv.news sid _ _ running rfl).2
  refine ⟨fun id hid ↦ ?_, fun a b hl ↦ ?_, fun j tokenHash userId now todo work hses huser id hid
    hin ↦ ?_⟩
  · rcases List.mem_cons.mp hid with rfl | hid
    · exact ⟨n, hn, hnid, hnu⟩
    · obtain ⟨t, ht, rfl, huser⟩ := h.known id hid
      obtain ⟨v, hv, hvid, hs⟩ := hw.persists ht hinv.chains
      exact ⟨v, htokens ▸ hv, hvid, hs.userId.trans huser⟩
  · rw [htokens] at hl
    rcases hw.links_result hl with hl | ⟨m, hm, rfl, w, hwin, rfl, hwm, -⟩
    · obtain ⟨ha, hb⟩ := hinv.chains.mem_of_links hl
      have hne : ∀ x ∈ s.tokens.ids, x ≠ child := fun x hx he ↦ hchild (he ▸ hx)
      simp only [List.mem_cons, hne a ha, hne b hb, false_or]
      exact h.closed a b hl
    · obtain rfl := hw.parent w hwin w₀ hw₀ m hm hwm (by rw [hnew m hm]; exact hlink₀)
      rw [hnew m hm]
      exact iff_of_true (List.mem_cons_of_mem _ (hid₀ ▸ hp)) List.mem_cons_self
  · rcases hs.revoking_origin hses hid with ⟨todo', work', hses', hid'⟩ | ⟨t, ht, rfl, htu⟩
    · rcases List.mem_cons.mp hin with rfl | hin
      · exact hchild (hinv.revoking_ids hses' _ hid')
      · exact h.revoking j tokenHash userId now todo' work' hses' huser id hid' hin
    · rcases List.mem_cons.mp hin with rfl | hin
      · exact hchild (List.mem_map_of_mem ht)
      · obtain ⟨u, hu, huid, huu⟩ := h.known t.id hin
        obtain rfl := hinv.chains.eq_of_id hu ht huid
        exact huser (htu.symm.trans huu)

end Steps

namespace RefreshToken

def Live (t : RefreshToken) : Prop := t.revokedAt = none ∧ t.replacedById = none

/-- `u` is the token itself or the replacement that an earlier exchange of it has brought. -/
def LeadsTo (t u : RefreshToken) : Prop :=
  t = u ∨ t.revokedAt.isSome ∧ t.replacedById = some u.id

end RefreshToken

/-- A secret with this hash can be exchanged: it belongs to `t`, and `u` is the end of the
family. -/
structure Exchangeable (tokens : Tokens) (tokenHash : String) (t u : RefreshToken) : Prop where
  presented : t ∈ tokens
  tail : u ∈ tokens
  hash : t.tokenHash = tokenHash
  leads : t.LeadsTo u
  live : u.Live

/-- How far a call can be that presents `t`. -/
def Session.Exchanges (t u : RefreshToken) (ses : Session) : Prop :=
  match ses.stage with
  | .selecting _ => True
  | .claiming _ presented _ new => presented = t.id ∧ t = u ∧ new.revokedAt = none
  | .recovering _ presented _ _ | .locking _ presented _ _ _ _ _ =>
    presented = t.id ∧ t.revokedAt.isSome
  | .inserting presented parent new => presented = t.id ∧ parent = u.id ∧ new.revokedAt = none
  | .revoking _ _ _ => False

/-- The grace period of `t` is over, or its replacement has expired. -/
def TooLate (cfg : Config) (s : Sys) (sid : ℕ) (t u : RefreshToken) : Prop :=
  ∃ tokenHash attempt userId now rows byId work,
    s.sessions sid = some ⟨tokenHash, .locking attempt t.id userId now [] rows byId, work⟩ ∧
      (t.inGrace cfg now = false ∨ u.expiresAt ≤ now)

section Exchange

variable {cfg : Config} {s s' : Sys} {sid : ℕ} {event : Option Event} {tokenHash : String}
  {t u : RefreshToken}

/-- What a step of a call leaves that presents `t`. -/
inductive Exchanged (cfg : Config) (s s' : Sys) (sid : ℕ) (tokenHash : String)
    (t u : RefreshToken) : Option Event → Prop
  | running {stage : Stage} {work : Tokens} (tokens : s'.tokens = s.tokens)
      (session : s'.sessions sid = some ⟨tokenHash, stage, work⟩)
      (exchanges : Session.Exchanges t u ⟨tokenHash, stage, work⟩) :
      Exchanged cfg s s' sid tokenHash t u none
  | refused (tokens : s'.tokens = s.tokens) (session : s'.sessions sid = none) :
      Exchanged cfg s s' sid tokenHash t u none
  | rotated {n u' : RefreshToken} (session : s'.sessions sid = none) (new : n ∈ s'.tokens)
      (live : n.Live) (user : n.userId = u.userId) (claimed : u' ∈ s'.tokens)
      (same : u'.id = u.id ∧ u'.tokenHash = u.tokenHash ∧ u'.revokedAt.isSome)
      (replaced : u'.replacedById = some n.id) :
      Exchanged cfg s s' sid tokenHash t u (some (.rotated t.id u.id n.id n.userId))
  | reused (session : s'.sessions sid = none) (late : t.revokedAt.isSome ∧ TooLate cfg s sid t u) :
      Exchanged cfg s s' sid tokenHash t u (some (.reused t.id))

theorem Exchanged.retry {attempt : ℕ}
    (hses : s'.sessions sid = Session.retry tokenHash attempt) (htokens : s'.tokens = s.tokens) :
    Exchanged cfg s s' sid tokenHash t u none := by
  unfold Session.retry at hses
  split at hses
  · exact .running htokens hses trivial
  · exact .refused htokens hses

theorem Exchangeable.of_find (h : Exchangeable s.tokens tokenHash t u)
    (hunique : (s.tokens.map RefreshToken.tokenHash).Nodup) {v : RefreshToken}
    (hv : s.tokens.find? (·.tokenHash = tokenHash) = some v) : v = t := by
  have hmem := List.mem_of_find?_eq_some hv
  have hhash : v.tokenHash = tokenHash := by simpa using List.find?_some hv
  exact List.inj_on_of_nodup_map hunique hmem h.presented (hhash.trans h.hash.symm)

theorem Exchangeable.loaded (h : Exchangeable s.tokens tokenHash t u) (hc : Chains s.tokens)
    {userId : Uuid} {rows byId : Tokens} (hlock : Locking s.tokens t.id userId [] rows byId)
    (done : s.tokens.linkedIds userId (Tokens.missingIds rows (byId ++ rows)) = []) :
    u ∈ byId ++ rows := by
  have hpath : ReflTransGen s.tokens.Links t.id u.id := by
    rcases h.leads with rfl | ⟨-, hlink⟩
    · exact .refl
    · exact .single ⟨t, h.presented, rfl, hlink⟩
  have hid : u.id ∈ Tokens.ids (byId ++ rows) := by
    rcases hlock.below_loaded hc _ hpath with hin | ⟨a, ha, -⟩
    · exact hin
    · have hmem := hlock.mem_linkedIds hc ha
      rw [done] at hmem
      cases hmem
  obtain ⟨v, hv, hvid⟩ := Tokens.mem_ids.mp hid
  rwa [← hc.eq_of_id (hlock.locked v hv).1 h.tail hvid]

theorem Step.exchange (hinv : Inv s) (hunique : (s.tokens.map RefreshToken.tokenHash).Nodup)
    (h : Exchangeable s.tokens tokenHash t u) {stage : Stage} {work : Tokens}
    (hses : s.sessions sid = some ⟨tokenHash, stage, work⟩)
    (hstage : Session.Exchanges t u ⟨tokenHash, stage, work⟩) (hs : Step cfg s sid event s') :
    Exchanged cfg s s' sid tokenHash t u event := by
  have hput : ∀ ses, (s.put sid ses).sessions sid = ses := fun ses ↦ Function.update_self _ _ _
  have hfree : ∀ {ses : Session}, s.sessions sid = some ses →
      ses = ⟨tokenHash, stage, work⟩ := fun hs' ↦ Option.some.inj (hs'.symm.trans hses)
  cases hs with
  | users => exact .running rfl hses hstage
  | issue free | rotate _ free | revokeSelect free => cases free.symm.trans hses
  | refuse | abort => exact .refused rfl (hput _)
  | select running found user unrevoked alive new =>
    cases hfree running
    obtain rfl := h.of_find hunique found
    refine .running rfl (hput _) ⟨rfl, ?_, rfl⟩
    rcases h.leads with heq | ⟨hrev, -⟩
    · exact heq
    · rw [unrevoked] at hrev
      cases hrev
  | selectRevoked running found user revoked =>
    cases hfree running
    obtain rfl := h.of_find hunique found
    exact .running rfl (hput _) ⟨rfl, revoked⟩
  | claim running free row matched =>
    cases hfree running
    obtain ⟨hpresented, heq, hnew⟩ := hstage
    exact .running rfl (hput _) ⟨hpresented, heq ▸ hpresented, hnew⟩
  | claimLost running missed =>
    cases hfree running
    exact .retry (hput _) rfl
  | @insert _ presented parent new _ running =>
    cases hfree running
    obtain ⟨rfl, rfl, hnew⟩ := hstage
    have hfresh := (hinv.news sid _ new.id running rfl).2
    have hclaimed : Claimed s.tokens t.id u.id new work := hinv.ok sid _ running
    have hcommits := hclaimed.commits hinv.chains hfresh
    obtain ⟨v, hv, now, hvid, -, -, huser, hmem⟩ := hclaimed.claim
    obtain rfl := hinv.chains.eq_of_id hv h.tail hvid
    exact .rotated (Function.update_self _ _ _)
      (List.mem_append_right _ (List.mem_singleton_self new)) ⟨hnew, hclaimed.plain⟩ huser.symm
      (hcommits.work_mem hmem) ⟨rfl, rfl, rfl⟩ rfl
  | lockStart running =>
    cases hfree running
    exact .running rfl (hput _) hstage
  | lockRow running free row =>
    cases hfree running
    exact .running rfl (hput _) hstage
  | follow running links more =>
    cases hfree running
    exact .running rfl (hput _) hstage
  | unrevoked running done active =>
    cases hfree running
    exact .retry (hput _) rfl
  | @recover _ newHash attempt presented userId id now rows byId _ v r running done row revoked
      grace
      new =>
    cases hfree running
    obtain ⟨rfl, hrev⟩ := hstage
    obtain ⟨-, hlock⟩ := hinv.ok sid _ running
    obtain ⟨hv, hvid⟩ := Tokens.token_some row
    obtain rfl := hinv.chains.eq_of_id (hlock.locked v hv).1 h.presented hvid
    refine .running rfl (hput _) ⟨rfl, ?_, rfl⟩
    obtain ⟨-, hr, -⟩ := Tokens.graceReplacement_some grace
    rcases h.leads with rfl | ⟨-, hlink⟩
    · cases h.live.2.symm.trans hr
    · exact Option.some.inj (hr.symm.trans hlink)
  | @reuse _ attempt presented userId now rows byId _ v running done row revoked grace =>
    cases hfree running
    obtain ⟨rfl, hrev⟩ := hstage
    obtain ⟨-, hlock⟩ := hinv.ok sid _ running
    obtain ⟨hv, hvid⟩ := Tokens.token_some row
    obtain rfl := hinv.chains.eq_of_id (hlock.locked v hv).1 h.presented hvid
    refine .reused (Function.update_self _ _ _)
      ⟨hrev, _, attempt, userId, now, rows, byId, _, running, ?_⟩
    unfold Tokens.graceReplacement at grace
    split at grace
    · refine Or.inr (not_lt.mp fun hlt ↦ ?_)
      rcases h.leads with rfl | ⟨-, hlink⟩
      · rw [h.live.1] at hrev
        cases hrev
      · have hfound : Tokens.token (byId ++ rows) u.id = some u :=
          Table.find_of_mem RefreshToken.id (by simpa [Tokens.ids] using hlock.nodup)
            (h.loaded hinv.chains hlock done)
        rw [hlink, Option.bind_some, hfound] at grace
        have hclaimable : u.claimable now = true := by
          simp [RefreshToken.claimable, h.live.1, h.live.2, hlt]
        rw [Option.filter_some, if_pos hclaimable] at grace
        cases grace
    · rename_i hgrace
      exact Or.inl (Bool.eq_false_iff.mpr hgrace)
  | revokeRow running free row =>
    cases hfree running
    exact hstage.elim
  | revokeCommit running =>
    cases hfree running
    exact hstage.elim

end Exchange

end RiskApp.Auth
