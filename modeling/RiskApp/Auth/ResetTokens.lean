import Mathlib.Data.List.Nodup
import Mathlib.Logic.Function.Basic
import Mathlib.Logic.Relation
import RiskApp.Values

namespace RiskApp.Auth

structure PasswordResetToken where
  id : Uuid
  userId : Uuid
  tokenHash : String
  expiresAt : Time
  usedAt : Option Time
  deriving DecidableEq

structure Account where
  active : Bool
  passwordHash : String

/-- A call of `request_password_reset` after its SELECT, with the tokens that it is still to mark,
or of `confirm_password_reset` after its locking SELECT. -/
inductive ResetCall
  | requesting (userId : Uuid) (now : Time) (todo : List Uuid)
  | confirming (tokenId userId : Uuid) (now : Time)

/-- `held` are the rows that its transaction has locked. -/
structure ResetSession where
  call : ResetCall
  held : List Uuid

inductive ResetEvent
  | selected (userId : Uuid)
  | issued (id userId : Uuid)
  | changed (tokenId userId : Uuid)

/-- The committed tokens and accounts, the running calls, and the ids that were drawn. -/
structure ResetSys where
  tokens : List PasswordResetToken := []
  accounts : Uuid → Option Account
  sessions : ℕ → Option ResetSession := fun _ ↦ none
  drawn : List Uuid := []

structure PasswordPolicy where
  minLength : ℕ
  maxLength : ℕ
  requireUpper : Bool
  requireLower : Bool
  requireDigit : Bool
  requireSymbol : Bool

def validatePassword (policy : PasswordPolicy) (password : String) : List String :=
  let p := password.toList
  (if p.length < policy.minLength then
    ["Password must be at least " ++ toString policy.minLength ++ " characters"] else []) ++
  (if policy.maxLength < p.length then
    ["Password must be at most " ++ toString policy.maxLength ++ " characters"] else []) ++
  (if policy.requireUpper && !p.any Char.isUpper then
    ["Password must include an uppercase letter"] else []) ++
  (if policy.requireLower && !p.any Char.isLower then
    ["Password must include a lowercase letter"] else []) ++
  (if policy.requireDigit && !p.any Char.isDigit then ["Password must include a digit"] else []) ++
  (if policy.requireSymbol && p.all Char.isAlphanum then
    ["Password must include a symbol"] else [])

structure ResetConfig where
  tokenMinutes : ℕ
  policy : PasswordPolicy
  hashPw : String → String

namespace PasswordResetToken

def mark (held : List Uuid) (now : Time) (t : PasswordResetToken) : PasswordResetToken :=
  if t.id ∈ held then { t with usedAt := some now } else t

end PasswordResetToken

/-- What a call knows: the rows that it holds or is to mark exist, and the token that it confirms is
unused and its own. -/
def ResetSession.Ok (tokens : List PasswordResetToken) (session : ResetSession) : Prop :=
  match session.call with
  | .requesting _ _ todo => ∀ id ∈ todo ++ session.held, ∃ t ∈ tokens, t.id = id
  | .confirming tokenId userId _ => session.held = [tokenId] ∧
      ∃ t ∈ tokens, t.id = tokenId ∧ t.userId = userId ∧ t.usedAt = none

namespace ResetSys

def put (s : ResetSys) (sid : ℕ) (session : Option ResetSession) : ResetSys :=
  { s with sessions := Function.update s.sessions sid session }

def rowFree (s : ResetSys) (sid : ℕ) (id : Uuid) : Prop :=
  ∀ j session, j ≠ sid → s.sessions j = some session → id ∉ session.held

def unused (s : ResetSys) (userId : Uuid) : List Uuid :=
  (s.tokens.filter fun t ↦ t.userId = userId && t.usedAt.isNone).map PasswordResetToken.id

def isActive (s : ResetSys) (userId : Uuid) : Bool := (s.accounts userId).any Account.active

/-- One statement of one call on PostgreSQL; a statement that needs a row lock waits until it is
free, and then sees the row as it was committed last. SQLite has no `FOR UPDATE`. -/
inductive Step (cfg : ResetConfig) (s : ResetSys) (sid : ℕ) : Option ResetEvent → ResetSys → Prop
  | others (accounts : Uuid → Option Account) : Step cfg s sid none { s with accounts := accounts }
  | requestSelect {userId : Uuid} {now : Time} (free : s.sessions sid = none)
      (user : s.isActive userId = true) :
      Step cfg s sid (some (.selected userId))
        (s.put sid (some ⟨.requesting userId now (s.unused userId), []⟩))
  | requestRow {userId id : Uuid} {now : Time} {todo held : List Uuid}
      (running : s.sessions sid = some ⟨.requesting userId now (id :: todo), held⟩)
      (free : s.rowFree sid id) :
      Step cfg s sid none (s.put sid (some ⟨.requesting userId now todo, id :: held⟩))
  | requestCommit {userId id : Uuid} {now : Time} {held : List Uuid} {tokenHash : String}
      (running : s.sessions sid = some ⟨.requesting userId now [], held⟩) (new : id ∉ s.drawn) :
      Step cfg s sid (some (.issued id userId)) { s.put sid none with
        tokens := s.tokens.map (PasswordResetToken.mark held now) ++
          [⟨id, userId, tokenHash, now + cfg.tokenMinutes * 60 * 1000000, none⟩]
        drawn := id :: s.drawn }
  | confirmSelect {tokenHash : String} {now : Time} {t : PasswordResetToken}
      (idle : s.sessions sid = none) (found : s.tokens.find? (·.tokenHash = tokenHash) = some t)
      (free : s.rowFree sid t.id) (unused : t.usedAt = none) (alive : now < t.expiresAt) :
      Step cfg s sid none (s.put sid (some ⟨.confirming t.id t.userId now, [t.id]⟩))
  | confirmCommit {tokenId userId : Uuid} {now : Time} {held : List Uuid} {account : Account}
      {newPassword : String}
      (running : s.sessions sid = some ⟨.confirming tokenId userId now, held⟩)
      (found : s.accounts userId = some account) (active : account.active = true)
      (valid : validatePassword cfg.policy newPassword = []) :
      Step cfg s sid (some (.changed tokenId userId)) { s.put sid none with
        tokens := s.tokens.map (PasswordResetToken.mark [tokenId] now)
        accounts := Function.update s.accounts userId
          (some { account with passwordHash := cfg.hashPw newPassword }) }
  -- an invalid token, an inactive account, a weak password, a lost connection: rollback
  | refuse {session : ResetSession} (running : s.sessions sid = some session) :
      Step cfg s sid none (s.put sid none)

def Runs (cfg : ResetConfig) : ResetSys → ResetSys → Prop :=
  Relation.ReflTransGen fun s s' ↦ ∃ sid event, Step cfg s sid event s'

def Reachable (cfg : ResetConfig) (s : ResetSys) : Prop :=
  ∃ accounts, Runs cfg ⟨[], accounts, fun _ ↦ none, []⟩ s

structure Inv (s : ResetSys) : Prop where
  ids : (s.tokens.map PasswordResetToken.id).Nodup
  drawn : ∀ t ∈ s.tokens, t.id ∈ s.drawn
  ok : ∀ sid session, s.sessions sid = some session → session.Ok s.tokens
  apart : ∀ i j a b, i ≠ j → s.sessions i = some a → s.sessions j = some b →
    ∀ id ∈ a.held, id ∉ b.held

def Spent (s : ResetSys) (id : Uuid) : Prop := ∃ t ∈ s.tokens, t.id = id ∧ t.usedAt.isSome

section Steps

variable {cfg : ResetConfig} {s s' : ResetSys} {sid : ℕ} {event : Option ResetEvent}

theorem mark_id (held : List Uuid) (now : Time) (t : PasswordResetToken) :
    (t.mark held now).id = t.id := by
  unfold PasswordResetToken.mark
  split <;> rfl

theorem mark_userId (held : List Uuid) (now : Time) (t : PasswordResetToken) :
    (t.mark held now).userId = t.userId := by
  unfold PasswordResetToken.mark
  split <;> rfl

theorem mark_usedAt {held : List Uuid} {now : Time} {t : PasswordResetToken}
    (h : t.usedAt.isSome ∨ t.id ∈ held) : (t.mark held now).usedAt.isSome := by
  unfold PasswordResetToken.mark
  split
  · rfl
  · rename_i hheld
    exact h.resolve_right hheld

theorem mark_unheld {held : List Uuid} {now : Time} {t : PasswordResetToken} (h : t.id ∉ held) :
    t.mark held now = t :=
  if_neg h

theorem Step.tokens (hi : Inv s) (hs : Step cfg s sid event s') : ∃ held now new,
    s'.tokens = s.tokens.map (PasswordResetToken.mark held now) ++ new ∧
      (∀ t ∈ new, t.id ∉ s.drawn) ∧
      (held = [] ∨ ∃ session, s.sessions sid = some session ∧ held = session.held) := by
  have hsame : s.tokens = s.tokens.map (PasswordResetToken.mark [] 0) ++ [] := by
    rw [List.append_nil, List.map_congr_left fun t _ ↦ mark_unheld List.not_mem_nil, List.map_id']
  cases hs with
  | requestCommit running new =>
    refine ⟨_, _, _, rfl, fun t ht ↦ ?_, Or.inr ⟨_, running, rfl⟩⟩
    rw [List.mem_singleton.mp ht]
    exact new
  | confirmCommit running found active valid =>
    obtain ⟨hheld, -⟩ := hi.ok _ _ running
    exact ⟨_, _, [], (List.append_nil _).symm, fun _ ht ↦ absurd ht List.not_mem_nil,
      Or.inr ⟨_, running, hheld.symm⟩⟩
  | others | requestSelect | requestRow | confirmSelect | refuse =>
    exact ⟨[], 0, [], hsame, fun _ ht ↦ absurd ht List.not_mem_nil, Or.inl rfl⟩

theorem Spent.step {id : Uuid} (h : Spent s id) (hi : Inv s) (hs : Step cfg s sid event s') :
    Spent s' id := by
  obtain ⟨t, ht, hid, hused⟩ := h
  obtain ⟨held, now, new, htokens, -, -⟩ := hs.tokens hi
  refine ⟨t.mark held now, ?_, (mark_id held now t).trans hid, mark_usedAt (Or.inl hused)⟩
  rw [htokens]
  exact List.mem_append_left _ (List.mem_map_of_mem ht)

theorem put_sessions (s : ResetSys) (session : Option ResetSession) {j : ℕ} {x : ResetSession}
    (h : (s.put sid session).sessions j = some x) :
    (j = sid ∧ session = some x) ∨ (j ≠ sid ∧ s.sessions j = some x) := by
  by_cases hj : j = sid
  · change Function.update s.sessions sid session j = some x at h
    rw [hj, Function.update_self] at h
    exact Or.inl ⟨hj, h⟩
  · exact Or.inr ⟨hj, (Function.update_of_ne hj _ _).symm.trans h⟩

theorem Inv.put (hi : Inv s) {session : Option ResetSession}
    (hok : ∀ x, session = some x → x.Ok s.tokens)
    (hfree : ∀ x, session = some x → ∀ id ∈ x.held, s.rowFree sid id) :
    Inv (s.put sid session) := by
  refine ⟨hi.ids, hi.drawn, fun j x hx ↦ ?_, fun i j a b hij ha hb id hid hid' ↦ ?_⟩
  · rcases put_sessions s session hx with ⟨-, hx⟩ | ⟨-, hx⟩
    · exact hok x hx
    · exact hi.ok j x hx
  · rcases put_sessions s session ha with ⟨hi', ha'⟩ | ⟨hi', ha'⟩ <;>
      rcases put_sessions s session hb with ⟨hj', hb'⟩ | ⟨hj', hb'⟩
    · exact hij (hi'.trans hj'.symm)
    · exact hfree a ha' id hid j b hj' hb' hid'
    · exact hfree b hb' id hid' i a hi' ha' hid
    · exact hi.apart i j a b hij ha' hb' id hid hid'

theorem Inv.rowFree (hi : Inv s) {session : ResetSession} (h : s.sessions sid = some session)
    {id : Uuid} (hid : id ∈ session.held) : s.rowFree sid id :=
  fun j other hj ho hin ↦ hi.apart sid j session other (Ne.symm hj) h ho id hid hin

theorem Inv.commit (hi : Inv s) {session : ResetSession} (h : s.sessions sid = some session)
    {now : Time} {new : List PasswordResetToken} {accounts : Uuid → Option Account}
    {drawn : List Uuid} (hnew : (new.map PasswordResetToken.id).Nodup)
    (hfresh : ∀ t ∈ new, t.id ∉ s.drawn ∧ t.id ∈ drawn) (hdrawn : ∀ id ∈ s.drawn, id ∈ drawn) :
    Inv { s.put sid none with
      tokens := s.tokens.map (PasswordResetToken.mark session.held now) ++ new
      accounts := accounts
      drawn := drawn } := by
  have hids : (s.tokens.map (PasswordResetToken.mark session.held now)).map PasswordResetToken.id =
      s.tokens.map PasswordResetToken.id := by
    rw [List.map_map]
    exact List.map_congr_left fun t _ ↦ mark_id _ _ t
  refine ⟨?_, fun t ht ↦ ?_, fun j x hx ↦ ?_, fun i j a b hij ha hb ↦ ?_⟩
  · rw [List.map_append, hids]
    refine List.nodup_append.mpr ⟨hi.ids, hnew, fun x hx y hy he ↦ ?_⟩
    obtain ⟨t, ht, rfl⟩ := List.mem_map.mp hx
    obtain ⟨n, hn, rfl⟩ := List.mem_map.mp hy
    exact (hfresh n hn).1 (he ▸ hi.drawn t ht)
  · rcases List.mem_append.mp ht with ht | ht
    · obtain ⟨u, hu, rfl⟩ := List.mem_map.mp ht
      rw [mark_id]
      exact hdrawn _ (hi.drawn u hu)
    · exact (hfresh t ht).2
  · rcases put_sessions s none hx with ⟨-, hx⟩ | ⟨hj, hx⟩
    · cases hx
    · have hok := hi.ok j x hx
      have hkept : ∀ t ∈ s.tokens, t.mark session.held now ∈
          s.tokens.map (PasswordResetToken.mark session.held now) ++ new :=
        fun t ht ↦ List.mem_append_left _ (List.mem_map_of_mem ht)
      obtain ⟨call, held⟩ := x
      cases call with
      | requesting userId now' todo =>
        intro id hid
        obtain ⟨t, ht, rfl⟩ := hok id hid
        exact ⟨_, hkept t ht, mark_id _ _ t⟩
      | confirming tokenId userId now' =>
        obtain ⟨hheld, t, ht, rfl, huser, hnone⟩ := hok
        refine ⟨hheld, t, ?_, rfl, huser, hnone⟩
        have hunheld : t.id ∉ session.held := fun hin ↦
          hi.apart sid j session _ (Ne.symm hj) h hx t.id hin (hheld ▸ List.mem_singleton_self _)
        rw [← @mark_unheld session.held now t hunheld]
        exact hkept t ht
  · rcases put_sessions s none ha with ⟨-, ha⟩ | ⟨-, ha⟩
    · cases ha
    · rcases put_sessions s none hb with ⟨-, hb⟩ | ⟨-, hb⟩
      · cases hb
      · exact hi.apart i j a b hij ha hb

theorem Step.inv (hi : Inv s) (hs : Step cfg s sid event s') : Inv s' := by
  cases hs with
  | others accounts => exact ⟨hi.ids, hi.drawn, hi.ok, hi.apart⟩
  | requestSelect free user =>
    refine hi.put (fun x hx ↦ ?_) fun x hx id hid ↦ ?_ <;> cases hx
    · intro id hid
      rw [List.append_nil] at hid
      obtain ⟨t, ht, rfl⟩ := List.mem_map.mp hid
      exact ⟨t, (List.mem_filter.mp ht).1, rfl⟩
    · cases hid
  | requestRow running free =>
    refine hi.put (fun x hx ↦ ?_) fun x hx id hid ↦ ?_ <;> cases hx
    · intro id hid
      refine hi.ok _ _ running id ?_
      rcases List.mem_append.mp hid with hid | hid
      · exact List.mem_append_left _ (List.mem_cons_of_mem _ hid)
      · rcases List.mem_cons.mp hid with rfl | hid
        · exact List.mem_append_left _ List.mem_cons_self
        · exact List.mem_append_right _ hid
    · rcases List.mem_cons.mp hid with rfl | hid
      · exact free
      · exact hi.rowFree running hid
  | @requestCommit userId id now held tokenHash running new =>
    refine hi.commit running (by simp) (fun t ht ↦ ?_) fun _ hid ↦ List.mem_cons_of_mem _ hid
    rw [List.mem_singleton.mp ht]
    exact ⟨new, List.mem_cons_self⟩
  | @confirmSelect tokenHash now t idle found free unused alive =>
    refine hi.put (fun x hx ↦ ?_) fun x hx id hid ↦ ?_ <;> cases hx
    · exact ⟨rfl, t, List.mem_of_find?_eq_some found, rfl, rfl, unused⟩
    · rw [List.mem_singleton.mp hid]
      exact free
  | @confirmCommit tokenId userId now held account newPassword running found active valid =>
    obtain ⟨hheld, -⟩ := hi.ok _ _ running
    have hcommit := @Inv.commit s sid hi _ running now [] (Function.update s.accounts userId
      (some { account with passwordHash := cfg.hashPw newPassword })) s.drawn .nil
      (fun _ ht ↦ absurd ht List.not_mem_nil) fun _ hid ↦ hid
    rwa [hheld, List.append_nil] at hcommit
  | refuse running => exact hi.put (fun _ hx ↦ by cases hx) fun _ hx ↦ by cases hx

theorem Runs.inv (hr : Runs cfg s s') (hi : Inv s) : Inv s' := by
  induction hr with
  | refl => exact hi
  | tail _ hs ih =>
    obtain ⟨sid, event, hs⟩ := hs
    exact hs.inv ih

theorem Reachable.inv (h : Reachable cfg s) : Inv s := by
  obtain ⟨accounts, hr⟩ := h
  refine hr.inv ⟨.nil, fun _ ht ↦ absurd ht List.not_mem_nil, fun _ _ hx ↦ ?_,
    fun _ _ _ _ _ ha ↦ ?_⟩
  · cases hx
  · cases ha

theorem Reachable.step (h : Reachable cfg s) (hs : Step cfg s sid event s') : Reachable cfg s' := by
  obtain ⟨accounts, hr⟩ := h
  exact ⟨accounts, hr.tail ⟨sid, event, hs⟩⟩

theorem Spent.run {id : Uuid} (h : Spent s id) (hi : Inv s) (hr : Runs cfg s s') :
    Spent s' id := by
  induction hr with
  | refl => exact h
  | tail before hs ih =>
    obtain ⟨sid, event, hs⟩ := hs
    exact ih.step (Runs.inv before hi) hs

theorem Step.changed (hi : Inv s) {id userId : Uuid}
    (hs : Step cfg s sid (some (.changed id userId)) s') :
    ¬ Spent s id ∧ (∃ t ∈ s.tokens, t.id = id ∧ t.userId = userId ∧ t.usedAt = none) ∧
      Spent s' id := by
  cases hs with
  | confirmCommit running found active valid =>
    obtain ⟨hheld, t, ht, hid, huser, hnone⟩ := hi.ok _ _ running
    refine ⟨fun ⟨u, hu, huid, hused⟩ ↦ ?_, ⟨t, ht, hid, huser, hnone⟩, ?_⟩
    · obtain rfl := List.inj_on_of_nodup_map hi.ids ht hu (hid.trans huid.symm)
      rw [hnone] at hused
      cases hused
    · refine ⟨t.mark [id] _, List.mem_map_of_mem ht, (mark_id _ _ t).trans hid, mark_usedAt ?_⟩
      exact Or.inr (hid ▸ List.mem_singleton_self _)

/-- While a request of the call is under way: `D` are the tokens that its SELECT saw, and those
still unused are marked by it or to be reached. -/
structure Covered (userId : Uuid) (sid : ℕ) (D : List Uuid) (s : ResetSys) : Prop where
  user : ∀ id ∈ D, ∃ t ∈ s.tokens, t.id = id ∧ t.userId = userId
  reached : ∀ now todo held, s.sessions sid = some ⟨.requesting userId now todo, held⟩ →
    ∀ id ∈ D, Spent s id ∨ id ∈ todo ∨ id ∈ held

theorem Covered.step {userId : Uuid} {j : ℕ} {D : List Uuid} (h : Covered userId j D s)
    (hi : Inv s) (hs : Step cfg s sid event s') : Covered userId j D s' := by
  refine ⟨fun id hid ↦ ?_, fun now todo held hses id hid ↦ ?_⟩
  · obtain ⟨t, ht, rfl, huser⟩ := h.user id hid
    obtain ⟨held, now, new, htokens, -, -⟩ := hs.tokens hi
    refine ⟨t.mark held now, ?_, mark_id held now t, (mark_userId held now t).trans huser⟩
    rw [htokens]
    exact List.mem_append_left _ (List.mem_map_of_mem ht)
  · have hold : s.sessions j = some ⟨.requesting userId now todo, held⟩ →
        Spent s' id ∨ id ∈ todo ∨ id ∈ held := fun hsame ↦
      (h.reached now todo held hsame id hid).imp (fun hspent ↦ hspent.step hi hs) fun hx ↦ hx
    cases hs with
    | others accounts => exact hold hses
    | @requestSelect user now' free active =>
      rcases put_sessions s _ hses with ⟨-, hput⟩ | ⟨-, hses⟩
      · cases hput
        obtain ⟨t, ht, rfl, huser⟩ := h.user id hid
        cases hused : t.usedAt with
        | some time => exact Or.inl ⟨t, ht, rfl, by rw [hused]; rfl⟩
        | none =>
          refine Or.inr (Or.inl (List.mem_map_of_mem (List.mem_filter.mpr ⟨ht, ?_⟩)))
          simp [huser, hused]
      · exact hold hses
    | @requestRow user x now' todo' held' running free =>
      rcases put_sessions s _ hses with ⟨hj, hput⟩ | ⟨-, hses⟩
      · cases hput
        rcases h.reached _ _ _ (hj ▸ running) id hid with hspent | hin | hin
        · exact Or.inl hspent
        · rcases List.mem_cons.mp hin with rfl | hin
          · exact Or.inr (Or.inr List.mem_cons_self)
          · exact Or.inr (Or.inl hin)
        · exact Or.inr (Or.inr (List.mem_cons_of_mem _ hin))
      · exact hold hses
    | requestCommit running new =>
      rcases put_sessions s _ hses with ⟨-, hput⟩ | ⟨-, hses⟩
      · cases hput
      · exact hold hses
    | confirmSelect idle found free unused alive =>
      rcases put_sessions s _ hses with ⟨-, hput⟩ | ⟨-, hses⟩
      · cases hput
      · exact hold hses
    | confirmCommit running found active valid =>
      rcases put_sessions s _ hses with ⟨-, hput⟩ | ⟨-, hses⟩
      · cases hput
      · exact hold hses
    | refuse running =>
      rcases put_sessions s _ hses with ⟨-, hput⟩ | ⟨-, hses⟩
      · cases hput
      · exact hold hses

theorem Covered.run {userId : Uuid} {j : ℕ} {D : List Uuid} (h : Covered userId j D s)
    (hi : Inv s) (hr : Runs cfg s s') : Covered userId j D s' := by
  induction hr with
  | refl => exact h
  | tail before hs ih =>
    obtain ⟨sid, event, hs⟩ := hs
    exact ih.step (Runs.inv before hi) hs

/-- The request commits: what its SELECT saw is used. -/
theorem Covered.issued {userId newId : Uuid} {D : List Uuid} (h : Covered userId sid D s)
    (hs : Step cfg s sid (some (.issued newId userId)) s') : ∀ id ∈ D, Spent s' id := by
  intro id hid
  cases hs with
  | requestCommit running new =>
    rcases h.reached _ _ _ running id hid with ⟨t, ht, rfl, hused⟩ | hin | hin
    · exact ⟨_, List.mem_append_left _ (List.mem_map_of_mem ht), mark_id _ _ t,
        mark_usedAt (Or.inl hused)⟩
    · cases hin
    · obtain ⟨t, ht, rfl, -⟩ := h.user id hid
      exact ⟨_, List.mem_append_left _ (List.mem_map_of_mem ht), mark_id _ _ t,
        mark_usedAt (Or.inr hin)⟩

theorem Covered.start {userId : Uuid} (hs : Step cfg s sid (some (.selected userId)) s') :
    Covered userId sid ((s.tokens.filter (·.userId = userId)).map PasswordResetToken.id) s' := by
  have hmem : ∀ {id : Uuid}, id ∈ (s.tokens.filter (·.userId = userId)).map PasswordResetToken.id →
      ∃ t ∈ s.tokens, t.id = id ∧ t.userId = userId := by
    intro id hid
    obtain ⟨t, ht, rfl⟩ := List.mem_map.mp hid
    exact ⟨t, (List.mem_filter.mp ht).1, rfl, of_decide_eq_true (List.mem_filter.mp ht).2⟩
  cases hs with
  | requestSelect free active =>
    refine ⟨fun id hid ↦ hmem hid, fun now todo held hses id hid ↦ ?_⟩
    rcases put_sessions s _ hses with ⟨-, hput⟩ | ⟨hne, -⟩
    · cases hput
      obtain ⟨t, ht, rfl, huser⟩ := hmem hid
      cases hused : t.usedAt with
      | some time => exact Or.inl ⟨t, ht, rfl, by rw [hused]; rfl⟩
      | none =>
        refine Or.inr (Or.inl (List.mem_map_of_mem (List.mem_filter.mpr ⟨ht, ?_⟩)))
        simp [huser, hused]
    · exact absurd rfl hne

end Steps

end ResetSys

/-- A reset token changes the password of its own user once at most, and only while it is unused;
and none that the SELECT of a request for the user could see changes one after that request. -/
theorem reset_tokens_change_one_password (cfg : ResetConfig) {s : ResetSys}
    (h : ResetSys.Reachable cfg s) :
    (∀ sid id userId s₁, ResetSys.Step cfg s sid (some (.changed id userId)) s₁ →
      (∃ t ∈ s.tokens, t.id = id ∧ t.userId = userId ∧ t.usedAt = none) ∧
      ∀ s₂, ResetSys.Runs cfg s₁ s₂ → ∀ sid' userId' s₃,
        ¬ ResetSys.Step cfg s₂ sid' (some (.changed id userId')) s₃) ∧
    ∀ sid userId s₁ s₂ newId s₃ s₄, ResetSys.Step cfg s sid (some (.selected userId)) s₁ →
      ResetSys.Runs cfg s₁ s₂ → ResetSys.Step cfg s₂ sid (some (.issued newId userId)) s₃ →
      ResetSys.Runs cfg s₃ s₄ → ∀ t ∈ s.tokens, t.userId = userId → ∀ sid' userId' s₅,
        ¬ ResetSys.Step cfg s₄ sid' (some (.changed t.id userId')) s₅ := by
  have hi := h.inv
  refine ⟨fun sid id userId s₁ hs ↦ ?_, fun sid userId s₁ s₂ newId s₃ s₄ hs hr hs' hr' t ht huser
    sid' userId' s₅ hc ↦ ?_⟩
  · obtain ⟨-, hrow, hspent⟩ := hs.changed hi
    refine ⟨hrow, fun s₂ hr sid' userId' s₃ hs' ↦ ?_⟩
    have hi₁ := hs.inv hi
    exact (hs'.changed (hr.inv hi₁)).1 (hspent.run hi₁ hr)
  · have hi₂ := hr.inv (hs.inv hi)
    have hi₃ := hs'.inv hi₂
    have hcovered := (ResetSys.Covered.start hs).run (hs.inv hi) hr
    have hspent := hcovered.issued hs' t.id
      (List.mem_map_of_mem (List.mem_filter.mpr ⟨ht, decide_eq_true huser⟩))
    exact (hc.changed (hr'.inv hi₃)).1 (hspent.run hi₃ hr')

def sampleResetConfig : ResetConfig := ⟨30, ⟨1, 72, false, false, false, false⟩, id⟩

/-- User 7 asks for a token; its confirmation changes the password, and no second one does. -/
theorem reset_tokens_change_one_password_sample : ∃ s s₁,
    ResetSys.Reachable sampleResetConfig s ∧
    ResetSys.Step sampleResetConfig s 0 (some (.changed 1 7)) s₁ ∧
    ∀ sid userId s₂, ¬ ResetSys.Step sampleResetConfig s₁ sid (some (.changed 1 userId)) s₂ := by
  have h₀ : ResetSys.Reachable sampleResetConfig
      ⟨[], fun _ ↦ some ⟨true, "old"⟩, fun _ ↦ none, []⟩ := ⟨_, .refl⟩
  have h₁ := h₀.step (@ResetSys.Step.requestSelect _ _ 0 7 0 rfl rfl)
  have h₂ := h₁.step (@ResetSys.Step.requestCommit _ _ 0 7 1 0 [] "a" rfl (by decide))
  have h₃ := h₂.step (@ResetSys.Step.confirmSelect _ _ 0 "a" 5 _ rfl rfl
    (fun j session hj hses ↦ by simp [ResetSys.put] at hses) rfl (by decide))
  have hlast : ∀ s, ResetSys.Reachable sampleResetConfig s →
      s.sessions 0 = some ⟨.confirming 1 7 5, [1]⟩ → s.accounts 7 = some ⟨true, "old"⟩ → ∃ s₁,
        ResetSys.Step sampleResetConfig s 0 (some (.changed 1 7)) s₁ ∧ ∀ sid userId s₂,
          ¬ ResetSys.Step sampleResetConfig s₁ sid (some (.changed 1 userId)) s₂ := by
    intro s h running found
    have hs := @ResetSys.Step.confirmCommit sampleResetConfig s 0 1 7 5 [1] ⟨true, "old"⟩ "new"
      running found rfl (by decide)
    exact ⟨_, hs, ((reset_tokens_change_one_password sampleResetConfig h).1 0 1 7 _ hs).2 _ .refl⟩
  obtain ⟨s₁, hs₁⟩ := hlast _ h₃ rfl rfl
  exact ⟨_, s₁, h₃, hs₁⟩

end RiskApp.Auth
