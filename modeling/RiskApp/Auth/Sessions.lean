import RiskApp.Auth.Tokens

namespace RiskApp.Auth

open Lib

/-- How far a call is. `rows` are the rows that the running locking SELECT has returned, `byId`
those of the statements before it. -/
inductive Stage
  | selecting (attempt : ℕ)
  | claiming (attempt : ℕ) (presented : Uuid) (now : Time) (new : RefreshToken)
  | recovering (attempt : ℕ) (presented userId : Uuid) (now : Time)
  | locking (attempt : ℕ) (presented userId : Uuid) (now : Time) (todo : List Uuid)
      (rows byId : Tokens)
  | inserting (presented parent : Uuid) (new : RefreshToken)
  | revoking (userId : Uuid) (now : Time) (todo : List Uuid)

/-- A call of `rotate_refresh_token` with the hash of the presented token, or of
`revoke_user_refresh_tokens` with the commit that follows it. `work` holds the rows that its
transaction has locked, with the values it gave them. -/
structure Session where
  tokenHash : String
  stage : Stage
  work : Tokens

/-- The commits, and the SELECT that a revocation starts with. -/
inductive Event
  | issued (id userId : Uuid)
  | rotated (presented parent child userId : Uuid)
  | reused (presented : Uuid)
  | selected (userId : Uuid)
  | ended (userId : Uuid)

/-- The committed tokens and users, the running calls, and the ids that were drawn. -/
structure Sys where
  tokens : Tokens
  active : Uuid → Bool
  sessions : ℕ → Option Session
  drawn : List Uuid

namespace Sys

def start (active : Uuid → Bool) : Sys := ⟨[], active, fun _ ↦ none, []⟩

def rowFree (s : Sys) (sid : ℕ) (id : Uuid) : Prop :=
  ∀ sid' ses, sid' ≠ sid → s.sessions sid' = some ses → id ∉ ses.work.ids

def put (s : Sys) (sid : ℕ) (ses : Option Session) : Sys :=
  { s with sessions := Function.update s.sessions sid ses }

def committed (s : Sys) (sid : ℕ) (work new : Tokens) : Sys where
  tokens := Table.overlay RefreshToken.id work s.tokens ++ new
  active := s.active
  sessions := Function.update s.sessions sid none
  drawn := s.drawn

end Sys

def Session.retry (tokenHash : String) (attempt : ℕ) : Option Session :=
  if attempt + 1 < 3 then some ⟨tokenHash, .selecting (attempt + 1), []⟩ else none

def revokeFamily (family : List Uuid) (now : Time) (u : RefreshToken) : RefreshToken :=
  if u.id ∈ family ∧ u.revokedAt = none then u.revoked now else u

/-- One statement of one call. A statement that needs a row lock waits until it is free, and then
sees the row as it was committed last; the rows of a SELECT are chosen when it starts. -/
inductive Step (cfg : Config) (s : Sys) (sid : ℕ) : Option Event → Sys → Prop
  -- users are (de)activated by others
  | users (active : Uuid → Bool) : Step cfg s sid none { s with active := active }
  | issue {id userId : Uuid} {tokenHash : String} {now : Time} (free : s.sessions sid = none)
      (new : id ∉ s.drawn) :
      Step cfg s sid (some (.issued id userId))
        { s with
          tokens := s.tokens ++ [newRefreshToken cfg id tokenHash userId now]
          drawn := id :: s.drawn }
  | rotate (tokenHash : String) (free : s.sessions sid = none) :
      Step cfg s sid none (s.put sid (some ⟨tokenHash, .selecting 0, []⟩))
  -- the token is unknown or expired, or its user inactive: 401
  | refuse {tokenHash : String} {attempt : ℕ} {now : Time}
      (running : s.sessions sid = some ⟨tokenHash, .selecting attempt, []⟩)
      (invalid : ∀ t, s.tokens.find? (·.tokenHash = tokenHash) = some t →
        s.active t.userId = false ∨ t.revokedAt = none ∧ t.expiresAt ≤ now) :
      Step cfg s sid none (s.put sid none)
  | select {tokenHash newHash : String} {attempt : ℕ} {now : Time} {id : Uuid} {t : RefreshToken}
      (running : s.sessions sid = some ⟨tokenHash, .selecting attempt, []⟩)
      (found : s.tokens.find? (·.tokenHash = tokenHash) = some t)
      (user : s.active t.userId = true) (unrevoked : t.revokedAt = none) (alive : now < t.expiresAt)
      (new : id ∉ s.drawn) :
      Step cfg s sid none { s.put sid (some ⟨tokenHash, .claiming attempt t.id now
        (newRefreshToken cfg id newHash t.userId now), []⟩) with drawn := id :: s.drawn }
  | selectRevoked {tokenHash : String} {attempt : ℕ} {now : Time} {t : RefreshToken}
      (running : s.sessions sid = some ⟨tokenHash, .selecting attempt, []⟩)
      (found : s.tokens.find? (·.tokenHash = tokenHash) = some t)
      (user : s.active t.userId = true) (revoked : t.revokedAt.isSome) :
      Step cfg s sid none (s.put sid (some ⟨tokenHash, .recovering attempt t.id t.userId now, []⟩))
  | claim {tokenHash : String} {attempt : ℕ} {presented : Uuid} {now : Time} {new t : RefreshToken}
      (running : s.sessions sid = some ⟨tokenHash, .claiming attempt presented now new, []⟩)
      (free : s.rowFree sid presented) (row : s.tokens.token presented = some t)
      (matched : t.claimable now = true) :
      Step cfg s sid none (s.put sid (some
        ⟨tokenHash, .inserting presented presented new, [t.claimed new.id now]⟩))
  | claimLost {tokenHash : String} {attempt : ℕ} {presented : Uuid} {now : Time}
      {new : RefreshToken}
      (running : s.sessions sid = some ⟨tokenHash, .claiming attempt presented now new, []⟩)
      (missed : ∀ t, s.tokens.token presented = some t → t.claimable now = false) :
      Step cfg s sid none (s.put sid (Session.retry tokenHash attempt))
  | insert {tokenHash : String} {presented parent : Uuid} {new : RefreshToken} {work : Tokens}
      (running : s.sessions sid = some ⟨tokenHash, .inserting presented parent new, work⟩) :
      Step cfg s sid (some (.rotated presented parent new.id new.userId))
        (s.committed sid work [new])
  -- `_locked_user_refresh_tokens`
  | lockStart {tokenHash : String} {attempt : ℕ} {presented userId : Uuid} {now : Time}
      (running : s.sessions sid = some ⟨tokenHash, .recovering attempt presented userId now, []⟩) :
      Step cfg s sid none (s.put sid (some ⟨tokenHash, .locking attempt presented userId now
        (s.tokens.idsWhere (·.userId = userId)) [] [], []⟩))
  | lockRow {tokenHash : String} {attempt : ℕ} {presented userId id : Uuid} {now : Time}
      {todo : List Uuid} {rows byId work : Tokens} {t : RefreshToken}
      (running : s.sessions sid =
        some ⟨tokenHash, .locking attempt presented userId now (id :: todo) rows byId, work⟩)
      (free : s.rowFree sid id) (row : s.tokens.token id = some t) :
      Step cfg s sid none (s.put sid (some ⟨tokenHash, .locking attempt presented userId now todo
        (rows ++ [t]) byId, work ++ [t]⟩))
  | follow {tokenHash : String} {attempt : ℕ} {presented userId : Uuid} {now : Time}
      {rows byId work : Tokens} {linked : List Uuid}
      (running : s.sessions sid =
        some ⟨tokenHash, .locking attempt presented userId now [] rows byId, work⟩)
      (links : linked = s.tokens.linkedIds userId (Tokens.missingIds rows (byId ++ rows)))
      (more : linked ≠ []) :
      Step cfg s sid none (s.put sid (some ⟨tokenHash, .locking attempt presented userId now
        linked []
        (byId ++ rows), work⟩))
  | unrevoked {tokenHash : String} {attempt : ℕ} {presented userId : Uuid} {now : Time}
      {rows byId work : Tokens}
      (running : s.sessions sid =
        some ⟨tokenHash, .locking attempt presented userId now [] rows byId, work⟩)
      (done : s.tokens.linkedIds userId (Tokens.missingIds rows (byId ++ rows)) = [])
      (active : ∀ t, Tokens.token (byId ++ rows) presented = some t → t.revokedAt = none) :
      Step cfg s sid none (s.put sid (Session.retry tokenHash attempt))
  -- the replacement is locked by this call: its claim matches at once
  | recover {tokenHash newHash : String} {attempt : ℕ} {presented userId id : Uuid} {now : Time}
      {rows byId work : Tokens} {t r : RefreshToken}
      (running : s.sessions sid =
        some ⟨tokenHash, .locking attempt presented userId now [] rows byId, work⟩)
      (done : s.tokens.linkedIds userId (Tokens.missingIds rows (byId ++ rows)) = [])
      (row : Tokens.token (byId ++ rows) presented = some t) (revoked : t.revokedAt.isSome)
      (grace : Tokens.graceReplacement cfg (byId ++ rows) t now = some r) (new : id ∉ s.drawn) :
      Step cfg s sid none { s.put sid (some ⟨tokenHash, .inserting presented r.id
          (newRefreshToken cfg id newHash userId now),
          Table.replace RefreshToken.id (r.claimed id now) work⟩) with
        drawn := id :: s.drawn }
  -- every row of the family is locked by this call: the UPDATE and the COMMIT are one step
  | reuse {tokenHash : String} {attempt : ℕ} {presented userId : Uuid} {now : Time}
      {rows byId work : Tokens} {t : RefreshToken}
      (running : s.sessions sid =
        some ⟨tokenHash, .locking attempt presented userId now [] rows byId, work⟩)
      (done : s.tokens.linkedIds userId (Tokens.missingIds rows (byId ++ rows)) = [])
      (row : Tokens.token (byId ++ rows) presented = some t) (revoked : t.revokedAt.isSome)
      (grace : Tokens.graceReplacement cfg (byId ++ rows) t now = none) :
      Step cfg s sid (some (.reused presented)) (s.committed sid (work.map
        (revokeFamily (Tokens.refreshFamilyIds (byId ++ rows) presented) now)) [])
  -- `revoke_user_refresh_tokens`
  | revokeSelect {userId : Uuid} {now : Time} (free : s.sessions sid = none) :
      Step cfg s sid (some (.selected userId)) (s.put sid (some ⟨"", .revoking userId now
        (s.tokens.idsWhere fun t ↦ t.userId = userId && t.revokedAt.isNone), []⟩))
  | revokeRow {tokenHash : String} {userId id : Uuid} {now : Time} {todo : List Uuid}
      {work : Tokens} {t : RefreshToken}
      (running : s.sessions sid = some ⟨tokenHash, .revoking userId now (id :: todo), work⟩)
      (free : s.rowFree sid id) (row : s.tokens.token id = some t) :
      Step cfg s sid none (s.put sid (some
        ⟨tokenHash, .revoking userId now todo, work ++ [t.revoked now]⟩))
  | revokeCommit {tokenHash : String} {userId : Uuid} {now : Time} {work : Tokens}
      (running : s.sessions sid = some ⟨tokenHash, .revoking userId now [], work⟩) :
      Step cfg s sid (some (.ended userId)) (s.committed sid work [])
  -- a lost connection, a deadlock victim
  | abort {ses : Session} (running : s.sessions sid = some ses) : Step cfg s sid none
      (s.put sid none)

def Runs (cfg : Config) : Sys → Sys → Prop :=
  Relation.ReflTransGen fun s s' ↦ ∃ sid event, Step cfg s sid event s'

def Reachable (cfg : Config) (s : Sys) : Prop := ∃ active, Runs cfg (.start active) s

end RiskApp.Auth
