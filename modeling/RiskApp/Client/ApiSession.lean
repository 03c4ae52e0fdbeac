import RiskApp.Auth.Holders

namespace RiskApp.Client

open Auth

/-- `_AuthState`: what the API clients of a device share. -/
structure AuthState where
  token : Option String
  refreshToken : Option String
  lock : Option ℕ := none

inductive Refresh
  | asking (sid : ℕ)
  | answered (raw : String)
  | failed

inductive Request
  | idle
  | building (retryOn401 : Bool)
  | sent (used : String) (retryOn401 : Bool)
  | unauthorized (used : String)
  | waiting (used : String)
  | refreshing (reply : Refresh)

def Request.refresh : Request → Option Refresh
  | .refreshing reply => some reply
  | _ => none

/-- The server and the threads of a device. `issued` are the refresh tokens that the server has
made for the device, `lost` says that its last answer with one was lost, and `reused` that a request
of the device was taken for a reuse. -/
structure ApiSession where
  server : Sys
  auth : AuthState
  requests : ℕ → Request := fun _ ↦ .idle
  issued : List Uuid
  lost : Bool := false
  reused : Bool := false

namespace ApiSession

def put (w : ApiSession) (thread : ℕ) (request : Request) : ApiSession :=
  { w with requests := Function.update w.requests thread request }

/-- `with state.lock`: the lock of `_AuthState` is let go. -/
def release (w : ApiSession) (thread : ℕ) (request : Request) : ApiSession :=
  { w.put thread request with auth := { w.auth with lock := none } }

/-- `_hash_bearer_secret` is a parameter. A step of one thread, of the server for it, or of others
at the server. -/
inductive Step (cfg : Config) (hashBearerSecret : String → String) (user : Uuid) (w : ApiSession) :
    Option Event → ApiSession → Prop
  | start {thread : ℕ} (idle : w.requests thread = .idle) :
      Step cfg hashBearerSecret user w none (w.put thread (.building true))
  -- `_build_request`
  | build {thread : ℕ} {retryOn401 : Bool} {used : String}
      (building : w.requests thread = .building retryOn401) (lock : w.auth.lock = none)
      (token : w.auth.token = some used) (truthy : used ≠ "") :
      Step cfg hashBearerSecret user w none (w.put thread (.sent used retryOn401))
  | notLoggedIn {thread : ℕ} {retryOn401 : Bool}
      (building : w.requests thread = .building retryOn401) (lock : w.auth.lock = none)
      (token : w.auth.token.filter (· ≠ "") = none) :
      Step cfg hashBearerSecret user w none (w.put thread .idle)
  -- any reply, or none
  | done {thread : ℕ} {used : String} {retryOn401 : Bool}
      (sent : w.requests thread = .sent used retryOn401) :
      Step cfg hashBearerSecret user w none (w.put thread .idle)
  | unauthorized {thread : ℕ} {used : String} (sent : w.requests thread = .sent used true) :
      Step cfg hashBearerSecret user w none (w.put thread (.unauthorized used))
  | noRefresh {thread : ℕ} {used : String} (denied : w.requests thread = .unauthorized used)
      (lock : w.auth.lock = none) (missing : w.auth.refreshToken.filter (· ≠ "") = none) :
      Step cfg hashBearerSecret user w none (w.put thread .idle)
  | wait {thread : ℕ} {used : String} (denied : w.requests thread = .unauthorized used)
      (lock : w.auth.lock = none) (refresh : w.auth.refreshToken.filter (· ≠ "") ≠ none) :
      Step cfg hashBearerSecret user w none (w.put thread (.waiting used))
  -- `_refresh_unless_rotated`: another thread has replaced the access token
  | rotatedAlready {thread : ℕ} {used : String} (waiting : w.requests thread = .waiting used)
      (lock : w.auth.lock = none) (token : w.auth.token ≠ some used) :
      Step cfg hashBearerSecret user w none (w.put thread (.building false))
  -- `_refresh_access_token`
  | missingRefresh {thread : ℕ} {used : String} (waiting : w.requests thread = .waiting used)
      (lock : w.auth.lock = none) (token : w.auth.token = some used)
      (missing : w.auth.refreshToken.filter (· ≠ "") = none) :
      Step cfg hashBearerSecret user w none (w.put thread .idle)
  | present {thread sid : ℕ} {used raw : String} {server : Sys}
      (waiting : w.requests thread = .waiting used) (lock : w.auth.lock = none)
      (token : w.auth.token = some used) (refresh : w.auth.refreshToken = some raw)
      (truthy : raw ≠ "") (free : w.server.sessions sid = none)
      (rotate : server = w.server.put sid (some ⟨hashBearerSecret raw, .selecting 0, []⟩)) :
      Step cfg hashBearerSecret user w none { w.put thread (.refreshing (.asking sid)) with
        server := server
        auth := { w.auth with lock := some thread } }
  -- the request does not reach `rotate_refresh_token`
  | unreached {thread : ℕ} {used : String} (waiting : w.requests thread = .waiting used)
      (lock : w.auth.lock = none) :
      Step cfg hashBearerSecret user w none (w.put thread .idle)
  | serve {thread sid : ℕ} {server : Sys} {ses : Session}
      (asking : w.requests thread = .refreshing (.asking sid))
      (step : Auth.Step cfg w.server sid none server) (running : server.sessions sid = some ses)
      (unique : (server.tokens.map RefreshToken.tokenHash).Nodup) :
      Step cfg hashBearerSecret user w none { w with server := server }
  | refuse {thread sid : ℕ} {server : Sys}
      (asking : w.requests thread = .refreshing (.asking sid))
      (step : Auth.Step cfg w.server sid none server) (ended : server.sessions sid = none)
      (unique : (server.tokens.map RefreshToken.tokenHash).Nodup) :
      Step cfg hashBearerSecret user w none
        { w.put thread (.refreshing .failed) with server := server }
  | reuse {thread sid : ℕ} {server : Sys} {presented : Uuid}
      (asking : w.requests thread = .refreshing (.asking sid))
      (step : Auth.Step cfg w.server sid (some (.reused presented)) server)
      (unique : (server.tokens.map RefreshToken.tokenHash).Nodup) :
      Step cfg hashBearerSecret user w (some (.reused presented))
        { w.put thread (.refreshing .failed) with server := server, reused := true }
  | rotate {thread sid : ℕ} {server : Sys} {presented parent child userId : Uuid} {raw : String}
      (asking : w.requests thread = .refreshing (.asking sid))
      (step : Auth.Step cfg w.server sid (some (.rotated presented parent child userId)) server)
      (unique : (server.tokens.map RefreshToken.tokenHash).Nodup)
      (secret : ∀ t ∈ server.tokens, t.id = child → t.tokenHash = hashBearerSecret raw)
      (truthy : raw ≠ "") :
      Step cfg hashBearerSecret user w (some (.rotated presented parent child userId))
        { w.put thread (.refreshing (.answered raw)) with
          server := server
          issued := child :: w.issued }
  | receive {thread : ℕ} {raw access : String}
      (answered : w.requests thread = .refreshing (.answered raw)) (truthy : access ≠ "") :
      Step cfg hashBearerSecret user w none { w.put thread (.building false) with
        auth := { token := some access, refreshToken := some raw, lock := none }
        lost := false }
  -- never two in a row
  | lose {thread : ℕ} {raw : String}
      (answered : w.requests thread = .refreshing (.answered raw)) (first : w.lost = false) :
      Step cfg hashBearerSecret user w none { w.release thread .idle with lost := true }
  | fail {thread : ℕ} (failed : w.requests thread = .refreshing .failed) :
      Step cfg hashBearerSecret user w none (w.release thread .idle)
  -- calls of others, who have none of the tokens of the device; its user keeps the password
  | others {sid : ℕ} {event : Option Event} {server : Sys}
      (other : ∀ thread, w.requests thread ≠ .refreshing (.asking sid))
      (strange : ∀ ses p, w.server.sessions sid = some ses → ses.presented = some p →
        p ∉ w.issued)
      (step : Auth.Step cfg w.server sid event server) (kept : event ≠ some (.ended user))
      (unique : (server.tokens.map RefreshToken.tokenHash).Nodup) :
      Step cfg hashBearerSecret user w none { w with server := server }

def Runs (cfg : Config) (hashBearerSecret : String → String) (user : Uuid) :
    ApiSession → ApiSession → Prop :=
  Relation.ReflTransGen fun w w' ↦ ∃ event, w.Step cfg hashBearerSecret user event w'

def loggedIn (server : Sys) (id : Uuid) (access raw : String) : ApiSession where
  server := server
  auth := { token := some access, refreshToken := some raw }
  issued := [id]

def Refreshes (w : ApiSession) : Option Refresh → Prop
  | none => ∀ thread reply, w.requests thread ≠ .refreshing reply
  | some reply => ∃ thread, w.requests thread = .refreshing reply

/-- The stored refresh token belongs to `t`, and `u` is the end of its family; they differ only
after a lost answer. -/
structure Stands (hashBearerSecret : String → String) (w : ApiSession) (raw : String)
    (t u : RefreshToken) : Prop where
  stored : w.auth.refreshToken = some raw
  exchangeable : Exchangeable w.server.tokens (hashBearerSecret raw) t u
  issued : t.id ∈ w.issued ∧ u.id ∈ w.issued
  same : w.lost = false → t = u

/-- An answer is under way with the token of `n`; if it is lost, `n` replaces the stored token. -/
structure Answered (hashBearerSecret : String → String) (w : ApiSession) (new : String)
    (n : RefreshToken) : Prop where
  mem : n ∈ w.server.tokens
  hash : n.tokenHash = hashBearerSecret new
  live : n.Live
  issued : n.id ∈ w.issued
  replaces : w.lost = false → ∃ raw t, w.auth.refreshToken = some raw ∧ t.id ∈ w.issued ∧
    Exchangeable w.server.tokens (hashBearerSecret raw) t n

def Holds (hashBearerSecret : String → String) (w : ApiSession) : Option Refresh → Prop
  | none | some .failed => ∃ raw t u, w.Stands hashBearerSecret raw t u
  | some (.asking sid) => ∃ raw t u stage work, w.Stands hashBearerSecret raw t u ∧
      w.server.sessions sid = some ⟨hashBearerSecret raw, stage, work⟩ ∧
        Session.Exchanges t u ⟨hashBearerSecret raw, stage, work⟩
  | some (.answered new) => ∃ n, w.Answered hashBearerSecret new n

structure Sound (hashBearerSecret : String → String) (user : Uuid) (w : ApiSession) : Prop where
  inv : Auth.Inv w.server
  unique : (w.server.tokens.map RefreshToken.tokenHash).Nodup
  holder : ∀ thread reply, w.requests thread = .refreshing reply → w.auth.lock = some thread
  kept : w.reused = false → Kept w.server user w.issued
  holds : w.reused = false → ∀ refresh, w.Refreshes refresh → w.Holds hashBearerSecret refresh

section Requests

variable {w : ApiSession} {thread : ℕ} {request : Request} {refresh : Option Refresh}

theorem put_self (w : ApiSession) (thread : ℕ) (request : Request) :
    (w.put thread request).requests thread = request :=
  Function.update_self _ _ _

theorem put_other (w : ApiSession) {thread other : ℕ} (request : Request) (h : other ≠ thread) :
    (w.put thread request).requests other = w.requests other :=
  Function.update_of_ne h _ _

theorem Refreshes.of_put (hold : ∀ reply, w.requests thread ≠ .refreshing reply)
    (hnew : ∀ reply, request ≠ .refreshing reply) (h : (w.put thread request).Refreshes refresh) :
    w.Refreshes refresh := by
  have hiff : ∀ other reply, (w.put thread request).requests other = .refreshing reply ↔
      w.requests other = .refreshing reply := by
    intro other reply
    by_cases hother : other = thread
    · subst hother
      rw [put_self]
      exact iff_of_false (hnew reply) (hold reply)
    · rw [put_other w request hother]
  cases refresh with
  | none => exact fun other reply ho ↦ h other reply ((hiff other reply).mpr ho)
  | some reply =>
    obtain ⟨other, ho⟩ := h
    exact ⟨other, (hiff other reply).mp ho⟩

theorem Refreshes.eq_of_put (hothers : ∀ other reply, w.requests other = .refreshing reply →
    other = thread) (h : (w.put thread request).Refreshes refresh) :
    refresh = request.refresh := by
  have hself := put_self w thread request
  cases refresh with
  | none => cases request <;> first | rfl | exact absurd hself (h thread _)
  | some reply =>
    obtain ⟨other, ho⟩ := h
    obtain rfl : other = thread := by
      by_contra hne
      rw [put_other w request hne] at ho
      exact hne (hothers other reply ho)
    rw [hself] at ho
    subst ho
    rfl

end Requests

section Steps

variable {cfg : Config} {hashBearerSecret : String → String} {user : Uuid} {w w' : ApiSession}

/-- What has the stored token, and leaves the tokens of the device as they are. -/
structure Keeps (w w' : ApiSession) : Prop where
  stored : w'.auth.refreshToken = w.auth.refreshToken
  issued : w'.issued = w.issued
  lost : w'.lost = w.lost
  rows : ∀ t ∈ w.server.tokens, t.id ∈ w.issued → t ∈ w'.server.tokens

theorem Keeps.exchangeable (h : Keeps w w') {tokenHash : String} {t u : RefreshToken}
    (ht : t.id ∈ w.issued) (hu : u.id ∈ w.issued)
    (he : Exchangeable w.server.tokens tokenHash t u) :
    Exchangeable w'.server.tokens tokenHash t u :=
  ⟨h.rows _ he.presented ht, h.rows _ he.tail hu, he.hash, he.leads, he.live⟩

theorem Stands.keeps {raw : String} {t u : RefreshToken} (hs : w.Stands hashBearerSecret raw t u)
    (h : Keeps w w') : w'.Stands hashBearerSecret raw t u := by
  refine ⟨h.stored.trans hs.stored, h.exchangeable hs.issued.1 hs.issued.2 hs.exchangeable, ?_,
    fun hlost ↦ hs.same (h.lost ▸ hlost)⟩
  rw [h.issued]
  exact hs.issued

theorem Holds.keeps {refresh : Option Refresh} (hw : w.Holds hashBearerSecret refresh)
    (h : Keeps w w') (hsessions : ∀ sid, refresh = some (.asking sid) →
      w'.server.sessions sid = w.server.sessions sid) : w'.Holds hashBearerSecret refresh := by
  cases refresh with
  | none =>
    obtain ⟨raw, t, u, hs⟩ := hw
    exact ⟨raw, t, u, hs.keeps h⟩
  | some reply =>
    cases reply with
    | asking sid =>
      obtain ⟨raw, t, u, stage, work, hs, hses, hstage⟩ := hw
      exact ⟨raw, t, u, stage, work, hs.keeps h, (hsessions sid rfl).trans hses, hstage⟩
    | answered new =>
      obtain ⟨n, hn⟩ := hw
      refine ⟨n, h.rows n hn.mem hn.issued, hn.hash, hn.live, h.issued ▸ hn.issued, fun hlost ↦ ?_⟩
      obtain ⟨raw, t, hstored, ht, he⟩ := hn.replaces (h.lost ▸ hlost)
      exact ⟨raw, t, h.stored.trans hstored, h.issued ▸ ht, h.exchangeable ht hn.issued he⟩
    | failed =>
      obtain ⟨raw, t, u, hs⟩ := hw
      exact ⟨raw, t, u, hs.keeps h⟩

theorem Sound.quiet (h : w.Sound hashBearerSecret user) {thread : ℕ} {request : Request}
    (hold : ∀ reply, w.requests thread ≠ .refreshing reply)
    (hnew : ∀ reply, request ≠ .refreshing reply) :
    (w.put thread request).Sound hashBearerSecret user := by
  refine ⟨h.inv, h.unique, fun other reply ho ↦ ?_, h.kept, fun hover refresh hr ↦ ?_⟩
  · by_cases hother : other = thread
    · subst hother
      rw [put_self] at ho
      exact absurd ho (hnew reply)
    · rw [put_other w request hother] at ho
      exact h.holder other reply ho
  · exact (h.holds hover refresh (hr.of_put hold hnew)).keeps ⟨rfl, rfl, rfl, fun _ ht _ ↦ ht⟩
      fun _ _ ↦ rfl

theorem Sound.only (h : w.Sound hashBearerSecret user) {thread : ℕ} {reply : Refresh}
    (hreply : w.requests thread = .refreshing reply) :
    ∀ other reply', w.requests other = .refreshing reply' → other = thread :=
  fun _ _ ho ↦ Option.some.inj ((h.holder _ _ ho).symm.trans (h.holder _ _ hreply))

theorem Sound.free (h : w.Sound hashBearerSecret user) (hlock : w.auth.lock = none) :
    ∀ thread reply, w.requests thread ≠ .refreshing reply :=
  fun thread reply hr ↦ by cases hlock.symm.trans (h.holder thread reply hr)

theorem Sound.exchange (h : w.Sound hashBearerSecret user) (hover : w.reused = false)
    {thread sid : ℕ}
    (hasking : w.requests thread = .refreshing (.asking sid)) {event : Option Event} {server : Sys}
    (hs : Auth.Step cfg w.server sid event server) :
    ∃ raw t u, w.Stands hashBearerSecret raw t u ∧
      Exchanged cfg w.server server sid (hashBearerSecret raw) t u event := by
  obtain ⟨raw, t, u, stage, work, hstands, hses, hstage⟩ :=
    h.holds hover (some (.asking sid)) ⟨thread, hasking⟩
  exact ⟨raw, t, u, hstands, hs.exchange h.inv h.unique hstands.exchangeable hses hstage⟩

theorem Sound.presents (cfg : Config) (h : w.Sound hashBearerSecret user) {thread sid : ℕ}
    {raw : String} {server : Sys} (lock : w.auth.lock = none)
    (refresh : w.auth.refreshToken = some raw)
    (free : w.server.sessions sid = none)
    (rotate : server = w.server.put sid (some ⟨hashBearerSecret raw, .selecting 0, []⟩)) :
    Sound hashBearerSecret user { w.put thread (.refreshing (.asking sid)) with
      server := server
      auth := { w.auth with lock := some thread } } := by
  have hstep : Auth.Step cfg w.server sid none server := rotate ▸ .rotate _ free
  have hfree := h.free lock
  have hothers : ∀ other reply, w.requests other = .refreshing reply → other = thread :=
    fun other reply ho ↦ absurd ho (hfree other reply)
  refine ⟨hstep.inv h.inv, ?_, fun other reply ho ↦ ?_, fun hover ↦ ?_, fun hover refresh' hr ↦ ?_⟩
  · rw [rotate]
    exact h.unique
  · by_cases hother : other = thread
    · rw [hother]
    · exact absurd ((put_other w _ hother).symm.trans ho) (hfree other reply)
  · exact (h.kept hover).unwritten h.inv hstep (by rw [rotate]; rfl)
  · obtain rfl := Refreshes.eq_of_put hothers hr
    obtain ⟨raw', t, u, hs⟩ := h.holds hover none hfree
    obtain rfl : raw = raw' := Option.some.inj (refresh.symm.trans hs.stored)
    exact ⟨raw, t, u, .selecting 0, [],
      hs.keeps ⟨rfl, rfl, rfl, fun t ht _ ↦ by rw [rotate]; exact ht⟩,
      by rw [rotate]; exact Function.update_self _ _ _, trivial⟩

theorem Sound.goesOn (h : w.Sound hashBearerSecret user) {thread : ℕ} {reply : Refresh}
    (hreply : w.requests thread = .refreshing reply) {request : Request}
    (hrequests : w'.requests = (w.put thread request).requests)
    (hinv : Auth.Inv w'.server) (hunique : (w'.server.tokens.map RefreshToken.tokenHash).Nodup)
    (hlock : ∀ reply', request = .refreshing reply' → w'.auth.lock = some thread)
    (hkept : w'.reused = false → Kept w'.server user w'.issued)
    (hholds : w'.reused = false → w'.Holds hashBearerSecret request.refresh) :
    w'.Sound hashBearerSecret user := by
  refine ⟨hinv, hunique, fun other reply' ho ↦ ?_, hkept, fun hover refresh hr ↦ ?_⟩
  · rw [hrequests] at ho
    by_cases hother : other = thread
    · subst hother
      exact hlock reply' ((put_self w other request).symm.trans ho)
    · rw [put_other w request hother] at ho
      exact absurd (h.only hreply other reply' ho) hother
  · have hr' : (w.put thread request).Refreshes refresh := by
      cases refresh with
      | none => exact fun other reply' ho ↦ hr other reply' (hrequests ▸ ho)
      | some reply' =>
        obtain ⟨other, ho⟩ := hr
        exact ⟨other, hrequests ▸ ho⟩
    rw [hr'.eq_of_put (h.only hreply)]
    exact hholds hover

theorem Sound.step (h : w.Sound hashBearerSecret user) {event : Option Event}
    (hs : w.Step cfg hashBearerSecret user event w') : w'.Sound hashBearerSecret user := by
  have hbusy : ∀ {thread : ℕ} {request : Request}, w.requests thread = request →
      request.refresh = none → ∀ reply, w.requests thread ≠ .refreshing reply := by
    intro thread request hrequest hnone reply hr
    rw [← hrequest, hr] at hnone
    cases hnone
  cases hs with
  | start idle => exact h.quiet (hbusy idle rfl) fun _ ↦ Request.noConfusion
  | build building => exact h.quiet (hbusy building rfl) fun _ ↦ Request.noConfusion
  | notLoggedIn building => exact h.quiet (hbusy building rfl) fun _ ↦ Request.noConfusion
  | done sent => exact h.quiet (hbusy sent rfl) fun _ ↦ Request.noConfusion
  | unauthorized sent => exact h.quiet (hbusy sent rfl) fun _ ↦ Request.noConfusion
  | noRefresh denied => exact h.quiet (hbusy denied rfl) fun _ ↦ Request.noConfusion
  | wait denied => exact h.quiet (hbusy denied rfl) fun _ ↦ Request.noConfusion
  | rotatedAlready waiting => exact h.quiet (hbusy waiting rfl) fun _ ↦ Request.noConfusion
  | missingRefresh waiting => exact h.quiet (hbusy waiting rfl) fun _ ↦ Request.noConfusion
  | unreached waiting => exact h.quiet (hbusy waiting rfl) fun _ ↦ Request.noConfusion
  | present waiting lock token refresh truthy free rotate =>
    exact h.presents cfg lock refresh free rotate
  | @serve thread sid server ses asking step running unique =>
    have hsame : w.requests = (w.put thread (.refreshing (.asking sid))).requests := by
      rw [put, ← asking, Function.update_eq_self]
    refine h.goesOn asking hsame (step.inv h.inv) unique (fun _ _ ↦ h.holder _ _ asking)
      (fun hover ↦ ?_) fun hover ↦ ?_ <;> obtain ⟨raw, t, u, hstands, he⟩ :=
      h.exchange hover asking step
    · cases he with
      | running htokens | refused htokens =>
        exact (h.kept hover).unwritten h.inv step htokens
    · cases he with
      | @running stage work htokens session exchanges =>
        exact ⟨raw, t, u, stage, work,
          hstands.keeps ⟨rfl, rfl, rfl, fun _ ht _ ↦ htokens ▸ ht⟩, session, exchanges⟩
      | refused htokens session => cases session.symm.trans running
  | refuse asking step ended unique =>
    refine h.goesOn asking rfl (step.inv h.inv) unique (fun _ _ ↦ h.holder _ _ asking)
      (fun hover ↦ ?_) fun hover ↦ ?_ <;> obtain ⟨raw, t, u, hstands, he⟩ :=
      h.exchange hover asking step
    · cases he with
      | running htokens | refused htokens =>
        exact (h.kept hover).unwritten h.inv step htokens
    · cases he with
      | running htokens | refused htokens =>
        exact ⟨raw, t, u, hstands.keeps ⟨rfl, rfl, rfl, fun _ ht _ ↦ htokens ▸ ht⟩⟩
  | reuse asking step unique =>
    exact h.goesOn asking rfl (step.inv h.inv) unique (fun _ _ ↦ h.holder _ _ asking)
      (fun hover ↦ by cases hover) fun hover ↦ by cases hover
  | rotate asking step unique secret truthy =>
    refine h.goesOn asking rfl (step.inv h.inv) unique (fun _ _ ↦ h.holder _ _ asking)
      (fun hover ↦ ?_) fun hover ↦ ?_ <;> obtain ⟨raw, t, u, hstands, he⟩ :=
      h.exchange hover asking step <;> cases he with
      | @rotated n u' session new live user claimed same replaced => ?_
    · have hkept := h.kept hover
      obtain ⟨v, hv, hvid, huser⟩ := hkept.known u.id hstands.issued.2
      obtain rfl := h.inv.chains.eq_of_id hv hstands.exchangeable.tail hvid
      exact hkept.rotated h.inv step hstands.issued.2 new rfl (user.trans huser)
    · obtain ⟨hid, hhash, hrevoked⟩ := same
      refine ⟨n, new, secret n new rfl, live, List.mem_cons_self, fun hlost ↦ ⟨raw, u',
        hstands.stored, hid ▸ List.mem_cons_of_mem _ hstands.issued.2, claimed, new, ?_,
        Or.inr ⟨hrevoked, replaced⟩, live⟩⟩
      rw [hhash, ← hstands.same hlost]
      exact hstands.exchangeable.hash
  | receive answered truthy =>
    refine h.goesOn answered rfl h.inv h.unique (fun _ hr ↦ by cases hr) h.kept fun hover ↦ ?_
    obtain ⟨n, hn⟩ := h.holds hover (some (.answered _)) ⟨_, answered⟩
    exact ⟨_, n, n, rfl, ⟨hn.mem, hn.mem, hn.hash, Or.inl rfl, hn.live⟩, ⟨hn.issued, hn.issued⟩,
      fun _ ↦ rfl⟩
  | lose answered first =>
    refine h.goesOn answered rfl h.inv h.unique (fun _ hr ↦ by cases hr) h.kept fun hover ↦ ?_
    obtain ⟨n, hn⟩ := h.holds hover (some (.answered _)) ⟨_, answered⟩
    obtain ⟨raw, t, hstored, ht, he⟩ := hn.replaces first
    exact ⟨raw, t, n, hstored, he, ⟨ht, hn.issued⟩, fun hlost ↦ by cases hlost⟩
  | fail failed =>
    refine h.goesOn failed rfl h.inv h.unique (fun _ hr ↦ by cases hr) h.kept fun hover ↦ ?_
    obtain ⟨raw, t, u, hs⟩ := h.holds hover (some .failed) ⟨_, failed⟩
    exact ⟨raw, t, u, hs.keeps ⟨rfl, rfl, rfl, fun _ ht _ ↦ ht⟩⟩
  | others other strange step kept unique =>
    have hspares := fun hover ↦ (h.kept hover).step h.inv step
      ((h.kept hover).spares h.inv step strange kept)
    refine ⟨step.inv h.inv, unique, h.holder, fun hover ↦ (hspares hover).1,
      fun hover refresh hr ↦ ?_⟩
    have hr' : w.Refreshes refresh := by
      cases refresh with
      | none => exact hr
      | some reply => exact hr
    refine (h.holds hover refresh hr').keeps ⟨rfl, rfl, rfl, (hspares hover).2⟩ fun sid' heq ↦ ?_
    subst heq
    obtain ⟨thread, hasking⟩ := hr'
    exact step.elsewhere fun hsid ↦ other thread (hsid ▸ hasking)

theorem Runs.sound (hr : Runs cfg hashBearerSecret user w w')
    (h : w.Sound hashBearerSecret user) : w'.Sound hashBearerSecret user := by
  induction hr with
  | refl => exact h
  | tail _ hs ih =>
    obtain ⟨event, hs⟩ := hs
    exact ih.step hs

theorem sound_loggedIn {s s' : Sys} {sid : ℕ} {id : Uuid} {access raw : String}
    (hinv : Auth.Inv s) (login : Auth.Step cfg s sid (some (.issued id user)) s')
    (hunique : (s'.tokens.map RefreshToken.tokenHash).Nodup)
    (hsecret : ∀ t ∈ s'.tokens, t.id = id → t.tokenHash = hashBearerSecret raw) :
    (loggedIn s' id access raw).Sound hashBearerSecret user := by
  have hinv' := login.inv hinv
  cases login with
  | @issue _ _ tokenHash now free new =>
    have hid : id ∉ s.tokens.ids := fun hin ↦ new (hinv.drawn _ hin)
    have hmem : newRefreshToken cfg id tokenHash user now ∈
        s.tokens ++ [newRefreshToken cfg id tokenHash user now] :=
      List.mem_append_right _ (List.mem_singleton_self _)
    have hlive : (newRefreshToken cfg id tokenHash user now).Live := ⟨rfl, rfl⟩
    refine ⟨hinv', hunique, fun _ _ hr ↦ Request.noConfusion hr, fun _ ↦ ⟨fun x hx ↦ ?_,
      fun a b hl ↦ ?_,
      fun j h u n todo work hses _ x hx hin ↦ ?_⟩, fun _ refresh hr ↦ ?_⟩
    · obtain rfl := List.mem_singleton.mp hx
      exact ⟨_, hmem, rfl, rfl⟩
    · obtain ⟨t, ht, rfl, hb⟩ := hl
      rcases List.mem_append.mp ht with ht | ht
      · obtain ⟨ha, hb⟩ := hinv.chains.mem_of_links ⟨t, ht, rfl, hb⟩
        refine iff_of_false (fun hin ↦ ?_) fun hin ↦ ?_
        · exact hid (List.mem_singleton.mp hin ▸ ha)
        · exact hid (List.mem_singleton.mp hin ▸ hb)
      · rw [List.mem_singleton.mp ht] at hb
        cases hb
    · obtain rfl := List.mem_singleton.mp hin
      exact hid (hinv.revoking_ids hses _ hx)
    · cases refresh with
      | some reply =>
        obtain ⟨thread, hr⟩ := hr
        cases hr
      | none =>
        exact ⟨raw, _, _, rfl, ⟨hmem, hmem, hsecret _ hmem rfl, Or.inl rfl, hlive⟩,
          ⟨List.mem_singleton_self _, List.mem_singleton_self _⟩, fun _ ↦ rfl⟩

end Steps

end ApiSession

/-- The threads of a device never lose its session to each other: they refresh one at a time, and
the stored token can be exchanged unless an answer was lost. A request of theirs is taken for a
reuse only after a lost answer, when the grace period or the replacement is over. -/
theorem device_session_outlives_lost_answer (cfg : Config) (hashBearerSecret : String → String)
    {user id : Uuid} {s s' : Sys} {sid : ℕ} (hs : Reachable cfg s)
    (login : Auth.Step cfg s sid (some (.issued id user)) s')
    (hunique : (s'.tokens.map RefreshToken.tokenHash).Nodup) {access raw : String}
    (hsecret : ∀ t ∈ s'.tokens, t.id = id → t.tokenHash = hashBearerSecret raw) {w : ApiSession}
    (h : ApiSession.Runs cfg hashBearerSecret user (.loggedIn s' id access raw) w) :
    (∀ thread thread' reply reply', w.requests thread = .refreshing reply →
      w.requests thread' = .refreshing reply' → thread = thread') ∧
    (w.reused = false → (∀ thread reply, w.requests thread ≠ .refreshing reply) →
      ∃ stored t u, w.auth.refreshToken = some stored ∧
        Exchangeable w.server.tokens (hashBearerSecret stored) t u ∧ (w.lost = false → t = u)) ∧
    (w.reused = false → ∀ presented w',
      w.Step cfg hashBearerSecret user (some (.reused presented)) w' →
      w.lost = true ∧ ∃ thread sid t u, w.requests thread = .refreshing (.asking sid) ∧
        t.id = presented ∧ t.LeadsTo u ∧ u.Live ∧ TooLate cfg w.server sid t u) := by
  have hsound := h.sound (ApiSession.sound_loggedIn hs.inv login hunique hsecret)
  refine ⟨fun thread thread' _ _ ht ht' ↦ hsound.only ht' thread _ ht, fun hover hfree ↦ ?_,
    fun hover presented w' hstep ↦ ?_⟩
  · obtain ⟨stored, t, u, hstands⟩ := hsound.holds hover none hfree
    exact ⟨stored, t, u, hstands.stored, hstands.exchangeable, hstands.same⟩
  · cases hstep with
    | reuse asking step unique =>
      obtain ⟨stored, t, u, hstands, he⟩ := hsound.exchange hover asking step
      cases he with
      | reused session late =>
        obtain ⟨hrevoked, hlate⟩ := late
        refine ⟨?_, _, _, t, u, asking, rfl, hstands.exchangeable.leads, hstands.exchangeable.live,
          hlate⟩
        refine Bool.eq_true_of_not_eq_false fun hlost ↦ ?_
        rw [hstands.same hlost, hstands.exchangeable.live.1] at hrevoked
        cases hrevoked

/-- Token 1 is exchanged for token 2, whose answer is lost: token 1 can still be exchanged. -/
theorem device_session_outlives_lost_answer_sample : ∃ w : ApiSession,
    ApiSession.Runs sampleConfig id 7 (.loggedIn sampleLogin 1 "t" "a") w ∧ w.lost = true ∧
    ∃ t u, w.auth.refreshToken = some "a" ∧ Exchangeable w.server.tokens "a" t u ∧ t ≠ u := by
  have hs : Reachable sampleConfig (.start fun _ ↦ true) := ⟨_, .refl⟩
  have login : Auth.Step sampleConfig (.start fun _ ↦ true) 0 (some (.issued 1 7)) sampleLogin :=
    @Auth.Step.issue sampleConfig _ 0 1 7 "a" 0 rfl (by decide)
  have h₀ : ApiSession.Runs sampleConfig id 7 (.loggedIn sampleLogin 1 "t" "a")
    (.loggedIn sampleLogin 1 "t" "a") := .refl
  have h₁ := h₀.tail ⟨_, @ApiSession.Step.start _ _ _ _ 0 rfl⟩
  have h₂ := h₁.tail ⟨_, @ApiSession.Step.build _ _ _ _ 0 true "t" rfl rfl rfl (by decide)⟩
  have h₃ := h₂.tail ⟨_, @ApiSession.Step.unauthorized _ _ _ _ 0 "t" rfl⟩
  have h₄ := h₃.tail ⟨_, @ApiSession.Step.wait _ _ _ _ 0 "t" rfl rfl (by decide)⟩
  have h₅ := h₄.tail ⟨_, @ApiSession.Step.present _ _ _ _ 0 0 "t" "a" _ rfl rfl rfl rfl (by decide)
    rfl rfl⟩
  have h₆ := h₅.tail ⟨_, @ApiSession.Step.serve _ _ _ _ 0 0 _ _ rfl
    (@Auth.Step.select _ _ 0 "a" "b" 0 5 2 _ rfl rfl rfl rfl (by decide) (by decide)) rfl
    (by decide)⟩
  have h₇ := h₆.tail ⟨_, @ApiSession.Step.serve _ _ _ _ 0 0 _ _ rfl
    (@Auth.Step.claim _ _ 0 "a" 0 1 5 _ _ rfl
      (Sys.rowFree_alone (fun j hj ↦ by
        simp [Sys.put, sampleLogin, ApiSession.loggedIn, ApiSession.put, hj]) 1) rfl
      (by decide)) rfl (by decide)⟩
  have h₈ := h₇.tail ⟨_, @ApiSession.Step.rotate _ _ _ _ 0 0 _ _ _ _ _ "b" rfl
    (@Auth.Step.insert _ _ 0 "a" 1 1 _ _ rfl) (by decide) (by decide) (by decide)⟩
  have h₉ := h₈.tail ⟨_, @ApiSession.Step.lose _ _ _ _ 0 "b" rfl rfl⟩
  obtain ⟨-, hstands, -⟩ := device_session_outlives_lost_answer sampleConfig id hs login (by decide)
    (by decide) h₉
  obtain ⟨stored, t, u, hstored, he, -⟩ := hstands rfl fun thread reply ht ↦ by
    simp [ApiSession.release, ApiSession.put, ApiSession.loggedIn] at ht
  cases hstored
  have hrevoked : ∀ x ∈ [(newRefreshToken sampleConfig 1 "a" 7 0).claimed 2 5,
      newRefreshToken sampleConfig 2 "b" 7 5], x.tokenHash = "a" → x.revokedAt ≠ none := by decide
  exact ⟨_, h₉, rfl, t, u, rfl, he, fun heq ↦ hrevoked t he.presented he.hash (heq ▸ he.live.1)⟩

end RiskApp.Client
