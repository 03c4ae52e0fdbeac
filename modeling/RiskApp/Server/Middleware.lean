import Mathlib.Data.List.Basic
import RiskApp.Lib.Proc
import RiskApp.Text

namespace RiskApp.Server.Middleware

open Lib

abbrev Bytes := List UInt8

abbrev Headers := List (Bytes × Bytes)

def encode (s : List Char) : Bytes := s.map fun c ↦ UInt8.ofNat c.toNat

def decode (raw : Bytes) : List Char := raw.map fun b ↦ Char.ofNat b.toNat

def lowerBytes (raw : Bytes) : Bytes := raw.map fun b ↦ if 65 ≤ b && b ≤ 90 then b + 32 else b

def values (key : Bytes) (headers : Headers) : List Bytes :=
  (headers.filter fun h ↦ h.1 = key).map fun h ↦ h.2

structure Scope where
  type : String
  method : String
  path : String
  headers : Headers
  /-- `request.url.scheme`. -/
  scheme : List Char
  /-- `scope["state"]["request_id"]`. -/
  requestId : Option (List Char)

inductive Request
  | body (content : Bytes) (more : Bool)
  | other (type : String)

inductive Message
  | start (status : ℕ) (headers : Headers)
  | body (content : Bytes) (more : Bool)
  | other (type : String)

structure LogRecord where
  message : String
  httpMethod : String
  httpPath : String
  httpStatus : ℕ

inductive Effect
  | message (m : Message)
  | log (record : LogRecord)

/-- What an application raises; a cancellation is no `Exception`. -/
inductive Raised (ε : Type)
  | requestBodyTooLarge
  | exception (error : ε)
  | cancelled

variable {ε : Type}

abbrev ASGIApp (ε : Type) := Scope → Proc Request Effect (Raised ε)

abbrev Seen (ε : Type) := List (Exchange Request Effect (Raised ε))

/-- What the middleware uses of Starlette: `MutableHeaders` and the JSON response of a detail. -/
structure Starlette where
  setItem : Headers → List Char → List Char → Headers
  setDefault : Headers → List Char → List Char → Headers
  json : List Char → Headers × Bytes
  values_setItem : ∀ hs name value key, values key (setItem hs name value) =
    if key = encode (Text.lower name) then [encode value] else values key hs
  values_setDefault : ∀ hs name value key, values key (setDefault hs name value) =
    if key = encode (Text.lower name) ∧ values key hs = [] then [encode value] else values key hs

def setFirst (key value : Bytes) : Headers → Headers
  | [] => [(key, value)]
  | h :: hs => if h.1 = key then (key, value) :: hs.filter (fun h ↦ h.1 ≠ key)
    else h :: setFirst key value hs

theorem values_cons (key : Bytes) (h : Bytes × Bytes) (hs : Headers) :
    values key (h :: hs) = if h.1 = key then h.2 :: values key hs else values key hs := by
  by_cases hkey : h.1 = key <;> simp [values, hkey]

theorem values_filter (key key' : Bytes) (hs : Headers) :
    values key' (hs.filter fun h ↦ h.1 ≠ key) = if key' = key then [] else values key' hs := by
  induction hs with
  | nil => simp [values]
  | cons h hs ih =>
    by_cases hh : h.1 = key
    · rw [List.filter_cons_of_neg (by simp [hh]), ih, values_cons]
      by_cases hkey : key' = key
      · rw [if_pos hkey, if_pos hkey]
      · rw [if_neg hkey, if_neg hkey, if_neg fun h ↦ hkey (h.symm.trans hh)]
    · rw [List.filter_cons_of_pos (by simp [hh]), values_cons, ih, values_cons]
      by_cases hkey : key' = key
      · rw [if_pos hkey, if_pos hkey, if_neg fun h ↦ hh (h.trans hkey)]
      · rw [if_neg hkey, if_neg hkey]

theorem values_setFirst (key value : Bytes) (hs : Headers) (key' : Bytes) :
    values key' (setFirst key value hs) = if key' = key then [value] else values key' hs := by
  induction hs with
  | nil =>
    rw [setFirst, values_cons]
    by_cases hkey : key' = key
    · rw [if_pos hkey.symm, if_pos hkey]
      rfl
    · rw [if_neg fun h ↦ hkey h.symm, if_neg hkey]
  | cons h hs ih =>
    rw [setFirst]
    by_cases hh : h.1 = key
    · rw [if_pos hh, values_cons, values_filter, values_cons]
      by_cases hkey : key' = key
      · rw [if_pos hkey.symm, if_pos hkey, if_pos hkey]
      · rw [if_neg fun h ↦ hkey h.symm, if_neg hkey, if_neg hkey,
          if_neg fun h ↦ hkey (h.symm.trans hh)]
    · rw [if_neg hh, values_cons, ih, values_cons]
      by_cases hkey : key' = key
      · rw [if_pos hkey, if_pos hkey, if_neg fun h ↦ hh (h.trans hkey)]
      · rw [if_neg hkey, if_neg hkey]

def starlette : Starlette where
  setItem hs name value := setFirst (encode (Text.lower name)) (encode value) hs
  setDefault hs name value :=
    if values (encode (Text.lower name)) hs = [] then
      hs ++ [(encode (Text.lower name), encode value)]
    else hs
  json detail :=
    let body := encode ("\x7b\"detail\":\"".toList ++ detail ++ "\"\x7d".toList)
    ([(encode "content-length".toList, encode (Nat.toDigits 10 body.length)),
      (encode "content-type".toList, encode "application/json".toList)], body)
  values_setItem hs name value key := values_setFirst _ _ hs key
  values_setDefault hs name value key := by
    by_cases hnone : values (encode (Text.lower name)) hs = []
    · rw [if_pos hnone]
      by_cases hkey : key = encode (Text.lower name)
      · subst hkey
        rw [if_pos ⟨rfl, hnone⟩]
        simp only [values, List.filter_append, List.map_append] at hnone ⊢
        rw [hnone]
        simp
      · rw [if_neg fun h ↦ hkey h.1]
        simp [values, Ne.symm hkey]
    · rw [if_neg hnone, if_neg]
      rintro ⟨rfl, h⟩
      exact hnone h

variable (lib : Starlette)

def rejection (status : ℕ) (detail : List Char) : List Effect :=
  [.message (.start status (lib.json detail).1), .message (.body (lib.json detail).2 false)]

def isByteSpace (b : UInt8) : Bool := b = 32 || (9 ≤ b && b ≤ 13)

/-- `int` on bytes; more than 4300 digits raise a ValueError. -/
def intOfBytes (raw : Bytes) : Option ℤ :=
  if 4300 < (raw.filter fun b ↦ 48 ≤ b && b ≤ 57).length then none
  else
    match decode (((raw.dropWhile isByteSpace).reverse.dropWhile isByteSpace).reverse) with
    | '-' :: rest => (Text.digitGroups false 0 rest).map fun n ↦ -(n : ℤ)
    | '+' :: rest => (Text.digitGroups false 0 rest).map fun n ↦ (n : ℤ)
    | rest => (Text.digitGroups false 0 rest).map fun n ↦ (n : ℤ)

def tooLarge (maxBytes : ℕ) : List Char :=
  "Request body too large (max ".toList ++ Nat.toDigits 10 maxBytes ++ " bytes)".toList

/-- The answer to a declared length that is refused. Of several headers the last one counts. -/
def declaredError (maxBytes : ℕ) (headers : Headers) : Option (ℕ × List Char) :=
  match (values (encode "content-length".toList) headers).getLast? with
  | none => none
  | some rawLength =>
    match intOfBytes rawLength with
    | none => some (400, "Invalid Content-Length".toList)
    | some declaredLength =>
      if declaredLength < 0 then some (400, "Invalid Content-Length".toList)
      else if (maxBytes : ℤ) < declaredLength then some (413, tooLarge maxBytes)
      else none

structure LimitState where
  received : ℕ
  responseStarted : Bool

/-- `limited_receive`, `tracking_send` and the handler. -/
def limiting (maxBytes : ℕ) : Wrapper LimitState Request Effect (Raised ε) where
  start := ⟨0, false⟩
  onReceive st
    | .body content more =>
      (⟨st.received + content.length, st.responseStarted⟩,
        if maxBytes < st.received + content.length then .error .requestBodyTooLarge
        else .ok (.body content more))
    | .other type => (st, .ok (.other type))
  onSend st
    | .message (.start status headers) =>
      (⟨st.received, true⟩, .message (.start status headers))
    | effect => (st, effect)
  onEnd st
    | some .requestBodyTooLarge =>
      if st.responseStarted then .done (some .requestBodyTooLarge)
      else .sending (rejection lib 413 (tooLarge maxBytes))
    | result => .done result

def requestBodyLimit (maxBytes : ℕ) (app : ASGIApp ε) : ASGIApp ε := fun scope ↦
  if scope.type ≠ "http" then app scope
  else
    match declaredError maxBytes scope.headers with
    | some (status, detail) => .sending (rejection lib status detail)
    | none => (limiting lib maxBytes).wrap (app scope)

def defending : Wrapper Unit Request Effect (Raised ε) where
  start := ()
  onReceive st message := (st, .ok message)
  onSend st
    | .message (.start status headers) =>
      let headers := lib.setDefault headers "X-Content-Type-Options".toList "nosniff".toList
      let headers := lib.setDefault headers "X-Frame-Options".toList "DENY".toList
      let headers := lib.setDefault headers "Referrer-Policy".toList "no-referrer".toList
      let headers := lib.setDefault headers "Cache-Control".toList "no-store".toList
      (st, .message (.start status headers))
    | effect => (st, effect)
  onEnd _ result := .done result

def securityHeaders (app : ASGIApp ε) : ASGIApp ε := fun scope ↦
  if scope.type ≠ "http" then app scope else (defending lib).wrap (app scope)

def isRequestId : List Char → Bool
  | [] => false
  | c :: rest => c.isAlphanum && rest.length ≤ 127 &&
    rest.all fun c ↦ c.isAlphanum || c = '.' || c = '_' || c = '-'

/-- `_request_id_from_scope`, with the text of a new UUID. -/
def requestIdFromScope (fresh : List Char) (headers : Headers) : List Char :=
  match headers.find? fun h ↦ lowerBytes h.1 = encode "x-request-id".toList with
  | none => fresh
  | some (_, value) =>
    if value.all (· < 128) && isRequestId (decode value) then decode value else fresh

/-- `add_request_id` and the log of the request's end. -/
def correlating (scope : Scope) (correlationId : List Char) :
    Wrapper ℕ Request Effect (Raised ε) where
  start := 500
  onReceive statusCode message := (statusCode, .ok message)
  onSend statusCode
    | .message (.start status headers) =>
      (status, .message (.start status (lib.setItem headers "X-Request-ID".toList correlationId)))
    | effect => (statusCode, effect)
  onEnd statusCode
    | none => .noting (.log ⟨"HTTP request completed", scope.method, scope.path, statusCode⟩) none
    | some .cancelled => .done (some .cancelled)
    | some error =>
      .noting (.log ⟨"HTTP request failed", scope.method, scope.path, statusCode⟩) (some error)

def requestCorrelation (fresh : List Char) (app : ASGIApp ε) : ASGIApp ε := fun scope ↦
  if scope.type ≠ "http" then app scope
  else
    let correlationId := requestIdFromScope fresh scope.headers
    (correlating lib scope correlationId).wrap (app { scope with requestId := some correlationId })

/-- The scheme `HttpsOnlyMiddleware.dispatch` goes by. -/
def requestScheme (trustForwarded : Bool) (scope : Scope) : List Char :=
  match (values (encode "x-forwarded-proto".toList) scope.headers).head? with
  | some xf =>
    if trustForwarded && !xf.isEmpty then
      Text.lower (Text.strip (Text.splitOnce ',' (decode xf)).1)
    else scope.scheme
  | none => scope.scheme

/-- `HttpsOnlyMiddleware`, where `callNext` is how the base class runs the application. -/
def httpsOnly (enforceHttps trustForwarded : Bool) (callNext : ASGIApp ε → ASGIApp ε)
    (app : ASGIApp ε) : ASGIApp ε := fun scope ↦
  if scope.type ≠ "http" then app scope
  else if !enforceHttps then callNext app scope
  else if requestScheme trustForwarded scope ≠ "https".toList then
    .sending (rejection lib 400 "HTTPS required".toList)
  else callNext app scope

/-- The settings of the stack, with the middleware of other packages that is installed. -/
structure Stack (ε : Type) where
  maxBytes : ℕ
  enforceHttps : Bool
  trustForwarded : Bool
  callNext : ASGIApp ε → ASGIApp ε
  cors : Option (ASGIApp ε → ASGIApp ε)
  gzip : Option (ASGIApp ε → ASGIApp ε)
  trustedHost : Option (ASGIApp ε → ASGIApp ε)

/-- The middleware `create_app` adds first, the very first innermost. -/
def Stack.inner (stack : Stack ε) (router : ASGIApp ε) : ASGIApp ε :=
  let app := requestBodyLimit lib stack.maxBytes router
  let app := httpsOnly lib stack.enforceHttps stack.trustForwarded stack.callNext app
  let app := stack.cors.getD id app
  let app := stack.gzip.getD id app
  stack.trustedHost.getD id app

/-- The middleware of `create_app`. Left out is its handler of `Exception`: the 500 after a failure
that passes all of this is sent outside of it, without the defensive headers. -/
def createApp (stack : Stack ε) (fresh : List Char) (router : ASGIApp ε) : ASGIApp ε :=
  requestCorrelation lib fresh (securityHeaders lib (stack.inner lib router))

/-- What the application receives when the total passes the limit: the exception. -/
def cut (maxBytes : ℕ) : ℕ → Seen ε → Seen ε
  | _, [] => []
  | n, .received (.ok (.body content more)) :: es =>
    .received (if maxBytes < n + content.length then .error .requestBodyTooLarge
      else .ok (.body content more)) :: cut maxBytes (n + content.length) es
  | n, .received (.ok (.other type)) :: es => .received (.ok (.other type)) :: cut maxBytes n es
  | n, .received (.error error) :: es => .received (.error error) :: cut maxBytes n es
  | n, .sent output failure :: es => .sent output failure :: cut maxBytes n es

def bodyBytes : Seen ε → ℕ
  | [] => 0
  | .received (.ok (.body content _)) :: es => content.length + bodyBytes es
  | _ :: es => bodyBytes es

def responseStarts : Seen ε → ℕ
  | [] => 0
  | .sent (.message (.start _ _)) _ :: es => responseStarts es + 1
  | _ :: es => responseStarts es

theorem bodyBytes_cut_past {maxBytes : ℕ} (es : Seen ε) (n : ℕ) (hn : maxBytes < n) :
    bodyBytes (cut maxBytes n es) = 0 := by
  induction es generalizing n with
  | nil => rfl
  | cons e es ih =>
    rcases e with (error | ⟨content, more⟩ | type) | ⟨output, failure⟩
    · exact ih n hn
    · simp only [cut]
      rw [if_pos (by omega)]
      exact ih _ (by omega)
    · exact ih n hn
    · exact ih n hn

theorem bodyBytes_cut {maxBytes : ℕ} (es : Seen ε) (n : ℕ) (hn : n ≤ maxBytes) :
    n + bodyBytes (cut maxBytes n es) ≤ maxBytes := by
  induction es generalizing n with
  | nil => exact hn
  | cons e es ih =>
    rcases e with (error | ⟨content, more⟩ | type) | ⟨output, failure⟩
    · exact ih n hn
    · simp only [cut]
      by_cases hpast : maxBytes < n + content.length
      · rw [if_pos hpast]
        simpa only [bodyBytes, bodyBytes_cut_past es _ hpast, Nat.add_zero] using hn
      · rw [if_neg hpast]
        have hrest := ih (n + content.length) (by omega)
        simp only [bodyBytes]
        omega
    · exact ih n hn
    · exact ih n hn

theorem cut_of_bodyBytes {maxBytes : ℕ} (es : Seen ε) (n : ℕ)
    (h : n + bodyBytes es ≤ maxBytes) : cut maxBytes n es = es := by
  induction es generalizing n with
  | nil => rfl
  | cons e es ih =>
    rcases e with (error | ⟨content, more⟩ | type) | ⟨output, failure⟩
    · simp only [cut, bodyBytes] at h ⊢
      rw [ih n h]
    · simp only [bodyBytes] at h
      simp only [cut]
      rw [if_neg (by omega), ih _ (by omega)]
    · simp only [cut, bodyBytes] at h ⊢
      rw [ih n h]
    · simp only [cut, bodyBytes] at h ⊢
      rw [ih n h]

theorem responseStarts_cut (maxBytes : ℕ) (es : Seen ε) (n : ℕ) :
    responseStarts (cut maxBytes n es) = responseStarts es := by
  induction es generalizing n with
  | nil => rfl
  | cons e es ih =>
    rcases e with (error | ⟨content, more⟩ | type) | ⟨⟨⟨status, headers⟩ | _ | _⟩ | record, failure⟩
    all_goals simp only [cut, responseStarts, ih]

theorem responseStarts_append (es es' : Seen ε) :
    responseStarts (es ++ es') = responseStarts es + responseStarts es' := by
  induction es with
  | nil => simp [responseStarts]
  | cons e es ih =>
    rcases e with a | ⟨⟨⟨status, headers⟩ | _ | _⟩ | record, failure⟩
    all_goals simp only [List.cons_append, responseStarts, ih]
    omega

variable {lib} {maxBytes : ℕ}

def LimitState.after (st : LimitState) (es : Seen ε) : LimitState :=
  ⟨st.received + bodyBytes es, st.responseStarted || responseStarts es != 0⟩

def isStart : Effect → Bool
  | .message (.start _ _) => true
  | _ => false

def LimitState.sending (st : LimitState) (output : Effect) : LimitState :=
  ⟨st.received, st.responseStarted || isStart output⟩

theorem limiting_onSend (st : LimitState) (output : Effect) :
    (limiting lib maxBytes : Wrapper LimitState Request Effect (Raised ε)).onSend st output =
      (st.sending output, output) := by
  rcases output with ⟨⟨status, headers⟩ | _ | _⟩ | record <;>
    simp [limiting, LimitState.sending, isStart]

theorem LimitState.after_sent (st : LimitState) (output : Effect) (failure : Option (Raised ε))
    (es : Seen ε) : st.after (.sent output failure :: es) = (st.sending output).after es := by
  rcases output with ⟨⟨status, headers⟩ | _ | _⟩ | record <;>
    simp [LimitState.after, LimitState.sending, isStart, bodyBytes, responseStarts]

theorem LimitState.after_received (st : LimitState) (a : Except (Raised ε) Request)
    (es : Seen ε) : st.after (.received a :: es) =
      ((limiting lib maxBytes).answer st a).1.after es := by
  rcases a with error | ⟨content, more⟩ | type <;>
    simp [limiting, Wrapper.answer, LimitState.after, bodyBytes, responseStarts, Nat.add_assoc]

theorem cut_received (st : LimitState) (a : Except (Raised ε) Request) (es : Seen ε) :
    cut maxBytes st.received (.received a :: es) =
      .received ((limiting lib maxBytes).answer st a).2 ::
        cut maxBytes ((limiting lib maxBytes).answer st a).1.received es := by
  rcases a with error | ⟨content, more⟩ | type <;> rfl

theorem cut_sent (st : LimitState) (output : Effect) (failure : Option (Raised ε))
    (es : Seen ε) : cut maxBytes st.received (.sent output failure :: es) =
      .sent output failure :: cut maxBytes (st.sending output).received es := by
  rcases output with ⟨⟨status, headers⟩ | _ | _⟩ | record <;> rfl

theorem passes_limiting {st st' : LimitState} {es inner : Seen ε} :
    (limiting lib maxBytes).Passes st es inner st' ↔
      inner = cut maxBytes st.received es ∧ st' = st.after es := by
  constructor
  · intro h
    induction h with
    | none st => exact ⟨rfl, by simp [LimitState.after, bodyBytes, responseStarts]⟩
    | received a _ ih =>
      obtain ⟨rfl, rfl⟩ := ih
      exact ⟨(cut_received _ _ _).symm, (LimitState.after_received _ _ _).symm⟩
    | sent output failure _ ih =>
      obtain ⟨rfl, rfl⟩ := ih
      rw [limiting_onSend]
      exact ⟨(cut_sent _ _ _ _).symm, (LimitState.after_sent _ _ _ _).symm⟩
  · rintro ⟨rfl, rfl⟩
    induction es generalizing st with
    | nil => simpa [cut, LimitState.after, bodyBytes, responseStarts] using Wrapper.Passes.none st
    | cons e es ih =>
      cases e with
      | received a =>
        rw [@cut_received ε lib, @LimitState.after_received ε lib maxBytes]
        exact .received a ih
      | sent output failure =>
        rw [cut_sent, LimitState.after_sent]
        have hpass := @Wrapper.Passes.sent _ _ _ _ (limiting lib maxBytes) st _ _ _ output failure
          (by rw [limiting_onSend]; exact ih)
        rw [limiting_onSend] at hpass
        exact hpass

theorem LimitState.after_start (es : Seen ε) :
    ((⟨0, false⟩ : LimitState).after es).responseStarted = (responseStarts es != 0) :=
  Bool.false_or _

theorem runs_onEnd {st : LimitState} {result : Option (Raised ε)} {es : Seen ε}
    {status : Status (Raised ε)} (h : ((limiting lib maxBytes).onEnd st result).Runs es status) :
    (es = [] ∧ (status = .running ∨ status = .ended result) ∧
        (result = some .requestBodyTooLarge → st.responseStarted = true)) ∨
      (result = some .requestBodyTooLarge ∧ st.responseStarted = false ∧
        Proc.Sends (rejection lib 413 (tooLarge maxBytes)) es status) := by
  rcases result with _ | (_ | error | _)
  · obtain ⟨hes, hstatus⟩ := Proc.runs_done.mp h
    exact .inl ⟨hes, hstatus, fun h ↦ nomatch h⟩
  · cases hstarted : st.responseStarted with
    | true =>
      simp only [limiting, hstarted, if_true] at h
      obtain ⟨hes, hstatus⟩ := Proc.runs_done.mp h
      exact .inl ⟨hes, hstatus, fun _ ↦ rfl⟩
    | false =>
      simp only [limiting, hstarted, Bool.false_eq_true, if_false] at h
      exact .inr ⟨rfl, rfl, Proc.runs_sending.mp h⟩
  · obtain ⟨hes, hstatus⟩ := Proc.runs_done.mp h
    exact .inl ⟨hes, hstatus, fun h ↦ nomatch h⟩
  · obtain ⟨hes, hstatus⟩ := Proc.runs_done.mp h
    exact .inl ⟨hes, hstatus, fun h ↦ nomatch h⟩

theorem runs_onEnd_done {st : LimitState} {result : Option (Raised ε)}
    (h : result = some .requestBodyTooLarge → st.responseStarted = true) :
    ((limiting lib maxBytes).onEnd st result).Runs [] (.ended result) := by
  rcases result with _ | (_ | error | _)
  · exact Proc.runs_done.mpr ⟨rfl, .inr rfl⟩
  · simp only [limiting, h rfl, if_true]
    exact Proc.runs_done.mpr ⟨rfl, .inr rfl⟩
  · exact Proc.runs_done.mpr ⟨rfl, .inr rfl⟩
  · exact Proc.runs_done.mpr ⟨rfl, .inr rfl⟩

theorem runs_limiting {p : Proc Request Effect (Raised ε)} {es : Seen ε}
    {status : Status (Raised ε)} :
    ((limiting lib maxBytes).wrap p).Runs es status ↔
      (p.Runs (cut maxBytes 0 es) status ∧
        (status = .ended (some .requestBodyTooLarge) → responseStarts es ≠ 0)) ∨
      ∃ es₁ es₂, es = es₁ ++ es₂ ∧ responseStarts es₁ = 0 ∧
        p.Runs (cut maxBytes 0 es₁) (.ended (some .requestBodyTooLarge)) ∧
        Proc.Sends (rejection lib 413 (tooLarge maxBytes)) es₂ status := by
  rw [Wrapper.runs_wrap]
  constructor
  · intro h
    cases h with
    | inside passes runs =>
      obtain ⟨rfl, -⟩ := passes_limiting.mp passes
      exact .inl ⟨runs, fun h ↦ nomatch h⟩
    | @after es es' inner st' result _ passes runs own =>
      obtain ⟨rfl, rfl⟩ := passes_limiting.mp passes
      have hstarted := LimitState.after_start es
      obtain ⟨rfl, hstatus, hlarge⟩ | ⟨rfl, hnone, hsends⟩ := runs_onEnd own
      · rw [List.append_nil]
        obtain rfl | rfl := hstatus
        · exact .inl ⟨runs.stopped, fun h ↦ nomatch h⟩
        · refine .inl ⟨runs, fun h ↦ ?_⟩
          cases h
          exact bne_iff_ne.mp (hstarted.symm.trans (hlarge rfl))
      · refine .inr ⟨es, es', rfl, ?_, runs, hsends⟩
        simpa using hstarted.symm.trans hnone
  · rintro (⟨runs, hlarge⟩ | ⟨es₁, es₂, rfl, hnone, runs, hsends⟩)
    · have passes : (limiting lib maxBytes).Passes ⟨0, false⟩ es (cut maxBytes 0 es)
          (LimitState.after ⟨0, false⟩ es) := passes_limiting.mpr ⟨rfl, rfl⟩
      cases status with
      | running => exact .inside passes runs
      | ended result =>
        rw [← List.append_nil es]
        refine .after passes runs (runs_onEnd_done fun h ↦ ?_)
        rw [LimitState.after_start]
        exact bne_iff_ne.mpr (hlarge (h ▸ rfl))
    · have passes : (limiting lib maxBytes).Passes ⟨0, false⟩ es₁ (cut maxBytes 0 es₁)
          (LimitState.after ⟨0, false⟩ es₁) := passes_limiting.mpr ⟨rfl, rfl⟩
      refine .after passes runs ?_
      have hstarted : ((⟨0, false⟩ : LimitState).after es₁).responseStarted = false := by
        rw [LimitState.after_start, hnone]
        rfl
      simp only [limiting, hstarted, Bool.false_eq_true, if_false]
      exact Proc.runs_sending.mpr hsends

theorem starts_rejection {code : ℕ} {detail : List Char} {es : Seen ε}
    {status : Status (Raised ε)} (h : Proc.Sends (rejection lib code detail) es status) :
    responseStarts es ≤ 1 := by
  cases h with
  | stop _ => exact Nat.zero_le 1
  | failed _ _ _ _ => exact Nat.le_refl 1
  | sent h =>
    cases h with
    | stop _ => exact Nat.le_refl 1
    | failed _ _ _ _ => exact Nat.le_refl 1
    | sent h =>
      cases h with
      | stop _ => exact Nat.le_refl 1
      | ended => exact Nat.le_refl 1

/-- With the body limit, the application runs on the request cut off at the limit, and a client
whose body is within it sees the application's own runs. What the limit answers itself comes instead
of the application or after it has let the exception through before its response. -/
theorem request_body_limit (lib : Starlette) (maxBytes : ℕ) (app : ASGIApp ε) (scope : Scope)
    (http : scope.type = "http") :
    (∀ code detail, declaredError maxBytes scope.headers = some (code, detail) →
      ∀ es status, (requestBodyLimit lib maxBytes app scope).Runs es status ↔
        Proc.Sends (rejection lib code detail) es status) ∧
    (declaredError maxBytes scope.headers = none → ∀ es status,
      ((requestBodyLimit lib maxBytes app scope).Runs es status ↔
        ((app scope).Runs (cut maxBytes 0 es) status ∧
          (status = .ended (some .requestBodyTooLarge) → responseStarts es ≠ 0)) ∨
        ∃ es₁ es₂, es = es₁ ++ es₂ ∧ responseStarts es₁ = 0 ∧
          (app scope).Runs (cut maxBytes 0 es₁) (.ended (some .requestBodyTooLarge)) ∧
          Proc.Sends (rejection lib 413 (tooLarge maxBytes)) es₂ status)) ∧
    (∀ es : Seen ε, bodyBytes (cut maxBytes 0 es) ≤ maxBytes ∧
      (bodyBytes es ≤ maxBytes → cut maxBytes 0 es = es)) ∧
    ((∀ es status, (app scope).Runs es status → responseStarts es ≤ 1) →
      ∀ es status, (requestBodyLimit lib maxBytes app scope).Runs es status →
        responseStarts es ≤ 1) := by
  have hrefused : ∀ code detail, declaredError maxBytes scope.headers = some (code, detail) →
      requestBodyLimit lib maxBytes app scope = .sending (rejection lib code detail) := by
    intro code detail h
    simp only [requestBodyLimit, http, ne_eq, not_true_eq_false, if_false, h]
  have haccepted : declaredError maxBytes scope.headers = none →
      requestBodyLimit lib maxBytes app scope = (limiting lib maxBytes).wrap (app scope) := by
    intro h
    simp only [requestBodyLimit, http, ne_eq, not_true_eq_false, if_false, h]
  refine ⟨?_, ?_, ?_, ?_⟩
  · intro code detail h es status
    rw [hrefused code detail h]
    exact Proc.runs_sending
  · intro h es status
    rw [haccepted h]
    exact runs_limiting
  · intro es
    have hbound := bodyBytes_cut es 0 (Nat.zero_le maxBytes)
    refine ⟨by omega, fun h ↦ cut_of_bodyBytes es 0 (by omega)⟩
  · intro hone es status hruns
    cases hdeclared : declaredError maxBytes scope.headers with
    | some refused =>
      rw [hrefused refused.1 refused.2 hdeclared] at hruns
      exact starts_rejection (Proc.runs_sending.mp hruns)
    | none =>
      rw [haccepted hdeclared] at hruns
      obtain ⟨hruns, -⟩ | ⟨es₁, es₂, rfl, hnone, -, hsends⟩ := runs_limiting.mp hruns
      · have hstarts := hone _ _ hruns
        rwa [responseStarts_cut] at hstarts
      · have hstarts := starts_rejection hsends
        rw [responseStarts_append]
        omega

def readOnce : ASGIApp ε := fun _ ↦
  { State := Option (Option (Raised ε))
    start := none
    view
      | none => .receive fun
        | .ok _ => some none
        | .error error => some (some error)
      | some result => .ended result }

theorem request_body_limit_sample :
    (requestBodyLimit starlette 4 (readOnce : ASGIApp String)
      ⟨"http", "POST", "/sync", [], [], none⟩).Runs
      [.received (.ok (.body [1, 2, 3, 4, 5] false)),
        .sent (.message (.start 413 (starlette.json (tooLarge 4)).1)) none,
        .sent (.message (.body (starlette.json (tooLarge 4)).2 false)) none] (.ended none) := by
  refine ((request_body_limit starlette 4 readOnce _ rfl).2.1 rfl _ _).mpr (.inr ?_)
  refine ⟨[.received (.ok (.body [1, 2, 3, 4, 5] false))], _, rfl, rfl, ?_, ?_⟩
  · exact .receive _ rfl (.ended rfl)
  · exact .sent (.sent .ended)

def lastStatus : ℕ → Seen ε → ℕ
  | status, [] => status
  | _, .sent (.message (.start status _)) _ :: es => lastStatus status es
  | status, _ :: es => lastStatus status es

def defensiveNames : List Bytes :=
  ["x-content-type-options", "x-frame-options", "referrer-policy", "cache-control"].map
    fun name ↦ encode name.toList

section

variable {scope : Scope} {correlationId : List Char} {p : Proc Request Effect (Raised ε)}
  {es : Seen ε} {status : Status (Raised ε)}

theorem passes_correlating {statusCode statusCode' : ℕ} {inner : Seen ε}
    (h : (correlating lib scope correlationId).Passes statusCode es inner statusCode') :
    statusCode' = lastStatus statusCode es := by
  induction h with
  | none st => rfl
  | received a _ ih => rcases a with error | message <;> exact ih
  | sent output failure _ ih =>
    rcases output with ⟨⟨code, headers⟩ | _ | _⟩ | record <;> exact ih

theorem isRequestId_requestIdFromScope {fresh : List Char} (hfresh : isRequestId fresh = true)
    (headers : Headers) : isRequestId (requestIdFromScope fresh headers) = true := by
  unfold requestIdFromScope
  split
  · exact hfresh
  · split
    · rename_i hsafe
      exact (Bool.and_eq_true _ _ ▸ hsafe).2
    · exact hfresh

theorem values_setDefault_ne {hs : Headers} {key : Bytes} (name value : List Char)
    (h : key = encode (Text.lower name) ∨ values key hs ≠ []) :
    values key (lib.setDefault hs name value) ≠ [] := by
  rw [lib.values_setDefault]
  by_cases hkey : key = encode (Text.lower name) ∧ values key hs = []
  · rw [if_pos hkey]
    exact List.cons_ne_nil _ _
  · rw [if_neg hkey]
    obtain hname | hne := h
    · exact fun hnil ↦ hkey ⟨hname, hnil⟩
    · exact hne

theorem defending_start {st : Unit} {output : Effect} {code : ℕ} {headers : Headers}
    (h : ((defending lib : Wrapper Unit Request Effect (Raised ε)).onSend st output).2 =
      .message (.start code headers)) :
    ∀ name ∈ defensiveNames, values name headers ≠ [] := by
  rcases output with ⟨⟨code', headers'⟩ | _ | _⟩ | record
  · simp only [defending, Effect.message.injEq, Message.start.injEq] at h
    obtain ⟨-, rfl⟩ := h
    intro name hname
    simp only [defensiveNames, List.map_cons, List.map_nil, List.mem_cons, List.not_mem_nil,
      or_false] at hname
    obtain rfl | rfl | rfl | rfl := hname
    · iterate 3 refine values_setDefault_ne _ _ (.inr ?_)
      exact values_setDefault_ne _ _ (.inl (by decide))
    · iterate 2 refine values_setDefault_ne _ _ (.inr ?_)
      exact values_setDefault_ne _ _ (.inl (by decide))
    · refine values_setDefault_ne _ _ (.inr ?_)
      exact values_setDefault_ne _ _ (.inl (by decide))
    · exact values_setDefault_ne _ _ (.inl (by decide))
  · simp [defending] at h
  · simp [defending] at h
  · simp [defending] at h

theorem defended (h : ((defending lib).wrap p).Runs es status) {code : ℕ} {headers : Headers}
    {failure : Option (Raised ε)}
    (hmem : .sent (.message (.start code headers)) failure ∈ es) :
    ∀ name ∈ defensiveNames, values name headers ≠ [] := by
  cases Wrapper.runs_wrap.mp h with
  | inside passes _ =>
    obtain ⟨_, _, -, houtput⟩ := passes.exists_inner hmem
    exact defending_start houtput.symm
  | after passes _ own =>
    obtain ⟨rfl, -⟩ := Proc.runs_done.mp own
    rw [List.append_nil] at hmem
    obtain ⟨_, _, -, houtput⟩ := passes.exists_inner hmem
    exact defending_start houtput.symm

theorem correlating_start {statusCode : ℕ} {output : Effect} {code : ℕ} {headers : Headers}
    (h : ((correlating lib scope correlationId :
      Wrapper ℕ Request Effect (Raised ε)).onSend statusCode output).2 =
      .message (.start code headers)) :
    ∃ headers', output = .message (.start code headers') ∧
      headers = lib.setItem headers' "X-Request-ID".toList correlationId := by
  rcases output with ⟨⟨code', headers'⟩ | _ | _⟩ | record
  · simp only [correlating, Effect.message.injEq, Message.start.injEq] at h
    obtain ⟨rfl, rfl⟩ := h
    exact ⟨headers', rfl, rfl⟩
  · simp [correlating] at h
  · simp [correlating] at h
  · simp [correlating] at h

theorem correlating_own {statusCode : ℕ} {result : Option (Raised ε)}
    (h : ((correlating lib scope correlationId).onEnd statusCode result).Runs es status) :
    (es = [] ∧ (status = .running ∨ result = some .cancelled ∧ status = .ended result)) ∨
      ∃ failure, es = [.sent (.log ⟨if result.isNone then "HTTP request completed"
          else "HTTP request failed", scope.method, scope.path, statusCode⟩) failure] ∧
        (status = .running ∨ status = .ended result) := by
  rcases result with _ | (_ | error | _)
  · obtain ⟨rfl, rfl⟩ | ⟨failure, rfl, hstatus⟩ := Proc.runs_noting.mp h
    · exact .inl ⟨rfl, .inl rfl⟩
    · exact .inr ⟨failure, rfl, hstatus⟩
  · obtain ⟨rfl, rfl⟩ | ⟨failure, rfl, hstatus⟩ := Proc.runs_noting.mp h
    · exact .inl ⟨rfl, .inl rfl⟩
    · exact .inr ⟨failure, rfl, hstatus⟩
  · obtain ⟨rfl, rfl⟩ | ⟨failure, rfl, hstatus⟩ := Proc.runs_noting.mp h
    · exact .inl ⟨rfl, .inl rfl⟩
    · exact .inr ⟨failure, rfl, hstatus⟩
  · obtain ⟨rfl, rfl | rfl⟩ := Proc.runs_done.mp h
    · exact .inl ⟨rfl, .inl rfl⟩
    · exact .inl ⟨rfl, .inr ⟨rfl, rfl⟩⟩

theorem correlated {inner : Seen ε} {statusCode : ℕ}
    (passes : (correlating lib scope correlationId).Passes 500 es inner statusCode)
    (runs : ((defending lib).wrap p).Runs inner status) {code : ℕ} {headers : Headers}
    {failure : Option (Raised ε)}
    (hmem : .sent (.message (.start code headers)) failure ∈ es) :
    values (encode "x-request-id".toList) headers = [encode correlationId] ∧
      ∀ name ∈ defensiveNames, values name headers ≠ [] := by
  obtain ⟨statusCode', output, hinner, houtput⟩ := passes.exists_inner hmem
  obtain ⟨headers', rfl, rfl⟩ := correlating_start houtput.symm
  refine ⟨?_, fun name hname ↦ ?_⟩
  · rw [lib.values_setItem, if_pos (by decide)]
  · have hother : name ≠ encode (Text.lower "X-Request-ID".toList) := by
      rintro rfl
      exact absurd hname (by decide)
    rw [lib.values_setItem, if_neg hother]
    exact defended runs hinner name hname

end

/-- Under the middleware of the application, whatever the other packages' layers and the router do:
every response carries one request id, which is safe to log, and the defensive headers, and every
request that ends without being cancelled is logged at its end, with the status it was answered. -/
theorem every_response_is_correlated (lib : Starlette) (stack : Stack ε) (fresh : List Char)
    (hfresh : isRequestId fresh = true) (router : ASGIApp ε) (scope : Scope)
    (http : scope.type = "http") :
    isRequestId (requestIdFromScope fresh scope.headers) = true ∧
    (∀ es status, (createApp lib stack fresh router scope).Runs es status →
      ∀ code headers failure, .sent (.message (.start code headers)) failure ∈ es →
        values (encode "x-request-id".toList) headers =
          [encode (requestIdFromScope fresh scope.headers)] ∧
        ∀ name ∈ defensiveNames, values name headers ≠ []) ∧
    (∀ es result, (createApp lib stack fresh router scope).Runs es (.ended result) →
      result ≠ some .cancelled → ∃ es' failure,
        es = es' ++ [.sent (.log ⟨if result.isNone then "HTTP request completed"
          else "HTTP request failed", scope.method, scope.path, lastStatus 500 es'⟩) failure]) := by
  have hstack : createApp lib stack fresh router scope =
      (correlating lib scope (requestIdFromScope fresh scope.headers)).wrap
        ((defending lib).wrap (stack.inner lib router { scope with
          requestId := some (requestIdFromScope fresh scope.headers) })) := by
    simp only [createApp, requestCorrelation, securityHeaders, http, ne_eq, not_true_eq_false,
      if_false]
  rw [hstack]
  refine ⟨isRequestId_requestIdFromScope hfresh _, ?_, ?_⟩
  · intro es status hruns code headers failure hmem
    cases Wrapper.runs_wrap.mp hruns with
    | inside passes runs => exact correlated passes runs hmem
    | after passes runs own =>
      obtain hmem | hmem := List.mem_append.mp hmem
      · exact correlated passes runs hmem
      · obtain ⟨rfl, -⟩ | ⟨_, rfl, -⟩ := correlating_own own
        · exact absurd hmem List.not_mem_nil
        · cases List.mem_singleton.mp hmem
  · intro es result hruns hcancelled
    cases Wrapper.runs_wrap.mp hruns with
    | @after es es' inner statusCode _ _ passes runs own =>
      obtain ⟨-, h | ⟨rfl, h⟩⟩ | ⟨failure, rfl, h | h⟩ := correlating_own own
      · cases h
      · cases h
        exact absurd rfl hcancelled
      · cases h
      · cases h
        exact ⟨es, failure, passes_correlating passes ▸ rfl⟩

def sampleStack : Stack String := ⟨4, true, true, id, none, none, none⟩

def sampleScope : Scope :=
  ⟨"http", "POST", "/sync", [(encode "X-Request-Id".toList, encode "abc".toList)], [], none⟩

theorem every_response_is_correlated_sample :
    requestIdFromScope "fresh".toList sampleScope.headers = "abc".toList ∧
      ∀ es status,
        (createApp starlette sampleStack "fresh".toList readOnce sampleScope).Runs es status →
        ∀ code headers failure, .sent (.message (.start code headers)) failure ∈ es →
          values (encode "x-request-id".toList) headers = [encode "abc".toList] :=
  ⟨by decide, fun es status hruns code headers failure hmem ↦
    ((every_response_is_correlated starlette sampleStack "fresh".toList (by decide) readOnce
      sampleScope rfl).2.1 es status hruns code headers failure hmem).1⟩

end RiskApp.Server.Middleware
