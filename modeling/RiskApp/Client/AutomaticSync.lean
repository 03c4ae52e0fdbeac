import Mathlib.Algebra.Group.Nat.Defs
import Mathlib.Order.Monotone.Basic
import RiskApp.Text
import RiskApp.Values

namespace RiskApp.Client.AutomaticSync

def maxQtTimerMs : ℕ := 2147483647

def maxDateTime : ℕ := 3652059 * 86400 * 1000000

/-- What the scheduler takes from Python and Qt: `int(seconds * 1000)` may fall one short of a whole
number of milliseconds, `remainingTime` is the timer's own reading. -/
structure Platform where
  toMs : ℕ → ℕ
  toMs_mono : Monotone toMs
  le_toMs : ∀ delay ≤ 1000 * maxQtTimerMs, delay ≤ 1000 * (toMs delay + 1)
  remainingTime : ℕ → ℕ → ℤ
  /-- The date and time that an ISO text shows, and its offset. -/
  fromisoformat : List Char → Option (ℕ × Option ℤ)

def secondsToMicros (seconds : ℕ) : ℕ := seconds * 1000000

def transientStates : List String := ["authentication_required", "failed", "offline", "retry_wait"]

structure Settings where
  intervalSeconds : ℤ
  initialDelaySeconds : ℤ := 5
  maxBackoffSeconds : ℤ := 300
  busyRetrySeconds : ℤ := 2

namespace Settings

def interval (cfg : Settings) : ℕ := (max 0 cfg.intervalSeconds).toNat

def initialDelay (cfg : Settings) : ℕ := (max 0 cfg.initialDelaySeconds).toNat

def maxBackoff (cfg : Settings) : ℕ := (max 5 cfg.maxBackoffSeconds).toNat

def busyRetry (cfg : Settings) : ℕ := (max 1 cfg.busyRetrySeconds).toNat

def enabled (cfg : Settings) : Bool := 0 < cfg.interval

def backoffSeconds (cfg : Settings) (failureCount : ℕ) : ℕ :=
  min (5 * 2 ^ min 16 (failureCount - 1)) cfg.maxBackoff

end Settings

/-- What a job hands over, if it is a mapping; absent and false values are empty texts. -/
structure JobResult where
  state : String
  nextRetryAt : String

/-- The fields of `AutomaticSyncScheduler`; an active timer carries the time at which it fires. -/
structure Scheduler where
  running : Bool := false
  jobInFlight : Bool := false
  failureCount : ℕ := 0
  notBefore : Option ℕ := none
  lastDelayMs : Option ℕ := none
  timer : Option ℕ := none
  deriving DecidableEq

/-- When an event reads the clock, reads it again, and starts the timer, at least the longest
backoff before the end of the year 9999. -/
structure Readings where
  now : ℕ
  later : ℕ
  armed : ℕ
  ordered : now ≤ later ∧ later ≤ armed
  representable : armed + 5 * 2 ^ 16 * 1000000 < maxDateTime

inductive Event
  | start (r : Readings)
  | timeout (startJob : Bool) (r : Readings)
  | requestSoon (delaySeconds : ℤ) (r : Readings)
  | observeResult (result : Option JobResult) (r : Readings)
  | jobSucceeded (result : Option JobResult) (r : Readings)
  | jobFailed (r : Readings)

def replaceZulu (raw : List Char) : List Char :=
  raw.flatMap fun c ↦ if c = 'Z' then "+00:00".toList else [c]

section

variable (p : Platform) (cfg : Settings)

/-- `_retry_delay_seconds`; the conversion to UTC may leave the years that a datetime can hold. -/
def retryDelaySeconds (value : String) (now : ℕ) : Except Unit (Option ℕ) :=
  let raw := Text.strip value.toList
  if raw = [] then .ok none
  else match p.fromisoformat (replaceZulu raw) with
    | none => .ok none
    | some (retryAt, none) => .ok (some (retryAt - now))
    | some (retryAt, some offset) =>
      let utc := (retryAt : ℤ) - offset
      if 0 ≤ utc ∧ utc < maxDateTime then .ok (some (utc.toNat - now)) else .error ()

namespace Scheduler

def schedule (s : Scheduler) (delay armed : ℕ) (onlyIfSooner : Bool) : Scheduler :=
  if !s.running then s
  else
    let delayMs := min maxQtTimerMs (max 1 (p.toMs delay))
    let started := { s with lastDelayMs := some delayMs, timer := some (armed + 1000 * delayMs) }
    match s.timer with
    | none => started
    | some deadline =>
      let remaining := p.remainingTime deadline armed
      if onlyIfSooner && 0 ≤ remaining && remaining ≤ delayMs then s else started

def start (s : Scheduler) (r : Readings) : Scheduler :=
  if !cfg.enabled || s.running then s
  else schedule p { s with running := true } (secondsToMicros cfg.initialDelay) r.armed false

def requestSoon (s : Scheduler) (delaySeconds : ℤ) (r : Readings) : Scheduler :=
  if !s.running || s.jobInFlight then s
  else
    let delay := secondsToMicros (max 0 delaySeconds).toNat
    let delay := match s.notBefore with
      | none => delay
      | some notBefore => max delay (notBefore - r.now)
    schedule p s delay r.armed true

/-- The state that `_finish` acts on, and the retry time. -/
def outcome (result : Option JobResult) : String × String :=
  match result with
  | none => ("failed", "")
  | some result =>
    let state := if result.state = "" then "complete" else result.state
    (if state = "complete" ∧ result.nextRetryAt ≠ "" then "retry_wait" else state,
      result.nextRetryAt)

/-- `_finish`; an error of its date arithmetic ends it with the failure counted. -/
def finish (s : Scheduler) (result : Option JobResult) (r : Readings) : Scheduler :=
  if !s.running then s
  else
    let (state, nextRetryAt) := outcome result
    if state ∈ transientStates then
      let s := { s with failureCount := s.failureCount + 1 }
      let delay := secondsToMicros (cfg.backoffSeconds s.failureCount)
      match retryDelaySeconds p nextRetryAt r.now with
      | .error _ => s
      | .ok retryDelay =>
        let delay := max delay (retryDelay.getD 0)
        if r.later + delay < maxDateTime then
          schedule p { s with notBefore := some (r.later + delay) } delay r.armed false
        else s
    else
      schedule p { s with failureCount := 0, notBefore := none } (secondsToMicros cfg.interval)
        r.armed false

def jobFailed (s : Scheduler) (r : Readings) : Scheduler :=
  let s := { s with jobInFlight := false }
  if !s.running then s
  else
    let s := { s with failureCount := s.failureCount + 1 }
    let delay := secondsToMicros (cfg.backoffSeconds s.failureCount)
    schedule p { s with notBefore := some (r.now + delay) } delay r.armed false

/-- `_on_timeout`, when the single-shot timer has fired. `startJob` is what the callback returns if
it is called; the answer is whether a job has been started. -/
def onTimeout (s : Scheduler) (startJob : Bool) (r : Readings) : Scheduler × Bool :=
  let s := { s with timer := none }
  if !s.running || s.jobInFlight then (s, false)
  else if startJob then ({ s with jobInFlight := true }, true)
  else (schedule p s (secondsToMicros cfg.busyRetry) r.armed false, false)

def step (s : Scheduler) : Event → Scheduler × Bool
  | .start r => (s.start p cfg r, false)
  | .timeout startJob r => s.onTimeout p cfg startJob r
  | .requestSoon delaySeconds r => (s.requestSoon p delaySeconds r, false)
  | .observeResult result r => (s.finish p cfg result r, false)
  | .jobSucceeded result r => ({ s with jobInFlight := false }.finish p cfg result r, false)
  | .jobFailed r => (s.jobFailed p cfg r, false)

end Scheduler

end

namespace Event

def reports : Event → Option Bool
  | .observeResult result _ | .jobSucceeded result _ =>
    some ((Scheduler.outcome result).1 ∈ transientStates)
  | .jobFailed _ => some true
  | .start _ | .timeout _ _ | .requestSoon _ _ => none

def completes : Event → Bool
  | .jobSucceeded _ _ | .jobFailed _ => true
  | .start _ | .timeout _ _ | .requestSoon _ _ | .observeResult _ _ => false

def starts : Event → Bool
  | .start _ => true
  | .timeout _ _ | .requestSoon _ _ | .observeResult _ _ | .jobSucceeded _ _ | .jobFailed _ => false

/-- A retry time is a date and time of the years 1 to 9999 in UTC, too, and no later than the clock
can come to. -/
def Convertible (p : Platform) (value : String) (r : Readings) : Prop :=
  Text.strip value.toList ≠ [] → ∀ retryAt offset,
    p.fromisoformat (replaceZulu (Text.strip value.toList)) = some (retryAt, offset) →
      0 ≤ (retryAt : ℤ) - offset.getD 0 ∧
        (retryAt : ℤ) - offset.getD 0 + (r.later - r.now) < maxDateTime

/-- The retry time that the event makes the scheduler read is convertible. -/
def Readable (p : Platform) : Event → Prop
  | .observeResult result r | .jobSucceeded result r =>
    (Scheduler.outcome result).1 ∈ transientStates → Convertible p (Scheduler.outcome result).2 r
  | .start _ | .timeout _ _ | .requestSoon _ _ | .jobFailed _ => True

end Event

/-- What happened so far: whether the scheduler was started, how many jobs are running, and the
backoff delays of the failures since the last success, the newest first. -/
structure History where
  started : Bool := false
  jobs : ℕ := 0
  backoffs : List ℕ := []

def History.after (cfg : Settings) (h : History) (e : Event) (s' : Scheduler) (jobStarted : Bool) :
    History where
  started := h.started || e.starts
  jobs := (if e.completes then h.jobs - 1 else h.jobs) + if jobStarted then 1 else 0
  backoffs := match s'.running, e.reports with
    | true, some true => cfg.backoffSeconds s'.failureCount :: h.backoffs
    | true, some false => []
    | _, _ => h.backoffs

inductive Scheduler.Run (p : Platform) (cfg : Settings) (P : Event → Prop) :
    Scheduler → History → Prop
  | init : Run p cfg P {} {}
  | step {s : Scheduler} {h : History} (before : Run p cfg P s h) (e : Event) (meets : P e) :
      Run p cfg P (s.step p cfg e).1
        (h.after cfg e (s.step p cfg e).1 (s.step p cfg e).2)

namespace Settings

variable (cfg : Settings)

theorem backoffSeconds_mono : Monotone cfg.backoffSeconds := by
  intro m n h
  have hexponent : min 16 (m - 1) ≤ min 16 (n - 1) := by omega
  have hpower : 5 * 2 ^ min 16 (m - 1) ≤ 5 * 2 ^ min 16 (n - 1) :=
    Nat.mul_le_mul_left 5 (Nat.pow_le_pow_right (by decide) hexponent)
  unfold backoffSeconds
  omega

theorem backoffSeconds_le (n : ℕ) : cfg.backoffSeconds n ≤ cfg.maxBackoff := min_le_right _ _

theorem backoffSeconds_le_longest (n : ℕ) : cfg.backoffSeconds n ≤ 5 * 2 ^ 16 :=
  (min_le_left _ _).trans
    (Nat.mul_le_mul_left 5 (Nat.pow_le_pow_right (by decide) (min_le_left _ _)))

end Settings

namespace Scheduler

variable {p : Platform} {cfg : Settings} {s s' : Scheduler} {h : History} {e : Event}

/-- Only the timer has changed, and a running scheduler has it armed. -/
structure Scheduled (s s' : Scheduler) : Prop where
  running : s'.running = s.running
  jobInFlight : s'.jobInFlight = s.jobInFlight
  failureCount : s'.failureCount = s.failureCount
  awake : s.running = true → s'.timer.isSome

theorem schedule_scheduled (p : Platform) (s : Scheduler) (delay armed : ℕ)
    (onlyIfSooner : Bool) : Scheduled s (schedule p s delay armed onlyIfSooner) := by
  unfold schedule
  split
  · rename_i hidle
    exact ⟨rfl, rfl, rfl, fun hrunning ↦ by simp [hrunning] at hidle⟩
  · dsimp only
    split
    · exact ⟨rfl, rfl, rfl, fun _ ↦ rfl⟩
    · rename_i deadline htimer
      split
      · exact ⟨rfl, rfl, rfl, fun _ ↦ by rw [htimer]; rfl⟩
      · exact ⟨rfl, rfl, rfl, fun _ ↦ rfl⟩

/-- A started timer fires no more than a millisecond before a wait that its delay covers is over. -/
theorem schedule_timer (p : Platform) (s : Scheduler) {delay wait : ℕ} (armed : ℕ)
    (onlyIfSooner : Bool) (hle : wait ≤ delay) (hmax : wait ≤ 1000 * maxQtTimerMs) :
    (schedule p s delay armed onlyIfSooner).timer = s.timer ∨
      ∃ fire, (schedule p s delay armed onlyIfSooner).timer = some fire ∧
        armed + wait ≤ fire + 1000 := by
  have hlate : armed + wait ≤
      armed + 1000 * min maxQtTimerMs (max 1 (p.toMs delay)) + 1000 := by
    have hdelay := p.toMs_mono hle
    have hwait := p.le_toMs wait hmax
    have hms := le_max_right 1 (p.toMs delay)
    rcases Nat.le_total maxQtTimerMs (max 1 (p.toMs delay)) with hclamped | hfree
    · rw [min_eq_left hclamped]
      omega
    · rw [min_eq_right hfree]
      omega
  unfold schedule
  split
  · exact Or.inl rfl
  · dsimp only
    split
    · exact Or.inr ⟨_, rfl, hlate⟩
    · split
      · exact Or.inl rfl
      · exact Or.inr ⟨_, rfl, hlate⟩

theorem retryDelaySeconds_ok {value : String} {r : Readings} (h : Event.Convertible p value r) :
    ∃ delay, retryDelaySeconds p value r.now = .ok delay ∧
      r.later + delay.getD 0 < maxDateTime := by
  have hlater : r.later + 0 < maxDateTime := by
    have hordered := r.ordered
    have hend := r.representable
    omega
  unfold retryDelaySeconds
  dsimp only
  split
  · exact ⟨none, rfl, hlater⟩
  · rename_i hraw
    split
    · exact ⟨none, rfl, hlater⟩
    all_goals
      rename_i hparse
      obtain ⟨hfrom, hto⟩ := h hraw _ _ hparse
      have hordered := r.ordered
      simp only [Option.getD_none, Option.getD_some] at hfrom hto
    · refine ⟨_, rfl, ?_⟩
      simp only [Option.getD_some]
      omega
    · rw [if_pos ⟨hfrom, by omega⟩]
      refine ⟨_, rfl, ?_⟩
      simp only [Option.getD_some]
      omega

theorem finish_running (hrunning : s.running = true) {result : Option JobResult} {r : Readings}
    (hread : (outcome result).1 ∈ transientStates → Event.Convertible p (outcome result).2 r) :
    (s.finish p cfg result r).running = true ∧
      (s.finish p cfg result r).jobInFlight = s.jobInFlight ∧
      (s.finish p cfg result r).timer.isSome ∧
      (s.finish p cfg result r).failureCount =
        if (outcome result).1 ∈ transientStates then s.failureCount + 1 else 0 := by
  unfold finish
  rw [if_neg (by simp [hrunning])]
  dsimp only
  split
  · rename_i htransient
    obtain ⟨delay, hdelay, hend⟩ := retryDelaySeconds_ok (hread htransient)
    have hbackoff := cfg.backoffSeconds_le_longest (s.failureCount + 1)
    have hordered := r.ordered
    have hclock := r.representable
    have hwait : r.later + max (secondsToMicros (cfg.backoffSeconds (s.failureCount + 1)))
        (delay.getD 0) < maxDateTime := by
      unfold secondsToMicros
      omega
    rw [hdelay]
    dsimp only
    rw [if_pos hwait]
    have hsched := schedule_scheduled p
      { s with
        failureCount := s.failureCount + 1
        notBefore := some (r.later + max (secondsToMicros (cfg.backoffSeconds (s.failureCount + 1)))
          (delay.getD 0)) }
      (max (secondsToMicros (cfg.backoffSeconds (s.failureCount + 1))) (delay.getD 0)) r.armed false
    exact ⟨hsched.running.trans hrunning, hsched.jobInFlight, hsched.awake hrunning,
      hsched.failureCount⟩
  · have hsched := schedule_scheduled p { s with failureCount := 0, notBefore := none }
      (secondsToMicros cfg.interval) r.armed false
    exact ⟨hsched.running.trans hrunning, hsched.jobInFlight, hsched.awake hrunning,
      hsched.failureCount⟩

theorem finish_idle (hrunning : s.running = false) (result : Option JobResult) (r : Readings) :
    s.finish p cfg result r = s := by
  unfold finish
  rw [if_pos (by simp [hrunning])]

/-- Whoever runs has something to wait for, the flag counts the running job, and the backoff delays
have grown up to the present one. -/
structure Inv (cfg : Settings) (s : Scheduler) (h : History) : Prop where
  started : cfg.enabled = true → h.started = true → s.running = true
  awake : s.running = true → s.timer.isSome ∨ s.jobInFlight = true
  jobs : h.jobs = if s.jobInFlight then 1 else 0
  grown : h.backoffs.Pairwise (· ≥ ·)
  bounded : ∀ b ∈ h.backoffs, b ≤ cfg.backoffSeconds s.failureCount

theorem Inv.init (cfg : Settings) : Inv cfg {} {} := by
  refine ⟨fun _ h ↦ ?_, fun h ↦ ?_, rfl, List.Pairwise.nil, fun _ hb ↦ absurd hb List.not_mem_nil⟩
  · cases h
  · cases h

theorem Inv.after (hi : Inv cfg s h) (e : Event) {jobStarted : Bool}
    (hstarted : cfg.enabled = true → h.started = true ∨ e.starts = true → s'.running = true)
    (hawake : s'.running = true → s'.timer.isSome ∨ s'.jobInFlight = true)
    (hjobs : (if e.completes then h.jobs - 1 else h.jobs) + (if jobStarted then 1 else 0) =
      if s'.jobInFlight then 1 else 0)
    (hfailed : s'.running = true → e.reports = some true →
      s'.failureCount = s.failureCount + 1)
    (hkept : s'.running = false ∨ e.reports = none → s'.failureCount = s.failureCount) :
    Inv cfg s' (h.after cfg e s' jobStarted) := by
  refine ⟨fun henabled h ↦ hstarted henabled (Bool.or_eq_true _ _ ▸ h), hawake, hjobs, ?_, ?_⟩
  all_goals
    unfold History.after
    dsimp only
    split
  · rename_i hrunning hreports
    have hle : ∀ b ∈ h.backoffs, b ≤ cfg.backoffSeconds s'.failureCount := fun b hb ↦
      (hi.bounded b hb).trans
        (cfg.backoffSeconds_mono (hfailed hrunning hreports ▸ Nat.le_succ _))
    exact List.pairwise_cons.mpr ⟨hle, hi.grown⟩
  · exact List.Pairwise.nil
  · exact hi.grown
  · rename_i hrunning hreports
    intro b hb
    rcases List.mem_cons.mp hb with rfl | hb
    · exact le_rfl
    · exact (hi.bounded b hb).trans
        (cfg.backoffSeconds_mono (hfailed hrunning hreports ▸ Nat.le_succ _))
  · exact fun b hb ↦ absurd hb List.not_mem_nil
  · rename_i hnot hnot'
    rw [hkept]
    · exact hi.bounded
    · cases hrunning : s'.running with
      | false => exact Or.inl rfl
      | true =>
        refine Or.inr ?_
        cases hreports : e.reports with
        | none => rfl
        | some failure =>
          cases failure
          · exact absurd hreports (hnot' hrunning)
          · exact absurd hreports (hnot hrunning)

theorem Inv.finished (hi : Inv cfg s h) {flag : Bool} {e : Event} {result : Option JobResult}
    {r : Readings} (hstarts : e.starts = false)
    (hjobs : (if e.completes then h.jobs - 1 else h.jobs) = if flag then 1 else 0)
    (hreports : e.reports = some (decide ((outcome result).1 ∈ transientStates)))
    (hread : (outcome result).1 ∈ transientStates → Event.Convertible p (outcome result).2 r) :
    Inv cfg ({ s with jobInFlight := flag }.finish p cfg result r)
      (h.after cfg e ({ s with jobInFlight := flag }.finish p cfg result r) false) := by
  have hstarted : cfg.enabled = true → h.started = true ∨ e.starts = true → s.running = true :=
    fun henabled h ↦ hi.started henabled (h.resolve_right (by simp [hstarts]))
  by_cases hrunning : s.running = true
  · obtain ⟨hr, hflag, htimer, hcount⟩ :=
      @finish_running p cfg { s with jobInFlight := flag } hrunning result r hread
    refine hi.after e (fun _ _ ↦ hr) (fun _ ↦ Or.inl htimer) ?_ (fun _ hfailure ↦ ?_) fun h ↦ ?_
    · rw [hflag]
      exact hjobs
    · rw [hreports, Option.some.injEq, decide_eq_true_eq] at hfailure
      rw [hcount, if_pos hfailure]
    · rw [hr, hreports] at h
      simp at h
  · rw [finish_idle (by simpa using hrunning) result r]
    exact hi.after e hstarted (fun hr ↦ absurd hr hrunning) hjobs
      (fun hr ↦ absurd hr hrunning) fun _ ↦ rfl

theorem Inv.scheduled (hi : Inv cfg s h) {e : Event} (hcompletes : e.completes = false)
    (hreports : e.reports = none) (hsched : Scheduled s s')
    (hstarted : cfg.enabled = true → h.started = true ∨ e.starts = true → s.running = true) :
    Inv cfg s' (h.after cfg e s' false) := by
  refine hi.after e (fun henabled h ↦ hsched.running.trans (hstarted henabled h))
    (fun hr ↦ Or.inl (hsched.awake (hsched.running ▸ hr))) ?_ (fun _ h ↦ ?_)
    fun _ ↦ hsched.failureCount
  · rw [hcompletes, hsched.jobInFlight]
    exact hi.jobs
  · rw [hreports] at h
    cases h

theorem Inv.unchanged (hi : Inv cfg s h) {e : Event} (hcompletes : e.completes = false)
    (hreports : e.reports = none)
    (hstarted : cfg.enabled = true → h.started = true ∨ e.starts = true → s.running = true) :
    Inv cfg s (h.after cfg e s false) := by
  refine hi.after e hstarted hi.awake ?_ (fun _ h ↦ ?_) fun _ ↦ rfl
  · rw [hcompletes]
    exact hi.jobs
  · rw [hreports] at h
    cases h

theorem Inv.step (hi : Inv cfg s h) (e : Event) (hread : e.Readable p) :
    Inv cfg (s.step p cfg e).1 (h.after cfg e (s.step p cfg e).1 (s.step p cfg e).2) := by
  cases e with
  | start r =>
    change Inv cfg (s.start p cfg r) (h.after cfg (.start r) (s.start p cfg r) false)
    unfold start
    split
    · rename_i hidle
      refine hi.unchanged rfl rfl fun henabled _ ↦ ?_
      simpa [henabled] using hidle
    · rename_i hready
      have hrunning : s.running = false := by
        simp only [Bool.or_eq_true, Bool.not_eq_true', not_or] at hready
        simpa using hready.2
      have hsched := schedule_scheduled p { s with running := true }
        (secondsToMicros cfg.initialDelay) r.armed false
      refine hi.after _ (fun _ _ ↦ hsched.running) (fun _ ↦ Or.inl (hsched.awake rfl)) ?_
        (fun _ h ↦ ?_) fun _ ↦ hsched.failureCount
      · rw [hsched.jobInFlight]
        exact hi.jobs
      · cases h
  | timeout startJob r =>
    change Inv cfg (s.onTimeout p cfg startJob r).1
      (h.after cfg (.timeout startJob r) (s.onTimeout p cfg startJob r).1
        (s.onTimeout p cfg startJob r).2)
    unfold onTimeout
    dsimp only
    split
    · rename_i hbusy
      have hstarted (henabled : cfg.enabled = true)
          (h : h.started = true ∨ (Event.timeout startJob r).starts = true) :
          s.running = true :=
        hi.started henabled (h.resolve_right (by simp [Event.starts]))
      refine hi.after _ hstarted (fun hr ↦ Or.inr ?_) hi.jobs (fun _ h ↦ ?_) fun _ ↦ rfl
      · simpa [show s.running = true from hr] using hbusy
      · cases h
    · rename_i hready
      simp only [Bool.or_eq_true, Bool.not_eq_true', not_or, Bool.not_eq_false,
        Bool.not_eq_true] at hready
      obtain ⟨hrunning, hfree⟩ := hready
      have hnone : h.jobs = 0 := by
        rw [hi.jobs, hfree]
        rfl
      split
      · refine hi.after _ (fun _ _ ↦ hrunning) (fun _ ↦ Or.inr rfl) ?_ (fun _ h ↦ ?_) fun _ ↦ rfl
        · simp [hnone, Event.completes]
        · cases h
      · have hsched := schedule_scheduled p { s with timer := none }
          (secondsToMicros cfg.busyRetry) r.armed false
        exact hi.scheduled rfl rfl
          ⟨hsched.running, hsched.jobInFlight, hsched.failureCount, hsched.awake⟩
          fun _ _ ↦ hrunning
  | requestSoon delaySeconds r =>
    change Inv cfg (s.requestSoon p delaySeconds r)
      (h.after cfg (.requestSoon delaySeconds r) (s.requestSoon p delaySeconds r) false)
    have hstarted : cfg.enabled = true →
        h.started = true ∨ (Event.requestSoon delaySeconds r).starts = true → s.running = true :=
      fun henabled h ↦ hi.started henabled (h.resolve_right (by simp [Event.starts]))
    unfold requestSoon
    split
    · exact hi.unchanged rfl rfl hstarted
    · exact hi.scheduled rfl rfl (schedule_scheduled p s _ _ _) hstarted
  | observeResult result r => exact hi.finished rfl hi.jobs rfl hread
  | jobSucceeded result r =>
    refine hi.finished rfl ?_ rfl hread
    have hjobs := hi.jobs
    change h.jobs - 1 = 0
    split at hjobs <;> omega
  | jobFailed r =>
    change Inv cfg (s.jobFailed p cfg r) (h.after cfg (.jobFailed r) (s.jobFailed p cfg r) false)
    have hstarted : cfg.enabled = true →
        h.started = true ∨ (Event.jobFailed r).starts = true → s.running = true :=
      fun henabled h ↦ hi.started henabled (h.resolve_right (by simp [Event.starts]))
    have hnone : h.jobs - 1 = 0 := by
      have hjobs := hi.jobs
      split at hjobs <;> omega
    unfold jobFailed
    dsimp only
    split
    · rename_i hidle
      have hstopped : ¬ s.running = true := by simpa using hidle
      exact hi.after _ hstarted (fun hr ↦ absurd hr hstopped) hnone
        (fun hr ↦ absurd hr hstopped) fun _ ↦ rfl
    · rename_i hready
      have hrunning : s.running = true := by simpa using hready
      have hsched := schedule_scheduled p
        { s with
          jobInFlight := false
          failureCount := s.failureCount + 1
          notBefore :=
            some (r.now + secondsToMicros (cfg.backoffSeconds (s.failureCount + 1))) }
        (secondsToMicros (cfg.backoffSeconds (s.failureCount + 1))) r.armed false
      refine hi.after _ (fun _ _ ↦ hsched.running.trans hrunning)
        (fun _ ↦ Or.inl (hsched.awake hrunning)) ?_ (fun _ _ ↦ hsched.failureCount) fun h ↦ ?_
      · rw [hsched.jobInFlight]
        exact hnone
      · rw [hsched.running, show s.running = true from hrunning] at h
        simp [Event.reports] at h

theorem Run.next {P : Event → Prop} {started : Bool} (before : Run p cfg P s h) (e : Event)
    (meets : P e) (hs : s.step p cfg e = (s', started)) :
    Run p cfg P s' (h.after cfg e s' started) := by
  have hrun := before.step e meets
  rw [hs] at hrun
  exact hrun

theorem Run.inv {P : Event → Prop} (hP : ∀ e, P e → e.Readable p) (hrun : Run p cfg P s h) :
    Inv cfg s h := by
  induction hrun with
  | init => exact Inv.init cfg
  | step before e meets ih => exact ih.step e (hP e meets)

/-- A requested trigger leaves the timer as it is, or lets it fire at the deadline or later, up to
the millisecond that the conversion of the delay may lose. -/
theorem requestSoon_timer (p : Platform) (s : Scheduler) (delaySeconds : ℤ) (r : Readings) :
    (s.requestSoon p delaySeconds r).timer = s.timer ∨
      ∃ fire, (s.requestSoon p delaySeconds r).timer = some fire ∧
        ∀ notBefore, s.notBefore = some notBefore →
          notBefore ≤ r.now + 1000 * maxQtTimerMs → notBefore ≤ fire + 1000 := by
  have hordered := r.ordered
  unfold requestSoon
  split
  · exact Or.inl rfl
  dsimp only
  cases hdeadline : s.notBefore with
  | none =>
    rcases @schedule_timer p s _ 0 r.armed true (Nat.zero_le _) (Nat.zero_le _) with
      hsame | ⟨fire, hfire, -⟩
    · exact Or.inl hsame
    · exact Or.inr ⟨fire, hfire, fun _ h ↦ absurd h (by simp)⟩
  | some deadline =>
    by_cases hmax : deadline - r.now ≤ 1000 * maxQtTimerMs
    · rcases schedule_timer p s r.armed true
        (le_max_right (secondsToMicros (max 0 delaySeconds).toNat) (deadline - r.now)) hmax with
        hsame | ⟨fire, hfire, hlate⟩
      · exact Or.inl hsame
      · refine Or.inr ⟨fire, hfire, fun notBefore h _ ↦ ?_⟩
        cases h
        omega
    · rcases @schedule_timer p s _ 0 r.armed true (Nat.zero_le _) (Nat.zero_le _) with
        hsame | ⟨fire, hfire, -⟩
      · exact Or.inl hsame
      · refine Or.inr ⟨fire, hfire, fun notBefore h hnear ↦ ?_⟩
        cases h
        omega

/-- What synchronization relies on. -/
structure Reliable (p : Platform) (cfg : Settings) (s : Scheduler) (h : History) : Prop where
  awake : cfg.enabled = true → h.started = true → s.timer.isSome ∨ s.jobInFlight = true
  single : h.jobs ≤ 1
  grown : h.backoffs.Pairwise (· ≥ ·)
  bounded : ∀ b ∈ h.backoffs, b ≤ cfg.maxBackoff
  patient : ∀ delaySeconds r, (s.requestSoon p delaySeconds r).timer = s.timer ∨
    ∃ fire, (s.requestSoon p delaySeconds r).timer = some fire ∧
      ∀ notBefore, s.notBefore = some notBefore →
        notBefore ≤ r.now + 1000 * maxQtTimerMs → notBefore ≤ fire + 1000

/-- As long as every retry time it has to read is a date in UTC, the scheduler never stalls. -/
theorem run_reliable (p : Platform) (cfg : Settings) (s : Scheduler) (h : History)
    (hrun : Run p cfg (Event.Readable p) s h) : Reliable p cfg s h := by
  have hi : Inv cfg s h := hrun.inv fun _ hread ↦ hread
  refine ⟨fun henabled hstarted ↦ hi.awake (hi.started henabled hstarted), ?_, hi.grown,
    fun b hb ↦ (hi.bounded b hb).trans (cfg.backoffSeconds_le _), requestSoon_timer p s⟩
  rw [hi.jobs]
  split
  · exact le_rfl
  · exact Nat.zero_le 1

end Scheduler

def samplePlatform : Platform where
  toMs delay := delay / 1000
  toMs_mono _ _ h := Nat.div_le_div_right h
  le_toMs delay _ := by omega
  remainingTime deadline armed := ((deadline : ℤ) - armed) / 1000
  fromisoformat raw :=
    if raw = "0001-01-01T00:00:00+05:00".toList then some (0, some 18000000000)
    else if raw = "2026-01-01T00:05:00+00:00".toList then some (63902822700000000, some 0)
    else none

def sampleReadings : Readings where
  now := 63902822400000000
  later := 63902822400000000
  armed := 63902822400000000
  ordered := ⟨le_rfl, le_rfl⟩
  representable := by decide

def sampleRetrying : Scheduler where
  running := true
  failureCount := 1
  notBefore := some 63902822700000000
  lastDelayMs := some 300000
  timer := some 63902822700000000

/-- An offline result asks for a retry in five minutes; a request in between does not cut the wait
short. -/
theorem run_reliable_sample :
    Scheduler.Reliable samplePlatform { intervalSeconds := 60 } sampleRetrying
      { started := true, backoffs := [5] } := by
  have hinit := @Scheduler.Run.init samplePlatform { intervalSeconds := 60 }
    (Event.Readable samplePlatform)
  have hjob := (hinit.step (.start sampleReadings) trivial).step
    (.timeout true sampleReadings) trivial
  have hread : Event.Readable samplePlatform
      (.jobSucceeded (some ⟨"offline", "2026-01-01T00:05:00Z"⟩) sampleReadings) := by
    intro _ _ retryAt offset hparse
    have htext : samplePlatform.fromisoformat
        (replaceZulu (Text.strip "2026-01-01T00:05:00Z".toList)) =
          some (63902822700000000, some 0) := by
      decide
    cases htext.symm.trans hparse
    decide
  have hretry := @Scheduler.Run.next _ _ _ sampleRetrying _ _ false hjob _ hread (by decide +kernel)
  exact Scheduler.run_reliable _ _ _ _
    (@Scheduler.Run.next _ _ _ sampleRetrying _ _ false hretry (.requestSoon 1 sampleReadings)
      trivial (by decide +kernel))
/-- A retry time before the start of the year 1 ends synchronization for good. -/
theorem stalls_before_the_first_year :
    ¬ ∀ (p : Platform) (cfg : Settings) (s : Scheduler) (h : History),
      Scheduler.Run p cfg (fun _ ↦ True) s h → Scheduler.Reliable p cfg s h := by
  intro hall
  have hstalled := (hall samplePlatform { intervalSeconds := 60 }
    { running := true, failureCount := 1, lastDelayMs := some 5000 }
    { started := true, backoffs := [5] }
    (((Scheduler.Run.init.step (.start sampleReadings) trivial).step
      (.timeout true sampleReadings) trivial).step
      (.jobSucceeded (some ⟨"offline", "0001-01-01T00:00:00+05:00"⟩) sampleReadings)
        trivial)).awake rfl rfl
  rcases hstalled with h | h
  · cases h
  · cases h

end RiskApp.Client.AutomaticSync
