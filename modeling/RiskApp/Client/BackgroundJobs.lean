import Mathlib.Logic.Relation
import RiskApp.Client.AutomaticSync

namespace RiskApp.Client

open AutomaticSync

def AutomaticSync.Scheduler.stop (s : Scheduler) : Scheduler :=
  { s with running := false, jobInFlight := false, timer := none }

inductive JobKind
  | sync
  | automaticSync
  | history
  | snapshot
  deriving DecidableEq

structure Job where
  id : ℕ
  kind : JobKind

/-- What a worker emits at its end; what is no mapping is an invalid result. -/
inductive JobOutcome
  | succeeded (result : Option JobResult)
  | failed
  | cancelled

inductive WorkerStage
  | starting
  | executing
  | reported

inductive Posted
  | outcome (job : Job) (outcome : JobOutcome)
  | threadFinished

/-- Whether the event loop of the window runs, waits in `shutdown`, or has accepted the close. -/
inductive Gui
  | ready
  | waiting
  | closed

/-- The scheduler, the runner and its worker thread, with the callbacks that were called: whose they
are, and of which job the signal was. -/
structure Window where
  scheduler : Scheduler := {}
  active : Option Job := none
  worker : Option (Job × WorkerStage) := none
  cancelEvent : Bool := false
  shuttingDown : Bool := false
  posted : List Posted := []
  gui : Gui := .ready
  started : ℕ := 0
  answered : List (Job × Job) := []

namespace Window

variable (p : Platform) (cfg : Settings)

def startJob (w : Window) (kind : JobKind) : Window × Bool :=
  if w.shuttingDown || w.active.isSome then (w, false)
  else
    let job : Job := ⟨w.started, kind⟩
    ({ w with
      active := some job
      worker := some (job, .starting)
      cancelEvent := false
      started := w.started + 1 }, true)

def cancel (w : Window) : Window :=
  if w.active.isSome then { w with cancelEvent := true } else w

def schedule (w : Window) (e : Event) : Window :=
  { w with scheduler := (w.scheduler.step p cfg e).1 }

/-- `_on_timeout`, with `_automatic_sync_requested` as the callback; `safe` says that no editor is
dirty and that the backend can synchronize. -/
def timeout (w : Window) (safe : Bool) (r : Readings) : Window :=
  if !w.scheduler.running || w.scheduler.jobInFlight then w.schedule p cfg (.timeout false r)
  else if safe then
    let (w', ok) := w.startJob .automaticSync
    w'.schedule p cfg (.timeout ok r)
  else w.schedule p cfg (.timeout false r)

/-- What the callbacks of a job tell the scheduler: `_automatic_sync_succeeded`, `_failed`,
`_cancelled` and `_sync_succeeded`. -/
def callback (kind : JobKind) (outcome : JobOutcome) (r : Readings) : Option Event :=
  match kind, outcome with
  | .automaticSync, .succeeded (some result) => some (.jobSucceeded (some result) r)
  | .automaticSync, .succeeded none | .automaticSync, .failed => some (.jobFailed r)
  | .automaticSync, .cancelled => some (.jobSucceeded (some ⟨"complete", ""⟩) r)
  | .sync, .succeeded (some result) => some (.observeResult (some result) r)
  | _, _ => none

/-- `_handle_success`, `_handle_failure`, `_handle_cancelled`: the callbacks are those of the job
that is active now. -/
def handleOutcome (w : Window) (emitter : Job) (outcome : JobOutcome) (r : Readings) : Window :=
  if w.shuttingDown then w
  else match w.active with
    | none => w
    | some owner =>
      let w := { w with answered := (owner, emitter) :: w.answered }
      match callback owner.kind outcome r with
      | none => w
      | some e => w.schedule p cfg e

def handleThreadFinished (w : Window) : Window :=
  { w with active := none, cancelEvent := false }

/-- `_shutdown_background_jobs`, until `shutdown` waits for the thread. -/
def close (w : Window) : Window :=
  { w.cancel with
    scheduler := w.scheduler.stop
    shuttingDown := true
    gui := if w.worker.isNone then .closed else .waiting }

/-- A handler of the GUI thread, a step of the worker thread, or the end of a wait. -/
inductive Step (w : Window) : Window → Prop
  | startJob (ready : w.gui = .ready) (kind : JobKind) (manual : kind ≠ .automaticSync) :
      Step w (w.startJob kind).1
  | startScheduler (ready : w.gui = .ready) (r : Readings) : Step w (w.schedule p cfg (.start r))
  | requestSoon (ready : w.gui = .ready) (delaySeconds : ℤ) (r : Readings) :
      Step w (w.schedule p cfg (.requestSoon delaySeconds r))
  | timeout (ready : w.gui = .ready) (armed : w.scheduler.timer.isSome) (safe : Bool)
      (r : Readings) : Step w (w.timeout p cfg safe r)
  | cancel (ready : w.gui = .ready) : Step w w.cancel
  | skip {job : Job} (starting : w.worker = some (job, .starting)) (cancelled : w.cancelEvent) :
      Step w { w with
        worker := some (job, .reported)
        posted := w.posted ++ [.outcome job .cancelled] }
  | run {job : Job} (starting : w.worker = some (job, .starting))
      (going : w.cancelEvent = false) : Step w { w with worker := some (job, .executing) }
  | report {job : Job} (executing : w.worker = some (job, .executing)) (outcome : JobOutcome) :
      Step w { w with
        worker := some (job, .reported)
        posted := w.posted ++ [.outcome job outcome] }
  -- `deleteLater`, `destroyed`, `quit`
  | finish {job : Job} (reported : w.worker = some (job, .reported)) :
      Step w { w with worker := none, posted := w.posted ++ [.threadFinished] }
  | deliver {job : Job} {outcome : JobOutcome} {rest : List Posted} (loop : w.gui ≠ .waiting)
      (head : w.posted = .outcome job outcome :: rest) (r : Readings)
      (readable : ∀ kind e, callback kind outcome r = some e → e.Readable p) :
      Step w ({ w with posted := rest }.handleOutcome p cfg job outcome r)
  | deliverFinished {rest : List Posted} (loop : w.gui ≠ .waiting)
      (head : w.posted = .threadFinished :: rest) :
      Step w { w with posted := rest }.handleThreadFinished
  | close (ready : w.gui = .ready) : Step w w.close
  | stopped (waiting : w.gui = .waiting) (ended : w.worker = none) :
      Step w { w with gui := .closed }
  -- `thread.wait` gives up: the window stays open
  | gaveUp (waiting : w.gui = .waiting) (running : w.worker.isSome) (r : Readings) :
      Step w ({ w with shuttingDown := false, gui := .ready }.schedule p cfg (.start r))

def Runs : Window → Window → Prop := Relation.ReflTransGen (Step p cfg)

def Pending (w : Window) (job : Job) : Prop :=
  (∃ stage, w.worker = some (job, stage) ∧ stage ≠ .reported) ∨
    ∃ outcome, .outcome job outcome ∈ w.posted

def Answered (w : Window) (job : Job) : Prop := ∃ a ∈ w.answered, a.2.id = job.id

/-- Where the active job is, and the signals that are still to be handled for it. -/
inductive Phase (w : Window) : Prop
  | free (active : w.active = none) (worker : w.worker = none) (posted : w.posted = [])
  | working {job : Job} {stage : WorkerStage} (active : w.active = some job)
      (worker : w.worker = some (job, stage)) (unreported : stage ≠ .reported)
      (posted : w.posted = []) (unanswered : ¬ w.Answered job)
  | reported {job : Job} {outcome : JobOutcome} (active : w.active = some job)
      (worker : w.worker = some (job, .reported)) (posted : w.posted = [.outcome job outcome])
      (unanswered : ¬ w.Answered job)
  | told {job : Job} (active : w.active = some job) (worker : w.worker = some (job, .reported))
      (posted : w.posted = []) (answered : w.Answered job)
  | finished {job : Job} {outcome : JobOutcome} (active : w.active = some job)
      (worker : w.worker = none) (posted : w.posted = [.outcome job outcome, .threadFinished])
      (unanswered : ¬ w.Answered job)
  | last {job : Job} (active : w.active = some job) (worker : w.worker = none)
      (posted : w.posted = [.threadFinished]) (answered : w.gui = .closed ∨ w.Answered job)

structure Sound (cfg : Settings) (w : Window) : Prop where
  gui : w.shuttingDown = true ↔ w.gui ≠ .ready
  closed : w.gui = .closed → w.worker = none
  phase : w.Phase
  own : ∀ a ∈ w.answered, a.1 = a.2
  once : (w.answered.map (·.2.id)).Nodup
  known : ∀ job, w.active = some job ∨ w.Answered job → job.id < w.started
  all : w.gui ≠ .closed → ∀ i < w.started,
    (∃ a ∈ w.answered, a.2.id = i) ∨ ∃ job, w.active = some job ∧ job.id = i
  scheduler : ∃ h, Scheduler.Inv cfg w.scheduler h
  flight : w.scheduler.jobInFlight = true → w.gui = .ready ∧
    ∃ job, w.active = some job ∧ job.kind = .automaticSync ∧ ¬ w.Answered job

section Steps

variable {p cfg} {w w' : Window}

theorem sound_empty : Sound cfg {} where
  gui := by simp
  closed _ := rfl
  phase := .free rfl rfl rfl
  own := by simp
  once := .nil
  known := by simp [Answered]
  all := by simp
  scheduler := ⟨{}, .init cfg⟩
  flight := by simp

theorem Phase.congr (h : w.Phase) (hactive : w'.active = w.active) (hworker : w'.worker = w.worker)
    (hposted : w'.posted = w.posted) (hclosed : w.gui = .closed → w'.gui = .closed)
    (hanswered : w'.answered = w.answered) : w'.Phase := by
  have hjob : ∀ {job : Job}, w'.Answered job ↔ w.Answered job := by
    intro job
    unfold Answered
    rw [hanswered]
  cases h with
  | free active worker posted =>
    exact .free (hactive.trans active) (hworker.trans worker) (hposted.trans posted)
  | working active worker unreported posted unanswered =>
    exact .working (hactive.trans active) (hworker.trans worker) unreported (hposted.trans posted)
      (unanswered ∘ hjob.mp)
  | reported active worker posted unanswered =>
    exact .reported (hactive.trans active) (hworker.trans worker) (hposted.trans posted)
      (unanswered ∘ hjob.mp)
  | told active worker posted answered =>
    exact .told (hactive.trans active) (hworker.trans worker) (hposted.trans posted)
      (hjob.mpr answered)
  | finished active worker posted unanswered =>
    exact .finished (hactive.trans active) (hworker.trans worker) (hposted.trans posted)
      (unanswered ∘ hjob.mp)
  | last active worker posted answered =>
    exact .last (hactive.trans active) (hworker.trans worker) (hposted.trans posted)
      (answered.imp hclosed hjob.mpr)

theorem Sound.schedules (h : w.Sound cfg) {s : Scheduler} (hs : ∃ h, Scheduler.Inv cfg s h)
    (hflight : s.jobInFlight = true → w.gui = .ready ∧
      ∃ job, w.active = some job ∧ job.kind = .automaticSync ∧ ¬ w.Answered job) :
    Sound cfg { w with scheduler := s } where
  gui := h.gui
  closed := h.closed
  phase := h.phase.congr rfl rfl rfl id rfl
  own := h.own
  once := h.once
  known := h.known
  all := h.all
  scheduler := hs
  flight := hflight

theorem flight_step {s : Scheduler} {h : History} (hi : Scheduler.Inv cfg s h) {e : Event}
    (hread : e.Readable p) :
    (e.completes = false → (s.step p cfg e).2 = false →
      (s.step p cfg e).1.jobInFlight = s.jobInFlight) ∧
    (e.completes = true → (s.step p cfg e).1.jobInFlight = false) := by
  have hjobs := (hi.step e hread).jobs
  have hstarted : e.completes = true → (s.step p cfg e).2 = false := by
    cases e <;> first | exact fun _ ↦ rfl | exact fun h ↦ absurd h Bool.false_ne_true
  simp only [History.after, hi.jobs] at hjobs
  refine ⟨fun hcompletes hsame ↦ ?_, fun hcompletes ↦ ?_⟩
  · rw [hcompletes, hsame] at hjobs
    cases hs : s.jobInFlight <;> cases hs' : (s.step p cfg e).1.jobInFlight <;>
      simp [hs, hs'] at hjobs ⊢
  · rw [hcompletes, hstarted hcompletes] at hjobs
    cases hs : s.jobInFlight <;> cases hs' : (s.step p cfg e).1.jobInFlight <;>
      simp [hs, hs'] at hjobs ⊢

theorem Sound.schedule (h : w.Sound cfg) {e : Event} (hread : e.Readable p)
    (hcompletes : e.completes = false) (hstarts : (w.scheduler.step p cfg e).2 = false) :
    (w.schedule p cfg e).Sound cfg := by
  obtain ⟨history, hi⟩ := h.scheduler
  refine h.schedules ⟨_, hi.step e hread⟩ fun hf ↦ h.flight ?_
  rwa [(flight_step hi hread).1 hcompletes hstarts] at hf

theorem stop_inv (s : Scheduler) : Scheduler.Inv cfg s.stop {} where
  started _ h := by cases h
  awake h := by cases h
  jobs := rfl
  grown := .nil
  bounded := by simp

theorem Sound.startJob (h : w.Sound cfg) (ready : w.gui = .ready) (kind : JobKind) :
    ((w.startJob kind).2 = false → (w.startJob kind).1 = w) ∧
      ((w.startJob kind).2 = true → (w.startJob kind).1.Sound cfg ∧
        (w.startJob kind).1.gui = .ready ∧ w.active = none ∧
          (w.startJob kind).1.active = some ⟨w.started, kind⟩ ∧
            ¬ w.Answered ⟨w.started, kind⟩) := by
  unfold Window.startJob
  split
  · exact ⟨fun _ ↦ rfl, fun hf ↦ by cases hf⟩
  · rename_i hfree
    simp only [Bool.or_eq_true, not_or, Bool.not_eq_true, Option.isSome_eq_false_iff,
      Option.isNone_iff_eq_none] at hfree
    have hnew : ¬ w.Answered ⟨w.started, kind⟩ := fun ha ↦
      absurd (h.known _ (Or.inr ha)) (lt_irrefl _)
    refine ⟨fun hf ↦ (by cases hf), fun _ ↦ ⟨?_, ready, hfree.2, rfl, hnew⟩⟩
    refine ⟨h.gui, fun hc ↦ (by cases ready.symm.trans hc), .working rfl rfl (by simp) ?_ hnew,
      h.own, h.once, fun job hj ↦ ?_, fun _ i hi ↦ ?_, h.scheduler, fun hf ↦ ?_⟩
    · cases h.phase with
      | free _ _ posted => exact posted
      | working active | reported active | told active | finished active | last active =>
        cases active.symm.trans hfree.2
    · rcases hj with hj | hj
      · cases hj
        exact Nat.lt_succ_self _
      · exact (h.known _ (Or.inr hj)).trans (Nat.lt_succ_self _)
    · rcases Nat.lt_succ_iff_lt_or_eq.mp hi with hi | rfl
      · refine Or.inl ((h.all (by rw [ready]; exact Gui.noConfusion) i hi).resolve_right ?_)
        rintro ⟨job, hjob, -⟩
        cases hjob.symm.trans hfree.2
      · exact Or.inr ⟨_, rfl, rfl⟩
    · obtain ⟨-, job, hjob, -⟩ := h.flight hf
      cases hjob.symm.trans hfree.2

theorem Sound.timeout (h : w.Sound cfg) (ready : w.gui = .ready) (safe : Bool) (r : Readings) :
    (w.timeout p cfg safe r).Sound cfg := by
  have hidle : ∀ v : Window, v.Sound cfg → (v.schedule p cfg (.timeout false r)).Sound cfg := by
    intro v hv
    refine hv.schedule trivial rfl ?_
    change (v.scheduler.onTimeout p cfg false r).2 = false
    unfold Scheduler.onTimeout
    dsimp only
    split
    · rfl
    · rw [if_neg Bool.false_ne_true]
  unfold Window.timeout
  split
  · exact hidle w h
  · split
    · obtain ⟨hrefused, hstarted⟩ := h.startJob ready .automaticSync
      cases hok : (w.startJob .automaticSync).2 with
      | false =>
        dsimp only
        rw [hok, hrefused hok]
        exact hidle w h
      | true =>
        obtain ⟨hsound, hready, -, hactive, hnew⟩ := hstarted hok
        obtain ⟨history, hi⟩ := hsound.scheduler
        dsimp only
        rw [hok]
        refine hsound.schedules ⟨_, hi.step (.timeout true r) trivial⟩ fun _ ↦
          ⟨hready, _, hactive, rfl, ?_⟩
        rwa [show (w.startJob .automaticSync).1.Answered = w.Answered from ?_]
        unfold Window.startJob
        split <;> rfl
    · exact hidle w h

theorem Sound.answers (h : w.Sound cfg) {job : Job} {rest : List Posted}
    (active : w.active = some job) (unanswered : ¬ w.Answered job)
    (hphase : Phase { w with posted := rest, answered := (job, job) :: w.answered })
    {s : Scheduler} (hs : ∃ h, Scheduler.Inv cfg s h) (hflight : s.jobInFlight = false) :
    Sound cfg
      { w with scheduler := s, posted := rest, answered := (job, job) :: w.answered } where
  gui := h.gui
  closed := h.closed
  phase := hphase.congr rfl rfl rfl id rfl
  own a ha := by
    rcases List.mem_cons.mp ha with rfl | ha
    · rfl
    · exact h.own a ha
  once := by
    refine List.nodup_cons.mpr ⟨fun hin ↦ ?_, h.once⟩
    obtain ⟨a, ha, hid⟩ := List.mem_map.mp hin
    exact unanswered ⟨a, ha, hid⟩
  known other ho := by
    rcases ho with ho | ⟨a, ha, hid⟩
    · exact h.known other (Or.inl ho)
    · rcases List.mem_cons.mp ha with rfl | ha
      · exact hid ▸ h.known job (Or.inl active)
      · exact h.known other (Or.inr ⟨a, ha, hid⟩)
  all hopen i hi :=
    (h.all hopen i hi).imp (fun ⟨a, ha, hid⟩ ↦ ⟨a, List.mem_cons_of_mem _ ha, hid⟩) id
  scheduler := hs
  flight hf := by rw [hflight] at hf; cases hf

theorem Sound.handles (h : w.Sound cfg) (ready : w.gui = .ready) {job : Job} {rest : List Posted}
    {outcome : JobOutcome} (active : w.active = some job) (unanswered : ¬ w.Answered job)
    (hphase : Phase { w with posted := rest, answered := (job, job) :: w.answered }) (r : Readings)
    (readable : ∀ kind e, callback kind outcome r = some e → e.Readable p) :
    ({ w with posted := rest }.handleOutcome p cfg job outcome r).Sound cfg := by
  have hshut : w.shuttingDown = false :=
    Bool.eq_false_iff.mpr fun hs ↦ h.gui.mp hs ready
  obtain ⟨history, hi⟩ := h.scheduler
  have hmanual : job.kind ≠ .automaticSync → w.scheduler.jobInFlight = false := by
    intro hkind
    refine Bool.eq_false_iff.mpr fun hf ↦ ?_
    obtain ⟨-, other, hother, hauto, -⟩ := h.flight hf
    cases hother.symm.trans active
    exact hkind hauto
  unfold handleOutcome
  rw [if_neg (by simp [hshut])]
  split
  · rename_i hnone
    cases active.symm.trans hnone
  rename_i owner howner
  obtain rfl : owner = job := Option.some.inj (howner.symm.trans active)
  cases hcall : callback owner.kind outcome r with
  | none =>
    refine h.answers active unanswered hphase h.scheduler (hmanual fun hkind ↦ ?_)
    rw [hkind] at hcall
    rcases outcome with (_ | _) | _ | _ <;> cases hcall
  | some e =>
    have hread := readable _ e hcall
    refine h.answers active unanswered hphase ⟨_, hi.step e hread⟩ ?_
    cases hcompletes : e.completes with
    | true => exact (flight_step hi hread).2 hcompletes
    | false =>
      have hobserved : owner.kind ≠ .automaticSync ∧ (w.scheduler.step p cfg e).2 = false := by
        refine ⟨fun hkind ↦ ?_, ?_⟩
        · rw [hkind] at hcall
          rcases outcome with (_ | _) | _ | _ <;> cases hcall <;> cases hcompletes
        · unfold callback at hcall
          split at hcall <;> cases hcall <;> rfl
      rw [(flight_step hi hread).1 hcompletes hobserved.2]
      exact hmanual hobserved.1

theorem Sound.works (h : w.Sound cfg) {worker : Option (Job × WorkerStage)} {posted : List Posted}
    (hphase : Phase { w with worker := worker, posted := posted })
    (hclosed : w.gui = .closed → worker = none) :
    Sound cfg { w with worker := worker, posted := posted } :=
  ⟨h.gui, hclosed, hphase, h.own, h.once, h.known, h.all, h.scheduler, h.flight⟩

theorem Sound.unreported (h : w.Sound cfg) {job : Job} {stage : WorkerStage}
    (hworker : w.worker = some (job, stage)) (hstage : stage ≠ .reported) :
    w.active = some job ∧ w.posted = [] ∧ ¬ w.Answered job ∧ w.gui ≠ .closed := by
  have hopen : w.gui ≠ .closed := fun hc ↦ by cases (h.closed hc).symm.trans hworker
  cases h.phase with
  | working active worker _ posted unanswered =>
    cases worker.symm.trans hworker
    exact ⟨active, posted, unanswered, hopen⟩
  | reported _ worker | told _ worker =>
    cases worker.symm.trans hworker
    exact absurd rfl hstage
  | free _ worker | finished _ worker | last _ worker => cases worker.symm.trans hworker

theorem Sound.reports (h : w.Sound cfg) {job : Job} {stage : WorkerStage}
    (hworker : w.worker = some (job, stage)) (hstage : stage ≠ .reported) (outcome : JobOutcome) :
    Sound cfg { w with
      worker := some (job, .reported)
      posted := w.posted ++ [.outcome job outcome] } := by
  obtain ⟨active, posted, unanswered, hopen⟩ := h.unreported hworker hstage
  exact h.works (.reported active rfl (by rw [posted]; rfl) unanswered) fun hc ↦ absurd hc hopen

theorem Sound.cancels (h : w.Sound cfg) : w.cancel.Sound cfg := by
  unfold Window.cancel
  split
  · exact ⟨h.gui, h.closed, h.phase.congr rfl rfl rfl id rfl, h.own, h.once, h.known, h.all,
      h.scheduler, h.flight⟩
  · exact h

theorem Sound.shuts (h : w.Sound cfg) {s : Scheduler} {gui : Gui} (hgui : gui ≠ .ready)
    (hstopped : s.jobInFlight = false) (hs : ∃ h, Scheduler.Inv cfg s h)
    (hclosed : gui = .closed → w.worker = none) (hopen : w.gui ≠ .closed) :
    Sound cfg { w with scheduler := s, shuttingDown := true, gui := gui } where
  gui := iff_of_true rfl hgui
  closed := hclosed
  phase := h.phase.congr rfl rfl rfl (fun hc ↦ absurd hc hopen) rfl
  own := h.own
  once := h.once
  known := h.known
  all _ := h.all hopen
  scheduler := hs
  flight hf := by rw [hstopped] at hf; cases hf

theorem Sound.step (h : w.Sound cfg) (hs : w.Step p cfg w') : w'.Sound cfg := by
  cases hs with
  | startJob ready kind manual =>
    obtain ⟨hrefused, hstarted⟩ := h.startJob ready kind
    cases hok : (w.startJob kind).2 with
    | false => rwa [hrefused hok]
    | true => exact (hstarted hok).1
  | startScheduler ready r => exact h.schedule trivial rfl rfl
  | requestSoon ready delaySeconds r => exact h.schedule trivial rfl rfl
  | timeout ready armed safe r => exact h.timeout ready safe r
  | cancel ready => exact h.cancels
  | skip starting cancelled => exact h.reports starting WorkerStage.noConfusion _
  | run starting going =>
    obtain ⟨active, posted, unanswered, hopen⟩ := h.unreported starting WorkerStage.noConfusion
    exact h.works (.working active rfl WorkerStage.noConfusion posted unanswered) fun hc ↦
      absurd hc hopen
  | report executing outcome => exact h.reports executing WorkerStage.noConfusion outcome
  | finish reported =>
    refine h.works ?_ fun _ ↦ rfl
    cases h.phase with
    | reported active worker posted unanswered =>
      exact .finished active rfl (by rw [posted]; rfl) unanswered
    | told active worker posted answered =>
      exact .last active rfl (by rw [posted]; rfl) (Or.inr answered)
    | working _ worker unreported =>
      cases worker.symm.trans reported
      exact absurd rfl unreported
    | free _ worker | finished _ worker | last _ worker => cases worker.symm.trans reported
  | @deliver job outcome rest loop head r readable =>
    by_cases ready : w.gui = .ready
    · cases h.phase with
      | reported active worker posted unanswered =>
        cases posted.symm.trans head
        exact h.handles ready active unanswered
          (.told active worker rfl ⟨_, List.mem_cons_self, rfl⟩) r readable
      | finished active worker posted unanswered =>
        cases posted.symm.trans head
        exact h.handles ready active unanswered
          (.last active worker rfl (Or.inr ⟨_, List.mem_cons_self, rfl⟩)) r readable
      | free _ _ posted | working _ _ _ posted | told _ _ posted | last _ _ posted =>
        cases posted.symm.trans head
    · have hclosed : w.gui = .closed := by
        cases hg : w.gui <;> first | rfl | exact absurd hg ready | exact absurd hg loop
      have hdropped : { w with posted := rest }.handleOutcome p cfg job outcome r =
          { w with posted := rest } := by
        unfold handleOutcome
        rw [if_pos (h.gui.mpr ready)]
      rw [hdropped]
      refine h.works ?_ fun _ ↦ h.closed hclosed
      cases h.phase with
      | finished active worker posted unanswered =>
        cases posted.symm.trans head
        exact .last active worker rfl (Or.inl hclosed)
      | reported _ worker => cases (h.closed hclosed).symm.trans worker
      | free _ _ posted | working _ _ _ posted | told _ _ posted | last _ _ posted =>
        cases posted.symm.trans head
  | deliverFinished loop head =>
    cases h.phase with
    | last active worker posted answered =>
      cases posted.symm.trans head
      refine ⟨h.gui, h.closed, .free rfl worker rfl, h.own, h.once, fun other ho ↦ ?_,
        fun hopen i hi ↦ ?_, h.scheduler, fun hf ↦ ?_⟩
      · rcases ho with ho | ho
        · cases ho
        · exact h.known other (Or.inr ho)
      · rcases h.all hopen i hi with ha | ⟨other, hother, rfl⟩
        · exact Or.inl ha
        · cases hother.symm.trans active
          exact Or.inl (answered.resolve_left hopen)
      · obtain ⟨ready, other, hother, -, hunanswered⟩ := h.flight hf
        cases hother.symm.trans active
        exact absurd (answered.resolve_left (by rw [ready]; exact Gui.noConfusion)) hunanswered
    | finished _ _ posted | reported _ _ posted => cases posted.symm.trans head
    | free _ _ posted | working _ _ _ posted | told _ _ posted => cases posted.symm.trans head
  | close ready =>
    have hopen : w.gui ≠ .closed := by rw [ready]; exact Gui.noConfusion
    have hsame : w.cancel.worker = w.worker ∧ w.cancel.gui = w.gui := by
      unfold Window.cancel
      split <;> exact ⟨rfl, rfl⟩
    refine h.cancels.shuts ?_ rfl ⟨{}, stop_inv _⟩ (fun hc ↦ ?_) (hsame.2 ▸ hopen)
    · split <;> exact Gui.noConfusion
    · rw [hsame.1]
      split at hc
      · rename_i hnone
        exact Option.isNone_iff_eq_none.mp hnone
      · cases hc
  | stopped waiting ended =>
    have hopen : w.gui ≠ .closed := by rw [waiting]; exact Gui.noConfusion
    have hshut : w.shuttingDown = true := h.gui.mpr (by rw [waiting]; exact Gui.noConfusion)
    have hflight : w.scheduler.jobInFlight = false := by
      refine Bool.eq_false_iff.mpr fun hf ↦ ?_
      cases waiting.symm.trans (h.flight hf).1
    have hsound := @Sound.shuts _ _ h w.scheduler .closed Gui.noConfusion hflight h.scheduler
      (fun _ ↦ ended) hopen
    rwa [← hshut] at hsound
  | gaveUp waiting running r =>
    have hopen : w.gui ≠ .closed := by rw [waiting]; exact Gui.noConfusion
    have hflight : w.scheduler.jobInFlight = true → False := fun hf ↦ by
      cases waiting.symm.trans (h.flight hf).1
    have hsound : Sound cfg { w with shuttingDown := false, gui := .ready } :=
      ⟨by simp, Gui.noConfusion, h.phase.congr rfl rfl rfl (fun hc ↦ absurd hc hopen) rfl, h.own,
        h.once, h.known, fun _ ↦ h.all hopen, h.scheduler, fun hf ↦ (hflight hf).elim⟩
    exact hsound.schedule trivial rfl rfl

theorem Runs.sound (hr : Runs p cfg w w') (h : w.Sound cfg) : w'.Sound cfg := by
  induction hr with
  | refl => exact h
  | tail _ hs ih => exact ih.step hs

end Steps

end Window

/-- Each job answers to its own callbacks once, unless the window is closed before; a running
scheduler waits for its timer or for the answer of its job, and the window closes without a
worker. -/
theorem background_jobs_answer_once (p : Platform) (cfg : Settings) {w : Window}
    (h : Window.Runs p cfg {} w) :
    (∀ a ∈ w.answered, a.1 = a.2) ∧ (w.answered.map (·.2.id)).Nodup ∧
    (w.gui ≠ .closed → w.active = none → ∀ i < w.started, ∃ a ∈ w.answered, a.2.id = i) ∧
    (w.scheduler.running = true → w.scheduler.timer.isSome ∨
      ∃ job, w.active = some job ∧ job.kind = .automaticSync ∧ w.Pending job) ∧
    (w.gui = .closed → w.worker = none) := by
  have hsound := h.sound (Window.sound_empty)
  obtain ⟨history, hi⟩ := hsound.scheduler
  refine ⟨hsound.own, hsound.once, fun hopen hfree i hlt ↦ ?_, fun hrunning ↦ ?_, hsound.closed⟩
  · refine (hsound.all hopen i hlt).resolve_right ?_
    rintro ⟨job, hjob, -⟩
    cases hjob.symm.trans hfree
  · refine (hi.awake hrunning).imp id fun hf ↦ ?_
    obtain ⟨ready, job, hactive, hauto, hunanswered⟩ := hsound.flight hf
    refine ⟨job, hactive, hauto, ?_⟩
    cases hsound.phase with
    | working active worker unreported =>
      cases hactive.symm.trans active
      exact Or.inl ⟨_, worker, unreported⟩
    | reported active _ posted | finished active _ posted =>
      cases hactive.symm.trans active
      exact Or.inr ⟨_, by rw [posted]; exact List.mem_cons_self⟩
    | told active _ _ answered =>
      cases hactive.symm.trans active
      exact absurd answered hunanswered
    | last active _ _ answered =>
      cases hactive.symm.trans active
      exact absurd (answered.resolve_left (by rw [ready]; exact Gui.noConfusion)) hunanswered
    | free active => cases hactive.symm.trans active

/-- An automatic job outlasts the wait of a close and is answered in the window that stays open. -/
theorem background_jobs_answer_once_sample : ∃ w : Window,
    Window.Runs samplePlatform { intervalSeconds := 60 } {} w ∧ w.gui = .ready ∧ w.started = 1 ∧
      w.active = none ∧ ∀ i < w.started, ∃ a ∈ w.answered, a.2.id = i := by
  have h₀ : Window.Runs samplePlatform { intervalSeconds := 60 } {} {} := .refl
  have h₁ := h₀.tail (.startScheduler rfl sampleReadings)
  have h₂ := h₁.tail (.timeout rfl (by decide) true sampleReadings)
  have h₃ := h₂.tail (@Window.Step.run _ _ _ ⟨0, .automaticSync⟩ rfl rfl)
  have h₄ := h₃.tail (.close rfl)
  have h₅ := h₄.tail (.gaveUp rfl rfl sampleReadings)
  have h₆ := h₅.tail (@Window.Step.report _ _ _ ⟨0, .automaticSync⟩ rfl .failed)
  have h₇ := h₆.tail (@Window.Step.finish _ _ _ ⟨0, .automaticSync⟩ rfl)
  have h₈ := h₇.tail (@Window.Step.deliver _ _ _ ⟨0, .automaticSync⟩ .failed _
    Gui.noConfusion rfl sampleReadings fun kind e he ↦ by
      cases kind <;> cases he
      trivial)
  have h₉ := h₈.tail (@Window.Step.deliverFinished _ _ _ _ Gui.noConfusion rfl)
  exact ⟨_, h₉, rfl, rfl, rfl, (background_jobs_answer_once _ _ h₉).2.2.1 Gui.noConfusion rfl⟩

end RiskApp.Client
