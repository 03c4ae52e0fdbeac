import Mathlib.Data.List.Basic

namespace RiskApp.Lib

/-- What a process does next: it asks for an input, sends an output, or ends, with the exception it
raises if there is one. Both exchanges can fail. -/
inductive Node (I O E S : Type)
  | receive (next : Except E I → S)
  | send (output : O) (next : Option E → S)
  | ended (result : Option E)

/-- A process is a transition system, so that one that never ends is a process as well. -/
structure Proc (I O E : Type) where
  State : Type
  start : State
  view : State → Node I O E State

inductive Exchange (I O E : Type)
  | received (answer : Except E I)
  | sent (output : O) (failure : Option E)

inductive Status (E : Type)
  | running
  | ended (result : Option E)

variable {I O E S T σ : Type}

def Node.map (f : S → T) : Node I O E S → Node I O E T
  | .receive next => .receive (f ∘ next)
  | .send output next => .send output (f ∘ next)
  | .ended result => .ended result

inductive RunsFrom (view : S → Node I O E S) : S → List (Exchange I O E) → Status E → Prop
  | stop (s : S) : RunsFrom view s [] .running
  | ended {s : S} {result : Option E} (now : view s = .ended result) :
      RunsFrom view s [] (.ended result)
  | receive {s : S} {next : Except E I → S} {es : List (Exchange I O E)} {status : Status E}
      (answer : Except E I) (now : view s = .receive next)
      (rest : RunsFrom view (next answer) es status) :
      RunsFrom view s (.received answer :: es) status
  | send {s : S} {output : O} {next : Option E → S} {es : List (Exchange I O E)}
      {status : Status E} (failure : Option E) (now : view s = .send output next)
      (rest : RunsFrom view (next failure) es status) :
      RunsFrom view s (.sent output failure :: es) status

variable {es es' : List (Exchange I O E)} {status : Status E}

section

variable {view : S → Node I O E S} {view' : T → Node I O E T} {f : S → T}

theorem RunsFrom.map (hf : ∀ s, view' (f s) = (view s).map f) {s : S}
    (h : RunsFrom view s es status) :
    ∀ t, view' t = (view s).map f → RunsFrom view' t es status := by
  induction h with
  | stop s => exact fun t _ ↦ .stop t
  | ended now => exact fun t ht ↦ .ended (by rw [ht, now]; rfl)
  | receive answer now _ ih => exact fun t ht ↦ .receive answer (by rw [ht, now]; rfl) (ih _ (hf _))
  | send failure now _ ih => exact fun t ht ↦ .send failure (by rw [ht, now]; rfl) (ih _ (hf _))

theorem RunsFrom.of_map (hf : ∀ s, view' (f s) = (view s).map f) {t : T}
    (h : RunsFrom view' t es status) :
    ∀ s, view' t = (view s).map f → RunsFrom view s es status := by
  induction h with
  | stop t => exact fun s _ ↦ .stop s
  | ended now =>
    intro s hs
    rw [hs] at now
    cases hv : view s with
    | receive next => rw [hv] at now; cases now
    | send output next => rw [hv] at now; cases now
    | ended result => rw [hv] at now; cases now; exact .ended hv
  | receive answer now _ ih =>
    intro s hs
    rw [hs] at now
    cases hv : view s with
    | receive next => rw [hv] at now; cases now; exact .receive answer hv (ih _ (hf _))
    | send output next => rw [hv] at now; cases now
    | ended result => rw [hv] at now; cases now
  | send failure now _ ih =>
    intro s hs
    rw [hs] at now
    cases hv : view s with
    | receive next => rw [hv] at now; cases now
    | send output next => rw [hv] at now; cases now; exact .send failure hv (ih _ (hf _))
    | ended result => rw [hv] at now; cases now

theorem RunsFrom.stopped {s : S} (h : RunsFrom view s es status) : RunsFrom view s es .running := by
  induction h with
  | stop s => exact .stop s
  | ended now => exact .stop _
  | receive answer now _ ih => exact .receive answer now ih
  | send failure now _ ih => exact .send failure now ih

end

namespace Proc

def Runs (p : Proc I O E) (es : List (Exchange I O E)) (status : Status E) : Prop :=
  RunsFrom p.view p.start es status

def done (result : Option E) : Proc I O E where
  State := Unit
  start := ()
  view := fun _ ↦ .ended result

/-- Send once, and end so whatever becomes of it. -/
def noting (output : O) (result : Option E) : Proc I O E where
  State := Bool
  start := true
  view
    | true => .send output fun _ ↦ false
    | false => .ended result

def sendView : List O × Option E → Node I O E (List O × Option E)
  | (output :: rest, none) => .send output fun failure ↦ (rest, failure)
  | ([], none) => .ended none
  | (_, some error) => .ended (some error)

/-- Send in order, and end with the exception of the first send that fails. -/
def sending (outputs : List O) : Proc I O E where
  State := List O × Option E
  start := (outputs, none)
  view := sendView

inductive Sends : List O → List (Exchange I O E) → Status E → Prop
  | stop (outputs : List O) : Sends outputs [] .running
  | ended : Sends [] [] (.ended none)
  | failed (output : O) (rest : List O) (error : E) {status : Status E}
      (h : status = .running ∨ status = .ended (some error)) :
      Sends (output :: rest) [.sent output (some error)] status
  | sent {output : O} {rest : List O} {es : List (Exchange I O E)} {status : Status E}
      (h : Sends rest es status) : Sends (output :: rest) (.sent output none :: es) status

theorem runs_done {result : Option E} :
    (done result : Proc I O E).Runs es status ↔
      es = [] ∧ (status = .running ∨ status = .ended result) := by
  constructor
  · intro h
    cases h with
    | stop s => exact ⟨rfl, .inl rfl⟩
    | ended now => cases now; exact ⟨rfl, .inr rfl⟩
    | receive answer now _ => cases now
    | send failure now _ => cases now
  · rintro ⟨rfl, rfl | rfl⟩
    · exact .stop _
    · exact .ended rfl

theorem runs_noting {output : O} {result : Option E} :
    (noting output result : Proc I O E).Runs es status ↔
      es = [] ∧ status = .running ∨
        ∃ failure, es = [.sent output failure] ∧ (status = .running ∨ status = .ended result) := by
  constructor
  · intro h
    cases h with
    | stop _ => exact .inl ⟨rfl, rfl⟩
    | ended now => cases now
    | receive answer now _ => cases now
    | send failure now rest =>
      cases now
      cases rest with
      | stop _ => exact .inr ⟨failure, rfl, .inl rfl⟩
      | ended now => cases now; exact .inr ⟨failure, rfl, .inr rfl⟩
      | receive answer now _ => cases now
      | send failure now _ => cases now
  · rintro (⟨rfl, rfl⟩ | ⟨failure, rfl, rfl | rfl⟩)
    · exact .stop _
    · exact .send failure rfl (.stop _)
    · exact .send failure rfl (.ended rfl)

theorem runs_failed {outputs : List O} {error : E}
    (h : RunsFrom (I := I) sendView (outputs, some error) es status) :
    es = [] ∧ (status = .running ∨ status = .ended (some error)) := by
  cases h with
  | stop _ => exact ⟨rfl, .inl rfl⟩
  | ended now => simp only [sendView, Node.ended.injEq] at now; exact ⟨rfl, .inr (now ▸ rfl)⟩
  | receive answer now _ => simp [sendView] at now
  | send failure now _ => simp [sendView] at now

theorem sends_of_runs {outputs : List O}
    (h : RunsFrom (I := I) (E := E) sendView (outputs, none) es status) :
    Sends outputs es status := by
  induction outputs generalizing es with
  | nil =>
    cases h with
    | stop _ => exact .stop _
    | ended now => simp only [sendView, Node.ended.injEq] at now; exact now ▸ .ended
    | receive answer now _ => simp [sendView] at now
    | send failure now _ => simp [sendView] at now
  | cons output rest ih =>
    cases h with
    | stop _ => exact .stop _
    | ended now => simp [sendView] at now
    | receive answer now _ => simp [sendView] at now
    | send failure now h =>
      simp only [sendView, Node.send.injEq] at now
      obtain ⟨rfl, rfl⟩ := now
      cases failure with
      | none => exact .sent (ih h)
      | some error =>
        obtain ⟨rfl, hstatus⟩ := runs_failed h
        exact .failed output rest error hstatus

theorem runs_of_sends {outputs : List O} (h : Sends outputs es status) :
    RunsFrom (I := I) (E := E) sendView (outputs, none) es status := by
  induction h with
  | stop outputs => exact .stop _
  | ended => exact .ended rfl
  | failed output rest error h =>
    obtain rfl | rfl := h
    · exact .send (some error) rfl (.stop (rest, some error))
    · exact .send (some error) rfl (.ended (by simp only [sendView]))
  | sent _ ih => exact .send none rfl ih

theorem runs_sending {outputs : List O} :
    (sending outputs : Proc I O E).Runs es status ↔ Sends outputs es status :=
  ⟨sends_of_runs, runs_of_sends⟩

end Proc

/-- A wrapper of one call: what it makes of an input and of an output, with a state of its own, and
what it does when the process it wraps has ended. -/
structure Wrapper (σ I O E : Type) where
  start : σ
  onReceive : σ → I → σ × Except E I
  onSend : σ → O → σ × O
  onEnd : σ → Option E → Proc I O E

namespace Wrapper

variable (w : Wrapper σ I O E)

def answer (st : σ) : Except E I → σ × Except E I
  | .ok input => w.onReceive st input
  | .error error => (st, .error error)

inductive State (p : Proc I O E)
  | inside (st : σ) (s : p.State)
  | after (st : σ) (result : Option E) (s : (w.onEnd st result).State)

def view (p : Proc I O E) : State w p → Node I O E (State w p)
  | .inside st s => match p.view s with
    | .receive next => .receive fun a ↦ .inside (w.answer st a).1 (next (w.answer st a).2)
    | .send output next =>
      .send (w.onSend st output).2 fun failure ↦ .inside (w.onSend st output).1 (next failure)
    | .ended result => ((w.onEnd st result).view (w.onEnd st result).start).map (.after st result)
  | .after st result s => ((w.onEnd st result).view s).map (.after st result)

def wrap (p : Proc I O E) : Proc I O E where
  State := State w p
  start := .inside w.start p.start
  view := w.view p

/-- What the outside exchanges with the wrapper, what the wrapper exchanges with the process, and
the wrapper's state before and after. -/
inductive Passes : σ → List (Exchange I O E) → List (Exchange I O E) → σ → Prop
  | none (st : σ) : Passes st [] [] st
  | received {st st' : σ} {es inner : List (Exchange I O E)} (a : Except E I)
      (h : Passes (w.answer st a).1 es inner st') :
      Passes st (.received a :: es) (.received (w.answer st a).2 :: inner) st'
  | sent {st st' : σ} {es inner : List (Exchange I O E)} (output : O) (failure : Option E)
      (h : Passes (w.onSend st output).1 es inner st') :
      Passes st (.sent (w.onSend st output).2 failure :: es) (.sent output failure :: inner) st'

/-- A run of the wrapped process: it goes through the wrapper, and once it has ended the wrapper
goes on by itself. -/
inductive Through (p : Proc I O E) (s : p.State) (st : σ) :
    List (Exchange I O E) → Status E → Prop
  | inside {es inner : List (Exchange I O E)} {st' : σ} (passes : Passes w st es inner st')
      (runs : RunsFrom p.view s inner .running) : Through p s st es .running
  | after {es es' inner : List (Exchange I O E)} {st' : σ} {result : Option E} {status : Status E}
      (passes : Passes w st es inner st') (runs : RunsFrom p.view s inner (.ended result))
      (own : (w.onEnd st' result).Runs es' status) : Through p s st (es ++ es') status

variable {w} {p : Proc I O E} {st : σ} {s : p.State}

theorem Passes.exists_inner {st' : σ} {inner : List (Exchange I O E)}
    (h : Passes w st es inner st') {output : O} {failure : Option E}
    (hmem : .sent output failure ∈ es) :
    ∃ st' output', .sent output' failure ∈ inner ∧ output = (w.onSend st' output').2 := by
  induction h with
  | none st => exact absurd hmem List.not_mem_nil
  | received a _ ih =>
    obtain hmem | hmem := List.mem_cons.mp hmem
    · cases hmem
    · obtain ⟨st', output', hinner, houtput⟩ := ih hmem
      exact ⟨st', output', List.mem_cons_of_mem _ hinner, houtput⟩
  | @sent st _ _ _ output' failure' _ ih =>
    obtain hmem | hmem := List.mem_cons.mp hmem
    · cases hmem
      exact ⟨st, output', List.mem_cons_self, rfl⟩
    · obtain ⟨st', output', hinner, houtput⟩ := ih hmem
      exact ⟨st', output', List.mem_cons_of_mem _ hinner, houtput⟩

theorem view_receive {next : Except E I → p.State} (now : p.view s = .receive next) :
    w.view p (.inside st s) =
      .receive fun a ↦ .inside (w.answer st a).1 (next (w.answer st a).2) := by
  simp only [view, now]

theorem view_send {output : O} {next : Option E → p.State} (now : p.view s = .send output next) :
    w.view p (.inside st s) =
      .send (w.onSend st output).2 fun failure ↦ .inside (w.onSend st output).1 (next failure) := by
  simp only [view, now]

theorem view_ended {result : Option E} (now : p.view s = .ended result) :
    w.view p (.inside st s) =
      ((w.onEnd st result).view (w.onEnd st result).start).map (.after st result) := by
  simp only [view, now]

theorem view_after {result : Option E} (x : (w.onEnd st result).State) :
    w.view p (.after st result x) = ((w.onEnd st result).view x).map (.after st result) := rfl

theorem through_receive {next : Except E I → p.State} {a : Except E I}
    (now : p.view s = .receive next)
    (h : Through w p (next (w.answer st a).2) (w.answer st a).1 es status) :
    Through w p s st (.received a :: es) status := by
  cases h with
  | inside passes runs => exact .inside (.received a passes) (.receive _ now runs)
  | after passes runs own => exact .after (.received a passes) (.receive _ now runs) own

theorem through_send {output : O} {next : Option E → p.State} {failure : Option E}
    (now : p.view s = .send output next)
    (h : Through w p (next failure) (w.onSend st output).1 es status) :
    Through w p s st (.sent (w.onSend st output).2 failure :: es) status := by
  cases h with
  | inside passes runs => exact .inside (.sent output failure passes) (.send _ now runs)
  | after passes runs own => exact .after (.sent output failure passes) (.send _ now runs) own

theorem through_ended {result : Option E} (now : p.view s = .ended result)
    (h : RunsFrom (w.view p) (.inside st s) es status) : Through w p s st es status := by
  have hown : (w.onEnd st result).Runs es status :=
    RunsFrom.of_map view_after h _ (view_ended now)
  exact .after (.none st) (.ended now) hown

theorem through_of_runs {x : State w p} (h : RunsFrom (w.view p) x es status) :
    ∀ {st s}, x = .inside st s → Through w p s st es status := by
  induction h with
  | stop x =>
    rintro st s rfl
    exact .inside (.none st) (.stop s)
  | @ended x result now =>
    rintro st s rfl
    cases hv : p.view s with
    | receive next => simp [view, hv] at now
    | send output next => simp [view, hv] at now
    | ended result => exact through_ended hv (.ended now)
  | @receive x next es status a now rest ih =>
    rintro st s rfl
    cases hv : p.view s with
    | receive next =>
      simp only [view, hv, Node.receive.injEq] at now
      subst now
      exact through_receive hv (ih rfl)
    | send output next => simp [view, hv] at now
    | ended result => exact through_ended hv (.receive a now rest)
  | @send x output next es status failure now rest ih =>
    rintro st s rfl
    cases hv : p.view s with
    | receive next => simp [view, hv] at now
    | send output next =>
      simp only [view, hv, Node.send.injEq] at now
      obtain ⟨rfl, rfl⟩ := now
      exact through_send hv (ih rfl)
    | ended result => exact through_ended hv (.send failure now rest)

theorem runs_inside {inner : List (Exchange I O E)} {st' : σ} (passes : Passes w st es inner st')
    {status' : Status E} (own : ∀ s' : p.State, status' = .running ∨
      (∃ result, status' = .ended result ∧ p.view s' = .ended result) →
      RunsFrom (w.view p) (.inside st' s') es' status)
    (runs : RunsFrom p.view s inner status') :
    RunsFrom (w.view p) (.inside st s) (es ++ es') status := by
  induction passes generalizing s with
  | none st =>
    cases runs with
    | stop _ => exact own s (.inl rfl)
    | ended now => exact own s (.inr ⟨_, rfl, now⟩)
  | received a _ ih =>
    cases runs with
    | receive _ now rest => exact .receive a (view_receive now) (ih own rest)
  | sent output failure _ ih =>
    cases runs with
    | send _ now rest => exact .send failure (view_send now) (ih own rest)

theorem runs_wrap : (w.wrap p).Runs es status ↔ Through w p p.start w.start es status := by
  constructor
  · exact fun h ↦ through_of_runs h rfl
  · intro h
    cases h with
    | @inside es inner st' passes runs =>
      rw [← List.append_nil es]
      exact runs_inside passes (fun s' _ ↦ .stop _) runs
    | @after es es' inner st' result status passes runs own =>
      refine runs_inside passes (fun s' hs' ↦ ?_) runs
      obtain hrun | ⟨r, hr, hview⟩ := hs'
      · cases hrun
      · cases hr
        exact RunsFrom.map view_after own _ (view_ended hview)

end Wrapper

end RiskApp.Lib
