import Mathlib.Data.String.Basic
import RiskApp.Client.BackgroundJobs
import RiskApp.Client.Sidebar

namespace RiskApp.Client

open Lib AutomaticSync

inductive RunState
  | complete
  | cancelled
  | retryWait
  | attentionRequired
  | authenticationRequired
  | permissionDenied
  deriving DecidableEq

namespace RunState

def value : RunState → String
  | complete => "complete"
  | cancelled => "cancelled"
  | retryWait => "retry_wait"
  | attentionRequired => "attention_required"
  | authenticationRequired => "authentication_required"
  | permissionDenied => "permission_denied"

def ofFailure : FailureKind → RunState
  | .transient => retryWait
  | .authentication => authenticationRequired
  | .permission => permissionDenied
  | .validation | .conflict | .error => attentionRequired

def urgency : RunState → ℕ
  | complete => 0
  | cancelled | attentionRequired | permissionDenied => 1
  | retryWait => 2
  | authenticationRequired => 3

end RunState

inductive Escaped
  | api (status : ℕ) (detail : String)
  | os (detail : String)
  | other (detail : String)

def Escaped.detail : Escaped → String
  | api _ detail | os detail | other detail => detail

structure SyncError where
  reason : String
  failureKind : FailureKind
  retryable : Bool
  requestFailed : Bool
  detail : String

structure Summary where
  projectId : Option String := none
  state : RunState := .complete
  syncError : Option SyncError := none
  migratedTo : String := ""
  nextRetryAt : String := ""

def isSyncable (p : Project) : Bool := p.id ≠ "" && !(isLocalId p.id && p.createdBy = "")

def failedProjectSummary (e : Escaped) : Summary :=
  let (requestFailed, failureKind, retryable) := match e with
    | .api status _ => (true, classifyHttpStatus status)
    | .os _ => (true, classifyHttpStatus 0)
    | .other _ => (false, .error, false)
  { state := .ofFailure failureKind
    syncError :=
      some ⟨"project_sync_failed", failureKind, retryable, requestFailed, e.detail⟩ }

def endsAutomaticPass (s : Summary) : Bool :=
  (s.state = .authenticationRequired || s.state = .retryWait) && s.syncError.any (·.requestFailed)

def combinedState (summaries : List Summary) : RunState :=
  let states := summaries.map Summary.state
  if .authenticationRequired ∈ states then .authenticationRequired
  else if .retryWait ∈ states then .retryWait
  else if states.any (· ≠ .complete) then .attentionRequired
  else .complete

def earliestRetry (summaries : List Summary) : Option String :=
  ((summaries.map Summary.nextRetryAt).filter (· ≠ "")).min?

theorem combinedState_ne_cancelled (summaries : List Summary) :
    combinedState summaries ≠ .cancelled := by
  unfold combinedState
  dsimp only
  split
  · exact RunState.noConfusion
  · split
    · exact RunState.noConfusion
    · split <;> exact RunState.noConfusion

theorem urgency_le_combinedState {summaries : List Summary} {s : Summary} (hs : s ∈ summaries) :
    s.state.urgency ≤ (combinedState summaries).urgency := by
  have hmem : s.state ∈ summaries.map Summary.state := List.mem_map_of_mem hs
  unfold combinedState
  dsimp only
  split
  · cases s.state <;> decide
  · rename_i hauth
    have hna : s.state ≠ .authenticationRequired := fun he ↦ hauth (he ▸ hmem)
    split
    · revert hna
      cases s.state <;> decide
    · rename_i hretry
      have hnr : s.state ≠ .retryWait := fun he ↦ hretry (he ▸ hmem)
      split
      · revert hna hnr
        cases s.state <;> decide
      · rename_i hany
        have hcomplete : s.state = .complete := by
          by_contra hne
          exact hany (List.any_eq_true.mpr ⟨s.state, hmem, decide_eq_true hne⟩)
        rw [hcomplete]

theorem combinedState_attained (summaries : List Summary) : combinedState summaries = .complete ∨
    ∃ s ∈ summaries, s.state.urgency = (combinedState summaries).urgency := by
  unfold combinedState
  dsimp only
  split
  · rename_i hauth
    obtain ⟨s, hs, he⟩ := List.mem_map.mp hauth
    exact Or.inr ⟨s, hs, by rw [he]⟩
  · rename_i hauth
    split
    · rename_i hretry
      obtain ⟨s, hs, he⟩ := List.mem_map.mp hretry
      exact Or.inr ⟨s, hs, by rw [he]⟩
    · rename_i hretry
      split
      · rename_i hany
        obtain ⟨state, hstate, hne⟩ := List.any_eq_true.mp hany
        obtain ⟨s, hs, rfl⟩ := List.mem_map.mp hstate
        have hna : s.state ≠ .authenticationRequired := fun he ↦ hauth (he ▸ hstate)
        have hnr : s.state ≠ .retryWait := fun he ↦ hretry (he ▸ hstate)
        have hnc : s.state ≠ .complete := of_decide_eq_true hne
        refine Or.inr ⟨s, hs, ?_⟩
        revert hna hnr hnc
        cases s.state <;> decide
      · exact Or.inl rfl

theorem mem_retries {summaries : List Summary} {t : String} :
    t ∈ (summaries.map Summary.nextRetryAt).filter (· ≠ "") ↔
      (∃ s ∈ summaries, s.nextRetryAt = t) ∧ t ≠ "" := by
  rw [List.mem_filter, List.mem_map, decide_eq_true_eq]

theorem earliestRetry_eq_some {summaries : List Summary} {t : String} :
    earliestRetry summaries = some t ↔ ((∃ s ∈ summaries, s.nextRetryAt = t) ∧ t ≠ "") ∧
      ∀ s ∈ summaries, s.nextRetryAt ≠ "" → t ≤ s.nextRetryAt := by
  unfold earliestRetry
  rw [List.min?_eq_some_iff, mem_retries]
  refine and_congr_right fun _ ↦ ⟨fun h s hs hne ↦ ?_, fun h t' ht' ↦ ?_⟩
  · exact h _ (mem_retries.mpr ⟨⟨s, hs, rfl⟩, hne⟩)
  · obtain ⟨⟨s, hs, rfl⟩, hne⟩ := mem_retries.mp ht'
    exact h s hs hne

theorem earliestRetry_eq_none {summaries : List Summary} :
    earliestRetry summaries = none ↔ ∀ s ∈ summaries, s.nextRetryAt = "" := by
  unfold earliestRetry
  rw [List.min?_eq_none_iff, List.eq_nil_iff_forall_not_mem]
  refine ⟨fun h s hs ↦ ?_, fun h t ht ↦ ?_⟩
  · by_contra hne
    exact h _ (mem_retries.mpr ⟨⟨s, hs, rfl⟩, hne⟩)
  · obtain ⟨⟨s, hs, rfl⟩, hne⟩ := mem_retries.mp ht
    exact hne (h s hs)

/-- What a worker has of its backend and of the cancel event; every call changes the world. -/
structure Backend (σ : Type) where
  isCancelled : σ → Bool
  listSyncProjects : σ → Except Escaped (List Project) × σ
  syncProject : String → σ → Except Escaped Summary × σ
  exportAuthenticatedRemote : σ → Except Escaped Bool × σ

structure PassResult where
  state : RunState
  projects : List Summary
  projectIdMigrations : List (String × String) := []
  nextRetryAt : Option String := none
  visibleProjects : Option (List Project) := none
  authenticatedRemote : Bool := false

def PassResult.jobResult (r : PassResult) : JobResult := ⟨r.state.value, r.nextRetryAt.getD ""⟩

namespace Backend

variable {σ : Type} (b : Backend σ)

def syncIsolated (project : Project) (w : σ) : Summary × σ :=
  let (result, w) := b.syncProject project.id w
  let summary := match result with
    | .ok summary => summary
    | .error e => failedProjectSummary e
  ({ summary with projectId := some (summary.projectId.getD project.id) }, w)

def promote (migrations : List (String × String)) (project : Project) (summary : Summary) :
    List (String × String) :=
  if summary.migratedTo = "" then migrations
  else Table.assign Prod.fst (project.id, summary.migratedTo) migrations

/-- The loop of `_run_automatic_sync`, with whether it returns from the inside. -/
def passLoop : List Project → List Summary → List (String × String) → σ →
    Bool × List Summary × List (String × String) × σ
  | [], summaries, migrations, w => (false, summaries, migrations, w)
  | project :: todo, summaries, migrations, w =>
    if b.isCancelled w then (migrations.isEmpty, summaries, migrations, w)
    else
      let (summary, w) := b.syncIsolated project w
      let summaries := summaries ++ [summary]
      let migrations := promote migrations project summary
      if endsAutomaticPass summary then (false, summaries, migrations, w)
      else passLoop todo summaries migrations w

/-- A project under the id that it was published with. -/
def rename (migrations : List (String × String)) (p : Project) : Project :=
  { p with id := ((Table.find Prod.fst p.id migrations).map Prod.snd).getD p.id }

def refreshAfterMigrations (projects : List Project) (migrations : List (String × String)) (w : σ) :
    List Project × σ :=
  if b.isCancelled w then (projects.map (rename migrations), w)
  else match b.listSyncProjects w with
    | (.ok projects, w) => (projects, w)
    | (.error _, w) => (projects.map (rename migrations), w)

def exportRemote (wanted : Bool) (result : PassResult) (w : σ) : Except Escaped PassResult × σ :=
  if !wanted || result.state = .authenticationRequired || result.state = .cancelled then
    (.ok result, w)
  else match b.exportAuthenticatedRemote w with
    | (.ok exported, w) => (.ok { result with authenticatedRemote := exported }, w)
    | (.error e, w) => (.error e, w)

def finished (summaries : List Summary) (migrations : List (String × String))
    (visible : List Project) : PassResult where
  state := combinedState summaries
  projects := summaries
  projectIdMigrations := migrations
  nextRetryAt := earliestRetry summaries
  visibleProjects := some visible

def runAutomaticSync (wanted : Bool) (w : σ) : Except Escaped PassResult × σ :=
  match b.listSyncProjects w with
  | (.error e, w) => (.error e, w)
  | (.ok projects, w) => match b.passLoop (projects.filter isSyncable) [] [] w with
    | (true, summaries, _, w) => (.ok { state := .cancelled, projects := summaries }, w)
    | (false, summaries, migrations, w) =>
      let (visible, w) :=
        if migrations = [] then (projects, w) else b.refreshAfterMigrations projects migrations w
      b.exportRemote wanted (finished summaries migrations visible) w

/-- What a pass has tried, each project from where the one before it left the world. -/
inductive Visits : σ → List (Project × Summary) → σ → Prop
  | nil (w : σ) : Visits w [] w
  | cons {project : Project} {summary : Summary} {w w' w'' : σ} {visits : List (Project × Summary)}
      (alive : b.isCancelled w = false) (sync : b.syncIsolated project w = (summary, w'))
      (rest : Visits w' visits w'') : Visits w ((project, summary) :: visits) w''

/-- The projects are tried in their order, until a summary ends the pass or it is cancelled. -/
structure Passed (todo : List Project) (w : σ) (visits : List (Project × Summary)) (w' : σ) :
    Prop where
  visited : b.Visits w visits w'
  order : visits.map Prod.fst <+: todo
  goesOn : ∀ v ∈ visits.dropLast, endsAutomaticPass v.2 = false
  all : visits.map Prod.fst = todo ∨ b.isCancelled w' = true ∨
    ∃ v ∈ visits.getLast?, endsAutomaticPass v.2 = true

def promotions (visits : List (Project × Summary)) : List (String × String) :=
  (visits.filter fun v ↦ v.2.migratedTo ≠ "").map fun v ↦ (v.1.id, v.2.migratedTo)

theorem promotions_cons (project : Project) (summary : Summary)
    (visits : List (Project × Summary)) (migrations : List (String × String)) :
    (promotions ((project, summary) :: visits)).foldl (fun l m ↦ Table.assign Prod.fst m l)
        migrations =
      (promotions visits).foldl (fun l m ↦ Table.assign Prod.fst m l)
        (promote migrations project summary) := by
  unfold promotions promote
  by_cases h : summary.migratedTo = ""
  · rw [List.filter_cons_of_neg (by simpa using h), if_pos h]
  · rw [List.filter_cons_of_pos (by simpa using h), if_neg h]
    rfl

theorem assign_ne_nil (m : String × String) (l : List (String × String)) :
    Table.assign Prod.fst m l ≠ [] := by
  intro h
  have hfind := Table.find_assign Prod.fst m.1 m l
  rw [if_pos rfl, h] at hfind
  cases hfind

theorem foldl_assign_eq_nil {ms l : List (String × String)}
    (h : ms.foldl (fun l m ↦ Table.assign Prod.fst m l) l = []) : ms = [] ∧ l = [] := by
  induction ms generalizing l with
  | nil => exact ⟨rfl, h⟩
  | cons m ms ih => exact absurd (ih h).2 (assign_ne_nil m l)

variable {b} {w w' : σ} {project : Project} {summary : Summary}
  {visits : List (Project × Summary)} {todo : List Project}

theorem Passed.cons (alive : b.isCancelled w = false)
    (sync : b.syncIsolated project w = (summary, w')) (goes : endsAutomaticPass summary = false)
    {w'' : σ} (h : b.Passed todo w' visits w'') :
    b.Passed (project :: todo) w ((project, summary) :: visits) w'' where
  visited := .cons alive sync h.visited
  order := List.cons_prefix_cons.mpr ⟨rfl, h.order⟩
  goesOn v hv := by
    cases visits with
    | nil => cases hv
    | cons v' visits =>
      rcases List.mem_cons.mp hv with rfl | hv
      · exact goes
      · exact h.goesOn v hv
  all := by
    rcases h.all with hall | hcancelled | ⟨v, hv, hends⟩
    · exact Or.inl (congrArg (project :: ·) hall)
    · exact Or.inr (Or.inl hcancelled)
    · refine Or.inr (Or.inr ⟨v, ?_, hends⟩)
      rw [List.getLast?_cons, Option.mem_def.mp hv]
      rfl

variable (b)

/-- The loop: what it has tried, and when it returns at once. -/
theorem passLoop_passed (todo : List Project) (summaries : List Summary)
    (migrations : List (String × String)) (w : σ) :
    ∃ returns visits w', b.Passed todo w visits w' ∧
      b.passLoop todo summaries migrations w = (returns, summaries ++ visits.map Prod.snd,
        (promotions visits).foldl (fun l m ↦ Table.assign Prod.fst m l) migrations, w') ∧
      (returns = true ↔ visits.map Prod.fst ≠ todo ∧ b.isCancelled w' = true ∧
        (∀ v ∈ visits, endsAutomaticPass v.2 = false) ∧ promotions visits = [] ∧
        migrations = []) := by
  induction todo generalizing summaries migrations w with
  | nil =>
    refine ⟨false, [], w, ⟨.nil w, List.nil_prefix, fun v hv ↦ (nomatch hv), Or.inl rfl⟩, ?_, ?_⟩
    · unfold passLoop
      rw [List.map_nil, List.append_nil]
      rfl
    · exact ⟨fun h ↦ (nomatch h), fun h ↦ absurd rfl h.1⟩
  | cons project todo ih =>
    unfold passLoop
    by_cases hcancelled : b.isCancelled w = true
    · refine ⟨migrations.isEmpty, [], w, ⟨.nil w, List.nil_prefix, fun v hv ↦ (nomatch hv),
        Or.inr (Or.inl hcancelled)⟩, ?_, ?_⟩
      · rw [if_pos hcancelled, List.map_nil, List.append_nil]
        rfl
      · rw [List.isEmpty_iff]
        refine ⟨fun h ↦ ⟨(List.cons_ne_nil _ _).symm, hcancelled, fun v hv ↦ (nomatch hv), rfl, h⟩,
          ?_⟩
        exact fun h ↦ h.2.2.2.2
    · have halive : b.isCancelled w = false := Bool.eq_false_of_not_eq_true hcancelled
      rw [if_neg hcancelled]
      rcases hsync : b.syncIsolated project w with ⟨summary, w₁⟩
      dsimp only
      by_cases hends : endsAutomaticPass summary = true
      · refine ⟨false, [(project, summary)], w₁, ⟨.cons halive hsync (.nil w₁), ?_,
          fun v hv ↦ (nomatch hv), Or.inr (Or.inr ⟨_, rfl, hends⟩)⟩, ?_, ?_⟩
        · exact List.cons_prefix_cons.mpr ⟨rfl, List.nil_prefix⟩
        · rw [if_pos hends, promotions_cons]
          rfl
        · refine ⟨fun h ↦ (nomatch h), fun h ↦ ?_⟩
          exact Bool.noConfusion (hends.symm.trans (h.2.2.1 _ List.mem_cons_self))
      · have hgoes : endsAutomaticPass summary = false := Bool.eq_false_of_not_eq_true hends
        obtain ⟨returns, visits, w₂, hpassed, hloop, hreturns⟩ :=
          ih (summaries ++ [summary]) (promote migrations project summary) w₁
        refine ⟨returns, (project, summary) :: visits, w₂, hpassed.cons halive hsync hgoes, ?_, ?_⟩
        · rw [if_neg hends, hloop, promotions_cons, List.map_cons, List.append_assoc,
            List.singleton_append]
        · rw [hreturns]
          have hnone : promotions visits = [] ∧ promote migrations project summary = [] ↔
              promotions ((project, summary) :: visits) = [] ∧ migrations = [] := by
            constructor
            · rintro ⟨hvisits, hnow⟩
              refine foldl_assign_eq_nil ?_
              rw [promotions_cons, hvisits, hnow]
              rfl
            · rintro ⟨hvisits, hnow⟩
              refine foldl_assign_eq_nil ?_
              rw [← promotions_cons, hvisits, hnow]
              rfl
          constructor
          · rintro ⟨hall, hdone, hquiet, hpromoted⟩
            refine ⟨fun he ↦ hall (List.tail_eq_of_cons_eq he), hdone, fun v hv ↦ ?_,
              hnone.mp hpromoted⟩
            rcases List.mem_cons.mp hv with rfl | hv
            · exact hgoes
            · exact hquiet v hv
          · rintro ⟨hall, hdone, hquiet, hpromoted⟩
            refine ⟨fun he ↦ hall (congrArg (project :: ·) he), hdone,
              fun v hv ↦ hquiet v (List.mem_cons_of_mem _ hv), hnone.mpr hpromoted⟩

variable {b}

/-- What a pass that is not cancelled hands over: the most urgent state, the earliest time for a
retry, the promotions and the projects to show. -/
structure Hands (b : Backend σ) (projects : List Project) (visits : List (Project × Summary))
    (w : σ) (r : PassResult) : Prop where
  state : ∀ s ∈ r.projects, s.state.urgency ≤ r.state.urgency
  attained : r.state = .complete ∨ ∃ s ∈ r.projects, s.state.urgency = r.state.urgency
  retry : ∀ t, r.nextRetryAt = some t ↔ ((∃ s ∈ r.projects, s.nextRetryAt = t) ∧ t ≠ "") ∧
    ∀ s ∈ r.projects, s.nextRetryAt ≠ "" → t ≤ s.nextRetryAt
  backsOff : (Scheduler.outcome (some r.jobResult)).1 ∈ transientStates ↔ 2 ≤ r.state.urgency ∨
    r.state = .complete ∧ ∃ s ∈ r.projects, s.nextRetryAt ≠ ""
  migrations : r.projectIdMigrations = Table.dict Prod.fst (promotions visits)
  unpromoted : promotions visits = [] → r.visibleProjects = some projects
  visible : promotions visits ≠ [] →
    r.visibleProjects = some (projects.map (rename r.projectIdMigrations)) ∨
      b.isCancelled w = false ∧ ∃ shown w', b.listSyncProjects w = (.ok shown, w') ∧
        r.visibleProjects = some shown

theorem earliestRetry_getD {summaries : List Summary} :
    (earliestRetry summaries).getD "" ≠ "" ↔ ∃ s ∈ summaries, s.nextRetryAt ≠ "" := by
  cases h : earliestRetry summaries with
  | none =>
    refine ⟨fun hne ↦ absurd rfl hne, fun ⟨s, hs, hne⟩ ↦ ?_⟩
    exact absurd (earliestRetry_eq_none.mp h s hs) hne
  | some t =>
    obtain ⟨⟨⟨s, hs, rfl⟩, hne⟩, -⟩ := earliestRetry_eq_some.mp h
    exact ⟨fun _ ↦ ⟨s, hs, hne⟩, fun _ ↦ hne⟩

theorem outcome_transient (state : RunState) (retry : String) :
    (Scheduler.outcome (some ⟨state.value, retry⟩)).1 ∈ transientStates ↔
      2 ≤ state.urgency ∨ state = .complete ∧ retry ≠ "" := by
  by_cases hretry : retry = ""
  · subst hretry
    cases state <;> decide
  · unfold Scheduler.outcome
    cases state <;> simp [RunState.value, RunState.urgency, transientStates, hretry]

theorem refreshAfterMigrations_shows (b : Backend σ) (projects : List Project)
    (migrations : List (String × String)) (w : σ) :
    (b.refreshAfterMigrations projects migrations w).1 = projects.map (rename migrations) ∨
      b.isCancelled w = false ∧ ∃ shown w', b.listSyncProjects w = (.ok shown, w') ∧
        (b.refreshAfterMigrations projects migrations w).1 = shown := by
  unfold refreshAfterMigrations
  by_cases hcancelled : b.isCancelled w = true
  · rw [if_pos hcancelled]
    exact Or.inl rfl
  · rw [if_neg hcancelled]
    cases hlist : b.listSyncProjects w with
    | mk result w' =>
      cases result with
      | error e => exact Or.inl rfl
      | ok shown => exact Or.inr ⟨Bool.eq_false_of_not_eq_true hcancelled, shown, w', rfl, rfl⟩

theorem exportRemote_ok (b : Backend σ) (wanted : Bool) (r : PassResult) (w : σ) :
    match (b.exportRemote wanted r w).1 with
    | .error e => wanted = true ∧ (b.exportAuthenticatedRemote w).1 = .error e
    | .ok r' => ∃ exported, r' = { r with authenticatedRemote := exported } := by
  unfold exportRemote
  by_cases hskip : (!wanted || r.state = .authenticationRequired || r.state = .cancelled) = true
  · rw [if_pos hskip]
    exact ⟨r.authenticatedRemote, rfl⟩
  · rw [if_neg hskip]
    have hwanted : wanted = true := by
      by_contra hno
      exact hskip (by rw [Bool.eq_false_of_not_eq_true hno]; rfl)
    cases hexport : b.exportAuthenticatedRemote w with
    | mk result w' =>
      cases result with
      | error e => exact ⟨hwanted, rfl⟩
      | ok exported => exact ⟨exported, rfl⟩

theorem dict_eq_nil {visits : List (Project × Summary)} :
    Table.dict Prod.fst (promotions visits) = [] ↔ promotions visits = [] :=
  ⟨fun h ↦ (foldl_assign_eq_nil h).1, fun h ↦ by rw [h]; rfl⟩

theorem finished_hands (b : Backend σ) (projects : List Project)
    (visits : List (Project × Summary)) (w : σ) (exported : Bool) :
    Hands b projects visits w
      { finished (visits.map Prod.snd) (Table.dict Prod.fst (promotions visits))
          (if Table.dict Prod.fst (promotions visits) = [] then (projects, w)
            else b.refreshAfterMigrations projects
              (Table.dict Prod.fst (promotions visits)) w).1 with
        authenticatedRemote := exported } where
  state s hs := urgency_le_combinedState hs
  attained := combinedState_attained _
  retry t := earliestRetry_eq_some
  backsOff := by
    rw [← earliestRetry_getD]
    exact outcome_transient _ _
  migrations := rfl
  unpromoted h := by
    rw [if_pos (dict_eq_nil.mpr h)]
    rfl
  visible h := by
    rw [if_neg fun he ↦ h (dict_eq_nil.mp he)]
    rcases b.refreshAfterMigrations_shows projects (Table.dict Prod.fst (promotions visits)) w with
      hrenamed | ⟨halive, shown, w', hlist, hshown⟩
    · exact Or.inl (congrArg some hrenamed)
    · exact Or.inr ⟨halive, shown, w', hlist, congrArg some hshown⟩

/-- An automatic pass tries the projects that can be synchronized in their order, each from where
the one before it left the world, and a failure of one does not keep it from the others: it stops
early only when it is cancelled or a summary tells of a failed request that needs a login or a later
retry. It fails only when the list of projects or the session cannot be had, reports itself
cancelled only when no promotion would be lost, and otherwise hands over everything that it did. -/
theorem automatic_pass_hands_over (b : Backend σ) (wanted : Bool) (w : σ) :
    match (b.runAutomaticSync wanted w).1 with
    | .error e => (b.listSyncProjects w).1 = .error e ∨
        wanted = true ∧ ∃ w', (b.exportAuthenticatedRemote w').1 = .error e
    | .ok r => ∃ projects w₁ visits w₂, b.listSyncProjects w = (.ok projects, w₁) ∧
        b.Passed (projects.filter isSyncable) w₁ visits w₂ ∧ r.projects = visits.map Prod.snd ∧
        (r.state = .cancelled ↔ visits.map Prod.fst ≠ projects.filter isSyncable ∧
          b.isCancelled w₂ = true ∧ (∀ v ∈ visits, endsAutomaticPass v.2 = false) ∧
          promotions visits = []) ∧
        (r.state ≠ .cancelled → Hands b projects visits w₂ r) := by
  rcases hlist : b.listSyncProjects w with ⟨e | projects, w₁⟩
  · have hrun : (b.runAutomaticSync wanted w).1 = .error e := by
      unfold runAutomaticSync
      rw [hlist]
    rw [hrun]
    exact Or.inl rfl
  · obtain ⟨returns, visits, w₂, hpassed, hloop, hreturns⟩ :=
      b.passLoop_passed (projects.filter isSyncable) [] [] w₁
    rw [and_iff_left rfl] at hreturns
    cases returns with
    | true =>
      have hrun : (b.runAutomaticSync wanted w).1 =
          .ok { state := .cancelled, projects := visits.map Prod.snd } := by
        unfold runAutomaticSync
        rw [hlist]
        dsimp only
        rw [hloop]
        rfl
      rw [hrun]
      exact ⟨projects, w₁, visits, w₂, rfl, hpassed, rfl,
        ⟨fun _ ↦ hreturns.mp rfl, fun _ ↦ rfl⟩, fun hne ↦ absurd rfl hne⟩
    | false =>
      let migrations := Table.dict Prod.fst (promotions visits)
      let shown :=
        if migrations = [] then (projects, w₂) else b.refreshAfterMigrations projects migrations w₂
      have hrun : (b.runAutomaticSync wanted w).1 =
          (b.exportRemote wanted
            (finished (visits.map Prod.snd) migrations shown.1) shown.2).1 := by
        unfold runAutomaticSync
        rw [hlist]
        dsimp only
        rw [hloop]
        rfl
      have hexport := b.exportRemote_ok wanted
        (finished (visits.map Prod.snd) migrations shown.1) shown.2
      rw [hrun]
      cases hresult : (b.exportRemote wanted
          (finished (visits.map Prod.snd) migrations shown.1) shown.2).1 with
      | error e =>
        rw [hresult] at hexport
        exact Or.inr ⟨hexport.1, shown.2, hexport.2⟩
      | ok r =>
        rw [hresult] at hexport
        obtain ⟨exported, rfl⟩ := hexport
        refine ⟨projects, w₁, visits, w₂, rfl, hpassed, rfl, ⟨fun hcancelled ↦ ?_, fun h ↦ ?_⟩,
          fun _ ↦ finished_hands b projects visits w₂ exported⟩
        · exact absurd hcancelled (combinedState_ne_cancelled _)
        · exact Bool.noConfusion (hreturns.mpr h)

end Backend

end RiskApp.Client
