import Mathlib.Order.Bounds.Basic
import RiskApp.Client.Outbox
import RiskApp.Server.Moments

namespace RiskApp.Client

open Server

structure QueuedChange where
  entity : Entity
  op : ChangeOp
  entityId : Uuid
  baseVersion : Option ℤ
  record : Dict

/-- A row of the table `outbox`. `τ` is what its timestamps are: texts in the database, the moments
that they show, or any other form of these. -/
structure OutboxRow (τ : Type) where
  changeId : Uuid
  projectId : Uuid
  change : QueuedChange
  status : EntryStatus
  failureKind : Option FailureKind
  outcome : SavedOutcome
  retryCount : ℕ
  nextRetryAt : τ
  lastAttemptAt : τ
  createdAt : τ

/-- The statements that write to the outbox, with the clock readings of those that write times. -/
inductive OutboxWrite
  /-- The INSERT of `_replace_outbox_entry`. -/
  | insert (projectId changeId : Uuid) (change : QueuedChange) (now : Moment)
  /-- A new operation, base version or record for a row, as in `_replace_outbox_entry`,
  `override_base_version` and `_advance_replacement`. -/
  | rewrite (changeId : Uuid) (change : QueuedChange)
  | delete (changeIds : List Uuid)
  | markAttempted (changeIds : List Uuid) (now : Moment)
  | defer (changeId : Uuid) (err : Failure) (retryAfterSeconds : Option ℤ) (now : Moment)
  | block (changeId : Uuid) (err : Failure) (now : Moment)
  | releaseAuthenticationBlocks (projectId : Option Uuid)

namespace OutboxRow

variable {τ σ : Type}

def map (f : τ → σ) (r : OutboxRow τ) : OutboxRow σ :=
  { r with
    nextRetryAt := f r.nextRetryAt
    lastAttemptAt := f r.lastAttemptAt
    createdAt := f r.createdAt }

section

variable (stamp : Moment → τ) (empty : τ)

/-- `defer_outbox_id` on its row; a retry time beyond the calendar fails the transaction. -/
def deferred (err : Failure) (retryAfterSeconds : Option ℤ) (now : Moment) (r : OutboxRow τ) :
    OutboxRow τ :=
  match now.plusSeconds (retryDelay r.retryCount retryAfterSeconds) with
  | none => r
  | some retryAt =>
    { r with
      status := .retry
      failureKind := some err.failureKind
      outcome := err.outcome
      retryCount := r.retryCount + 1
      nextRetryAt := stamp retryAt
      lastAttemptAt := stamp now }

def blocked (err : Failure) (now : Moment) (r : OutboxRow τ) : OutboxRow τ :=
  { r with
    status := .blocked
    failureKind := some err.failureKind
    outcome := err.outcome
    nextRetryAt := empty
    lastAttemptAt := stamp now }

def released (r : OutboxRow τ) : OutboxRow τ :=
  { r with status := .pending, nextRetryAt := empty }

def update (rows : List (OutboxRow τ)) (p : OutboxRow τ → Bool)
    (f : OutboxRow τ → OutboxRow τ) : List (OutboxRow τ) :=
  rows.map fun r ↦ if p r then f r else r

def inProject (projectId : Option Uuid) (r : OutboxRow τ) : Bool :=
  projectId.all (· = r.projectId)

def write (rows : List (OutboxRow τ)) : OutboxWrite → List (OutboxRow τ)
  | .insert projectId changeId change now =>
    rows ++ [{
      changeId := changeId
      projectId := projectId
      change := change
      status := .pending
      failureKind := none
      outcome := {}
      retryCount := 0
      nextRetryAt := empty
      lastAttemptAt := empty
      createdAt := stamp now }]
  | .rewrite changeId change =>
    update rows (·.changeId = changeId) fun r ↦ { r with change := change }
  | .delete changeIds => rows.filter (·.changeId ∉ changeIds)
  | .markAttempted changeIds now =>
    update rows (·.changeId ∈ changeIds) fun r ↦ { r with lastAttemptAt := stamp now }
  | .defer changeId err retryAfterSeconds now =>
    update rows (·.changeId = changeId) (deferred stamp err retryAfterSeconds now)
  | .block changeId err now =>
    update rows (fun r ↦ r.changeId = changeId && err.failureKind ≠ .transient)
      (blocked stamp empty err now)
  | .releaseAuthenticationBlocks projectId =>
    update rows
      (fun r ↦ r.status = .blocked && r.failureKind = some .authentication && inProject projectId r)
      (released empty)

def written (writes : List OutboxWrite) : List (OutboxRow τ) := writes.foldl (write stamp empty) []

end

section

variable [LinearOrder τ] (empty : τ)

def ready (projectId : Uuid) (readyAt : τ) (r : OutboxRow τ) : Bool :=
  r.projectId = projectId &&
    (r.status = .pending ||
      (r.status = .retry && (r.nextRetryAt = empty || r.nextRetryAt ≤ readyAt)))

def getPendingChanges (rows : List (OutboxRow τ)) (projectId : Uuid) (limit : ℤ) (readyAt : τ) :
    List (OutboxRow τ) :=
  ((rows.filter (ready empty projectId readyAt)).insertionSort fun r r' ↦
    r.createdAt ≤ r'.createdAt).take (max 1 (min limit 1000)).toNat

def waiting (projectId : Option Uuid) (r : OutboxRow τ) : Bool :=
  r.status = .retry && r.nextRetryAt ≠ empty && inProject projectId r

def earliestRetry (rows : List (OutboxRow τ)) (projectId : Option Uuid) : Option τ :=
  ((rows.filter (waiting empty projectId)).map OutboxRow.nextRetryAt).min?

end

section

variable {stamp : Moment → τ} {stamp' : Moment → σ} {empty : τ} {empty' : σ} {f : τ → σ}

theorem update_map (rows : List (OutboxRow τ)) {p : OutboxRow τ → Bool} {p' : OutboxRow σ → Bool}
    {g : OutboxRow τ → OutboxRow τ} {g' : OutboxRow σ → OutboxRow σ}
    (hp : ∀ r, p' (map f r) = p r) (hg : ∀ r, map f (g r) = g' (map f r)) :
    (update rows p g).map (map f) = update (rows.map (map f)) p' g' := by
  unfold update
  rw [List.map_map, List.map_map]
  refine List.map_congr_left fun r _ ↦ ?_
  simp only [Function.comp_apply, hp]
  split
  · exact hg r
  · rfl

theorem deferred_map (hstamp : ∀ t, f (stamp t) = stamp' t) (err : Failure)
    (retryAfterSeconds : Option ℤ) (now : Moment) (r : OutboxRow τ) :
    map f (deferred stamp err retryAfterSeconds now r) =
      deferred stamp' err retryAfterSeconds now (map f r) := by
  have hcount : (map f r).retryCount = r.retryCount := rfl
  unfold deferred
  rw [hcount]
  cases now.plusSeconds (retryDelay r.retryCount retryAfterSeconds) with
  | none => rfl
  | some retryAt => simp [map, hstamp]

theorem write_map (hstamp : ∀ t, f (stamp t) = stamp' t) (hempty : f empty = empty')
    (rows : List (OutboxRow τ)) (w : OutboxWrite) :
    (write stamp empty rows w).map (map f) = write stamp' empty' (rows.map (map f)) w := by
  cases w with
  | insert projectId changeId change now => simp [write, map, hempty, hstamp]
  | rewrite changeId change => exact update_map rows (fun _ ↦ rfl) fun _ ↦ rfl
  | delete changeIds =>
    simp only [write, List.filter_map]
    rfl
  | markAttempted changeIds now =>
    refine update_map rows (fun _ ↦ rfl) fun _ ↦ ?_
    simp [map, hstamp]
  | defer changeId err retryAfterSeconds now =>
    exact update_map rows (fun _ ↦ rfl) (deferred_map hstamp err retryAfterSeconds now)
  | block changeId err now =>
    refine update_map rows (fun _ ↦ rfl) fun _ ↦ ?_
    simp [map, blocked, hstamp, hempty]
  | releaseAuthenticationBlocks projectId =>
    refine update_map rows (fun _ ↦ rfl) fun _ ↦ ?_
    simp [map, released, hempty]

theorem written_map (hstamp : ∀ t, f (stamp t) = stamp' t) (hempty : f empty = empty')
    (writes : List OutboxWrite) :
    (written stamp empty writes).map (map f) = written stamp' empty' writes := by
  have hrun : ∀ rows : List (OutboxRow τ),
      (writes.foldl (write stamp empty) rows).map (map f) =
        writes.foldl (write stamp' empty') (rows.map (map f)) := by
    induction writes with
    | nil => exact fun _ ↦ rfl
    | cons w writes ih =>
      intro rows
      rw [List.foldl_cons, List.foldl_cons, ih, write_map hstamp hempty]
  exact hrun []

variable [LinearOrder τ] [LinearOrder σ] {rows : List (OutboxRow τ)}

theorem getPendingChanges_map (hle : ∀ a b, f a ≤ f b ↔ a ≤ b) (hempty : f empty = empty')
    (projectId : Uuid) (limit : ℤ) (readyAt : τ) :
    getPendingChanges empty' (rows.map (map f)) projectId limit (f readyAt) =
      (getPendingChanges empty rows projectId limit readyAt).map (map f) := by
  have hinj : Function.Injective f := fun a b h ↦
    le_antisymm ((hle a b).mp h.le) ((hle b a).mp h.ge)
  have hready : (ready empty' projectId (f readyAt)) ∘ map f = ready empty projectId readyAt := by
    funext r
    rw [Bool.eq_iff_iff]
    simp only [Function.comp_apply, ready, Bool.and_eq_true, Bool.or_eq_true, decide_eq_true_eq]
    simp only [map, ← hempty, hinj.eq_iff, hle]
  unfold getPendingChanges
  rw [List.filter_map, hready, List.map_take,
    List.map_insertionSort (fun r r' : OutboxRow τ ↦ r.createdAt ≤ r'.createdAt)
      (fun r r' : OutboxRow σ ↦ r.createdAt ≤ r'.createdAt)]
  exact fun r _ r' _ ↦ (hle r.createdAt r'.createdAt).symm

theorem earliestRetry_map (hle : ∀ a b, f a ≤ f b ↔ a ≤ b) (hempty : f empty = empty')
    (projectId : Option Uuid) :
    earliestRetry empty' (rows.map (map f)) projectId =
      (earliestRetry empty rows projectId).map f := by
  have hinj : Function.Injective f := fun a b h ↦
    le_antisymm ((hle a b).mp h.le) ((hle b a).mp h.ge)
  have hwaiting : waiting empty' projectId ∘ map f = waiting empty projectId := by
    funext r
    rw [Bool.eq_iff_iff]
    simp only [Function.comp_apply, waiting, Bool.and_eq_true, decide_eq_true_eq]
    simp only [map, inProject, ← hempty, hinj.ne_iff]
    rfl
  unfold earliestRetry
  rw [List.filter_map, hwaiting, List.map_map]
  generalize rows.filter (waiting empty projectId) = retries
  cases hmin : (retries.map OutboxRow.nextRetryAt).min? with
  | none =>
    rw [List.min?_eq_none_iff, List.map_eq_nil_iff] at hmin
    rw [hmin]
    rfl
  | some due =>
    obtain ⟨hmem, hleast⟩ := List.min?_eq_some_iff.mp hmin
    refine List.min?_eq_some_iff.mpr ⟨?_, fun b hb ↦ ?_⟩
    · obtain ⟨r, hr, rfl⟩ := List.mem_map.mp hmem
      exact List.mem_map.mpr ⟨r, hr, rfl⟩
    · obtain ⟨r, hr, rfl⟩ := List.mem_map.mp hb
      exact (hle _ _).mpr (hleast _ (List.mem_map.mpr ⟨r, hr, rfl⟩))

end

def texts (writes : List OutboxWrite) : List (OutboxRow (List Char)) :=
  written (fun t ↦ t.isoformat) [] writes

def moments (writes : List OutboxWrite) : List (OutboxRow (WithBot Moment)) :=
  written WithBot.some ⊥ writes

/-- The entry need not wait beyond `now`. -/
def due (now : Moment) (r : OutboxRow (WithBot Moment)) : Bool :=
  r.status = .pending || (r.status = .retry && r.nextRetryAt ≤ now)

theorem texts_eq (writes : List OutboxWrite) :
    texts writes = (moments writes).map (map Moment.shown) :=
  (written_map Moment.shown_coe Moment.shown_bot writes).symm

/-- Every entry has its creation time, and each that is to be retried its due time. -/
structure Dated (r : OutboxRow (WithBot Moment)) : Prop where
  created : ∃ t : Moment, r.createdAt = t
  retry : r.status = .retry → ∃ t : Moment, r.nextRetryAt = t

theorem dated_update {rows : List (OutboxRow (WithBot Moment))}
    {p : OutboxRow (WithBot Moment) → Bool}
    {g : OutboxRow (WithBot Moment) → OutboxRow (WithBot Moment)} (hrows : ∀ r ∈ rows, Dated r)
    (hg : ∀ r, Dated r → Dated (g r)) : ∀ r ∈ update rows p g, Dated r := by
  intro r hr
  obtain ⟨r, hmem, rfl⟩ := List.mem_map.mp hr
  split
  · exact hg r (hrows r hmem)
  · exact hrows r hmem

theorem dated_write {rows : List (OutboxRow (WithBot Moment))} (hrows : ∀ r ∈ rows, Dated r)
    (w : OutboxWrite) : ∀ r ∈ write WithBot.some ⊥ rows w, Dated r := by
  cases w with
  | insert projectId changeId change now =>
    intro r hr
    rcases List.mem_append.mp hr with hr | hr
    · exact hrows r hr
    · obtain rfl := List.mem_singleton.mp hr
      exact ⟨⟨now, rfl⟩, fun h ↦ by cases h⟩
  | rewrite changeId change => exact dated_update hrows fun r h ↦ ⟨h.created, h.retry⟩
  | delete changeIds => exact fun r hr ↦ hrows r (List.mem_filter.mp hr).1
  | markAttempted changeIds now => exact dated_update hrows fun r h ↦ ⟨h.created, h.retry⟩
  | defer changeId err retryAfterSeconds now =>
    refine dated_update hrows fun r h ↦ ?_
    unfold deferred
    split
    · exact h
    · rename_i retryAt _
      exact ⟨h.created, fun _ ↦ ⟨retryAt, rfl⟩⟩
  | block changeId err now =>
    exact dated_update hrows fun r h ↦ ⟨h.created, fun h ↦ by cases h⟩
  | releaseAuthenticationBlocks projectId =>
    exact dated_update hrows fun r h ↦ ⟨h.created, fun h ↦ by cases h⟩

theorem dated_moments (writes : List OutboxWrite) : ∀ r ∈ moments writes, Dated r := by
  have hrun : ∀ rows : List (OutboxRow (WithBot Moment)), (∀ r ∈ rows, Dated r) →
      ∀ r ∈ writes.foldl (write WithBot.some ⊥) rows, Dated r := by
    induction writes with
    | nil => exact fun _ hrows ↦ hrows
    | cons w writes ih => exact fun rows hrows ↦ ih _ (dated_write hrows w)
  exact hrun [] fun _ h ↦ absurd h List.not_mem_nil

/-- The selection by texts is the selection by time. -/
theorem getPendingChanges_texts (writes : List OutboxWrite) (projectId : Uuid) (limit : ℤ)
    (now : Moment) :
    getPendingChanges [] (texts writes) projectId limit now.isoformat =
      ((((moments writes).filter fun r ↦ r.projectId = projectId && due now r).insertionSort
        fun r r' ↦ r.createdAt ≤ r'.createdAt).take (max 1 (min limit 1000)).toNat).map
          (map Moment.shown) := by
  have hselected := @getPendingChanges_map _ _ ⊥ [] Moment.shown _ _ (moments writes)
    (fun _ _ ↦ Moment.shown_le) rfl projectId limit now
  rw [texts_eq]
  refine hselected.trans ?_
  unfold getPendingChanges
  congr 3
  refine List.filter_congr fun r hr ↦ ?_
  rw [Bool.eq_iff_iff]
  simp only [ready, due, Bool.and_eq_true, Bool.or_eq_true, decide_eq_true_eq]
  refine and_congr_right fun _ ↦ or_congr_right (and_congr_right fun hretry ↦ ?_)
  obtain ⟨t, ht⟩ := (dated_moments writes r hr).retry hretry
  rw [ht]
  simp

def dueTimes (rows : List (OutboxRow (WithBot Moment))) (projectId : Option Uuid) : Set Moment :=
  {t | ∃ r ∈ rows, r.status = .retry ∧ inProject projectId r = true ∧ r.nextRetryAt = t}

theorem mem_waiting {rows : List (OutboxRow (WithBot Moment))} {projectId : Option Uuid}
    {t : WithBot Moment} :
    t ∈ (rows.filter (waiting ⊥ projectId)).map OutboxRow.nextRetryAt ↔
      ∃ first ∈ dueTimes rows projectId, t = first := by
  simp only [List.mem_map, List.mem_filter, waiting, Bool.and_eq_true, decide_eq_true_eq]
  constructor
  · rintro ⟨r, ⟨hr, ⟨hretry, hne⟩, hproject⟩, rfl⟩
    obtain ⟨first, hfirst⟩ := WithBot.ne_bot_iff_exists.mp hne
    exact ⟨first, ⟨r, hr, hretry, hproject, hfirst.symm⟩, hfirst.symm⟩
  · rintro ⟨first, ⟨r, hr, hretry, hproject, hfirst⟩, rfl⟩
    exact ⟨r, ⟨hr, ⟨hretry, hfirst ▸ WithBot.coe_ne_bot⟩, hproject⟩, hfirst⟩

/-- The least text of a due time is the text of the least due time. -/
theorem earliestRetry_texts (writes : List OutboxWrite) (projectId : Option Uuid)
    (text : List Char) :
    earliestRetry [] (texts writes) projectId = some text ↔
      ∃ first : Moment, text = first.isoformat ∧
        IsLeast (dueTimes (moments writes) projectId) first := by
  rw [texts_eq, @earliestRetry_map _ _ ⊥ [] Moment.shown _ _ (moments writes)
    (fun _ _ ↦ Moment.shown_le) rfl projectId, Option.map_eq_some_iff]
  unfold earliestRetry
  simp only [List.min?_eq_some_iff, mem_waiting]
  constructor
  · rintro ⟨_, ⟨⟨first, hfirst, rfl⟩, hleast⟩, rfl⟩
    exact ⟨first, rfl, hfirst, fun t ht ↦ WithBot.coe_le_coe.mp (hleast _ ⟨t, ht, rfl⟩)⟩
  · rintro ⟨first, rfl, hfirst, hleast⟩
    refine ⟨first, ⟨⟨first, hfirst, rfl⟩, ?_⟩, rfl⟩
    rintro _ ⟨t, ht, rfl⟩
    exact WithBot.coe_le_coe.mpr (hleast ht)

def time (t : WithBot Moment) : Option Time := t.recBotCoe none fun t ↦ some t.instant

@[simp] theorem time_bot : time ⊥ = none := rfl

@[simp] theorem time_coe (t : Moment) : time t = some t.instant := rfl

def entry (r : OutboxRow (WithBot Moment)) : Entry where
  changeId := r.changeId
  entity := r.change.entity
  op := r.change.op
  entityId := r.change.entityId
  baseVersion := r.change.baseVersion
  record := r.change.record
  status := r.status
  failureKind := r.failureKind
  outcome := r.outcome
  retryCount := r.retryCount
  nextRetryAt := time r.nextRetryAt
  lastAttemptAt := time r.lastAttemptAt
  createdAt := (time r.createdAt).getD 0

theorem ready_entry {r : OutboxRow (WithBot Moment)} {now : Moment} :
    Outbox.ready now.instant r.entry = true ↔
      r.status = .pending ∨ r.status = .retry ∧ (r.nextRetryAt = ⊥ ∨ r.nextRetryAt ≤ now) := by
  simp only [Outbox.ready, Bool.or_eq_true, Bool.and_eq_true, decide_eq_true_eq]
  refine or_congr_right (and_congr_right fun _ ↦ ?_)
  change (time r.nextRetryAt).all (· ≤ now.instant) = true ↔ _
  cases r.nextRetryAt with
  | bot => simp
  | coe t =>
    rw [time_coe, Option.all_some, decide_eq_true_eq, WithBot.coe_le_coe, Moment.le_iff,
      or_iff_right WithBot.coe_ne_bot]

theorem getPendingChanges_entries (writes : List OutboxWrite) (projectId : Uuid) (limit : ℕ)
    (now : Moment) :
    Outbox.getPendingChanges (((moments writes).filter (·.projectId = projectId)).map entry) limit
        now.instant =
      (getPendingChanges ⊥ (moments writes) projectId limit now).map entry := by
  have hready : ∀ r : OutboxRow (WithBot Moment),
      (Outbox.ready now.instant r.entry && decide (r.projectId = projectId)) =
        ready ⊥ projectId (now : WithBot Moment) r := by
    intro r
    rw [Bool.eq_iff_iff, Bool.and_eq_true, ready_entry]
    simp only [ready, Bool.and_eq_true, Bool.or_eq_true, decide_eq_true_eq]
    exact and_comm
  have hlimit : max 1 (min limit 1000) = (max 1 (min (limit : ℤ) 1000)).toNat := by omega
  unfold Outbox.getPendingChanges Outbox.oldestFirst getPendingChanges
  rw [List.filter_map, List.filter_filter, List.map_take, ← hlimit]
  simp only [Function.comp_apply, hready]
  refine congrArg _ (List.map_insertionSort _ _ _ _ fun r hr r' hr' ↦ ?_).symm
  obtain ⟨t, ht⟩ := (dated_moments writes r (List.mem_filter.mp hr).1).created
  obtain ⟨t', ht'⟩ := (dated_moments writes r' (List.mem_filter.mp hr').1).created
  simp only [entry, ht, ht', time_coe, Option.getD_some, WithBot.coe_le_coe]
  exact Moment.le_iff

/-- The order of the texts is the order of time: of the ISO forms, of what the outbox selects and
when it wants to be asked again, and of the keys that the change sequences were numbered by. -/
theorem text_order_is_time_order :
    (∀ a b : Moment, (a.isoformat < b.isoformat ↔ a.fields < b.fields) ∧
      (a.fields < b.fields ↔ a.instant < b.instant)) ∧
    (∀ (writes : List OutboxWrite) (projectId : Uuid) (limit : ℤ) (now : Moment),
      getPendingChanges [] (texts writes) projectId limit now.isoformat =
        ((((moments writes).filter fun r ↦ r.projectId = projectId && due now r).insertionSort
          fun r r' ↦ r.createdAt ≤ r'.createdAt).take (max 1 (min limit 1000)).toNat).map
            (map Moment.shown)) ∧
    (∀ (writes : List OutboxWrite) (projectId : Option Uuid) (text : List Char),
      earliestRetry [] (texts writes) projectId = some text ↔
        ∃ first : Moment, text = first.isoformat ∧
          IsLeast (dueTimes (moments writes) projectId) first) ∧
    ∀ a b : Moment, timestampKey (.datetime a.toDateTime) < timestampKey (.datetime b.toDateTime) ↔
      a.instant < b.instant :=
  ⟨fun _ _ ↦ ⟨DateTime.isoformat_lt, Moment.fields_lt⟩, getPendingChanges_texts,
    earliestRetry_texts, fun _ _ ↦ Moment.isoformat_lt_iff⟩

theorem sample_valid {second : ℕ} (h : second < 60) :
    2026 ≤ 9999 ∧ 1 ≤ 12 ∧ 1 ≤ 31 ∧ 0 < 24 ∧ 0 < 60 ∧ second < 60 ∧ 0 < 1000000 :=
  ⟨by decide, by decide, by decide, by decide, by decide, h, by decide⟩

theorem sample_year : 1 ≤ 2026 := by decide

theorem sample_month : 1 ≤ 1 ∧ 1 ≤ 12 := by decide

theorem sample_day : 1 ≤ 1 ∧ 1 ≤ Lib.Calendar.daysInMonth 2026 1 := by decide

def sampleMoment (second : ℕ) (h : second < 60) : Moment where
  year := 2026
  month := 1
  day := 1
  hour := 0
  minute := 0
  second := second
  microsecond := 0
  valid := sample_valid h
  year_pos := sample_year
  month_range := sample_month
  day_range := sample_day

def sampleChange : QueuedChange := ⟨.risk, .upsert, 7, none, fun _ ↦ none⟩

def sampleWrites : List OutboxWrite :=
  [.insert 1 10 sampleChange (sampleMoment 0 (by decide)),
    .insert 1 11 sampleChange (sampleMoment 1 (by decide)),
    .defer 10 ⟨.transient, {}⟩ none (sampleMoment 2 (by decide)),
    .defer 11 ⟨.transient, {}⟩ none (sampleMoment 2 (by decide))]

/-- Of two entries that are due, a selection of one leaves the other out. -/
theorem due_entry_left_out :
    ¬ ∀ (writes : List OutboxWrite) (projectId : Uuid) (limit : ℤ) (now : Moment),
      ∀ r ∈ moments writes, r.projectId = projectId → r.status = .retry →
        (r.map Moment.shown ∈ getPendingChanges [] (texts writes) projectId limit now.isoformat ↔
          r.nextRetryAt ≤ now) := by
  intro hall
  have hids : (getPendingChanges [] (texts sampleWrites) 1 1
      (sampleMoment 30 (by decide)).isoformat).map OutboxRow.changeId = [10] := by
    decide +kernel
  obtain ⟨r, hr, hid, hproject, hretry, hdue⟩ : ∃ r ∈ moments sampleWrites, r.changeId = 11 ∧
      r.projectId = 1 ∧ r.status = .retry ∧ r.nextRetryAt ≤ sampleMoment 30 (by decide) := by
    decide +kernel
  have hmem := (hall sampleWrites 1 1 (sampleMoment 30 (by decide)) r hr hproject hretry).mpr hdue
  have hnone := hids ▸ List.mem_map.mpr ⟨_, hmem, rfl⟩
  rw [List.mem_singleton] at hnone
  cases hid.symm.trans hnone

end OutboxRow

end RiskApp.Client
