import RiskApp.Server.ExactlyOnce

namespace RiskApp.Server

open Lib

variable {Digest : Type} [DecidableEq Digest]

structure Retention where
  days : ℕ
  receiptDays : ℕ

def dayMicros : ℤ := 86400 * 1000000

/-- The days that `prune_project_logs` keeps. -/
def Retention.kept (cfg : Retention) (days : Option ℤ) : ℤ :=
  let d := days.getD 0
  max 1 (min (if d = 0 then cfg.days else d) 3650)

def pruneAudit (cfg : Retention) (projectId : Uuid) (days : Option ℤ) (now : Time) (d : Data) :
    Data :=
  { d with audit := d.audit.filter fun a ↦
      ¬ (a.projectId = projectId ∧ (a.ts : ℤ) < now - cfg.kept days * dayMicros) }

def pruneReceipts (cfg : Retention) (projectId : Uuid) (days : Option ℤ) (now : Time)
    (receipts : List (SyncReceipt Digest)) : List (SyncReceipt Digest) :=
  receipts.filter fun r ↦ ¬ (r.projectId = projectId ∧
    (r.processedAt : ℤ) < now - max (cfg.kept days) cfg.receiptDays * dayMicros)

inductive Upkeep
  | event (e : Event)
  | prune (projectId : Uuid) (days : Option ℤ) (now later : Time)

namespace Upkeep

def payloads : Upkeep → List Payload
  | event e => e.payloads
  | prune .. => []

def changes : Upkeep → List (SyncChange × Time)
  | event (.push _ _ changes committed) => if committed then changes else []
  | event (.other _) | prune .. => []

def lasting (cfg : Retention) : Upkeep → Event
  | event e => e
  | prune projectId days now _ => .other
    ⟨pruneAudit cfg projectId days now, fun _ _ _ ↦ rfl, fun _ _ ↦ rfl⟩

end Upkeep

section Server

variable (conv : Conv) (sha : Payload → Digest) (cfg : Retention)

def serveUpkeep (db : Db Digest) : Upkeep → Db Digest × Option (List ResultStatus)
  | .event e => serve conv sha db e
  | .prune projectId days now later => (⟨pruneAudit cfg projectId days now db.data,
      pruneReceipts cfg projectId days later db.receipts⟩, none)

def serveUpkeeps (db : Db Digest) :
    List Upkeep → Db Digest × List (Option (List ResultStatus))
  | [] => (db, [])
  | e :: es =>
    let (db', answer) := serveUpkeep conv sha cfg db e
    let (db'', answers) := serveUpkeeps db' es
    (db'', answer :: answers)

end Server

/-- A change that comes again after a prune had come no longer than the retention of the receipts
before it; `sent` has come already. -/
def InTime (cfg : Retention) (sent : List (SyncChange × Time)) (es : List Upkeep) : Prop :=
  ∀ before projectId days (now later : Time) after,
    es = before ++ .prune projectId days now later :: after →
    ∀ c ∈ sent ++ before.flatMap Upkeep.changes, ∀ c' ∈ after.flatMap Upkeep.changes,
      c.1.changeId = c'.1.changeId → (later : ℤ) ≤ c.2 + cfg.receiptDays * dayMicros

theorem InTime.tail {cfg : Retention} {sent : List (SyncChange × Time)} {e : Upkeep}
    {es : List Upkeep} (h : InTime cfg sent (e :: es)) : InTime cfg (sent ++ e.changes) es := by
  rintro before projectId days now later after rfl c hc
  refine h (e :: before) projectId days now later after rfl c ?_
  rwa [List.flatMap_cons, ← List.append_assoc]

theorem InTime.cons {cfg : Retention} {sent : List (SyncChange × Time)} {e : Upkeep}
    {es : List Upkeep} (h : InTime cfg (sent ++ e.changes) es)
    (hprune : ∀ projectId days now later, e = .prune projectId days now later →
      ∀ c ∈ sent, ∀ c' ∈ es.flatMap Upkeep.changes, c.1.changeId = c'.1.changeId →
        (later : ℤ) ≤ c.2 + cfg.receiptDays * dayMicros) : InTime cfg sent (e :: es) := by
  rintro (_ | ⟨e', before⟩) projectId days now later after he c hc
  · cases he
    rw [List.flatMap_nil, List.append_nil] at hc
    exact hprune projectId days now later rfl c hc
  · obtain ⟨rfl, rfl⟩ := List.cons.inj he
    refine h before projectId days now later after rfl c ?_
    rwa [List.flatMap_cons, ← List.append_assoc] at hc

/-- The two references do the same with the changes of the ids `F`. -/
structure Agrees (F : Set Uuid) (s t : Reference Digest) : Prop where
  data : s.db.data = t.db.data
  arrived : ∀ x ∈ F, s.arrived x = t.arrived x
  held : s.held = t.held

/-- The receipts carry the times of the changes that have come. -/
structure TimedReceipts (sent : List (SyncChange × Time)) (s : Reference Digest) : Prop where
  nodup : (s.db.receipts.map SyncReceipt.changeId).Nodup
  absent : ∀ x, s.arrived x = none → Table.find SyncReceipt.changeId x s.db.receipts = none
  sent : ∀ r ∈ s.db.receipts, ∃ c ∈ sent, c.1.changeId = r.changeId ∧ c.2 = r.processedAt

section Reference

variable {conv : Conv} {sha : Payload → Digest} {F : Set Uuid} {s t : Reference Digest}
  {sent : List (SyncChange × Time)} {userId projectId : Uuid} {role : Role}
  {c : SyncChange × Time}

omit [DecidableEq Digest] in
theorem Agrees.arrive (h : Agrees F s t) (hc : c.1.changeId ∈ F) :
    Agrees F (Reference.arrive conv sha true userId projectId role s c).1
        (Reference.arrive conv sha true userId projectId role t c).1 ∧
      (Reference.arrive conv sha true userId projectId role s c).2 =
        (Reference.arrive conv sha true userId projectId role t c).2 := by
  unfold Reference.arrive
  rw [h.arrived _ hc, h.held, h.data]
  cases t.arrived c.1.changeId with
  | some a => exact ⟨h, rfl⟩
  | none =>
    dsimp only
    split
    · exact ⟨h, rfl⟩
    · split
      · exact ⟨⟨h.data, h.arrived, rfl⟩, rfl⟩
      · refine ⟨⟨rfl, fun x hx ↦ ?_, rfl⟩, rfl⟩
        change Function.update s.arrived _ _ x = Function.update t.arrived _ _ x
        by_cases he : x = c.1.changeId
        · subst he
          rw [Function.update_self, Function.update_self]
        · rw [Function.update_of_ne he, Function.update_of_ne he, h.arrived x hx]

omit [DecidableEq Digest] in
theorem Agrees.arriveAll {cs : List (SyncChange × Time)} (h : Agrees F s t)
    (hcs : ∀ c ∈ cs, c.1.changeId ∈ F) :
    Agrees F (Reference.arriveAll conv sha true userId projectId role s cs).1
        (Reference.arriveAll conv sha true userId projectId role t cs).1 ∧
      (Reference.arriveAll conv sha true userId projectId role s cs).2 =
        (Reference.arriveAll conv sha true userId projectId role t cs).2 := by
  induction cs generalizing s t with
  | nil => exact ⟨h, rfl⟩
  | cons c cs ih =>
    obtain ⟨hnext, hstatus⟩ := @Agrees.arrive _ conv sha _ _ _ userId projectId role _ h
      (hcs c List.mem_cons_self)
    obtain ⟨hall, hstatuses⟩ := ih hnext fun c' hc' ↦ hcs c' (List.mem_cons_of_mem c hc')
    exact ⟨hall, congrArg₂ List.cons hstatus hstatuses⟩

omit [DecidableEq Digest] in
theorem Agrees.serve {d : Data} {e : Event} (h : Agrees F s t)
    (he : ∀ c ∈ (Upkeep.event e).changes, c.1.changeId ∈ F) :
    Agrees F (Reference.serve conv sha true d s e).1 (Reference.serve conv sha true d t e).1 ∧
      (Reference.serve conv sha true d s e).2 = (Reference.serve conv sha true d t e).2 := by
  cases e with
  | other write => exact ⟨⟨congrArg write.apply h.data, h.arrived, h.held⟩, rfl⟩
  | push userId projectId changes committed =>
    unfold Reference.serve
    dsimp only
    cases Reference.admitted d userId projectId changes with
    | none => exact ⟨h, rfl⟩
    | some role =>
      cases committed with
      | false => exact ⟨h, rfl⟩
      | true =>
        have hstart : Agrees F { s with held := [] } { t with held := [] } :=
          ⟨h.data, h.arrived, rfl⟩
        obtain ⟨hall, hstatuses⟩ := hstart.arriveAll he
        exact ⟨hall, congrArg some hstatuses⟩

omit [DecidableEq Digest] in
theorem TimedReceipts.arrive (h : TimedReceipts sent s) (hc : c ∈ sent) :
    TimedReceipts sent (Reference.arrive conv sha true userId projectId role s c).1 := by
  unfold Reference.arrive
  cases harrived : s.arrived c.1.changeId with
  | some a => exact h
  | none =>
    dsimp only
    split
    · exact h
    · split
      · exact ⟨h.nodup, h.absent, h.sent⟩
      · have hnew := h.absent _ harrived
        refine ⟨?_, fun x hx ↦ ?_, fun r hr ↦ ?_⟩
        · rw [List.map_append, List.map_singleton]
          refine List.nodup_append.mpr ⟨h.nodup, List.nodup_singleton _, fun x hx y hy he ↦ ?_⟩
          obtain ⟨r, hr, rfl⟩ := List.mem_map.mp hx
          rw [List.mem_singleton.mp hy] at he
          exact (Table.find_eq_none SyncReceipt.changeId).mp hnew r hr he
        · change Function.update s.arrived _ _ x = none at hx
          by_cases he : x = c.1.changeId
          · subst he
            rw [Function.update_self] at hx
            cases hx
          · rw [Function.update_of_ne he] at hx
            rw [Table.find_append, h.absent x hx, Table.find_singleton, Option.none_or]
            exact if_neg fun heq ↦ he heq.symm
        · rcases List.mem_append.mp hr with hr | hr
          · exact h.sent r hr
          · rw [List.mem_singleton.mp hr]
            exact ⟨c, hc, rfl, rfl⟩

omit [DecidableEq Digest] in
theorem TimedReceipts.arriveAll {cs : List (SyncChange × Time)} (h : TimedReceipts sent s)
    (hcs : ∀ c ∈ cs, c ∈ sent) :
    TimedReceipts sent (Reference.arriveAll conv sha true userId projectId role s cs).1 := by
  induction cs generalizing s with
  | nil => exact h
  | cons c cs ih =>
    exact ih (h.arrive (hcs c List.mem_cons_self)) fun c' hc' ↦
      hcs c' (List.mem_cons_of_mem c hc')

omit [DecidableEq Digest] in
theorem TimedReceipts.grow {more : List (SyncChange × Time)} (h : TimedReceipts sent s) :
    TimedReceipts (sent ++ more) s where
  nodup := h.nodup
  absent := h.absent
  sent r hr := by
    obtain ⟨c, hc, hboth⟩ := h.sent r hr
    exact ⟨c, List.mem_append_left more hc, hboth⟩

omit [DecidableEq Digest] in
theorem TimedReceipts.serve {d : Data} {e : Event} (h : TimedReceipts sent s) :
    TimedReceipts (sent ++ (Upkeep.event e).changes) (Reference.serve conv sha true d s e).1 := by
  cases e with
  | other write =>
    have hall : TimedReceipts (sent ++ (Upkeep.event (.other write)).changes) s := h.grow
    exact ⟨hall.nodup, hall.absent, hall.sent⟩
  | push userId projectId changes committed =>
    unfold Reference.serve
    dsimp only
    cases Reference.admitted d userId projectId changes with
    | none => exact h.grow
    | some role =>
      cases committed with
      | false => exact h.grow
      | true =>
        have hstart : TimedReceipts (sent ++ changes) { s with held := [] } :=
          ⟨h.nodup, h.absent, h.grow.sent⟩
        exact hstart.arriveAll fun c hc ↦ List.mem_append_right sent hc

end Reference

section Prune

variable {sha : Payload → Digest} {S : Set Payload} {d₀ : Data} {db : Db Digest}
  {s t : Reference Digest} {sent : List (SyncChange × Time)} {cfg : Retention}
  {projectId : Uuid} {days : Option ℤ} {now later : Time}

omit [DecidableEq Digest] in
theorem mem_pruneReceipts {receipts : List (SyncReceipt Digest)} {r : SyncReceipt Digest}
    (h : r ∈ pruneReceipts cfg projectId days later receipts) : r ∈ receipts :=
  (List.mem_filter.mp h).1

omit [DecidableEq Digest] in
theorem kept_of_recent {r : SyncReceipt Digest}
    (h : (later : ℤ) ≤ r.processedAt + cfg.receiptDays * dayMicros) :
    ¬ (r.projectId = projectId ∧
      (r.processedAt : ℤ) < later - max (cfg.kept days) cfg.receiptDays * dayMicros) := by
  rintro ⟨-, hold⟩
  have hmax : (cfg.receiptDays : ℤ) ≤ max (cfg.kept days) cfg.receiptDays := le_max_right _ _
  have hpos : (0 : ℤ) ≤ dayMicros := by decide
  have hmul := Int.mul_le_mul_of_nonneg_right hmax hpos
  omega

omit [DecidableEq Digest] in
theorem find_pruned_none {receipts : List (SyncReceipt Digest)} {x : Uuid}
    (h : Table.find SyncReceipt.changeId x receipts = none) : Table.find SyncReceipt.changeId x
      (pruneReceipts cfg projectId days later receipts) = none :=
  (Table.find_eq_none SyncReceipt.changeId).mpr fun r hr ↦
    (Table.find_eq_none SyncReceipt.changeId).mp h r (mem_pruneReceipts hr)

/-- The reference that forgets the ids whose receipts are gone. -/
noncomputable def Reference.forget (s : Reference Digest) (db : Db Digest) : Reference Digest where
  db := db
  arrived x :=
    if (Table.find SyncReceipt.changeId x db.receipts).isSome then s.arrived x else none
  held := s.held

omit [DecidableEq Digest] in
theorem Reference.forget_absent {d : Data} (hreceipts : db.receipts = s.db.receipts)
    (habsent : ∀ x, s.arrived x = none → Table.find SyncReceipt.changeId x s.db.receipts = none)
    {x : Uuid} (hx : (s.forget
      ⟨d, pruneReceipts cfg projectId days later db.receipts⟩).arrived x = none) :
    Table.find SyncReceipt.changeId x
      (pruneReceipts cfg projectId days later db.receipts) = none := by
  unfold Reference.forget at hx
  dsimp only at hx
  split at hx
  · exact find_pruned_none (hreceipts ▸ habsent x hx)
  · rename_i hgone
    exact Option.not_isSome_iff_eq_none.mp hgone

omit [DecidableEq Digest] in
theorem find_pruned (hs : TimedReceipts sent s) {x : Uuid} {r r' : SyncReceipt Digest}
    (hfound : Table.find SyncReceipt.changeId x s.db.receipts = some r)
    (hkept : Table.find SyncReceipt.changeId x
      (pruneReceipts cfg projectId days later s.db.receipts) = some r') : r' = r := by
  have hmem := mem_pruneReceipts (Table.mem_of_find SyncReceipt.changeId hkept)
  have hfind := Table.find_of_mem SyncReceipt.changeId hs.nodup hmem
  rw [Table.key_of_find SyncReceipt.changeId hkept, hfound] at hfind
  exact (Option.some.inj hfind).symm

omit [DecidableEq Digest] in
/-- After a prune the server is still the reference that has forgotten those ids. -/
theorem Matches.prune (h : Matches sha S d₀ db s) (hs : TimedReceipts sent s) :
    Matches sha S d₀
      ⟨pruneAudit cfg projectId days now db.data,
        pruneReceipts cfg projectId days later db.receipts⟩
      (s.forget ⟨pruneAudit cfg projectId days now db.data,
        pruneReceipts cfg projectId days later db.receipts⟩) := by
  have hreceipts : db.receipts = s.db.receipts := by rw [h.same]
  refine ⟨rfl, h.access.trans ⟨fun _ _ ↦ rfl, fun _ ↦ rfl⟩, fun x hx ↦ ?_, fun x a hx ↦ ?_⟩
  · exact Reference.forget_absent hreceipts h.linked.absent hx
  · unfold Reference.forget at hx ⊢
    dsimp only at hx ⊢
    split at hx
    · rename_i hkept
      obtain ⟨hS, receipt, hfound, hrecords⟩ := h.linked.present x a hx
      obtain ⟨r', hr'⟩ := Option.isSome_iff_exists.mp hkept
      have hsame : r' = receipt := find_pruned hs hfound (hreceipts ▸ hr')
      exact ⟨hS, receipt, hsame ▸ hr', hrecords⟩
    · cases hx

omit [DecidableEq Digest] in
theorem TimedReceipts.forget (hs : TimedReceipts sent s)
    (hreceipts : db.receipts = s.db.receipts) :
    TimedReceipts sent (s.forget ⟨pruneAudit cfg projectId days now db.data,
      pruneReceipts cfg projectId days later db.receipts⟩) := by
  refine ⟨?_, fun x hx ↦ ?_, fun r hr ↦ ?_⟩
  · exact (hreceipts ▸ hs.nodup).sublist (List.filter_sublist.map _)
  · exact Reference.forget_absent hreceipts hs.absent hx
  · have hr := mem_pruneReceipts hr
    rw [hreceipts] at hr
    exact hs.sent r hr

omit [DecidableEq Digest] in
theorem Agrees.forget {F : Set Uuid} (h : Agrees F s t) (hs : TimedReceipts sent s)
    (hmatches : Matches sha S d₀ db s)
    (hrecent : ∀ c ∈ sent, c.1.changeId ∈ F →
      (later : ℤ) ≤ c.2 + cfg.receiptDays * dayMicros) :
    Agrees F (s.forget ⟨pruneAudit cfg projectId days now db.data,
        pruneReceipts cfg projectId days later db.receipts⟩)
      { t with db := ⟨pruneAudit cfg projectId days now t.db.data, t.db.receipts⟩ } := by
  refine ⟨?_, fun x hx ↦ ?_, h.held⟩
  · change pruneAudit cfg projectId days now db.data = _
    rw [hmatches.same, h.data]
  · rw [← h.arrived x hx]
    unfold Reference.forget
    dsimp only
    have hfind : Table.find SyncReceipt.changeId x
        (pruneReceipts cfg projectId days later db.receipts) =
          Table.find SyncReceipt.changeId x s.db.receipts := by
      rw [hmatches.same]
      refine Table.find_filter SyncReceipt.changeId x _ fun r hr hid ↦ decide_eq_true ?_
      obtain ⟨c, hc, hsame, htime⟩ := hs.sent r hr
      refine kept_of_recent (htime ▸ hrecent c hc ?_)
      rwa [hsame, hid]
    rw [hfind]
    cases harrived : s.arrived x with
    | none => exact ite_self _
    | some a =>
      obtain ⟨-, receipt, hfound, -⟩ := hmatches.linked.present x a harrived
      exact if_pos (by rw [hfound]; rfl)

end Prune

section Runs

variable (conv : Conv) {sha : Payload → Digest} {S : Set Payload} (hinj : Set.InjOn sha S)
  (cfg : Retention)

include hinj

/-- Pruning does not break exactly-once processing: in every run of pushes, other writes and prunes,
whatever number of days a prune asks for, data and answers are those of the server that never
deletes a receipt, if a change that comes again after a prune had come at most
`SYNC_RECEIPT_RETENTION_DAYS` before that prune. -/
theorem retries_survive_prunes (db : Db Digest) (hreceipts : db.receipts = []) (es : List Upkeep)
    (hS : ∀ e ∈ es, ∀ q ∈ e.payloads, q ∈ S) (htime : InTime cfg [] es) :
    let reference := Reference.serveAll conv sha true db.data ⟨db, fun _ ↦ none, []⟩
      (es.map (Upkeep.lasting cfg))
    (serveUpkeeps conv sha cfg db es).1.data = reference.1.db.data ∧
      (serveUpkeeps conv sha cfg db es).2 = reference.2 := by
  have hrun : ∀ (es : List Upkeep) (db' : Db Digest) (s t : Reference Digest)
      (sent : List (SyncChange × Time)), Matches sha S db.data db' s → TimedReceipts sent s →
      Agrees {x | ∃ c ∈ es.flatMap Upkeep.changes, c.1.changeId = x} s t →
      InTime cfg sent es → (∀ e ∈ es, ∀ q ∈ e.payloads, q ∈ S) →
      (serveUpkeeps conv sha cfg db' es).1.data =
          (Reference.serveAll conv sha true db.data t (es.map (Upkeep.lasting cfg))).1.db.data ∧
        (serveUpkeeps conv sha cfg db' es).2 =
          (Reference.serveAll conv sha true db.data t (es.map (Upkeep.lasting cfg))).2 := by
    intro es
    induction es with
    | nil =>
      intro db' s t sent h hs ha _ _
      refine ⟨?_, rfl⟩
      change db'.data = t.db.data
      rw [h.same, ha.data]
    | cons e es ih =>
      intro db' s t sent h hs ha htime hS
      have hfuture : ∀ {s t : Reference Digest},
          Agrees {x | ∃ c ∈ (e :: es).flatMap Upkeep.changes, c.1.changeId = x} s t →
          Agrees {x | ∃ c ∈ es.flatMap Upkeep.changes, c.1.changeId = x} s t := by
        rintro s t ha
        refine ⟨ha.data, fun x ⟨c, hc, hx⟩ ↦ ha.arrived x ⟨c, ?_, hx⟩, ha.held⟩
        rw [List.flatMap_cons]
        exact List.mem_append_right _ hc
      have hS' : ∀ e' ∈ es, ∀ q ∈ e'.payloads, q ∈ S :=
        fun e' he' ↦ hS e' (List.mem_cons_of_mem e he')
      cases e with
      | event e =>
        obtain ⟨hnext, hanswer⟩ := h.serve conv hinj e (hS (.event e) List.mem_cons_self)
        obtain ⟨hagree, hsame⟩ := @Agrees.serve _ conv sha _ s t db.data e ha fun c hc ↦
          ⟨c, by rw [List.flatMap_cons]; exact List.mem_append_left _ hc, rfl⟩
        obtain ⟨hdata, hanswers⟩ := ih _ _ _ _ hnext hs.serve (hfuture hagree) htime.tail hS'
        exact ⟨hdata, congrArg₂ List.cons (hanswer.trans hsame) hanswers⟩
      | prune projectId days now later =>
        have hrecent : ∀ c ∈ sent,
            c.1.changeId ∈ {x | ∃ c ∈ es.flatMap Upkeep.changes, c.1.changeId = x} →
            (later : ℤ) ≤ c.2 + cfg.receiptDays * dayMicros := by
          rintro c hc ⟨c', hc', hid⟩
          refine htime [] projectId days now later es rfl c ?_ c' hc' hid.symm
          rwa [List.flatMap_nil, List.append_nil]
        let db'' : Db Digest := ⟨pruneAudit cfg projectId days now db'.data,
          pruneReceipts cfg projectId days later db'.receipts⟩
        have hnext : Matches sha S db.data db'' (s.forget db'') := h.prune hs
        have htimed : TimedReceipts sent (s.forget db'') := hs.forget (by rw [h.same])
        have hagree : Agrees {x | ∃ c ∈ es.flatMap Upkeep.changes, c.1.changeId = x}
            (s.forget db'')
            { t with db := ⟨pruneAudit cfg projectId days now t.db.data, t.db.receipts⟩ } :=
          (hfuture ha).forget hs h hrecent
        have hlater := htime.tail
        rw [Upkeep.changes, List.append_nil] at hlater
        obtain ⟨hdata, hanswers⟩ := ih db'' _ _ sent hnext htimed hagree hlater hS'
        exact ⟨hdata, congrArg (List.cons none) hanswers⟩
  refine hrun es db ⟨db, fun _ ↦ none, []⟩ ⟨db, fun _ ↦ none, []⟩ []
    ⟨rfl, ⟨fun _ _ ↦ rfl, fun _ ↦ rfl⟩, fun x _ ↦ by rw [hreceipts]; rfl, fun x a ha ↦ by cases ha⟩
    ⟨?_, fun x _ ↦ ?_, fun r hr ↦ ?_⟩
    ⟨rfl, fun _ _ ↦ rfl, rfl⟩ htime hS
  · rw [hreceipts]
    exact List.nodup_nil
  · rw [hreceipts]
    rfl
  · rw [hreceipts] at hr
    cases hr

end Runs

def onDay (n : ℕ) (c : SyncChange × Time) : Upkeep :=
  .event (.push 10 1 [(c.1, n * 86400 * 1000000)] true)

/-- A prune on day 400 asks for one day: of the two changes accepted before it, the receipt of the
one that comes again is young enough to stay. -/
def prunedRetry : List Upkeep :=
  [onDay 5 (createRisk 8 [(.title, .str "A")]), onDay 200 (retitle 9 1 "B"),
    .prune 1 (some 1) (400 * 86400 * 1000000) (400 * 86400 * 1000000), onDay 401 (retitle 9 1 "B")]

theorem prunedRetry_inTime : InTime ⟨180, 365⟩ [] prunedRetry := by
  refine .cons (.cons (.cons (.cons ?_ ?_) ?_) ?_) ?_
  · intro before projectId days now later after he
    cases before <;> cases he
  · intro _ _ _ _ he
    cases he
  · rintro _ _ _ later ⟨⟩ c hc c' hc' hid
    cases List.mem_singleton.mp hc'
    simp only [onDay, Upkeep.changes, if_true, List.nil_append, List.mem_append,
      List.mem_singleton] at hc
    rcases hc with rfl | rfl
    · cases hid
    · decide
  · intro _ _ _ _ he
    cases he
  · intro _ _ _ _ he
    cases he

theorem titleDigest_injOn_prunedRetry :
    Set.InjOn titleDigest {q | ∃ e ∈ prunedRetry, q ∈ e.payloads} := by
  have hpayloads : ∀ q, (∃ e ∈ prunedRetry, q ∈ e.payloads) →
      q = (createRisk 8 [(.title, .str "A")]).1.payload ∨ q = (retitle 9 1 "B").1.payload := by
    rintro q ⟨e, he, hq⟩
    simp only [prunedRetry, List.mem_cons, List.not_mem_nil, or_false] at he
    rcases he with rfl | rfl | rfl | rfl
    · exact Or.inl (List.mem_singleton.mp hq)
    · exact Or.inr (List.mem_singleton.mp hq)
    · cases hq
    · exact Or.inr (List.mem_singleton.mp hq)
  intro q hq r hr heq
  rcases hpayloads q hq with rfl | rfl <;> rcases hpayloads r hr with rfl | rfl
  · rfl
  · exact absurd heq (by decide)
  · exact absurd heq (by decide)
  · rfl

theorem retries_survive_prunes_sample :
    let run := serveUpkeeps .strict titleDigest ⟨180, 365⟩ sampleDb prunedRetry
    run.2 = (Reference.serveAll .strict titleDigest true sampleDb.data ⟨sampleDb, fun _ ↦ none, []⟩
        (prunedRetry.map (Upkeep.lasting ⟨180, 365⟩))).2 ∧
      run.2 = [some [.accepted], some [.accepted], none, some [.accepted]] ∧
      run.1.receipts.map SyncReceipt.changeId = [9] ∧ run.1.data.audit.length = 0 :=
  ⟨(retries_survive_prunes .strict titleDigest_injOn_prunedRetry ⟨180, 365⟩ sampleDb rfl
    prunedRetry (fun e he _ hq ↦ ⟨e, he, hq⟩) prunedRetry_inTime).2, by decide, by decide,
    by decide⟩

end RiskApp.Server
