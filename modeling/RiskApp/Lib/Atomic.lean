import Mathlib.Data.Nat.Basic

namespace RiskApp.Lib

/-- What becomes of a statement. Some failures, such as a full disk, end the transaction with it:
what it has written is taken back. -/
inductive Fate
  | returns
  | fails
  | endsTransaction
  deriving DecidableEq

variable {σ α β : Type}

/-- A database connection: the durable state, the state its statements see, how deep its write
blocks are nested, whether a nested block has failed, and the fate of the coming statements. -/
structure Conn (σ : Type) where
  durable : σ
  working : σ
  depth : ℕ
  rollbackOnly : Bool
  faults : List Fate

namespace Conn

def idle (s : σ) (faults : List Fate) : Conn σ := ⟨s, s, 0, false, faults⟩

def commit (c : Conn σ) : Conn σ := { c with durable := c.working }

def rollback (c : Conn σ) : Conn σ := { c with working := c.durable }

def enter (c : Conn σ) : Conn σ := { c with depth := c.depth + 1 }

/-- The end of a block; the outermost one clears the mark. -/
def leave (outermost : Bool) (c : Conn σ) : Conn σ :=
  { c with depth := c.depth - 1, rollbackOnly := c.rollbackOnly && !outermost }

structure AtRest (c : Conn σ) : Prop where
  depth : c.depth = 0
  clean : c.working = c.durable
  unmarked : c.rollbackOnly = false

theorem idle_atRest (s : σ) (faults : List Fate) : (idle s faults).AtRest := ⟨rfl, rfl, rfl⟩

end Conn

/-- A program on a connection; `none` is a raised exception. -/
abbrev Exec (σ α : Type) := Conn σ → Option α × Conn σ

namespace Exec

def bind (m : Exec σ α) (f : α → Exec σ β) : Exec σ β := fun c ↦
  match m c with
  | (none, c) => (none, c)
  | (some a, c) => f a c

def point : Exec σ Unit := fun c ↦
  match c.faults with
  | [] => (some (), c)
  | .returns :: faults => (some (), { c with faults := faults })
  | .fails :: faults => (none, { c with faults := faults })
  | .endsTransaction :: faults => (none, { c.rollback with faults := faults })

def statement (f : σ → Option (α × σ)) : Exec σ α :=
  point.bind fun _ c ↦ match f c.working with
    | none => (none, c)
    | some (a, s) => (some a, { c with working := s })

/-- A write block: the outermost one begins and ends the transaction, an inner one joins it, and a
failure inside marks the whole for rollback. -/
def writeTransaction (body : Exec σ α) : Exec σ α := fun c ↦
  let outermost := c.depth = 0
  match if outermost then point c else (some (), c) with
  | (none, c) => (none, c)
  | (some _, c) =>
    let c := if outermost then { c with rollbackOnly := false } else c
    match body c.enter with
    | (none, c) =>
      let c := { c with rollbackOnly := true }
      (none, (if outermost then c.rollback else c).leave outermost)
    | (some a, c) =>
      if outermost then
        if c.rollbackOnly then (none, c.rollback.leave outermost)
        else match point c with
          | (none, c) => (none, c.rollback.leave outermost)
          | (some _, c) => (some a, c.commit.leave outermost)
      else (some a, c.leave outermost)

/-- A standalone write commits, one inside a block leaves that to the block. -/
def commitIfNeeded : Exec σ Unit := fun c ↦
  if c.depth = 0 then
    match point c with
    | (none, c) => (none, c)
    | (some _, c) => (some (), c.commit)
  else (some (), c)

/-- Inside a block nothing becomes durable, what returns is what evaluation gives, and without
failures everything that evaluates returns. -/
structure Refines (m : Exec σ α) (eval : σ → Option (α × σ)) : Prop where
  durable : ∀ c, 0 < c.depth → (m c).2.durable = c.durable
  depth : ∀ c, 0 < c.depth → (m c).2.depth = c.depth
  returns : ∀ c a, 0 < c.depth → (m c).1 = some a → eval c.working = some (a, (m c).2.working)
  completes : ∀ c a s, 0 < c.depth → c.faults = [] → eval c.working = some (a, s) →
    m c = (some a, { c with working := s })

theorem point_durable (c : Conn σ) : (point c).2.durable = c.durable := by
  unfold point
  split <;> rfl

theorem point_working {c : Conn σ} {u : Unit} (h : (point c).1 = some u) :
    (point c).2.working = c.working := by
  unfold point at h ⊢
  split <;> first | rfl | simp_all

theorem point_clean {c : Conn σ} (h : c.working = c.durable) :
    (point c).2.working = c.durable := by
  unfold point
  split
  · exact h
  · exact h
  · exact h
  · rfl

theorem point_depth (c : Conn σ) : (point c).2.depth = c.depth := by
  unfold point
  split <;> rfl

theorem point_unmarked (c : Conn σ) : (point c).2.rollbackOnly = c.rollbackOnly := by
  unfold point
  split <;> rfl

theorem point_of_nil {c : Conn σ} (h : c.faults = []) : point c = (some (), c) := by
  unfold point
  rw [h]

variable {m : Exec σ α} {eval : σ → Option (α × σ)}

theorem refines_pure (a : α) :
    Refines (fun c : Conn σ ↦ (some a, c)) (fun s ↦ some (a, s)) := by
  refine ⟨fun _ _ ↦ rfl, fun _ _ ↦ rfl, fun c b _ h ↦ ?_, fun c b s _ _ h ↦ ?_⟩
  · rw [Option.some.inj h]
  · obtain ⟨rfl, rfl⟩ := Prod.mk.inj (Option.some.inj h)
    rfl

theorem Refines.bind {f : α → Exec σ β} {g : α → σ → Option (β × σ)} (hm : Refines m eval)
    (hf : ∀ a, Refines (f a) (g a)) :
    Refines (Exec.bind m f) (fun s ↦ (eval s).bind fun r ↦ g r.1 r.2) := by
  have hcases : ∀ c, 0 < c.depth →
      ((m c).1 = none ∧ Exec.bind m f c = (none, (m c).2)) ∨
      ∃ a, (m c).1 = some a ∧ Exec.bind m f c = f a (m c).2 ∧ 0 < (m c).2.depth := by
    intro c hc
    have hd := hm.depth c hc
    unfold Exec.bind
    rcases hr : m c with ⟨_ | a, c'⟩
    · exact Or.inl ⟨rfl, rfl⟩
    · refine Or.inr ⟨a, rfl, rfl, ?_⟩
      rw [hr] at hd
      rw [hd]
      exact hc
  refine ⟨fun c hc ↦ ?_, fun c hc ↦ ?_, fun c b hc hb ↦ ?_, fun c b s hc hn hs ↦ ?_⟩
  · rcases hcases c hc with ⟨-, he⟩ | ⟨a, -, he, hc'⟩
    · rw [he]
      exact hm.durable c hc
    · rw [he, (hf a).durable _ hc']
      exact hm.durable c hc
  · rcases hcases c hc with ⟨-, he⟩ | ⟨a, -, he, hc'⟩
    · rw [he]
      exact hm.depth c hc
    · rw [he, (hf a).depth _ hc']
      exact hm.depth c hc
  · rcases hcases c hc with ⟨-, he⟩ | ⟨a, ha, he, hc'⟩
    · rw [he] at hb
      cases hb
    · rw [he] at hb ⊢
      rw [hm.returns c a hc ha]
      exact (hf a).returns _ b hc' hb
  · obtain ⟨⟨a, s₁⟩, ha, hb⟩ := Option.bind_eq_some_iff.mp hs
    unfold Exec.bind
    rw [hm.completes c a s₁ hc hn ha]
    exact (hf a).completes _ b s hc hn hb

theorem refines_point : Refines (point : Exec σ Unit) (fun s ↦ some ((), s)) := by
  refine ⟨fun c _ ↦ point_durable c, fun c _ ↦ point_depth c, fun c a _ ha ↦ ?_,
    fun c a s _ hn hs ↦ ?_⟩
  · rw [point_working ha]
  · obtain ⟨-, rfl⟩ := Prod.mk.inj (Option.some.inj hs)
    rw [point_of_nil hn]

theorem refines_statement (f : σ → Option (α × σ)) : Refines (statement f) f := by
  have hrun : Refines (fun c : Conn σ ↦ match f c.working with
      | none => (none, c)
      | some (a, s) => (some a, { c with working := s })) f := by
    refine ⟨fun c _ ↦ ?_, fun c _ ↦ ?_, fun c a _ h ↦ ?_, fun c a s _ _ h ↦ ?_⟩
    · split <;> rfl
    · split <;> rfl
    · split at h
      · cases h
      · rename_i b s heq
        rw [← Option.some.inj h, heq]
    · rw [h]
  exact refines_point.bind fun _ ↦ hrun

theorem refines_raise : Refines (fun c : Conn σ ↦ ((none : Option α), c)) (fun _ ↦ none) :=
  ⟨fun _ _ ↦ rfl, fun _ _ ↦ rfl, fun _ _ _ h ↦ (by cases h), fun _ _ _ _ _ h ↦ (by cases h)⟩

theorem refines_commitIfNeeded :
    Refines (commitIfNeeded : Exec σ Unit) (fun s ↦ some ((), s)) := by
  have hjoin : ∀ c : Conn σ, 0 < c.depth → commitIfNeeded c = (some (), c) := by
    intro c hc
    exact if_neg (by omega)
  refine ⟨fun c hc ↦ ?_, fun c hc ↦ ?_, fun c a hc _ ↦ ?_, fun c a s hc _ hs ↦ ?_⟩
  · rw [hjoin c hc]
  · rw [hjoin c hc]
  · rw [hjoin c hc]
  · obtain ⟨-, rfl⟩ := Prod.mk.inj (Option.some.inj hs)
    exact hjoin c hc

theorem writeTransaction_inner (m : Exec σ α) {c : Conn σ} (hc : 0 < c.depth) :
    writeTransaction m c = match m c.enter with
      | (none, c) => (none, ({ c with rollbackOnly := true } : Conn σ).leave false)
      | (some a, c) => (some a, c.leave false) := by
  have hne : ¬ c.depth = 0 := by omega
  unfold writeTransaction
  simp only [hne, if_false, decide_false]

theorem Refines.block (hm : Refines m eval) : Refines (writeTransaction m) eval := by
  have henter : ∀ c : Conn σ, 0 < c.enter.depth := fun c ↦ Nat.succ_pos _
  refine ⟨fun c hc ↦ ?_, fun c hc ↦ ?_, fun c a hc ha ↦ ?_, fun c a s hc hn hs ↦ ?_⟩
  · have hd := hm.durable c.enter (henter c)
    rw [writeTransaction_inner m hc]
    split
    all_goals
      rename_i heq
      rw [heq] at hd
      exact hd
  · have hd := hm.depth c.enter (henter c)
    rw [writeTransaction_inner m hc]
    split
    all_goals
      rename_i heq
      rw [heq] at hd
      exact congrArg (· - 1) hd
  · rw [writeTransaction_inner m hc] at ha ⊢
    have hret := hm.returns c.enter a (henter c)
    split at ha
    · cases ha
    · rename_i b c' heq
      rw [heq] at hret
      exact hret ha
  · rw [writeTransaction_inner m hc, hm.completes c.enter a s (henter c) hn hs]
    simp [Conn.leave, Conn.enter]

theorem writeTransaction_outer (m : Exec σ α) {c : Conn σ} (hc : c.depth = 0) :
    writeTransaction m c = match point c with
      | (none, c) => (none, c)
      | (some _, c) => match m ({ c with rollbackOnly := false } : Conn σ).enter with
        | (none, c) => (none, ({ c with rollbackOnly := true } : Conn σ).rollback.leave true)
        | (some a, c) =>
          if c.rollbackOnly then (none, c.rollback.leave true)
          else match point c with
            | (none, c) => (none, c.rollback.leave true)
            | (some _, c) => (some a, c.commit.leave true) := by
  unfold writeTransaction
  simp only [hc, if_true, decide_true]

/-- The outermost block: all of its effect becomes durable, or nothing does. -/
theorem Refines.atomic (hm : Refines m eval) {c : Conn σ} (hc : c.AtRest) :
    (writeTransaction m c).2.AtRest ∧
      ((writeTransaction m c).1 = none ∧ (writeTransaction m c).2.durable = c.durable ∨
        ∃ a, (writeTransaction m c).1 = some a ∧
          eval c.durable = some (a, (writeTransaction m c).2.durable)) := by
  rw [writeTransaction_outer m hc.depth]
  have hdurable := point_durable c
  have hworking := point_clean hc.clean
  have hdepth := point_depth c
  have hmark := point_unmarked c
  rcases hbegin : point c with ⟨_ | u, c₁⟩ <;> rw [hbegin] at hdurable hworking hdepth hmark
  · exact ⟨⟨hdepth.trans hc.depth, hworking.trans hdurable.symm, hmark.trans hc.unmarked⟩,
      Or.inl ⟨rfl, hdurable⟩⟩
  · dsimp only
    generalize hc₂ : ({ c₁ with rollbackOnly := false } : Conn σ).enter = c₂
    have hin : 0 < c₂.depth := hc₂ ▸ Nat.succ_pos _
    have hd := hm.durable c₂ hin
    have hdep := hm.depth c₂ hin
    have hret := fun a ↦ hm.returns c₂ a hin
    have hzero : c₂.depth - 1 = 0 := by
      rw [← hc₂]
      exact hdepth.trans hc.depth
    have hstart : c₂.durable = c₁.durable ∧ c₂.working = c₁.working := by
      rw [← hc₂]
      exact ⟨rfl, rfl⟩
    replace hd := hd.trans (hstart.1.trans hdurable)
    rcases hbody : m c₂ with ⟨_ | a, c₃⟩ <;> rw [hbody] at hd hdep hret
    · refine ⟨⟨?_, rfl, rfl⟩, Or.inl ⟨rfl, hd⟩⟩
      exact (congrArg (· - 1) hdep).trans hzero
    · have hrolled : (c₃.rollback.leave true).AtRest := by
        refine ⟨(congrArg (· - 1) hdep).trans hzero, rfl, ?_⟩
        simp [Conn.leave]
      dsimp only
      split
      · exact ⟨hrolled, Or.inl ⟨rfl, hd⟩⟩
      · have hdurable₃ := point_durable c₃
        have hworking₃ := fun u ↦ @point_working _ c₃ u
        have hdepth₃ := point_depth c₃
        rcases hend : point c₃ with ⟨_ | u', c₄⟩ <;>
          rw [hend] at hdurable₃ hworking₃ hdepth₃
        · refine ⟨⟨?_, rfl, by simp [Conn.leave]⟩, Or.inl ⟨rfl, ?_⟩⟩
          · exact (congrArg (· - 1) (hdepth₃.trans hdep)).trans hzero
          · exact hdurable₃.trans hd
        · refine ⟨⟨?_, rfl, by simp [Conn.leave]⟩, Or.inr ⟨a, rfl, ?_⟩⟩
          · exact (congrArg (· - 1) (hdepth₃.trans hdep)).trans hzero
          · have heval := hret a rfl
            rw [hstart.2.trans hworking] at heval
            rw [heval]
            exact congrArg (fun s ↦ some (a, s)) (hworking₃ u' rfl).symm

theorem Refines.completed (hm : Refines m eval) {s s' : σ} {a : α} (h : eval s = some (a, s')) :
    writeTransaction m (.idle s []) = (some a, .idle s' []) := by
  rw [writeTransaction_outer m rfl, point_of_nil rfl]
  dsimp only
  rw [hm.completes _ a s' (Nat.succ_pos _) rfl h]
  rfl

end Exec

/-- A unit of work: a program that may run inside a write block, and what it evaluates to. -/
structure Work (σ α : Type) where
  exec : Exec σ α
  eval : σ → Option (α × σ)
  refines : exec.Refines eval

namespace Work

instance : Monad (Work σ) where
  pure a := ⟨fun c ↦ (some a, c), fun s ↦ some (a, s), Exec.refines_pure a⟩
  bind w f := ⟨w.exec.bind fun a ↦ (f a).exec, fun s ↦ (w.eval s).bind fun r ↦ (f r.1).eval r.2,
    w.refines.bind fun a ↦ (f a).refines⟩

def statement (f : σ → Option (α × σ)) : Work σ α := ⟨_, f, Exec.refines_statement f⟩

def select (f : σ → α) : Work σ α := statement fun s ↦ some (f s, s)

def modify (f : σ → σ) : Work σ Unit := statement fun s ↦ some ((), f s)

def check : Work σ Unit := ⟨Exec.point, fun s ↦ some ((), s), Exec.refines_point⟩

def raise : Work σ α := ⟨fun c ↦ (none, c), fun _ ↦ none, Exec.refines_raise⟩

def ofOption : Option α → Work σ α
  | none => raise
  | some a => pure a

def require (p : Bool) : Work σ Unit := if p then pure () else raise

def commitIfNeeded : Work σ Unit :=
  ⟨Exec.commitIfNeeded, fun s ↦ some ((), s), Exec.refines_commitIfNeeded⟩

def writeTransaction (w : Work σ α) : Work σ α :=
  ⟨Exec.writeTransaction w.exec, w.eval, w.refines.block⟩

@[simp] theorem eval_bind (w : Work σ α) (f : α → Work σ β) (s : σ) :
    (w >>= f).eval s = (w.eval s).bind fun r ↦ (f r.1).eval r.2 := rfl

@[simp] theorem eval_statement (f : σ → Option (α × σ)) (s : σ) : (statement f).eval s = f s := rfl

@[simp] theorem eval_select (f : σ → α) (s : σ) : (select f).eval s = some (f s, s) := rfl

@[simp] theorem eval_modify (f : σ → σ) (s : σ) : (modify f).eval s = some ((), f s) := rfl

@[simp] theorem eval_check (s : σ) : (check : Work σ Unit).eval s = some ((), s) := rfl

@[simp] theorem eval_commitIfNeeded (s : σ) :
    (commitIfNeeded : Work σ Unit).eval s = some ((), s) := rfl

@[simp] theorem eval_writeTransaction (w : Work σ α) (s : σ) :
    (writeTransaction w).eval s = w.eval s := rfl

@[simp] theorem eval_ofOption (o : Option α) (s : σ) :
    (ofOption o : Work σ α).eval s = o.map fun a ↦ (a, s) := by
  cases o <;> rfl

@[simp] theorem eval_require (p : Bool) (s : σ) :
    (require p : Work σ Unit).eval s = if p then some ((), s) else none := by
  cases p <;> rfl

theorem bind_eval {w : Work σ α} {f : α → Work σ β} {s s' : σ} {b : β}
    (h : (w >>= f).eval s = some (b, s')) :
    ∃ a s₁, w.eval s = some (a, s₁) ∧ (f a).eval s₁ = some (b, s') := by
  obtain ⟨⟨a, s₁⟩, ha, hb⟩ := Option.bind_eq_some_iff.mp h
  exact ⟨a, s₁, ha, hb⟩

theorem eval_forM_induction {f : α → Work σ Unit} {P : List α → σ → Prop} {l : List α} {s s' : σ}
    (h : (l.forM f).eval s = some ((), s')) (hs : P [] s)
    (hstep : ∀ (done : List α) (a : α) (t t' : σ), a ∈ l → P done t →
      (f a).eval t = some ((), t') → P (done ++ [a]) t') : P l s' := by
  suffices hgen : ∀ (rest done : List α) (t : σ), rest ⊆ l → P done t →
      (rest.forM f).eval t = some ((), s') → P (done ++ rest) s' from
    hgen l [] s (List.Subset.refl _) hs h
  intro rest
  induction rest with
  | nil =>
    intro done t _ ht he
    obtain ⟨-, rfl⟩ := Prod.mk.inj (Option.some.inj he)
    rwa [List.append_nil]
  | cons a rest ih =>
    intro done t hsub ht he
    obtain ⟨⟨⟨⟩, t'⟩, ha, hrest⟩ := Option.bind_eq_some_iff.mp he
    have hnext := hstep done a t t' (hsub List.mem_cons_self) ht ha
    have hall := ih (done ++ [a]) t' (fun b hb ↦ hsub (List.mem_cons_of_mem a hb)) hnext hrest
    rwa [List.append_assoc] at hall

theorem eval_forM_append {f : α → Work σ Unit} {l l' : List α} {s s' : σ}
    (h : ((l ++ l').forM f).eval s = some ((), s')) :
    ∃ s₁, (l.forM f).eval s = some ((), s₁) ∧ (l'.forM f).eval s₁ = some ((), s') := by
  induction l generalizing s with
  | nil => exact ⟨s, rfl, h⟩
  | cons a l ih =>
    obtain ⟨⟨⟩, s₁, ha, hrest⟩ := bind_eval h
    obtain ⟨s₂, hl, hl'⟩ := ih hrest
    refine ⟨s₂, ?_, hl'⟩
    have hcons : (l.cons a).forM f = f a >>= fun _ ↦ l.forM f := rfl
    rw [hcons, eval_bind, ha, Option.bind_some]
    exact hl

theorem eval_forM_total {f : α → Work σ Unit} {l : List α}
    (h : ∀ a ∈ l, ∀ s, ∃ s', (f a).eval s = some ((), s')) (s : σ) :
    ∃ s', (l.forM f).eval s = some ((), s') := by
  induction l generalizing s with
  | nil => exact ⟨s, rfl⟩
  | cons a l ih =>
    obtain ⟨s₁, ha⟩ := h a List.mem_cons_self s
    obtain ⟨s', hl⟩ := ih (fun b hb ↦ h b (List.mem_cons_of_mem a hb)) s₁
    refine ⟨s', ?_⟩
    have hcons : (l.cons a).forM f = f a >>= fun _ ↦ l.forM f := rfl
    rw [hcons, eval_bind, ha, Option.bind_some]
    exact hl

theorem eval_forM_progress {f : α → Work σ Unit} {P : List α → σ → Prop} {l : List α} {s : σ}
    (hs : P [] s) (hstep : ∀ (done : List α) (a : α) (rest : List α) (t : σ),
      l = done ++ a :: rest → P done t → ∃ t', (f a).eval t = some ((), t') ∧ P (done ++ [a]) t') :
    ∃ s', (l.forM f).eval s = some ((), s') ∧ P l s' := by
  suffices hgen : ∀ (rest done : List α) (t : σ), l = done ++ rest → P done t →
      ∃ s', (rest.forM f).eval t = some ((), s') ∧ P l s' from
    hgen l [] s rfl hs
  intro rest
  induction rest with
  | nil =>
    intro done t hl ht
    rw [List.append_nil] at hl
    exact ⟨t, rfl, hl ▸ ht⟩
  | cons a rest ih =>
    intro done t hl ht
    obtain ⟨t', ha, hnext⟩ := hstep done a rest t hl ht
    obtain ⟨s', hrest, hall⟩ := ih (done ++ [a]) t' (by rw [hl, List.append_assoc]; rfl) hnext
    refine ⟨s', ?_, hall⟩
    have hcons : (a :: rest).forM f = f a >>= fun _ ↦ rest.forM f := rfl
    rw [hcons, eval_bind, ha, Option.bind_some]
    exact hrest

def after (w : Work σ α) (faults : List Fate) (s : σ) : σ := (w.exec (.idle s faults)).2.durable

def returned (w : Work σ α) (faults : List Fate) (s : σ) : Bool :=
  (w.exec (.idle s faults)).1.isSome

theorem select_bind_exec (f : σ → α) (g : α → Work σ β) (faults : List Fate) (s : σ) :
    (select f >>= g).exec (.idle s faults) =
      if faults.headD .returns ≠ .returns then (none, .idle s faults.tail)
      else (g (f s)).exec (.idle s faults.tail) := by
  cases faults with
  | nil => rfl
  | cons fault faults => cases fault <;> rfl

/-- A failure inside a write block leaves nothing behind. -/
theorem writeTransaction_after (w : Work σ α) (faults : List Fate) (s : σ) :
    (w.writeTransaction.returned faults s = false ∧ w.writeTransaction.after faults s = s) ∨
      w.writeTransaction.returned faults s = true ∧
        ∃ a, w.eval s = some (a, w.writeTransaction.after faults s) := by
  rcases (w.refines.atomic (Conn.idle_atRest s faults)).2 with ⟨hnone, hs⟩ | ⟨a, ha, hs⟩
  · refine Or.inl ⟨?_, hs⟩
    unfold returned
    exact congrArg Option.isSome hnone
  · refine Or.inr ⟨?_, a, hs⟩
    unfold returned
    exact congrArg Option.isSome ha

theorem writeTransaction_cases (w : Work σ Unit) (faults : List Fate) (s : σ) :
    w.writeTransaction.after faults s = s ∨
      w.writeTransaction.eval s = some ((), w.writeTransaction.after faults s) := by
  rcases w.writeTransaction_after faults s with ⟨-, h⟩ | ⟨-, ⟨⟩, h⟩
  · exact Or.inl h
  · exact Or.inr h

theorem writeTransaction_returned {w : Work σ α} {faults : List Fate} {s : σ}
    (h : w.writeTransaction.returned faults s = true) :
    ∃ a, w.eval s = some (a, w.writeTransaction.after faults s) := by
  rcases w.writeTransaction_after faults s with ⟨hfalse, -⟩ | ⟨-, hdone⟩
  · cases hfalse.symm.trans h
  · exact hdone

theorem writeTransaction_completed {w : Work σ α} {s s' : σ} {a : α} (h : w.eval s = some (a, s')) :
    w.writeTransaction.returned [] s = true ∧ w.writeTransaction.after [] s = s' := by
  have hrun := w.refines.completed h
  unfold returned after
  exact ⟨congrArg (fun r ↦ r.1.isSome) hrun, congrArg (fun r ↦ r.2.durable) hrun⟩

end Work

end RiskApp.Lib
