import Mathlib.Data.List.Basic
import RiskApp.Lib.Atomic

namespace RiskApp.Lib

/-- What is raised: an exception of the program, the failure of a statement, or that of the
outermost block because an inner one failed. -/
inductive Raised (ε : Type)
  | user (e : ε)
  | statement
  | nested

/-- A tree of write blocks, with what runs between their ends. -/
inductive Blocks (σ ε : Type)
  | pass
  | write (f : σ → Option σ)
  | commitIfNeeded
  | raise (e : ε)
  | seq (p q : Blocks σ ε)
  | attempt (p : Blocks σ ε) (catches : Raised ε → Bool) (handler : Blocks σ ε)
  | block (body : Blocks σ ε)

structure Journal (σ : Type) where
  state : σ
  writes : List (σ → Option σ) := []

variable {σ ε : Type}

def Journal.write (f : σ → Option σ) (j : Journal σ) : Option (Journal σ) :=
  (f j.state).map fun s ↦ ⟨s, j.writes ++ [f]⟩

/-- How far a tree has come inside of the outermost block, which began on `start`. `writes` are the
writes that have returned, `left` says that a block was left by an exception, and `lost` that a
failure has ended the transaction after a write. -/
structure Progress (σ : Type) where
  journal : Journal σ
  writes : List (σ → Option σ) := []
  left : Bool := false
  lost : Bool := false
  faults : List Fate

namespace Progress

def start (s : σ) (faults : List Fate) : Progress σ := { journal := ⟨s, []⟩, faults := faults }

/-- The next statement fails, or its effect is left to `next`. -/
def point (s : σ) (next : Progress σ → Option (Raised ε) × Progress σ) (p : Progress σ) :
    Option (Raised ε) × Progress σ :=
  match p.faults with
  | [] => next p
  | .returns :: faults => next { p with faults := faults }
  | .fails :: faults => (some .statement, { p with faults := faults })
  | .endsTransaction :: faults => (some .statement, { p with
      journal := ⟨s, []⟩
      lost := p.lost || !p.writes.isEmpty
      faults := faults })

def write (f : σ → Option σ) (p : Progress σ) : Option (Raised ε) × Progress σ :=
  match p.journal.write f with
  | none => (some .statement, p)
  | some j => (none, { p with journal := j, writes := p.writes ++ [f] })

end Progress

namespace Blocks

/-- What a tree does inside of a block that began on `s`, and what it raises. -/
def effect (s : σ) : Blocks σ ε → Progress σ → Option (Raised ε) × Progress σ
  | pass, p => (none, p)
  | write f, p => p.point s (Progress.write f)
  | commitIfNeeded, p => (none, p)
  | raise e, p => (some (.user e), p)
  | seq a b, p =>
    let r := a.effect s p
    if r.1.isSome then r else b.effect s r.2
  | attempt a catches handler, p =>
    let r := a.effect s p
    if r.1.any catches then handler.effect s r.2 else r
  | block body, p =>
    let r := body.effect s p
    (r.1, { r.2 with left := r.2.left || r.1.isSome })

def raising (m : Exec (Journal σ) Unit) (c : Conn (Journal σ)) :
    Option (Raised ε) × Conn (Journal σ) :=
  match m c with
  | (none, c) => (some .statement, c)
  | (some _, c) => (none, c)

/-- The tree on a connection; a block is `write_transaction`. -/
def run : Blocks σ ε → Conn (Journal σ) → Option (Raised ε) × Conn (Journal σ)
  | pass, c => (none, c)
  | write f, c => raising (Exec.statement fun j ↦ (j.write f).map fun j ↦ ((), j)) c
  | commitIfNeeded, c => raising Exec.commitIfNeeded c
  | raise e, c => (some (.user e), c)
  | seq p q, c =>
    let r := p.run c
    if r.1.isSome then r else q.run r.2
  | attempt p catches handler, c =>
    let r := p.run c
    if r.1.any catches then handler.run r.2 else r
  | block body, c =>
    let outermost : Bool := c.depth = 0
    match if outermost then Exec.point c else (some (), c) with
    | (none, c) => (some .statement, c)
    | (some _, c) =>
      let c := if outermost then { c with rollbackOnly := false } else c
      match body.run c.enter with
      | (some e, c) =>
        let c := { c with rollbackOnly := true }
        (some e, (if outermost then c.rollback else c).leave outermost)
      | (none, c) =>
        if outermost then
          if c.rollbackOnly then (some .nested, c.rollback.leave outermost)
          else match Exec.point c with
            | (none, c) => (some .statement, c.rollback.leave outermost)
            | (some _, c) => (none, c.commit.leave outermost)
        else (none, c.leave outermost)

def struck (faults : List Fate) : Bool := faults.headD .returns ≠ .returns

/-- Where the connection stands once a tree has come that far inside of its block. -/
def settled (p : Progress σ) (c : Conn (Journal σ)) : Conn (Journal σ) :=
  { c with working := p.journal, rollbackOnly := c.rollbackOnly || p.left, faults := p.faults }

theorem run_write (f : σ → Option σ) {s : σ} {c : Conn (Journal σ)} (hs : c.durable = ⟨s, []⟩)
    (p : Progress σ) :
    (write f : Blocks σ ε).run (settled p c) =
      ((effect s (write f : Blocks σ ε) p).1, settled (effect s (write f : Blocks σ ε) p).2 c) := by
  rcases p with ⟨j, writes, left, lost, faults⟩
  simp only [run, raising, Exec.statement, Exec.bind, Exec.point, settled, effect, Progress.point]
  cases faults with
  | nil =>
    simp only [Progress.write]
    cases j.write f <;> rfl
  | cons fault faults =>
    cases fault with
    | returns =>
      simp only [Progress.write]
      cases j.write f <;> rfl
    | fails => rfl
    | endsTransaction => simp only [Conn.rollback, hs]

/-- Inside of a block, the connection goes as far as the tree, with the mark for every block that
was left by an exception. -/
theorem run_inside (tree : Blocks σ ε) {s : σ} {c : Conn (Journal σ)} (hc : 0 < c.depth)
    (hs : c.durable = ⟨s, []⟩) (p : Progress σ) :
    tree.run (settled p c) = ((tree.effect s p).1, settled (tree.effect s p).2 c) := by
  induction tree generalizing c p with
  | pass => rfl
  | write f => exact run_write f hs p
  | commitIfNeeded =>
    have hjoin : Exec.commitIfNeeded (settled p c) = (some (), settled p c) :=
      if_neg (Nat.ne_of_gt hc)
    simp only [run, raising, hjoin, effect]
  | raise e => rfl
  | seq a b iha ihb =>
    simp only [run, effect, iha hc hs]
    split
    · rfl
    · exact ihb hc hs _
  | attempt a catches handler iha ihh =>
    simp only [run, effect, iha hc hs]
    split
    · exact ihh hc hs _
    · rfl
  | block body ih =>
    have hne : ¬ (settled p c).depth = 0 := Nat.ne_of_gt hc
    have hbody : body.run (settled p c).enter = _ := ih (c := c.enter) (Nat.succ_pos _) hs p
    simp only [run, hne, decide_false, Bool.false_eq_true, if_false, hbody, effect]
    cases hraised : (body.effect s p).1 with
    | none => simp [settled, Conn.leave, Conn.enter]
    | some e => simp [settled, Conn.leave, Conn.enter]

/-- What the outermost block makes of its body: all that the journal holds, or nothing. -/
def concluded (s : σ) (r : Option (Raised ε) × Progress σ) :
    Option (Raised ε) × Conn (Journal σ) :=
  match r.1 with
  | some e => (some e, .idle ⟨s, []⟩ r.2.faults)
  | none =>
    if r.2.left then (some .nested, .idle ⟨s, []⟩ r.2.faults)
    else if struck r.2.faults then (some .statement, .idle ⟨s, []⟩ r.2.faults.tail)
    else (none, .idle r.2.journal r.2.faults.tail)

theorem point_free {c : Conn (Journal σ)} (h : struck c.faults = false) :
    Exec.point c = (some (), { c with faults := c.faults.tail }) := by
  rcases c with ⟨d, w, n, m, faults⟩
  match faults with
  | [] | .returns :: faults => rfl
  | .fails :: faults | .endsTransaction :: faults => cases h

/-- The failure of the first or the last statement of a block takes everything back. -/
theorem point_struck {c : Conn (Journal σ)} (h : struck c.faults = true) :
    ∃ c', Exec.point c = (none, c') ∧ c'.rollback = { c.rollback with faults := c.faults.tail } ∧
      (c.working = c.durable → c' = { c with faults := c.faults.tail }) := by
  rcases c with ⟨d, w, n, m, faults⟩
  match faults with
  | [] | .returns :: faults => cases h
  | .fails :: faults => exact ⟨_, rfl, rfl, fun _ ↦ rfl⟩
  | .endsTransaction :: faults =>
    refine ⟨_, rfl, rfl, fun hclean ↦ ?_⟩
    simp only at hclean
    subst hclean
    rfl

theorem run_block (body : Blocks σ ε) (s : σ) (faults : List Fate) :
    (block body).run (.idle ⟨s, []⟩ faults) =
      if struck faults then (some .statement, .idle ⟨s, []⟩ faults.tail)
      else concluded s (body.effect s (.start s faults.tail)) := by
  have hdepth : (Conn.idle (⟨s, []⟩ : Journal σ) faults).depth = 0 := rfl
  simp only [run, hdepth, decide_true, if_true]
  cases hbegin : struck faults with
  | true =>
    obtain ⟨c', hpoint, -, hsame⟩ := point_struck (c := .idle (⟨s, []⟩ : Journal σ) faults) hbegin
    rw [hpoint, hsame rfl]
    rfl
  | false =>
    rw [point_free (c := .idle (⟨s, []⟩ : Journal σ) faults) hbegin]
    have hbody := run_inside body (c := Conn.enter ⟨⟨s, []⟩, ⟨s, []⟩, 0, false, faults.tail⟩)
      (Nat.succ_pos _) rfl (.start s faults.tail)
    generalize hr : body.effect s (.start s faults.tail) = r at hbody
    have hstart : settled (.start s faults.tail) (Conn.enter ⟨⟨s, []⟩, ⟨s, []⟩, 0, false,
        faults.tail⟩) = Conn.enter ⟨⟨s, []⟩, ⟨s, []⟩, 0, false, faults.tail⟩ := rfl
    rw [hstart] at hbody
    have hout : ∀ c : Conn (Journal σ), c.depth = 1 →
        c.commit.leave true = .idle c.working c.faults ∧
          c.rollback.leave true = .idle c.durable c.faults := by
      intro c hc
      simp [Conn.commit, Conn.rollback, Conn.leave, Conn.idle, hc]
    simp only [Conn.idle, hbody, concluded, Bool.false_eq_true, if_false]
    rcases r with ⟨_ | e, p⟩
    · simp only [settled, Conn.enter, Bool.false_or]
      split
      · exact congrArg (Prod.mk _) (hout _ rfl).2
      · cases hcommit : struck p.faults with
        | true =>
          obtain ⟨c', hpoint, hrolled, -⟩ := point_struck
            (c := ⟨⟨s, []⟩, p.journal, 0 + 1, p.left, p.faults⟩) hcommit
          simp only [hpoint, hrolled, if_true]
          exact congrArg (Prod.mk _) (hout ⟨⟨s, []⟩, p.journal, 1, p.left, p.faults.tail⟩ rfl).2
        | false =>
          simp only [point_free
            (c := ⟨⟨s, []⟩, p.journal, 0 + 1, p.left, p.faults⟩) hcommit, Bool.false_eq_true,
            if_false]
          exact congrArg (Prod.mk _) (hout _ rfl).1
    · exact congrArg (Prod.mk _) (by simp [Conn.leave, Conn.rollback, settled, Conn.enter])

structure Kept (s : σ) (p : Progress σ) : Prop where
  replay : p.journal.writes.foldlM (fun s f ↦ f s) s = some p.journal.state
  held : p.journal.writes <:+ p.writes
  lost : p.lost = false ↔ p.journal.writes = p.writes

theorem kept_start (s : σ) (faults : List Fate) : Kept s (.start s faults) :=
  ⟨rfl, List.suffix_refl _, iff_of_true rfl rfl⟩

theorem Kept.write {s : σ} {p : Progress σ} (h : Kept s p) (f : σ → Option σ) :
    Kept s (p.write f : Option (Raised ε) × Progress σ).2 := by
  unfold Progress.write Journal.write
  cases hf : f p.journal.state with
  | none => exact h
  | some s' =>
    simp only [Option.map_some]
    refine ⟨?_, ?_, h.lost.trans (List.append_left_inj [f]).symm⟩
    · rw [List.foldlM_append, h.replay]
      exact congrArg (Option.bind · some) hf
    · obtain ⟨taken, htaken⟩ := h.held
      exact ⟨taken, by rw [← htaken, List.append_assoc]⟩

theorem Kept.point {s : σ} {p : Progress σ} (h : Kept s p)
    {next : Progress σ → Option (Raised ε) × Progress σ}
    (hnext : ∀ q, Kept s q → Kept s (next q).2) : Kept s (p.point s next).2 := by
  unfold Progress.point
  split
  · exact hnext p h
  · exact hnext _ ⟨h.replay, h.held, h.lost⟩
  · exact ⟨h.replay, h.held, h.lost⟩
  · refine ⟨rfl, List.nil_suffix, ?_⟩
    simp only [Bool.or_eq_false_iff, Bool.not_eq_false', List.isEmpty_iff]
    constructor
    · exact fun hboth ↦ hboth.2.symm
    · intro hnil
      have hheld := h.held
      rw [← hnil] at hheld
      exact ⟨h.lost.mpr ((List.suffix_nil.mp hheld).trans hnil), hnil.symm⟩

theorem Kept.effect {s : σ} (tree : Blocks σ ε) {p : Progress σ} (h : Kept s p) :
    Kept s (tree.effect s p).2 := by
  induction tree generalizing p with
  | pass | commitIfNeeded | raise e => exact h
  | write f => exact h.point fun q hq ↦ hq.write f
  | seq a b iha ihb =>
    simp only [Blocks.effect]
    split
    · exact iha h
    · exact ihb (iha h)
  | attempt a catches handler iha ihh =>
    simp only [Blocks.effect]
    split
    · exact ihh (iha h)
    · exact iha h
  | block body ih => exact ⟨(ih h).replay, (ih h).held, (ih h).lost⟩

end Blocks

end RiskApp.Lib
