import RiskApp.Lib.Blocks
import RiskApp.Client.Cache

namespace RiskApp.Client

open Lib

section Blocks

variable {ε : Type} (tree : Blocks Cache ε) (c : Cache) (faults : List Fate)

def inBlock : Option (Raised ε) × Progress Cache := tree.effect c (.start c faults.tail)

def outcome : Option (Raised ε) × Conn (Journal Cache) :=
  (Blocks.block tree).run (.idle ⟨c, []⟩ faults)

/-- No block of the tree, the outermost included, is left by an exception. -/
structure Unbroken : Prop where
  begins : Blocks.struck faults = false
  returns : (inBlock tree c faults).1 = none
  inner : (inBlock tree c faults).2.left = false
  commits : Blocks.struck (inBlock tree c faults).2.faults = false

/-- Nested write transactions keep all of their writes or none: the outermost one raises when any
block was left by an exception, and the connection is as new afterwards. -/
structure AllOrNothing : Prop where
  all : Unbroken tree c faults → (outcome tree c faults).1 = none ∧
    (outcome tree c faults).2.durable.writes = (inBlock tree c faults).2.writes ∧
    (inBlock tree c faults).2.writes.foldlM (fun c write ↦ write c) c =
      some (outcome tree c faults).2.durable.state
  nothing : ¬ Unbroken tree c faults →
    (outcome tree c faults).1 ≠ none ∧ (outcome tree c faults).2.durable = ⟨c, []⟩
  nested : Blocks.struck faults = false → (inBlock tree c faults).1 = none →
    (inBlock tree c faults).2.left = true → (outcome tree c faults).1 = some .nested
  raised : Blocks.struck faults = false → ∀ e, (inBlock tree c faults).1 = some e →
    (outcome tree c faults).1 = some e
  fresh : (outcome tree c faults).2 =
    .idle (outcome tree c faults).2.durable (outcome tree c faults).2.faults

theorem outcome_unbroken (h : Unbroken tree c faults) : outcome tree c faults =
    (none, .idle (inBlock tree c faults).2.journal (inBlock tree c faults).2.faults.tail) := by
  have hrun := Blocks.run_block tree c faults
  rw [h.begins, if_neg Bool.false_ne_true] at hrun
  have hconcluded : Blocks.concluded c (inBlock tree c faults) = (none, .idle
      (inBlock tree c faults).2.journal (inBlock tree c faults).2.faults.tail) := by
    unfold Blocks.concluded
    rw [h.returns, h.inner, h.commits]
    rfl
  exact hrun.trans hconcluded

theorem outcome_broken (h : ¬ Unbroken tree c faults) : (outcome tree c faults).1 ≠ none ∧
    ∃ rest, (outcome tree c faults).2 = .idle ⟨c, []⟩ rest := by
  have hrun : outcome tree c faults = if Blocks.struck faults
      then (some .statement, .idle ⟨c, []⟩ faults.tail)
      else Blocks.concluded c (inBlock tree c faults) := Blocks.run_block tree c faults
  cases hbegin : Blocks.struck faults with
  | true =>
    rw [hrun, hbegin, if_pos rfl]
    exact ⟨by simp, _, rfl⟩
  | false =>
    rw [hrun, hbegin, if_neg Bool.false_ne_true]
    unfold Blocks.concluded
    cases hraised : (inBlock tree c faults).1 with
    | some e => exact ⟨by simp, _, rfl⟩
    | none =>
      dsimp only
      cases hleft : (inBlock tree c faults).2.left with
      | true => exact ⟨by simp, _, rfl⟩
      | false =>
        cases hcommit : Blocks.struck (inBlock tree c faults).2.faults with
        | true => exact ⟨by simp, _, rfl⟩
        | false => exact absurd ⟨hbegin, hraised, hleft, hcommit⟩ h

/-- The blocks keep all or nothing exactly when no failure that is caught inside of them has ended
the transaction after a write. -/
theorem write_transaction_all_or_nothing_iff : AllOrNothing tree c faults ↔
    (Unbroken tree c faults → (inBlock tree c faults).2.lost = false) := by
  have hkept : Blocks.Kept c (inBlock tree c faults).2 := (Blocks.kept_start c _).effect tree
  constructor
  · intro h hunbroken
    have hwrites := (h.all hunbroken).2.1
    rw [outcome_unbroken tree c faults hunbroken] at hwrites
    exact hkept.lost.mpr hwrites
  · intro hlost
    have hrun : Blocks.struck faults = false →
        outcome tree c faults = Blocks.concluded c (inBlock tree c faults) := by
      intro hbegin
      have hrun := Blocks.run_block tree c faults
      rwa [hbegin, if_neg Bool.false_ne_true] at hrun
    refine ⟨fun h ↦ ?_, fun h ↦ ?_, fun hbegin hnone hleft ↦ ?_, fun hbegin e he ↦ ?_, ?_⟩
    · have hwrites := hkept.lost.mp (hlost h)
      rw [outcome_unbroken tree c faults h]
      exact ⟨rfl, hwrites, hwrites ▸ hkept.replay⟩
    · obtain ⟨hraised, rest, hidle⟩ := outcome_broken tree c faults h
      exact ⟨hraised, congrArg Conn.durable hidle⟩
    · rw [hrun hbegin, Blocks.concluded, hnone, hleft]
      rfl
    · rw [hrun hbegin, Blocks.concluded, he]
    · by_cases h : Unbroken tree c faults
      · rw [outcome_unbroken tree c faults h]
        rfl
      · obtain ⟨-, rest, hidle⟩ := outcome_broken tree c faults h
        rw [hidle]
        rfl

end Blocks

def fullDisk : Blocks Cache Unit :=
  .seq (.write fun c ↦ some { c with watermark := 7 })
    (.seq (.attempt (.write some) (fun _ ↦ true) .pass) (.write some))

/-- The first write is gone, although no block was left by an exception. -/
theorem full_disk_forgets_writes :
    ¬ ∀ (tree : Blocks Cache Unit) (c : Cache) (faults : List Fate),
      AllOrNothing tree c faults := by
  intro h
  have hall := (h fullDisk {} [.returns, .returns, .endsTransaction]).all ⟨rfl, rfl, rfl, rfl⟩
  have hlength := congrArg List.length hall.2.1
  cases hlength

/-- An inner failure that a caller swallows still undoes the writes around it. -/
example : (outcome (.seq (.write fun c : Cache ↦ some { c with watermark := 7 })
      (.attempt (.block (.raise ())) (fun _ ↦ true) .pass)) {} []).2.durable.state.watermark =
    0 := rfl

end RiskApp.Client
