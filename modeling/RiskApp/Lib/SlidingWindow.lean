import Mathlib.Data.List.Basic
import Mathlib.Order.Lattice

namespace RiskApp.Lib.SlidingWindow

theorem exists_oldest {α : Type} {P : α → Prop} {l : List α} (h : ∃ a ∈ l, P a) :
    ∃ after a before, l = after ++ a :: before ∧ P a ∧ ∀ b ∈ before, ¬ P b := by
  induction l with
  | nil =>
    obtain ⟨a, ha, -⟩ := h
    cases ha
  | cons b l ih =>
    by_cases hl : ∃ a ∈ l, P a
    · obtain ⟨after, a, before, rfl, ha, hbefore⟩ := ih hl
      exact ⟨b :: after, a, before, rfl, ha, hbefore⟩
    · obtain ⟨a, ha, hP⟩ := h
      rcases List.mem_cons.mp ha with rfl | ha
      · exact ⟨[], a, l, rfl, hP, fun g hg hPg ↦ hl ⟨g, hg, hPg⟩⟩
      · exact absurd ⟨a, ha, hP⟩ hl

/-- Whose attempt it was and when, whether it was allowed, and whose attempts it made the store
forget. -/
structure Attempt (κ T : Type) where
  key : κ
  now : T
  allowed : Bool
  evicted : Option κ

/-- The newest attempt comes first. -/
abbrev Log (κ T : Type) := List (Attempt κ T)

variable {κ T : Type} [DecidableEq κ]

def Attempt.hit (k : κ) (a : Attempt κ T) : List T :=
  if a.key = k ∧ a.allowed = true then [a.now] else []

def hits (k : κ) : Log κ T → List T
  | [] => []
  | a :: log => hits k log ++ a.hit k

/-- Those since the key was evicted last. -/
def live (k : κ) : Log κ T → List T
  | [] => []
  | a :: log => (if a.evicted = some k then [] else live k log) ++ a.hit k

def Ordered [LE T] (log : Log κ T) : Prop := log.Pairwise fun a b ↦ b.now ≤ a.now

variable {k : κ} {log : Log κ T} {t : T}

theorem mem_hit {a : Attempt κ T} : t ∈ a.hit k ↔ a.key = k ∧ a.allowed = true ∧ a.now = t := by
  unfold Attempt.hit
  split
  · rename_i h
    rw [List.mem_singleton]
    exact ⟨fun ht ↦ ⟨h.1, h.2, ht.symm⟩, fun ht ↦ ht.2.2.symm⟩
  · rename_i h
    exact iff_of_false List.not_mem_nil fun ht ↦ h ⟨ht.1, ht.2.1⟩

theorem mem_hits : t ∈ hits k log ↔ ∃ a ∈ log, a.key = k ∧ a.allowed = true ∧ a.now = t := by
  induction log with
  | nil => simp [hits]
  | cons a log ih =>
    simp only [hits, List.mem_append, ih, mem_hit, List.exists_mem_cons_iff, or_comm]

theorem hit_of_ne {a : Attempt κ T} (h : a.key ≠ k) : a.hit k = [] := if_neg fun hk ↦ h hk.1

theorem live_suffix (k : κ) (log : Log κ T) : live k log <:+ hits k log := by
  induction log with
  | nil => exact List.suffix_refl []
  | cons a log ih =>
    unfold live hits
    split
    · exact List.suffix_append _ _
    · obtain ⟨old, hold⟩ := ih
      exact ⟨old, by rw [← hold, List.append_assoc]⟩

theorem live_append_of_ne {others : Log κ T} (h : ∀ a ∈ others, a.key ≠ k) :
    live k (others ++ log) = live k log ∨ live k (others ++ log) = [] := by
  induction others with
  | nil => exact Or.inl rfl
  | cons a others ih =>
    rw [List.cons_append, live, hit_of_ne (h a List.mem_cons_self), List.append_nil]
    split
    · exact Or.inr rfl
    · exact ih fun b hb ↦ h b (List.mem_cons_of_mem a hb)

section Order

variable [LinearOrder T]

def recent (cutoff : T) (times : List T) : List T := times.filter (cutoff ≤ ·)

variable {cutoff : T} {times : List T}

theorem hits_sorted (h : Ordered log) : (hits k log).Pairwise (· ≤ ·) := by
  induction log with
  | nil => exact List.Pairwise.nil
  | cons a log ih =>
    obtain ⟨hnow, hlog⟩ := List.pairwise_cons.mp h
    refine List.pairwise_append.mpr ⟨ih hlog, ?_, fun x hx y hy ↦ ?_⟩
    · unfold Attempt.hit
      split
      · exact List.pairwise_singleton _ _
      · exact List.Pairwise.nil
    · obtain ⟨b, hb, -, -, rfl⟩ := mem_hits.mp hx
      obtain ⟨-, -, rfl⟩ := mem_hit.mp hy
      exact hnow b hb

theorem live_sorted (h : Ordered log) : (live k log).Pairwise (· ≤ ·) :=
  (hits_sorted h).sublist (live_suffix k log).sublist

/-- Dropping what is too old from the front of a sorted queue leaves exactly what is recent. -/
theorem dropWhile_eq_recent (h : times.Pairwise (· ≤ ·)) :
    times.dropWhile (· < cutoff) = recent cutoff times := by
  induction times with
  | nil => rfl
  | cons t times ih =>
    obtain ⟨hle, htimes⟩ := List.pairwise_cons.mp h
    by_cases ht : t < cutoff
    · rw [List.dropWhile_cons_of_pos (by simpa using ht), ih htimes, recent, recent,
        List.filter_cons_of_neg (by simpa using ht)]
    · have hall : ∀ u ∈ t :: times, decide (cutoff ≤ u) = true := by
        intro u hu
        rw [decide_eq_true_eq]
        rcases List.mem_cons.mp hu with rfl | hu
        · exact not_lt.mp ht
        · exact (not_lt.mp ht).trans (hle u hu)
      rw [List.dropWhile_cons_of_neg (by simpa using ht), recent, List.filter_eq_self.mpr hall]

theorem recent_append_of_old {old : List T} (h : ∀ t ∈ old, t < cutoff) :
    recent cutoff (old ++ times) = recent cutoff times := by
  have hold : old.filter (cutoff ≤ ·) = [] :=
    List.filter_eq_nil_iff.mpr fun t ht ↦ by simpa using h t ht
  rw [recent, List.filter_append, hold, List.nil_append, recent]

theorem recent_recent {earlier : T} (h : earlier ≤ cutoff) :
    recent cutoff (recent earlier times) = recent cutoff times := by
  rw [recent, recent, List.filter_filter, recent]
  refine List.filter_congr fun t _ ↦ ?_
  by_cases ht : cutoff ≤ t
  · simp [ht, h.trans ht]
  · simp [ht]

def Trimmed (cutoff : T) (times queue : List T) : Prop :=
  ∃ old, times = old ++ queue ∧ ∀ t ∈ old, t < cutoff

namespace Trimmed

variable {queue : List T}

theorem refl (cutoff : T) (times : List T) : Trimmed cutoff times times :=
  ⟨[], rfl, fun _ ht ↦ absurd ht List.not_mem_nil⟩

theorem recent_eq (h : Trimmed cutoff times queue) : recent cutoff queue = recent cutoff times := by
  obtain ⟨old, rfl, hold⟩ := h
  exact (recent_append_of_old hold).symm

theorem mono {later : T} (h : Trimmed cutoff times queue) (hle : cutoff ≤ later) :
    Trimmed later times queue := by
  obtain ⟨old, rfl, hold⟩ := h
  exact ⟨old, rfl, fun t ht ↦ (hold t ht).trans_le hle⟩

theorem sorted (h : Trimmed cutoff times queue) (hs : times.Pairwise (· ≤ ·)) :
    queue.Pairwise (· ≤ ·) := by
  obtain ⟨old, rfl, -⟩ := h
  exact (List.pairwise_append.mp hs).2.1

theorem mem (h : Trimmed cutoff times queue) (ht : t ∈ queue) : t ∈ times := by
  obtain ⟨old, rfl, -⟩ := h
  exact List.mem_append_right old ht

theorem append (h : Trimmed cutoff times queue) (more : List T) :
    Trimmed cutoff (times ++ more) (queue ++ more) := by
  obtain ⟨old, rfl, hold⟩ := h
  exact ⟨old, List.append_assoc _ _ _, hold⟩

theorem of_append {old : List T} (h : Trimmed cutoff times (old ++ queue))
    (hold : ∀ t ∈ old, t < cutoff) : Trimmed cutoff times queue := by
  obtain ⟨older, rfl, holder⟩ := h
  refine ⟨older ++ old, (List.append_assoc _ _ _).symm, fun t ht ↦ ?_⟩
  exact (List.mem_append.mp ht).elim (holder t) (hold t)

theorem expire (h : Trimmed cutoff times queue) :
    Trimmed cutoff times (queue.dropWhile (· < cutoff)) := by
  have hsplit : Trimmed cutoff times
      (queue.takeWhile (· < cutoff) ++ queue.dropWhile (· < cutoff)) := by
    rwa [List.takeWhile_append_dropWhile]
  exact hsplit.of_append fun t ht ↦ by
    simpa using List.all_eq_true.mp List.all_takeWhile t ht

theorem drop (h : Trimmed cutoff times queue) (hs : times.Pairwise (· ≤ ·))
    (hlast : ∀ t ∈ queue.getLast?, t < cutoff) : Trimmed cutoff times [] := by
  have hsplit : Trimmed cutoff times (queue ++ []) := by rwa [List.append_nil]
  refine hsplit.of_append fun t ht ↦ ?_
  have hne := List.ne_nil_of_mem ht
  have hmax : t ≤ queue.getLast hne := by
    rcases List.mem_append.mp (List.dropLast_append_getLast hne ▸ ht) with hmem | hmem
    · have hsorted := h.sorted hs
      rw [← List.dropLast_append_getLast hne] at hsorted
      exact (List.pairwise_append.mp hsorted).2.2 t hmem _ (List.mem_singleton_self _)
    · rw [List.mem_singleton.mp hmem]
  exact hmax.trans_lt (hlast _ (List.getLast?_eq_some_getLast hne))

end Trimmed

/-- The key was not evicted after the oldest of its recent hits. -/
def Kept (cutoff : T) (k : κ) (log : Log κ T) : Prop :=
  ∀ after h before, log = after ++ h :: before → h.key = k → h.allowed = true → cutoff ≤ h.now →
    (∀ g ∈ before, g.key = k → g.allowed = true → g.now < cutoff) →
    ∀ a ∈ after, a.evicted ≠ some k

omit [DecidableEq κ] in
theorem Kept.of_none_evicted (h : ∀ a ∈ log, a.evicted ≠ some k) : Kept cutoff k log := by
  rintro after g before rfl - - - - a ha
  exact h a (List.mem_append_left _ ha)

omit [DecidableEq κ] in
theorem Kept.tail {a : Attempt κ T} (h : Kept cutoff k (a :: log)) : Kept cutoff k log :=
  fun after g before hlog hk ha hc hbefore b hb ↦
    h (a :: after) g before (by rw [hlog, List.cons_append]) hk ha hc hbefore b
      (List.mem_cons_of_mem a hb)

theorem recent_live (h : Kept cutoff k log) :
    recent cutoff (live k log) = recent cutoff (hits k log) := by
  induction log with
  | nil => rfl
  | cons a log ih =>
    unfold live hits
    split
    · rename_i hevicted
      rw [List.nil_append]
      refine (recent_append_of_old fun t ht ↦ ?_).symm
      by_contra hrecent
      obtain ⟨b, hb, hk, hallowed, rfl⟩ := mem_hits.mp ht
      obtain ⟨after, g, before, rfl, ⟨hgk, hga, hgc⟩, hbefore⟩ := exists_oldest
        (P := fun b ↦ b.key = k ∧ b.allowed = true ∧ cutoff ≤ b.now)
        ⟨b, hb, hk, hallowed, not_lt.mp hrecent⟩
      refine h (a :: after) g before rfl hgk hga hgc (fun g' hg' hk' ha' ↦ ?_) a
        List.mem_cons_self hevicted
      exact not_le.mp fun hle ↦ hbefore g' hg' ⟨hk', ha', hle⟩
    · rw [recent, List.filter_append, recent, List.filter_append]
      exact congrArg (· ++ _) (ih h.tail)

end Order

end RiskApp.Lib.SlidingWindow
