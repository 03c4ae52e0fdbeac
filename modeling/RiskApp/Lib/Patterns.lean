import Mathlib.Data.List.Infix

namespace RiskApp.Lib.Patterns

/-- The pieces of a `LIKE` pattern: a character itself, any one character, or any text. -/
inductive Piece
  | char (c : Char)
  | anyChar
  | anyText
  deriving DecidableEq, Repr

def wild (c : Char) : Piece :=
  if c = '%' then .anyText else if c = '_' then .anyChar else .char c

def pieces (escape : Char) : Bool → List Char → List Piece
  | _, [] => []
  | true, c :: cs => .char c :: pieces escape false cs
  | false, c :: cs =>
    if c = escape then pieces escape true cs else wild c :: pieces escape false cs

/-- `LIKE`, with the letter case that `fold` forgets. -/
def fits (fold : Char → Char) : List Piece → List Char → Bool
  | [], s => s.isEmpty
  | .char _ :: _, [] => false
  | .char c :: ps, d :: s => fold c = fold d && fits fold ps s
  | .anyChar :: _, [] => false
  | .anyChar :: ps, _ :: s => fits fold ps s
  | .anyText :: ps, s => s.tails.any (fits fold ps)

def guardChar (escape c : Char) (s : List Char) : List Char :=
  s.flatMap fun d ↦ if d = c then [escape, d] else [d]

/-- Escape the wildcards, so that the text stands for itself; the escapes come first. -/
def escapeLike (escape : Char) (s : List Char) : List Char :=
  guardChar escape '_' (guardChar escape '%' (guardChar escape escape s))

section Escape

variable {escape : Char}

theorem escapeLike_cons (h : escape ≠ '%' ∧ escape ≠ '_') (c : Char) (s : List Char) :
    escapeLike escape (c :: s) =
      (if c ∈ [escape, '%', '_'] then [escape, c] else [c]) ++ escapeLike escape s := by
  unfold escapeLike guardChar
  by_cases he : c = escape
  · subst he
    simp [h.1, h.2]
  · by_cases hp : c = '%'
    · subst hp
      simp [he, h.2]
    · by_cases hu : c = '_'
      · subst hu
        simp [he]
      · simp [he, hp, hu]

/-- The escaped text is a pattern of its own characters. -/
theorem pieces_escapeLike (h : escape ≠ '%' ∧ escape ≠ '_') (s rest : List Char) :
    pieces escape false (escapeLike escape s ++ rest) =
      s.map .char ++ pieces escape false rest := by
  induction s with
  | nil => rfl
  | cons c s ih =>
    rw [escapeLike_cons h]
    split
    · simp [pieces, ih]
    · rename_i hplain
      simp only [List.mem_cons, List.not_mem_nil, or_false, not_or] at hplain
      simp [pieces, wild, ih, hplain]

end Escape

section Fits

variable {fold : Char → Char}

theorem fits_chars (q s : List Char) (ps : List Piece) :
    fits fold (q.map .char ++ ps) s = true ↔
      ∃ t rest, s = t ++ rest ∧ t.map fold = q.map fold ∧ fits fold ps rest = true := by
  induction q generalizing s with
  | nil =>
    constructor
    · exact fun h ↦ ⟨[], s, rfl, rfl, h⟩
    · rintro ⟨t, rest, rfl, ht, h⟩
      obtain rfl := List.map_eq_nil_iff.mp ht
      exact h
  | cons c q ih =>
    cases s with
    | nil =>
      refine iff_of_false (by simp [fits]) ?_
      rintro ⟨t, rest, hs, ht, -⟩
      obtain ⟨rfl, -⟩ := List.append_eq_nil_iff.mp hs.symm
      cases ht
    | cons d s =>
      rw [List.map_cons, List.cons_append, fits, Bool.and_eq_true, decide_eq_true_eq, ih]
      constructor
      · rintro ⟨hc, t, rest, rfl, ht, h⟩
        exact ⟨d :: t, rest, rfl, by rw [List.map_cons, List.map_cons, hc, ht], h⟩
      · rintro ⟨t, rest, hs, ht, h⟩
        cases t with
        | nil => cases ht
        | cons e t =>
          obtain ⟨rfl, rfl⟩ := List.cons.inj hs
          obtain ⟨hc, ht⟩ := List.cons.inj ht
          exact ⟨hc.symm, t, rest, rfl, ht, h⟩

theorem fits_anyText_iff (ps : List Piece) (s : List Char) :
    fits fold (.anyText :: ps) s = true ↔ ∃ t, t <:+ s ∧ fits fold ps t = true := by
  rw [fits, List.any_eq_true]
  exact exists_congr fun t ↦ and_congr_left fun _ ↦ List.mem_tails t s

theorem map_infix_iff {q s : List Char} :
    q.map fold <:+: s.map fold ↔ ∃ pre t rest, s = pre ++ (t ++ rest) ∧ t.map fold =
    q.map fold := by
  constructor
  · rintro ⟨pre, rest, h⟩
    rw [List.append_assoc, eq_comm, List.map_eq_append_iff] at h
    obtain ⟨pre', s', rfl, -, h⟩ := h
    obtain ⟨t, rest', rfl, ht, -⟩ := List.map_eq_append_iff.mp h
    exact ⟨pre', t, rest', rfl, ht⟩
  · rintro ⟨pre, t, rest, rfl, ht⟩
    rw [List.map_append, List.map_append, ht]
    exact ⟨pre.map fold, rest.map fold, List.append_assoc _ _ _⟩

theorem fits_contains {escape : Char} (h : escape ≠ '%' ∧ escape ≠ '_') (q s : List Char) :
    fits fold (pieces escape false ('%' :: escapeLike escape q ++ ['%'])) s = true ↔
      q.map fold <:+: s.map fold := by
  have hopen : pieces escape false ('%' :: escapeLike escape q ++ ['%']) =
      .anyText :: (q.map .char ++ [.anyText]) := by
    rw [List.cons_append, pieces, if_neg (Ne.symm h.1), pieces_escapeLike h, pieces,
      if_neg (Ne.symm h.1)]
    rfl
  have hall : ∀ rest : List Char, fits fold [.anyText] rest = true :=
    fun rest ↦ (fits_anyText_iff [] rest).mpr ⟨[], List.nil_suffix, rfl⟩
  rw [hopen, fits_anyText_iff, map_infix_iff]
  constructor
  · rintro ⟨u, ⟨pre, rfl⟩, hu⟩
    obtain ⟨t, rest, rfl, ht, -⟩ := (fits_chars q u [.anyText]).mp hu
    exact ⟨pre, t, rest, rfl, ht⟩
  · rintro ⟨pre, t, rest, rfl, ht⟩
    refine ⟨t ++ rest, List.suffix_append pre _, ?_⟩
    exact (fits_chars q _ _).mpr ⟨t, rest, rfl, ht, hall rest⟩

end Fits

end RiskApp.Lib.Patterns
