import Mathlib.Data.List.Perm.Subperm
import RiskApp.Lib.Result
import RiskApp.Server.Mutations

namespace RiskApp.Text

open Lib Lib.Unicode

theorem padThree_digits {n : ℕ} : ∀ c ∈ padThree n, c.isDigit = true := by
  intro c hc
  rcases List.mem_append.mp hc with h | h
  · rw [List.eq_of_mem_replicate h]
    decide
  · exact Nat.isDigit_of_mem_toDigits (by omega) (by omega) h

theorem isDigit_of_isDigit {c : Char} (h : c.isDigit = true) : Unicode.isDigit c = true := by
  simp [Unicode.isDigit, decimalValue_of_isDigit h]

theorem isDigit_padThree (n : ℕ) : isDigit (padThree n) = true := by
  have hne : padThree n ≠ [] := by
    intro h
    exact Nat.toDigits_ne_nil (List.append_eq_nil_iff.mp h).2
  simp only [isDigit, Bool.and_eq_true, List.all_eq_true]
  exact ⟨by simpa using hne, fun c hc ↦ isDigit_of_isDigit (padThree_digits c hc)⟩

theorem foldl_digits {ds : List Char} (h : ∀ c ∈ ds, c.isDigit = true) (n : ℕ) :
    ds.foldl (fun acc c ↦ acc.bind fun n ↦ (decimalValue c).map (10 * n + ·)) (some n) =
      some (Nat.ofDigitChars 10 ds n) := by
  induction ds generalizing n with
  | nil => rfl
  | cons c ds ih =>
    rw [List.foldl_cons, Option.bind_some, decimalValue_of_isDigit (h c List.mem_cons_self),
      Option.map_some, ih fun d hd ↦ h d (List.mem_cons_of_mem c hd), Nat.ofDigitChars_cons]
    rfl

theorem digitsValue_padThree (n : ℕ) : digitsValue (padThree n) = some n := by
  rw [digitsValue, foldl_digits padThree_digits, padThree, Nat.ofDigitChars_append,
    Nat.ofDigitChars_replicate_zero, Nat.mul_zero, Nat.ofDigitChars_ten_toDigits]

theorem splitOnce_code {p : Char} (h : p ≠ '-') (rest : List Char) :
    splitOnce '-' (p :: '-' :: rest) = ([p], some rest) := by
  simp [splitOnce, h]

end RiskApp.Text

namespace RiskApp.Server

open Lib Lib.Patterns Lib.Result

variable {fold : Char → Char} {codes : List Val} {used : List ℕ} {codePrefix : Char}

/-- `int` reads the digits that are counted of the code. -/
def ReadableCode (fold : Char → Char) (codePrefix : Char) (v : Val) : Prop :=
  ∀ suffix, likeCode fold codePrefix v = true → codeSuffix codePrefix v = some suffix →
    (Text.digitsValue suffix).isSome = true

theorem usedCodes_skip {v : Val}
    (h : ¬(likeCode fold codePrefix v = true ∧ (codeSuffix codePrefix v).isSome = true)) :
    usedCodes fold codePrefix (v :: codes) = usedCodes fold codePrefix codes := by
  have hnone : (if likeCode fold codePrefix v then codeSuffix codePrefix v else none) = none := by
    split
    · rename_i hlike
      exact Option.not_isSome_iff_eq_none.mp fun hs ↦ h ⟨hlike, hs⟩
    · rfl
  simp only [usedCodes, hnone]

theorem usedCodes_count {v : Val} {suffix : List Char} (hlike : likeCode fold codePrefix v = true)
    (hs : codeSuffix codePrefix v = some suffix) :
    usedCodes fold codePrefix (v :: codes) = match Text.digitsValue suffix with
      | some n => (usedCodes fold codePrefix codes).map (n :: ·)
      | none => .error .unexpected := by
  cases hn : Text.digitsValue suffix <;> simp only [usedCodes, hlike, hs, hn, if_true]

theorem usedCodes_ok_iff : (∃ used, usedCodes fold codePrefix codes = .ok used) ↔
    ∀ v ∈ codes, ReadableCode fold codePrefix v := by
  induction codes with
  | nil => simp [usedCodes]
  | cons v codes ih =>
    rw [List.forall_mem_cons, ← ih]
    by_cases hcount : likeCode fold codePrefix v = true ∧ (codeSuffix codePrefix v).isSome = true
    · obtain ⟨hlike, hsome⟩ := hcount
      obtain ⟨suffix, hs⟩ := Option.isSome_iff_exists.mp hsome
      have hreadable :
          ReadableCode fold codePrefix v ↔ (Text.digitsValue suffix).isSome = true := by
        refine ⟨fun h ↦ h suffix hlike hs, fun h suffix' _ hs' ↦ ?_⟩
        obtain rfl := Option.some.inj (hs.symm.trans hs')
        exact h
      rw [usedCodes_count hlike hs, hreadable]
      cases hn : Text.digitsValue suffix with
      | none => simp
      | some n =>
        rw [and_iff_right (Option.isSome_some)]
        constructor
        · rintro ⟨_, h⟩
          obtain ⟨used, hused, -⟩ := map_ok h
          exact ⟨used, hused⟩
        · rintro ⟨used, h⟩
          exact ⟨n :: used, by simp only [h, Except.map]⟩
    · have hreadable : ReadableCode fold codePrefix v := fun suffix hlike hs ↦
        absurd ⟨hlike, by rw [hs]; rfl⟩ hcount
      rw [usedCodes_skip hcount, and_iff_right hreadable]

theorem mem_usedCodes {v : Val} {suffix : List Char} {n : ℕ}
    (h : usedCodes fold codePrefix codes = .ok used) (hv : v ∈ codes)
    (hlike : likeCode fold codePrefix v = true) (hs : codeSuffix codePrefix v = some suffix)
    (hn : Text.digitsValue suffix = some n) : n ∈ used := by
  induction codes generalizing used with
  | nil => cases hv
  | cons w codes ih =>
    rcases List.mem_cons.mp hv with rfl | hrest
    · rw [usedCodes_count hlike hs, hn] at h
      obtain ⟨rest, -, rfl⟩ := map_ok h
      exact List.mem_cons_self
    · by_cases hcount : likeCode fold codePrefix w = true ∧
        (codeSuffix codePrefix w).isSome = true
      · obtain ⟨hlike', hsome⟩ := hcount
        obtain ⟨suffix', hs'⟩ := Option.isSome_iff_exists.mp hsome
        rw [usedCodes_count hlike' hs'] at h
        split at h
        · obtain ⟨others, hothers, rfl⟩ := map_ok h
          exact List.mem_cons_of_mem _ (ih hothers hrest)
        · cases h
      · rw [usedCodes_skip hcount] at h
        exact ih h hrest

theorem lowestUnused_fresh (used : List ℕ) : lowestUnused used ∉ used := by
  let numbers := (List.range (used.length + 1)).map (· + 1)
  cases hfind : numbers.find? (· ∉ used) with
  | some n =>
    have he : lowestUnused used = n := by rw [lowestUnused, hfind]; rfl
    rw [he]
    simpa using List.find?_some hfind
  | none =>
    have hall : numbers ⊆ used := by
      intro n hn
      simpa using List.find?_eq_none.mp hfind n hn
    have hnodup : numbers.Nodup := List.nodup_range.map fun _ _ h ↦ Nat.succ.inj h
    have hlen := (hnodup.subperm hall).length_le
    simp only [numbers, List.length_map, List.length_range] at hlen
    omega

section

variable (conv : Conv) (d : Data) (projectId : Uuid) (entity : Entity) (requested : String)

def projectCodes : List Val :=
  (d.rows.filter (fun r ↦ r.table = .items &&
    r.attrs .projectId = .uuid projectId)).map (Row.attrs · .code)

def trimmedCode : Val := .str (String.ofList (Text.strip requested.toList))

def entityPrefix : Char := if entity = .risk then 'R' else 'O'

def numberedCode (codePrefix : Char) (n : ℕ) : Val :=
  .str (String.ofList (codePrefix :: '-' :: Text.padThree n))

/-- What `_canonical_item_code` promises of a requested code; a blank one requests none. -/
def CodeAllocated : Prop :=
  ∃ code, canonicalItemCode conv d projectId entity (.str requested) = .ok code ∧
    (Text.strip requested.toList = [] → code = .null) ∧
    (Text.strip requested.toList ≠ [] →
      (code = trimmedCode requested ↔ trimmedCode requested ∉ projectCodes d projectId) ∧
      (trimmedCode requested ∈ projectCodes d projectId →
        code ∉ projectCodes d projectId ∧
          ∃ n, code = numberedCode (entityPrefix entity) n))

variable {conv d projectId entity requested}

theorem entityPrefix_ne_dash : entityPrefix entity ≠ '-' := by
  unfold entityPrefix
  split <;> decide

theorem canonicalItemCode_blank (h : Text.strip requested.toList = []) :
    canonicalItemCode conv d projectId entity (.str requested) = .ok .null := by
  simp [canonicalItemCode, h]
  rfl

theorem canonicalItemCode_requested (h : Text.strip requested.toList ≠ []) :
    canonicalItemCode conv d projectId entity (.str requested) =
      if trimmedCode requested ∉ projectCodes d projectId then .ok (trimmedCode requested)
      else (usedCodes conv.likeFold (entityPrefix entity) (projectCodes d projectId)).map fun used ↦
        numberedCode (entityPrefix entity) (lowestUnused used) := by
  simp only [canonicalItemCode, if_neg h]
  rw [if_neg (by simp)]
  rfl

theorem likeCode_numberedCode (n : ℕ) :
    likeCode fold codePrefix (numberedCode codePrefix n) = true := by
  simp [likeCode, numberedCode, fits]

theorem codeSuffix_numberedCode {n : ℕ} (hp : codePrefix ≠ '-')
    (hupper : codePrefix.toUpper = codePrefix) :
    codeSuffix codePrefix (numberedCode codePrefix n) = some (Text.padThree n) := by
  have hhead : Text.upper [codePrefix] = [codePrefix] := congrArg (fun c ↦ [c]) hupper
  simp only [codeSuffix, numberedCode, String.toList_ofList, Text.splitOnce_code hp, hhead,
    Text.isDigit_padThree, and_self, if_true]

theorem entityPrefix_upper : (entityPrefix entity).toUpper = entityPrefix entity := by
  unfold entityPrefix
  split <;> decide

theorem numberedCode_fresh {n : ℕ} (h : usedCodes fold (entityPrefix entity) codes = .ok used)
    (hn : n ∉ used) : numberedCode (entityPrefix entity) n ∉ codes := fun hmem ↦
  hn (mem_usedCodes h hmem (likeCode_numberedCode n)
    (codeSuffix_numberedCode entityPrefix_ne_dash entityPrefix_upper)
    (Text.digitsValue_padThree n))

/-- Only digits that `int` does not read keep a held code from being replaced. -/
theorem codeAllocated_iff : CodeAllocated conv d projectId entity requested ↔
    (trimmedCode requested ∈ projectCodes d projectId → Text.strip requested.toList ≠ [] →
      ∀ v ∈ projectCodes d projectId, ReadableCode conv.likeFold (entityPrefix entity) v) := by
  by_cases hblank : Text.strip requested.toList = []
  · refine iff_of_true ⟨.null, canonicalItemCode_blank hblank, fun _ ↦ rfl, fun h ↦ ?_⟩
      fun _ h ↦ absurd hblank h
    exact absurd hblank h
  · rw [CodeAllocated, canonicalItemCode_requested hblank]
    by_cases hheld : trimmedCode requested ∈ projectCodes d projectId
    · rw [if_neg (not_not_intro hheld), ← usedCodes_ok_iff]
      constructor
      · rintro ⟨code, h, -⟩ _ _
        obtain ⟨used, hused, -⟩ := map_ok h
        exact ⟨used, hused⟩
      · intro h
        obtain ⟨used, hused⟩ := h hheld hblank
        have hfresh := numberedCode_fresh hused (lowestUnused_fresh used)
        refine ⟨_, by rw [hused]; rfl, fun h ↦ absurd h hblank, fun _ ↦
          ⟨?_, fun _ ↦ ⟨hfresh, _, rfl⟩⟩⟩
        refine iff_of_false (fun he ↦ ?_) (not_not_intro hheld)
        rw [he] at hfresh
        exact hfresh hheld
    · rw [if_pos hheld]
      refine iff_of_true ⟨_, rfl, fun h ↦ absurd h hblank, fun _ ↦ ⟨iff_of_true rfl hheld, ?_⟩⟩ ?_
      · exact fun h ↦ absurd h hheld
      · exact fun h ↦ absurd h hheld

end

end RiskApp.Server
