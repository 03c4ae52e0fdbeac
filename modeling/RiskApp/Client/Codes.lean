import Mathlib.Algebra.Group.Nat.Defs
import Mathlib.Data.List.TakeWhile
import RiskApp.Client.Projects
import RiskApp.Server.Codes

namespace RiskApp.Text

theorem splitOnce_none {sep : Char} {s : List Char} (h : sep ∉ s) :
    splitOnce sep s = (s, none) := by
  have hdrop : s.dropWhile (· ≠ sep) = [] := by
    rw [List.dropWhile_eq_nil_iff]
    intro c hc
    exact decide_eq_true fun he ↦ h (he ▸ hc)
  rw [splitOnce, hdrop]

end RiskApp.Text

namespace RiskApp.Client

open Server

def intOfDigits (digits : List Char) : Option ℕ :=
  if digits.length ≤ Text.maxStrDigits then Text.digitsValue digits else none

def formatCode (codePrefix : Char) (n : ℕ) : Option Val :=
  if (Nat.toDigits 10 n).length ≤ Text.maxStrDigits then some (numberedCode codePrefix n) else none

/-- The digits that `_next_code` counts of a code. -/
def numberPart (codePrefix : Char) (code : Val) : Option (List Char) :=
  match normText code with
  | .str s => match Text.splitOnce '-' s.toList with
    | (head, some rest) =>
      let numPart := Text.strip (Text.splitOnce '-' rest).1
      if Text.upper (Text.strip head) = Text.upper [codePrefix] ∧ Text.isDigit numPart then
        some numPart
      else none
    | _ => none
  | _ => none

def largestNumber : ℕ → List (List Char) → Option ℕ
  | maxN, [] => some maxN
  | maxN, digits :: rest => (intOfDigits digits).bind fun n ↦ largestNumber (max maxN n) rest

section

variable (db : LocalDb) (projectId : String) (entity : Entity)

def LocalDb.codes : List Val :=
  ((Owned.within projectId db.rows).filter (·.entity = entity)).map (·.columns .code)

def LocalDb.nextCode : Option Val :=
  let codePrefix := entityPrefix entity
  let counted := ((db.codes projectId entity).filter (likeCode Char.toLower codePrefix)).filterMap
    (numberPart codePrefix)
  (largestNumber 0 counted).bind fun maxN ↦ formatCode codePrefix (maxN + 1)

/-- What `_next_code` promises. -/
def LocalDb.CodeAllocated : Prop :=
  ∃ code, db.nextCode projectId entity = some code ∧ code ≠ .null ∧
    code ∉ db.codes projectId entity

/-- `int` reads the digits that are counted of the code, and the next number can be written. -/
def CountableCode (codePrefix : Char) (code : Val) : Prop :=
  ∀ digits, likeCode Char.toLower codePrefix code = true →
    numberPart codePrefix code = some digits →
    ∃ n, intOfDigits digits = some n ∧ n + 1 < 10 ^ Text.maxStrDigits

end

theorem largestNumber_lt_iff {m b : ℕ} {counted : List (List Char)} :
    (∃ maxN, largestNumber m counted = some maxN ∧ maxN < b) ↔
      m < b ∧ ∀ digits ∈ counted, ∃ n, intOfDigits digits = some n ∧ n < b := by
  induction counted generalizing m with
  | nil => simp [largestNumber]
  | cons digits counted ih =>
    rw [List.forall_mem_cons]
    cases hn : intOfDigits digits with
    | none => simp [largestNumber, hn]
    | some n =>
      simp only [largestNumber, hn, Option.bind_some, ih, Option.some.injEq, exists_eq_left',
        Nat.max_lt, and_assoc]

theorem largestNumber_ge {m maxN : ℕ} {counted : List (List Char)}
    (h : largestNumber m counted = some maxN) :
    m ≤ maxN ∧ ∀ digits ∈ counted, ∃ n, intOfDigits digits = some n ∧ n ≤ maxN := by
  induction counted generalizing m with
  | nil =>
    cases h
    exact ⟨le_rfl, fun _ h ↦ by cases h⟩
  | cons digits counted ih =>
    obtain ⟨n, hn, hrest⟩ := Option.bind_eq_some_iff.mp h
    obtain ⟨hm, hall⟩ := ih hrest
    exact ⟨by omega, List.forall_mem_cons.mpr ⟨⟨n, hn, by omega⟩, hall⟩⟩

theorem formatCode_isSome {codePrefix : Char} {n : ℕ} :
    (formatCode codePrefix n).isSome = true ↔ n < 10 ^ Text.maxStrDigits := by
  have hlen : (Nat.toDigits 10 n).length ≤ Text.maxStrDigits ↔ n < 10 ^ Text.maxStrDigits :=
    Nat.length_toDigits_le_iff (by omega) (by decide)
  unfold formatCode
  split
  · exact iff_of_true rfl (hlen.mp ‹_›)
  · exact iff_of_false (by simp) (hlen.not.mp ‹_›)

section

variable {codePrefix : Char} {n : ℕ}

theorem numberPart_numberedCode (hdash : codePrefix ≠ '-')
    (hspace : Text.isSpace codePrefix = false) :
    numberPart codePrefix (numberedCode codePrefix n) = some (Text.padThree n) := by
  have hdigits : ∀ c ∈ Text.padThree n, Text.isSpace c = false := fun c hc ↦
    Text.isSpace_of_isDigit (Text.padThree_digits c hc)
  have hstrip : Text.strip (codePrefix :: '-' :: Text.padThree n) =
      codePrefix :: '-' :: Text.padThree n := by
    refine Text.strip_of_no_space fun c hc ↦ ?_
    rcases List.mem_cons.mp hc with rfl | hc
    · exact hspace
    · rcases List.mem_cons.mp hc with rfl | hc
      · decide
      · exact hdigits c hc
  have hnorm : normText (numberedCode codePrefix n) = numberedCode codePrefix n := by
    simp [normText, numberedCode, textOf, hstrip]
  have hnodash : '-' ∉ Text.padThree n := fun h ↦ by
    have := Text.padThree_digits _ h
    revert this
    decide
  have hhead : Text.strip [codePrefix] = [codePrefix] :=
    Text.strip_of_no_space fun c hc ↦ by rwa [List.mem_singleton.mp hc]
  unfold numberPart
  rw [hnorm, numberedCode]
  simp only [String.toList_ofList, Text.splitOnce_code hdash, Text.splitOnce_none hnodash, hhead,
    Text.strip_of_no_space hdigits, Text.isDigit_padThree, and_self, if_true]

end

section

variable {db : LocalDb} {projectId : String} {entity : Entity}

theorem isSpace_entityPrefix : Text.isSpace (entityPrefix entity) = false := by
  unfold entityPrefix
  split <;> decide

theorem nextCode_fresh {code : Val} (h : db.nextCode projectId entity = some code) :
    code ≠ .null ∧ code ∉ db.codes projectId entity := by
  obtain ⟨maxN, hmax, hformat⟩ := Option.bind_eq_some_iff.mp h
  have hcode : numberedCode (entityPrefix entity) (maxN + 1) = code := by
    unfold formatCode at hformat
    split at hformat
    · exact Option.some.inj hformat
    · cases hformat
  subst hcode
  refine ⟨(by intro he; cases he), fun hmem ↦ ?_⟩
  obtain ⟨n, hn, hle⟩ := (largestNumber_ge hmax).2 (Text.padThree (maxN + 1))
    (List.mem_filterMap.mpr ⟨_, List.mem_filter.mpr ⟨hmem, likeCode_numberedCode _⟩,
      numberPart_numberedCode entityPrefix_ne_dash isSpace_entityPrefix⟩)
  have hvalue : n = maxN + 1 := by
    unfold intOfDigits at hn
    split at hn
    · rw [Text.digitsValue_padThree] at hn
      exact (Option.some.inj hn).symm
    · cases hn
  omega

theorem nextCode_isSome_iff : (∃ code, db.nextCode projectId entity = some code) ↔
    ∀ v ∈ db.codes projectId entity, CountableCode (entityPrefix entity) v := by
  have hpos : 1 < 10 ^ Text.maxStrDigits := Nat.one_lt_pow (by decide) (by omega)
  have hsome : (∃ code, db.nextCode projectId entity = some code) ↔
      ∃ maxN, largestNumber 0 (((db.codes projectId entity).filter
        (likeCode Char.toLower (entityPrefix entity))).filterMap
          (numberPart (entityPrefix entity))) = some maxN ∧ maxN < 10 ^ Text.maxStrDigits - 1 := by
    unfold LocalDb.nextCode
    constructor
    · rintro ⟨code, h⟩
      obtain ⟨maxN, hmax, hformat⟩ := Option.bind_eq_some_iff.mp h
      have := formatCode_isSome.mp (Option.isSome_of_eq_some hformat)
      exact ⟨maxN, hmax, by omega⟩
    · rintro ⟨maxN, hmax, hlt⟩
      obtain ⟨code, hcode⟩ := Option.isSome_iff_exists.mp
        ((@formatCode_isSome (entityPrefix entity) _).mpr
          (by omega : maxN + 1 < 10 ^ Text.maxStrDigits))
      exact ⟨code, Option.bind_eq_some_iff.mpr ⟨maxN, hmax, hcode⟩⟩
  rw [hsome, largestNumber_lt_iff, and_iff_right (by omega)]
  constructor
  · intro h v hv digits hlike hpart
    obtain ⟨n, hn, hlt⟩ := h digits
      (List.mem_filterMap.mpr ⟨v, List.mem_filter.mpr ⟨hv, hlike⟩, hpart⟩)
    exact ⟨n, hn, by omega⟩
  · intro h digits hmem
    obtain ⟨v, hv, hpart⟩ := List.mem_filterMap.mp hmem
    obtain ⟨hv, hlike⟩ := List.mem_filter.mp hv
    obtain ⟨n, hn, hlt⟩ := h v hv digits hlike hpart
    exact ⟨n, hn, by omega⟩

end

/-- A code is allocated unless a number must be read that `int` does not read. -/
theorem codes_allocated (conv : Conv) (d : Data) (serverProject : Uuid) (entity : Entity)
    (requested : String)
    (db : LocalDb) (localProject : String) :
    (CodeAllocated conv d serverProject entity requested ↔
      (trimmedCode requested ∈ projectCodes d serverProject →
        Text.strip requested.toList ≠ [] →
          ∀ v ∈ projectCodes d serverProject, ReadableCode conv.likeFold (entityPrefix entity) v)) ∧
    (db.CodeAllocated localProject entity ↔
      ∀ v ∈ db.codes localProject entity, CountableCode (entityPrefix entity) v) := by
  refine ⟨codeAllocated_iff, ?_⟩
  rw [← nextCode_isSome_iff]
  constructor
  · rintro ⟨code, h, -⟩
    exact ⟨code, h⟩
  · rintro ⟨code, h⟩
    exact ⟨code, h, nextCode_fresh h⟩

def superscriptRows : Data where
  rows := ["R-1", "R-²"].zipIdx.map fun (code, i) ↦
    { table := .items, id := i, version := 1, changeSequence := i + 1,
      attrs := fun a ↦ match a with
        | .projectId => .uuid 7
        | .code => .str code
        | _ => .null }
  audit := []
  lastSequence := fun _ ↦ some 2
  memberRole := fun _ _ ↦ none
  superusers := []
  users := []

def superscriptDb : LocalDb where
  rows := [⟨"p", ⟨⟨.risk, 1, 1, false⟩, false, fun a ↦ match a with
    | .code => .str "R-²"
    | _ => .null⟩⟩]

theorem superscript_code_blocks_allocation :
    ¬CodeAllocated Conv.strict superscriptRows 7 .risk "R-1" ∧
      ¬superscriptDb.CodeAllocated "p" .risk := by
  have hserver :
      (canonicalItemCode Conv.strict superscriptRows 7 .risk (.str "R-1")).toOption = none := by
    decide
  have hclient : superscriptDb.nextCode "p" .risk = none := by decide
  constructor
  · rintro ⟨code, h, -⟩
    rw [h] at hserver
    cases hserver
  · rintro ⟨code, h, -⟩
    rw [hclient] at h
    cases h

end RiskApp.Client
