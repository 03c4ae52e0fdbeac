import RiskApp.Server.Applied
import RiskApp.Server.Engine

namespace RiskApp.Server

open Lib Lib.Result

/-- What the engine relies on in the scalar parsers: a text that reads as true or as a UUID is not
one of Python's false values. -/
structure Conv.Truthful (conv : Conv) : Prop where
  bool : ∀ v, conv.bool v = some true → v.truthy = true
  uuidOfText : ∀ v u, conv.uuidOfText v = some u → v.truthy = true

theorem Conv.strict_truthful : Conv.strict.Truthful := by
  constructor
  · intro v h
    cases h
  · intro v u h
    cases h

namespace Parsed

theorem find_eq (val : Parsed) (a : Attr) :
    val.find a = (Table.find Prod.fst a val.fields).map Prod.snd := rfl

theorem find_set (val : Parsed) (a b : Attr) (v : Val) :
    (val.set a v).find b = if b = a then some v else val.find b := by
  unfold Parsed.set
  by_cases hsome : (val.find a).isSome = true
  · have hreplace : (val.fields.map fun f ↦ if f.1 = a then (a, v) else f) =
        Table.replace Prod.fst (a, v) val.fields := rfl
    rw [if_pos hsome, find_eq, find_eq, hreplace]
    split
    · rename_i hb
      subst hb
      obtain ⟨w, hw⟩ := Option.isSome_iff_exists.mp hsome
      obtain ⟨f, hf, -⟩ := Option.map_eq_some_iff.mp hw
      have hself := Table.find_replace_self Prod.fst (x := (b, v))
        ⟨f, Table.mem_of_find Prod.fst hf, Table.key_of_find Prod.fst hf⟩
      exact congrArg (Option.map Prod.snd) hself
    · rename_i hb
      rw [Table.find_replace_of_ne Prod.fst val.fields hb]
  · rw [if_neg hsome, find_eq, find_eq, Table.find_append, Table.find_singleton]
    rw [find_eq] at hsome
    split
    · rename_i hb
      subst hb
      have hnone : Table.find Prod.fst a val.fields = none := by simpa using hsome
      simp [hnone]
    · rename_i hb
      simp [Ne.symm hb]

theorem find_pop_of_ne (val : Parsed) {a b : Attr} (h : b ≠ a) :
    (val.pop a).find b = val.find b := by
  unfold Parsed.find Parsed.pop
  have hfilter := Table.find_filter Prod.fst b (p := fun f : Attr × Val ↦ f.1 ≠ a) val.fields
    fun f _ hf ↦ by simp [hf, h]
  exact congrArg (Option.map Prod.snd) hfilter

end Parsed

/-- What validation makes of the value a record has for a field. -/
inductive Validated (conv : Conv) (t : FieldType) : Option Val → Option Val → Prop
  | absent : Validated conv t none none
  | null : Validated conv t (some .null) (some .null)
  | value {v w : Val} (ne : v ≠ .null) (parsed : t.parse conv v = some w) :
      Validated conv t (some v) (some w)

theorem parseFields_find {conv : Conv} {record : Dict} {specs : List (Attr × FieldType)}
    {fields : List (Attr × Val)} (h : parseFields conv record specs = some fields)
    (hnodup : (specs.map Prod.fst).Nodup) {a : Attr} {t : FieldType} (ht : (a, t) ∈ specs) :
    Validated conv t (record a) ((⟨fields, none⟩ : Parsed).find a) := by
  induction specs generalizing fields with
  | nil => cases ht
  | cons spec specs ih =>
    obtain ⟨b, u⟩ := spec
    obtain ⟨hfree, hrest⟩ := List.nodup_cons.mp hnodup
    have htail : ∀ {rest : List (Attr × Val)}, parseFields conv record specs = some rest →
        a = b → (⟨rest, none⟩ : Parsed).find a = none := by
      intro rest hp he
      subst he
      simp only [Parsed.find, Option.map_eq_none_iff, List.find?_eq_none]
      intro f hf hfa
      have hmem := (parseFields_sublist hp).subset (List.mem_map_of_mem hf)
      exact hfree ((of_decide_eq_true hfa) ▸ hmem)
    have hhead : ∀ {rest : List (Attr × Val)} {w : Val}, a ≠ b →
        (⟨(b, w) :: rest, none⟩ : Parsed).find a = (⟨rest, none⟩ : Parsed).find a := by
      intro rest w hne
      simp [Parsed.find, Ne.symm hne]
    have hsame : ∀ {rest : List (Attr × Val)} {w : Val},
        (⟨(b, w) :: rest, none⟩ : Parsed).find b = some w := by
      intro rest w
      simp [Parsed.find]
    have htype : a = b → t = u := by
      intro he
      rcases List.mem_cons.mp ht with heq | hmem
      · exact congrArg Prod.snd heq
      · exact absurd (List.mem_map_of_mem (f := Prod.fst) hmem) (he ▸ hfree)
    have hlater : a ≠ b → (a, t) ∈ specs := by
      intro hne
      rcases List.mem_cons.mp ht with heq | hmem
      · exact absurd (congrArg Prod.fst heq) hne
      · exact hmem
    simp only [parseFields] at h
    split at h
    · rename_i hrec
      split at h
      · cases h
      · by_cases hab : a = b
        · rw [htail h hab, hab, hrec]
          exact .absent
        · exact ih h hrest (hlater hab)
    · rename_i hrec
      split at h
      · cases h
      · obtain ⟨rest, hp, rfl⟩ := Option.map_eq_some_iff.mp h
        by_cases hab : a = b
        · rw [hab, hsame, hrec]
          exact .null
        · rw [hhead hab]
          exact ih hp hrest (hlater hab)
    · rename_i v hne hrec
      obtain ⟨w, hw, h⟩ := Option.bind_eq_some_iff.mp h
      obtain ⟨rest, hp, rfl⟩ := Option.map_eq_some_iff.mp h
      by_cases hab : a = b
      · obtain rfl := htype hab
        rw [hab, hsame, hrec]
        exact .value hne hw
      · rw [hhead hab]
        exact ih hp hrest (hlater hab)

theorem Validated.choice {conv : Conv} {values : List String} {v w : Option Val}
    (h : Validated conv (.choice values) v w) : w = v := by
  cases h with
  | absent => rfl
  | null => rfl
  | @value v w ne parsed =>
    cases v with
    | str s =>
      simp only [FieldType.parse] at parsed
      split at parsed
      · rw [parsed]
      · cases parsed
    | _ => cases parsed

theorem Validated.bool_true {conv : Conv} (hconv : conv.Truthful) {v : Option Val} {w : Val}
    (h : Validated conv .bool v (some w)) (hw : w.truthy = true) :
    (v.getD .null).truthy = true := by
  cases h with
  | null => exact hw
  | @value v w ne parsed =>
    cases v with
    | bool b =>
      cases parsed
      exact hw
    | null => exact absurd rfl ne
    | _ =>
      obtain ⟨b, hb, rfl⟩ := Option.map_eq_some_iff.mp parsed
      obtain rfl : b = true := hw
      exact hconv.bool _ hb

theorem schema_isDeleted (entity : Entity) : (.isDeleted, .bool) ∈ schema entity := by
  cases entity <;> simp [schema, syncItemRecord, syncActionRecord, syncAssessmentRecord,
    syncHelpDeskTicketRecord]

theorem schema_status {entity : Entity} (h : entity.scored = true) :
    (.status, .choice riskStatuses) ∈ schema entity := by
  cases entity <;> simp [Entity.scored, schema, syncItemRecord, itemShared] at h ⊢

theorem parseRecord_isDeleted {conv : Conv} {entity : Entity} {record : Dict} {val : Parsed}
    (h : parseRecord conv entity record = .ok val) :
    entity.scored = true ∧ statusText (record.get .status) = "deleted".toList ∧
        val.find .isDeleted = some (.bool true) ∨
      Validated conv .bool (record .isDeleted) (val.find .isDeleted) := by
  unfold parseRecord at h
  split at h
  · cases h
  · rename_i fields hfields
    have hflag := parseFields_find hfields (schema_nodup entity) (schema_isDeleted entity)
    simp only at h
    split at h
    · split at h
      · cases h
      · cases h
        right
        have hpop : (((⟨fields, none⟩ : Parsed).pop .riskId).pop .opportunityId).find .isDeleted =
            (⟨fields, none⟩ : Parsed).find .isDeleted := by
          rw [Parsed.find_pop_of_ne _ (by decide), Parsed.find_pop_of_ne _ (by decide)]
        rw [← hpop] at hflag
        split
        · exact hflag
        · have hset := Parsed.find_set
            (((⟨fields, none⟩ : Parsed).pop .riskId).pop .opportunityId) .itemId .isDeleted
            (Val.orElse ((⟨fields, none⟩ : Parsed).get .riskId)
              ((⟨fields, none⟩ : Parsed).get .opportunityId))
          rw [if_neg (by decide)] at hset
          rw [← hset] at hflag
          exact hflag
    · split at h
      · rename_i hdel
        cases h
        left
        refine ⟨hdel.1, ?_, by simp [Parsed.find_set]⟩
        have hstatus := (parseFields_find hfields (schema_nodup entity)
          (schema_status hdel.1)).choice
        rw [← hdel.2]
        simp only [Parsed.get, hstatus, Dict.get]
      · cases h
        exact Or.inr hflag

end RiskApp.Server
