import RiskApp.Server.Records

namespace RiskApp.Server

open Lib Lib.Result

def fieldOf (fields : List (Attr × Val)) (a : Attr) : Option Val :=
  (Table.find Prod.fst a fields).map Prod.snd

/-- What an update writes besides the client's fields. -/
def stampedAttrs : List Attr :=
  [.id, .version, .status, .statusChangedAt, .occurredAt, .isDeleted, .updatedAt]

def derivedAttrs : List Attr := .impact :: .score :: stampedAttrs

def dimensionsOf (attrs : Attr → Val) : List ℤ :=
  impactDimensions.filterMap fun a ↦ match attrs a with
    | .int n => some n
    | _ => none

def impactOf (attrs : Attr → Val) : Val :=
  match dimensionsOf attrs with
  | [] => attrs .impact
  | n :: rest => .int (rest.foldl max n)

theorem fieldOf_cons (f : Attr × Val) (fields : List (Attr × Val)) (a : Attr) :
    fieldOf (f :: fields) a = if f.1 = a then some f.2 else fieldOf fields a := by
  rw [fieldOf, Table.find_cons]
  split <;> rfl

theorem fieldOf_eq_none {fields : List (Attr × Val)} {a : Attr} (h : a ∉ fields.map Prod.fst) :
    fieldOf fields a = none := by
  rw [fieldOf, Option.map_eq_none_iff, Table.find_eq_none]
  exact fun f hf he ↦ h (List.mem_map.mpr ⟨f, hf, he⟩)

theorem mem_of_fieldOf {fields : List (Attr × Val)} {a : Attr} {v : Val}
    (h : fieldOf fields a = some v) : (a, v) ∈ fields := by
  obtain ⟨f, hf, rfl⟩ := Option.map_eq_some_iff.mp h
  have hkey : f.1 = a := Table.key_of_find Prod.fst hf
  exact hkey ▸ Table.mem_of_find Prod.fst hf

theorem clientFields_nodup {table : Table} {val : Parsed} (h : (val.fields.map Prod.fst).Nodup) :
    ((clientFields table val).map Prod.fst).Nodup :=
  h.sublist ((List.filter_sublist).map _)

theorem clientFields_find {table : Table} {val : Parsed} {a : Attr} (hcol : a ∈ table.columns)
    (ha : a ∉ [.score, .assessorUserId]) : fieldOf (clientFields table val) a = val.find a := by
  have hfind := Table.find_filter Prod.fst a
    (p := fun f : Attr × Val ↦ f.1 ∉ [.score, .assessorUserId] && f.1 ∈ table.columns) val.fields
    fun f _ hf ↦ by rw [hf]; simp only [Bool.and_eq_true, decide_eq_true_eq]; exact ⟨ha, hcol⟩
  exact congrArg (Option.map Prod.snd) hfind

namespace Row

theorem setAttr_self (r : Row) {a : Attr} (v : Val) (ha : a ∉ [.id, .version]) :
    (r.setAttr a v).attrs a = v := by
  unfold setAttr
  split
  · exact absurd List.mem_cons_self ha
  · exact absurd (List.mem_cons_of_mem _ List.mem_cons_self) ha
  · exact Function.update_self _ _ _

theorem setAttr_attrs (r : Row) {a b : Attr} (v : Val) (hb : b ∉ [.id, .version]) :
    (r.setAttr a v).attrs b = if a = b then v else r.attrs b := by
  by_cases h : a = b
  · subst h
    rw [if_pos rfl]
    exact r.setAttr_self v hb
  · rw [if_neg h]
    exact r.setAttr_attrs_of_ne v (Ne.symm h)

theorem changeStatus_attrs (r : Row) (v : Val) (now : Time) {b : Attr}
    (hb : b ∉ [.id, .version, .statusChangedAt, .occurredAt]) :
    (r.changeStatus v now).attrs b = if .status = b then v else r.attrs b := by
  simp only [List.mem_cons, List.not_mem_nil, or_false, not_or] at hb
  obtain ⟨hid, hversion, hchanged, hoccurred⟩ := hb
  have hb : b ∉ [.id, .version] := by simp [hid, hversion]
  unfold changeStatus
  split
  · rename_i hsame
    split
    · rename_i he
      exact he ▸ hsame
    · rfl
  · have hset : (((r.setAttr .status v).setAttr .statusChangedAt (.time now)).attrs b) =
        if .status = b then v else r.attrs b := by
      rw [setAttr_attrs_of_ne _ _ hchanged, setAttr_attrs _ _ hb]
    simp only
    split
    · rw [setAttr_attrs_of_ne _ _ hoccurred, hset]
    · exact hset

theorem assign_attrs (now : Time) (r : Row) (f : Attr × Val) {b : Attr}
    (hb : b ∉ [.id, .version, .statusChangedAt, .occurredAt]) :
    (r.assign now f).attrs b = if f.1 = b then f.2 else r.attrs b := by
  unfold assign
  split
  · rename_i hs
    rw [hs.1]
    exact r.changeStatus_attrs f.2 now hb
  · refine r.setAttr_attrs f.2 fun hmem ↦ hb ?_
    exact List.mem_append_left [.statusChangedAt, .occurredAt] hmem

theorem foldl_attrs {f : Row → Attr × Val → Row} {b : Attr}
    (hf : ∀ r g, (f r g).attrs b = if g.1 = b then g.2 else r.attrs b) {fields : List (Attr × Val)}
    (hnodup : (fields.map Prod.fst).Nodup) (r : Row) :
    (fields.foldl f r).attrs b = (fieldOf fields b).getD (r.attrs b) := by
  induction fields generalizing r with
  | nil => rfl
  | cons g fields ih =>
    obtain ⟨hfresh, hrest⟩ := List.nodup_cons.mp hnodup
    rw [List.foldl_cons, ih hrest, hf, fieldOf_cons]
    by_cases h : g.1 = b
    · rw [if_pos h, if_pos h, fieldOf_eq_none (h ▸ hfresh)]
      rfl
    · rw [if_neg h, if_neg h]

theorem setAll_attrs {fields : List (Attr × Val)} (hnodup : (fields.map Prod.fst).Nodup) (r : Row)
    {b : Attr} (hb : b ∉ [.id, .version]) :
    (r.setAll fields).attrs b = (fieldOf fields b).getD (r.attrs b) :=
  foldl_attrs (fun r g ↦ r.setAttr_attrs g.2 hb) hnodup r

theorem softDelete_attrs (r : Row) (now : Time) {b : Attr} (hb : b ∉ stampedAttrs) :
    (r.softDelete now).attrs b = r.attrs b := by
  simp only [stampedAttrs, List.mem_cons, List.not_mem_nil, or_false, not_or] at hb
  obtain ⟨hid, hversion, hstatus, hchanged, hoccurred, hdeleted, hupdated⟩ := hb
  have hset : ((r.setAttr .isDeleted (.bool true)).setAttr .updatedAt (.time now)).attrs b =
      r.attrs b := by
    rw [setAttr_attrs_of_ne _ _ hupdated, setAttr_attrs_of_ne _ _ hdeleted]
  unfold softDelete
  simp only
  split
  · rw [changeStatus_attrs _ _ _ (by simp [hid, hversion, hchanged, hoccurred]),
      if_neg (Ne.symm hstatus)]
    exact hset
  · exact hset

end Row

theorem recalculateItemScores_attrs (r : Row) {b : Attr} (hi : b ≠ .impact) (hs : b ≠ .score) :
    (recalculateItemScores r).attrs b = r.attrs b := by
  unfold recalculateItemScores
  split
  · simp only
    rw [Row.setAttr_attrs_of_ne _ _ hs]
    split
    · rfl
    · rw [Row.setAttr_attrs_of_ne _ _ hi]
  · rfl

theorem recalculateItemScores_impact {r : Row} (ht : r.table = .items ∨ r.table = .assessments) :
    (recalculateItemScores r).attrs .impact = impactOf r.attrs := by
  have hkeep : ∀ (s : Row) (v : Val), (s.setAttr .score v).attrs .impact = s.attrs .impact :=
    fun s v ↦ s.setAttr_attrs_of_ne v (by decide)
  unfold recalculateItemScores impactOf
  rw [if_pos ht]
  simp only [hkeep]
  split
  · rename_i hnil
    have hnone : dimensionsOf r.attrs = [] := hnil
    rw [hnone]
  · rename_i n rest hcons
    have hsome : dimensionsOf r.attrs = n :: rest := hcons
    rw [hsome]
    exact Row.setAttr_self _ _ (by decide)

theorem impactOf_congr {f g : Attr → Val} (h : ∀ a ∈ .impact :: impactDimensions, f a = g a) :
    impactOf f = impactOf g := by
  have hdims : dimensionsOf f = dimensionsOf g :=
    List.filterMap_congr fun a ha ↦ by rw [h a (List.mem_cons_of_mem _ ha)]
  unfold impactOf
  rw [hdims, h .impact List.mem_cons_self]

namespace Row

def flagged (r : Row) (val : Parsed) (now : Time) : Row :=
  if val.get .isDeleted = .null then r
  else if (val.get .isDeleted).truthy then r.softDelete now
  else r.setAttr .isDeleted (.bool false)

def written (r : Row) (val : Parsed) (a : Attr) : Val :=
  (fieldOf (clientFields r.table val) a).getD (r.attrs a)

/-- `w` is `r` after a record was written over it. -/
structure Overwrites (r : Row) (val : Parsed) (w : Row) : Prop where
  keeps : r.Keeps w
  attrs : ∀ a, a ∉ derivedAttrs → w.attrs a = r.written val a
  impact : r.table = .items ∨ r.table = .assessments → w.attrs .impact = impactOf (r.written val)

variable {r : Row} {val : Parsed} {now : Time}

theorem flagged_attrs {b : Attr} (hb : b ∉ stampedAttrs) :
    (r.flagged val now).attrs b = r.attrs b := by
  unfold flagged
  split
  · rfl
  · split
    · exact r.softDelete_attrs now hb
    · refine setAttr_attrs_of_ne _ _ fun h ↦ hb ?_
      simp [stampedAttrs, h]

theorem keeps_flagged : r.Keeps (r.flagged val now) := by
  unfold flagged
  split
  · exact .refl r
  · split
    · exact r.keeps_softDelete now
    · exact r.keeps_setAttr _ (by decide)

theorem update_attrs_eq {b : Attr} (hupdated : b ≠ .updatedAt) :
    (r.update val now).attrs b = (recalculateItemScores
      (((clientFields r.table val).foldl (assign now) r).flagged val now)).attrs b := by
  unfold update flagged
  simp only
  split <;> exact setAttr_attrs_of_ne _ _ hupdated

theorem not_mem_of_derived {a : Attr} (h : a ∉ derivedAttrs) :
    a ≠ .impact ∧ a ≠ .score ∧ a ∉ stampedAttrs := by
  simpa only [derivedAttrs, List.mem_cons, not_or] using h

theorem update_overwrites (hfixed : ∀ f ∈ val.fields, f.1 ∉ fixedAttrs)
    (hnodup : (val.fields.map Prod.fst).Nodup) : r.Overwrites val (r.update val now) := by
  have hkeeps := keeps_foldl (keeps_assign now) (clientFields r.table val) r
    fun f hf ↦ hfixed f (List.mem_of_mem_filter hf)
  set s := (clientFields r.table val).foldl (assign now) r
  have hflagged : ∀ a, a ∉ stampedAttrs → (s.flagged val now).attrs a = r.written val a := by
    intro a ha
    have hassigned : a ∉ [Attr.id, .version, .statusChangedAt, .occurredAt] := by
      intro h
      apply ha
      revert h
      simp only [stampedAttrs, List.mem_cons, List.not_mem_nil, or_false]
      tauto
    rw [flagged_attrs ha]
    exact foldl_attrs (fun s f ↦ assign_attrs now s f hassigned) (clientFields_nodup hnodup) r
  refine ⟨r.keeps_update val now hfixed, fun a ha ↦ ?_, fun ht ↦ ?_⟩
  · obtain ⟨himpact, hscore, hstamped⟩ := not_mem_of_derived ha
    rw [update_attrs_eq fun h ↦ hstamped (by rw [h]; decide),
      recalculateItemScores_attrs _ himpact hscore, hflagged a hstamped]
  · have htable : (s.flagged val now).table = r.table := (hkeeps.trans keeps_flagged).table
    rw [update_attrs_eq (by decide), recalculateItemScores_impact (htable.symm ▸ ht)]
    exact impactOf_congr fun a ha ↦ hflagged a (by revert a; decide)

theorem setAll_overwrites (hfixed : ∀ f ∈ val.fields, f.1 ∉ fixedAttrs)
    (hnodup : (val.fields.map Prod.fst).Nodup) :
    r.Overwrites val (recalculateItemScores (r.setAll (clientFields r.table val))) := by
  have hkeeps := keeps_foldl (fun s f hf ↦ s.keeps_setAttr f.2 hf) (clientFields r.table val) r
    fun f hf ↦ hfixed f (List.mem_of_mem_filter hf)
  have hset : ∀ a, a ∉ [Attr.id, .version] →
      (r.setAll (clientFields r.table val)).attrs a = r.written val a := fun a ha ↦
    setAll_attrs (clientFields_nodup hnodup) r ha
  refine ⟨hkeeps.trans (keeps_recalculateItemScores _), fun a ha ↦ ?_, fun ht ↦ ?_⟩
  · obtain ⟨himpact, hscore, hstamped⟩ := not_mem_of_derived ha
    rw [recalculateItemScores_attrs _ himpact hscore, hset]
    intro h
    apply hstamped
    revert h
    simp only [stampedAttrs, List.mem_cons, List.not_mem_nil, or_false]
    tauto
  · have htable : (r.setAll (clientFields r.table val)).table = r.table := hkeeps.table
    rw [recalculateItemScores_impact (htable.symm ▸ ht)]
    exact impactOf_congr fun a ha ↦ hset a (by revert a; decide)

end Row

section Parsed

variable {conv : Conv} {entity : Entity} {record : Dict} {val : Parsed}

/-- Apart from the parent and the deletion flag, a parsed record holds the validated fields. -/
theorem parseRecord_find (h : parseRecord conv entity record = .ok val) {a : Attr} {t : FieldType}
    (ht : (a, t) ∈ schema entity) (ha : a ∉ [.itemId, .riskId, .opportunityId, .isDeleted]) :
    Validated conv t (record a) (val.find a) := by
  simp only [List.mem_cons, List.not_mem_nil, or_false, not_or] at ha
  obtain ⟨hitem, hrisk, hopportunity, hdeleted⟩ := ha
  unfold parseRecord at h
  split at h
  · cases h
  · rename_i fields hfields
    have hparsed := parseFields_find hfields (schema_nodup entity) ht
    have hpop : (((⟨fields, none⟩ : Parsed).pop .riskId).pop .opportunityId).find a =
        (⟨fields, none⟩ : Parsed).find a := by
      rw [Parsed.find_pop_of_ne _ hopportunity, Parsed.find_pop_of_ne _ hrisk]
    simp only at h
    split at h
    · split at h
      · cases h
      · cases h
        rw [← hpop] at hparsed
        split
        · exact hparsed
        · have hset := Parsed.find_set
            (((⟨fields, none⟩ : Parsed).pop .riskId).pop .opportunityId) .itemId a
            (Val.orElse ((⟨fields, none⟩ : Parsed).get .riskId)
              ((⟨fields, none⟩ : Parsed).get .opportunityId))
          rw [if_neg hitem] at hset
          rw [← hset] at hparsed
          exact hparsed
    · split at h
      · cases h
        rw [Parsed.find_set, if_neg hdeleted]
        exact hparsed
      · cases h
        exact hparsed

theorem Validated.uuid {v : Option Val} {w : Val} (h : Validated conv .uuid v (some w)) :
    w = .null ∨ ∃ u, w = .uuid u := by
  cases h with
  | null => exact Or.inl rfl
  | @value v w ne parsed =>
    right
    cases v with
    | uuid u =>
      cases parsed
      exact ⟨u, rfl⟩
    | _ =>
      obtain ⟨u, -, rfl⟩ := Option.map_eq_some_iff.mp parsed
      exact ⟨u, rfl⟩

theorem Validated.scale {v : Option Val} {w : Val} (h : Validated conv .scale v (some w)) :
    w = .null ∨ ∃ n, FieldType.inScale n = true ∧ w = .int n := by
  cases h with
  | null => exact Or.inl rfl
  | @value v w ne parsed =>
    right
    have hscale : ∀ n : ℤ, (if FieldType.inScale n then some (Val.int n) else none) = some w →
        ∃ m, FieldType.inScale m = true ∧ w = .int m := by
      intro n hn
      split at hn
      · rename_i hin
        exact ⟨n, hin, (Option.some.inj hn).symm⟩
      · cases hn
    cases v with
    | int n => exact hscale n parsed
    | _ =>
      obtain ⟨n, -, hn⟩ := Option.bind_eq_some_iff.mp parsed
      exact hscale n hn

theorem parseRecord_itemId (h : parseRecord conv entity record = .ok val) {w : Val}
    (hw : val.find .itemId = some w) : w = .null ∨ ∃ u, w = .uuid u := by
  have huuid : ∀ a ∈ [Attr.itemId, .riskId, .opportunityId],
      a ∈ (schema entity).map Prod.fst → (a, .uuid) ∈ schema entity := by
    cases entity <;> simp [schema, syncItemRecord, itemShared, syncActionRecord,
      syncAssessmentRecord, syncHelpDeskTicketRecord]
  have hkeys := parseRecord_keys h
  unfold parseRecord at h
  split at h
  · cases h
  · rename_i fields hfields
    have hbase : ∀ a ∈ [Attr.itemId, .riskId, .opportunityId], ∀ v,
        (⟨fields, none⟩ : Parsed).find a = some v → v = .null ∨ ∃ u, v = .uuid u := by
      intro a ha v hv
      have hmem := (parseFields_sublist hfields).subset
        (List.mem_map_of_mem (f := Prod.fst) (mem_of_fieldOf hv))
      have hparsed := parseFields_find hfields (schema_nodup entity) (huuid a ha hmem)
      rw [hv] at hparsed
      exact hparsed.uuid
    have hget : ∀ a ∈ [Attr.itemId, .riskId, .opportunityId],
        (⟨fields, none⟩ : Parsed).get a = .null ∨
          ∃ u, (⟨fields, none⟩ : Parsed).get a = .uuid u := by
      intro a ha
      unfold Parsed.get
      cases hfind : (⟨fields, none⟩ : Parsed).find a with
      | none => exact Or.inl rfl
      | some v => exact hbase a ha v hfind
    have hpop : (((⟨fields, none⟩ : Parsed).pop .riskId).pop .opportunityId).find .itemId =
        (⟨fields, none⟩ : Parsed).find .itemId := by
      rw [Parsed.find_pop_of_ne _ (by decide), Parsed.find_pop_of_ne _ (by decide)]
    simp only at h
    split at h
    · split at h
      · cases h
      · cases h
        have hfind : (if ((((⟨fields, none⟩ : Parsed).pop .riskId).pop .opportunityId).get
              .itemId).truthy then ((⟨fields, none⟩ : Parsed).pop .riskId).pop .opportunityId
            else (((⟨fields, none⟩ : Parsed).pop .riskId).pop .opportunityId).set .itemId
              (Val.orElse ((⟨fields, none⟩ : Parsed).get .riskId)
                ((⟨fields, none⟩ : Parsed).get .opportunityId))).find .itemId = some w := hw
        split at hfind
        · exact hbase .itemId (by decide) w (hpop ▸ hfind)
        · rw [Parsed.find_set, if_pos rfl] at hfind
          cases hfind
          unfold Val.orElse
          split
          · exact hget .riskId (by decide)
          · exact hget .opportunityId (by decide)
    · split at h
      · cases h
        rw [Parsed.find_set, if_neg (by decide)] at hw
        exact hbase .itemId (by decide) w hw
      · cases h
        exact hbase .itemId (by decide) w hw

end Parsed

end RiskApp.Server
