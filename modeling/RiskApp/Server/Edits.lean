import RiskApp.Server.Invariants
import RiskApp.Server.Permanent

namespace RiskApp.Server

open Lib Lib.Result

section Bodies

variable {payload : Dict} {declared : List Attr} {changes : List (Attr × Val)} {a : Attr}

theorem modelDump_nodup (hd : declared.Nodup) :
    ((modelDump declared payload).map Prod.fst).Nodup := by
  refine hd.sublist ?_
  induction declared with
  | nil => exact .slnil
  | cons b declared ih =>
    have hrest := ih (List.nodup_cons.mp hd).2
    unfold modelDump
    rw [List.filterMap_cons]
    cases payload b with
    | none => exact hrest.cons b
    | some v => exact hrest.cons_cons b

theorem fieldOf_modelDump (ha : a ∈ declared) :
    fieldOf (modelDump declared payload) a = payload a := by
  induction declared with
  | nil => cases ha
  | cons b declared ih =>
    unfold modelDump at ih ⊢
    rw [List.filterMap_cons]
    by_cases hb : b = a
    · subst hb
      cases hv : payload b with
      | none =>
        refine fieldOf_eq_none fun hmem ↦ ?_
        obtain ⟨f, hf, he⟩ := List.mem_map.mp hmem
        obtain ⟨c, -, hc⟩ := List.mem_filterMap.mp hf
        obtain ⟨v, hv', rfl⟩ := Option.map_eq_some_iff.mp hc
        obtain rfl : c = b := he
        rw [hv] at hv'
        cases hv'
      | some v =>
        rw [Option.map_some, fieldOf_cons, if_pos rfl]
    · have hrest := ih ((List.mem_cons.mp ha).resolve_left (Ne.symm hb))
      cases payload b with
      | none => exact hrest
      | some v =>
        rw [Option.map_some, fieldOf_cons, if_neg hb]
        exact hrest

theorem itemUpdate_nodup : itemUpdate.Nodup := by decide

theorem fieldOf_normalized {fields : List (Attr × Val)}
    (h : ∀ v, fieldOf fields a = some v → normalizedChange (a, v) = (a, v)) :
    fieldOf (fields.map normalizedChange) a = fieldOf fields a := by
  unfold fieldOf at h ⊢
  rw [Table.find_map Prod.fst a normalizedChange_fst]
  cases hfind : Table.find Prod.fst a fields with
  | none => rfl
  | some f =>
    have hkey : f.1 = a := Table.key_of_find Prod.fst hfind
    have hsame := h f.2 (by rw [hfind]; rfl)
    have hf : (a, f.2) = f := by rw [← hkey]
    rw [hf] at hsame
    rw [Option.map_some, hsame]

theorem normalizedChange_status {s : String} (hs : s ∈ riskStatuses) :
    normalizedChange (.status, .str s) = (.status, .str s) := by
  have hall : ∀ s ∈ riskStatuses, String.ofList (Text.strip (Text.lower s.toList)) = s := by
    decide
  simp only [normalizedChange, hall s hs]

theorem refusedChange_null {b : Attr} (hb : b ∈ [Attr.code, .title, .probability, .impact, .status,
    .identifiedAt]) : refusedChange (b, .null) ≠ none := by
  simp only [List.mem_cons, List.not_mem_nil, or_false] at hb
  rcases hb with rfl | rfl | rfl | rfl | rfl | rfl <;> simp [refusedChange]

/-- What `_validated_changes` makes of a body: no field that must have a value is cleared. -/
structure Changes (payload : Dict) (changes : List (Attr × Val)) : Prop where
  keys : ∀ f ∈ changes, f.1 ∈ itemUpdate
  nodup : (changes.map Prod.fst).Nodup
  values : ∀ a ∈ itemUpdate, a ≠ .code → fieldOf changes a = payload a
  status : ∀ v, payload .status = some v → ∃ s ∈ riskStatuses, v = .str s
  filled : ∀ a ∈ [Attr.title, .probability, .impact], payload a ≠ some .null

theorem Conforms.status {fields : List (Attr × FieldType)} {required : List Attr}
    (h : Conforms fields required payload) (hf : (.status, .choice riskStatuses) ∈ fields) {v : Val}
    (hv : payload .status = some v) : v = .null ∨ ∃ s ∈ riskStatuses, v = .str s := by
  rcases h.1 _ hf v hv with hnull | hparse
  · exact Or.inl hnull
  · right
    cases v with
    | str s =>
      simp only [FieldType.parse] at hparse
      split at hparse
      · exact ⟨s, ‹_›, rfl⟩
      · cases hparse
    | _ => cases hparse

theorem Conforms.scale {fields : List (Attr × FieldType)} {required : List Attr}
    (h : Conforms fields required payload) (hf : (a, .scale) ∈ fields) {v : Val}
    (hv : payload a = some v) : v = .null ∨ Scaled v := by
  rcases h.1 _ hf v hv with hnull | hparse
  · exact Or.inl hnull
  · right
    cases v with
    | int n =>
      simp only [FieldType.parse] at hparse
      split at hparse
      · exact ⟨n, ‹_›, rfl⟩
      · cases hparse
    | _ => cases hparse

theorem validatedChanges_changes (hbody : Conforms (itemFields 0) [] payload)
    (h : validatedChanges payload = .ok changes) : Changes payload changes := by
  have hkeys := validatedChanges_fst h
  unfold validatedChanges at h
  simp only at h
  split at h
  · rename_i hnone
    cases h
    have haccepted : ∀ f ∈ modelDump itemUpdate payload, refusedChange f = none := by
      intro f hf
      by_contra hne
      obtain ⟨detail, hdetail⟩ := Option.ne_none_iff_exists'.mp hne
      have hmem := List.mem_filterMap.mpr ⟨f, hf, hdetail⟩
      rw [hnone] at hmem
      cases hmem
    have hfilled : ∀ b ∈ [Attr.code, .title, .probability, .impact, .status, .identifiedAt],
        payload b ≠ some .null := by
      intro b hb hnull
      have hdecl : ∀ b ∈ [Attr.code, .title, .probability, .impact, .status, .identifiedAt],
          b ∈ itemUpdate := by decide
      refine refusedChange_null hb (haccepted (b, .null) ?_)
      exact List.mem_filterMap.mpr ⟨b, hdecl b hb, by rw [hnull]; rfl⟩
    have hstatus : ∀ v, payload .status = some v → ∃ s ∈ riskStatuses, v = .str s := by
      intro v hv
      refine (hbody.status (by simp [itemFields, itemShared]) hv).resolve_left ?_
      rintro rfl
      exact hfilled .status (by decide) hv
    refine ⟨hkeys, ?_, fun a ha hcode ↦ ?_, hstatus, fun a ha ↦ hfilled a ?_⟩
    · have hmap : ((modelDump itemUpdate payload).map normalizedChange).map Prod.fst =
          (modelDump itemUpdate payload).map Prod.fst := by
        rw [List.map_map]
        exact List.map_congr_left fun f _ ↦ normalizedChange_fst f
      rw [hmap]
      exact modelDump_nodup itemUpdate_nodup
    · by_cases hs : a = .status
      · subst hs
        rw [fieldOf_normalized, fieldOf_modelDump ha]
        intro v hv
        rw [fieldOf_modelDump ha] at hv
        obtain ⟨s, hs, rfl⟩ := hstatus v hv
        exact normalizedChange_status hs
      · rw [fieldOf_normalized, fieldOf_modelDump ha]
        intro v _
        unfold normalizedChange
        split
        · rename_i he
          cases he
          exact absurd rfl hcode
        · rename_i he
          cases he
          exact absurd rfl hs
        · rfl
    · revert a
      decide
  · cases h

theorem Changes.deletes (h : Changes payload changes) :
    (Attr.status, Val.str "deleted") ∈ changes ↔ payload .status = some (.str "deleted") := by
  rw [← h.values .status (by decide) (by decide)]
  constructor
  · intro hmem
    rw [fieldOf, Table.find_of_mem Prod.fst h.nodup hmem]
    rfl
  · exact mem_of_fieldOf

end Bodies

section Objects

variable {payload : Dict} {changes : List (Attr × Val)} {r : Row} {now : Time}

theorem claim_attrs (r : Row) (now : Time) {a : Attr} (ha : a ≠ .updatedAt) :
    (r.claim now).attrs a = r.attrs a := r.setAttr_attrs_of_ne _ ha

/-- What the assignments of `update_item` themselves write, whatever the body sets. -/
def editedAttrs : List Attr := .impact :: .score :: .updatedAt :: .isDeleted ::
  [.id, .version, .statusChangedAt, .occurredAt]

theorem editItem_attrs (h : Changes payload changes) {a : Attr} (ha : a ∉ editedAttrs) :
    (editItem now changes r).attrs a = (fieldOf changes a).getD (r.attrs a) := by
  simp only [editedAttrs, List.mem_cons, List.not_mem_nil, or_false, not_or] at ha
  obtain ⟨himpact, hscore, hupdated, hdeleted, hid, hversion, hchanged, hoccurred⟩ := ha
  have hassign : (changes.foldl (Row.assign now) r).attrs a =
      (fieldOf changes a).getD (r.attrs a) :=
    Row.foldl_attrs (fun s f ↦ s.assign_attrs now f
      (by simp [hid, hversion, hchanged, hoccurred])) h.nodup r
  unfold editItem
  simp only
  split
  · rw [Row.setAttr_attrs_of_ne _ _ hdeleted, Row.setAttr_attrs_of_ne _ _ hupdated, hassign]
  · rw [recalculateItemScores_attrs _ himpact hscore, Row.setAttr_attrs_of_ne _ _ hupdated, hassign]

theorem editItem_table (now : Time) (h : Changes payload changes) (hr : r.table = .items) :
    (editItem now changes r).table = .items :=
  (keeps_editItem now h.keys r).table.trans hr

theorem newItem_attrs (userId projectId : Uuid) (newId : Uuid) (entity : Entity) (newCode : String)
    (status : Val) {a : Attr} (ha : a ∈ itemUpdate)
    (hset : a ∉ [.impact, .code, .status, .identifiedAt, .occurredAt]) :
    (newItem userId projectId payload newId now entity newCode status).attrs a =
      (payload a).getD .null := by
  simp only [List.mem_cons, List.not_mem_nil, or_false, not_or] at hset
  obtain ⟨himpact, hcode, hstatus, hidentified, hoccurred⟩ := hset
  have hother : ∀ a ∈ itemUpdate, a ∉ [Attr.projectId, .score, .statusChangedAt, .createdAt,
      .createdBy, .updatedAt, .isDeleted, .type, .id, .version] := by decide
  have hfixed := hother a ha
  simp only [List.mem_cons, List.not_mem_nil, or_false, not_or] at hfixed
  obtain ⟨hproject, hscore, hchanged, hcreated, hby, hupdated, hdeleted, htype, hid, hversion⟩ :=
    hfixed
  unfold newItem
  rw [recalculateItemScores_attrs _ himpact hscore, Row.setAll_attrs_of_ne _ (by
    simp only [List.mem_cons, List.not_mem_nil, or_false, forall_eq_or_imp, forall_eq]
    exact ⟨Ne.symm hproject, Ne.symm hcode, Ne.symm hscore, Ne.symm hstatus, Ne.symm hidentified,
      Ne.symm hchanged, Ne.symm hcreated, Ne.symm hby, Ne.symm hupdated, Ne.symm hdeleted,
      Ne.symm hoccurred⟩),
    Row.setAll_attrs (modelDump_nodup itemUpdate_nodup) _ (by simp [hid, hversion]),
    fieldOf_modelDump ha, Row.setAttr_attrs_of_ne _ _ htype]

end Objects

end RiskApp.Server
