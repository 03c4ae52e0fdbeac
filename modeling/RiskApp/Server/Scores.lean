import Mathlib.Order.Bounds.Basic
import Mathlib.Order.MinMax
import RiskApp.Server.Edits

namespace RiskApp.Server

open Lib Lib.Result

def Row.Multiplied (r : Row) : Prop :=
  r.table = .items ∨ r.table = .assessments → ∃ p i, FieldType.inScale p = true ∧
    FieldType.inScale i = true ∧ r.attrs .probability = .int p ∧ r.attrs .impact = .int i ∧
    r.attrs .score = .int (p * i)

/-- The scores of a row agree with what they derive from. -/
structure Row.Consistent (r : Row) : Prop where
  scores : r.Multiplied
  dimensions : r.table = .items → ∀ a ∈ impactDimensions, r.attrs a = .null ∨ Scaled (r.attrs a)
  impact : r.table = .items → (∃ a ∈ impactDimensions, r.attrs a ≠ .null) →
    ∃ i, r.attrs .impact = .int i ∧ IsGreatest {n | ∃ a ∈ impactDimensions, r.attrs a = .int n} i

section Impact

variable {f g : Attr → Val}

theorem mem_dimensionsOf {n : ℤ} : n ∈ dimensionsOf f ↔ ∃ a ∈ impactDimensions, f a = .int n := by
  unfold dimensionsOf
  rw [List.mem_filterMap]
  refine exists_congr fun a ↦ and_congr_right fun _ ↦ ?_
  split
  · rename_i m hm
    rw [hm, Option.some.injEq, Val.int.injEq]
  · rename_i hno
    exact iff_of_false (by simp) (hno n)

theorem foldl_max_isGreatest (n : ℤ) (ns : List ℤ) :
    IsGreatest {m | m ∈ n :: ns} (ns.foldl max n) := by
  induction ns generalizing n with
  | nil => exact ⟨List.mem_cons_self, fun m hm ↦ (List.mem_singleton.mp hm).le⟩
  | cons k ns ih =>
    obtain ⟨hmem, hbound⟩ := ih (max n k)
    refine ⟨?_, fun m hm ↦ ?_⟩
    · rcases List.mem_cons.mp hmem with he | hns
      · rw [List.foldl_cons, he]
        rcases max_choice n k with h | h <;> rw [h] <;> simp
      · exact List.mem_cons_of_mem _ (List.mem_cons_of_mem _ hns)
    · have hmax : max n k ≤ ns.foldl max (max n k) := hbound List.mem_cons_self
      rcases List.mem_cons.mp hm with rfl | hm
      · exact (le_max_left _ _).trans hmax
      · rcases List.mem_cons.mp hm with rfl | hm
        · exact (le_max_right _ _).trans hmax
        · exact hbound (List.mem_cons_of_mem _ hm)

theorem impactOf_isGreatest (hdims : ∀ a ∈ impactDimensions, f a = .null ∨ Scaled (f a))
    (hne : ∃ a ∈ impactDimensions, f a ≠ .null) :
    ∃ i, impactOf f = .int i ∧ IsGreatest {n | ∃ a ∈ impactDimensions, f a = .int n} i := by
  have hset : {n | ∃ a ∈ impactDimensions, f a = .int n} = {n | n ∈ dimensionsOf f} :=
    Set.ext fun n ↦ mem_dimensionsOf.symm
  obtain ⟨a, ha, hnull⟩ := hne
  obtain ⟨n, -, hn⟩ := (hdims a ha).resolve_left hnull
  have hmem := mem_dimensionsOf.mpr ⟨a, ha, hn⟩
  rw [hset]
  unfold impactOf
  cases hlist : dimensionsOf f with
  | nil =>
    rw [hlist] at hmem
    cases hmem
  | cons k ns => exact ⟨_, rfl, foldl_max_isGreatest k ns⟩

theorem impactOf_of_null (h : ∀ a ∈ impactDimensions, f a = .null) : impactOf f = f .impact := by
  have hnil : dimensionsOf f = [] := by
    refine List.eq_nil_iff_forall_not_mem.mpr fun n hn ↦ ?_
    obtain ⟨a, ha, hint⟩ := mem_dimensionsOf.mp hn
    rw [h a ha] at hint
    cases hint
  unfold impactOf
  rw [hnil]

theorem impactOf_eq_iff (hdims : ∀ a ∈ impactDimensions, f a = .null ∨ Scaled (f a)) :
    impactOf f = f .impact ↔ ((∃ a ∈ impactDimensions, f a ≠ .null) →
      ∃ i, f .impact = .int i ∧ IsGreatest {n | ∃ a ∈ impactDimensions, f a = .int n} i) := by
  constructor
  · intro h hne
    obtain ⟨i, hi, hgreatest⟩ := impactOf_isGreatest hdims hne
    exact ⟨i, h ▸ hi, hgreatest⟩
  · intro h
    by_cases hne : ∃ a ∈ impactDimensions, f a ≠ .null
    · obtain ⟨i, hi, hgreatest⟩ := h hne
      obtain ⟨j, hj, hgreatest'⟩ := impactOf_isGreatest hdims hne
      rw [hj, hi, hgreatest'.unique hgreatest]
    · exact impactOf_of_null fun a ha ↦ Classical.not_not.mp fun h ↦ hne ⟨a, ha, h⟩

theorem impactOf_stable (hdims : ∀ a ∈ impactDimensions, g a = f a)
    (himpact : g .impact = impactOf f) : impactOf g = g .impact := by
  have hlist : dimensionsOf g = dimensionsOf f :=
    List.filterMap_congr fun a ha ↦ by rw [hdims a ha]
  rw [himpact]
  unfold impactOf at himpact ⊢
  rw [hlist]
  split
  · rename_i hnil
    rw [hnil] at himpact
    exact himpact
  · rfl

theorem impactDimensions_not_scores {a : Attr} (ha : a ∈ impactDimensions) :
    a ≠ .impact ∧ a ∉ flushedAttrs := by
  revert a
  decide

theorem impactOf_recalculated {r : Row} (ht : r.table = .items ∨ r.table = .assessments) :
    impactOf (recalculateItemScores r).attrs = (recalculateItemScores r).attrs .impact := by
  refine impactOf_stable (fun a ha ↦ ?_) (recalculateItemScores_impact ht)
  obtain ⟨himpact, hscore⟩ := impactDimensions_not_scores ha
  exact recalculateItemScores_attrs r himpact fun h ↦ hscore (h ▸ List.mem_cons_self)

end Impact

section Stored

variable {obj s : Row} {new : Bool} {now : Time}

theorem Row.Consistent.impactOf_eq {r : Row} (h : r.Consistent) (ht : r.table = .items) :
    impactOf r.attrs = r.attrs .impact :=
  (impactOf_eq_iff (h.dimensions ht)).mpr (h.impact ht)

theorem computeScore_scores {s₀ : Row} (h : computeScore obj = .ok s₀)
    (ht : obj.table = .items ∨ obj.table = .assessments) :
    ∃ p i, FieldType.inScale p = true ∧ FieldType.inScale i = true ∧
      obj.attrs .probability = .int p ∧ obj.attrs .impact = .int i ∧
      s₀.naive.attrs .score = .int (p * i) := by
  have hscale : ∀ {v : Val} {n : ℤ}, validateScale v = .ok n →
      FieldType.inScale n = true ∧ v = .int n := by
    intro v n hv
    unfold validateScale at hv
    split at hv
    · split at hv
      · cases hv
        exact ⟨‹_›, rfl⟩
      · cases hv
    · cases hv
  unfold computeScore at h
  rw [if_pos ht] at h
  obtain ⟨p, hp, h⟩ := bind_ok h
  obtain ⟨i, hi, h⟩ := bind_ok h
  cases h
  refine ⟨p, i, (hscale hp).1, (hscale hi).1, (hscale hp).2, (hscale hi).2, ?_⟩
  rw [Row.naive_attrs_of_not_mem (by decide)]
  exact Row.setAttr_self _ _ (by decide)

theorem Flushed.impact (h : Flushed obj new now s)
    (ht : obj.table = .items ∨ obj.table = .assessments) : s.attrs .impact = obj.attrs .impact := by
  obtain ⟨s₀, n, hscore, -⟩ := h.written
  obtain ⟨p, i, -, -, -, himpact, -⟩ := computeScore_scores hscore ht
  exact h.attrs_of_ne (by decide) (by simp [himpact])

theorem Flushed.multiplied (h : Flushed obj new now s) : s.Multiplied := by
  intro ht
  rw [h.table] at ht
  obtain ⟨s₀, n, hscore, hs⟩ := h.written
  obtain ⟨p, i, hp, hi, hprobability, himpact, hproduct⟩ := computeScore_scores hscore ht
  refine ⟨p, i, hp, hi, ?_, (h.impact ht).trans himpact, ?_⟩
  · rw [h.attrs_of_ne (by decide) (by simp [hprobability]), hprobability]
  · rw [hs]
    split
    · rw [Row.withDefaults_attrs now (by rw [hproduct]; simp)]
      exact hproduct
    · exact hproduct

theorem Flushed.consistent (h : Flushed obj new now s)
    (hdims : obj.table = .items → ∀ a ∈ impactDimensions,
      obj.attrs a = .null ∨ Scaled (obj.attrs a))
    (himpact : obj.table = .items → impactOf obj.attrs = obj.attrs .impact) : s.Consistent := by
  have hkept : obj.table = .items → ∀ a ∈ impactDimensions, s.attrs a = obj.attrs a := by
    intro ht a ha
    refine h.attrs_without_default (impactDimensions_not_scores ha).2 ?_
    rw [ht]
    revert a
    simp [impactDimensions, Table.columnDefaults]
  have hsdims : s.table = .items → ∀ a ∈ impactDimensions,
      s.attrs a = .null ∨ Scaled (s.attrs a) := by
    intro ht a ha
    rw [h.table] at ht
    rw [hkept ht a ha]
    exact hdims ht a ha
  refine ⟨h.multiplied, hsdims, fun ht ↦ (impactOf_eq_iff (hsdims ht)).mp ?_⟩
  rw [h.table] at ht
  refine impactOf_stable (hkept ht) ?_
  rw [himpact ht, h.impact (Or.inl ht)]

end Stored

def Row.patched (r : Row) (payload : Dict) (a : Attr) : Val := (payload a).getD (r.attrs a)

/-- A PATCH that deletes an item leaves it the impact that its dimensions determine: `update_item`
returns before it recalculates the scores. -/
def impactKept : Terms where
  change _ _ _ _ _ := True
  call d _ projectId itemType _ call := ∀ itemId payload baseVersion,
    call = .updateObj itemId payload baseVersion → payload .status = some (.str "deleted") →
    ∀ r ∈ d.rows, r.table = .items → itemWhere projectId itemId (some itemType) r = true →
      (r.version : ℤ) = baseVersion → impactOf (r.patched payload) = r.patched payload .impact

section Invariant

variable {conv : Conv}

theorem Row.Overwrites.impactOf_eq {r w : Row} {val : Parsed} (h : r.Overwrites val w)
    (ht : r.table = .items ∨ r.table = .assessments) : impactOf w.attrs = w.attrs .impact :=
  impactOf_stable (fun a ha ↦ h.attrs a (by revert a; decide)) (h.impact ht)

theorem softDelete_consistent {r s : Row} {now : Time} (hr : r.Consistent)
    (hs : Flushed (r.softDelete now) false now s) : s.Consistent := by
  have hkept : ∀ a ∈ .impact :: impactDimensions, (r.softDelete now).attrs a = r.attrs a :=
    fun a ha ↦ r.softDelete_attrs now (by revert a; decide)
  have htable : (r.softDelete now).table = r.table := (r.keeps_softDelete now).table
  refine hs.consistent (fun ht a ha ↦ ?_) fun ht ↦ ?_
  · rw [hkept a (List.mem_cons_of_mem _ ha)]
    exact hr.dimensions (htable ▸ ht) a ha
  · rw [impactOf_congr hkept, hr.impactOf_eq (htable ▸ ht), hkept .impact List.mem_cons_self]

theorem change_consistent {d : Data} {userId projectId : Uuid} {change : SyncChange} {now : Time}
    {obj s : Row} {new : Bool} (hd : ∀ r ∈ d.rows, r.Consistent)
    (hw : change.Writes conv d userId projectId now obj new) (hs : Flushed obj new now s) :
    s.Consistent := by
  cases hw with
  | @created entityId _ op named missing made =>
    obtain ⟨val, coded, hval, hcode, -, rfl⟩ := createNew_ok_iff.mp made
    have htyped := (parseRecord_typed hval).coded hcode
    have hover := Row.setAll_overwrites (r := blankRow userId projectId change.entity entityId now)
      htyped.fixed htyped.nodup
    rw [blankRow_table] at hover
    refine hs.consistent (fun _ a ha ↦ ?_) fun ht ↦ ?_
    · rw [hover.attrs a (by revert a; decide)]
      exact written_scale htyped ha (blankRow_constrained.dimensions a ha)
    · exact hover.impactOf_eq (Or.inl (hover.keeps.table.symm.trans ht))
  | @updated entityId r val op named found parsed =>
    have hr := hd r (Table.mem_of_find Row.key (fetchObj_some found).1)
    have htyped := parseRecord_typed parsed
    have hover : r.Overwrites val (r.update val now) :=
      Row.update_overwrites htyped.fixed htyped.nodup
    refine hs.consistent (fun ht a ha ↦ ?_) fun ht ↦ ?_
    · rw [hover.attrs a (by revert a; decide)]
      exact written_scale htyped ha (hr.dimensions (hover.keeps.table.symm.trans ht) a ha)
    · exact hover.impactOf_eq (Or.inl (hover.keeps.table.symm.trans ht))
  | deleted op named found =>
    exact softDelete_consistent (hd _ (Table.mem_of_find Row.key (fetchObj_some found).1)) hs

theorem Conforms.dimension {payload : Dict} {minTitle : ℕ} {required : List Attr}
    (h : Conforms (itemFields minTitle) required payload) {a : Attr} (ha : a ∈ impactDimensions)
    {v : Val} (hv : v = .null ∨ Scaled v) :
    (payload a).getD v = .null ∨ Scaled ((payload a).getD v) := by
  have hdeclared : (a, .scale) ∈ itemFields minTitle := by
    revert a
    simp [impactDimensions, itemFields, itemShared]
  cases hset : payload a with
  | none => exact hv
  | some w => exact h.scale hdeclared hset

theorem impactDimensions_declared {a : Attr} (ha : a ∈ impactDimensions) :
    a ∈ itemUpdate ∧ a ∉ editedAttrs ∧ a ≠ .code := by
  revert a
  decide

theorem editItem_consistent {payload : Dict} {changes : List (Attr × Val)} {r s : Row} {now : Time}
    (hbody : Conforms (itemFields 0) [] payload) (hchanges : Changes payload changes)
    (ht : r.table = .items) (hr : r.Consistent)
    (hkept : payload .status = some (.str "deleted") →
      impactOf (r.patched payload) = r.patched payload .impact)
    (hs : Flushed (editItem now changes (r.claim now)) false now s) : s.Consistent := by
  have hdims : ∀ a ∈ impactDimensions, (editItem now changes (r.claim now)).attrs a =
      r.patched payload a := by
    intro a ha
    obtain ⟨hdeclared, hedited, hcode⟩ := impactDimensions_declared ha
    rw [editItem_attrs hchanges hedited, hchanges.values a hdeclared hcode, claim_attrs]
    · rfl
    · rintro rfl
      exact hedited (by decide)
  refine hs.consistent (fun _ a ha ↦ ?_) fun _ ↦ ?_
  · rw [hdims a ha]
    exact hbody.dimension ha (hr.dimensions ht a ha)
  · by_cases hdelete : (Attr.status, Val.str "deleted") ∈ changes
    · have himpact : (editItem now changes (r.claim now)).attrs .impact =
          r.patched payload .impact := by
        unfold editItem
        simp only
        rw [if_pos hdelete, Row.setAttr_attrs_of_ne _ _ (by decide),
          Row.setAttr_attrs_of_ne _ _ (by decide),
          Row.foldl_attrs (fun s f ↦ s.assign_attrs now f (by decide)) hchanges.nodup,
          hchanges.values .impact (by decide) (by decide), claim_attrs _ _ (by decide)]
        rfl
      rw [impactOf_congr (g := r.patched payload) fun a ha ↦ ?_, himpact]
      · exact hkept (hchanges.deletes.mp hdelete)
      · rcases List.mem_cons.mp ha with rfl | ha
        · exact himpact
        · exact hdims a ha
    · have htable : ((changes.foldl (Row.assign now) (r.claim now)).setAttr .updatedAt
          (.time now)).table = .items := by
        have hedit := editItem_table now hchanges (r := r.claim now)
          ((r.keeps_claim now).table.trans ht)
        unfold editItem at hedit
        simp only at hedit
        rw [if_neg hdelete, (keeps_recalculateItemScores _).table] at hedit
        exact hedit
      unfold editItem
      simp only
      rw [if_neg hdelete]
      exact impactOf_recalculated (Or.inl htable)

theorem call_consistent {d : Data} {userId projectId : Uuid} {itemType : Entity}
    {scored : itemType.scored = true} {now : Time} {call : ItemCall} {obj s : Row} {new : Bool}
    (hd : ∀ r ∈ d.rows, r.Consistent) (hbody : call.Conforms)
    (hmeets : impactKept.call d userId projectId itemType now call)
    (hw : call.Writes d userId projectId itemType scored now obj new) (hs : Flushed obj new now s) :
    s.Consistent := by
  cases hw with
  | @createObj payload newId newCode new made =>
    obtain ⟨_, -, made⟩ := bind_ok made
    cases made
    refine hs.consistent (fun _ a ha ↦ ?_) fun ht ↦ impactOf_recalculated ?_
    · obtain ⟨hdeclared, hedited, hcode⟩ := impactDimensions_declared ha
      have hset : ∀ a ∈ impactDimensions,
          a ∉ [Attr.impact, .code, .status, .identifiedAt, .occurredAt] := by decide
      rw [newItem_attrs _ _ _ _ _ _ hdeclared (hset a ha)]
      exact Conforms.dimension hbody ha (Or.inl rfl)
    · refine Or.inl ?_
      rw [Row.setAll_table, Row.setAll_table, Row.setAttr_table]
  | updateObj valid found table selected current =>
    exact editItem_consistent hbody (validatedChanges_changes hbody valid) table (hd _ found)
      (fun hdelete ↦ hmeets _ _ _ rfl hdelete _ found table selected current) hs
  | deleteObj found table selected => exact softDelete_consistent (hd _ found) hs
  | @createAssessment itemId payload baseVersion newId =>
    have htable : (Server.createAssessment itemId userId payload now newId).row.table =
        .assessments := by
      unfold Server.createAssessment
      rw [(keeps_editAssessment payload now _).table, Row.setAll_table]
    refine hs.consistent (fun ht ↦ ?_) fun ht ↦ ?_ <;> rw [htable] at ht <;> cases ht
  | @updateAssessment itemId payload baseVersion newId r found table current =>
    have htable : (editAssessment payload now (r.claim now)).table = .assessments := by
      rw [(keeps_editAssessment payload now _).table, (r.keeps_claim now).table, table]
    refine hs.consistent (fun ht ↦ ?_) fun ht ↦ ?_ <;> rw [htable] at ht <;> cases ht
  | action table =>
    refine hs.consistent (fun ht ↦ ?_) fun ht ↦ ?_ <;> rw [table] at ht <;> cases ht

theorem consistent_invariant : RowInvariant conv impactKept Row.Consistent where
  others hs ht := by
    refine ⟨hs.multiplied, fun h ↦ ?_, fun h ↦ ?_⟩ <;>
      · rw [h] at ht
        rcases ht with ht | ht <;> cases ht
  change hd _ hw hs := change_consistent hd hw hs
  call hd hbody hmeets hw hs := call_consistent hd hbody hmeets hw hs

/-- The listener alone keeps the scores of all rows, whatever the steps are. -/
theorem multiplied_invariant : RowInvariant conv Terms.none Row.Multiplied where
  others hs _ := hs.multiplied
  change _ _ _ hs := hs.multiplied
  call _ _ _ _ hs := hs.multiplied

end Invariant

/-- In every run whose PATCHes keep the impact when they delete, the scores stay consistent. -/
theorem scores_consistent {Digest : Type} [DecidableEq Digest] (conv : Conv)
    (sha : Payload → Digest) {db : Db Digest} (h : ReachableOn conv sha impactKept db) :
    ∀ r ∈ db.data.rows, r.Consistent :=
  consistent_invariant.reachable sha h

section Sample

def newProject : Data :=
  ⟨[], [], fun p ↦ if p = 1 then some 0 else none,
    fun p u ↦ if p = 1 ∧ u = 10 then some .manager else none, [], [10]⟩

def costlyRisk : ItemCall :=
  .createObj (Dict.ofList [(.title, .str "A"), (.probability, .int 2), (.impact, .int 3),
    (.impactCost, .int 4)]) 100 "R-1"

def deletingPatch (impactCost : ℤ) : ItemCall :=
  .updateObj 100 (Dict.ofList [(.status, .str "deleted"), (.impactCost, .int impactCost)]) 1

theorem deletingPatch_conforms : (deletingPatch 4).Conforms ∧ (deletingPatch 5).Conforms := by
  unfold deletingPatch ItemCall.Conforms
  decide

theorem risk_scored : Entity.risk.scored = true := rfl

def committed (call : ItemCall) (now : Time) (d : Data) : Data :=
  (call.run 10 1 .risk risk_scored now d).toOption.getD d

theorem committed_reachable {terms : Terms} {d : Data} {receipts : List (SyncReceipt Val)}
    {call : ItemCall} {now : Time}
    (before : ReachableOn Conv.strict titleDigest terms ⟨d, receipts⟩) (body : call.Conforms)
    (run : call.run 10 1 .risk rfl now d = .ok (committed call now d))
    (meets : terms.call d 10 1 .risk now call) :
    ReachableOn Conv.strict titleDigest terms ⟨committed call now d, receipts⟩ :=
  .item before body run meets

theorem costlyRisk_conforms : costlyRisk.Conforms := by
  unfold costlyRisk ItemCall.Conforms
  decide

theorem deletingPatch_reachable {terms : Terms} {impactCost : ℤ}
    (body : (deletingPatch impactCost).Conforms)
    (run : (deletingPatch impactCost).run 10 1 .risk rfl 6 (committed costlyRisk 5 newProject) =
      .ok (committed (deletingPatch impactCost) 6 (committed costlyRisk 5 newProject)))
    (created : terms.call newProject 10 1 .risk 5 costlyRisk)
    (deleted : terms.call (committed costlyRisk 5 newProject) 10 1 .risk 6
      (deletingPatch impactCost)) :
    ReachableOn Conv.strict titleDigest terms
      ⟨committed (deletingPatch impactCost) 6 (committed costlyRisk 5 newProject), []⟩ :=
  committed_reachable (committed_reachable (.empty rfl) costlyRisk_conforms rfl created) body run
    deleted

theorem costlyRisk_meets : impactKept.call newProject 10 1 .risk 5 costlyRisk := by
  intro itemId payload baseVersion h
  cases h

theorem deletingPatch_meets : impactKept.call (committed costlyRisk 5 newProject) 10 1 .risk 6
    (deletingPatch 4) := by
  intro itemId payload baseVersion h _ r hr _ _ _
  cases h
  revert r
  decide

end Sample

theorem scores_consistent_sample :
    (committed (deletingPatch 4) 6 (committed costlyRisk 5 newProject)).rows ≠ [] ∧
    ∀ r ∈ (committed (deletingPatch 4) 6 (committed costlyRisk 5 newProject)).rows,
      r.Consistent :=
  ⟨List.cons_ne_nil _ _, scores_consistent Conv.strict titleDigest
    (deletingPatch_reachable deletingPatch_conforms.1 rfl costlyRisk_meets deletingPatch_meets)⟩

/-- A PATCH deletes a risk of impact 4 and sets its cost dimension to 5. -/
theorem deleted_item_keeps_stale_impact : ¬ ∀ db : Db Val,
    ReachableOn Conv.strict titleDigest Terms.none db → ∀ r ∈ db.data.rows, r.Consistent := by
  intro h
  have hreach := @deletingPatch_reachable Terms.none 5 deletingPatch_conforms.2 rfl trivial trivial
  obtain ⟨i, hi, hgreatest⟩ := (h _ hreach _ List.mem_cons_self).impact rfl
    ⟨.impactCost, by decide, by decide⟩
  have hfour : i = 4 := (Val.int.inj hi).symm
  have hfive : (5 : ℤ) ≤ i := hgreatest.2 ⟨.impactCost, by decide, rfl⟩
  omega

end RiskApp.Server
