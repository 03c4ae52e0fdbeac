import RiskApp.Server.Batching
import RiskApp.Server.Constraints
import RiskApp.Server.ExactlyOnce

namespace RiskApp.Server

open Lib Lib.Result

section Placed

variable {conv : Conv} {d : Data} {entity : Entity} {val : Parsed} {userId projectId : Uuid}

theorem written_itemId {r : Row} (ht : r.table = .assessments) :
    r.written val .itemId = (val.find .itemId).getD (r.attrs .itemId) := by
  unfold Row.written
  rw [clientFields_find (by rw [ht]; decide) (by decide)]

theorem projectOf_update {r obj : Row} {record : Dict} {now : Time}
    (htable : r.table = entity.table) (hr : d.projectOf r = some projectId)
    (hval : val.Typed entity) (hw : r.Overwrites val obj)
    (h : updateExisting conv d projectId entity r record now = .ok obj) :
    (Orphaned r val → d.projectOf obj = none) ∧
      (¬ Orphaned r val → d.projectOf obj = some projectId) := by
  constructor
  · rintro ⟨ht, hnull⟩
    have hitem : obj.attrs .itemId = .null := by
      rw [hw.attrs _ (by decide), written_itemId ht, hnull]
      rfl
    simp [Data.projectOf, hw.keeps.table, ht, hitem]
  · intro ho
    rcases updateExisting_placed htable hr h with hp | ⟨ht, hno⟩
    · exact hp
    · exfalso
      have ht : r.table = .assessments := hw.keeps.table ▸ ht
      have hitem : obj.attrs .itemId = (val.find .itemId).getD (r.attrs .itemId) := by
        rw [hw.attrs _ (by decide), written_itemId ht]
      cases hf : val.find .itemId with
      | none =>
        obtain ⟨hne, -⟩ | ⟨-, itemId, hi, -⟩ := Data.projectOf_eq hr
        · exact hne ht
        · rw [hf] at hitem
          exact hno itemId (hitem.trans hi)
      | some v =>
        rcases hval.item v hf with rfl | ⟨u, rfl⟩
        · exact ho ⟨ht, hf⟩
        · rw [hf] at hitem
          exact hno u hitem

def blankRow (userId projectId : Uuid) (entity : Entity) (entityId : Uuid) (now : Time) : Row :=
  let common := [(Attr.updatedAt, Val.time now), (.createdAt, .time now)] ++
    (if entity = .assessment then []
      else [(.projectId, .uuid projectId), (.createdBy, .uuid userId)]) ++ defaults entity
  let common := common ++ if entity = .assessment then [(.assessorUserId, .uuid userId)] else []
  (⟨entity.table, entityId, 1, 0, fun _ ↦ .null⟩ : Row).setAll common

variable {entityId : Uuid} {now : Time}

theorem blankRow_table :
    (blankRow userId projectId entity entityId now).table = entity.table := by
  cases entity <;> rfl

theorem blankRow_constrained : (blankRow userId projectId entity entityId now).Constrained := by
  refine ⟨by cases entity <;> rfl, fun ht a ha ↦ ⟨1, rfl, ?_⟩, fun a ha ↦ Or.inl ?_⟩
  · cases entity with
    | action => rcases ht with ht | ht <;> cases ht
    | helpdeskTicket => rcases ht with ht | ht <;> cases ht
    | _ =>
      rcases List.mem_cons.mp ha with rfl | ha
      · rfl
      · obtain rfl := List.mem_singleton.mp ha
        rfl
  · cases entity <;> revert a <;> simp [impactDimensions] <;> exact ⟨rfl, rfl, rfl, rfl⟩

theorem blankRow_project (h : entity ≠ .assessment) :
    (blankRow userId projectId entity entityId now).attrs .projectId = .uuid projectId := by
  cases entity with
  | assessment => exact absurd rfl h
  | _ => rfl

theorem projectOf_create {obj : Row} (hval : val.Typed entity)
    (hw : (blankRow userId projectId entity entityId now).Overwrites val obj)
    (hrel : validateRelationships conv d projectId entity val none = .ok ()) :
    ¬ Orphaned (blankRow userId projectId entity entityId now) val ∧
      d.projectOf obj = some projectId := by
  have htable : obj.table = entity.table := hw.keeps.table.trans blankRow_table
  by_cases hentity : entity = .assessment
  · subst hentity
    have hparent : validateParent conv d projectId val none = .ok () := hrel
    have ht : (blankRow userId projectId .assessment entityId now).table = .assessments := rfl
    have hitem : obj.attrs .itemId = (val.find .itemId).getD .null := by
      rw [hw.attrs _ (by decide), written_itemId ht]
      rfl
    have hget : ∃ u, val.find .itemId = some (.uuid u) := by
      have hmissing : ¬ (val.get .itemId).truthy = true →
          validateParent conv d projectId val none ≠ .ok () := by
        intro hfalse hok
        unfold validateParent at hok
        simp only [hfalse] at hok
        cases hok
      cases hf : val.find .itemId with
      | none => exact absurd hparent (hmissing (by simp [Parsed.get, hf, Val.truthy]))
      | some v =>
        rcases hval.item v hf with rfl | ⟨u, rfl⟩
        · exact absurd hparent (hmissing (by simp [Parsed.get, hf, Val.truthy]))
        · exact ⟨u, rfl⟩
    obtain ⟨u, hu⟩ := hget
    refine ⟨fun ho ↦ ?_, ?_⟩
    · have hnull := ho.2
      rw [hu] at hnull
      cases hnull
    · rw [hu] at hitem
      rw [Data.projectOf_assessment (hw.keeps.table.trans ht) hitem]
      exact validateParent_ok hparent (by rw [Parsed.get, hu]; rfl)
  · have ht : entity.table ≠ .assessments := by
      cases entity with
      | assessment => exact absurd rfl hentity
      | _ => decide
    refine ⟨fun ho ↦ ht (blankRow_table.symm.trans ho.1), ?_⟩
    have hproject : obj.attrs .projectId = .uuid projectId :=
      (hw.keeps.fixed .projectId (by decide)).trans (blankRow_project hentity)
    have hown : obj.ownProject = some projectId := by
      unfold Row.ownProject
      rw [hproject]
    unfold Data.projectOf
    split
    · rename_i hobj
      exact absurd (htable.symm.trans hobj) ht
    · exact hown

end Placed

section Doomed

variable (conv : Conv) (d : Data) (userId projectId : Uuid)

def DoomedCreate (entity : Entity) (entityId : Uuid) (val : Parsed) (now : Time) : Prop :=
  withItemCode conv d projectId entity val = .error .unexpected ∨
    ∃ coded, withItemCode conv d projectId entity val = .ok coded ∧
      validateRelationships conv d projectId entity coded none = .ok () ∧
      Unwritable (blankRow userId projectId entity entityId now) coded

def DoomedUpdate (change : SyncChange) (r : Row) (entityId : Uuid) (val : Parsed) (now : Time) :
    Prop :=
  ∃ claimed, claimExisting d r change.entity entityId projectId userId change.baseVersion now =
      .ok claimed ∧
    validateRelationships conv claimed projectId change.entity val (some r) = .ok () ∧
    Unwritable r val

/-- An upsert that passes every check of the engine and that no flush lets through. -/
def Doomed (role : Role) (change : SyncChange) (now : Time) : Prop :=
  (requiredRole conv d projectId change).rank ≤ role.rank ∧ change.op = .upsert ∧
    ∃ entityId val, parseUuid conv "record.id" (change.record.get .id) = .ok entityId ∧
      parseRecord conv change.entity change.record = .ok val ∧
      match fetchObj d change.entity entityId projectId with
      | none => DoomedCreate conv d userId projectId change.entity entityId val now
      | some r => DoomedUpdate conv d userId projectId change r entityId val now

end Doomed

section Unexpected

variable {conv : Conv} {d : Data} {userId projectId : Uuid}

theorem ne_unexpected {α : Type} {x : Except PushError α} (h : Raises PushError.BadRequest x) :
    x ≠ .error .unexpected :=
  fun he ↦ h _ he

def PushError.Answered : PushError → Prop
  | .conflict reason .. => reason ≠ "internal_error"
  | .unexpected => False
  | _ => True

theorem claimExisting_answered (r : Row) (entity : Entity) (entityId : Uuid) (bv : Option ℤ)
    (now : Time) : Raises PushError.Answered
      (claimExisting d r entity entityId projectId userId bv now) := by
  refine (claimExisting_unclaimed d userId projectId r entity entityId bv now).mono fun e he ↦ ?_
  cases e with
  | conflict reason =>
    rintro rfl
    revert he
    exact (by decide : ¬ "internal_error" ∈
      ["type_mismatch", "base_version_required", "version_mismatch"])
  | http => trivial
  | _ => cases he

theorem claimExisting_ne_unexpected {r : Row} {entity : Entity} {entityId : Uuid}
    {bv : Option ℤ} {now : Time} :
    claimExisting d r entity entityId projectId userId bv now ≠ .error .unexpected :=
  fun h ↦ claimExisting_answered r entity entityId bv now _ h

theorem applyChange_answered (change : SyncChange) (now : Time) :
    Raises (fun e ↦ e ≠ .unexpected → e.Answered)
      (applyChange conv d userId projectId change now) := by
  refine applyChange_raises (fun e he hne ↦ ?_) fun r entityId _ ↦
    (claimExisting_answered r _ entityId _ now).mono fun e he _ ↦ he
  cases e with
  | conflict => cases he
  | unexpected => exact absurd rfl hne
  | _ => trivial

theorem createNew_ok_iff {entity : Entity} {entityId : Uuid} {record : Dict} {now : Time}
    {obj : Row} :
    createNew conv d userId projectId entity entityId record now = .ok obj ↔
      ∃ val coded, parseRecord conv entity record = .ok val ∧
        withItemCode conv d projectId entity val = .ok coded ∧
        validateRelationships conv d projectId entity coded none = .ok () ∧
        obj = recalculateItemScores ((blankRow userId projectId entity entityId now).setAll
          (clientFields entity.table coded)) := by
  constructor
  · intro h
    obtain ⟨val, hval, h⟩ := bind_ok h
    obtain ⟨coded, hcode, h⟩ := bind_ok h
    obtain ⟨_, hrel, h⟩ := bind_ok h
    cases h
    exact ⟨val, coded, hval, hcode, hrel, rfl⟩
  · rintro ⟨val, coded, hval, hcode, hrel, rfl⟩
    unfold createNew
    rw [hval]
    simp only [bind, Except.bind, hcode, hrel]
    rfl

theorem createNew_unexpected {entity : Entity} {entityId : Uuid} {record : Dict} {now : Time} :
    createNew conv d userId projectId entity entityId record now = .error .unexpected ↔
      ∃ val, parseRecord conv entity record = .ok val ∧
        withItemCode conv d projectId entity val = .error .unexpected := by
  unfold createNew
  simp only [bind_eq_error]
  constructor
  · rintro (h | ⟨val, hval, h | ⟨coded, -, h | ⟨u, -, h⟩⟩⟩)
    · exact absurd h (ne_unexpected (parseRecord_badRequest conv _ _))
    · exact ⟨val, hval, h⟩
    · exact absurd h (ne_unexpected (validateRelationships_badRequest conv d _ _ _ _))
    · cases h
  · rintro ⟨val, hval, h⟩
    exact Or.inr ⟨val, hval, Or.inl h⟩

section Change

variable {change : SyncChange} {entityId : Uuid} {now : Time}

theorem claimed_project {r : Row} {claimed : Data}
    (hr : fetchObj d change.entity entityId projectId = some r)
    (hclaim : claimExisting d r change.entity entityId projectId userId change.baseVersion now =
      .ok claimed) :
    r ∈ d.rows ∧ r.table = change.entity.table ∧ claimed.projectOf r = some projectId ∧
      claimed.lastSequence = d.lastSequence := by
  obtain ⟨hrow, hproject⟩ := fetchObj_some hr
  have hkey : r.key = (change.entity.table, entityId) := Table.key_of_find Row.key hrow
  obtain ⟨-, -, -, rfl⟩ := claimExisting_ok hr hclaim
  refine ⟨Table.mem_of_find Row.key hrow, congrArg Prod.fst hkey, ?_, rfl⟩
  rw [Data.projectOf_replace (hkey.symm ▸ hrow) (r.keeps_claim now)]
  exact hproject

theorem update_unexpected (hd : ∀ r ∈ d.rows, r.Constrained)
    (hseq : (d.lastSequence projectId).isSome = true) {r : Row} {claimed : Data}
    (hr : fetchObj d change.entity entityId projectId = some r)
    (hclaim : claimExisting d r change.entity entityId projectId userId change.baseVersion now =
      .ok claimed) {val : Parsed} (hval : parseRecord conv change.entity change.record = .ok val)
    (hrel : validateRelationships conv claimed projectId change.entity val (some r) = .ok ())
    {write : Write} (hwrite : write.obj = r.update val now) :
    flush claimed now (some write) = .error .unexpected ↔ Unwritable r val := by
  obtain ⟨hmem, htable, hproject, hlast⟩ := claimed_project hr hclaim
  have htyped := parseRecord_typed hval
  have hover : r.Overwrites val (r.update val now) :=
    Row.update_overwrites htyped.fixed htyped.nodup
  have hupdate : updateExisting conv claimed projectId change.entity r change.record now =
      .ok (r.update val now) := by
    unfold updateExisting
    rw [hval]
    simp only [bind, Except.bind, hrel]
    rfl
  obtain ⟨horphan, hplaced⟩ := projectOf_update htable hproject htyped hover hupdate
  refine flush_unwritable (hd r hmem) htyped htable (hwrite ▸ hover) (fun ho ↦ ?_)
    (hwrite ▸ horphan) (hwrite ▸ hplaced) (hlast ▸ hseq)
  rw [hwrite]
  exact Row.update_fits (hd r hmem).fits ho now

theorem create_unexpected (hseq : (d.lastSequence projectId).isSome = true) {val coded : Parsed}
    (hval : parseRecord conv change.entity change.record = .ok val)
    (hcode : withItemCode conv d projectId change.entity val = .ok coded)
    (hrel : validateRelationships conv d projectId change.entity coded none = .ok ())
    {write : Write}
    (hwrite : write.obj = recalculateItemScores
      ((blankRow userId projectId change.entity entityId now).setAll
        (clientFields change.entity.table coded))) :
    flush d now (some write) = .error .unexpected ↔
      Unwritable (blankRow userId projectId change.entity entityId now) coded := by
  have htyped := (parseRecord_typed hval).coded hcode
  have hover : (blankRow userId projectId change.entity entityId now).Overwrites coded
      write.obj := by
    have h := Row.setAll_overwrites (r := blankRow userId projectId change.entity entityId now)
      htyped.fixed htyped.nodup
    rw [blankRow_table] at h
    exact hwrite ▸ h
  obtain ⟨hnot, hplaced⟩ := projectOf_create htyped hover hrel
  refine flush_unwritable blankRow_constrained htyped blankRow_table hover (fun ho ↦ ?_)
    (fun h ↦ absurd h hnot) (fun _ ↦ hplaced) hseq
  have hfits := Row.setAll_fits blankRow_constrained.fits ho
  rw [blankRow_table] at hfits
  exact hwrite ▸ hfits

theorem delete_ne_unexpected (hd : ∀ r ∈ d.rows, r.Constrained)
    (hseq : (d.lastSequence projectId).isSome = true) {r : Row} {claimed : Data}
    (hr : fetchObj d change.entity entityId projectId = some r)
    (hclaim : claimExisting d r change.entity entityId projectId userId change.baseVersion now =
      .ok claimed) {write : Write} (hwrite : write.obj = r.softDelete now) :
    flush claimed now (some write) ≠ .error .unexpected := by
  obtain ⟨hmem, -, hproject, hlast⟩ := claimed_project hr hclaim
  intro h
  rcases (flush_unexpected _ _ _).mp h with h | ⟨s, hs, h⟩
  · obtain ⟨ht, hno, -⟩ := computeScore_eq_error.mp h
    rw [hwrite] at ht hno
    rw [r.softDelete_attrs now (by decide), r.softDelete_attrs now (by decide)] at hno
    exact hno ((hd r hmem).scaled ((r.keeps_softDelete now).table ▸ ht))
  · rw [hwrite] at hs
    rcases h with h | h
    · rw [← claimed.projectOf_naive, claimed.projectOf_congr (computeScore_ok hs),
        Data.projectOf_softDelete, hproject, Option.bind_some, hlast] at h
      rw [h] at hseq
      cases hseq
    · rw [computeScore_fits hs (Row.softDelete_fits (hd r hmem).fits now)] at h
      cases h

theorem applyUpsert_create_unexpected (hseq : (d.lastSequence projectId).isSome = true)
    (hid : parseUuid conv "record.id" (change.record.get .id) = .ok entityId)
    (hr : fetchObj d change.entity entityId projectId = none) :
    (applyUpsert conv d userId projectId change now = .error .unexpected ∨
      ∃ x, applyUpsert conv d userId projectId change now = .ok x ∧
        flush x.1 now x.2.2 = .error .unexpected) ↔
      ∃ val, parseRecord conv change.entity change.record = .ok val ∧
        DoomedCreate conv d userId projectId change.entity entityId val now := by
  simp only [applyUpsert, hid, hr, bind, Except.bind, pure, Except.pure]
  cases hnew : createNew conv d userId projectId change.entity entityId change.record now with
  | error e =>
    constructor
    · rintro (h | ⟨x, hx, -⟩)
      · cases h
        obtain ⟨val, hval, hcode⟩ := createNew_unexpected.mp hnew
        exact ⟨val, hval, Or.inl hcode⟩
      · cases hx
    · rintro ⟨val, hval, hcode | ⟨coded, hcode, hrel, -⟩⟩
      · rw [createNew_unexpected.mpr ⟨val, hval, hcode⟩] at hnew
        cases hnew
        exact Or.inl rfl
      · rw [createNew_ok_iff.mpr ⟨val, coded, hval, hcode, hrel, rfl⟩] at hnew
        cases hnew
  | ok obj =>
    obtain ⟨val, coded, hval, hcode, hrel, hobj⟩ := createNew_ok_iff.mp hnew
    constructor
    · rintro (h | ⟨x, hx, h⟩)
      · cases h
      · cases hx
        exact ⟨val, hval, Or.inr ⟨coded, hcode, hrel,
          (create_unexpected hseq hval hcode hrel hobj).mp h⟩⟩
    · rintro ⟨val', hval', hdoomed⟩
      cases hval.symm.trans hval'
      right
      refine ⟨_, rfl, (create_unexpected hseq hval hcode hrel hobj).mpr ?_⟩
      rcases hdoomed with h | ⟨coded', hcode', -, h⟩
      · cases hcode.symm.trans h
      · cases hcode.symm.trans hcode'
        exact h

theorem applyUpsert_update_unexpected (hd : ∀ r ∈ d.rows, r.Constrained)
    (hseq : (d.lastSequence projectId).isSome = true)
    (hid : parseUuid conv "record.id" (change.record.get .id) = .ok entityId) {r : Row}
    (hr : fetchObj d change.entity entityId projectId = some r) :
    (applyUpsert conv d userId projectId change now = .error .unexpected ∨
      ∃ x, applyUpsert conv d userId projectId change now = .ok x ∧
        flush x.1 now x.2.2 = .error .unexpected) ↔
      ∃ val, parseRecord conv change.entity change.record = .ok val ∧
        DoomedUpdate conv d userId projectId change r entityId val now := by
  have hparse := ne_unexpected (parseRecord_badRequest conv change.entity change.record)
  simp only [applyUpsert, hid, hr, bind, Except.bind, pure, Except.pure]
  cases hclaim : claimExisting d r change.entity entityId projectId userId
      change.baseVersion now with
  | error e =>
    have he : e ≠ .unexpected := by
      rintro rfl
      exact claimExisting_ne_unexpected hclaim
    refine iff_of_false (by simp [he]) ?_
    rintro ⟨val, -, claimed, hok, -⟩
    cases hclaim.symm.trans hok
  | ok claimed =>
    simp only [updateExisting, bind, Except.bind, pure, Except.pure]
    cases hval : parseRecord conv change.entity change.record with
    | error e =>
      have he : e ≠ .unexpected := by
        rintro rfl
        exact hparse hval
      refine iff_of_false (by simp [he]) ?_
      rintro ⟨val, hok, -⟩
      cases hok
    | ok val =>
      simp only
      cases hrel : validateRelationships conv claimed projectId change.entity val
          (some r) with
      | error e =>
        have he : e ≠ .unexpected := by
          rintro rfl
          exact ne_unexpected (validateRelationships_badRequest conv claimed _ _ _ _) hrel
        refine iff_of_false (by simp [he]) ?_
        rintro ⟨val', hok, claimed', hok', hrel', -⟩
        cases hok
        cases hclaim.symm.trans hok'
        cases hrel.symm.trans hrel'
      | ok u =>
        constructor
        · rintro (h | ⟨x, hx, h⟩)
          · cases h
          · cases hx
            exact ⟨val, rfl, claimed, hclaim, hrel,
              (update_unexpected hd hseq hr hclaim hval hrel rfl).mp h⟩
        · rintro ⟨val', hok, claimed', hok', hrel', hdoomed⟩
          cases hok
          exact Or.inr ⟨_, rfl,
            (update_unexpected hd hseq hr hclaim hval hrel rfl).mpr hdoomed⟩

/-- A change fails unexpectedly exactly when no flush can write what it asks for. -/
theorem applyChange_unexpected (conv : Conv) (userId : Uuid) (change : SyncChange) (now : Time)
    (hd : ∀ r ∈ d.rows, r.Constrained)
    (hseq : (d.lastSequence projectId).isSome = true) :
    applyChange conv d userId projectId change now = .error .unexpected ↔
      change.op = .upsert ∧ ∃ entityId val,
        parseUuid conv "record.id" (change.record.get .id) = .ok entityId ∧
        parseRecord conv change.entity change.record = .ok val ∧
        match fetchObj d change.entity entityId projectId with
        | none => DoomedCreate conv d userId projectId change.entity entityId val now
        | some r => DoomedUpdate conv d userId projectId change r entityId val now := by
  have hsplit : applyChange conv d userId projectId change now = .error .unexpected ↔
      applyOp conv d userId projectId change now = .error .unexpected ∨
        ∃ x, applyOp conv d userId projectId change now = .ok x ∧
          flush x.1 now x.2.2 = .error .unexpected := by
    unfold applyChange
    rw [bind_eq_error]
    refine or_congr_right (exists_congr fun x ↦ and_congr_right fun _ ↦ ?_)
    rw [bind_eq_error]
    refine ⟨fun h ↦ h.resolve_right ?_, Or.inl⟩
    rintro ⟨a, -, h⟩
    cases h
  rw [hsplit]
  unfold applyOp
  cases hid : parseUuid conv "record.id" (change.record.get .id) with
  | error e =>
    have he : e ≠ .unexpected := by
      rintro rfl
      exact ne_unexpected (parseUuid_badRequest conv _ _) hid
    refine iff_of_false ?_ (by simp)
    cases change.op with
    | upsert => simp [applyUpsert, hid, bind, Except.bind, he]
    | delete => simp [applyDelete, hid, bind, Except.bind, he]
  | ok entityId =>
    cases hop : change.op with
    | delete =>
      refine iff_of_false ?_ (by simp)
      cases hr : fetchObj d change.entity entityId projectId with
      | none => simp [applyDelete, hid, hr, bind, Except.bind, pure, Except.pure, flush]
      | some r =>
        cases hclaim : claimExisting d r change.entity entityId projectId userId
            change.baseVersion now with
        | error e =>
          have he : e ≠ .unexpected := by
            rintro rfl
            exact claimExisting_ne_unexpected hclaim
          simp [applyDelete, hid, hr, hclaim, bind, Except.bind, he]
        | ok claimed =>
          simp only [applyDelete, hid, hr, hclaim, bind, Except.bind, pure, Except.pure]
          rintro (h | ⟨x, hx, h⟩)
          · cases h
          · cases hx
            exact delete_ne_unexpected hd hseq hr hclaim rfl h
    | upsert =>
      simp only [true_and, Except.ok.injEq, exists_and_left, exists_eq_left']
      cases hr : fetchObj d change.entity entityId projectId with
      | none => exact applyUpsert_create_unexpected hseq hid hr
      | some r => exact applyUpsert_update_unexpected hd hseq hid hr

end Change

end Unexpected

section Kept

variable {d d' : Data} {now : Time}

theorem computeScore_scaled {r s : Row} (h : computeScore r = .ok s)
    (ht : r.table = .items ∨ r.table = .assessments) :
    Scaled (r.attrs .probability) ∧ Scaled (r.attrs .impact) := by
  refine Classical.byContradiction fun hno ↦ ?_
  rw [computeScore_eq_error.mpr ⟨ht, hno, rfl⟩] at h
  cases h

/-- What the listeners and the column checks have let through is constrained again. -/
theorem beforeWrite_constrained {r s : Row} (h : beforeWrite d r = .ok (d', s))
    (hfits : s.dataFits = true)
    (hdims : ∀ a ∈ impactDimensions, r.attrs a = .null ∨ Scaled (r.attrs a)) : s.Constrained := by
  obtain ⟨p, n, -, -, hstamped, -⟩ := beforeWrite_ok h
  obtain ⟨s', hs', -⟩ := bind_ok h
  have hkept : ∀ a ∈ .probability :: .impact :: impactDimensions, a ∉ flushedAttrs := by decide
  refine ⟨hfits, fun ht a ha ↦ ?_, fun a ha ↦ ?_⟩
  · obtain ⟨hprob, himpact⟩ := computeScore_scaled hs' (hstamped.table ▸ ht)
    rcases List.mem_cons.mp ha with rfl | ha
    · rw [hstamped.attrs _ (by decide)]
      exact hprob
    · obtain rfl := List.mem_singleton.mp ha
      rw [hstamped.attrs _ (by decide)]
      exact himpact
  · rw [hstamped.attrs a (hkept a (List.mem_cons_of_mem _ (List.mem_cons_of_mem _ ha)))]
    exact hdims a ha

theorem Row.Constrained.withDefaults {r : Row} (h : r.Constrained) :
    (r.withDefaults now).Constrained := by
  refine ⟨(Row.withDefaults_fits now).trans h.fits, fun ht a ha ↦ ?_, fun a ha ↦ ?_⟩
  · obtain ⟨n, hn, hv⟩ := h.scores ht a ha
    exact ⟨n, hn, by rw [Row.withDefaults_attrs now (by rw [hv]; simp), hv]⟩
  · by_cases hnull : r.attrs a = .null
    · left
      have hdefault : ∀ a ∈ impactDimensions, fieldOf (r.table.columnDefaults now) a = none := by
        cases r.table <;> simp [impactDimensions, fieldOf, Table.find, Table.columnDefaults]
      have hvalue : (r.withDefaults now).attrs a =
          (fieldOf (r.table.columnDefaults now) a).getD .null := if_pos hnull
      rw [hvalue, hdefault a ha]
      rfl
    · rw [Row.withDefaults_attrs now hnull]
      exact h.dimensions a ha

theorem Row.Constrained.claim {r : Row} (h : r.Constrained) : (r.claim now).Constrained := by
  have hattrs : ∀ a, a ≠ .updatedAt → (r.claim now).attrs a = r.attrs a := fun a ha ↦
    r.setAttr_attrs_of_ne (.time now) ha
  have htable : (r.claim now).table = r.table := (r.keeps_claim now).table
  refine ⟨Row.setAttr_fits h.fits rfl, fun ht a ha ↦ ?_, fun a ha ↦ ?_⟩
  · rw [hattrs a (by rintro rfl; revert ha; decide)]
    exact h.scores (htable ▸ ht) a ha
  · rw [hattrs a (by rintro rfl; revert ha; decide)]
    exact h.dimensions a ha

theorem flush_constrained (hd : ∀ r ∈ d.rows, r.Constrained) {write : Write}
    (hdims : ∀ a ∈ impactDimensions,
      write.obj.attrs a = .null ∨ Scaled (write.obj.attrs a))
    (h : flush d now (some write) = .ok d') : ∀ r ∈ d'.rows, r.Constrained := by
  obtain ⟨stored, hstored, rfl⟩ := map_ok h
  split at hstored
  · obtain ⟨⟨d₁, s⟩, hwrite, h⟩ := bind_ok hstored
    obtain ⟨_, hfits, h⟩ := bind_ok h
    obtain ⟨_, -, h⟩ := bind_ok h
    cases h
    obtain ⟨p, n, -, -, -, hdata⟩ := beforeWrite_ok hwrite
    have hrows : d₁.rows = d.rows := by rw [hdata]
    have hfits := require_ok hfits
    rw [Row.withDefaults_fits] at hfits
    intro r hr
    rcases List.mem_append.mp hr with hr | hr
    · exact hd r (hrows ▸ hr)
    · obtain rfl := List.mem_singleton.mp hr
      exact (beforeWrite_constrained hwrite hfits hdims).withDefaults
  · obtain ⟨⟨d₁, s⟩, hwrite, h⟩ := bind_ok hstored
    obtain ⟨_, hfits, h⟩ := bind_ok h
    obtain ⟨_, -, h⟩ := bind_ok h
    cases h
    obtain ⟨p, n, -, -, -, hdata⟩ := beforeWrite_ok hwrite
    have hrows : d₁.rows = d.rows := by rw [hdata]
    intro r hr
    rcases Table.mem_replace Row.key hr with rfl | hr
    · exact beforeWrite_constrained hwrite (require_ok hfits) hdims
    · exact hd r (hrows ▸ hr.1)

variable {conv : Conv} {userId projectId : Uuid} {change : SyncChange}

theorem claim_constrained (hd : ∀ r ∈ d.rows, r.Constrained) {r : Row} {entityId : Uuid}
    {bv : Option ℤ} (hr : fetchObj d change.entity entityId projectId = some r)
    (h : claimExisting d r change.entity entityId projectId userId bv now = .ok d') :
    r.Constrained ∧ ∀ s ∈ d'.rows, s.Constrained := by
  have hmem := hd r (Table.mem_of_find Row.key (fetchObj_some hr).1)
  obtain ⟨-, -, -, rfl⟩ := claimExisting_ok hr h
  refine ⟨hmem, fun s hs ↦ ?_⟩
  rcases Table.mem_replace Row.key hs with rfl | hs
  · exact hmem.claim
  · exact hd s hs.1

/-- An applied change leaves the stored rows constrained. -/
theorem applyChange_constrained (hd : ∀ r ∈ d.rows, r.Constrained) {entityId : Uuid}
    (h : applyChange conv d userId projectId change now = .ok (d', entityId)) :
    ∀ r ∈ d'.rows, r.Constrained := by
  obtain ⟨⟨d₁, id, write⟩, happly, h⟩ := bind_ok h
  obtain ⟨d₂, hflush, h⟩ := bind_ok h
  cases h
  unfold applyOp at happly
  split at happly
  · obtain ⟨i, -, happly⟩ := bind_ok happly
    simp only at happly
    split at happly
    · obtain ⟨obj, hnew, happly⟩ := bind_ok happly
      cases happly
      refine flush_constrained hd (fun a ha ↦ ?_) hflush
      obtain ⟨val, coded, hval, hcode, -, rfl⟩ := createNew_ok_iff.mp hnew
      have htyped := (parseRecord_typed hval).coded hcode
      have hover := Row.setAll_overwrites
        (r := blankRow userId projectId change.entity entityId now) htyped.fixed htyped.nodup
      rw [blankRow_table] at hover
      rw [hover.attrs a (by revert a; decide)]
      exact written_dimension blankRow_constrained htyped ha
    · rename_i r hr
      obtain ⟨claimed, hclaim, happly⟩ := bind_ok happly
      obtain ⟨obj, hupdate, happly⟩ := bind_ok happly
      cases happly
      obtain ⟨hmem, hclaimed⟩ := claim_constrained hd hr hclaim
      refine flush_constrained hclaimed (fun a ha ↦ ?_) hflush
      obtain ⟨val, hval, hupdate⟩ := bind_ok hupdate
      obtain ⟨_, -, hupdate⟩ := bind_ok hupdate
      cases hupdate
      have htyped := parseRecord_typed hval
      have hover : r.Overwrites val (r.update val now) :=
        Row.update_overwrites htyped.fixed htyped.nodup
      rw [hover.attrs a (by revert a; decide)]
      exact written_dimension hmem htyped ha
  · obtain ⟨i, -, happly⟩ := bind_ok happly
    simp only at happly
    split at happly
    · cases happly
      cases hflush
      exact hd
    · rename_i r hr
      obtain ⟨claimed, hclaim, happly⟩ := bind_ok happly
      cases happly
      obtain ⟨hmem, hclaimed⟩ := claim_constrained hd hr hclaim
      refine flush_constrained hclaimed (fun a ha ↦ ?_) hflush
      rw [r.softDelete_attrs now (by revert a; decide)]
      exact hmem.dimensions a ha

def Outcome.Poisoned (o : Outcome) : Prop :=
  o.response.reason = some "internal_error" ∧ o.response.retryable = some true ∧ o.stored = false

def Outcome.Settled (o : Outcome) : Prop :=
  o.response.reason ≠ some "internal_error" ∧ o.response.retryable ≠ some true ∧ o.stored = true

theorem processNewPushChange_doomed (conv : Conv) (userId : Uuid) (role : Role)
    (change : SyncChange) (now : Time) (hd : ∀ r ∈ d.rows, r.Constrained)
    (hseq : (d.lastSequence projectId).isSome = true) :
    let o := processNewPushChange conv d userId projectId role change now
    (Doomed conv d userId projectId role change now → o.Poisoned) ∧
      (¬ Doomed conv d userId projectId role change now → o.Settled) ∧
      ∀ r ∈ o.data.rows, r.Constrained := by
  have hfail := applyChange_unexpected conv userId change now hd hseq
  intro o
  have ho : o = processNewPushChange conv d userId projectId role change now := rfl
  unfold processNewPushChange at ho
  unfold Doomed
  split at ho
  · rename_i hrank
    rw [ho]
    refine ⟨fun h ↦ absurd h.1 (by omega), fun _ ↦ ⟨?_, ?_, rfl⟩, hd⟩ <;> simp [rejectPushChange]
  · rename_i hrank
    split at ho
    · rename_i e he
      rw [he] at hfail
      have hfinal := applyChange_final conv d userId projectId change now e he
      rw [ho]
      refine ⟨fun h ↦ ?_, fun h ↦ ?_, by rw [(failedOutcome_data conv d change e).1]; exact hd⟩
      · cases hfail.mpr h.2
        exact ⟨rfl, rfl, rfl⟩
      · have hne : e ≠ .unexpected := by
          rintro rfl
          exact h ⟨by omega, hfail.mp rfl⟩
        cases e with
        | conflict reason =>
          have hreason : reason ≠ "internal_error" :=
            applyChange_answered change now _ he hne
          refine ⟨?_, ?_, rfl⟩ <;> simp [failedOutcome, hreason]
        | http statusCode detail =>
          have hclass : (classifyHttpFailure statusCode).2 = false := hfinal
          refine ⟨?_, ?_, ?_⟩ <;> simp [failedOutcome, rejectPushChange, hclass]
        | integrity => refine ⟨?_, ?_, rfl⟩ <;> simp [failedOutcome, rejectPushChange]
        | unexpected => exact absurd rfl hne
    · rename_i d' entityId hok
      rw [ho]
      refine ⟨fun h ↦ ?_, fun _ ↦ ⟨?_, ?_, rfl⟩, applyChange_constrained hd hok⟩
      · rw [hfail.mpr h.2] at hok
        cases hok
      · simp [acceptedResponse]
      · simp [acceptedResponse]

end Kept

def Response.Final (response : Response) : Prop :=
  response.reason ≠ some "internal_error" ∧ response.retryable ≠ some true

/-- What the checks of the database and the answers of earlier pushes leave stored. -/
structure Db.Sound {Digest : Type} (db : Db Digest) : Prop where
  rows : ∀ r ∈ db.data.rows, r.Constrained
  receipts : ∀ receipt ∈ db.receipts, receipt.response.Final

namespace PushContext

variable {Digest : Type} [DecidableEq Digest] (conv : Conv) (sha : Payload → Digest)

/-- No change that is new when its turn comes is doomed on the data of that moment. -/
def NoneDoomed (ctx : PushContext Digest) : List (SyncChange × Time) → Prop
  | [] => True
  | c :: cs =>
    (ctx.seen c.1.changeId = false →
      ¬ Doomed conv ctx.db.data ctx.userId ctx.projectId ctx.role c.1 c.2) ∧
    (ctx.step conv sha c).NoneDoomed cs

/-- What has been answered so far is final and has its receipt. -/
structure Sound (ctx : PushContext Digest) : Prop where
  rows : ∀ r ∈ ctx.db.data.rows, r.Constrained
  state : (ctx.db.data.lastSequence ctx.projectId).isSome = true
  existing : ∀ x receipt, ctx.existingReceipts x = some receipt →
    receipt ∈ ctx.db.receipts ∧ receipt.changeId = x ∧ receipt.response.Final
  batch : ∀ x result, ctx.batchResults x = some result → result.body.Final
  hashes : ∀ x, (ctx.batchHashes x).isSome = true →
    ∃ receipt ∈ ctx.db.receipts, receipt.changeId = x

omit [DecidableEq Digest] in
theorem refreshAcceptedReplay_final {d : Data} {projectId userId : Uuid} {replay : ChangeResult}
    (h : replay.body.Final) : (refreshAcceptedReplay d projectId userId replay).body.Final := by
  unfold refreshAcceptedReplay
  split
  · exact h
  · split
    · exact h
    · split <;> exact h

variable {ctx : PushContext Digest}

theorem duplicateResult_final (h : ctx.Sound) (change : SyncChange) :
    (ctx.duplicateResult conv sha change).body.Final := by
  unfold duplicateResult
  simp only
  split
  · rename_i reason hreason
    have hne : reason ≠ "internal_error" := by
      rintro rfl
      unfold duplicateErrorReason at hreason
      split at hreason
      · split at hreason <;> simp at hreason
      · split at hreason
        · simp at hreason
        · split at hreason
          · simp at hreason
          · split at hreason <;> simp at hreason
    exact ⟨by simpa [changeResult] using hne, by simp [changeResult]⟩
  · cases hreceipt : ctx.existingReceipts change.changeId with
    | some receipt => exact refreshAcceptedReplay_final (h.existing _ receipt hreceipt).2.2
    | none => cases hresult : ctx.batchResults change.changeId with
      | some result =>
        have hfinal : ({ result with replayed := true } : ChangeResult).body.Final :=
          h.batch _ result hresult
        exact refreshAcceptedReplay_final hfinal
      | none => exact ⟨by simp [changeResult], by simp [changeResult]⟩

omit [DecidableEq Digest] in
theorem seen_receipt (h : ctx.Sound) {x : Uuid} (hs : ctx.seen x = true) :
    ∃ receipt ∈ ctx.db.receipts, receipt.changeId = x := by
  rcases Bool.or_eq_true _ _ ▸ hs with hs | hs
  · obtain ⟨receipt, hreceipt⟩ := Option.isSome_iff_exists.mp hs
    obtain ⟨hmem, hid, -⟩ := h.existing x receipt hreceipt
    exact ⟨receipt, hmem, hid⟩
  · exact h.hashes x hs

theorem step_receipts (ctx : PushContext Digest) (c : SyncChange × Time) :
    ∀ receipt ∈ ctx.db.receipts, receipt ∈ (ctx.step conv sha c).db.receipts := by
  intro receipt hreceipt
  by_cases hs : ctx.seen c.1.changeId = true
  · rw [step_of_seen conv sha hs]
    exact hreceipt
  · rw [step_of_new conv sha hs]
    exact List.mem_append_left _ hreceipt

theorem run_receipts (ctx : PushContext Digest) (cs : List (SyncChange × Time)) :
    ∀ receipt ∈ ctx.db.receipts, receipt ∈ (ctx.run conv sha cs).db.receipts := by
  induction cs generalizing ctx with
  | nil => exact fun _ h ↦ h
  | cons c cs ih => exact fun receipt h ↦ ih _ receipt (step_receipts conv sha ctx c receipt h)

theorem step_final (h : ctx.Sound) (c : SyncChange × Time) :
    (∃ receipt ∈ (ctx.step conv sha c).db.receipts, receipt.changeId = c.1.changeId) ∧
        (ctx.answer conv sha c).body.Final ∧ (ctx.step conv sha c).Sound ∧
        (ctx.seen c.1.changeId = false →
          ¬ Doomed conv ctx.db.data ctx.userId ctx.projectId ctx.role c.1 c.2) ∨
      ¬ (ctx.answer conv sha c).body.Final ∧ ctx.seen c.1.changeId = false ∧
        Doomed conv ctx.db.data ctx.userId ctx.projectId ctx.role c.1 c.2 := by
  by_cases hs : ctx.seen c.1.changeId = true
  · left
    unfold answer
    rw [step_of_seen conv sha hs, if_pos hs]
    exact ⟨seen_receipt h hs, duplicateResult_final conv sha h c.1,
      ⟨h.rows, h.state, h.existing, h.batch, h.hashes⟩, fun hnew ↦ by rw [hs] at hnew; cases hnew⟩
  · have hnew : ctx.seen c.1.changeId = false := Bool.eq_false_iff.mpr hs
    obtain ⟨hpoisoned, hsettled, hrows⟩ := processNewPushChange_doomed conv ctx.userId ctx.role
      c.1 c.2 h.rows h.state
    unfold answer
    rw [step_of_new conv sha hs, if_neg hs]
    by_cases hdoomed : Doomed conv ctx.db.data ctx.userId ctx.projectId ctx.role c.1 c.2
    · exact Or.inr ⟨fun hfinal ↦ hfinal.1 (hpoisoned hdoomed).1, hnew, hdoomed⟩
    · obtain ⟨hreason, hretry, hstored⟩ := hsettled hdoomed
      have hfinal : ((ctx.outcome conv c).result c.1).body.Final := ⟨hreason, hretry⟩
      have hstored : (ctx.outcome conv c).stored = true := hstored
      have hreceipt : (ctx.outcome conv c).receipt sha ctx.userId ctx.projectId c.1 c.2 ∈
          (ctx.recordNew conv sha c).db.receipts := by
        unfold recordNew Outcome.receipts
        simp [hstored]
      have haccess := processNewPushChange_sameAccess conv ctx.db.data ctx.userId ctx.projectId
        ctx.role c.1 c.2
      refine Or.inl ⟨⟨_, hreceipt, rfl⟩, hfinal, ⟨hrows, ?_, fun x receipt hx ↦ ?_,
        fun x result hx ↦ ?_, fun x hx ↦ ?_⟩, fun _ ↦ hdoomed⟩
      · exact (haccess.state ctx.projectId).trans h.state
      · obtain ⟨hmem, hid, hresponse⟩ := h.existing x receipt hx
        exact ⟨List.mem_append_left _ hmem, hid, hresponse⟩
      · by_cases he : x = c.1.changeId
        · subst he
          have hset : (ctx.recordNew conv sha c).batchResults c.1.changeId =
              some ((ctx.outcome conv c).result c.1) := Function.update_self _ _ _
          obtain rfl := Option.some.inj (hset.symm.trans hx)
          exact hfinal
        · have hkeep : (ctx.recordNew conv sha c).batchResults x = ctx.batchResults x :=
            Function.update_of_ne he _ _
          exact h.batch x result (hkeep.symm.trans hx)
      · by_cases he : x = c.1.changeId
        · exact he ▸ ⟨_, hreceipt, rfl⟩
        · have hkeep : (ctx.recordNew conv sha c).batchHashes x = ctx.batchHashes x :=
            Function.update_of_ne he _ _
          obtain ⟨receipt, hmem, hid⟩ := h.hashes x (hkeep ▸ hx)
          exact ⟨receipt, List.mem_append_left _ hmem, hid⟩

/-- A batch is answered for good exactly when none of its changes is doomed at its turn. -/
theorem run_final (h : ctx.Sound) (cs : List (SyncChange × Time)) :
    (∀ a ∈ ctx.answers conv sha cs, a.2.body.Final) ∧
        (∀ c ∈ cs, ∃ receipt ∈ (ctx.run conv sha cs).db.receipts,
          receipt.changeId = c.1.changeId) ↔ ctx.NoneDoomed conv sha cs := by
  induction cs generalizing ctx with
  | nil => simp [answers, NoneDoomed]
  | cons c cs ih =>
    rcases step_final conv sha h c with ⟨⟨receipt, hreceipt, hid⟩, hfinal, hstep, hnot⟩ |
        ⟨hpoisoned, hnew, hdoomed⟩
    · have hrest := ih hstep
      constructor
      · rintro ⟨hanswers, hreceipts⟩
        exact ⟨hnot, hrest.mp ⟨fun a ha ↦ hanswers a (List.mem_cons_of_mem _ ha),
          fun d hd ↦ hreceipts d (List.mem_cons_of_mem _ hd)⟩⟩
      · rintro ⟨-, hnone⟩
        obtain ⟨hanswers, hreceipts⟩ := hrest.mpr hnone
        refine ⟨fun a ha ↦ ?_, fun d hd ↦ ?_⟩
        · rcases List.mem_cons.mp ha with rfl | ha
          · exact hfinal
          · exact hanswers a ha
        · rcases List.mem_cons.mp hd with rfl | hd
          · exact ⟨receipt, run_receipts conv sha _ cs receipt hreceipt, hid⟩
          · exact hreceipts d hd
    · refine iff_of_false (fun hall ↦ ?_) fun hnone ↦ hnone.1 hnew hdoomed
      exact hpoisoned (hall.1 _ List.mem_cons_self)

/-- Doomed or not, a change leaves the database sound: no poisoned answer is stored. -/
theorem step_sound (h : ctx.db.Sound)
    (hseq : (ctx.db.data.lastSequence ctx.projectId).isSome = true)
    (c : SyncChange × Time) : (ctx.step conv sha c).db.Sound := by
  by_cases hs : ctx.seen c.1.changeId = true
  · rw [step_of_seen conv sha hs]
    exact h
  · rw [step_of_new conv sha hs]
    obtain ⟨hpoisoned, hsettled, hrows⟩ := processNewPushChange_doomed conv ctx.userId ctx.role
      c.1 c.2 h.rows hseq
    refine ⟨hrows, fun receipt hreceipt ↦ ?_⟩
    rcases List.mem_append.mp hreceipt with hold | hnew
    · exact h.receipts receipt hold
    · unfold Outcome.receipts at hnew
      split at hnew
      · rename_i hstored
        obtain rfl := List.mem_singleton.mp hnew
        have hnot : ¬ Doomed conv ctx.db.data ctx.userId ctx.projectId ctx.role c.1 c.2 := by
          intro hdoomed
          cases (hpoisoned hdoomed).2.2.symm.trans hstored
        exact ⟨(hsettled hnot).1, (hsettled hnot).2.1⟩
      · cases hnew

theorem run_sound (h : ctx.db.Sound) (hseq : (ctx.db.data.lastSequence ctx.projectId).isSome = true)
    (cs : List (SyncChange × Time)) : (ctx.run conv sha cs).db.Sound := by
  induction cs generalizing ctx with
  | nil => exact h
  | cons c cs ih =>
    refine ih (step_sound conv sha h hseq c) ?_
    rw [(ctx.step_owner conv sha c).2.1]
    exact ((run_sameAccess conv sha ctx [c]).state ctx.projectId).trans hseq

end PushContext


theorem pushChanges_sound {Digest : Type} [DecidableEq Digest] (conv : Conv)
    (sha : Payload → Digest) {db db' : Db Digest} (hdb : db.Sound) {userId projectId : Uuid}
    {changes : List (SyncChange × Time)} {results : List ChangeResult}
    (hpush : pushChanges conv sha db userId projectId changes = .ok (db', results)) :
    db'.Sound := by
  obtain ⟨ctx, hopen, hrun⟩ := map_ok hpush
  obtain ⟨hstate, role, -, rfl⟩ := openPush_ok hopen
  cases hrun
  rcases hstate with rfl | hstate
  · exact hdb
  · exact PushContext.run_sound conv sha hdb hstate changes

theorem sampleDb_sound : sampleDb.Sound := by
  refine ⟨fun r hr ↦ ?_, fun receipt hreceipt ↦ by cases hreceipt⟩
  obtain rfl : r = sampleRisk := List.mem_singleton.mp hr
  refine ⟨rfl, fun _ a ha ↦ ⟨1, rfl, ?_⟩, fun a ha ↦ Or.inl ?_⟩
  · revert a
    decide
  · revert a
    decide

/-- A push answers every change for good, with a receipt, exactly when none is doomed: no new
change passes the checks of the engine and asks for a row that no flush can write. -/
theorem permanent_failures_final {Digest : Type} [DecidableEq Digest] (conv : Conv)
    (sha : Payload → Digest) {db db' : Db Digest} (hdb : db.Sound) {userId projectId : Uuid}
    {role : Role} (hrole : db.data.getMemberRole projectId userId = some role)
    {changes : List (SyncChange × Time)} {results : List ChangeResult}
    (hpush : pushChanges conv sha db userId projectId changes = .ok (db', results)) :
    ((∀ result ∈ results, result.body.reason ≠ some "internal_error" ∧
          result.body.retryable ≠ some true) ∧
        ∀ c ∈ changes, ∃ receipt ∈ db'.receipts, receipt.changeId = c.1.changeId) ↔
      (PushContext.start db userId projectId role changes).NoneDoomed conv sha changes := by
  obtain ⟨ctx, hopen, hrun⟩ := map_ok hpush
  obtain ⟨hstate, role', hrole', rfl⟩ := openPush_ok hopen
  obtain rfl : role = role' := Option.some.inj (hrole.symm.trans hrole')
  cases hrun
  rcases hstate with rfl | hstate
  · simp [PushContext.run, PushContext.start, PushContext.NoneDoomed]
  have hsound : (PushContext.start db userId projectId role changes).Sound := by
    refine ⟨hdb.rows, hstate, fun x receipt hx ↦ ?_, fun x result hx ↦ ?_, fun x hx ↦ ?_⟩
    · have hx : loadExistingReceipts db changes x = some receipt := hx
      unfold loadExistingReceipts at hx
      split at hx
      · have hmem := Table.mem_of_find SyncReceipt.changeId hx
        exact ⟨hmem, Table.key_of_find SyncReceipt.changeId hx, hdb.receipts receipt hmem⟩
      · cases hx
    · cases hx
    · cases hx
  rw [← PushContext.run_final conv sha hsound changes, PushContext.run_results]
  refine and_congr_left fun _ ↦ ⟨fun h a ha ↦ ?_, fun h result hr ↦ ?_⟩
  · exact h _ (List.mem_append_right _ (List.mem_map_of_mem ha))
  · rcases List.mem_append.mp hr with hr | hr
    · cases hr
    · obtain ⟨a, ha, rfl⟩ := List.mem_map.mp hr
      exact h a ha

/-- A retitling is answered for good. -/
theorem permanent_failures_final_sample : ∃ db' results,
    pushChanges Conv.strict titleDigest sampleDb 10 1 [retitle 7 1 "B"] = .ok (db', results) ∧
      (((∀ result ∈ results, result.body.reason ≠ some "internal_error" ∧
            result.body.retryable ≠ some true) ∧
          ∀ c ∈ [retitle 7 1 "B"], ∃ receipt ∈ db'.receipts, receipt.changeId = c.1.changeId) ↔
        (PushContext.start sampleDb 10 1 .manager [retitle 7 1 "B"]).NoneDoomed Conv.strict
          titleDigest [retitle 7 1 "B"]) :=
  ⟨_, _, rfl, permanent_failures_final Conv.strict titleDigest sampleDb_sound rfl rfl⟩

def clearProbability : SyncChange × Time :=
  (⟨7, .risk, .upsert, some 1, Dict.ofList [(.id, .uuid 100), (.probability, .null)]⟩, 5)

/-- A probability that is cleared is answered as an internal error on every arrival. -/
theorem cleared_probability_retried :
    ¬ ∀ (db db' : Db Val) (userId projectId : Uuid) (changes : List (SyncChange × Time))
      (results : List ChangeResult), db.Sound →
      pushChanges Conv.strict titleDigest db userId projectId changes = .ok (db', results) →
      ∀ result ∈ results, result.body.reason ≠ some "internal_error" ∧
        result.body.retryable ≠ some true := by
  intro h
  exact (h sampleDb _ 10 1 [clearProbability] _ sampleDb_sound rfl _ List.mem_cons_self).1 rfl

end RiskApp.Server
