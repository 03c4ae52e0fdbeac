import RiskApp.Server.Reachable

namespace RiskApp.Server

open Lib Lib.Result

/-- Rows of one id, both of the project and equal, or neither of the project. -/
structure Data.SameRow (p : Uuid) (d e : Data) (r s : Row) : Prop where
  key : r.key = s.key
  project : d.projectOf r = some p ↔ e.projectOf s = some p
  same : d.projectOf r = some p → r = s

/-- The data differ in the contents of the rows of other projects, and not in their ids. What
else they hold of other projects is not compared. -/
structure Data.Alike (p : Uuid) (d e : Data) : Prop where
  rows : List.Forall₂ (d.SameRow p e) d.rows e.rows
  audit : d.audit.filter (fun a ↦ a.projectId = p) = e.audit.filter fun a ↦ a.projectId = p
  lastSequence : d.lastSequence p = e.lastSequence p
  memberRole : d.memberRole p = e.memberRole p
  superusers : d.superusers = e.superusers
  users : d.users = e.users

namespace Data.Alike

variable {p : Uuid} {d e : Data} (h : d.Alike p e)

include h

theorem row_cases (k : RowKey) : d.row k = none ∧ e.row k = none ∨
    (∃ r, d.row k = some r ∧ e.row k = some r ∧ d.projectOf r = some p ∧
      e.projectOf r = some p) ∨
    ∃ r s, d.row k = some r ∧ e.row k = some s ∧ d.projectOf r ≠ some p ∧
      e.projectOf s ≠ some p := by
  have hrel := Table.find_forall₂ Row.key h.rows (fun r s hrs ↦ hrs.key) k
  unfold Data.row
  cases hd : Table.find Row.key k d.rows with
  | none => cases he : Table.find Row.key k e.rows with
    | none => exact Or.inl ⟨rfl, rfl⟩
    | some s =>
      rw [hd, he] at hrel
      cases hrel
  | some r => cases he : Table.find Row.key k e.rows with
    | none =>
      rw [hd, he] at hrel
      cases hrel
    | some s =>
      rw [hd, he] at hrel
      cases hrel with
      | some hrs =>
        by_cases hp : d.projectOf r = some p
        · obtain rfl := hrs.same hp
          exact Or.inr (Or.inl ⟨r, rfl, rfl, hp, hrs.project.mp hp⟩)
        · exact Or.inr (Or.inr ⟨r, s, rfl, rfl, hp, fun hs ↦ hp (hrs.project.mpr hs)⟩)

theorem isNone_row (k : RowKey) : (d.row k).isNone = (e.row k).isNone := by
  rcases h.row_cases k with ⟨hd, he⟩ | ⟨r, hd, he, -, -⟩ | ⟨r, s, hd, he, -, -⟩ <;> rw [hd, he]
  rfl

theorem fetchObj_eq (entity : Entity) (entityId : Uuid) :
    fetchObj d entity entityId p = fetchObj e entity entityId p := by
  unfold fetchObj
  rcases h.row_cases (entity.table, entityId) with
    ⟨hd, he⟩ | ⟨r, hd, he, hpd, hpe⟩ | ⟨r, s, hd, he, hpd, hpe⟩
  · rw [hd, he]
    rfl
  · rw [hd, he]
    simp [Option.filter, hpd, hpe]
  · rw [hd, he]
    simp [Option.filter, hpd, hpe]

omit h in
theorem projectOf_item {d : Data} {i : Uuid} {r : Row} (hr : d.item i = some r) :
    d.projectOf r = r.ownProject := by
  have htable : r.table = .items := congrArg Prod.fst (Table.key_of_find Row.key hr)
  unfold Data.projectOf
  rw [htable]

theorem item_cases (i : Uuid) :
    (∃ r, d.item i = some r ∧ e.item i = some r ∧ r.ownProject = some p) ∨
      (d.item i).bind Row.ownProject ≠ some p ∧ (e.item i).bind Row.ownProject ≠ some p := by
  unfold Data.item
  rcases h.row_cases (.items, i) with
    ⟨hd, he⟩ | ⟨r, hd, he, hpd, hpe⟩ | ⟨r, s, hd, he, hpd, hpe⟩
  · right
    rw [hd, he]
    exact ⟨nofun, nofun⟩
  · exact Or.inl ⟨r, hd, he, (projectOf_item hd).symm.trans hpd⟩
  · right
    rw [hd, he]
    exact ⟨fun hr ↦ hpd ((projectOf_item hd).trans hr), fun hs ↦ hpe ((projectOf_item he).trans hs)⟩

theorem item_project (i : Uuid) : (d.item i).bind Row.ownProject = some p ↔
    (e.item i).bind Row.ownProject = some p := by
  rcases h.item_cases i with ⟨r, hd, he, hr⟩ | ⟨hd, he⟩
  · rw [hd, he]
  · exact ⟨fun hi ↦ absurd hi hd, fun hi ↦ absurd hi he⟩

theorem projectOf_iff (r : Row) : d.projectOf r = some p ↔ e.projectOf r = some p := by
  unfold Data.projectOf
  split
  · split
    · exact h.item_project _
    · rfl
  · rfl

theorem modelToSyncDict_eq {r : Row} (hr : d.Holds p r) (entity : Entity) :
    modelToSyncDict d entity r = modelToSyncDict e entity r := by
  have htype : d.itemType ((modelToDict r).get .itemId) =
      e.itemType ((modelToDict r).get .itemId) := by
    by_cases hcol : .itemId ∈ r.table.columns
    · obtain ⟨i, hi, hown⟩ := hr.target hcol
      have hget : (modelToDict r).get .itemId = .uuid i := by
        simp [modelToDict, Dict.get, hcol, Row.get, hi]
      rw [hget]
      rcases h.item_cases i with ⟨o, hd, he, -⟩ | ⟨hd, -⟩
      · simp only [Data.itemType, hd, he]
      · exact absurd hown hd
    · have hget : (modelToDict r).get .itemId = .null := by
        simp [modelToDict, Dict.get, hcol]
      rw [hget]
      rfl
  unfold modelToSyncDict
  simp only [htype]

theorem currentServerState_eq (hd : d.Scoped) (entity : Entity) (entityId userId : Uuid) :
    currentServerState d entity entityId p userId =
      currentServerState e entity entityId p userId := by
  unfold currentServerState
  rcases h.row_cases (entity.table, entityId) with
    ⟨hdr, her⟩ | ⟨r, hdr, her, hpd, hpe⟩ | ⟨r, s, hdr, her, hpd, hpe⟩
  · rw [hdr, her]
    rfl
  · have hsync := h.modelToSyncDict_eq (hd.holds (Table.mem_of_find Row.key hdr) hpd) entity
    have hscope : inVersionScope d entity p userId r = inVersionScope e entity p userId r := by
      simp only [inVersionScope, hpd, hpe]
    rw [hdr, her]
    simp only [Option.filter, hscope]
    split <;> simp_all
  · rw [hdr, her]
    simp [Option.filter, inVersionScope, hpd, hpe]

theorem ensureItemInProject_eq (i : Uuid) (expected : Option Entity) :
    ensureItemInProject d p i expected = ensureItemInProject e p i expected := by
  have hfound : (d.item i).filter (fun r ↦ r.attrs .projectId = .uuid p) =
      (e.item i).filter fun r ↦ r.attrs .projectId = .uuid p := by
    have hown : ∀ r : Row, r.attrs .projectId = .uuid p → r.ownProject = some p := by
      intro r hr
      rw [Row.ownProject, hr]
    rcases h.item_cases i with ⟨o, hd, he, -⟩ | ⟨hd, he⟩
    · rw [hd, he]
    · have hnone : ∀ {c : Data}, (c.item i).bind Row.ownProject ≠ some p →
          (c.item i).filter (fun r ↦ r.attrs .projectId = .uuid p) = none := by
        intro c hc
        refine Option.filter_eq_none_iff.mpr fun r hr hp ↦ hc ?_
        rw [hr, Option.bind_some]
        exact hown r (of_decide_eq_true hp)
      rw [hnone hd, hnone he]
  unfold ensureItemInProject
  simp only [hfound]

theorem validateRelationships_eq (conv : Conv) (entity : Entity) (val : Parsed)
    (obj : Option Row) : validateRelationships conv d p entity val obj =
      validateRelationships conv e p entity val obj := by
  have htarget : ∀ target expected, ensureTarget conv d p target expected =
      ensureTarget conv e p target expected := by
    intro target expected
    unfold ensureTarget
    simp only [h.ensureItemInProject_eq]
  unfold validateRelationships validateParent
  simp only [htarget]

theorem codes_eq : (d.rows.filter fun r ↦ r.table = .items && r.attrs .projectId = .uuid p) =
    e.rows.filter fun r ↦ r.table = .items && r.attrs .projectId = .uuid p := by
  refine Table.filter_forall₂ h.rows fun r s hrs ↦ ?_
  have hproject : ∀ {c : Data} {r : Row}, r.table = .items → r.attrs .projectId = .uuid p →
      c.projectOf r = some p := fun ht hp ↦ Data.projectOf_of_attr (by rw [ht]; decide) hp
  have hkeep : (r.table = .items && r.attrs .projectId = .uuid p) = true → r = s := by
    intro hr
    simp only [Bool.and_eq_true, decide_eq_true_eq] at hr
    exact hrs.same (hproject hr.1 hr.2)
  refine ⟨?_, hkeep⟩
  rw [Bool.eq_iff_iff]
  refine ⟨fun hr ↦ hkeep hr ▸ hr, fun hs ↦ ?_⟩
  have hs' := hs
  simp only [Bool.and_eq_true, decide_eq_true_eq] at hs'
  obtain rfl := hrs.same (hrs.project.mpr (hproject hs'.1 hs'.2))
  exact hs

theorem createNew_eq (conv : Conv) (userId : Uuid) (entity : Entity) (entityId : Uuid)
    (record : Dict) (now : Time) :
    createNew conv d userId p entity entityId record now =
      createNew conv e userId p entity entityId record now := by
  have hcode : ∀ val, withItemCode conv d p entity val = withItemCode conv e p entity val := by
    intro val
    unfold withItemCode canonicalItemCode
    simp only [h.codes_eq]
  unfold createNew
  simp only [hcode, h.validateRelationships_eq]

theorem updateExisting_eq (conv : Conv) (entity : Entity) (r : Row) (record : Dict) (now : Time) :
    updateExisting conv d p entity r record now = updateExisting conv e p entity r record now := by
  unfold updateExisting
  simp only [h.validateRelationships_eq]

theorem requiredRole_eq (conv : Conv) (change : SyncChange) :
    requiredRole conv d p change = requiredRole conv e p change := by
  unfold requiredRole requiresManager
  simp only [h.fetchObj_eq]

end Data.Alike

theorem Row.collides_project {c : Data} {p : Uuid} {r s : Row} (hr : c.projectOf r = some p)
    (h : r.collides s = true) : c.projectOf s = some p := by
  rw [← hr]
  simp only [Row.collides, Bool.and_eq_true, decide_eq_true_eq] at h
  obtain ⟨ht, h⟩ := h
  unfold Data.projectOf
  rw [← ht]
  cases htable : r.table with
  | items =>
    simp only [htable, Bool.and_eq_true, decide_eq_true_eq] at h
    simp only [Row.ownProject, h.2]
  | assessments =>
    simp only [htable, Bool.and_eq_true, decide_eq_true_eq] at h
    simp only [h.1]
  | _ => simp [htable] at h

theorem Data.Confined.projectOf_eq {d d' : Data} {p : Uuid} (h : d.Confined p d') (hd : d.Scoped)
    {r : Row} (hr : r ∈ d.rows) : d'.projectOf r = d.projectOf r := by
  obtain ⟨q, hq⟩ := hd.held r hr
  rw [h.project r q hq.project, hq.project]

section Flush

variable {p : Uuid} {d e : Data} (h : d.Alike p e)

include h

/-- A constraint of the database mentions another project's rows by their ids alone. -/
theorem Data.Alike.admits_eq {r : Row} (hr : d.projectOf r = some p) :
    d.admits r = e.admits r := by
  have hkeys := Table.map_key_forall₂ Row.key h.rows fun r s hrs ↦ hrs.key
  have hids : ∀ c : Data, (c.rows.filter (·.table = .items)).map Row.id =
      ((c.rows.map Row.key).filter (·.1 = .items)).map Prod.snd := by
    intro c
    rw [List.filter_map, List.map_map]
    rfl
  have hcollide : (d.rows.all fun s ↦ s.key = r.key || !r.collides s) =
      e.rows.all fun s ↦ s.key = r.key || !r.collides s := by
    refine Table.all_forall₂ h.rows fun s t hst ↦ ?_
    by_cases hp : d.projectOf s = some p
    · rw [hst.same hp]
    · have hs : r.collides s = false := by
        rw [Bool.eq_false_iff]
        exact fun hc ↦ hp (Row.collides_project hr hc)
      have ht : r.collides t = false := by
        rw [Bool.eq_false_iff]
        exact fun hc ↦
          hp (hst.project.mpr (Row.collides_project ((h.projectOf_iff r).mp hr) hc))
      rw [hs, ht, hst.key]
  unfold Data.admits
  rw [hids, hids, hkeys, h.users, hcollide]

theorem beforeWrite_agree {obj : Row}
    (hobj : d.projectOf obj = some p ∨ d.projectOf obj = none ∧ e.projectOf obj = none) :
    Agree (fun x y ↦ x.2 = y.2 ∧ d.projectOf x.2 = some p ∧ x.2.key = obj.key ∧ ∃ n,
      x.1 = d.stamp d.rows d.audit p n ∧ y.1 = e.stamp e.rows e.audit p n)
      (beforeWrite d obj) (beforeWrite e obj) := by
  refine .bind (.of_eq rfl) fun r s hr _ hrs ↦ ?_
  subst hrs
  have hst := computeScore_ok hr
  have hcongr : ∀ c : Data, c.projectOf r.naive = c.projectOf obj := fun c ↦
    c.projectOf_congr hst
  unfold assignChangeSequence
  rw [hcongr, hcongr]
  rcases hobj with hp | ⟨hd, he⟩
  · rw [hp, (h.projectOf_iff obj).mp hp]
    simp only [← h.lastSequence]
    cases hn : d.lastSequence p with
    | none => exact .error _
    | some n => exact .ok ⟨rfl, (hcongr d).trans hp, hst.key, n, rfl, rfl⟩
  · rw [hd, he]
    exact .error _

theorem flushUpdate_stamps {obj : Row}
    (hobj : d.projectOf obj = some p ∨ d.projectOf obj = none ∧ e.projectOf obj = none) :
    Agree (fun a b ↦ ∃ n r', d.projectOf r' = some p ∧
      a = d.stamp (Table.replace Row.key r' d.rows) d.audit p n ∧
      b = e.stamp (Table.replace Row.key r' e.rows) e.audit p n)
      (flushUpdate d obj) (flushUpdate e obj) := by
  refine .bind (beforeWrite_agree h hobj) fun ⟨d₁, r⟩ ⟨e₁, s⟩ _ _ hrs ↦ ?_
  obtain ⟨hrs, hp, -, n, hd₁, he₁⟩ := hrs
  simp only at hrs hp hd₁ he₁
  subst hrs hd₁ he₁
  refine .bind (.of_eq rfl) fun _ _ _ _ _ ↦ ?_
  refine .bind (.of_eq (congrArg (require · _) (h.admits_eq hp))) fun _ _ _ _ _ ↦ ?_
  exact .ok ⟨n, r, hp, rfl, rfl⟩

theorem flushInsert_stamps {obj : Row} {now : Time}
    (hobj : d.projectOf obj = some p ∨ d.projectOf obj = none ∧ e.projectOf obj = none) :
    Agree (fun a b ↦ ∃ n r', d.projectOf r' = some p ∧
      a = d.stamp (d.rows ++ [r']) d.audit p n ∧ b = e.stamp (e.rows ++ [r']) e.audit p n)
      (flushInsert d obj now) (flushInsert e obj now) := by
  refine .bind (beforeWrite_agree h hobj) fun ⟨d₁, r⟩ ⟨e₁, s⟩ _ _ hrs ↦ ?_
  obtain ⟨hrs, hp, -, n, hd₁, he₁⟩ := hrs
  simp only at hrs hp hd₁ he₁
  subst hrs hd₁ he₁
  have hnew : d.projectOf (r.withDefaults now) = some p := Data.projectOf_withDefaults now hp
  refine .bind (.of_eq rfl) fun _ _ _ _ _ ↦ ?_
  refine .bind (.of_eq ?_) fun _ _ _ _ _ ↦ .ok ⟨n, r.withDefaults now, hnew, rfl, rfl⟩
  have hfresh := h.isNone_row (r.withDefaults now).key
  exact congrArg (require · _) (congr (congrArg and (h.admits_eq hnew)) hfresh)

variable {d' e' : Data} (hd : d.Scoped) (he : e.Scoped) (hcd : d.Confined p d')
  (hce : e.Confined p e')

include hd he hcd hce

omit h in
theorem Data.SameRow.kept {r s : Row} (hr : r ∈ d.rows) (hs : s ∈ e.rows)
    (hrs : d.SameRow p e r s) : d'.SameRow p e' r s := by
  have hr' := hcd.projectOf_eq hd hr
  have hs' := hce.projectOf_eq he hs
  exact ⟨hrs.key, by rw [hr', hs', hrs.project], fun hp ↦ hrs.same (hr'.symm.trans hp)⟩

theorem Data.Alike.replaced {r' : Row} (hp : d.projectOf r' = some p)
    (hdr : d'.rows = Table.replace Row.key r' d.rows)
    (her : e'.rows = Table.replace Row.key r' e.rows)
    (haudit : d'.audit.filter (fun a ↦ a.projectId = p) =
      e'.audit.filter fun a ↦ a.projectId = p)
    (hlast : d'.lastSequence p = e'.lastSequence p) : d'.Alike p e' := by
  refine ⟨?_, haudit, hlast, by rw [hcd.memberRole, hce.memberRole, h.memberRole],
    by rw [hcd.superusers, hce.superusers, h.superusers], by rw [hcd.users, hce.users, h.users]⟩
  have hnew : d'.SameRow p e' r' r' := by
    have hpe := (h.projectOf_iff r').mp hp
    exact ⟨rfl, by rw [hcd.project r' p hp, hce.project r' p hpe], fun _ ↦ rfl⟩
  rw [hdr, her]
  refine List.forall₂_map_left_iff.mpr (List.forall₂_map_right_iff.mpr ?_)
  refine (Table.forall₂_mem h.rows).imp fun r s ⟨hr, hs, hrs⟩ ↦ ?_
  rw [← hrs.key]
  split
  · exact hnew
  · exact hrs.kept hd he hcd hce hr hs

theorem Data.Alike.appended {r' : Row} (hp : d.projectOf r' = some p)
    (hdr : d'.rows = d.rows ++ [r']) (her : e'.rows = e.rows ++ [r'])
    (haudit : d'.audit.filter (fun a ↦ a.projectId = p) =
      e'.audit.filter fun a ↦ a.projectId = p)
    (hlast : d'.lastSequence p = e'.lastSequence p) : d'.Alike p e' := by
  refine ⟨?_, haudit, hlast, by rw [hcd.memberRole, hce.memberRole, h.memberRole],
    by rw [hcd.superusers, hce.superusers, h.superusers], by rw [hcd.users, hce.users, h.users]⟩
  have hnew : d'.SameRow p e' r' r' := by
    have hpe := (h.projectOf_iff r').mp hp
    exact ⟨rfl, by rw [hcd.project r' p hp, hce.project r' p hpe], fun _ ↦ rfl⟩
  rw [hdr, her]
  refine List.rel_append ?_ (.cons hnew .nil)
  exact (Table.forall₂_mem h.rows).imp fun r s ⟨hr, hs, hrs⟩ ↦
    hrs.kept hd he hcd hce hr hs

end Flush

section Apply

variable {p : Uuid} {d e : Data} (h : d.Alike p e)

include h

theorem Data.Alike.audited (entry : AuditLog) :
    ({ d with audit := d.audit ++ [entry] } : Data).Alike p
      { e with audit := e.audit ++ [entry] } := by
  have hproject : ∀ (c : Data) (r : Row),
      ({ c with audit := c.audit ++ [entry] } : Data).projectOf r = c.projectOf r :=
    fun c ↦ Data.projectOf_of_rows rfl
  have hrows := h.rows.imp fun r s hrs ↦ show Data.SameRow p { d with audit := d.audit ++ [entry] }
      { e with audit := e.audit ++ [entry] } r s from
    ⟨hrs.key, by rw [hproject, hproject, hrs.project],
      fun hp ↦ hrs.same ((hproject d r).symm.trans hp)⟩
  refine ⟨hrows, ?_, h.lastSequence, h.memberRole, h.superusers, h.users⟩
  rw [List.filter_append, List.filter_append, h.audit]

omit h in
theorem Row.placed (d e : Data) {obj : Row}
    (hown : obj.table ≠ .assessments → obj.ownProject = some p)
    (ht : .itemId ∈ obj.table.columns → ∀ i, obj.attrs .itemId = .uuid i →
      (d.item i).bind Row.ownProject = some p) :
    d.projectOf obj = some p ∨ d.projectOf obj = none ∧ e.projectOf obj = none := by
  by_cases hassessment : obj.table = .assessments
  · by_cases hi : ∃ i, obj.attrs .itemId = .uuid i
    · obtain ⟨i, hi⟩ := hi
      left
      rw [Data.projectOf_assessment hassessment hi]
      exact ht (by rw [hassessment]; decide) i hi
    · right
      have hnone : ∀ c : Data, c.projectOf obj = none := by
        intro c
        unfold Data.projectOf
        rw [hassessment]
        simp only
        split
        · rename_i i hitem
          exact absurd ⟨i, hitem⟩ hi
        · rfl
      exact ⟨hnone d, hnone e⟩
  · left
    have hp := hown hassessment
    unfold Data.projectOf
    cases htable : obj.table <;> simp_all

theorem flushUpdate_agree (hd : d.Scoped) (he : e.Scoped) {r obj : Row}
    (hdr : d.row r.key = some r) (her : e.row r.key = some r) (hk : r.Keeps obj)
    (hp : d.projectOf r = some p)
    (ht : .itemId ∈ obj.table.columns → ∀ i, obj.attrs .itemId = .uuid i →
      (d.item i).bind Row.ownProject = some p) :
    Agree (Data.Alike p) (flushUpdate d obj) (flushUpdate e obj) := by
  have hobj := Row.placed d e (fun hne ↦ hk.ownProject.trans
    (Data.ownProject_of_projectOf hp (hk.table ▸ hne))) ht
  refine (flushUpdate_stamps h hobj).imp fun a b ha hb ⟨n, r', hp', hda, heb⟩ ↦ ?_
  have hcd := flushUpdate_confined hd hdr hk hp ht ha
  have hce := flushUpdate_confined he her hk ((h.projectOf_iff r).mp hp)
    (fun hcol i hi ↦ (h.item_project i).mp (ht hcol i hi)) hb
  subst hda heb
  exact h.replaced hd he hcd hce hp' rfl rfl h.audit (by simp [Data.stamp])

theorem flushInsert_agree (hd : d.Scoped) (he : e.Scoped) {obj : Row} {now : Time}
    (hown : obj.table ≠ .assessments → obj.ownProject = some p)
    (ht : .itemId ∈ obj.table.columns → ∀ i, obj.attrs .itemId = .uuid i →
      (d.item i).bind Row.ownProject = some p) :
    Agree (Data.Alike p) (flushInsert d obj now) (flushInsert e obj now) := by
  refine (flushInsert_stamps h (Row.placed d e hown ht)).imp
    fun a b ha hb ⟨n, r', hp', hda, heb⟩ ↦ ?_
  have hcd := flushInsert_confined hd hown ht ha
  have hce := flushInsert_confined he hown
    (fun hcol i hi ↦ (h.item_project i).mp (ht hcol i hi)) hb
  subst hda heb
  exact h.appended hd he hcd hce hp' rfl rfl h.audit (by simp [Data.stamp])

variable {r : Row}

theorem Data.Alike.claimed (hd : d.Scoped) (he : e.Scoped) (hdr : d.row r.key = some r)
    (her : e.row r.key = some r) (hp : d.projectOf r = some p) (now : Time) :
    ({ d with rows := Table.replace Row.key (r.claim now) d.rows } : Data).Alike p
      { e with rows := Table.replace Row.key (r.claim now) e.rows } := by
  have hclaim := ((hd.holds (Table.mem_of_find Row.key hdr) hp).of_keeps (r.keeps_claim now)
    (r.setAttr_attrs_of_ne (.time now) (show Attr.itemId ≠ .updatedAt by decide))).project
  exact h.replaced hd he (hd.claim hdr hp now) (he.claim her ((h.projectOf_iff r).mp hp) now)
    hclaim rfl rfl h.audit h.lastSequence

theorem claimExisting_agree (hd : d.Scoped) {entity : Entity} {entityId userId : Uuid}
    (hr : fetchObj d entity entityId p = some r) (bv : Option ℤ) (now : Time) :
    Agree (fun a b ↦
      a = { d with rows := Table.replace Row.key (r.claim now) d.rows } ∧
      b = { e with rows := Table.replace Row.key (r.claim now) e.rows })
      (claimExisting d r entity entityId p userId bv now)
      (claimExisting e r entity entityId p userId bv now) := by
  obtain ⟨hrow, hp⟩ := fetchObj_some hr
  have hsync := h.modelToSyncDict_eq (hd.holds (Table.mem_of_find Row.key hrow) hp) entity
  have hre : e.row (entity.table, entityId) = some r :=
    (fetchObj_some ((h.fetchObj_eq entity entityId).symm.trans hr)).1
  have hscope : inVersionScope d entity p userId r = inVersionScope e entity p userId r := by
    simp only [inVersionScope, hp, (h.projectOf_iff r).mp hp]
  unfold claimExisting
  rw [hsync]
  refine .bind (.of_eq rfl) fun _ _ _ _ _ ↦ .bind (.of_eq rfl) fun _ _ _ _ _ ↦
    .bind (.of_eq rfl) fun expected _ _ _ hexpected ↦ ?_
  subst hexpected
  unfold claimBaseVersion
  rw [hrow, hre, h.currentServerState_eq hd]
  simp only [Option.filter, hscope]
  by_cases hclaim : (inVersionScope e entity p userId r && (r.version : ℤ) = expected) = true
  · rw [if_pos hclaim]
    exact .ok ⟨rfl, rfl⟩
  · rw [if_neg hclaim]
    exact .error _

theorem flush_agree (hd : d.Scoped) (he : e.Scoped) {obj : Row} {now : Time} {entry : AuditLog}
    (hdr : d.row r.key = some r) (her : e.row r.key = some r) (hp : d.projectOf r = some p)
    (hk : r.Keeps obj)
    (ht : .itemId ∈ obj.table.columns → ∀ i, obj.attrs .itemId = .uuid i →
      (d.item i).bind Row.ownProject = some p) :
    Agree (Data.Alike p)
      (flush { d with rows := Table.replace Row.key (r.claim now) d.rows } now
        (some ⟨obj, false, entry⟩))
      (flush { e with rows := Table.replace Row.key (r.claim now) e.rows } now
        (some ⟨obj, false, entry⟩)) := by
  have hpe := (h.projectOf_iff r).mp hp
  have hcd := hd.claim hdr hp now
  have hce := he.claim her hpe now
  have hclaim := r.keeps_claim now
  have hfound : ∀ {c : Data}, c.row r.key = some r →
      ({ c with rows := Table.replace Row.key (r.claim now) c.rows } : Data).row
        (r.claim now).key = some (r.claim now) := by
    intro c hc
    rw [Data.row_replace hc hclaim.key, if_pos hclaim.key]
  have hproject := hcd.project (r.claim now) p
    ((hd.holds (Table.mem_of_find Row.key hdr) hp).of_keeps hclaim
      (r.setAttr_attrs_of_ne (.time now) (show Attr.itemId ≠ .updatedAt by decide))).project
  refine .map (flushUpdate_agree (h.claimed hd he hdr her hp now) hcd.inScope hce.inScope
    (hfound hdr) (hfound her) (hclaim.symm.trans hk) hproject fun hcol i hi ↦ ?_) fun a b hab ↦
    hab.audited entry
  exact hcd.item (ht hcol i hi)

end Apply

section Process

variable {p : Uuid} {d e : Data} (h : d.Alike p e) (hd : d.Scoped) (he : e.Scoped) (conv : Conv)

include h hd he

theorem applyOp_agree (userId : Uuid) (change : SyncChange) (now : Time) :
    Agree (fun x y ↦ x.2 = y.2 ∧
      Agree (Data.Alike p) (flush x.1 now x.2.2) (flush y.1 now y.2.2))
      (applyOp conv d userId p change now) (applyOp conv e userId p change now) := by
  have hfound : ∀ {entityId : Uuid} {r : Row},
      fetchObj d change.entity entityId p = some r → d.row r.key = some r ∧
        e.row r.key = some r ∧ d.projectOf r = some p ∧ r.table = change.entity.table := by
    intro entityId r hobj
    obtain ⟨hrow, hp⟩ := fetchObj_some hobj
    have hkey := Table.key_of_find Row.key hrow
    have hre := (fetchObj_some ((h.fetchObj_eq _ _).symm.trans hobj)).1
    exact ⟨hkey ▸ hrow, hkey ▸ hre, hp, congrArg Prod.fst hkey⟩
  unfold applyOp
  cases change.op with
  | upsert =>
    refine .bind (.of_eq rfl) fun entityId _ _ _ hid ↦ ?_
    subst hid
    simp only
    rw [← h.fetchObj_eq]
    cases hobj : fetchObj d change.entity entityId p with
    | none =>
      refine .bind (.of_eq (h.createNew_eq conv userId _ entityId _ now)) fun obj _ hnew _ hs ↦ ?_
      subst hs
      obtain ⟨hown, ht⟩ := createNew_target hnew
      exact .ok ⟨rfl, .map (flushInsert_agree h hd he hown ht) fun a b hab ↦ hab.audited _⟩
    | some r =>
      obtain ⟨hdr, her, hp, htable⟩ := hfound hobj
      refine .bind (claimExisting_agree h hd hobj _ now) fun c c' _ _ hc ↦ ?_
      obtain ⟨rfl, rfl⟩ := hc
      have hclaimed := h.claimed hd he hdr her hp now
      refine .bind (.of_eq (hclaimed.updateExisting_eq conv _ r _ now)) fun obj _ hupd _ hs ↦ ?_
      subst hs
      exact .ok ⟨rfl, flush_agree h hd he hdr her hp (updateExisting_ok hupd).1
        (updateExisting_claimed hd hdr hp htable hupd)⟩
  | delete =>
    refine .bind (.of_eq rfl) fun entityId _ _ _ hid ↦ ?_
    subst hid
    simp only
    rw [← h.fetchObj_eq]
    cases hobj : fetchObj d change.entity entityId p with
    | none => exact .ok ⟨rfl, .ok h⟩
    | some r =>
      obtain ⟨hdr, her, hp, -⟩ := hfound hobj
      refine .bind (claimExisting_agree h hd hobj _ now) fun c c' _ _ hc ↦ ?_
      obtain ⟨rfl, rfl⟩ := hc
      exact .ok ⟨rfl, flush_agree h hd he hdr her hp (r.keeps_softDelete now)
        ((hd.holds (Table.mem_of_find Row.key hdr) hp).softDelete now)⟩

theorem applyChange_agree (userId : Uuid) (change : SyncChange) (now : Time) :
    Agree (fun x y ↦ x.1.Alike p y.1 ∧ x.2 = y.2) (applyChange conv d userId p change now)
      (applyChange conv e userId p change now) := by
  refine .bind (applyOp_agree h hd he conv userId change now) fun x y _ _ hxy ↦ ?_
  obtain ⟨d₁, id₁, write⟩ := x
  obtain ⟨e₁, id₂, write'⟩ := y
  obtain ⟨hwrite, hflush⟩ := hxy
  cases hwrite
  exact .bind hflush fun a b _ _ hab ↦ .ok ⟨hab, rfl⟩

theorem processNewPushChange_agree (userId : Uuid) (role : Role) (change : SyncChange)
    (now : Time) :
    let o := processNewPushChange conv d userId p role change now
    let o' := processNewPushChange conv e userId p role change now
    o.data.Alike p o'.data ∧ o' = { o with data := o'.data } := by
  have happly := applyChange_agree h hd he conv userId change now
  unfold processNewPushChange
  rw [← h.requiredRole_eq]
  split
  · exact ⟨h, rfl⟩
  · cases hok : applyChange conv d userId p change now with
    | error failure => cases hok' : applyChange conv e userId p change now with
      | error failure' =>
        rw [hok, hok'] at happly
        cases happly
        have hdata : ∀ c : Data, (failedOutcome conv c change failure).data = c :=
          fun c ↦ (failedOutcome_data conv c change failure).1
        simp only
        refine ⟨by rw [hdata, hdata]; exact h, ?_⟩
        cases failure <;> rfl
      | ok y =>
        rw [hok, hok'] at happly
        cases happly
    | ok x => cases hok' : applyChange conv e userId p change now with
      | error failure =>
        rw [hok, hok'] at happly
        cases happly
      | ok y =>
        rw [hok, hok'] at happly
        obtain ⟨d', id₁⟩ := x
        obtain ⟨e', id₂⟩ := y
        cases happly with
        | ok hxy =>
          obtain ⟨halike, hid⟩ := hxy
          simp only at hid
          subst hid
          have hd' := (applyChange_confined hd hok).inScope
          refine ⟨halike, ?_⟩
          simp only [acceptedResponse, halike.currentServerState_eq hd']

end Process

variable {Digest : Type}

/-- Receipts of one change id, both of the project and equal, or neither of the project. -/
structure SyncReceipt.Same (p : Uuid) (x y : SyncReceipt Digest) : Prop where
  changeId : x.changeId = y.changeId
  project : x.projectId = p ↔ y.projectId = p
  same : x.projectId = p → x = y

/-- The databases differ in the contents of the rows and receipts of other projects, and not in
their ids. -/
structure Db.Alike (p : Uuid) (db other : Db Digest) : Prop where
  data : db.data.Alike p other.data
  receipts : List.Forall₂ (SyncReceipt.Same p) db.receipts other.receipts

theorem Db.Alike.part_eq {p : Uuid} {db other : Db Digest} (h : db.Alike p other) :
    db.part p = other.part p := by
  have hrows := Table.filter_forall₂ h.data.rows (p := fun r ↦ db.data.projectOf r = some p)
    (q := fun r ↦ other.data.projectOf r = some p) fun r s hrs ↦
      ⟨decide_eq_decide.mpr hrs.project, fun hp ↦ hrs.same (of_decide_eq_true hp)⟩
  have hreceipts := Table.filter_forall₂ h.receipts (p := fun r ↦ r.projectId = p)
    (q := fun r ↦ r.projectId = p) fun x y hxy ↦
      ⟨decide_eq_decide.mpr hxy.project, fun hp ↦ hxy.same (of_decide_eq_true hp)⟩
  unfold Db.part Data.part
  rw [hrows, hreceipts, h.data.audit, h.data.lastSequence]

/-- Loops of `push_changes` over alike databases that have answered alike. -/
structure PushContext.Alike (a b : PushContext Digest) : Prop where
  db : a.db.Alike a.projectId b.db
  scoped₁ : a.db.data.Scoped
  scoped₂ : b.db.data.Scoped
  userId : a.userId = b.userId
  projectId : a.projectId = b.projectId
  role : a.role = b.role
  existing : ∀ x, Option.Rel (SyncReceipt.Same a.projectId) (a.existingReceipts x)
    (b.existingReceipts x)
  results : a.results = b.results
  batchResults : a.batchResults = b.batchResults
  batchHashes : a.batchHashes = b.batchHashes

section Loop

variable [DecidableEq Digest] (conv : Conv) (sha : Payload → Digest) {a b : PushContext Digest}

namespace PushContext.Alike

variable (h : a.Alike b)

include h

omit [DecidableEq Digest] in
theorem seen_eq (x : Uuid) : a.seen x = b.seen x := by
  have hexisting := h.existing x
  unfold PushContext.seen
  rw [h.batchHashes]
  generalize a.existingReceipts x = x₁ at hexisting ⊢
  generalize b.existingReceipts x = x₂ at hexisting ⊢
  cases hexisting with
  | none => rfl
  | some => rfl

theorem duplicateResult_eq (change : SyncChange) :
    a.duplicateResult conv sha change = b.duplicateResult conv sha change := by
  have hrefresh : ∀ replay, refreshAcceptedReplay a.db.data a.projectId b.userId replay =
      refreshAcceptedReplay b.db.data a.projectId b.userId replay := by
    intro replay
    unfold refreshAcceptedReplay
    simp only [h.db.data.currentServerState_eq h.scoped₁]
  have hexisting := h.existing change.changeId
  unfold PushContext.duplicateResult
  simp only [h.batchResults, h.batchHashes, h.userId, ← h.projectId, hrefresh]
  cases ha : a.existingReceipts change.changeId with
  | none => cases hb : b.existingReceipts change.changeId with
    | none => rfl
    | some y =>
      rw [ha, hb] at hexisting
      cases hexisting
  | some x => cases hb : b.existingReceipts change.changeId with
    | none =>
      rw [ha, hb] at hexisting
      cases hexisting
    | some y =>
      rw [ha, hb] at hexisting
      cases hexisting with
      | some hxy =>
        by_cases hp : x.projectId = a.projectId
        · obtain rfl := hxy.same hp
          rfl
        · have hx : duplicateErrorReason sha change (some x) (b.batchHashes change.changeId)
              b.userId a.projectId = some "change_id_in_use" := by
            simp [duplicateErrorReason, hp]
          have hy : duplicateErrorReason sha change (some y) (b.batchHashes change.changeId)
              b.userId a.projectId = some "change_id_in_use" := by
            have hp' : y.projectId ≠ a.projectId := fun he ↦ hp (hxy.project.mpr he)
            simp [duplicateErrorReason, hp']
          rw [hx, hy]

theorem step (c : SyncChange × Time) : (a.step conv sha c).Alike (b.step conv sha c) := by
  by_cases hs : a.seen c.1.changeId = true
  · have hs' : b.seen c.1.changeId = true := by rwa [← h.seen_eq]
    rw [PushContext.step_of_seen conv sha hs, PushContext.step_of_seen conv sha hs']
    refine ⟨h.db, h.scoped₁, h.scoped₂, h.userId, h.projectId, h.role, h.existing, ?_,
      h.batchResults, h.batchHashes⟩
    simp only [PushContext.recordDuplicate, h.results, h.duplicateResult_eq conv sha]
  · have hs' : ¬ b.seen c.1.changeId = true := by rwa [← h.seen_eq]
    rw [PushContext.step_of_new conv sha hs, PushContext.step_of_new conv sha hs']
    obtain ⟨hdata, hout⟩ := processNewPushChange_agree h.db.data h.scoped₁ h.scoped₂ conv a.userId
      a.role c.1 c.2
    have hout : b.outcome conv c = { a.outcome conv c with data := (b.outcome conv c).data } := by
      simp only [PushContext.outcome, ← h.userId, ← h.projectId, ← h.role]
      exact hout
    have hdata : (a.outcome conv c).data.Alike a.projectId (b.outcome conv c).data := by
      simp only [PushContext.outcome, ← h.userId, ← h.projectId, ← h.role]
      exact hdata
    have hresult : (a.outcome conv c).result c.1 = (b.outcome conv c).result c.1 := by
      rw [hout]
      rfl
    have hreceipts : (a.outcome conv c).receipts sha a.userId a.projectId c.1 c.2 =
        (b.outcome conv c).receipts sha b.userId b.projectId c.1 c.2 := by
      rw [hout, h.userId, h.projectId]
      rfl
    have hscoped₁ := (processNewPushChange_within conv h.scoped₁ a.userId a.role c.1 c.2
      (p := a.projectId)).1.inScope
    have hscoped₂ := (processNewPushChange_within conv h.scoped₂ b.userId b.role c.1 c.2
      (p := b.projectId)).1.inScope
    refine ⟨⟨hdata, ?_⟩, hscoped₁, hscoped₂, h.userId, h.projectId, h.role, h.existing, ?_, ?_, ?_⟩
    · simp only [PushContext.recordNew, ← hreceipts]
      refine List.rel_append h.db.receipts ?_
      exact List.forall₂_same.mpr fun x _ ↦ ⟨rfl, Iff.rfl, fun _ ↦ rfl⟩
    · simp only [PushContext.recordNew, hresult, h.results]
    · simp only [PushContext.recordNew, hresult, h.batchResults]
    · simp only [PushContext.recordNew, h.batchHashes]

theorem run (cs : List (SyncChange × Time)) : (a.run conv sha cs).Alike (b.run conv sha cs) := by
  induction cs generalizing a b with
  | nil => exact h
  | cons c cs ih => exact ih (h.step conv sha c)

end PushContext.Alike

/-- Alike databases answer a push alike and end with the same project. -/
theorem pushChanges_alike {p : Uuid} {db other : Db Digest} (h : db.Alike p other)
    (hd : db.data.Scoped) (he : other.data.Scoped) (userId : Uuid)
    (changes : List (SyncChange × Time)) :
    (pushChanges conv sha db userId p changes).map (fun o ↦ (o.2, o.1.part p)) =
      (pushChanges conv sha other userId p changes).map fun o ↦ (o.2, o.1.part p) := by
  have hrole : db.data.getMemberRole p userId = other.data.getMemberRole p userId := by
    unfold Data.getMemberRole
    rw [h.data.memberRole, h.data.superusers]
  unfold pushChanges openPush
  rw [← h.data.lastSequence, ← hrole]
  split
  · rfl
  · cases db.data.getMemberRole p userId with
    | none => rfl
    | some role =>
      have hstart : (PushContext.start db userId p role changes).Alike
          (.start other userId p role changes) := by
        refine ⟨h, hd, he, rfl, rfl, rfl, fun x ↦ ?_, rfl, rfl, rfl⟩
        simp only [PushContext.start, loadExistingReceipts]
        split
        · exact Table.find_forall₂ SyncReceipt.changeId h.receipts (fun _ _ hxy ↦ hxy.changeId) x
        · exact .none
      have hrun := hstart.run conv sha changes
      have hproject := (PushContext.run_owner conv sha (.start db userId p role changes)
        changes).2.1
      have hdb := hrun.db
      rw [hproject] at hdb
      have hpart : ((PushContext.start db userId p role changes).run conv sha changes).db.part p =
          ((PushContext.start other userId p role changes).run conv sha changes).db.part p :=
        hdb.part_eq
      simp only [Except.map, hrun.results, hpart]

end Loop

/-- Project isolation. From every reachable state, a push to a project changes nothing stored of
another, its results show no record of another, and what another holds, ids apart, shows neither
in the results nor in the project afterwards. -/
theorem project_isolation [DecidableEq Digest] {conv : Conv} {sha : Payload → Digest}
    {db : Db Digest} (h : Reachable conv sha db) (userId projectId : Uuid)
    (changes : List (SyncChange × Time)) :
    (∀ db' results, pushChanges conv sha db userId projectId changes = .ok (db', results) →
      (∀ q, q ≠ projectId → db'.part q = db.part q) ∧
        ∀ result ∈ results, result.body.Within db'.data projectId) ∧
    ∀ other : Db Digest, other.data.Scoped → db.Alike projectId other →
      (pushChanges conv sha db userId projectId changes).map (fun o ↦ (o.2, o.1.part projectId)) =
        (pushChanges conv sha other userId projectId changes).map fun o ↦
          (o.2, o.1.part projectId) := by
  have hscoped := h.scoped
  refine ⟨fun db' results hpush ↦ (pushChanges_within conv sha hscoped hpush).2, ?_⟩
  intro other hother halike
  exact pushChanges_alike conv sha halike hscoped.data hother userId changes

def bareDb : Db Val :=
  ⟨⟨[], [], fun _ ↦ some 0, fun _ _ ↦ some .manager, [], [10]⟩, []⟩

def newRisk (changeId id : Uuid) (title : String) : SyncChange × Time :=
  (⟨changeId, .risk, .upsert, none, Dict.ofList [(.id, .uuid id), (.title, .str title)]⟩, 5)

/-- A risk of project 2 is neither overwritten nor shown by a push to project 1 that names it. -/
theorem project_isolation_sample :
    ∃ db before db' results,
      pushChanges Conv.strict titleDigest bareDb 10 2 [newRisk 1 100 "Q"] =
        .ok (db, before) ∧
      pushChanges Conv.strict titleDigest db 10 1 [newRisk 2 100 "P"] = .ok (db', results) ∧
      db'.part 2 = db.part 2 ∧ results.map (fun r ↦ r.body.reason) =
        [some "constraint_violation"] := by
  refine ⟨_, _, _, _, rfl, rfl, ?_, rfl⟩
  have hfirst : pushChanges Conv.strict titleDigest bareDb 10 2 [newRisk 1 100 "Q"] = .ok _ :=
    rfl
  exact ((project_isolation (.push (.empty rfl) hfirst) 10 1 [newRisk 2 100 "P"]).1 _ _
    rfl).1 2 (by decide)

end RiskApp.Server
