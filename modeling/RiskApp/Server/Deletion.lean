import RiskApp.Server.ExactlyOnce
import RiskApp.Server.ItemCalls
import RiskApp.Server.Written

namespace RiskApp.Server

open Lib Lib.Result

def Data.deleted (d : Data) (k : RowKey) : Bool := ((d.row k).map Row.isDeleted).getD false

def Table.managed (t : Table) : Prop := t = .items ∨ t = .actions

/-- What a request of the user may do to the rows, by the role the user has in the project. -/
structure Guarded (d d' : Data) (projectId userId : Uuid) : Prop where
  deletion : d.getMemberRole projectId userId = some .member ∨
    d.getMemberRole projectId userId = some .viewer →
    ∀ k : RowKey, k.1.managed → d'.deleted k = d.deleted k
  viewer : d.getMemberRole projectId userId = some .viewer → d'.rows = d.rows
  assessments : ∀ k r, d.row k = some r → r.table = .assessments →
    r.attrs .assessorUserId ≠ .uuid userId → d'.row k = some r

section Rows

variable {d d' : Data}

theorem Data.row_of_rows (h : d'.rows = d.rows) (k : RowKey) : d'.row k = d.row k := by
  rw [Data.row, h]
  rfl

theorem Data.row_of_replace {r r' : Row} (hr : d.row r.key = some r) (hk : r'.key = r.key)
    (hrows : d'.rows = Table.replace Row.key r' d.rows) (k : RowKey) :
    d'.row k = if k = r.key then some r' else d.row k := by
  rw [← Data.row_replace hr hk k]
  exact Data.row_of_rows hrows k

theorem Data.row_of_append {r' : Row} (hrows : d'.rows = d.rows ++ [r'])
    (hfresh : d.row r'.key = none) (k : RowKey) :
    d'.row k = if k = r'.key then some r' else d.row k := by
  have happ := Table.find_append Row.key k d.rows [r']
  rw [Table.find_singleton] at happ
  rw [Data.row, hrows, happ]
  by_cases hk : k = r'.key
  · subst hk
    have hnone : Table.find Row.key r'.key d.rows = none := hfresh
    simp [hnone]
  · rw [if_neg hk, if_neg (Ne.symm hk), Option.or_none]
    rfl

theorem Data.deleted_of_replace {r r' : Row} (hr : d.row r.key = some r) (hk : r'.key = r.key)
    (hrows : d'.rows = Table.replace Row.key r' d.rows) (hdel : r'.isDeleted = r.isDeleted)
    (k : RowKey) : d'.deleted k = d.deleted k := by
  unfold Data.deleted
  rw [Data.row_of_replace hr hk hrows]
  split
  · rename_i he
    rw [he, hr]
    exact hdel
  · rfl

theorem Data.deleted_of_append {r' : Row} (hrows : d'.rows = d.rows ++ [r'])
    (hfresh : d.row r'.key = none) (hdel : r'.isDeleted = false) (k : RowKey) :
    d'.deleted k = d.deleted k := by
  unfold Data.deleted
  rw [Data.row_of_append hrows hfresh]
  split
  · rename_i he
    rw [he, hfresh]
    exact hdel
  · rfl

end Rows

theorem Guarded.refl (d : Data) (projectId userId : Uuid) : Guarded d d projectId userId :=
  ⟨fun _ _ _ ↦ rfl, fun _ ↦ rfl, fun _ _ h _ _ ↦ h⟩

theorem Guarded.trans {d d' d'' : Data} {projectId userId : Uuid}
    (hrole : d'.getMemberRole projectId userId = d.getMemberRole projectId userId)
    (h : Guarded d d' projectId userId) (h' : Guarded d' d'' projectId userId) :
    Guarded d d'' projectId userId := by
  refine ⟨fun hr k hk ↦ ?_, fun hr ↦ ?_, fun k r hrow ht ha ↦ ?_⟩
  · rw [h'.deletion (by rwa [hrole]) k hk, h.deletion hr k hk]
  · rw [h'.viewer (by rwa [hrole]), h.viewer hr]
  · exact h'.assessments k r (h.assessments k r hrow ht ha) ht ha

namespace Row

theorem changeStatus_isDeleted (r : Row) (v : Val) (now : Time) :
    (r.changeStatus v now).attrs .isDeleted = r.attrs .isDeleted := by
  unfold changeStatus
  split
  · rfl
  · simp only
    split <;> simp [setAttr_attrs_of_ne]

theorem setAttr_isDeleted (r : Row) (g : Attr × Val) :
    (r.setAttr g.1 g.2).attrs .isDeleted =
      if g.1 = .isDeleted then g.2 else r.attrs .isDeleted := by
  split
  · rename_i hg
    rw [hg]
    simp [setAttr]
  · rename_i hg
    exact r.setAttr_attrs_of_ne _ (Ne.symm hg)

theorem assign_isDeleted (now : Time) (r : Row) (g : Attr × Val) :
    (r.assign now g).attrs .isDeleted =
      if g.1 = .isDeleted then g.2 else r.attrs .isDeleted := by
  unfold assign
  split
  · rename_i hg
    rw [r.changeStatus_isDeleted, if_neg (by rw [hg.1]; decide)]
  · exact r.setAttr_isDeleted g

theorem foldl_isDeleted {f : Row → Attr × Val → Row}
    (hf : ∀ r g, (f r g).attrs .isDeleted =
      if g.1 = Attr.isDeleted then g.2 else r.attrs .isDeleted)
    {fields : List (Attr × Val)} (hnodup : (fields.map Prod.fst).Nodup) (r : Row) :
    (fields.foldl f r).attrs .isDeleted =
      ((Table.find Prod.fst .isDeleted fields).map Prod.snd).getD (r.attrs .isDeleted) := by
  induction fields generalizing r with
  | nil => rfl
  | cons g fields ih =>
    obtain ⟨hfree, hrest⟩ := List.nodup_cons.mp hnodup
    rw [List.foldl_cons, ih hrest, Table.find_cons, hf]
    by_cases hg : g.1 = .isDeleted
    · have hnone : Table.find Prod.fst Attr.isDeleted fields = none :=
        (Table.find_eq_none Prod.fst).mpr fun x hx he ↦
          hfree (hg.trans he.symm ▸ List.mem_map_of_mem hx)
      simp [hg, hnone]
    · simp [hg]

end Row

theorem recalculateItemScores_isDeleted (r : Row) :
    (recalculateItemScores r).attrs .isDeleted = r.attrs .isDeleted := by
  unfold recalculateItemScores
  split
  · simp only
    split <;> simp [Row.setAttr_attrs_of_ne]
  · rfl

theorem isDeleted_mem_columns (t : Table) : .isDeleted ∈ t.columns := by
  cases t <;> decide

theorem clientFields_isDeleted (t : Table) (val : Parsed) :
    (Table.find Prod.fst .isDeleted (clientFields t val)).map Prod.snd = val.find .isDeleted := by
  unfold clientFields
  rw [Table.find_filter Prod.fst .isDeleted val.fields]
  · rfl
  · intro f _ hf
    simp [hf, isDeleted_mem_columns]

/-- The flag after an update: untouched, nulled, or set to the record's truth value. -/
def flagAfter (old : Val) : Option Val → Val
  | none => old
  | some v => if v = .null then .null else .bool v.truthy

theorem Row.update_isDeleted {val : Parsed} (hnodup : (val.fields.map Prod.fst).Nodup) (r : Row)
    (now : Time) :
    (r.update val now).attrs .isDeleted =
      flagAfter (r.attrs .isDeleted) (val.find .isDeleted) := by
  have hfields : ((clientFields r.table val).map Prod.fst).Nodup := clientFields_nodup hnodup
  have hassign := Row.foldl_isDeleted (Row.assign_isDeleted now) hfields r
  rw [clientFields_isDeleted] at hassign
  have hsoft : ∀ s : Row, (s.softDelete now).attrs .isDeleted = .bool true := by
    intro s
    unfold Row.softDelete
    simp only
    split
    · rw [Row.changeStatus_isDeleted]
      simp [Row.setAttr]
    · simp [Row.setAttr]
  cases hfind : val.find .isDeleted with
  | none =>
    rw [hfind] at hassign
    have hget : val.get .isDeleted = .null := by rw [Parsed.get, hfind]; rfl
    simp [Row.update, hget, Row.setAttr_attrs_of_ne, recalculateItemScores_isDeleted, hassign,
      flagAfter]
  | some v =>
    rw [hfind] at hassign
    have hget : val.get .isDeleted = v := by rw [Parsed.get, hfind]; rfl
    by_cases hnull : v = .null
    · simp [Row.update, hget, Row.setAttr_attrs_of_ne, recalculateItemScores_isDeleted, hassign,
        flagAfter, hnull]
    · by_cases htrue : v.truthy = true
      · simp [Row.update, hget, hnull, htrue, Row.setAttr_attrs_of_ne,
          recalculateItemScores_isDeleted, hsoft, flagAfter]
      · have hfalse : v.truthy = false := by simpa using htrue
        simp [Row.update, hget, hnull, hfalse, recalculateItemScores_isDeleted, flagAfter,
          Row.setAttr]

theorem isDeleted_notNull (t : Table) : .isDeleted ∈ t.notNull := by
  cases t <;> decide

theorem flushUpdate_flag {d d' : Data} {r : Row} (h : flushUpdate d r = .ok d') :
    r.attrs .isDeleted ≠ .null := by
  obtain ⟨⟨d₁, r₁⟩, hw, h⟩ := bind_ok h
  obtain ⟨p, n, -, -, hst, -⟩ := beforeWrite_ok hw
  obtain ⟨_, -, h⟩ := bind_ok h
  obtain ⟨_, hadm, -⟩ := bind_ok h
  have hadmits := require_ok hadm
  simp only [Data.admits, Bool.and_eq_true] at hadmits
  have hflag := List.all_eq_true.mp hadmits.1.1.1.1 _ (isDeleted_notNull r₁.table)
  rw [← hst.attrs .isDeleted (by decide)]
  simpa using hflag

theorem Row.isDeleted_of_flag {r s : Row} (h : r.attrs .isDeleted = s.attrs .isDeleted) :
    r.isDeleted = s.isDeleted := by
  rw [Row.isDeleted, Row.isDeleted, h]

theorem Row.withDefaults_isDeleted {r : Row} (now : Time)
    (h : r.attrs .isDeleted = .null ∨ r.attrs .isDeleted = .bool false) :
    (r.withDefaults now).isDeleted = false := by
  rcases h with h | h
  · have hdefault : (r.withDefaults now).attrs .isDeleted = .bool false := by
      simp only [Row.withDefaults, h, if_true]
      cases r.table <;> rfl
    simp [Row.isDeleted, hdefault]
  · simp [Row.isDeleted, Row.withDefaults, h]

section Push

variable {conv : Conv} (hconv : conv.Truthful)

include hconv

/-- Authorization and mutation read the same id. -/
theorem maybeEntityId_of_parseUuid {record : Dict} {name : String} {u : Uuid}
    (h : parseUuid conv name (record.get .id) = .ok u) : maybeEntityId conv record = some u := by
  unfold maybeEntityId
  cases hid : record.get .id with
  | uuid v =>
    rw [hid] at h
    cases h
    rfl
  | null =>
    rw [hid] at h
    cases h
  | _ =>
    rw [hid] at h
    simp only [parseUuid] at h
    split at h
    · rename_i w hw
      cases h
      simp only [hconv.uuidOfText _ _ hw, if_true, hw]
    · cases h

theorem parseRecord_flag {entity : Entity} {record : Dict} {val : Parsed}
    (h : parseRecord conv entity record = .ok val)
    (hstatus : ¬(entity.scored = true ∧ statusText (record.get .status) = "deleted".toList))
    (hflag : (record.get .isDeleted).truthy = false) :
    val.find .isDeleted = none ∨ val.find .isDeleted = some .null ∨
      record.has .isDeleted = true ∧ val.find .isDeleted = some (.bool false) := by
  rcases parseRecord_isDeleted h with ⟨hs, ht, -⟩ | hval
  · exact absurd ⟨hs, ht⟩ hstatus
  · generalize hfind : val.find .isDeleted = w at hval
    cases w with
    | none => exact Or.inl rfl
    | some w =>
      right
      have htruthy : w.truthy = false := by
        by_contra hw
        have := hval.bool_true hconv (by simpa using hw)
        rw [Dict.get] at hflag
        rw [hflag] at this
        cases this
      cases hrec : record .isDeleted with
      | none =>
        rw [hrec] at hval
        cases hval
      | some v =>
        rw [hrec] at hval
        cases hval with
        | null => exact Or.inl rfl
        | value ne parsed =>
          right
          refine ⟨by simp [Dict.has, hrec], ?_⟩
          obtain ⟨b, rfl⟩ : ∃ b, w = .bool b := by
            cases v <;> simp only [FieldType.parse, Option.map_eq_some_iff, Option.some.injEq]
              at parsed <;> first | exact ⟨_, parsed.symm⟩ | exact parsed.imp fun _ h ↦ h.2.symm
          exact congrArg (fun b ↦ some (Val.bool b)) htruthy

end Push

theorem requiresManager_false {conv : Conv} {d : Data} {projectId : Uuid} {change : SyncChange}
    (hm : managerDelete change.entity = true)
    (h : requiresManager conv d projectId change = false) :
    change.op = .upsert ∧
      ¬(change.entity.scored = true ∧
        statusText (change.record.get .status) = "deleted".toList) ∧
      (change.record.get .isDeleted).truthy = false ∧
      (change.record.has .isDeleted = true → ∀ entityId r,
        maybeEntityId conv change.record = some entityId →
        fetchObj d change.entity entityId projectId = some r → r.isDeleted = false) := by
  unfold requiresManager at h
  simp only [hm, Bool.not_true, Bool.false_eq_true, if_false] at h
  split at h
  · cases h
  · rename_i hop
    split at h
    · cases h
    · rename_i hstatus
      split at h
      · cases h
      · rename_i hflag
        refine ⟨?_, hstatus, by simpa using hflag, fun hhas entityId r hid hr ↦ ?_⟩
        · cases hc : change.op with
          | upsert => rfl
          | delete => exact absurd hc hop
        · simpa [hhas, hid, hr] using h

theorem createNew_flag {conv : Conv} {d : Data} {userId projectId entityId : Uuid}
    {entity : Entity} {record : Dict} {now : Time} {obj : Row}
    (h : createNew conv d userId projectId entity entityId record now = .ok obj) :
    ∃ val, parseRecord conv entity record = .ok val ∧
      obj.attrs .isDeleted = (val.find .isDeleted).getD .null := by
  obtain ⟨val, hval, h⟩ := bind_ok h
  obtain ⟨val', hcode, h⟩ := bind_ok h
  obtain ⟨_, -, h⟩ := bind_ok h
  cases h
  refine ⟨val, hval, ?_⟩
  have hnodup := parseRecord_nodup hval
  have hval' : (val'.fields.map Prod.fst).Nodup ∧
      val'.find .isDeleted = val.find .isDeleted := by
    unfold withItemCode at hcode
    split at hcode
    · obtain ⟨code, -, rfl⟩ := map_ok hcode
      exact ⟨Parsed.nodup_set hnodup _ _, by rw [Parsed.find_set, if_neg (by decide)]⟩
    · cases hcode
      exact ⟨hnodup, rfl⟩
  rw [recalculateItemScores_isDeleted]
  have hfields : ((clientFields entity.table val').map Prod.fst).Nodup := clientFields_nodup hval'.1
  have hset := Row.foldl_isDeleted Row.setAttr_isDeleted hfields
  rw [clientFields_isDeleted, hval'.2] at hset
  refine (hset _).trans (congrArg _ ?_)
  exact Row.setAll_attrs_of_ne _ (by cases entity <;> simp [defaults])

theorem Applied.row_of_ne {d d' : Data} {userId projectId entityId : Uuid} {change : SyncChange}
    (h : Applied d userId projectId change entityId d') {k : RowKey}
    (hk : k ≠ (change.entity.table, entityId)) : d'.row k = d.row k := by
  cases h with
  | absent => rfl
  | modified entry found scope base pos keeps =>
    obtain ⟨hrow, -⟩ := fetchObj_some found
    have hkey := Table.key_of_find Row.key hrow
    rw [← hkey] at hrow
    rw [Data.row_of_replace hrow keeps.key rfl, if_neg (hkey ▸ hk)]
  | created entry op missing fresh key =>
    rw [Data.row_of_append rfl (key ▸ fresh), if_neg (key ▸ hk)]

/-- Whatever the record holds, a change that needs no manager deletes and undeletes nothing. -/
theorem applyChange_deletion {conv : Conv} (hconv : conv.Truthful) {d d' : Data}
    {userId projectId entityId : Uuid} {change : SyncChange} {now : Time}
    (h : applyChange conv d userId projectId change now = .ok (d', entityId))
    (hm : requiresManager conv d projectId change = false) (k : RowKey) (hk : k.1.managed) :
    d'.deleted k = d.deleted k := by
  cases hentity : managerDelete change.entity with
  | false =>
    have hne : ∀ id, k ≠ (change.entity.table, id) := by
      rintro id rfl
      revert hentity hk
      cases change.entity <;> simp [managerDelete, Entity.table, Table.managed]
    rw [Data.deleted, (applyChange_ok h).2.row_of_ne (hne entityId)]
    rfl
  | true =>
    obtain ⟨hop, hstatus, hflag, hlive⟩ := requiresManager_false hentity hm
    obtain ⟨⟨d₁, id₁, write⟩, happly, h⟩ := bind_ok h
    obtain ⟨d₂, hflush, h⟩ := bind_ok h
    cases h
    simp only [applyOp, hop] at happly
    obtain ⟨id₂, hid, happly⟩ := bind_ok happly
    cases hobj : fetchObj d change.entity id₂ projectId with
    | none =>
      simp only [hobj] at happly
      obtain ⟨obj, hnew, happly⟩ := bind_ok happly
      cases happly
      obtain ⟨d₃, hins, rfl⟩ := map_ok hflush
      obtain ⟨p, n, r', -, -, hst, hfresh, -, rfl⟩ := flushInsert_ok hins
      obtain ⟨val, hval, hobjFlag⟩ := createNew_flag hnew
      have hgiven : r'.attrs .isDeleted = .null ∨ r'.attrs .isDeleted = .bool false := by
        rw [hst.attrs .isDeleted (by decide), hobjFlag]
        rcases parseRecord_flag hconv hval hstatus hflag with hf | hf | ⟨-, hf⟩
        · exact Or.inl (by rw [hf]; rfl)
        · exact Or.inl (by rw [hf]; rfl)
        · exact Or.inr (by rw [hf]; rfl)
      have hkey : (r'.withDefaults now).key = obj.key := hst.key
      have hnone : _ = none := hfresh
      rw [← hkey] at hnone
      exact Data.deleted_of_append rfl hnone (Row.withDefaults_isDeleted now hgiven) k
    | some r =>
      simp only [hobj] at happly
      obtain ⟨claimed, hclaim, happly⟩ := bind_ok happly
      obtain ⟨obj, hupd, happly⟩ := bind_ok happly
      cases happly
      obtain ⟨-, -, -, rfl⟩ := claimExisting_ok hobj hclaim
      obtain ⟨hkeeps, -⟩ := updateExisting_ok hupd
      obtain ⟨val, hval, hupd⟩ := bind_ok hupd
      obtain ⟨_, -, hupd⟩ := bind_ok hupd
      cases hupd
      obtain ⟨hrow, -⟩ := fetchObj_some hobj
      rw [← Table.key_of_find Row.key hrow] at hrow
      obtain ⟨d₃, hupdate, rfl⟩ := map_ok hflush
      have hnull := flushUpdate_flag hupdate
      obtain ⟨p, n, r', -, -, hst, -, rfl⟩ := flushUpdate_ok hupdate
      have hkey : r'.key = r.key := hst.key.trans hkeeps.key
      refine Data.deleted_of_replace hrow hkey
        (Table.replace_replace Row.key _ ((r.keeps_claim now).key.trans hkey.symm)) ?_ k
      rw [Row.isDeleted_of_flag (hst.attrs .isDeleted (by decide))]
      rw [Row.update_isDeleted (parseRecord_nodup hval)] at hnull
      have hupdated := Row.update_isDeleted (parseRecord_nodup hval) r now
      rcases parseRecord_flag hconv hval hstatus hflag with hf | hf | ⟨hhas, hf⟩
      · rw [hf] at hupdated
        exact Row.isDeleted_of_flag hupdated
      · rw [hf] at hnull
        exact absurd rfl hnull
      · have hr := hlive hhas _ r (maybeEntityId_of_parseUuid hconv hid) hobj
        rw [hr, Row.isDeleted, hupdated, hf]
        rfl

theorem Applied.keeps_assessment {d d' : Data} {userId projectId entityId : Uuid}
    {change : SyncChange} (h : Applied d userId projectId change entityId d') {k : RowKey}
    {r : Row} (hr : d.row k = some r) (ht : r.table = .assessments)
    (ha : r.attrs .assessorUserId ≠ .uuid userId) : d'.row k = some r := by
  cases h with
  | absent => exact hr
  | @modified s s' n entry found scope base pos keeps =>
    obtain ⟨hrow, -⟩ := fetchObj_some found
    have hkey := Table.key_of_find Row.key hrow
    rw [← hkey] at hrow
    rw [Data.row_of_replace hrow keeps.key rfl, if_neg, hr]
    rintro rfl
    obtain rfl : s = r := Option.some.inj (hrow.symm.trans hr)
    have hentity : change.entity = .assessment := by
      have htable := (congrArg Prod.fst hkey).symm.trans ht
      cases hc : change.entity <;> simp [hc, Entity.table] at htable ⊢
    simp only [inVersionScope, hentity, Bool.and_eq_true] at scope
    exact ha (by simpa using scope.2)
  | created entry op missing fresh key =>
    rw [Data.row_of_append rfl (key ▸ fresh), if_neg, hr]
    rintro rfl
    rw [key, fresh] at hr
    cases hr

section Run

variable {Digest : Type} [DecidableEq Digest] {conv : Conv} (hconv : conv.Truthful)

include hconv

theorem processNewPushChange_guarded {d : Data} {userId projectId : Uuid} {role : Role}
    (hrole : d.getMemberRole projectId userId = some role) (change : SyncChange) (now : Time) :
    Guarded d (processNewPushChange conv d userId projectId role change now).data projectId
      userId := by
  unfold processNewPushChange
  split
  · exact .refl d projectId userId
  · rename_i hrank
    split
    · rename_i e _
      rw [(failedOutcome_data conv d change e).1]
      exact .refl d projectId userId
    · rename_i d' entityId happ
      refine ⟨fun hlow k hk ↦ applyChange_deletion hconv happ ?_ k hk, fun hviewer ↦ ?_,
        fun k r hr ht ha ↦ (applyChange_ok happ).2.keeps_assessment hr ht ha⟩
      · rw [hrole] at hlow
        by_contra hm
        apply hrank
        rw [requiredRole, if_pos (by simpa using hm)]
        rcases hlow with h | h <;> cases h <;> decide
      · rw [hrole] at hviewer
        cases hviewer
        refine absurd ?_ hrank
        unfold requiredRole
        split <;> decide

namespace PushContext

variable (sha : Payload → Digest)

theorem step_guarded {ctx : PushContext Digest} (c : SyncChange × Time)
    (hrole : ctx.db.data.getMemberRole ctx.projectId ctx.userId = some ctx.role) :
    Guarded ctx.db.data (ctx.step conv sha c).db.data ctx.projectId ctx.userId := by
  by_cases hs : ctx.seen c.1.changeId = true
  · rw [step_of_seen conv sha hs]
    exact .refl _ _ _
  · rw [step_of_new conv sha hs]
    exact processNewPushChange_guarded hconv hrole c.1 c.2

theorem run_guarded {ctx : PushContext Digest} (cs : List (SyncChange × Time))
    (hrole : ctx.db.data.getMemberRole ctx.projectId ctx.userId = some ctx.role) :
    Guarded ctx.db.data (ctx.run conv sha cs).db.data ctx.projectId ctx.userId := by
  induction cs generalizing ctx with
  | nil => exact .refl _ _ _
  | cons c cs ih =>
    have hstep := step_guarded hconv sha c hrole
    have haccess := (run_sameAccess conv sha ctx [c]).role ctx.projectId ctx.userId
    obtain ⟨hu, hp, hr, -⟩ := step_owner conv sha ctx c
    have hrun := @ih (ctx.step conv sha c) (by rw [hu, hp, hr, ← hrole]; exact haccess)
    rw [hu, hp] at hrun
    exact hstep.trans haccess hrun

end PushContext

end Run

section Rest

variable {d d' : Data} {projectId userId : Uuid}

theorem Guarded.of_replace {r r' : Row}
    (hviewer : d.getMemberRole projectId userId ≠ some .viewer) (hr : d.row r.key = some r)
    (hk : r'.key = r.key) (hrows : d'.rows = Table.replace Row.key r' d.rows)
    (hown : r.table = .assessments → r.attrs .assessorUserId = .uuid userId)
    (hdel : d.getMemberRole projectId userId = some .member → r.table.managed →
      r'.isDeleted = r.isDeleted) : Guarded d d' projectId userId := by
  refine ⟨fun hlow k hmanaged ↦ ?_, fun h ↦ absurd h hviewer, fun k s hs ht ha ↦ ?_⟩
  · by_cases hkr : k = r.key
    · have hmember := hlow.resolve_right hviewer
      subst hkr
      exact Data.deleted_of_replace hr hk hrows (hdel hmember hmanaged) _
    · unfold Data.deleted
      rw [Data.row_of_replace hr hk hrows, if_neg hkr]
  · rw [Data.row_of_replace hr hk hrows, if_neg, hs]
    rintro rfl
    obtain rfl : r = s := Option.some.inj (hr.symm.trans hs)
    exact ha (hown ht)

theorem Guarded.of_insert {r : Row} {now : Time}
    (hviewer : d.getMemberRole projectId userId ≠ some .viewer)
    (hflag : r.attrs .isDeleted = .bool false) (h : flushInsert d r now = .ok d') :
    Guarded d d' projectId userId := by
  obtain ⟨p, n, r', -, -, hst, hfresh, -, rfl⟩ := flushInsert_ok h
  have hdel : (r'.withDefaults now).isDeleted = false :=
    Row.withDefaults_isDeleted now (Or.inr ((hst.attrs .isDeleted (by decide)).trans hflag))
  have hkey : (r'.withDefaults now).key = r.key := hst.key
  rw [← hkey] at hfresh
  refine ⟨fun _ k _ ↦ Data.deleted_of_append rfl hfresh hdel k, fun h ↦ absurd h hviewer,
    fun k s hs _ _ ↦ ?_⟩
  rw [Data.row_of_append rfl hfresh, if_neg, hs]
  rintro rfl
  rw [hfresh] at hs
  cases hs

variable (hkeys : (d.rows.map Row.key).Nodup)

include hkeys

theorem Patch.run_guarded {p : Patch} {notFoundDetail : Option String}
    {check : Data → Except PushError Unit}
    (hviewer : d.getMemberRole projectId userId ≠ some .viewer)
    (hown : p.table = .assessments →
      ∀ r, p.selects r = true → r.attrs .assessorUserId = .uuid userId)
    (hdel : d.getMemberRole projectId userId = some .member → p.table.managed →
      ∀ r, (p.edit r).attrs .isDeleted = r.attrs .isDeleted)
    (h : p.run d notFoundDetail check = .ok d') : Guarded d d' projectId userId := by
  obtain ⟨r, hrow, htable, hsel, -, -, h⟩ := Patch.run_ok h
  obtain ⟨q, n, r', -, -, hst, -, rfl⟩ := flushUpdate_ok h
  have hclaimed := r.keeps_claim p.now
  have hkey : r'.key = r.key := hst.key.trans ((p.keeps _).key.trans hclaimed.key)
  refine .of_replace hviewer (Table.find_of_mem Row.key hkeys hrow) hkey
    (Table.replace_replace Row.key _ (hclaimed.key.trans hkey.symm))
    (fun ht ↦ hown (htable.symm.trans ht) r hsel) fun hmember hmanaged ↦ ?_
  refine Row.isDeleted_of_flag ((hst.attrs .isDeleted (by decide)).trans ?_)
  rw [hdel hmember (htable ▸ hmanaged)]
  exact r.setAttr_attrs_of_ne (.time p.now) (show Attr.isDeleted ≠ .updatedAt by decide)

theorem Removal.run_guarded {m : Removal}
    (hviewer : d.getMemberRole projectId userId ≠ some .viewer)
    (hmember : d.getMemberRole projectId userId ≠ some .member)
    (htable : m.table ≠ .assessments) (h : m.run d = .ok d') :
    Guarded d d' projectId userId := by
  obtain ⟨r, hrow, ht, -, h⟩ := Removal.run_ok h
  obtain ⟨q, n, r', -, -, hst, -, rfl⟩ := flushUpdate_ok h
  exact .of_replace hviewer (Table.find_of_mem Row.key hkeys hrow)
    (hst.key.trans (r.keeps_softDelete m.now).key) rfl (fun h ↦ absurd (ht.symm.trans h) htable)
    fun h ↦ absurd h hmember

end Rest

section Flags

variable (userId projectId : Uuid) (payload : Dict) (newId : Uuid) (now : Time)

theorem newItem_flag (entity : Entity) (newCode : String) (status : Val) :
    (newItem userId projectId payload newId now entity newCode status).attrs .isDeleted =
      .bool false := by
  unfold newItem
  rw [recalculateItemScores_isDeleted]
  simp [Row.setAll, Row.setAttr]

theorem createAction_flag :
    (createAction userId projectId payload newId now).row.attrs .isDeleted = .bool false := by
  simp [createAction, Row.setAll, Row.setAttr]

theorem editAssessment_flag (r : Row) :
    (editAssessment payload now r).attrs .isDeleted = .bool false := by
  unfold editAssessment
  rw [recalculateItemScores_isDeleted]
  simp [Row.setAll, Row.setAttr]

theorem createAssessment_flag (itemId : Uuid) :
    (createAssessment itemId userId payload now newId).row.attrs .isDeleted = .bool false := by
  simp only [createAssessment, editAssessment_flag]

theorem editRow_flag {fields : List (Attr × Val)} (h : ∀ f ∈ fields, f.1 ≠ .isDeleted) (r : Row) :
    (editRow now fields r).attrs .isDeleted = r.attrs .isDeleted := by
  unfold editRow
  rw [Row.setAttr_attrs_of_ne _ _ (by decide)]
  exact r.setAll_attrs_of_ne h

theorem actionChanges_flag {f : Attr × Val} (h : f ∈ actionChanges payload) :
    f.1 ≠ .isDeleted := by
  have hupdate : ∀ a ∈ actionUpdate, a ≠ .isDeleted := by decide
  rcases List.mem_append.mp h with h | h
  · obtain ⟨g, hg, rfl⟩ := List.mem_map.mp h
    have hfst := hupdate g.1 (mem_modelDump hg)
    split <;> exact hfst
  · obtain ⟨t, -, rfl⟩ := List.mem_map.mp h
    simp

theorem editItem_flag {changes : List (Attr × Val)} (h : ∀ f ∈ changes, f.1 ∈ itemUpdate)
    (hstatus : (Attr.status, Val.str "deleted") ∉ changes) (r : Row) :
    (editItem now changes r).attrs .isDeleted = r.attrs .isDeleted := by
  have hupdate : ∀ a ∈ itemUpdate, a ≠ .isDeleted := by decide
  have hassign : ∀ s : Row, (changes.foldl (Row.assign now) s).attrs .isDeleted =
      s.attrs .isDeleted := by
    clear hstatus
    induction changes with
    | nil => exact fun _ ↦ rfl
    | cons f changes ih =>
      intro s
      rw [List.foldl_cons, ih fun g hg ↦ h g (List.mem_cons_of_mem f hg), Row.assign_isDeleted,
        if_neg (hupdate f.1 (h f List.mem_cons_self))]
  unfold editItem
  simp only [hstatus, if_false]
  rw [recalculateItemScores_isDeleted, Row.setAttr_attrs_of_ne _ _ (by decide), hassign]

theorem validatedChanges_status {changes : List (Attr × Val)}
    (h : validatedChanges payload = .ok changes)
    (hmem : (Attr.status, Val.str "deleted") ∈ changes) :
    statusText (payload.get .status) = "deleted".toList := by
  unfold validatedChanges at h
  simp only at h
  split at h
  · cases h
    obtain ⟨g, hg, hnorm⟩ := List.mem_map.mp hmem
    obtain ⟨a, -, hdump⟩ := List.mem_filterMap.mp hg
    obtain ⟨v, hv, rfl⟩ := Option.map_eq_some_iff.mp hdump
    have ha : a = .status := (normalizedChange_fst (a, v)).symm.trans (congrArg Prod.fst hnorm)
    subst ha
    have hget : payload.get .status = v := by simp [Dict.get, hv]
    rw [hget]
    cases v with
    | str t =>
      have htext : String.ofList (Text.strip (Text.lower t.toList)) = "deleted" := by
        simpa [normalizedChange] using hnorm
      simp only [statusText]
      rw [← htext, String.toList_ofList]
    | _ => simp [normalizedChange] at hnorm
  · cases h

end Flags

theorem requireMinRole_ok {d : Data} {projectId userId : Uuid} {minRole : Role} {u : Unit}
    (h : requireMinRole d projectId userId minRole = .ok u) (role : Role)
    (hrole : d.getMemberRole projectId userId = some role) : minRole.rank ≤ role.rank := by
  have hany := require_ok h
  rw [hrole] at hany
  simpa using hany

/-- Every writing route guards deletion, viewers and other users' assessments. -/
theorem ItemCall.run_guarded {d d' : Data} (hkeys : (d.rows.map Row.key).Nodup)
    {userId projectId : Uuid} {itemType : Entity} (scored : itemType.scored = true) {now : Time}
    {call : ItemCall} (h : call.run userId projectId itemType scored now d = .ok d') :
    Guarded d d' projectId userId := by
  obtain ⟨_, hrole, h⟩ := bind_ok h
  have hrank := requireMinRole_ok hrole
  have hviewer : d.getMemberRole projectId userId ≠ some .viewer := by
    intro hv
    refine absurd (hrank .viewer hv) ?_
    cases call with
    | updateObj itemId payload baseVersion =>
      simp only [ItemCall.minRole]
      split <;> decide
    | _ => simp [ItemCall.minRole, Role.rank]
  cases call with
  | createObj payload newId newCode =>
    obtain ⟨new, hnew, h⟩ := bind_ok h
    obtain ⟨_, -, hnew⟩ := bind_ok hnew
    cases hnew
    exact .of_insert hviewer (newItem_flag _ _ _ _ _ _ _ _) h
  | updateObj itemId payload baseVersion =>
    obtain ⟨p, hp, h⟩ := bind_ok h
    unfold Server.updateItem at hp
    split at hp
    · cases hp
    · rename_i changes hchanges
      cases hp
      refine Patch.run_guarded hkeys hviewer (fun h ↦ by cases h) (fun hmember _ r ↦ ?_) h
      refine editItem_flag now (validatedChanges_fst hchanges) (fun hmem ↦ ?_) r
      have hmin := hrank .member hmember
      rw [ItemCall.minRole, if_pos (validatedChanges_status payload hchanges hmem)] at hmin
      exact absurd hmin (by decide)
  | deleteObj itemId =>
    exact Removal.run_guarded hkeys hviewer
      (fun hm ↦ absurd (hrank .member hm) (by simp [ItemCall.minRole, Role.rank]))
      (by simp [deleteItem]) h
  | upsertMyAssessment itemId payload baseVersion newId =>
    obtain ⟨_, -, h⟩ := bind_ok h
    simp only at h
    split at h
    · obtain ⟨_, -, h⟩ := bind_ok h
      exact Guarded.of_insert hviewer (createAssessment_flag userId payload newId now itemId) h
    · refine Patch.run_guarded hkeys hviewer (fun _ r hr ↦ ?_) (fun _ hm ↦ ?_) h
      · obtain ⟨-, hr⟩ := Bool.and_eq_true _ _ ▸ hr
        simpa using hr
      · simp [updateAssessment, Table.managed] at hm
  | createAction payload newId =>
    obtain ⟨_, -, h⟩ := bind_ok h
    exact .of_insert hviewer (createAction_flag _ _ _ _ _) h
  | updateAction actionId payload baseVersion =>
    obtain ⟨p, hp, h⟩ := bind_ok h
    obtain ⟨_, -, hp⟩ := bind_ok hp
    obtain ⟨_, -, hp⟩ := bind_ok hp
    obtain ⟨_, -, hp⟩ := bind_ok hp
    obtain ⟨_, -, hp⟩ := bind_ok hp
    cases hp
    exact Patch.run_guarded hkeys hviewer (fun h ↦ by cases h)
      (fun _ _ r ↦ editRow_flag now (fun f hf ↦ actionChanges_flag payload hf) r) h
  | deleteAction actionId =>
    exact Removal.run_guarded hkeys hviewer
      (fun hm ↦ absurd (hrank .member hm) (by simp [ItemCall.minRole, Role.rank]))
      (by simp [deleteItem]) h

/-- Only managers change deletion, viewers change nothing, and an assessment is changed by its
assessor alone: by every push of arbitrary records and by every writing route. -/
theorem only_managers_change_deletion {Digest : Type} [DecidableEq Digest] {conv : Conv}
    (hconv : conv.Truthful) (sha : Payload → Digest) (db : Db Digest)
    (hkeys : (db.data.rows.map Row.key).Nodup) (userId projectId : Uuid) :
    (∀ changes db' results,
      pushChanges conv sha db userId projectId changes = .ok (db', results) →
      Guarded db.data db'.data projectId userId) ∧
    (∀ itemType scored now (call : ItemCall) d',
      call.run userId projectId itemType scored now db.data = .ok d' →
      Guarded db.data d' projectId userId) := by
  refine ⟨fun changes db' results h ↦ ?_,
    fun _ scored _ _ _ h ↦ ItemCall.run_guarded hkeys scored h⟩
  obtain ⟨ctx, hopen, hrun⟩ := map_ok h
  cases hrun
  obtain ⟨-, role, hrole, rfl⟩ := openPush_ok hopen
  exact @PushContext.run_guarded _ _ _ hconv sha (.start db userId projectId role changes) changes
    hrole

def memberDb : Db Val :=
  { sampleDb with data := { sampleDb.data with memberRole := fun _ _ ↦ some .member } }

def hiddenDelete : SyncChange × Time :=
  (⟨1, .risk, .upsert, some 1, Dict.ofList [(.id, .uuid 100), (.status, .str "deleted")]⟩, 5)

theorem only_managers_change_deletion_sample :
    ∃ db' results, pushChanges Conv.strict titleDigest memberDb 10 1 [hiddenDelete] =
        .ok (db', results) ∧
      results.map ChangeResult.status = [.error] ∧ Guarded memberDb.data db'.data 1 10 := by
  have hpush : pushChanges Conv.strict titleDigest memberDb 10 1 [hiddenDelete] = .ok _ := rfl
  exact ⟨_, _, hpush, rfl, (only_managers_change_deletion Conv.strict_truthful titleDigest memberDb
    (by decide) 10 1).1 _ _ _ hpush⟩

end RiskApp.Server
