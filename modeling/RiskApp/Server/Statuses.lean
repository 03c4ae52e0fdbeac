import RiskApp.Server.Scores

namespace RiskApp.Server

open Lib Lib.Result

def Row.FlagsAgree (r : Row) : Prop :=
  r.table = .items → (r.attrs .isDeleted = .bool true ↔ r.attrs .status = .str "deleted")

def Row.Dated (r : Row) : Prop :=
  r.table = .items → r.attrs .status = .str "happened" → r.attrs .occurredAt ≠ .null

section Parsed

variable {conv : Conv} {entity : Entity} {record : Dict} {val : Parsed}

/-- What a parsed record of an item says of its status and its deletion. -/
structure Parsed.Statused (val : Parsed) : Prop where
  flag : ∀ v, val.find .isDeleted = some v → v = .null ∨ ∃ b, v = .bool b
  deleted : val.get .status = .str "deleted" → val.get .isDeleted = .bool true

theorem Validated.bool {v : Option Val} {w : Val} (h : Validated conv .bool v (some w)) :
    w = .null ∨ ∃ b, w = .bool b := by
  cases h with
  | null => exact Or.inl rfl
  | @value v w ne parsed =>
    right
    cases v with
    | bool b =>
      cases parsed
      exact ⟨b, rfl⟩
    | _ =>
      obtain ⟨b, -, rfl⟩ := Option.map_eq_some_iff.mp parsed
      exact ⟨b, rfl⟩

theorem parseRecord_statused (hs : entity.scored = true)
    (h : parseRecord conv entity record = .ok val) : val.Statused := by
  have hschema : schema entity = syncItemRecord := by
    cases entity <;> first | rfl | cases hs
  unfold parseRecord at h
  split at h
  · cases h
  · rename_i fields hfields
    have hflag : ∀ v, (⟨fields, none⟩ : Parsed).find .isDeleted = some v →
        v = .null ∨ ∃ b, v = .bool b := by
      intro v hv
      have hmem : (Attr.isDeleted, FieldType.bool) ∈ schema entity := by
        rw [hschema]
        simp [syncItemRecord]
      have hparsed := parseFields_find hfields (schema_nodup entity) hmem
      rw [hv] at hparsed
      exact hparsed.bool
    have hnot : ¬(entity = .action ∨ entity = .assessment) := by
      rintro (rfl | rfl) <;> cases hs
    simp only at h
    rw [if_neg hnot] at h
    split at h
    · cases h
      refine ⟨fun v hv ↦ ?_, fun _ ↦ ?_⟩
      · rw [Parsed.find_set, if_pos rfl] at hv
        exact Or.inr ⟨true, (Option.some.inj hv).symm⟩
      · rw [Parsed.get, Parsed.find_set, if_pos rfl]
        rfl
    · rename_i hdeleted
      cases h
      refine ⟨hflag, fun hstatus ↦ absurd ⟨hs, ?_⟩ hdeleted⟩
      rw [hstatus]
      decide

end Parsed

section Update

variable {r : Row} {val : Parsed} {now : Time}

theorem items_column (val : Parsed) {a : Attr} (ht : r.table = .items)
    (ha : a ∈ [Attr.status, .isDeleted, .occurredAt]) :
    fieldOf (clientFields r.table val) a = val.find a := by
  have hcolumns : ∀ a ∈ [Attr.status, .isDeleted, .occurredAt],
      a ∈ Table.items.columns ∧ a ∉ [Attr.score, .assessorUserId] := by decide
  obtain ⟨hcol, hclient⟩ := hcolumns a ha
  exact clientFields_find (ht ▸ hcol) hclient

theorem assigned_attrs (ht : r.table = .items) (hnodup : (val.fields.map Prod.fst).Nodup) {a : Attr}
    (ha : a ∈ [Attr.status, .isDeleted]) :
    ((clientFields r.table val).foldl (Row.assign now) r).attrs a =
      (val.find a).getD (r.attrs a) := by
  have hset : ∀ a ∈ [Attr.status, .isDeleted],
      a ∉ [Attr.id, .version, .statusChangedAt, .occurredAt] ∧
        a ∈ [Attr.status, .isDeleted, .occurredAt] := by decide
  obtain ⟨hassign, hcol⟩ := hset a ha
  refine (Row.foldl_attrs (fun s f ↦ s.assign_attrs now f hassign)
    (clientFields_nodup hnodup) r).trans ?_
  rw [items_column val ht hcol]

theorem softDelete_flags (r : Row) (now : Time) (ht : r.table = .items) :
    (r.softDelete now).attrs .isDeleted = .bool true ∧
      (r.softDelete now).attrs .status = .str "deleted" := by
  unfold Row.softDelete
  simp only [Row.setAttr_table, ht, if_true]
  constructor
  · rw [Row.changeStatus_attrs _ _ _ (by decide), if_neg (by decide)]
    rw [Row.setAttr_attrs_of_ne, Row.setAttr_self] <;> decide
  · rw [Row.changeStatus_attrs _ _ _ (by decide), if_pos rfl]

theorem update_attrs_last {a : Attr} (ha : a ∈ [Attr.status, .isDeleted, .occurredAt]) :
    (r.update val now).attrs a =
      (((clientFields r.table val).foldl (Row.assign now) r).flagged val now).attrs a := by
  have hne : ∀ a ∈ [Attr.status, .isDeleted, .occurredAt],
      a ≠ .updatedAt ∧ a ≠ .impact ∧ a ≠ .score := by decide
  obtain ⟨hupdated, himpact, hscore⟩ := hne a ha
  rw [Row.update_attrs_eq hupdated, recalculateItemScores_attrs _ himpact hscore]

theorem assigned_table {entity : Entity} (ht : r.table = .items) (hval : val.Typed entity) :
    ((clientFields r.table val).foldl (Row.assign now) r).table = .items := by
  have hkeeps := Row.keeps_foldl (Row.keeps_assign now) (clientFields r.table val) r
    fun f hf ↦ hval.fixed f (List.mem_of_mem_filter hf)
  exact hkeeps.table.trans ht

theorem update_deleted {entity : Entity} (now : Time) (ht : r.table = .items)
    (hval : val.Typed entity)
    (hdeleted : val.get .isDeleted = .bool true) :
    (r.update val now).attrs .isDeleted = .bool true ∧
      (r.update val now).attrs .status = .str "deleted" := by
  have hflagged : ((clientFields r.table val).foldl (Row.assign now) r).flagged val now =
      ((clientFields r.table val).foldl (Row.assign now) r).softDelete now := by
    rw [Row.flagged, hdeleted, if_neg (by decide), if_pos (by decide)]
  rw [update_attrs_last (by decide), update_attrs_last (by decide), hflagged]
  exact softDelete_flags _ now (assigned_table ht hval)

theorem update_kept {entity : Entity} (now : Time) (ht : r.table = .items) (hval : val.Typed entity)
    (hstatused : val.Statused) (hdeleted : val.get .isDeleted ≠ .bool true) :
    (r.update val now).attrs .isDeleted = (val.find .isDeleted).getD (r.attrs .isDeleted) ∧
      (r.update val now).attrs .status = (val.find .status).getD (r.attrs .status) := by
  have hassigned : ∀ a ∈ [Attr.status, .isDeleted],
      ((clientFields r.table val).foldl (Row.assign now) r).attrs a =
        (val.find a).getD (r.attrs a) := fun a ha ↦ assigned_attrs ht hval.nodup ha
  rw [update_attrs_last (by decide), update_attrs_last (by decide)]
  rw [← hassigned _ (by decide), ← hassigned _ (by decide)]
  unfold Row.flagged
  cases hfind : val.find .isDeleted with
  | none =>
    have hget : val.get .isDeleted = .null := by rw [Parsed.get, hfind]; rfl
    rw [hget, if_pos rfl]
    exact ⟨rfl, rfl⟩
  | some v =>
    have hget : val.get .isDeleted = v := by rw [Parsed.get, hfind]; rfl
    rw [hget] at hdeleted ⊢
    rcases hstatused.flag v hfind with rfl | ⟨b, rfl⟩
    · rw [if_pos rfl]
      exact ⟨rfl, rfl⟩
    · have hfalse : b = false := by
        cases b with
        | false => rfl
        | true => exact absurd rfl hdeleted
      subst hfalse
      rw [if_neg (by decide), if_neg (by decide)]
      constructor
      · rw [Row.setAttr_self _ _ (by decide), hassigned _ (by decide), hfind]
        rfl
      · exact Row.setAttr_attrs_of_ne _ _ (by decide)

end Update

section Objects

variable {conv : Conv} {r s : Row} {now : Time}

theorem created_value {d : Data} {userId projectId entityId : Uuid} {entity : Entity}
    {record : Dict} {val : Parsed} {obj : Row} (hval : parseRecord conv entity record = .ok val)
    (h : createNew conv d userId projectId entity entityId record now = .ok obj) {a : Attr}
    (hcol : a ∈ entity.table.columns)
    (ha : a ∉ [.impact, .code, .id, .version, .score, .assessorUserId]) :
    obj.attrs a = (val.find a).getD ((blankRow userId projectId entity entityId now).attrs a) := by
  simp only [List.mem_cons, List.not_mem_nil, or_false, not_or] at ha
  obtain ⟨himpact, hcodeAttr, hid, hversion, hscore, hassessor⟩ := ha
  obtain ⟨val', coded, hval', hcode, -, rfl⟩ := createNew_ok_iff.mp h
  obtain rfl : val = val' := Except.ok.inj (hval.symm.trans hval')
  have htyped := (parseRecord_typed hval).coded hcode
  have hfind : coded.find a = val.find a := by
    unfold withItemCode at hcode
    split at hcode
    · obtain ⟨code, -, rfl⟩ := map_ok hcode
      rw [Parsed.find_set, if_neg hcodeAttr]
    · cases hcode
      rfl
  rw [recalculateItemScores_attrs _ himpact hscore,
    Row.setAll_attrs (clientFields_nodup htyped.nodup) _ (by simp [hid, hversion]),
    clientFields_find hcol (by simp [hscore, hassessor]), hfind]

theorem created_attrs {d : Data} {userId projectId entityId : Uuid} {entity : Entity}
    {record : Dict} {obj : Row} (hs : entity.scored = true)
    (h : createNew conv d userId projectId entity entityId record now = .ok obj) :
    ∃ val, parseRecord conv entity record = .ok val ∧
      ∀ a ∈ [Attr.status, .isDeleted, .occurredAt], obj.attrs a = val.get a := by
  obtain ⟨val, coded, hval, -⟩ := createNew_ok_iff.mp h
  refine ⟨val, hval, fun a ha ↦ ?_⟩
  have htable : entity.table = .items := by
    cases entity <;> first | rfl | cases hs
  have hset : ∀ a ∈ [Attr.status, .isDeleted, .occurredAt], a ∈ Table.items.columns ∧
      a ∉ [Attr.impact, .code, .id, .version, .score, .assessorUserId] := by decide
  have hnull : (blankRow userId projectId entity entityId now).attrs a = .null := by
    simp only [List.mem_cons, List.not_mem_nil, or_false] at ha
    cases entity with
    | risk => rcases ha with rfl | rfl | rfl <;> rfl
    | opportunity => rcases ha with rfl | rfl | rfl <;> rfl
    | _ => cases hs
  rw [created_value hval h (htable ▸ (hset a ha).1) (hset a ha).2, hnull]
  rfl

theorem Flushed.created_flags {obj : Row} (h : Flushed obj true now s) (ht : obj.table = .items) :
    (s.attrs .isDeleted = .bool true ↔ obj.attrs .isDeleted = .bool true) ∧
      ∀ status, status ≠ "concept" →
        (s.attrs .status = .str status ↔ obj.attrs .status = .str status) := by
  constructor
  · by_cases hnull : obj.attrs .isDeleted = .null
    · have hdefault := h.attrs_default (v := .bool false) (by decide) hnull (by rw [ht]; rfl)
      rw [hdefault, hnull]
      decide
    · rw [h.attrs_of_ne (by decide) hnull]
  · intro status hstatus
    by_cases hnull : obj.attrs .status = .null
    · have hdefault := h.attrs_default (v := .str "concept") (by decide) hnull (by rw [ht]; rfl)
      rw [hdefault, hnull]
      simpa using Ne.symm hstatus
    · rw [h.attrs_of_ne (by decide) hnull]

theorem newItem_flags {userId projectId newId : Uuid} {payload : Dict} {entity : Entity}
    {newCode : String} {status : Val} :
    let obj := newItem userId projectId payload newId now entity newCode status
    obj.attrs .isDeleted = .bool false ∧ obj.attrs .status = status ∧
      obj.attrs .occurredAt = Val.orElse (payload.get .occurredAt)
        (if status = .str "happened" then .time now else .null) := by
  have hset : ∀ (o : Row) (fields : List (Attr × Val)), (fields.map Prod.fst).Nodup →
      ∀ a ∈ [Attr.status, .isDeleted, .occurredAt], ∀ v, fieldOf fields a = some v →
        (recalculateItemScores (o.setAll fields)).attrs a = v := by
    intro o fields hnodup a ha v hv
    have hne : ∀ a ∈ [Attr.status, .isDeleted, .occurredAt],
        a ≠ .impact ∧ a ≠ .score ∧ a ∉ [Attr.id, .version] := by decide
    obtain ⟨himpact, hscore, hid⟩ := hne a ha
    rw [recalculateItemScores_attrs _ himpact hscore, Row.setAll_attrs hnodup _ hid, hv]
    rfl
  unfold newItem
  exact ⟨hset _ _ (by simp) _ (by decide) _ rfl, hset _ _ (by simp) _ (by decide) _ rfl,
    hset _ _ (by simp) _ (by decide) _ rfl⟩

theorem editItem_flags {payload : Dict} {changes : List (Attr × Val)} (r : Row) (now : Time)
    (h : Changes payload changes) :
    ((editItem now changes (r.claim now)).attrs .status =
      (payload .status).getD (r.attrs .status)) ∧
    (payload .status = some (.str "deleted") →
      (editItem now changes (r.claim now)).attrs .isDeleted = .bool true) ∧
    (payload .status ≠ some (.str "deleted") →
      (editItem now changes (r.claim now)).attrs .isDeleted = r.attrs .isDeleted) := by
  refine ⟨?_, fun hdelete ↦ ?_, fun hkeep ↦ ?_⟩
  · rw [editItem_attrs h (by decide), h.values .status (by decide) (by decide),
      claim_attrs _ _ (by decide)]
  · unfold editItem
    simp only
    rw [if_pos (h.deletes.mpr hdelete)]
    exact Row.setAttr_self _ _ (by decide)
  · have hnone : fieldOf changes .isDeleted = none := by
      refine fieldOf_eq_none fun hmem ↦ ?_
      obtain ⟨f, hf, he⟩ := List.mem_map.mp hmem
      exact absurd (he ▸ h.keys f hf) (by decide)
    unfold editItem
    simp only
    rw [if_neg fun hdelete ↦ hkeep (h.deletes.mp hdelete),
      recalculateItemScores_attrs _ (by decide) (by decide),
      Row.setAttr_attrs_of_ne _ _ (by decide),
      Row.foldl_attrs (fun s f ↦ s.assign_attrs now f (by decide)) h.nodup, hnone,
      claim_attrs _ _ (by decide)]
    rfl

end Objects

section Writes

variable {conv : Conv} {d : Data} {userId projectId : Uuid} {obj : Row} {new : Bool} {now : Time}

theorem SyncChange.Writes.scored {change : SyncChange}
    (hw : change.Writes conv d userId projectId now obj new) (hobj : obj.table = .items) :
    change.entity.scored = true := by
  have hscored : change.entity.table = .items → change.entity.scored = true := by
    cases change.entity <;> simp [Entity.table, Entity.scored]
  have hfound : ∀ {entityId : Uuid} {r : Row},
      fetchObj d change.entity entityId projectId = some r → r.table = .items →
        change.entity.scored = true := by
    intro entityId r found hr
    have hkey : r.key = (change.entity.table, entityId) :=
      Table.key_of_find Row.key (fetchObj_some found).1
    exact hscored ((congrArg Prod.fst hkey).symm.trans hr)
  cases hw with
  | created op named missing made =>
    exact hscored ((congrArg Prod.fst (createNew_ok made).1).symm.trans hobj)
  | @updated entityId r val op named found parsed =>
    exact hfound found ((r.keeps_update val now (parseRecord_typed parsed).fixed).table.symm.trans
      hobj)
  | @deleted entityId r op named found =>
    exact hfound found ((r.keeps_softDelete now).table.symm.trans hobj)

theorem ItemCall.Writes.item {itemType : Entity} {scored : itemType.scored = true} {call : ItemCall}
    (hw : call.Writes d userId projectId itemType scored now obj new) (hobj : obj.table = .items) :
    (new = true ∧ ∃ payload newId newCode status, status ≠ .str "deleted" ∧
      obj = newItem userId projectId payload newId now itemType newCode status) ∨
    (new = false ∧ ∃ itemId payload baseVersion changes, ∃ r ∈ d.rows,
      call = .updateObj itemId payload baseVersion ∧ validatedChanges payload = .ok changes ∧
      r.table = .items ∧ itemWhere projectId itemId (some itemType) r = true ∧
      (r.version : ℤ) = baseVersion ∧ obj = editItem now changes (r.claim now)) ∨
    (new = false ∧ ∃ r ∈ d.rows, r.table = .items ∧ obj = r.softDelete now) := by
  cases hw with
  | @createObj payload newId newCode new made =>
    obtain ⟨_, hrequire, made⟩ := bind_ok made
    cases made
    exact Or.inl ⟨rfl, payload, newId, newCode, _, of_decide_eq_true (require_ok hrequire), rfl⟩
  | @updateObj itemId payload baseVersion changes r valid found table selected current =>
    exact Or.inr (Or.inl ⟨rfl, itemId, payload, baseVersion, changes, r, found, rfl, valid, table,
      selected, current, rfl⟩)
  | deleteObj found table selected => exact Or.inr (Or.inr ⟨rfl, _, found, table, rfl⟩)
  | createAssessment =>
    unfold Server.createAssessment at hobj
    rw [(keeps_editAssessment _ now _).table, Row.setAll_table] at hobj
    cases hobj
  | @updateAssessment itemId payload baseVersion newId r found table current =>
    rw [(keeps_editAssessment payload now _).table, (r.keeps_claim now).table, table] at hobj
    cases hobj
  | action table =>
    rw [table] at hobj
    cases hobj

end Writes

section Flags

/-- What keeps flag and status together: a new record that is flagged as deleted has the status, and
a tombstone is brought back by the flag and a status, in a record that sets both. -/
def flagsKept (conv : Conv) : Terms where
  change d _ projectId change _ := change.op = .upsert → change.entity.scored = true →
    ∀ entityId val, parseUuid conv "record.id" (change.record.get .id) = .ok entityId →
      parseRecord conv change.entity change.record = .ok val →
      match fetchObj d change.entity entityId projectId with
      | none => val.get .isDeleted = .bool true → val.get .status = .str "deleted"
      | some r => r.isDeleted = true → val.get .isDeleted ≠ .bool true →
        (val.get .isDeleted = .bool false ↔ val.get .status ≠ .null)
  call d _ projectId itemType _ call := ∀ itemId payload baseVersion,
    call = .updateObj itemId payload baseVersion → ∀ status, payload .status = some status →
    status ≠ .str "deleted" → ∀ r ∈ d.rows, r.table = .items →
      itemWhere projectId itemId (some itemType) r = true → (r.version : ℤ) = baseVersion →
      r.isDeleted = false

variable {conv : Conv} {r s : Row} {now : Time}

theorem softDelete_agrees (hs : Flushed (r.softDelete now) false now s) : s.FlagsAgree := by
  intro ht
  have htable : r.table = .items := by
    rw [← (r.keeps_softDelete now).table, ← hs.table, ht]
  obtain ⟨hflag, hstatus⟩ := softDelete_flags r now htable
  rw [hs.attrs_updated (by decide), hs.attrs_updated (by decide), hflag, hstatus]
  exact iff_of_true rfl rfl

theorem update_agrees {entity : Entity} {val : Parsed} (hr : r.FlagsAgree) (hval : val.Typed entity)
    (hstatused : val.Statused)
    (hkept : r.isDeleted = true → val.get .isDeleted ≠ .bool true →
      (val.get .isDeleted = .bool false ↔ val.get .status ≠ .null))
    (hs : Flushed (r.update val now) false now s) : s.FlagsAgree := by
  intro ht
  have htable : r.table = .items := by
    rw [← (r.keeps_update val now hval.fixed).table, ← hs.table, ht]
  rw [hs.attrs_updated (by decide), hs.attrs_updated (by decide)]
  by_cases hdeleted : val.get .isDeleted = .bool true
  · obtain ⟨hflag, hstatus⟩ := update_deleted now htable hval hdeleted
    rw [hflag, hstatus]
    exact iff_of_true rfl rfl
  · obtain ⟨hflag, hstatus⟩ := update_kept now htable hval hstatused hdeleted
    have hnotNull : ∀ a ∈ [Attr.isDeleted, .status], (r.update val now).attrs a ≠ .null := by
      intro a ha
      have hcolumn : ∀ a ∈ [Attr.isDeleted, .status],
          a ∈ Table.items.notNull ∧ a ∉ flushedAttrs := by
        decide
      rw [← hs.attrs_updated (hcolumn a ha).2]
      refine hs.notNull a ?_
      rw [(r.keeps_update val now hval.fixed).table, htable]
      exact (hcolumn a ha).1
    have hflagNull := hnotNull .isDeleted (by decide)
    have hstatusNull := hnotNull .status (by decide)
    have hnotDeleted : val.get .status ≠ .str "deleted" := fun h ↦ hdeleted (hstatused.deleted h)
    have hagree := hr htable
    rw [hflag] at hflagNull ⊢
    rw [hstatus] at hstatusNull ⊢
    have hget : ∀ a, val.get a = (val.find a).getD .null := fun _ ↦ rfl
    simp only [hget] at hdeleted hnotDeleted hkept
    rw [Row.isDeleted, decide_eq_true_eq] at hkept
    cases hfindFlag : val.find .isDeleted with
    | none =>
      simp only [hfindFlag, Option.getD_none] at hkept ⊢
      cases hfindStatus : val.find .status with
      | none => exact hagree
      | some status =>
        simp only [hfindStatus, Option.getD_some] at hkept hnotDeleted hstatusNull ⊢
        refine iff_of_false (fun hdel ↦ ?_) hnotDeleted
        have := (hkept hdel (by decide)).mpr hstatusNull
        cases this
    | some flag =>
      rcases hstatused.flag flag hfindFlag with rfl | ⟨b, rfl⟩
      · rw [hfindFlag] at hflagNull
        exact absurd rfl hflagNull
      · have hfalse : b = false := by
          cases b with
          | false => rfl
          | true => exact absurd (by rw [hfindFlag]; rfl) hdeleted
        subst hfalse
        simp only [hfindFlag, Option.getD_some] at hkept ⊢
        refine iff_of_false (by decide) ?_
        cases hfindStatus : val.find .status with
        | none =>
          simp only [hfindStatus, Option.getD_none] at hkept ⊢
          intro hdel
          exact (hkept (hagree.mpr hdel) (by decide)).mp trivial rfl
        | some status =>
          simp only [hfindStatus, Option.getD_some] at hnotDeleted ⊢
          exact hnotDeleted

theorem change_agrees {d : Data} {userId projectId : Uuid} {change : SyncChange} {obj : Row}
    {new : Bool} (hd : ∀ r ∈ d.rows, r.FlagsAgree)
    (hmeets : (flagsKept conv).change d userId projectId change now)
    (hw : change.Writes conv d userId projectId now obj new) (hs : Flushed obj new now s) :
    s.FlagsAgree := by
  intro ht
  have hobj : obj.table = .items := hs.table ▸ ht
  have hscored := hw.scored hobj
  cases hw with
  | @created entityId _ op named missing made =>
    obtain ⟨val, hval, hattrs⟩ := created_attrs hscored made
    have hkept := hmeets op hscored entityId val named hval
    rw [missing] at hkept
    obtain ⟨hflag, hstatus⟩ := hs.created_flags hobj
    rw [hflag, hstatus "deleted" (by decide), hattrs _ (by decide), hattrs _ (by decide)]
    exact ⟨hkept, (parseRecord_statused hscored hval).deleted⟩
  | @updated entityId r val op named found parsed =>
    have hkept := hmeets op hscored entityId val named parsed
    rw [found] at hkept
    exact update_agrees (hd r (Table.mem_of_find Row.key (fetchObj_some found).1))
      (parseRecord_typed parsed) (parseRecord_statused hscored parsed) hkept hs ht
  | deleted op named found => exact softDelete_agrees hs ht

theorem call_agrees {d : Data} {userId projectId : Uuid} {itemType : Entity}
    {scored : itemType.scored = true} {call : ItemCall} {obj : Row} {new : Bool}
    (hd : ∀ r ∈ d.rows, r.FlagsAgree) (hbody : call.Conforms)
    (hmeets : (flagsKept conv).call d userId projectId itemType now call)
    (hw : call.Writes d userId projectId itemType scored now obj new) (hs : Flushed obj new now s) :
    s.FlagsAgree := by
  intro ht
  have hobj : obj.table = .items := hs.table ▸ ht
  rcases hw.item hobj with ⟨rfl, payload, newId, newCode, status, hstatus, rfl⟩ |
    ⟨rfl, itemId, payload, baseVersion, changes, r, found, rfl, valid, table, selected, current,
      rfl⟩ | ⟨rfl, r, found, table, rfl⟩
  · obtain ⟨hflag, hset, -⟩ := @newItem_flags now userId projectId newId payload itemType newCode
      status
    obtain ⟨hsflag, hsstatus⟩ := hs.created_flags hobj
    rw [hsflag, hsstatus "deleted" (by decide), hflag, hset]
    exact iff_of_false (by decide) hstatus
  · obtain ⟨hstatus, hdelete, hkeep⟩ := editItem_flags r now
      (validatedChanges_changes hbody valid)
    rw [hs.attrs_updated (by decide), hs.attrs_updated (by decide), hstatus]
    by_cases hdel : payload .status = some (.str "deleted")
    · rw [hdelete hdel, hdel]
      exact iff_of_true rfl rfl
    · rw [hkeep hdel]
      cases hset : payload .status with
      | none => exact hd r found table
      | some status =>
        have hne : status ≠ .str "deleted" := fun he ↦ hdel (he ▸ hset)
        have hlive := hmeets _ _ _ rfl status hset hne r found table selected current
        exact iff_of_false (of_decide_eq_false hlive) hne
  · exact softDelete_agrees hs ht

theorem flags_invariant : RowInvariant conv (flagsKept conv) Row.FlagsAgree where
  others _ ht := by
    intro h
    rw [h] at ht
    rcases ht with ht | ht <;> cases ht
  change hd hmeets hw hs := change_agrees hd hmeets hw hs
  call hd hbody hmeets hw hs := call_agrees hd hbody hmeets hw hs

/-- In every run on these terms the deletion flag of an item and its status agree. -/
theorem deletion_flags_agree {Digest : Type} [DecidableEq Digest] (conv : Conv)
    (sha : Payload → Digest) {db : Db Digest} (h : ReachableOn conv sha (flagsKept conv) db) :
    ∀ r ∈ db.data.rows, r.FlagsAgree :=
  flags_invariant.reachable sha h

/-- A risk is created and deleted by a PATCH. -/
theorem deletion_flags_agree_sample :
    (committed (deletingPatch 4) 6 (committed costlyRisk 5 newProject)).rows ≠ [] ∧
    ∀ r ∈ (committed (deletingPatch 4) 6 (committed costlyRisk 5 newProject)).rows,
      r.FlagsAgree := by
  refine ⟨List.cons_ne_nil _ _, deletion_flags_agree Conv.strict titleDigest
    (deletingPatch_reachable deletingPatch_conforms.1 rfl (fun _ _ _ h ↦ by cases h) ?_)⟩
  intro _ _ _ h status hset hne
  cases h
  exact absurd (Option.some.inj hset).symm hne

def pushedRisk (fields : List (Attr × Val)) : SyncChange × Time :=
  (⟨7, .risk, .upsert, none, Dict.ofList ((.id, .uuid 100) :: fields)⟩, 5)

theorem pushed_reachable {terms : Terms} {c : SyncChange × Time} {db : Db Val}
    {results : List ChangeResult}
    (run : pushChanges Conv.strict titleDigest ⟨newProject, []⟩ 10 1 [c] = .ok (db, results))
    (meets : terms.change newProject 10 1 c.1 c.2) :
    ReachableOn Conv.strict titleDigest terms db :=
  .push (.empty rfl) run fun _ _ ↦ ⟨fun _ _ ↦ meets, trivial⟩

/-- A new risk is pushed with the deletion flag alone. -/
theorem flagged_risk_keeps_status : ¬ ∀ db : Db Val,
    ReachableOn Conv.strict titleDigest Terms.none db → ∀ r ∈ db.data.rows, r.FlagsAgree := by
  intro h
  have hreach := @pushed_reachable Terms.none (pushedRisk [(.isDeleted, .bool true)]) _ _
      rfl trivial
  have hagree := (h _ hreach _ List.mem_cons_self rfl).mp (by decide)
  revert hagree
  decide

end Flags

section Dates

/-- What keeps the date of what happened: a new record that happened has it, and no update clears
it in an item that has happened after it. -/
def datesKept (conv : Conv) : Terms where
  change d _ projectId change _ := change.op = .upsert → change.entity.scored = true →
    ∀ entityId val, parseUuid conv "record.id" (change.record.get .id) = .ok entityId →
      parseRecord conv change.entity change.record = .ok val →
      match fetchObj d change.entity entityId projectId with
      | none => val.get .status = .str "happened" → val.get .occurredAt ≠ .null
      | some r => val.find .occurredAt = some .null → val.get .isDeleted ≠ .bool true →
        (val.find .status).getD (r.attrs .status) ≠ .str "happened"
  call d _ projectId itemType _ call := ∀ itemId payload baseVersion,
    call = .updateObj itemId payload baseVersion → payload .occurredAt = some .null →
    ∀ r ∈ d.rows, r.table = .items → itemWhere projectId itemId (some itemType) r = true →
      (r.version : ℤ) = baseVersion →
      (payload .status).getD (r.attrs .status) ≠ .str "happened"

variable {conv : Conv} {r s : Row} {now : Time}

theorem assign_dated (h : r.Dated) {f : Attr × Val} (hf : f ≠ (.occurredAt, .null)) :
    (r.assign now f).Dated := by
  intro ht hstatus
  have htable : r.table = .items := by
    unfold Row.assign at ht
    split at ht
    · rename_i hitem
      exact hitem.2
    · rwa [Row.setAttr_table] at ht
  by_cases hs : f.1 = .status
  · unfold Row.assign at hstatus ⊢
    rw [if_pos ⟨hs, htable⟩] at hstatus ⊢
    unfold Row.changeStatus at hstatus ⊢
    split
    · rename_i hsame
      rw [if_pos hsame] at hstatus
      exact h htable hstatus
    · rename_i hchange
      rw [if_neg hchange] at hstatus
      simp only at hstatus ⊢
      split
      · rw [Row.setAttr_self _ _ (by decide)]
        simp
      · rename_i hother
        rw [if_neg hother, Row.setAttr_attrs_of_ne _ _ (by decide),
          Row.setAttr_self _ _ (by decide)] at hstatus
        exact absurd hstatus hother
  · rw [Row.assign_attrs now r f (by decide), if_neg hs] at hstatus
    unfold Row.assign
    rw [if_neg fun h ↦ hs h.1]
    by_cases ho : f.1 = .occurredAt
    · rw [ho, Row.setAttr_self _ _ (by decide)]
      exact fun hnull ↦ hf (Prod.ext ho hnull)
    · rw [Row.setAttr_attrs_of_ne _ _ (Ne.symm ho)]
      exact h htable hstatus

theorem assigned_dated (now : Time) (h : r.Dated) {fields : List (Attr × Val)}
    (hf : (Attr.occurredAt, Val.null) ∉ fields) : (fields.foldl (Row.assign now) r).Dated := by
  induction fields generalizing r with
  | nil => exact h
  | cons f fields ih =>
    refine ih (assign_dated h ?_) fun hmem ↦ hf (List.mem_cons_of_mem f hmem)
    rintro rfl
    exact hf List.mem_cons_self

theorem Row.Dated.of_attrs {w : Row} (h : r.Dated) (ht : w.table = r.table)
    (hstatus : w.attrs .status = r.attrs .status)
    (hoccurred : w.attrs .occurredAt = r.attrs .occurredAt) : w.Dated := by
  intro htable hhappened
  rw [hoccurred]
  exact h (ht ▸ htable) (hstatus ▸ hhappened)

theorem dated_of_status (h : r.table = .items → r.attrs .status ≠ .str "happened") : r.Dated :=
  fun ht hhappened ↦ absurd hhappened (h ht)

theorem Flushed.dated {obj : Row} {new : Bool} (h : Flushed obj new now s) (ho : obj.Dated) :
    s.Dated := by
  intro ht hhappened
  rw [h.table] at ht
  rw [h.naive_without_default (by decide) (by rw [ht]; simp [Table.columnDefaults])]
  refine Row.naive_attrs_eq_null.not.mpr (ho ht ?_)
  cases new with
  | false => rwa [h.attrs_updated (by decide)] at hhappened
  | true => exact ((h.created_flags ht).2 "happened" (by decide)).mp hhappened

theorem softDelete_dated : (r.softDelete now).Dated := by
  refine dated_of_status fun ht ↦ ?_
  rw [(r.keeps_softDelete now).table] at ht
  rw [(softDelete_flags r now ht).2]
  decide

theorem update_dated {entity : Entity} {val : Parsed} (hr : r.Dated) (hval : val.Typed entity)
    (hstatused : val.Statused)
    (hkept : val.find .occurredAt = some .null → val.get .isDeleted ≠ .bool true →
      (val.find .status).getD (r.attrs .status) ≠ .str "happened") : (r.update val now).Dated := by
  by_cases hdeleted : val.get .isDeleted = .bool true
  · refine dated_of_status fun ht ↦ ?_
    rw [(r.keeps_update val now hval.fixed).table] at ht
    rw [(update_deleted now ht hval hdeleted).2]
    decide
  by_cases hcleared : val.find .occurredAt = some .null
  · refine dated_of_status fun ht ↦ ?_
    rw [(r.keeps_update val now hval.fixed).table] at ht
    rw [(update_kept now ht hval hstatused hdeleted).2]
    exact hkept hcleared hdeleted
  · intro ht
    have hitem : r.table = .items := (r.keeps_update val now hval.fixed).table.symm.trans ht
    have hnull : (Attr.occurredAt, Val.null) ∉ clientFields r.table val := by
      intro hmem
      have hfind := items_column val (a := .occurredAt) hitem (by decide)
      rw [fieldOf, Table.find_of_mem Prod.fst (clientFields_nodup hval.nodup) hmem] at hfind
      exact hcleared hfind.symm
    have hassigned := assigned_dated now hr hnull
    have hflagged : ∀ a ∈ [Attr.status, .occurredAt],
        (((clientFields r.table val).foldl (Row.assign now) r).flagged val now).attrs a =
          ((clientFields r.table val).foldl (Row.assign now) r).attrs a := by
      intro a ha
      have hne : ∀ a ∈ [Attr.status, .occurredAt], a ≠ .isDeleted := by decide
      unfold Row.flagged
      split
      · rfl
      · split
        · rename_i hnotNull htruthy
          cases hfind : val.find .isDeleted with
          | none => exact absurd (by rw [Parsed.get, hfind]; rfl) hnotNull
          | some v =>
            have hget : val.get .isDeleted = v := by rw [Parsed.get, hfind]; rfl
            rw [hget] at hnotNull htruthy hdeleted
            rcases hstatused.flag v hfind with rfl | ⟨b, rfl⟩
            · exact absurd rfl hnotNull
            · cases b with
              | false => cases htruthy
              | true => exact absurd rfl hdeleted
        · exact Row.setAttr_attrs_of_ne _ _ (hne a ha)
    refine hassigned.of_attrs (ht.trans (assigned_table hitem hval).symm) ?_ ?_ ht
    · rw [update_attrs_last (by decide), hflagged _ (by decide)]
    · rw [update_attrs_last (by decide), hflagged _ (by decide)]

theorem editItem_dated {payload : Dict} {changes : List (Attr × Val)} (hr : r.Dated)
    (hchanges : Changes payload changes)
    (hkept : payload .occurredAt = some .null →
      (payload .status).getD (r.attrs .status) ≠ .str "happened") :
    (editItem now changes (r.claim now)).Dated := by
  by_cases hcleared : payload .occurredAt = some .null
  · refine dated_of_status fun _ ↦ ?_
    rw [(editItem_flags r now hchanges).1]
    exact hkept hcleared
  · have hnull : (Attr.occurredAt, Val.null) ∉ changes := by
      intro hmem
      have hvalue := hchanges.values .occurredAt (by decide) (by decide)
      rw [fieldOf, Table.find_of_mem Prod.fst hchanges.nodup hmem] at hvalue
      exact hcleared hvalue.symm
    have hclaim : (r.claim now).Dated := hr.of_attrs (r.keeps_claim now).table
      (claim_attrs r now (by decide)) (claim_attrs r now (by decide))
    have hassigned := assigned_dated now hclaim hnull
    have hset : ∀ {w : Row} {a : Attr} {v : Val}, a ∈ [Attr.updatedAt, .isDeleted] → w.Dated →
        (w.setAttr a v).Dated := by
      intro w a v ha hw
      have hne : ∀ a ∈ [Attr.updatedAt, .isDeleted], Attr.status ≠ a ∧ Attr.occurredAt ≠ a := by
        decide
      exact hw.of_attrs (w.setAttr_table a v) (w.setAttr_attrs_of_ne v (hne a ha).1)
        (w.setAttr_attrs_of_ne v (hne a ha).2)
    unfold editItem
    simp only
    split
    · exact hset (by decide) (hset (by decide) hassigned)
    · exact (hset (by decide) hassigned).of_attrs (keeps_recalculateItemScores _).table
        (recalculateItemScores_attrs _ (by decide) (by decide))
        (recalculateItemScores_attrs _ (by decide) (by decide))

theorem change_dated {d : Data} {userId projectId : Uuid} {change : SyncChange} {obj : Row}
    {new : Bool} (hd : ∀ r ∈ d.rows, r.Dated)
    (hmeets : (datesKept conv).change d userId projectId change now)
    (hw : change.Writes conv d userId projectId now obj new) : obj.Dated := by
  intro ht
  have hscored := hw.scored ht
  cases hw with
  | @created entityId _ op named missing made =>
    obtain ⟨val, hval, hattrs⟩ := created_attrs hscored made
    have hkept := hmeets op hscored entityId val named hval
    rw [missing] at hkept
    rw [hattrs _ (by decide), hattrs _ (by decide)]
    exact hkept
  | @updated entityId r val op named found parsed =>
    have hkept := hmeets op hscored entityId val named parsed
    rw [found] at hkept
    exact update_dated (hd r (Table.mem_of_find Row.key (fetchObj_some found).1))
      (parseRecord_typed parsed) (parseRecord_statused hscored parsed) hkept ht
  | deleted op named found => exact softDelete_dated ht

theorem call_dated {d : Data} {userId projectId : Uuid} {itemType : Entity}
    {scored : itemType.scored = true} {call : ItemCall} {obj : Row} {new : Bool}
    (hd : ∀ r ∈ d.rows, r.Dated) (hbody : call.Conforms)
    (hmeets : (datesKept conv).call d userId projectId itemType now call)
    (hw : call.Writes d userId projectId itemType scored now obj new) : obj.Dated := by
  intro ht
  rcases hw.item ht with ⟨rfl, payload, newId, newCode, status, hstatus, rfl⟩ |
    ⟨rfl, itemId, payload, baseVersion, changes, r, found, rfl, valid, table, selected, current,
      rfl⟩ | ⟨rfl, r, found, table, rfl⟩
  · obtain ⟨-, hset, hoccurred⟩ := @newItem_flags now userId projectId newId payload itemType
      newCode status
    rw [hset, hoccurred]
    rintro rfl
    rw [if_pos rfl]
    unfold Val.orElse
    split
    · rename_i htruthy
      intro hnull
      rw [hnull] at htruthy
      cases htruthy
    · simp
  · exact editItem_dated (hd r found) (validatedChanges_changes hbody valid)
      (fun hcleared ↦ hmeets _ _ _ rfl hcleared r found table selected current) ht
  · exact softDelete_dated ht

theorem dated_invariant : RowInvariant conv (datesKept conv) Row.Dated where
  others _ ht := by
    intro h
    rw [h] at ht
    rcases ht with ht | ht <;> cases ht
  change hd hmeets hw hs := hs.dated (change_dated hd hmeets hw)
  call hd hbody hmeets hw hs := hs.dated (call_dated hd hbody hmeets hw)

/-- In every run on these terms an item that happened has its date. -/
theorem happened_items_dated {Digest : Type} [DecidableEq Digest] (conv : Conv)
    (sha : Payload → Digest) {db : Db Digest} (h : ReachableOn conv sha (datesKept conv) db) :
    ∀ r ∈ db.data.rows, r.Dated :=
  dated_invariant.reachable sha h

def happenedPush : SyncChange × Time :=
  pushedRisk [(.title, .str "A"), (.status, .str "happened"), (.occurredAt, .time 3)]

def pushedDb : Db Val :=
  ((pushChanges Conv.strict titleDigest ⟨newProject, []⟩ 10 1 [happenedPush]).toOption.map
    Prod.fst).getD ⟨newProject, []⟩

def happenedCall : ItemCall :=
  .createObj (Dict.ofList [(.title, .str "B"), (.probability, .int 2), (.impact, .int 3),
    (.status, .str "happened")]) 101 "R-2"

theorem happenedPush_meets : (datesKept Conv.strict).change newProject 10 1 happenedPush.1 5 := by
  intro _ _ entityId val hid hval
  cases hid
  cases hval
  exact fun _ ↦ by decide

theorem happened_items_dated_sample :
    ((committed happenedCall 6 pushedDb.data).rows.map fun r ↦
        (r.attrs .status, r.attrs .occurredAt)) =
      [(.str "happened", .time 3), (.str "happened", .time 6)] ∧
    ∀ r ∈ (committed happenedCall 6 pushedDb.data).rows, r.Dated := by
  have hpushed : ReachableOn Conv.strict titleDigest (datesKept Conv.strict) pushedDb :=
    pushed_reachable rfl happenedPush_meets
  refine ⟨by decide, happened_items_dated Conv.strict titleDigest
    (committed_reachable hpushed ?_ rfl ?_)⟩
  · unfold happenedCall ItemCall.Conforms
    decide
  · intro _ _ _ h
    cases h

/-- A new risk is pushed as one that happened, without its date. -/
theorem pushed_risk_without_date : ¬ ∀ db : Db Val,
    ReachableOn Conv.strict titleDigest Terms.none db → ∀ r ∈ db.data.rows, r.Dated := by
  intro h
  have hreach := @pushed_reachable Terms.none (pushedRisk [(.status, .str "happened")]) _ _ rfl
    trivial
  exact h _ hreach _ List.mem_cons_self rfl (by decide) (by decide)

end Dates

end RiskApp.Server
