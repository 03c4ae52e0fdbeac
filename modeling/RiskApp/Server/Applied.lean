import RiskApp.Server.Mutations

namespace RiskApp.Server

open Lib Lib.Result

def fixedAttrs : List Attr := [.projectId, .type, .assessorUserId]

/-- Same row, same owner: what every assignment of client fields preserves. -/
structure Row.Keeps (r r' : Row) : Prop where
  table : r'.table = r.table
  id : r'.id = r.id
  fixed : ∀ a ∈ fixedAttrs, r'.attrs a = r.attrs a

namespace Row

theorem Keeps.refl (r : Row) : r.Keeps r := ⟨rfl, rfl, fun _ _ ↦ rfl⟩

theorem Keeps.trans {r s t : Row} (h : r.Keeps s) (h' : s.Keeps t) : r.Keeps t :=
  ⟨h'.table.trans h.table, h'.id.trans h.id, fun a ha ↦ (h'.fixed a ha).trans (h.fixed a ha)⟩

theorem Keeps.key {r r' : Row} (h : r.Keeps r') : r'.key = r.key := by
  simp [Row.key, h.table, h.id]

theorem keeps_setAttr (r : Row) {a : Attr} (v : Val) (ha : a ∉ fixedAttrs) :
    r.Keeps (r.setAttr a v) :=
  ⟨by simp, by simp, fun b hb ↦ r.setAttr_attrs_of_ne v (fun e ↦ ha (e ▸ hb))⟩

theorem keeps_version (r : Row) (n : ℕ) : r.Keeps { r with version := n } :=
  ⟨rfl, rfl, fun _ _ ↦ rfl⟩

theorem keeps_changeStatus (r : Row) (v : Val) (now : Time) : r.Keeps (r.changeStatus v now) := by
  unfold changeStatus
  have hs := (r.keeps_setAttr v (show Attr.status ∉ fixedAttrs by decide)).trans
    ((r.setAttr .status v).keeps_setAttr (.time now)
      (show Attr.statusChangedAt ∉ fixedAttrs by decide))
  split
  · exact .refl r
  · simp only
    split
    · exact hs.trans (keeps_setAttr _ _ (by decide))
    · exact hs

@[simp] theorem changeStatus_version (r : Row) (v : Val) (now : Time) :
    (r.changeStatus v now).version = r.version := by
  unfold changeStatus
  split
  · rfl
  · simp only
    split <;> simp

theorem keeps_softDelete (r : Row) (now : Time) : r.Keeps (r.softDelete now) := by
  unfold softDelete
  have hs := ((r.keeps_setAttr (.bool true) (show Attr.isDeleted ∉ fixedAttrs by decide)).trans
    (keeps_setAttr _ (.time now) (show Attr.updatedAt ∉ fixedAttrs by decide))).trans
    (keeps_version _ (r.version + 1))
  simp only [setAttr_version]
  split
  · exact hs.trans (keeps_changeStatus _ _ _)
  · exact hs

@[simp] theorem softDelete_version (r : Row) (now : Time) :
    (r.softDelete now).version = r.version + 1 := by
  unfold softDelete
  simp only [setAttr_version]
  split <;> simp

theorem keeps_assign (now : Time) (r : Row) (f : Attr × Val) (hf : f.1 ∉ fixedAttrs) :
    r.Keeps (r.assign now f) := by
  unfold assign
  split
  · exact r.keeps_changeStatus _ _
  · exact r.keeps_setAttr _ hf

@[simp] theorem assign_version (now : Time) (r : Row) (f : Attr × Val) :
    (r.assign now f).version = r.version := by
  unfold assign
  split <;> simp

theorem keeps_foldl {f : Row → Attr × Val → Row}
    (hf : ∀ (r : Row) (g : Attr × Val), g.1 ∉ fixedAttrs → r.Keeps (f r g))
    (fields : List (Attr × Val)) (r : Row)
    (hfields : ∀ g ∈ fields, g.1 ∉ fixedAttrs) : r.Keeps (fields.foldl f r) := by
  induction fields generalizing r with
  | nil => exact .refl r
  | cons g fields ih =>
    have hhead := hf r g (hfields g List.mem_cons_self)
    exact hhead.trans (ih _ fun g' hg ↦ hfields g' (List.mem_cons_of_mem g hg))

@[simp] theorem assignAll_version (now : Time) (fields : List (Attr × Val)) (r : Row) :
    (fields.foldl (assign now) r).version = r.version := by
  induction fields generalizing r with
  | nil => rfl
  | cons f fields ih => simp [ih]

end Row

theorem keeps_recalculateItemScores (r : Row) : r.Keeps (recalculateItemScores r) := by
  unfold recalculateItemScores
  split
  · simp only
    split
    · exact r.keeps_setAttr _ (by decide)
    · exact (r.keeps_setAttr _ (by decide)).trans (Row.keeps_setAttr _ _ (by decide))
  · exact .refl r

@[simp] theorem recalculateItemScores_version (r : Row) :
    (recalculateItemScores r).version = r.version := by
  unfold recalculateItemScores
  split
  · simp only
    split <;> simp
  · rfl

@[simp] theorem recalculateItemScores_key (r : Row) : (recalculateItemScores r).key = r.key :=
  (keeps_recalculateItemScores r).key

namespace Row

theorem keeps_update (r : Row) (val : Parsed) (now : Time)
    (hf : ∀ f ∈ val.fields, f.1 ∉ fixedAttrs) : r.Keeps (r.update val now) := by
  unfold update
  have hassign := keeps_foldl (keeps_assign now) (clientFields r.table val) r
    fun f h ↦ hf f (List.mem_of_mem_filter h)
  set s := (clientFields r.table val).foldl (assign now) r
  have hdel : s.Keeps (if val.get .isDeleted = .null then s
      else if (val.get .isDeleted).truthy then s.softDelete now
      else s.setAttr .isDeleted (.bool false)) := by
    split
    · exact .refl s
    · split
      · exact s.keeps_softDelete now
      · exact s.keeps_setAttr _ (by decide)
  have hall := (hassign.trans hdel).trans ((keeps_recalculateItemScores _).trans
    (keeps_setAttr _ (.time now) (show Attr.updatedAt ∉ fixedAttrs by decide)))
  simp only
  split
  · exact hall
  · exact hall.trans (keeps_version _ _)

/-- Whatever mixture of status, deletion flag and ordinary fields a record carries, an update
raises the version by one. -/
@[simp] theorem update_version (r : Row) (val : Parsed) (now : Time) :
    (r.update val now).version = r.version + 1 := by
  unfold update
  by_cases hnull : val.get .isDeleted = .null
  · simp [hnull]
  · by_cases htrue : (val.get .isDeleted).truthy = true
    · simp [hnull, htrue]
    · simp [hnull, htrue]

theorem keeps_claim (r : Row) (now : Time) : r.Keeps (r.claim now) :=
  (r.keeps_setAttr (.time now) (show Attr.updatedAt ∉ fixedAttrs by decide)).trans
    (keeps_version _ _)

end Row

theorem parseFields_sublist {conv : Conv} {record : Dict} {specs : List (Attr × FieldType)}
    {fields : List (Attr × Val)} (h : parseFields conv record specs = some fields) :
    (fields.map Prod.fst).Sublist (specs.map Prod.fst) := by
  induction specs generalizing fields with
  | nil =>
    cases h
    exact List.Sublist.refl _
  | cons spec specs ih =>
    obtain ⟨a, t⟩ := spec
    simp only [parseFields] at h
    split at h
    · split at h
      · cases h
      · exact (ih h).cons a
    · split at h
      · cases h
      · obtain ⟨rest, hrest, rfl⟩ := Option.map_eq_some_iff.mp h
        exact (ih hrest).cons_cons a
    · obtain ⟨w, -, h⟩ := Option.bind_eq_some_iff.mp h
      obtain ⟨rest, hrest, rfl⟩ := Option.map_eq_some_iff.mp h
      exact (ih hrest).cons_cons a

theorem schema_not_fixed (entity : Entity) :
    ∀ a ∈ (schema entity).map Prod.fst, a ∉ fixedAttrs := by
  cases entity <;> decide

theorem schema_nodup (entity : Entity) : ((schema entity).map Prod.fst).Nodup := by
  cases entity <;> decide

theorem Parsed.mem_set {val : Parsed} {a : Attr} {v : Val} {f : Attr × Val}
    (h : f ∈ (val.set a v).fields) : f.1 = a ∨ f ∈ val.fields := by
  unfold Parsed.set at h
  simp only at h
  split at h
  · obtain ⟨g, hg, he⟩ := List.mem_map.mp h
    split at he
    · exact Or.inl (by rw [← he])
    · exact Or.inr (he ▸ hg)
  · rcases List.mem_append.mp h with h | h
    · exact Or.inr h
    · exact Or.inl (by rw [List.mem_singleton.mp h])

theorem Parsed.keys_set (val : Parsed) (a : Attr) (v : Val) :
    (val.set a v).fields.map Prod.fst = val.fields.map Prod.fst ∨ a ∉ val.fields.map Prod.fst ∧
      (val.set a v).fields.map Prod.fst = val.fields.map Prod.fst ++ [a] := by
  unfold Parsed.set
  simp only
  split
  · left
    rw [List.map_map]
    apply List.map_congr_left
    intro f _
    by_cases hf : f.1 = a <;> simp [hf]
  · rename_i hnone
    refine Or.inr ⟨fun ha ↦ hnone ?_, List.map_append⟩
    obtain ⟨f, hf, rfl⟩ := List.mem_map.mp ha
    simp only [Parsed.find, Option.isSome_map, List.find?_isSome]
    exact ⟨f, hf, by simp⟩

theorem Parsed.nodup_set {val : Parsed} (h : (val.fields.map Prod.fst).Nodup) (a : Attr)
    (v : Val) : ((val.set a v).fields.map Prod.fst).Nodup := by
  rcases val.keys_set a v with he | ⟨hfree, he⟩
  · rw [he]
    exact h
  · rw [he]
    refine List.nodup_append.mpr ⟨h, by simp, fun b hb c hc hbc ↦ hfree ?_⟩
    rwa [← List.mem_singleton.mp hc, ← hbc]

theorem parseRecord_keyList {conv : Conv} {entity : Entity} {record : Dict} {val : Parsed}
    (h : parseRecord conv entity record = .ok val) :
    ∃ keys, keys.Sublist ((schema entity).map Prod.fst) ∧ (val.fields.map Prod.fst = keys ∨
      ∃ a ∈ [Attr.itemId, .isDeleted], a ∈ (schema entity).map Prod.fst ∧ a ∉ keys ∧
        val.fields.map Prod.fst = keys ++ [a]) := by
  have hset : ∀ {base : Parsed} {a : Attr} {v : Val}, a ∈ [Attr.itemId, .isDeleted] →
      a ∈ (schema entity).map Prod.fst →
      (base.fields.map Prod.fst).Sublist ((schema entity).map Prod.fst) →
      ∃ keys, keys.Sublist ((schema entity).map Prod.fst) ∧
        ((base.set a v).fields.map Prod.fst = keys ∨ ∃ b ∈ [Attr.itemId, .isDeleted],
          b ∈ (schema entity).map Prod.fst ∧ b ∉ keys ∧
            (base.set a v).fields.map Prod.fst = keys ++ [b]) := by
    intro base a v ha hschema hbase
    refine ⟨_, hbase, ?_⟩
    rcases base.keys_set a v with he | ⟨hfree, he⟩
    · exact Or.inl he
    · exact Or.inr ⟨a, ha, hschema, hfree, he⟩
  unfold parseRecord at h
  split at h
  · cases h
  · rename_i fields hfields
    have hbase := parseFields_sublist hfields
    simp only at h
    split at h
    · rename_i hentity
      have hitem : .itemId ∈ (schema entity).map Prod.fst := by
        rcases hentity with rfl | rfl <;> decide
      have hpop : ((((⟨fields, none⟩ : Parsed).pop .riskId).pop .opportunityId).fields.map
          Prod.fst).Sublist ((schema entity).map Prod.fst) :=
        ((List.filter_sublist.trans List.filter_sublist).map Prod.fst).trans hbase
      split at h
      · cases h
      · cases h
        simp only
        split
        · exact ⟨_, hpop, Or.inl rfl⟩
        · exact hset (by decide) hitem hpop
    · split at h
      · cases h
        exact hset (by decide) (by cases entity <;> decide) hbase
      · cases h
        exact ⟨_, hbase, Or.inl rfl⟩

theorem parseRecord_keys {conv : Conv} {entity : Entity} {record : Dict} {val : Parsed}
    (h : parseRecord conv entity record = .ok val) :
    ∀ f ∈ val.fields, f.1 ∈ (schema entity).map Prod.fst := by
  intro f hf
  have hmem : f.1 ∈ val.fields.map Prod.fst := List.mem_map_of_mem hf
  obtain ⟨keys, hsub, he | ⟨a, -, ha, -, he⟩⟩ := parseRecord_keyList h
  · exact hsub.subset (he ▸ hmem)
  · rw [he] at hmem
    rcases List.mem_append.mp hmem with hmem | hmem
    · exact hsub.subset hmem
    · exact List.mem_singleton.mp hmem ▸ ha

theorem parseRecord_not_fixed {conv : Conv} {entity : Entity} {record : Dict} {val : Parsed}
    (h : parseRecord conv entity record = .ok val) : ∀ f ∈ val.fields, f.1 ∉ fixedAttrs :=
  fun f hf ↦ schema_not_fixed entity f.1 (parseRecord_keys h f hf)

theorem parseRecord_nodup {conv : Conv} {entity : Entity} {record : Dict} {val : Parsed}
    (h : parseRecord conv entity record = .ok val) : (val.fields.map Prod.fst).Nodup := by
  obtain ⟨keys, hsub, he | ⟨a, -, -, hfree, he⟩⟩ := parseRecord_keyList h
  · rw [he]
    exact (schema_nodup entity).sublist hsub
  · rw [he]
    refine List.nodup_append.mpr ⟨(schema_nodup entity).sublist hsub, by simp,
      fun b hb c hc hbc ↦ hfree ?_⟩
    rwa [← List.mem_singleton.mp hc, ← hbc]

theorem Parsed.get_of_mem {val : Parsed} (h : (val.fields.map Prod.fst).Nodup) {a : Attr}
    {v : Val} (hv : (a, v) ∈ val.fields) : val.get a = v := by
  have hfind := Table.find_of_mem Prod.fst h hv
  unfold Table.find at hfind
  simp only [Parsed.get, Parsed.find, hfind]
  rfl

theorem checkBaseVersion_ok {r : Row} {bv : Option ℤ} {entityId : Uuid} {record : Dict} {b : ℤ}
    (h : checkBaseVersion r bv entityId record = .ok b) :
    bv = some (r.version : ℤ) ∧ b = r.version ∧ 1 ≤ r.version := by
  unfold checkBaseVersion at h
  split at h
  · cases h
  · simp only at h
    split at h
    · cases h
    · split at h
      · cases h
      · cases h
        rename_i h1 h2
        have he : (r.version : ℤ) = b := not_not.mp h2
        exact ⟨by rw [he], he.symm, by omega⟩

theorem fetchObj_some {db : Data} {entity : Entity} {entityId projectId : Uuid} {r : Row}
    (h : fetchObj db entity entityId projectId = some r) :
    db.row (entity.table, entityId) = some r ∧ db.projectOf r = some projectId := by
  obtain ⟨hr, hp⟩ := Option.filter_eq_some_iff.mp h
  exact ⟨hr, by simpa using hp⟩

/-- A claim succeeds only at the version the row has, and touches that row only. -/
theorem claimExisting_ok {db db' : Data} {r : Row} {entity : Entity}
    {entityId projectId userId : Uuid} {bv : Option ℤ} {now : Time}
    (hr : fetchObj db entity entityId projectId = some r)
    (h : claimExisting db r entity entityId projectId userId bv now = .ok db') :
    bv = some (r.version : ℤ) ∧ 1 ≤ r.version ∧
      inVersionScope db entity projectId userId r = true ∧
      db' = { db with rows := Table.replace Row.key (r.claim now) db.rows } := by
  obtain ⟨hrow, hp⟩ := fetchObj_some hr
  obtain ⟨_, htype, h⟩ := bind_ok h
  obtain ⟨_, hassessor, h⟩ := bind_ok h
  obtain ⟨b, hb, h⟩ := bind_ok h
  obtain ⟨hbv, rfl, hpos⟩ := checkBaseVersion_ok hb
  have hscope : inVersionScope db entity projectId userId r = true := by
    simp only [inVersionScope, hp, decide_true, Bool.true_and]
    rw [require_ok htype, require_ok hassessor]
    rfl
  unfold claimBaseVersion at h
  rw [hrow] at h
  simp only [Option.filter, hscope, decide_true, Bool.and_self, if_true] at h
  cases h
  exact ⟨hbv, hpos, hscope, rfl⟩

theorem Row.Keeps.ownProject {r r' : Row} (h : r.Keeps r') : r'.ownProject = r.ownProject := by
  simp only [Row.ownProject, h.fixed .projectId (by decide)]

theorem Data.projectOf_eq_of_items {db db' : Data}
    (h : ∀ u, (db'.item u).bind Row.ownProject = (db.item u).bind Row.ownProject) (r : Row) :
    db'.projectOf r = db.projectOf r := by
  unfold Data.projectOf
  split
  · split
    · exact h _
    · rfl
  · rfl

theorem Data.row_replace {db : Data} {r r' : Row} (hr : db.row r.key = some r)
    (hk : r'.key = r.key) (k : RowKey) :
    ({ db with rows := Table.replace Row.key r' db.rows } : Data).row k =
      if k = r.key then some r' else db.row k := by
  unfold Data.row
  split
  · rename_i he
    subst he
    rw [← hk]
    exact Table.find_replace_self Row.key ⟨r, Table.mem_of_find Row.key hr, hk.symm⟩
  · rename_i hne
    exact Table.find_replace_of_ne Row.key db.rows (by rwa [hk])

theorem Data.projectOf_replace {db : Data} {r r' : Row} (hr : db.row r.key = some r)
    (hk : r.Keeps r') (s : Row) :
    ({ db with rows := Table.replace Row.key r' db.rows } : Data).projectOf s =
      db.projectOf s := by
  refine Data.projectOf_eq_of_items (fun u ↦ ?_) s
  unfold Data.item
  rw [Data.row_replace hr hk.key]
  split
  · rename_i he
    rw [he, hr]
    exact hk.ownProject
  · rfl

theorem Data.hasParent_of_replace {db : Data} {r r' s : Row} (hr : db.row r.key = some r)
    (hk : r.Keeps r')
    (h : ({ db with rows := Table.replace Row.key r' db.rows } : Data).hasParent s) :
    db.hasParent s := by
  intro hcol
  obtain ⟨itemId, hi, hsome⟩ := h hcol
  refine ⟨itemId, hi, ?_⟩
  unfold Data.item at hsome ⊢
  rw [Data.row_replace hr hk.key] at hsome
  split at hsome
  · rename_i he
    rw [he, hr]
    rfl
  · exact hsome

theorem Stamped.keeps {r r' : Row} {n : ℕ} (h : Stamped r r' n) : r.Keeps r' :=
  have hfixed : ∀ a ∈ fixedAttrs, a ∉ flushedAttrs := by decide
  ⟨h.table, h.id, fun a ha ↦ h.attrs a (hfixed a ha)⟩

theorem Row.withDefaults_attrs {r : Row} {a : Attr} (now : Time) (h : r.attrs a ≠ .null) :
    (r.withDefaults now).attrs a = r.attrs a := by
  simp [Row.withDefaults, h]

theorem Row.ownProject_withDefaults {r : Row} {p : Uuid} (now : Time)
    (h : r.ownProject = some p) : (r.withDefaults now).ownProject = some p := by
  unfold Row.ownProject at h ⊢
  split at h
  · rename_i q hq
    rw [Row.withDefaults_attrs now (by simp [hq]), hq]
    exact h
  · cases h

theorem Data.projectOf_withDefaults {db : Data} {r : Row} {p : Uuid} (now : Time)
    (h : db.projectOf r = some p) : db.projectOf (r.withDefaults now) = some p := by
  have htable : (r.withDefaults now).table = r.table := rfl
  unfold Data.projectOf at h ⊢
  rw [htable]
  split at h
  · split at h
    · rename_i u hu
      rw [Row.withDefaults_attrs now (by simp [hu]), hu]
      exact h
    · cases h
  · exact Row.ownProject_withDefaults now h

theorem Row.setAll_version (fields : List (Attr × Val)) (r : Row) :
    (r.setAll fields).version = r.version := by
  unfold Row.setAll
  induction fields generalizing r with
  | nil => rfl
  | cons f fields ih => simp [ih]

theorem Row.setAll_key (fields : List (Attr × Val)) (r : Row) :
    (r.setAll fields).key = r.key := by
  unfold Row.setAll
  induction fields generalizing r with
  | nil => rfl
  | cons f fields ih =>
    rw [List.foldl_cons, ih]
    simp [Row.key]

theorem createNew_ok {conv : Conv} {db : Data} {userId projectId : Uuid} {entity : Entity}
    {entityId : Uuid} {record : Dict} {now : Time} {obj : Row}
    (h : createNew conv db userId projectId entity entityId record now = .ok obj) :
    obj.key = (entity.table, entityId) ∧ obj.version = 1 := by
  obtain ⟨val, -, h⟩ := bind_ok h
  obtain ⟨val', -, h⟩ := bind_ok h
  obtain ⟨_, -, h⟩ := bind_ok h
  cases h
  constructor
  · rw [recalculateItemScores_key, Row.setAll_key, Row.setAll_key]
    rfl
  · rw [recalculateItemScores_version, Row.setAll_version, Row.setAll_version]

theorem updateExisting_ok {conv : Conv} {db : Data} {projectId : Uuid} {entity : Entity}
    {r obj : Row} {record : Dict} {now : Time}
    (h : updateExisting conv db projectId entity r record now = .ok obj) :
    r.Keeps obj ∧ obj.version = r.version + 1 := by
  obtain ⟨val, hval, h⟩ := bind_ok h
  obtain ⟨_, -, h⟩ := bind_ok h
  cases h
  exact ⟨r.keeps_update val now (parseRecord_not_fixed hval), by simp⟩

section Parent

variable {conv : Conv} {d : Data} {projectId : Uuid} {val : Parsed}

theorem ensureItemInProject_ok {itemId : Uuid} {t : Option Entity} {u : Unit}
    (h : ensureItemInProject d projectId itemId t = .ok u) :
    (d.item itemId).bind Row.ownProject = some projectId := by
  have hreq := require_ok h
  cases hf : (d.item itemId).filter (fun r ↦ r.attrs .projectId = .uuid projectId) with
  | none => simp [hf, Val.truthy] at hreq
  | some r =>
    obtain ⟨hr, hp⟩ := Option.filter_eq_some_iff.mp hf
    have hproject : r.attrs .projectId = .uuid projectId := by simpa using hp
    rw [hr, Option.bind_some]
    simp [Row.ownProject, hproject]

theorem ensureTarget_ok {itemId : Uuid} {t : Option Entity} {u : Unit}
    (h : ensureTarget conv d projectId (.uuid itemId) t = .ok u) :
    (d.item itemId).bind Row.ownProject = some projectId := by
  obtain ⟨i, hi, h⟩ := bind_ok h
  cases hi
  exact ensureItemInProject_ok h

theorem validateParent_ok {obj : Option Row} {itemId : Uuid} {u : Unit}
    (h : validateParent conv d projectId val obj = .ok u) (hid : val.get .itemId = .uuid itemId) :
    (d.item itemId).bind Row.ownProject = some projectId := by
  cases obj with
  | none =>
    simp only [validateParent, hid, Val.truthy, if_true] at h
    exact ensureTarget_ok h
  | some r =>
    simp only [validateParent, hid, Val.orElse, Val.truthy, if_true] at h
    exact ensureTarget_ok h

theorem Row.changeStatus_itemId (r : Row) (v : Val) (now : Time) :
    (r.changeStatus v now).attrs .itemId = r.attrs .itemId := by
  unfold Row.changeStatus
  split
  · rfl
  · simp only
    split <;> simp [Row.setAttr_attrs_of_ne]

theorem Row.softDelete_itemId (r : Row) (now : Time) :
    (r.softDelete now).attrs .itemId = r.attrs .itemId := by
  unfold Row.softDelete
  simp only
  split <;> simp [Row.changeStatus_itemId, Row.setAttr_attrs_of_ne]

theorem recalculateItemScores_itemId (r : Row) :
    (recalculateItemScores r).attrs .itemId = r.attrs .itemId := by
  unfold recalculateItemScores
  split
  · simp only
    split <;> simp [Row.setAttr_attrs_of_ne]
  · rfl

theorem Row.setAttr_itemId (r : Row) (a : Attr) (v : Val) :
    (r.setAttr a v).attrs .itemId = r.attrs .itemId ∨
      a = .itemId ∧ (r.setAttr a v).attrs .itemId = v := by
  by_cases ha : a = .itemId
  · subst ha
    exact Or.inr ⟨rfl, by simp [Row.setAttr]⟩
  · exact Or.inl (r.setAttr_attrs_of_ne v fun e ↦ ha e.symm)

theorem Row.foldl_itemId {f : Row → Attr × Val → Row}
    (hf : ∀ r g, (f r g).attrs .itemId = r.attrs .itemId ∨
      g.1 = .itemId ∧ (f r g).attrs .itemId = g.2) (fields : List (Attr × Val)) (r : Row) :
    (fields.foldl f r).attrs .itemId = r.attrs .itemId ∨
      ∃ v, (Attr.itemId, v) ∈ fields ∧ (fields.foldl f r).attrs .itemId = v := by
  induction fields generalizing r with
  | nil => exact Or.inl rfl
  | cons g fields ih =>
    rcases ih (f r g) with h | ⟨v, hv, h⟩
    · rcases hf r g with hg | ⟨ha, hg⟩
      · exact Or.inl (h.trans hg)
      · obtain ⟨a, v⟩ := g
        cases ha
        exact Or.inr ⟨v, List.mem_cons_self, h.trans hg⟩
    · exact Or.inr ⟨v, List.mem_cons_of_mem g hv, h⟩

theorem Row.assign_itemId (now : Time) (r : Row) (g : Attr × Val) :
    (r.assign now g).attrs .itemId = r.attrs .itemId ∨
      g.1 = .itemId ∧ (r.assign now g).attrs .itemId = g.2 := by
  unfold Row.assign
  split
  · exact Or.inl (r.changeStatus_itemId _ _)
  · exact r.setAttr_itemId g.1 g.2

theorem Row.update_itemId (hnodup : (val.fields.map Prod.fst).Nodup) (r : Row) (now : Time) :
    (r.update val now).attrs .itemId = r.attrs .itemId ∨
      (r.update val now).attrs .itemId = val.get .itemId := by
  have hassign := Row.foldl_itemId (Row.assign_itemId now) (clientFields r.table val) r
  have htail : (r.update val now).attrs .itemId =
      ((clientFields r.table val).foldl (Row.assign now) r).attrs .itemId := by
    unfold Row.update
    by_cases hnull : val.get .isDeleted = .null
    · simp [hnull, Row.setAttr_attrs_of_ne, recalculateItemScores_itemId]
    · by_cases htrue : (val.get .isDeleted).truthy = true
      · simp [hnull, htrue, Row.setAttr_attrs_of_ne, recalculateItemScores_itemId,
          Row.softDelete_itemId]
      · simp [hnull, htrue, Row.setAttr_attrs_of_ne, recalculateItemScores_itemId]
  rw [htail]
  rcases hassign with h | ⟨v, hv, h⟩
  · exact Or.inl h
  · right
    rw [h, Parsed.get_of_mem hnodup (List.mem_of_mem_filter hv)]

theorem Data.projectOf_eq {p : Uuid} {r : Row} (h : d.projectOf r = some p) :
    (r.table ≠ .assessments ∧ r.ownProject = some p) ∨
      (r.table = .assessments ∧ ∃ itemId, r.attrs .itemId = .uuid itemId ∧
        (d.item itemId).bind Row.ownProject = some p) := by
  unfold Data.projectOf at h
  split at h
  · rename_i ht
    split at h
    · rename_i itemId hi
      exact Or.inr ⟨ht, itemId, hi, h⟩
    · cases h
  · rename_i ht
    exact Or.inl ⟨ht, h⟩

theorem Row.Keeps.projectOf_ne {r r' : Row} (h : r.Keeps r') (ht : r.table ≠ .assessments) :
    d.projectOf r' = d.projectOf r := by
  have ht' : r'.table ≠ .assessments := h.table ▸ ht
  unfold Data.projectOf
  cases hr : r.table <;> simp_all [h.table, h.ownProject]

theorem Data.projectOf_assessment {r : Row} (ht : r.table = .assessments) {itemId : Uuid}
    (hi : r.attrs .itemId = .uuid itemId) :
    d.projectOf r = (d.item itemId).bind Row.ownProject := by
  simp [Data.projectOf, ht, hi]

theorem Data.projectOf_softDelete (r : Row) (now : Time) :
    d.projectOf (r.softDelete now) = d.projectOf r := by
  have hkeeps := r.keeps_softDelete now
  by_cases ht : r.table = .assessments
  · simp [Data.projectOf, hkeeps.table, ht, Row.softDelete_itemId]
  · exact hkeeps.projectOf_ne ht

/-- In the project, or with a parent that is not an id, which no flush accepts. -/
def Data.Placed (d : Data) (r : Row) (p : Uuid) : Prop :=
  d.projectOf r = some p ∨ r.table = .assessments ∧ ∀ itemId, r.attrs .itemId ≠ .uuid itemId

theorem Data.Placed.eq {r : Row} {p q : Uuid} (h : d.Placed r p) (hq : d.projectOf r = some q) :
    q = p := by
  rcases h with h | ⟨ht, hi⟩
  · exact Option.some.inj (hq.symm.trans h)
  · obtain ⟨ht', -⟩ | ⟨-, itemId, he, -⟩ := Data.projectOf_eq hq
    · exact absurd ht ht'
    · exact absurd he (hi itemId)

/-- An update leaves a row in its project: a new parent is checked to lie in it. -/
theorem updateExisting_placed {entity : Entity} {r obj : Row} {record : Dict} {now : Time}
    (htable : r.table = entity.table) (hr : d.projectOf r = some projectId)
    (h : updateExisting conv d projectId entity r record now = .ok obj) :
    d.Placed obj projectId := by
  obtain ⟨hkeeps, -⟩ := updateExisting_ok h
  obtain ⟨val, hval, h⟩ := bind_ok h
  obtain ⟨_, hrel, h⟩ := bind_ok h
  cases h
  by_cases ht : r.table = .assessments
  · have hentity : entity = .assessment := by
      cases entity <;> simp [htable, Entity.table] at ht ⊢
    subst hentity
    have hto := hkeeps.table.trans ht
    by_cases hid : ∃ itemId, (r.update val now).attrs .itemId = .uuid itemId
    · obtain ⟨itemId, hi⟩ := hid
      left
      rw [Data.projectOf_assessment hto hi]
      rcases Row.update_itemId (parseRecord_nodup hval) r now with he | he
      · rwa [Data.projectOf_assessment ht (he.symm.trans hi)] at hr
      · have hparent : validateParent conv d projectId val (some r) = .ok _ := hrel
        exact validateParent_ok hparent (he.symm.trans hi)
    · exact Or.inr ⟨hto, fun itemId hi ↦ hid ⟨itemId, hi⟩⟩
  · left
    rw [hkeeps.projectOf_ne ht, hr]

theorem createNew_base {userId : Uuid} {entity : Entity} {entityId : Uuid} {record : Dict}
    {now : Time} {obj : Row}
    (h : createNew conv d userId projectId entity entityId record now = .ok obj) :
    ∃ (base : Row) (val : Parsed), base.table = entity.table ∧
      (entity ≠ .assessment → base.attrs .projectId = .uuid projectId) ∧
      (entity.scored = true → base.attrs .type = .str entity.name) ∧
      (entity = .assessment → base.attrs .assessorUserId = .uuid userId) ∧
      base.attrs .itemId = .null ∧ (val.fields.map Prod.fst).Nodup ∧
      (∀ f ∈ val.fields, f.1 ∉ fixedAttrs) ∧
      validateRelationships conv d projectId entity val none = .ok () ∧
      obj = recalculateItemScores (base.setAll (clientFields entity.table val)) := by
  obtain ⟨val, hval, h⟩ := bind_ok h
  obtain ⟨val', hcode, h⟩ := bind_ok h
  obtain ⟨_, hrel, h⟩ := bind_ok h
  cases h
  have hfields : (val'.fields.map Prod.fst).Nodup ∧ ∀ f ∈ val'.fields, f.1 ∉ fixedAttrs := by
    have hnodup := parseRecord_nodup hval
    have hfixed := parseRecord_not_fixed hval
    unfold withItemCode at hcode
    split at hcode
    · obtain ⟨code, -, rfl⟩ := map_ok hcode
      refine ⟨Parsed.nodup_set hnodup _ _, fun f hf ↦ ?_⟩
      rcases Parsed.mem_set hf with he | hf
      · rw [he]
        decide
      · exact hfixed f hf
    · cases hcode
      exact ⟨hnodup, hfixed⟩
  refine ⟨_, val', ?_, ?_, ?_, ?_, ?_, hfields.1, hfields.2, hrel, rfl⟩
  · cases entity <;> rfl
  · intro hentity
    cases entity with
    | assessment => exact absurd rfl hentity
    | _ => rfl
  · intro hscored
    cases entity <;> first | rfl | cases hscored
  · rintro rfl
    rfl
  · cases entity <;> rfl

theorem createNew_owner {userId : Uuid} {entity : Entity} {entityId : Uuid} {record : Dict}
    {now : Time} {obj : Row}
    (h : createNew conv d userId projectId entity entityId record now = .ok obj) :
    (entity.scored = true → obj.attrs .type = .str entity.name) ∧
      (entity = .assessment → obj.attrs .assessorUserId = .uuid userId) := by
  obtain ⟨base, val, -, -, htype, hassessor, -, -, hfixed, -, rfl⟩ := createNew_base h
  have hkeeps := (Row.keeps_foldl (fun r g hg ↦ r.keeps_setAttr g.2 hg)
    (clientFields entity.table val) base fun f hf ↦ hfixed f (List.mem_of_mem_filter hf)).trans
    (keeps_recalculateItemScores _)
  exact ⟨fun hscored ↦ (hkeeps.fixed .type (by decide)).trans (htype hscored),
    fun ha ↦ (hkeeps.fixed .assessorUserId (by decide)).trans (hassessor ha)⟩

theorem createNew_project {userId : Uuid} {entity : Entity} {entityId : Uuid} {record : Dict}
    {now : Time} {obj : Row} {p : Uuid}
    (h : createNew conv d userId projectId entity entityId record now = .ok obj)
    (hp : d.projectOf obj = some p) : p = projectId := by
  obtain ⟨base, val, htable, hproject, -, -, hitem, hnodup, hfixed, hrel, rfl⟩ := createNew_base h
  have hclient : ∀ f ∈ clientFields entity.table val, f.1 ∉ fixedAttrs := fun f hf ↦
    hfixed f (List.mem_of_mem_filter hf)
  have hkeeps := (Row.keeps_foldl (fun r g hg ↦ r.keeps_setAttr g.2 hg)
    (clientFields entity.table val) base hclient).trans (keeps_recalculateItemScores _)
  obtain ⟨ht, hown⟩ | ⟨ht, itemId, hi, hpar⟩ := Data.projectOf_eq hp
  · have hentity : entity ≠ .assessment := by
      rintro rfl
      exact ht (hkeeps.table.trans htable)
    have hbase : base.ownProject = some projectId := by simp [Row.ownProject, hproject hentity]
    exact Option.some.inj (hown.symm.trans (hkeeps.ownProject.trans hbase))
  · have hentity : entity = .assessment := by
      have := htable.symm.trans (hkeeps.table.symm.trans ht)
      cases entity <;> simp [Entity.table] at this ⊢
    subst hentity
    have hset : (recalculateItemScores (base.setAll (clientFields _ val))).attrs .itemId =
        (base.setAll (clientFields Entity.assessment.table val)).attrs .itemId :=
      recalculateItemScores_itemId _
    rcases Row.foldl_itemId (fun r g ↦ r.setAttr_itemId g.1 g.2)
        (clientFields Entity.assessment.table val) base with he | ⟨v, hv, he⟩
    · have hnull := hi.symm.trans (hset.trans (he.trans hitem))
      cases hnull
    · have hparent : validateParent conv d projectId val none = .ok () := hrel
      have hget := Parsed.get_of_mem hnodup (List.mem_of_mem_filter hv)
      have hv' : v = .uuid itemId := he.symm.trans (hset.symm.trans hi)
      have hproject := validateParent_ok hparent (hget.trans hv')
      exact Option.some.inj (hpar.symm.trans hproject)

end Parent

/-- What an accepted change does: nothing to a missing row, one version more to the row it was
based on, or one new row at version 1. -/
inductive Applied (db : Data) (userId projectId : Uuid) (change : SyncChange) (entityId : Uuid) :
    Data → Prop
  | absent (op : change.op = .delete)
      (missing : fetchObj db change.entity entityId projectId = none) :
      Applied db userId projectId change entityId db
  | modified {r r' : Row} {n : ℕ} (entry : AuditLog)
      (found : fetchObj db change.entity entityId projectId = some r)
      (scope : inVersionScope db change.entity projectId userId r = true)
      (base : change.baseVersion = some (r.version : ℤ)) (pos : 1 ≤ r.version)
      (keeps : r.Keeps r') (version : r'.version = r.version + 1)
      (project : db.projectOf r' = some projectId)
      (last : db.lastSequence projectId = some n)
      (sequence : r'.changeSequence = n + 1) (parent : db.hasParent r') :
      Applied db userId projectId change entityId { db with
        rows := Table.replace Row.key r' db.rows
        audit := db.audit ++ [entry]
        lastSequence := Function.update db.lastSequence projectId (some (n + 1)) }
  | created {r' : Row} {n : ℕ} (entry : AuditLog) (op : change.op = .upsert)
      (missing : fetchObj db change.entity entityId projectId = none)
      (fresh : db.row (change.entity.table, entityId) = none)
      (key : r'.key = (change.entity.table, entityId)) (version : r'.version = 1)
      (type : change.entity.scored = true → r'.attrs .type = .str change.entity.name)
      (assessor : change.entity = .assessment → r'.attrs .assessorUserId = .uuid userId)
      (project : db.projectOf r' = some projectId)
      (last : db.lastSequence projectId = some n)
      (sequence : r'.changeSequence = n + 1) (parent : db.hasParent r') :
      Applied db userId projectId change entityId { db with
        rows := db.rows ++ [r']
        audit := db.audit ++ [entry]
        lastSequence := Function.update db.lastSequence projectId (some (n + 1)) }

theorem flush_claimed {db db' : Data} {r obj : Row} {userId projectId : Uuid}
    {change : SyncChange} {entityId : Uuid} {now : Time} {entry : AuditLog}
    (hr : fetchObj db change.entity entityId projectId = some r)
    (hscope : inVersionScope db change.entity projectId userId r = true)
    (hb : change.baseVersion = some (r.version : ℤ)) (hpos : 1 ≤ r.version)
    (hk : r.Keeps obj) (hv : obj.version = r.version + 1)
    (hproject : ∀ p, db.projectOf obj = some p → p = projectId)
    (h : flush { db with rows := Table.replace Row.key (r.claim now) db.rows } now
      (some ⟨obj, false, entry⟩) = .ok db') :
    Applied db userId projectId change entityId db' := by
  obtain ⟨hrow, -⟩ := fetchObj_some hr
  have hkey : r.key = (change.entity.table, entityId) := Table.key_of_find Row.key hrow
  rw [← hkey] at hrow
  obtain ⟨db₁, hflush, rfl⟩ := map_ok h
  obtain ⟨p, n, r', hp, hn, hst, hparent, rfl⟩ := flushUpdate_ok hflush
  have hclaim := r.keeps_claim now
  have hkeeps := hk.trans hst.keeps
  have hrows : Table.replace Row.key r' (Table.replace Row.key (r.claim now) db.rows) =
      Table.replace Row.key r' db.rows :=
    Table.replace_replace Row.key _ (hclaim.key.trans hkeeps.key.symm)
  rw [Data.projectOf_replace hrow hclaim] at hp
  obtain rfl := hproject p hp
  simp only [hrows]
  exact .modified entry hr hscope hb hpos hkeeps (hst.version.trans hv)
    ((db.projectOf_congr hst).trans hp) hn hst.sequence
    (Data.hasParent_of_replace hrow hclaim hparent)

theorem applyChange_ok {conv : Conv} {db db' : Data} {userId projectId : Uuid}
    {change : SyncChange} {now : Time} {entityId : Uuid}
    (h : applyChange conv db userId projectId change now = .ok (db', entityId)) :
    parseUuid conv "record.id" (change.record.get .id) = .ok entityId ∧
      Applied db userId projectId change entityId db' := by
  obtain ⟨⟨db₁, id₁, write⟩, happly, h⟩ := bind_ok h
  obtain ⟨db₂, hflush, h⟩ := bind_ok h
  cases h
  cases hop : change.op with
  | upsert =>
    simp only [applyOp, hop] at happly
    obtain ⟨id₂, hid, happly⟩ := bind_ok happly
    cases hobj : fetchObj db change.entity id₂ projectId with
    | none =>
      simp only [hobj] at happly
      obtain ⟨obj, hnew, happly⟩ := bind_ok happly
      cases happly
      obtain ⟨hkey, hver⟩ := createNew_ok hnew
      obtain ⟨db₃, hins, rfl⟩ := map_ok hflush
      obtain ⟨p, n, r', hp, hn, hst, hfresh, hparent, rfl⟩ := flushInsert_ok hins
      obtain rfl := createNew_project hnew hp
      obtain ⟨htype, hassessor⟩ := createNew_owner hnew
      have hkeep : ∀ {a : Attr} {v : Val}, a ∉ flushedAttrs → obj.attrs a = v → v ≠ .null →
          (r'.withDefaults now).attrs a = v := by
        intro a v ha hv hne
        have hr' := (hst.attrs a ha).trans hv
        rw [Row.withDefaults_attrs now (by simp [hr', hne]), hr']
      refine ⟨hid, .created _ hop hobj (hkey ▸ hfresh) (hst.key.trans hkey)
        (hst.version.trans hver)
        (fun hs ↦ hkeep (by decide) (htype hs) (by simp))
        (fun ha ↦ hkeep (by decide) (hassessor ha) (by simp)) ?_ hn hst.sequence hparent⟩
      exact Data.projectOf_withDefaults now ((db.projectOf_congr hst).trans hp)
    | some r =>
      simp only [hobj] at happly
      obtain ⟨claimed, hclaim, happly⟩ := bind_ok happly
      obtain ⟨obj, hupd, happly⟩ := bind_ok happly
      cases happly
      obtain ⟨hb, hpos, hscope, rfl⟩ := claimExisting_ok hobj hclaim
      obtain ⟨hk, hv⟩ := updateExisting_ok hupd
      obtain ⟨hrow, hp⟩ := fetchObj_some hobj
      have hkey := Table.key_of_find Row.key hrow
      have hclaimed := Data.projectOf_replace (hkey ▸ hrow) (r.keeps_claim now)
      refine ⟨hid, flush_claimed hobj hscope hb hpos hk hv (fun p hobjp ↦ ?_) hflush⟩
      exact (updateExisting_placed (congrArg Prod.fst hkey) ((hclaimed r).trans hp) hupd).eq
        ((hclaimed obj).trans hobjp)
  | delete =>
    simp only [applyOp, hop] at happly
    obtain ⟨id₂, hid, happly⟩ := bind_ok happly
    cases hobj : fetchObj db change.entity id₂ projectId with
    | none =>
      simp only [hobj] at happly
      cases happly
      cases hflush
      exact ⟨hid, .absent hop hobj⟩
    | some r =>
      simp only [hobj] at happly
      obtain ⟨claimed, hclaim, happly⟩ := bind_ok happly
      cases happly
      obtain ⟨hb, hpos, hscope, rfl⟩ := claimExisting_ok hobj hclaim
      obtain ⟨-, hp⟩ := fetchObj_some hobj
      refine ⟨hid, flush_claimed hobj hscope hb hpos (r.keeps_softDelete now) (by simp) ?_ hflush⟩
      intro p hobjp
      rw [Data.projectOf_softDelete, hp] at hobjp
      exact Option.some.inj hobjp.symm

end RiskApp.Server
