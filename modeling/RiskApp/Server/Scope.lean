import RiskApp.Server.ItemCalls

namespace RiskApp.Server

open Lib Lib.Result

/-- A row of the project, whose item, if it has one, is of the project too. -/
structure Data.Holds (d : Data) (p : Uuid) (r : Row) : Prop where
  project : d.projectOf r = some p
  target : .itemId ∈ r.table.columns → ∃ itemId, r.attrs .itemId = .uuid itemId ∧
    (d.item itemId).bind Row.ownProject = some p

/-- Ids are unique, and every row is held by a project. -/
structure Data.Scoped (d : Data) : Prop where
  keys : (d.rows.map Row.key).Nodup
  held : ∀ r ∈ d.rows, ∃ p, d.Holds p r

def Data.part (d : Data) (p : Uuid) : List Row × List AuditLog × Option ℕ :=
  (d.rows.filter fun r ↦ d.projectOf r = some p, d.audit.filter fun e ↦ e.projectId = p,
    d.lastSequence p)

/-- What a write in project `p` leaves alone: the other projects, the owners of all rows, and who
may do what. -/
structure Data.Confined (d : Data) (p : Uuid) (d' : Data) : Prop where
  inScope : d'.Scoped
  project : ∀ r q, d.projectOf r = some q → d'.projectOf r = some q
  kept : ∀ r ∈ d.rows, ∃ r' ∈ d'.rows, r.Keeps r' ∧ d'.projectOf r' = d.projectOf r
  others : ∀ q, q ≠ p → d'.part q = d.part q
  memberRole : d'.memberRole = d.memberRole
  superusers : d'.superusers = d.superusers
  users : d'.users = d.users

theorem Data.projectOf_of_rows {d d' : Data} (h : d'.rows = d.rows) (r : Row) :
    d'.projectOf r = d.projectOf r := by
  refine Data.projectOf_eq_of_items (fun u ↦ ?_) r
  unfold Data.item Data.row
  rw [h]

theorem Data.item_of_rows {d d' : Data} (h : d'.rows = d.rows) (i : Uuid) :
    d'.item i = d.item i := by
  unfold Data.item Data.row
  rw [h]

theorem Data.Holds.mono {d d' : Data} {p : Uuid} {r : Row} (h : d.Holds p r)
    (hproject : ∀ r q, d.projectOf r = some q → d'.projectOf r = some q)
    (hitem : ∀ i q, (d.item i).bind Row.ownProject = some q →
      (d'.item i).bind Row.ownProject = some q) : d'.Holds p r := by
  refine ⟨hproject r p h.project, fun hcol ↦ ?_⟩
  obtain ⟨i, hi, hown⟩ := h.target hcol
  exact ⟨i, hi, hitem i p hown⟩

theorem Data.Holds.of_columns {d : Data} {p : Uuid} {r : Row} (hparent : d.hasParent r)
    (hown : r.table ≠ .assessments → r.ownProject = some p)
    (htarget : .itemId ∈ r.table.columns → ∀ i, r.attrs .itemId = .uuid i →
      (d.item i).bind Row.ownProject = some p) : d.Holds p r := by
  have hitem : .itemId ∈ r.table.columns → ∃ i, r.attrs .itemId = .uuid i ∧
      (d.item i).bind Row.ownProject = some p := by
    intro hcol
    obtain ⟨i, hi, -⟩ := hparent hcol
    exact ⟨i, hi, htarget hcol i hi⟩
  refine ⟨?_, hitem⟩
  by_cases ht : r.table = .assessments
  · obtain ⟨i, hi, hp⟩ := hitem (by rw [ht]; decide)
    rwa [Data.projectOf_assessment ht hi]
  · have hp := hown ht
    unfold Data.projectOf
    cases htable : r.table <;> simp_all

theorem Data.Scoped.of_rows {d d' : Data} (h : d.Scoped) (hrows : d'.rows = d.rows) :
    d'.Scoped := by
  refine ⟨by rw [hrows]; exact h.keys, fun r hr ↦ ?_⟩
  obtain ⟨p, hp⟩ := h.held r (hrows ▸ hr)
  exact ⟨p, hp.mono (fun s q hs ↦ (Data.projectOf_of_rows hrows s).trans hs)
    fun i q hi ↦ by rwa [Data.item_of_rows hrows]⟩

theorem Data.Scoped.row_of_mem {d : Data} (h : d.Scoped) {r : Row} (hr : r ∈ d.rows) :
    d.row r.key = some r :=
  Table.find_of_mem Row.key h.keys hr

namespace Data.Confined

variable {d d' : Data} {p : Uuid}

theorem refl (h : d.Scoped) (p : Uuid) : d.Confined p d :=
  ⟨h, fun _ _ hr ↦ hr, fun r hr ↦ ⟨r, hr, .refl r, rfl⟩, fun _ _ ↦ rfl, rfl, rfl, rfl⟩

theorem trans {d'' : Data} (h : d.Confined p d') (h' : d'.Confined p d'') : d.Confined p d'' := by
  refine ⟨h'.inScope, fun r q hr ↦ h'.project r q (h.project r q hr), fun r hr ↦ ?_,
    fun q hq ↦ (h'.others q hq).trans (h.others q hq), h'.memberRole.trans h.memberRole,
    h'.superusers.trans h.superusers, h'.users.trans h.users⟩
  obtain ⟨r', hr', hk, hp⟩ := h.kept r hr
  obtain ⟨r'', hr'', hk', hp'⟩ := h'.kept r' hr'
  exact ⟨r'', hr'', hk.trans hk', hp'.trans hp⟩

theorem item (h : d.Confined p d') {i q : Uuid} (hi : (d.item i).bind Row.ownProject = some q) :
    (d'.item i).bind Row.ownProject = some q := by
  obtain ⟨o, ho, hown⟩ := Option.bind_eq_some_iff.mp hi
  obtain ⟨o', ho', hk, -⟩ := h.kept o (Table.mem_of_find Row.key ho)
  have hkey : o'.key = (.items, i) := hk.key.trans (Table.key_of_find Row.key ho)
  have hrow : d'.item i = some o' := by
    unfold Data.item
    rw [← hkey]
    exact h.inScope.row_of_mem ho'
  rw [hrow, Option.bind_some, hk.ownProject, hown]

/-- The data besides the rows: only the project's counter and audit log may differ. -/
structure Beside (d : Data) (p : Uuid) (d' : Data) : Prop where
  audit : ∀ q, q ≠ p → d'.audit.filter (fun e ↦ e.projectId = q) =
    d.audit.filter fun e ↦ e.projectId = q
  lastSequence : ∀ q, q ≠ p → d'.lastSequence q = d.lastSequence q
  memberRole : d'.memberRole = d.memberRole
  superusers : d'.superusers = d.superusers
  users : d'.users = d.users

theorem of_replace (h : d.Scoped) {r r' : Row} (hr : d.row r.key = some r) (hk : r.Keeps r')
    (hp : d.projectOf r = some p) (hnew : d.Holds p r')
    (hrows : d'.rows = Table.replace Row.key r' d.rows) (hbeside : Beside d p d') :
    d.Confined p d' := by
  have hproject : ∀ s, d'.projectOf s = d.projectOf s := fun s ↦
    (Data.projectOf_of_rows (d := { d with rows := Table.replace Row.key r' d.rows }) hrows s).trans
      (Data.projectOf_replace hr hk s)
  have hitem : ∀ i q, (d.item i).bind Row.ownProject = some q →
      (d'.item i).bind Row.ownProject = some q := by
    intro i q hi
    rw [Data.item_of_rows (d := { d with rows := Table.replace Row.key r' d.rows }) hrows]
    unfold Data.item at hi ⊢
    rw [Data.row_replace hr hk.key]
    split
    · rename_i he
      rw [he, hr, Option.bind_some] at hi
      rw [Option.bind_some, hk.ownProject, hi]
    · exact hi
  have hunique : ∀ s ∈ d.rows, s.key = r'.key → s = r := by
    intro s hs he
    rw [hk.key] at he
    have hfind := h.row_of_mem hs
    rw [he, hr] at hfind
    exact (Option.some.inj hfind).symm
  refine ⟨⟨?_, fun s hs ↦ ?_⟩, fun s q hs ↦ (hproject s).trans hs, fun s hs ↦ ?_, fun q hq ↦ ?_,
    hbeside.memberRole, hbeside.superusers, hbeside.users⟩
  · rw [hrows, Table.map_key_replace]
    exact h.keys
  · rcases Table.mem_replace Row.key (hrows ▸ hs) with rfl | ⟨hs, -⟩
    · exact ⟨p, hnew.mono (fun t q ht ↦ (hproject t).trans ht) hitem⟩
    · obtain ⟨q, hq⟩ := h.held s hs
      exact ⟨q, hq.mono (fun t q ht ↦ (hproject t).trans ht) hitem⟩
  · by_cases he : s.key = r'.key
    · obtain rfl := hunique s hs he
      refine ⟨r', ?_, hk, (hproject r').trans (hnew.project.trans hp.symm)⟩
      rw [hrows]
      exact List.mem_map.mpr ⟨s, hs, by simp [he]⟩
    · refine ⟨s, ?_, .refl s, hproject s⟩
      rw [hrows]
      exact List.mem_map.mpr ⟨s, hs, by simp [he]⟩
  · unfold Data.part
    rw [hbeside.audit q hq, hbeside.lastSequence q hq, hrows]
    simp only [hproject]
    refine congrArg (·, _) (Table.filter_replace Row.key ?_ fun s hs he ↦ ?_)
    · simpa [hnew.project] using Ne.symm hq
    · rw [hunique s hs he]
      simpa [hp] using Ne.symm hq

theorem of_append (h : d.Scoped) {r' : Row} (hfresh : d.row r'.key = none) (hnew : d.Holds p r')
    (hrows : d'.rows = d.rows ++ [r']) (hbeside : Beside d p d') : d.Confined p d' := by
  have hkeys : ∀ s ∈ d.rows, s.key ≠ r'.key := (Table.find_eq_none Row.key).mp hfresh
  have hitem : ∀ i q, (d.item i).bind Row.ownProject = some q →
      (d'.item i).bind Row.ownProject = some q := by
    intro i q hi
    obtain ⟨o, ho, hown⟩ := Option.bind_eq_some_iff.mp hi
    rw [Data.item_of_rows (d := { d with rows := d.rows ++ [r'] }) hrows, Data.item_append ho]
    exact hown
  have hproject : ∀ s q, d.projectOf s = some q → d'.projectOf s = some q := by
    intro s q hs
    obtain ⟨ht, hown⟩ | ⟨ht, i, hi, hown⟩ := Data.projectOf_eq hs
    · cases htable : s.table <;> simp_all [Data.projectOf]
    · rw [Data.projectOf_assessment ht hi]
      exact hitem i q hown
  refine ⟨⟨?_, fun s hs ↦ ?_⟩, hproject, fun s hs ↦ ?_, fun q hq ↦ ?_, hbeside.memberRole,
    hbeside.superusers, hbeside.users⟩
  · rw [hrows, List.map_append, List.map_cons, List.map_nil]
    refine List.nodup_append.mpr ⟨h.keys, by simp, fun k hk k' hk' he ↦ ?_⟩
    obtain ⟨s, hs, rfl⟩ := List.mem_map.mp hk
    exact hkeys s hs (he.trans (List.mem_singleton.mp hk'))
  · rcases List.mem_append.mp (hrows ▸ hs) with hs | hs
    · obtain ⟨q, hq⟩ := h.held s hs
      exact ⟨q, hq.mono hproject hitem⟩
    · obtain rfl := List.mem_singleton.mp hs
      exact ⟨p, hnew.mono hproject hitem⟩
  · obtain ⟨q, hq⟩ := h.held s hs
    refine ⟨s, ?_, .refl s, (hproject s q hq.project).trans hq.project.symm⟩
    rw [hrows]
    exact List.mem_append_left _ hs
  · unfold Data.part
    rw [hbeside.audit q hq, hbeside.lastSequence q hq, hrows, List.filter_append]
    have hlast : [r'].filter (fun s ↦ d'.projectOf s = some q) = [] := by
      have hp := hproject r' p hnew.project
      simp [hp, Ne.symm hq]
    rw [hlast, List.append_nil]
    refine congrArg (·, _) (List.filter_congr fun s hs ↦ ?_)
    obtain ⟨q', hq'⟩ := h.held s hs
    rw [hproject s q' hq'.project, hq'.project]

end Data.Confined

theorem Row.Keeps.symm {r r' : Row} (h : r.Keeps r') : r'.Keeps r :=
  ⟨h.table.symm, h.id.symm, fun a ha ↦ (h.fixed a ha).symm⟩

theorem Row.withDefaults_itemId (r : Row) (now : Time) :
    (r.withDefaults now).attrs .itemId = r.attrs .itemId := by
  by_cases hnull : r.attrs .itemId = .null
  · rw [hnull]
    cases ht : r.table <;> simp [Row.withDefaults, hnull, ht, Table.columnDefaults]
  · exact Row.withDefaults_attrs now hnull

theorem Data.Holds.of_keeps {d : Data} {p : Uuid} {r r' : Row} (h : d.Holds p r)
    (hk : r.Keeps r') (hi : r'.attrs .itemId = r.attrs .itemId) : d.Holds p r' := by
  refine ⟨?_, fun hcol ↦ ?_⟩
  · by_cases ht : r.table = .assessments
    · obtain ⟨i, hitem, hp⟩ := h.target (by rw [ht]; decide)
      rwa [Data.projectOf_assessment (hk.table.trans ht) (hi.trans hitem)]
    · exact (hk.projectOf_ne ht).trans h.project
  · rw [hi]
    exact h.target (hk.table ▸ hcol)

theorem Data.Holds.targets {d : Data} {p : Uuid} {r : Row} (h : d.Holds p r)
    (hcol : .itemId ∈ r.table.columns) {i : Uuid} (hi : r.attrs .itemId = .uuid i) :
    (d.item i).bind Row.ownProject = some p := by
  obtain ⟨j, hj, hown⟩ := h.target hcol
  obtain rfl : j = i := Val.uuid.inj (hj.symm.trans hi)
  exact hown

theorem Data.Holds.softDelete {d : Data} {p : Uuid} {r : Row} (h : d.Holds p r) (now : Time) :
    .itemId ∈ (r.softDelete now).table.columns → ∀ i,
      (r.softDelete now).attrs .itemId = .uuid i → (d.item i).bind Row.ownProject = some p := by
  intro hcol i hi
  rw [Row.softDelete_itemId] at hi
  exact h.targets ((r.keeps_softDelete now).table ▸ hcol) hi

theorem Data.Scoped.holds {d : Data} (h : d.Scoped) {p : Uuid} {r : Row} (hr : r ∈ d.rows)
    (hp : d.projectOf r = some p) : d.Holds p r := by
  obtain ⟨q, hq⟩ := h.held r hr
  obtain rfl : q = p := Option.some.inj (hq.project.symm.trans hp)
  exact hq

theorem Data.ownProject_of_projectOf {d : Data} {p : Uuid} {r : Row}
    (h : d.projectOf r = some p) (ht : r.table ≠ .assessments) : r.ownProject = some p := by
  obtain ⟨-, hown⟩ | ⟨ht', -⟩ := Data.projectOf_eq h
  · exact hown
  · exact absurd ht' ht

section Write

variable {d d' : Data} {p : Uuid} (h : d.Scoped)

include h

theorem Data.Scoped.claim {r : Row} (hr : d.row r.key = some r) (hp : d.projectOf r = some p)
    (now : Time) :
    d.Confined p { d with rows := Table.replace Row.key (r.claim now) d.rows } :=
  .of_replace h hr (r.keeps_claim now) hp
    ((h.holds (Table.mem_of_find Row.key hr) hp).of_keeps (r.keeps_claim now)
      (r.setAttr_attrs_of_ne (.time now) (show Attr.itemId ≠ .updatedAt by decide))) rfl
    ⟨fun _ _ ↦ rfl, fun _ _ ↦ rfl, rfl, rfl, rfl⟩

theorem Data.Scoped.audit {e : AuditLog} (he : e.projectId = p) :
    d.Confined p { d with audit := d.audit ++ [e] } := by
  refine ⟨h.of_rows rfl, fun r q hr ↦ (Data.projectOf_of_rows rfl r).trans hr,
    fun r hr ↦ ⟨r, hr, .refl r, Data.projectOf_of_rows rfl r⟩, fun q hq ↦ ?_, rfl, rfl, rfl⟩
  have hlast : [e].filter (fun e ↦ e.projectId = q) = [] := by
    simp [he, Ne.symm hq]
  have hproject : ∀ s, ({ d with audit := d.audit ++ [e] } : Data).projectOf s = d.projectOf s :=
    Data.projectOf_of_rows rfl
  unfold Data.part
  rw [List.filter_append, hlast, List.append_nil]
  simp only [hproject]

theorem flushUpdate_confined {r obj : Row} (hr : d.row r.key = some r) (hk : r.Keeps obj)
    (hp : d.projectOf r = some p)
    (ht : .itemId ∈ obj.table.columns → ∀ i, obj.attrs .itemId = .uuid i →
      (d.item i).bind Row.ownProject = some p) (hu : flushUpdate d obj = .ok d') :
    d.Confined p d' := by
  obtain ⟨q, n, r', hq, hn, hst, hparent, rfl⟩ := flushUpdate_ok hu
  have hkeeps := hk.trans hst.keeps
  have hnew : d.Holds p r' := by
    refine .of_columns hparent (fun hne ↦ ?_) fun hcol i hi ↦ ?_
    · rw [hkeeps.ownProject]
      exact Data.ownProject_of_projectOf hp (hkeeps.table ▸ hne)
    · exact ht (hst.table ▸ hcol) i ((hst.attrs .itemId (by decide)).symm.trans hi)
  obtain rfl : q = p :=
    Option.some.inj (hq.symm.trans ((d.projectOf_congr hst).symm.trans hnew.project))
  exact .of_replace h hr hkeeps hp hnew rfl
    ⟨fun _ _ ↦ rfl, fun q' hq' ↦ Function.update_of_ne hq' _ _, rfl, rfl, rfl⟩

theorem flushInsert_confined {obj : Row} {now : Time}
    (hown : obj.table ≠ .assessments → obj.ownProject = some p)
    (ht : .itemId ∈ obj.table.columns → ∀ i, obj.attrs .itemId = .uuid i →
      (d.item i).bind Row.ownProject = some p) (hu : flushInsert d obj now = .ok d') :
    d.Confined p d' := by
  obtain ⟨q, n, r', hq, hn, hst, hfresh, hparent, rfl⟩ := flushInsert_ok hu
  have hnew : d.Holds p (r'.withDefaults now) := by
    refine .of_columns hparent (fun hne ↦ ?_) fun hcol i hi ↦ ?_
    · refine Row.ownProject_withDefaults now ?_
      rw [hst.keeps.ownProject]
      exact hown (hst.table ▸ hne)
    · rw [Row.withDefaults_itemId, hst.attrs .itemId (by decide)] at hi
      exact ht (hst.table ▸ hcol) i hi
  have hproject := Data.projectOf_withDefaults now ((d.projectOf_congr hst).trans hq)
  obtain rfl : q = p := Option.some.inj (hproject.symm.trans hnew.project)
  have hkey : (r'.withDefaults now).key = obj.key := hst.key
  exact .of_append h (hkey ▸ hfresh) hnew rfl
    ⟨fun _ _ ↦ rfl, fun q' hq' ↦ Function.update_of_ne hq' _ _, rfl, rfl, rfl⟩

end Write

section Push

variable {conv : Conv} {d d' : Data} {userId projectId : Uuid}

theorem validateRelationships_target {entity : Entity} {val : Parsed} {obj : Option Row} {u : Unit}
    (h : validateRelationships conv d projectId entity val obj = .ok u)
    (hcol : .itemId ∈ entity.table.columns) {i : Uuid} (hi : val.get .itemId = .uuid i) :
    (d.item i).bind Row.ownProject = some projectId := by
  cases entity with
  | assessment => exact validateParent_ok h hi
  | action =>
    simp only [validateRelationships, hi, Val.truthy, if_true] at h
    exact ensureTarget_ok h
  | _ => exact absurd hcol (by decide)

theorem updateExisting_target {entity : Entity} {r obj : Row} {record : Dict} {now : Time}
    (h : updateExisting conv d projectId entity r record now = .ok obj)
    (hcol : .itemId ∈ entity.table.columns) {i : Uuid} (hi : obj.attrs .itemId = .uuid i) :
    r.attrs .itemId = .uuid i ∨ (d.item i).bind Row.ownProject = some projectId := by
  obtain ⟨val, hval, h⟩ := bind_ok h
  obtain ⟨_, hrel, h⟩ := bind_ok h
  cases h
  rcases Row.update_itemId (parseRecord_nodup hval) r now with he | he
  · exact Or.inl (he.symm.trans hi)
  · exact Or.inr (validateRelationships_target hrel hcol (he.symm.trans hi))

theorem updateExisting_claimed (h : d.Scoped) {entity : Entity} {r obj : Row} {record : Dict}
    {now : Time} (hr : d.row r.key = some r) (hp : d.projectOf r = some projectId)
    (htable : r.table = entity.table)
    (hupd : updateExisting conv { d with rows := Table.replace Row.key (r.claim now) d.rows }
      projectId entity r record now = .ok obj) :
    .itemId ∈ obj.table.columns → ∀ i, obj.attrs .itemId = .uuid i →
      (d.item i).bind Row.ownProject = some projectId := by
  intro hcol i hi
  have hclaim := r.keeps_claim now
  rw [(updateExisting_ok hupd).1.table] at hcol
  rcases updateExisting_target hupd (htable ▸ hcol) hi with he | he
  · exact (h.holds (Table.mem_of_find Row.key hr) hp).targets hcol he
  · obtain ⟨o, ho, hown⟩ := Option.bind_eq_some_iff.mp he
    unfold Data.item at ho ⊢
    rw [Data.row_replace hr hclaim.key] at ho
    split at ho
    · rename_i hri
      obtain rfl := Option.some.inj ho
      rw [hri, hr, Option.bind_some, ← hclaim.ownProject, hown]
    · rw [ho, Option.bind_some, hown]

theorem createNew_target {entity : Entity} {entityId : Uuid} {record : Dict} {now : Time}
    {obj : Row} (h : createNew conv d userId projectId entity entityId record now = .ok obj) :
    (obj.table ≠ .assessments → obj.ownProject = some projectId) ∧
      (.itemId ∈ obj.table.columns → ∀ i, obj.attrs .itemId = .uuid i →
        (d.item i).bind Row.ownProject = some projectId) := by
  have hkey := (createNew_ok h).1
  have htable : obj.table = entity.table := congrArg Prod.fst hkey
  obtain ⟨base, val, -, hproject, -, -, hitem, hnodup, hfixed, hrel, rfl⟩ := createNew_base h
  have hclient : ∀ f ∈ clientFields entity.table val, f.1 ∉ fixedAttrs := fun f hf ↦
    hfixed f (List.mem_of_mem_filter hf)
  have hkeeps := (Row.keeps_foldl (fun r g hg ↦ r.keeps_setAttr g.2 hg)
    (clientFields entity.table val) base hclient).trans (keeps_recalculateItemScores _)
  rw [htable]
  refine ⟨fun hne ↦ ?_, fun hcol i hi ↦ ?_⟩
  · have hentity : entity ≠ .assessment := by
      rintro rfl
      exact hne rfl
    have hbase : base.ownProject = some projectId := by
      simp [Row.ownProject, hproject hentity]
    exact hkeeps.ownProject.trans hbase
  · rw [recalculateItemScores_itemId] at hi
    rcases Row.foldl_itemId (fun r g ↦ r.setAttr_itemId g.1 g.2)
        (clientFields entity.table val) base with he | ⟨v, hv, he⟩
    · have hnull := hi.symm.trans (he.trans hitem)
      cases hnull
    · have hget := Parsed.get_of_mem hnodup (List.mem_of_mem_filter hv)
      exact validateRelationships_target hrel hcol (hget.trans (he.symm.trans hi))

theorem flush_confined (h : d.Scoped) {r obj : Row} {now : Time} {entry : AuditLog}
    (hr : d.row r.key = some r) (hp : d.projectOf r = some projectId) (hk : r.Keeps obj)
    (ht : .itemId ∈ obj.table.columns → ∀ i, obj.attrs .itemId = .uuid i →
      (d.item i).bind Row.ownProject = some projectId) (he : entry.projectId = projectId)
    (hu : flush { d with rows := Table.replace Row.key (r.claim now) d.rows } now
      (some ⟨obj, false, entry⟩) = .ok d') : d.Confined projectId d' := by
  have hclaim := h.claim hr hp now
  have hclaimed := r.keeps_claim now
  obtain ⟨d₁, hflush, rfl⟩ := map_ok hu
  have hfound : ({ d with rows := Table.replace Row.key (r.claim now) d.rows } : Data).row
      (r.claim now).key = some (r.claim now) := by
    rw [Data.row_replace hr hclaimed.key, if_pos hclaimed.key]
  have hproject : ({ d with rows := Table.replace Row.key (r.claim now) d.rows } : Data).projectOf
      (r.claim now) = some projectId := by
    rw [Data.projectOf_replace hr hclaimed]
    exact ((h.holds (Table.mem_of_find Row.key hr) hp).of_keeps hclaimed
      (r.setAttr_attrs_of_ne (.time now) (show Attr.itemId ≠ .updatedAt by decide))).project
  have hwrite := flushUpdate_confined hclaim.inScope hfound (hclaimed.symm.trans hk) hproject
    (fun hcol i hi ↦ ?_) hflush
  · exact (hclaim.trans hwrite).trans (hwrite.inScope.audit he)
  · exact hclaim.item (ht hcol i hi)

theorem applyChange_confined (h : d.Scoped) {change : SyncChange} {now : Time} {entityId : Uuid}
    (hc : applyChange conv d userId projectId change now = .ok (d', entityId)) :
    d.Confined projectId d' := by
  obtain ⟨⟨d₁, id₁, write⟩, happly, hc⟩ := bind_ok hc
  obtain ⟨d₂, hflush, hc⟩ := bind_ok hc
  cases hc
  cases hop : change.op with
  | upsert =>
    simp only [applyOp, hop] at happly
    obtain ⟨id₂, -, happly⟩ := bind_ok happly
    cases hobj : fetchObj d change.entity id₂ projectId with
    | none =>
      simp only [hobj] at happly
      obtain ⟨obj, hnew, happly⟩ := bind_ok happly
      cases happly
      obtain ⟨d₃, hins, rfl⟩ := map_ok hflush
      obtain ⟨hown, htarget⟩ := createNew_target hnew
      have hwrite := flushInsert_confined h hown htarget hins
      exact hwrite.trans (hwrite.inScope.audit rfl)
    | some r =>
      simp only [hobj] at happly
      obtain ⟨claimed, hclaim, happly⟩ := bind_ok happly
      obtain ⟨obj, hupd, happly⟩ := bind_ok happly
      cases happly
      obtain ⟨-, -, -, rfl⟩ := claimExisting_ok hobj hclaim
      obtain ⟨hk, -⟩ := updateExisting_ok hupd
      obtain ⟨hrow, hp⟩ := fetchObj_some hobj
      have hkey := Table.key_of_find Row.key hrow
      have htable : r.table = change.entity.table := congrArg Prod.fst hkey
      rw [← hkey] at hrow
      exact flush_confined h hrow hp hk (updateExisting_claimed h hrow hp htable hupd) rfl hflush
  | delete =>
    simp only [applyOp, hop] at happly
    obtain ⟨id₂, -, happly⟩ := bind_ok happly
    cases hobj : fetchObj d change.entity id₂ projectId with
    | none =>
      simp only [hobj] at happly
      cases happly
      cases hflush
      exact .refl h projectId
    | some r =>
      simp only [hobj] at happly
      obtain ⟨claimed, hclaim, happly⟩ := bind_ok happly
      cases happly
      obtain ⟨-, -, -, rfl⟩ := claimExisting_ok hobj hclaim
      obtain ⟨hrow, hp⟩ := fetchObj_some hobj
      have hkey := Table.key_of_find Row.key hrow
      rw [← hkey] at hrow
      exact flush_confined h hrow hp (r.keeps_softDelete now)
        ((h.holds (Table.mem_of_find Row.key hrow) hp).softDelete now) rfl hflush

end Push

section Rest

variable {d d' : Data} {projectId : Uuid} (h : d.Scoped)

include h

theorem Patch.run_confined {p : Patch} {notFoundDetail : Option String}
    {check : Data → Except PushError Unit}
    (hselects : ∀ r ∈ d.rows, r.table = p.table → p.selects r = true →
      d.projectOf r = some projectId)
    (htarget : ∀ claimed r i, check claimed = .ok () → .itemId ∈ p.table.columns →
      (p.edit r).attrs .itemId = .uuid i → r.attrs .itemId = .uuid i ∨
        (claimed.item i).bind Row.ownProject = some projectId)
    (hrun : p.run d notFoundDetail check = .ok d') : d.Confined projectId d' := by
  obtain ⟨r, hr, htable, hsel, -, hcheck, hrun⟩ := Patch.run_ok hrun
  have hp := hselects r hr htable hsel
  have hrow := h.row_of_mem hr
  have hkclaim := r.keeps_claim p.now
  have hclaim := h.claim hrow hp p.now
  have hmem : r.claim p.now ∈ Table.replace Row.key (r.claim p.now) d.rows :=
    List.mem_map.mpr ⟨r, hr, by simp [hkclaim.key]⟩
  have hproject : d.projectOf (r.claim p.now) = some projectId :=
    ((h.holds hr hp).of_keeps hkclaim
      (r.setAttr_attrs_of_ne (.time p.now) (show Attr.itemId ≠ .updatedAt by decide))).project
  have hclaimed := hclaim.project _ _ hproject
  have hkedit := p.keeps (r.claim p.now)
  refine hclaim.trans (flushUpdate_confined hclaim.inScope (hclaim.inScope.row_of_mem hmem)
    hkedit hclaimed (fun hcol i hi ↦ ?_) hrun)
  rw [hkedit.table] at hcol
  rcases htarget _ _ i hcheck (hkclaim.table.symm.trans htable ▸ hcol) hi with he | he
  · exact (hclaim.inScope.holds hmem hclaimed).targets hcol he
  · exact he

theorem Removal.run_confined {m : Removal}
    (hselects : ∀ r ∈ d.rows, r.table = m.table → m.selects r = true →
      d.projectOf r = some projectId)
    (hrun : m.run d = .ok d') : d.Confined projectId d' := by
  obtain ⟨r, hr, ht, hsel, hrun⟩ := Removal.run_ok hrun
  have hp := hselects r hr ht hsel
  exact flushUpdate_confined h (h.row_of_mem hr) (r.keeps_softDelete m.now) hp
    ((h.holds hr hp).softDelete m.now) hrun

end Rest

theorem Data.projectOf_of_attr {d : Data} {r : Row} {p : Uuid} (ht : r.table ≠ .assessments)
    (hp : r.attrs .projectId = .uuid p) : d.projectOf r = some p := by
  unfold Data.projectOf
  cases htable : r.table <;> simp_all [Row.ownProject]

section Calls

variable {d d' : Data} {userId projectId : Uuid} {now : Time}

theorem target_found {expected e : Entity} {i j : Uuid}
    (h : (match (d.item j).filter (fun r ↦
          r.attrs .projectId = .uuid projectId && !r.isDeleted) with
        | none => .error (.http 404 "Target not found")
        | some r =>
          if r.attrs .type = .str expected.name then .ok (j, expected)
          else .error (.http 400 ("Target is a " ++ textOf (r.attrs .type) ++ ", expected " ++
            expected.name))) = (.ok (i, e) : Except PushError (Uuid × Entity))) :
    j = i ∧ (d.item i).bind Row.ownProject = some projectId := by
  split at h
  · cases h
  · rename_i r hr
    obtain ⟨hr, hsel⟩ := Option.filter_eq_some_iff.mp hr
    split at h
    · cases h
      obtain ⟨hp, -⟩ := Bool.and_eq_true _ _ ▸ hsel
      refine ⟨rfl, ?_⟩
      rw [hr, Option.bind_some, Row.ownProject, of_decide_eq_true hp]
    · cases h

theorem resolveTarget_ok {riskId opportunityId : Option Uuid} {i : Uuid} {e : Entity}
    (h : resolveTarget d projectId riskId opportunityId = .ok (i, e)) :
    (d.item i).bind Row.ownProject = some projectId ∧
      (riskId = some i ∧ opportunityId = none ∨ riskId = none ∧ opportunityId = some i) := by
  unfold resolveTarget at h
  cases riskId with
  | none => cases opportunityId with
    | none => cases h
    | some oid =>
      obtain ⟨rfl, hown⟩ := target_found h
      exact ⟨hown, Or.inr ⟨rfl, rfl⟩⟩
  | some rid => cases opportunityId with
    | none =>
      obtain ⟨rfl, hown⟩ := target_found h
      exact ⟨hown, Or.inl ⟨rfl, rfl⟩⟩
    | some oid => cases h

theorem newItem_project (payload : Dict) (newId : Uuid) (entity : Entity) (newCode : String)
    (status : Val) :
    let r := newItem userId projectId payload newId now entity newCode status
    r.table = .items ∧ r.ownProject = some projectId := by
  have hkeeps := keeps_recalculateItemScores
  constructor
  · unfold newItem
    rw [(hkeeps _).table, Row.setAll_table, Row.setAll_table, Row.setAttr_table]
  · unfold newItem
    rw [(hkeeps _).ownProject]
    simp [Row.ownProject, Row.setAll, Row.setAttr]

theorem createAction_target {payload : Dict} {newId i : Uuid}
    {t : Uuid × Entity} (ht : resolveTarget d projectId (uuidOf (payload.get .riskId))
      (uuidOf (payload.get .opportunityId)) = .ok t)
    (hi : (createAction userId projectId payload newId now).row.attrs .itemId = .uuid i) :
    (d.item i).bind Row.ownProject = some projectId := by
  obtain ⟨j, e⟩ := t
  obtain ⟨hown, hnamed⟩ := resolveTarget_ok ht
  have hitem : Val.orElse (payload.get .riskId) (payload.get .opportunityId) = .uuid i := by
    simpa [createAction, Row.setAll, Row.setAttr] using hi
  have huuid : ∀ {v : Val} {u : Uuid}, uuidOf v = some u → v = .uuid u := by
    intro v u hv
    cases v <;> simp_all [uuidOf]
  suffices he : j = i by rwa [← he]
  rcases hnamed with ⟨hr, -⟩ | ⟨hr, ho⟩
  · rw [huuid hr] at hitem
    exact Val.uuid.inj hitem
  · rw [huuid ho] at hitem
    unfold Val.orElse at hitem
    split at hitem
    · rw [hitem] at hr
      cases hr
    · exact Val.uuid.inj hitem

theorem editRow_itemId {payload : Dict} {r : Row} {i : Uuid}
    (hi : (editRow now (actionChanges payload) r).attrs .itemId = .uuid i) :
    r.attrs .itemId = .uuid i ∨ ∃ t, actionTarget payload = some t ∧ t.1.or t.2 = some i := by
  unfold editRow at hi
  rw [Row.setAttr_attrs_of_ne _ _ (by decide)] at hi
  rcases Row.foldl_itemId (fun r g ↦ r.setAttr_itemId g.1 g.2) (actionChanges payload) r with
    he | ⟨v, hv, he⟩
  · exact Or.inl (he.symm.trans hi)
  · right
    rcases List.mem_append.mp hv with hv | hv
    · obtain ⟨g, hg, hgv⟩ := List.mem_map.mp hv
      have hfst : g.1 = .itemId := by
        have hkey := congrArg Prod.fst hgv
        split at hkey
        · cases hkey
        · exact hkey
      exact absurd (hfst ▸ mem_modelDump hg) (by decide)
    · obtain ⟨j, hj, hjv⟩ := List.mem_map.mp hv
      obtain ⟨t, ht, hor⟩ := Option.bind_eq_some_iff.mp (Option.mem_toList.mp hj)
      obtain rfl : j = i := Val.uuid.inj ((congrArg Prod.snd hjv).trans (he.symm.trans hi))
      exact ⟨t, ht, hor⟩

theorem itemWhere_project {itemId : Uuid} {itemType : Option Entity} {r : Row}
    (ht : r.table ≠ .assessments) (h : itemWhere projectId itemId itemType r = true) :
    d.projectOf r = some projectId := by
  simp only [itemWhere, Bool.and_eq_true, decide_eq_true_eq] at h
  exact Data.projectOf_of_attr ht h.1.1

theorem liveWhere_project {id : Uuid} {r : Row} (ht : r.table ≠ .assessments)
    (h : liveWhere projectId id r = true) : d.projectOf r = some projectId := by
  simp only [liveWhere, Bool.and_eq_true, decide_eq_true_eq] at h
  exact Data.projectOf_of_attr ht h.1.1

theorem requireItem_ok (h : d.Scoped) {itemId : Uuid} {itemType : Entity} {u : Unit}
    (hreq : requireItem d projectId itemId itemType = .ok u) :
    (d.item itemId).bind Row.ownProject = some projectId := by
  have hsome := require_ok hreq
  obtain ⟨r, hr⟩ : ∃ r, r ∈ rowsWhere d .items fun r ↦ liveWhere projectId itemId r &&
      r.attrs .type = .str itemType.name := by
    apply List.exists_mem_of_ne_nil
    intro hnil
    simp [hnil] at hsome
  obtain ⟨hmem, ht, hsel⟩ := mem_rowsWhere.mp hr
  simp only [liveWhere, Bool.and_eq_true, decide_eq_true_eq] at hsel
  obtain ⟨⟨⟨hp, hid⟩, -⟩, -⟩ := hsel
  have hrow : d.item itemId = some r := by
    have := h.row_of_mem hmem
    rwa [Row.key, ht, hid] at this
  rw [hrow, Option.bind_some, Row.ownProject, hp]

variable (h : d.Scoped)

include h

/-- A writing route of items and actions keeps to the project of its path. -/
theorem ItemCall.run_confined {itemType : Entity} (scored : itemType.scored = true)
    {call : ItemCall} (hrun : call.run userId projectId itemType scored now d = .ok d') :
    d.Confined projectId d' := by
  obtain ⟨_, -, hrun⟩ := bind_ok hrun
  cases call with
  | createObj payload newId newCode =>
    obtain ⟨new, hnew, hrun⟩ := bind_ok hrun
    obtain ⟨_, -, hnew⟩ := bind_ok hnew
    cases hnew
    refine flushInsert_confined h (fun _ ↦ (newItem_project payload newId _ newCode _).2)
      (fun hcol ↦ ?_) hrun
    rw [(newItem_project payload newId _ newCode _).1] at hcol
    exact absurd hcol (by decide)
  | updateObj itemId payload baseVersion =>
    obtain ⟨p, hp, hrun⟩ := bind_ok hrun
    unfold Server.updateItem at hp
    split at hp
    · cases hp
    · cases hp
      refine Patch.run_confined h (fun r _ ht hsel ↦ ?_) (fun _ _ _ _ hcol ↦ ?_) hrun
      · exact itemWhere_project (by rw [ht]; simp) hsel
      · exact absurd (show Attr.itemId ∈ Table.items.columns from hcol) (by decide)
  | deleteObj itemId =>
    refine Removal.run_confined h (fun r _ ht hsel ↦ ?_) hrun
    exact itemWhere_project (by rw [ht]; simp [Server.deleteItem]) hsel
  | upsertMyAssessment itemId payload baseVersion newId =>
    obtain ⟨_, hreq, hrun⟩ := bind_ok hrun
    have hitem := requireItem_ok h hreq
    simp only at hrun
    split at hrun
    · obtain ⟨_, -, hrun⟩ := bind_ok hrun
      refine flushInsert_confined h (fun hne ↦ absurd ?_ hne) (fun _ i hi ↦ ?_) hrun
      · simp only [Server.createAssessment]
        rw [(keeps_editAssessment payload now _).table, Row.setAll_table]
      · have hset : (Server.createAssessment itemId userId payload now newId).row.attrs .itemId =
            .uuid itemId := by
          simp only [Server.createAssessment, editAssessment_itemId]
          simp [Row.setAll, Row.setAttr]
        obtain rfl : itemId = i := Val.uuid.inj (hset.symm.trans hi)
        exact hitem
    · refine Patch.run_confined h (fun r _ ht hsel ↦ ?_) (fun _ r i _ _ hi ↦ Or.inl ?_) hrun
      · simp only [Server.updateAssessment, Bool.and_eq_true, decide_eq_true_eq] at hsel
        rw [Data.projectOf_assessment ht hsel.1, hitem]
      · exact (editAssessment_itemId payload now r).symm.trans hi
  | createAction payload newId =>
    obtain ⟨t, ht, hrun⟩ := bind_ok hrun
    refine flushInsert_confined h (fun _ ↦ ?_) (fun _ i hi ↦ ?_) hrun
    · simp [Server.createAction, Row.ownProject, Row.setAll, Row.setAttr]
    · exact createAction_target ht hi
  | updateAction actionId payload baseVersion =>
    obtain ⟨p, hp, hrun⟩ := bind_ok hrun
    obtain ⟨_, -, hp⟩ := bind_ok hp
    obtain ⟨_, -, hp⟩ := bind_ok hp
    obtain ⟨_, -, hp⟩ := bind_ok hp
    obtain ⟨_, -, hp⟩ := bind_ok hp
    cases hp
    refine Patch.run_confined h (fun r _ ht hsel ↦ ?_) (fun claimed r i hcheck _ hi ↦ ?_) hrun
    · exact liveWhere_project (by rw [ht]; simp) hsel
    · rcases editRow_itemId hi with he | ⟨t, ht, hor⟩
      · exact Or.inl he
      · right
        simp only [ht] at hcheck
        obtain ⟨⟨j, e⟩, hres, -⟩ := map_ok hcheck
        obtain ⟨hown, hnamed⟩ := resolveTarget_ok hres
        rcases hnamed with ⟨h₁, h₂⟩ | ⟨h₁, h₂⟩ <;> rw [h₁, h₂] at hor <;> cases hor <;> exact hown
  | deleteAction actionId =>
    refine Removal.run_confined h (fun r _ ht hsel ↦ ?_) hrun
    exact itemWhere_project (by rw [ht]; simp [Server.deleteItem]) hsel

theorem TicketCall.run_confined {call : TicketCall}
    (hrun : call.run userId projectId now d = .ok d') : d.Confined projectId d' := by
  obtain ⟨_, -, hrun⟩ := bind_ok hrun
  cases call with
  | createHelpdeskTicket payload newId =>
    refine flushInsert_confined h (fun _ ↦ ?_) (fun hcol ↦ ?_) hrun
    · simp [Server.createHelpdeskTicket, Row.ownProject, Row.setAll, Row.setAttr]
    · simp only [Server.createHelpdeskTicket, Row.setAll_table] at hcol
      exact absurd hcol (by decide)
  | updateHelpdeskTicket ticketId payload baseVersion =>
    obtain ⟨p, hp, hrun⟩ := bind_ok hrun
    obtain ⟨_, -, hp⟩ := bind_ok hp
    cases hp
    refine Patch.run_confined h (fun r _ ht hsel ↦ ?_) (fun _ _ _ _ hcol ↦ ?_) hrun
    · exact liveWhere_project (by rw [ht]; simp) hsel
    · exact absurd (show Attr.itemId ∈ Table.helpdeskTickets.columns from hcol) (by decide)
  | deleteHelpdeskTicket ticketId =>
    obtain ⟨_, -, hrun⟩ := bind_ok hrun
    refine Removal.run_confined h (fun r _ ht hsel ↦ ?_) hrun
    exact liveWhere_project (by rw [ht]; simp [Server.deleteHelpdeskTicket]) hsel

end Calls

end RiskApp.Server
