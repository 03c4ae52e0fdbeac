import RiskApp.Server.Permanent
import RiskApp.Server.PushRoute

namespace RiskApp.Server

open Lib Lib.Result

/-- A user, an item of a project that the user assesses, and the id under which the client keeps
that assessment. -/
structure Assessor where
  projectId : Uuid
  userId : Uuid
  itemType : Entity
  scored : itemType.scored = true
  itemId : Uuid
  ownId : Uuid

section Flush

variable {d d' : Data} {r : Row} {now : Time}

/-- The listener leaves the scores of an assessment in its row. -/
def Row.Scored (r : Row) : Prop :=
  ∀ b ∈ [Attr.probability, .impact, .score], r.attrs b ≠ .null

theorem beforeWrite_scored {s : Row} (h : beforeWrite d r = .ok (d', s))
    (ht : r.table = .assessments) : s.Scored := by
  obtain ⟨p, n, -, -, hstamped, -⟩ := beforeWrite_ok h
  obtain ⟨s', hs', h⟩ := bind_ok h
  have hscore : s.attrs .score = s'.attrs .score := by
    unfold assignChangeSequence at h
    split at h
    · cases h
    · split at h <;> cases h
      rfl
  have hscaled := computeScore_scaled hs' (Or.inr ht)
  unfold computeScore at hs'
  rw [if_pos (Or.inr ht)] at hs'
  obtain ⟨p, -, hs'⟩ := bind_ok hs'
  obtain ⟨i, -, hs'⟩ := bind_ok hs'
  have hnull : ∀ {v : Val}, Scaled v → v ≠ .null := by
    rintro v hv rfl
    exact not_scaled_null hv
  intro b hb
  simp only [List.mem_cons, List.not_mem_nil, or_false] at hb
  rcases hb with rfl | rfl | rfl
  · rw [hstamped.attrs _ (by decide)]
    exact hnull hscaled.1
  · rw [hstamped.attrs _ (by decide)]
    exact hnull hscaled.2
  · rw [hscore]
    cases hs'
    simp [Row.setAttr]

theorem beforeWrite_eq_error {e : PushError} (h : beforeWrite d r = .error e) :
    e = .unexpected := by
  unfold beforeWrite at h
  rcases bind_eq_error.mp h with h | ⟨s, -, h⟩
  · exact (computeScore_eq_error.mp h).2.2
  · exact (assignChangeSequence_eq_error.mp h).2

/-- An insert fails in a listener, for a text that its column cannot hold, or at a constraint. -/
theorem flushInsert_error {e : PushError} (h : flushInsert d r now = .error e) :
    e = .unexpected ∨ ∃ s n, Stamped r s n ∧ (r.table = .assessments → s.Scored) ∧
      (d.admits (s.withDefaults now) && (d.row r.key).isNone) = false := by
  unfold flushInsert at h
  rcases bind_eq_error.mp h with h | ⟨⟨d₁, s⟩, hwrite, h⟩
  · exact Or.inl (beforeWrite_eq_error h)
  · obtain ⟨p, n, -, -, hstamped, rfl⟩ := beforeWrite_ok hwrite
    rcases bind_eq_error.mp h with h | ⟨_, -, h⟩
    · exact Or.inl (require_eq_error.mp h).2.symm
    · rcases bind_eq_error.mp h with h | ⟨_, -, h⟩
      · right
        refine ⟨s, n + 1, hstamped, beforeWrite_scored hwrite, ?_⟩
        have hkey : (s.withDefaults now).key = r.key := hstamped.key
        have hfail := (require_eq_error.mp h).1
        rw [hkey] at hfail
        exact hfail
      · cases h

theorem flushUpdate_error {e : PushError} (h : flushUpdate d r = .error e) :
    e = .unexpected ∨ ∃ s n, Stamped r s n ∧ (r.table = .assessments → s.Scored) ∧
      d.admits s = false := by
  unfold flushUpdate at h
  rcases bind_eq_error.mp h with h | ⟨⟨d₁, s⟩, hwrite, h⟩
  · exact Or.inl (beforeWrite_eq_error h)
  · obtain ⟨p, n, -, -, hstamped, rfl⟩ := beforeWrite_ok hwrite
    rcases bind_eq_error.mp h with h | ⟨_, -, h⟩
    · exact Or.inl (require_eq_error.mp h).2.symm
    · rcases bind_eq_error.mp h with h | ⟨_, -, h⟩
      · exact Or.inr ⟨s, n + 1, hstamped, beforeWrite_scored hwrite, (require_eq_error.mp h).1⟩
      · cases h

theorem flush_new (obj : Row) (entry : AuditLog) : flush d now (some ⟨obj, true, entry⟩) =
    (flushInsert d obj now).map fun d ↦ { d with audit := d.audit ++ [entry] } := rfl

theorem flush_old (obj : Row) (entry : AuditLog) : flush d now (some ⟨obj, false, entry⟩) =
    (flushUpdate d obj).map fun d ↦ { d with audit := d.audit ++ [entry] } := rfl

structure Undisturbed (d d' : Data) : Prop where
  access : SameAccess d d'
  users : d'.users = d.users

theorem flushInsert_inserted (h : flushInsert d r now = .ok d') :
    Undisturbed d d' ∧ d.row r.key = none ∧ ∃ s, d'.rows = d.rows ++ [s] ∧ s.key = r.key ∧
      (∀ b, b ∉ flushedAttrs → r.attrs b ≠ .null → s.attrs b = r.attrs b) ∧ d.admits s = true := by
  unfold flushInsert at h
  obtain ⟨⟨d₁, s⟩, hwrite, h⟩ := bind_ok h
  obtain ⟨p, n, hp, hn, hstamped, rfl⟩ := beforeWrite_ok hwrite
  obtain ⟨_, -, h⟩ := bind_ok h
  obtain ⟨_, hreq, h⟩ := bind_ok h
  cases h
  obtain ⟨hadmits, hfresh⟩ := Bool.and_eq_true _ _ ▸ require_ok hreq
  have hkey : (s.withDefaults now).key = r.key := hstamped.key
  rw [hkey] at hfresh
  refine ⟨⟨⟨fun _ _ ↦ rfl, Data.isSome_advanced hn⟩, rfl⟩, Option.isNone_iff_eq_none.mp hfresh,
    s.withDefaults now, rfl, hkey, fun b hb hne ↦ ?_, hadmits⟩
  have hs := hstamped.attrs b hb
  rw [Row.withDefaults_attrs now (hs ▸ hne), hs]

theorem flushUpdate_replaced (h : flushUpdate d r = .ok d') :
    Undisturbed d d' ∧ ∃ s, d'.rows = Table.replace Row.key s d.rows ∧ s.key = r.key ∧
      (∀ b, b ∉ flushedAttrs → s.attrs b = r.attrs b) ∧ d.admits s = true := by
  unfold flushUpdate at h
  obtain ⟨⟨d₁, s⟩, hwrite, h⟩ := bind_ok h
  obtain ⟨p, n, hp, hn, hstamped, rfl⟩ := beforeWrite_ok hwrite
  obtain ⟨_, -, h⟩ := bind_ok h
  obtain ⟨_, hreq, h⟩ := bind_ok h
  cases h
  exact ⟨⟨⟨fun _ _ ↦ rfl, Data.isSome_advanced hn⟩, rfl⟩, s, rfl, hstamped.key, hstamped.attrs,
    require_ok hreq⟩

end Flush

namespace Assessor

variable (a : Assessor)

/-- The user's assessment of the item: `uq_item_assessor` allows one such row. -/
def mine (r : Row) : Bool :=
  r.table = .assessments && r.attrs .itemId = .uuid a.itemId &&
    r.attrs .assessorUserId = .uuid a.userId

/-- The user may assess the item, and the rows are such as the database lets in. -/
structure Admitted (d : Data) : Prop where
  keys : (d.rows.map Row.key).Nodup
  rows : ∀ r ∈ d.rows, r.Constrained
  item : ∃ r, d.item a.itemId = some r ∧ r.attrs .projectId = .uuid a.projectId ∧
    r.attrs .type = .str a.itemType.name
  sequence : (d.lastSequence a.projectId).isSome = true
  role : ∃ role, d.getMemberRole a.projectId a.userId = some role ∧ Role.member.rank ≤ role.rank
  user : a.userId ∈ d.users

/-- The user's assessment has the id `m`, or there is none. -/
structure Stored (d : Data) (m : Option Uuid) : Prop where
  only : ∀ r ∈ d.rows, a.mine r = true → m = some r.id
  held : ∀ i, m = some i → ∃ r ∈ d.rows, a.mine r = true ∧ r.id = i
  own : ∀ r ∈ d.rows, r.key = (.assessments, a.ownId) → a.mine r = true
  filled : ∀ r ∈ d.rows, a.mine r = true → ∀ b ∈ Table.assessments.notNull, r.attrs b ≠ .null

variable {a} {d d' : Data} {m : Option Uuid} {r : Row} {now : Time}

theorem mine_iff : a.mine r = true ↔ r.table = .assessments ∧ r.attrs .itemId = .uuid a.itemId ∧
    r.attrs .assessorUserId = .uuid a.userId := by
  simp [mine, and_assoc]

theorem mine_congr {s : Row} (htable : s.table = r.table)
    (hitem : s.attrs .itemId = r.attrs .itemId)
    (huser : s.attrs .assessorUserId = r.attrs .assessorUserId) : a.mine s = a.mine r := by
  unfold mine
  rw [htable, hitem, huser]

namespace Admitted

theorem admits (h : a.Admitted d) (hr : a.mine r = true)
    (hfilled : ∀ b ∈ Table.assessments.notNull, r.attrs b ≠ .null)
    (honly : ∀ s ∈ d.rows, a.mine s = true → s.key = r.key) : d.admits r = true := by
  obtain ⟨ht, hitem, huser⟩ := mine_iff.mp hr
  obtain ⟨o, ho, -, -⟩ := h.item
  have hparent : a.itemId ∈ (d.rows.filter (·.table = .items)).map Row.id := by
    have hkey : o.key = (.items, a.itemId) := Table.key_of_find Row.key ho
    refine List.mem_map.mpr ⟨o, List.mem_filter.mpr ⟨Table.mem_of_find Row.key ho, ?_⟩,
      congrArg Prod.snd hkey⟩
    exact decide_eq_true (congrArg Prod.fst hkey)
  have hcollide : ∀ s ∈ d.rows, (s.key = r.key || !r.collides s) = true := by
    intro s hs
    by_cases hmine : a.mine s = true
    · simp [honly s hs hmine]
    · have hno : r.collides s = false := by
        refine Bool.eq_false_iff.mpr fun hc ↦ hmine ?_
        simp only [Row.collides, ht, Bool.and_eq_true, decide_eq_true_eq] at hc
        exact mine_iff.mpr ⟨hc.1.symm, hc.2.1.symm.trans hitem, hc.2.2.symm.trans huser⟩
      simp [hno]
  have howner : ∀ b ∈ [Attr.ownerUserId, .createdBy, .assessorUserId],
      (b ∉ r.table.columns || refersTo d.users (r.attrs b)) = true := by
    intro b hb
    by_cases hassessor : b = .assessorUserId
    · rw [hassessor, huser]
      simp [refersTo, h.user]
    · have hothers : ∀ b ∈ [Attr.ownerUserId, .createdBy, .assessorUserId],
          b ≠ .assessorUserId → b ∉ Table.assessments.columns := by decide
      simp [ht, hothers b hb hassessor]
  unfold Data.admits
  simp only [Bool.and_eq_true]
  refine ⟨⟨⟨⟨List.all_eq_true.mpr fun b hb ↦ ?_, List.all_eq_true.mpr howner⟩, ?_⟩, ?_⟩,
    List.all_eq_true.mpr hcollide⟩
  · exact decide_eq_true (hfilled b (ht ▸ hb))
  · rw [hitem]
    simp only [refersTo, Bool.or_eq_true, decide_eq_true_eq]
    exact Or.inr hparent
  · simp [ht]

theorem undisturbed (h : a.Admitted d) (hd : Undisturbed d d')
    (hkeys : (d'.rows.map Row.key).Nodup) (hrows : ∀ r ∈ d'.rows, r.Constrained)
    (hitem : d'.item a.itemId = d.item a.itemId) : a.Admitted d' := by
  obtain ⟨role, hrole, hrank⟩ := h.role
  refine ⟨hkeys, hrows, hitem ▸ h.item, ?_, ⟨role, ?_, hrank⟩, hd.users ▸ h.user⟩
  · rw [hd.access.state]
    exact h.sequence
  · rw [hd.access.role]
    exact hrole

theorem item_replace {s : Row} (ht : s.table = .assessments) :
    Table.find Row.key (.items, a.itemId) (Table.replace Row.key s d.rows) = d.item a.itemId := by
  refine Table.find_replace_of_ne Row.key d.rows fun hk ↦ ?_
  have htable : Table.items = s.table := congrArg Prod.fst hk
  rw [ht] at htable
  cases htable

theorem insert (h : a.Admitted d)
    (hdims : ∀ b ∈ impactDimensions, r.attrs b = .null ∨ Scaled (r.attrs b))
    (hf : flushInsert d r now = .ok d') : a.Admitted d' := by
  obtain ⟨hsame, hfresh, s, hrows, hkey, -, -⟩ := flushInsert_inserted hf
  have hstored := @flush_new d now r ⟨now, 0, 0, 0, .assessment, 0, .upsert, none, .empty⟩
  rw [hf] at hstored
  refine h.undisturbed hsame ?_ (flush_constrained h.rows hdims hstored :) ?_
  · rw [hrows, List.map_append]
    refine List.nodup_append.mpr ⟨h.keys, by simp, fun k hk k' hk' he ↦ ?_⟩
    obtain ⟨y, hy, rfl⟩ := List.mem_map.mp hk
    have hk' := List.mem_singleton.mp hk'
    exact (Table.find_eq_none Row.key).mp hfresh y hy (he.trans (hk'.trans hkey))
  · obtain ⟨o, ho, -⟩ := h.item
    have hfind : d'.item a.itemId = Table.find Row.key (.items, a.itemId) (d.rows ++ [s]) :=
      congrArg (Table.find Row.key (.items, a.itemId)) hrows
    have ho : Table.find Row.key (.items, a.itemId) d.rows = some o := ho
    rw [hfind, Table.find_append, ho]
    exact ho.symm

theorem update (h : a.Admitted d) (ht : r.table = .assessments)
    (hdims : ∀ b ∈ impactDimensions, r.attrs b = .null ∨ Scaled (r.attrs b))
    (hf : flushUpdate d r = .ok d') : a.Admitted d' := by
  obtain ⟨hsame, s, hrows, hkey, -, -⟩ := flushUpdate_replaced hf
  have hstored := @flush_old d 0 r ⟨0, 0, 0, 0, .assessment, 0, .upsert, none, .empty⟩
  rw [hf] at hstored
  refine h.undisturbed hsame ?_ (flush_constrained h.rows hdims hstored :) ?_
  · rw [hrows, Table.map_key_replace]
    exact h.keys
  · refine (congrArg (Table.find Row.key (.items, a.itemId)) hrows).trans (item_replace ?_)
    exact (congrArg Prod.fst hkey).trans ht

theorem claimed (h : a.Admitted d) (hr : r ∈ d.rows) (ht : r.table = .assessments) :
    a.Admitted { d with rows := Table.replace Row.key (r.claim now) d.rows } := by
  refine h.undisturbed ⟨⟨fun _ _ ↦ rfl, fun _ ↦ rfl⟩, rfl⟩ ?_ (fun s hs ↦ ?_) ?_
  · rw [Table.map_key_replace]
    exact h.keys
  · rcases Table.mem_replace Row.key hs with rfl | hs
    · exact (h.rows r hr).claim
    · exact h.rows s hs.1
  · exact item_replace ((r.keeps_claim now).table.trans ht)

end Admitted

theorem filled_of_admits (ht : r.table = .assessments) (h : d.admits r = true) :
    ∀ b ∈ Table.assessments.notNull, r.attrs b ≠ .null := by
  simp only [Data.admits, Bool.and_eq_true] at h
  intro b hb
  exact of_decide_eq_true (List.all_eq_true.mp h.1.1.1.1 b (ht ▸ hb))

namespace Stored

theorem insert (h : a.Stored d none) (hr : a.mine r = true) (hf : flushInsert d r now = .ok d') :
    a.Stored d' (some r.id) := by
  obtain ⟨-, -, s, hrows, hkey, hattrs, hadmits⟩ := flushInsert_inserted hf
  obtain ⟨ht, hitem, huser⟩ := mine_iff.mp hr
  have hs : a.mine s = true := by
    rw [mine_congr (congrArg Prod.fst hkey) (hattrs _ (by decide) (by simp [hitem]))
      (hattrs _ (by decide) (by simp [huser])), hr]
  have hid : s.id = r.id := congrArg Prod.snd hkey
  have hfilled := filled_of_admits (mine_iff.mp hs).1 hadmits
  have hnone : ∀ x ∈ d.rows, a.mine x ≠ true := fun x hx hmine ↦ by cases h.only x hx hmine
  have hcases : ∀ x ∈ d'.rows, x ∈ d.rows ∨ x = s := by
    intro x hx
    rw [hrows] at hx
    exact (List.mem_append.mp hx).imp id List.mem_singleton.mp
  refine ⟨fun x hx hmine ↦ ?_, fun i hi ↦ ?_, fun x hx hk ↦ ?_, fun x hx hmine ↦ ?_⟩
  · rcases hcases x hx with hx | rfl
    · exact absurd hmine (hnone x hx)
    · rw [hid]
  · obtain rfl := Option.some.inj hi
    exact ⟨s, by rw [hrows]; simp, hs, hid⟩
  · rcases hcases x hx with hx | rfl
    · exact h.own x hx hk
    · exact hs
  · rcases hcases x hx with hx | rfl
    · exact absurd hmine (hnone x hx)
    · exact hfilled

theorem replace (h : a.Stored d m) {s : Row} (hrows : d'.rows = Table.replace Row.key s d.rows)
    (hs : a.mine s = true) (hfilled : ∀ b ∈ Table.assessments.notNull, s.attrs b ≠ .null)
    (hr : r ∈ d.rows) (hmine : a.mine r = true) (hkey : s.key = r.key) : a.Stored d' m := by
  have hcases : ∀ x ∈ d'.rows, x = s ∨ x ∈ d.rows := by
    intro x hx
    rw [hrows] at hx
    exact (Table.mem_replace Row.key hx).imp id And.left
  have hid : s.id = r.id := congrArg Prod.snd hkey
  refine ⟨fun x hx hx' ↦ ?_, fun i hi ↦ ?_, fun x hx hk ↦ ?_, fun x hx hx' ↦ ?_⟩
  · rcases hcases x hx with rfl | hx
    · rw [h.only r hr hmine, hid]
    · exact h.only x hx hx'
  · have hfind := Table.find_replace_self Row.key ⟨r, hr, hkey.symm⟩
    refine ⟨s, ?_, hs, ?_⟩
    · rw [hrows]
      exact Table.mem_of_find Row.key hfind
    · rw [hid]
      exact Option.some.inj ((h.only r hr hmine).symm.trans hi)
  · rcases hcases x hx with rfl | hx
    · exact hs
    · exact h.own x hx hk
  · rcases hcases x hx with rfl | hx
    · exact hfilled
    · exact h.filled x hx hx'

theorem update (h : a.Stored d m) {s : Row} (hs : a.mine s = true) (hr : r ∈ d.rows)
    (hmine : a.mine r = true) (hkey : s.key = r.key) (hf : flushUpdate d s = .ok d') :
    a.Stored d' m := by
  obtain ⟨-, t, hrows, hkey', hattrs, hadmits⟩ := flushUpdate_replaced hf
  have ht : a.mine t = true := by
    rw [mine_congr (congrArg Prod.fst hkey') (hattrs _ (by decide)) (hattrs _ (by decide)), hs]
  exact h.replace hrows ht (filled_of_admits (mine_iff.mp ht).1 hadmits) hr hmine
    (hkey'.trans hkey)

theorem claimed (h : a.Stored d m) (hr : r ∈ d.rows) (hmine : a.mine r = true) :
    a.Stored { d with rows := Table.replace Row.key (r.claim now) d.rows } m := by
  have hattrs : ∀ b, b ≠ .updatedAt → (r.claim now).attrs b = r.attrs b := fun b hb ↦
    r.setAttr_attrs_of_ne (.time now) hb
  have hkeeps := r.keeps_claim now
  refine h.replace rfl ?_ (fun b hb ↦ ?_) hr hmine hkeeps.key
  · rw [mine_congr hkeeps.table (hattrs _ (by decide)) (hattrs _ (by decide)), hmine]
  · by_cases hupdated : b = .updatedAt
    · subst hupdated
      simp [Row.claim, Row.setAttr]
    · rw [hattrs b hupdated]
      exact h.filled r hr hmine b hb

theorem key_eq (h : a.Stored d m) {s : Row} (hr : r ∈ d.rows) (hs : s ∈ d.rows)
    (hmine : a.mine r = true) (hmine' : a.mine s = true) : s.key = r.key := by
  have hid : s.id = r.id :=
    Option.some.inj ((h.only s hs hmine').symm.trans (h.only r hr hmine))
  exact Prod.ext ((mine_iff.mp hmine').1.trans (mine_iff.mp hmine).1.symm) hid

end Stored

section Put

variable (payload : Dict) (base : ℤ) (newId : Uuid)

theorem mine_editAssessment (now : Time) (r : Row) :
    a.mine (editAssessment payload now r) = a.mine r := by
  have hkeeps := keeps_editAssessment payload now r
  exact mine_congr hkeeps.table (editAssessment_itemId payload now r) (hkeeps.fixed _ (by decide))

theorem dimension_not_set (fields : List (Attr × Val)) (r : Row) {b : Attr}
    (hb : b ∈ impactDimensions) (hfields : ∀ f ∈ fields, f.1 ∉ impactDimensions) :
    (r.setAll fields).attrs b = r.attrs b :=
  r.setAll_attrs_of_ne fun f hf he ↦ hfields f hf (he ▸ hb)

theorem editAssessment_dimension (r : Row) {b : Attr} (hb : b ∈ impactDimensions) :
    (editAssessment payload now r).attrs b = r.attrs b := by
  have hne : ∀ b ∈ impactDimensions, b ≠ .impact ∧ b ≠ .score := by decide
  rw [editAssessment, recalculateItemScores_attrs _ (hne b hb).1 (hne b hb).2]
  refine dimension_not_set _ r hb ?_
  simp [impactDimensions]

theorem createAssessment_row :
    a.mine (createAssessment a.itemId a.userId payload now newId).row = true ∧
      ∀ b ∈ impactDimensions,
        (createAssessment a.itemId a.userId payload now newId).row.attrs b = .null := by
  have hrow : (createAssessment a.itemId a.userId payload now newId).row =
      editAssessment payload now
      ((⟨.assessments, newId, 1, 0, fun _ ↦ .null⟩ : Row).setAll
        [(.itemId, .uuid a.itemId), (.assessorUserId, .uuid a.userId), (.createdAt, .time now),
          (.updatedAt, .time now), (.isDeleted, .bool false)]) := rfl
  rw [hrow]
  constructor
  · rw [mine_editAssessment]
    simp [mine, Row.setAll, Row.setAttr]
  · intro b hb
    rw [editAssessment_dimension payload _ hb, dimension_not_set _ _ hb]
    simp [impactDimensions]

theorem claim_attrs (r : Row) (now : Time) {b : Attr} (hb : b ≠ .updatedAt) :
    (r.claim now).attrs b = r.attrs b :=
  r.setAttr_attrs_of_ne (.time now) hb

theorem mine_claim (r : Row) (now : Time) : a.mine (r.claim now) = a.mine r :=
  mine_congr (r.keeps_claim now).table (claim_attrs r now (by decide))
    (claim_attrs r now (by decide))

theorem mem_claimed (hr : r ∈ d.rows) (now : Time) :
    r.claim now ∈ Table.replace Row.key (r.claim now) d.rows :=
  Table.mem_of_find Row.key
    (Table.find_replace_self Row.key ⟨r, hr, (r.keeps_claim now).key.symm⟩)

theorem edit_claimed (h : a.Admitted d) (hs : a.Stored d m) (hr : r ∈ d.rows)
    (hmine : a.mine r = true) {obj : Row} (hobj : a.mine obj = true) (hkey : obj.key = r.key)
    (hdims : ∀ b ∈ impactDimensions, obj.attrs b = .null ∨ Scaled (obj.attrs b))
    (hf : flushUpdate { d with rows := Table.replace Row.key (r.claim now) d.rows } obj = .ok d') :
    a.Admitted d' ∧ a.Stored d' m := by
  have ht := (mine_iff.mp hmine).1
  exact ⟨(h.claimed hr ht).update (mine_iff.mp hobj).1 hdims hf,
    (hs.claimed hr hmine).update hobj (mem_claimed hr now) ((mine_claim r now).trans hmine)
      (hkey.trans (r.keeps_claim now).key.symm) hf⟩

theorem mem_selected {payload : Dict} {p : Row → Bool} :
    r ∈ rowsWhere d .assessments
        (fun r ↦ (updateAssessment a.itemId a.userId payload now base).selects r && p r) ↔
      r ∈ d.rows ∧ a.mine r = true ∧ p r = true := by
  rw [mem_rowsWhere, mine_iff]
  simp [updateAssessment, and_assoc]

variable {payload base newId}

theorem put (h : a.Admitted d) (hs : a.Stored d m)
    (hput : (ItemCall.upsertMyAssessment a.itemId payload base newId).run a.userId a.projectId
      a.itemType a.scored now d = .ok d') :
    a.Admitted d' ∧ (m.isSome = true ∧ a.Stored d' m ∨ m = none ∧ a.Stored d' (some newId)) := by
  obtain ⟨_, -, hput⟩ := bind_ok hput
  obtain ⟨_, -, hput⟩ := bind_ok hput
  dsimp only at hput
  split at hput
  · rename_i hempty
    obtain ⟨_, -, hput⟩ := bind_ok hput
    have hnone : m = none := by
      cases m with
      | none => rfl
      | some i =>
        obtain ⟨r, hr, hmine, -⟩ := hs.held i rfl
        have hmem : r ∈ rowsWhere d .assessments fun r ↦
            (updateAssessment a.itemId a.userId payload now base).selects r && true :=
          (mem_selected base).mpr ⟨hr, hmine, rfl⟩
        simp only [Bool.and_true] at hmem
        exact absurd hmem (List.isEmpty_iff.mp hempty ▸ List.not_mem_nil)
    subst hnone
    obtain ⟨hmine, hdims⟩ := @createAssessment_row a now payload newId
    exact ⟨h.insert (fun b hb ↦ Or.inl (hdims b hb)) hput, Or.inr ⟨rfl, hs.insert hmine hput⟩⟩
  · obtain ⟨r, hmem, htable, hsel, -, -, hput⟩ := Patch.run_ok hput
    have hmine : a.mine r = true := by
      have hselected : r ∈ rowsWhere d .assessments fun r ↦
          (updateAssessment a.itemId a.userId payload now base).selects r && true :=
        mem_rowsWhere.mpr ⟨hmem, htable, by simpa using hsel⟩
      exact ((mem_selected base).mp hselected).2.1
    have hobj : a.mine (editAssessment payload now (r.claim now)) = true := by
      rw [mine_editAssessment, mine_claim, hmine]
    have hdone := edit_claimed h hs hmem hmine hobj
      ((keeps_editAssessment payload now _).key.trans (r.keeps_claim now).key)
      (fun b hb ↦ ?_) hput
    · exact ⟨hdone.1, Or.inl ⟨by rw [hs.only r hmem hmine]; rfl, hdone.2⟩⟩
    · rw [editAssessment_dimension payload _ hb]
      exact (h.rows r hmem).claim.dimensions b hb

end Put

/-- The ways in which the push of an assessment may be refused. -/
def versionConflicts : List String := ["base_version_required", "version_mismatch"]

section Push

variable (conv : Conv)

def parsed (a : Assessor) (probability impact : ℤ) (notes : Val) : Parsed :=
  ⟨[(.id, .uuid a.ownId), (.itemId, .uuid a.itemId), (.probability, .int probability),
    (.impact, .int impact), (.notes, notes)], some a.itemType⟩

/-- A change of the assessment that the client keeps, with a text that the column holds. -/
structure Change (a : Assessor) (change : SyncChange) : Prop where
  entity : change.entity = .assessment
  op : change.op = .upsert
  named : change.record .id = some (.uuid a.ownId)
  parses : ∃ probability impact notes, parseRecord conv .assessment change.record =
    .ok (a.parsed probability impact notes) ∧ textFits none notes = true

variable {probability impact : ℤ} {notes : Val}

theorem not_unwritable (ht : r.table = .assessments) (hnotes : textFits none notes = true) :
    ¬ Unwritable r (a.parsed probability impact notes) := by
  have hprobability : (a.parsed probability impact notes).find .probability =
    some (.int probability) := rfl
  have himpact : (a.parsed probability impact notes).find .impact = some (.int impact) := rfl
  have hitem : (a.parsed probability impact notes).find .itemId = some (.uuid a.itemId) := rfl
  rintro (⟨-, hnull | ⟨hnull, -⟩⟩ | ⟨f, hf, hlong⟩ | ⟨-, hnull⟩)
  · rw [hprobability] at hnull
    cases hnull
  · rw [himpact] at hnull
    cases hnull
  · apply hlong
    have hmem := List.mem_of_mem_filter hf
    simp only [parsed, List.mem_cons, List.not_mem_nil, or_false] at hmem
    rw [ht]
    rcases hmem with rfl | rfl | rfl | rfl | rfl
    · rfl
    · rfl
    · rfl
    · rfl
    · exact hnotes
  · rw [hitem] at hnull
    cases hnull

theorem Admitted.ensures (h : a.Admitted d) :
    ensureItemInProject d a.projectId a.itemId (some a.itemType) = .ok () := by
  obtain ⟨o, ho, hproject, htype⟩ := h.item
  have hfound : (d.item a.itemId).filter (fun r ↦ r.attrs .projectId = .uuid a.projectId) =
      some o := by
    rw [ho]
    simp [Option.filter, hproject]
  have hname : a.itemType.name ≠ "" := by cases a.itemType <;> decide
  unfold ensureItemInProject
  rw [hfound]
  simp [htype, Val.truthy, hname, require]

theorem Admitted.relates (h : a.Admitted d) (obj : Option Row) :
    validateRelationships conv d a.projectId .assessment (a.parsed probability impact notes) obj =
      .ok () := by
  have hget : (a.parsed probability impact notes).get .itemId = .uuid a.itemId := rfl
  have htarget : ensureTarget conv d a.projectId (.uuid a.itemId) (some a.itemType) = .ok () :=
    h.ensures
  unfold validateRelationships validateParent
  cases obj with
  | none =>
    simp only [hget]
    exact htarget
  | some r =>
    simp only [hget]
    exact htarget

theorem Admitted.projectOf (h : a.Admitted d) (hr : a.mine r = true) :
    d.projectOf r = some a.projectId := by
  obtain ⟨ht, hitem, -⟩ := mine_iff.mp hr
  obtain ⟨o, ho, hproject, -⟩ := h.item
  rw [Data.projectOf_assessment ht hitem, ho, Option.bind_some, Row.ownProject, hproject]

theorem update_attrs_kept {val : Parsed} (hnodup : (val.fields.map Prod.fst).Nodup)
    (hdeleted : val.get .isDeleted = .null) (r : Row) (now : Time) {b : Attr}
    (hb : b ∉ [Attr.id, .version, .statusChangedAt, .occurredAt, .updatedAt, .impact, .score]) :
    (r.update val now).attrs b = r.written val b := by
  simp only [List.mem_cons, List.not_mem_nil, or_false, not_or] at hb
  obtain ⟨hid, hversion, hchanged, hoccurred, hupdated, himpact, hscore⟩ := hb
  rw [Row.update_attrs_eq hupdated, recalculateItemScores_attrs _ himpact hscore, Row.flagged,
    if_pos hdeleted]
  exact Row.foldl_attrs (fun s f ↦ s.assign_attrs now f
    (by simp [hid, hversion, hchanged, hoccurred]))
    (clientFields_nodup hnodup) r

theorem update_updatedAt (r : Row) (val : Parsed) (now : Time) :
    (r.update val now).attrs .updatedAt = .time now := by
  have hversion : ∀ (deleted : Bool) (s : Row),
      (if deleted = true then s else { s with version := s.version + 1 }).attrs = s.attrs := by
    intro deleted s
    cases deleted <;> rfl
  unfold Row.update
  simp only [hversion]
  exact Row.setAttr_self _ _ (by decide)

theorem update_parsed (ht : r.table = .assessments)
    (huser : r.attrs .assessorUserId = .uuid a.userId)
    (hfilled : ∀ b ∈ Table.assessments.notNull, r.attrs b ≠ .null) :
    let obj := r.update (a.parsed probability impact notes) now
    a.mine obj = true ∧ obj.key = r.key ∧
      ∀ b ∈ Table.assessments.notNull, b ∉ [Attr.probability, .impact, .score] →
      obj.attrs b ≠ .null := by
  intro obj
  have hnodup : ((a.parsed probability impact notes).fields.map Prod.fst).Nodup := by
    change [Attr.id, .itemId, .probability, .impact, .notes].Nodup
    decide
  have hkept : ∀ {b : Attr},
      b ∉ [Attr.id, .version, .statusChangedAt, .occurredAt, .updatedAt, .impact, .score] →
      obj.attrs b = r.written (a.parsed probability impact notes) b :=
    fun hb ↦ update_attrs_kept hnodup rfl r now hb
  have hkeeps : r.Keeps obj := r.keeps_update _ now fun f hf ↦ by
    have hfixed : ∀ b ∈ [Attr.id, .itemId, .probability, .impact, .notes],
        b ∉ fixedAttrs := by decide
    exact hfixed f.1 (List.mem_map_of_mem (f := Prod.fst) hf)
  have hitem : obj.attrs .itemId = .uuid a.itemId := by
    rw [hkept (by decide), Row.written, ht]
    rfl
  refine ⟨mine_iff.mpr ⟨hkeeps.table.trans ht, hitem,
    (hkeeps.fixed _ (by decide)).trans huser⟩, hkeeps.key, fun b hb hscored ↦ ?_⟩
  have hcases : b = .createdAt ∨ b = .updatedAt ∨ b = .isDeleted ∨ b = .assessorUserId ∨
      b = .itemId := by
    revert b
    decide
  rcases hcases with rfl | rfl | rfl | rfl | rfl
  · rw [hkept (by decide), Row.written, ht]
    exact hfilled _ hb
  · rw [update_updatedAt]
    simp
  · rw [hkept (by decide), Row.written, ht]
    exact hfilled _ hb
  · rw [hkeeps.fixed _ (by decide), huser]
    simp
  · rw [hitem]
    simp

theorem create_own (h : a.Admitted d) (hs : a.Stored d none) {change : SyncChange}
    (hentity : change.entity = .assessment)
    (hval : parseRecord conv .assessment change.record = .ok (a.parsed probability impact notes))
    (hnotes : textFits none notes = true) (entry : Row → AuditLog) :
    ∃ obj d',
      createNew conv d a.userId a.projectId .assessment a.ownId change.record now = .ok obj ∧
      flush d now (some ⟨obj, true, entry obj⟩) = .ok d' ∧ a.Admitted d' ∧
      a.Stored d' (some a.ownId) := by
  obtain ⟨changeId, entity, op, base, record⟩ := change
  subst hentity
  set change : SyncChange := ⟨changeId, .assessment, op, base, record⟩
  set val := a.parsed probability impact notes
  have hcode : withItemCode conv d a.projectId .assessment val = .ok val := rfl
  have hrel : validateRelationships conv d a.projectId .assessment val none = .ok () :=
    h.relates conv none
  set blank := blankRow a.userId a.projectId .assessment a.ownId now
  set obj := recalculateItemScores (blank.setAll (clientFields .assessments val)) with hobj
  have hnew := createNew_ok_iff.mpr ⟨val, val, hval, hcode, hrel, hobj⟩
  have htyped := parseRecord_typed hval
  have hover : blank.Overwrites val obj :=
    Row.setAll_overwrites htyped.fixed htyped.nodup
  have hkey : obj.key = (.assessments, a.ownId) := (createNew_ok hnew).1
  have hid : obj.id = a.ownId := congrArg Prod.snd hkey
  have hmine : a.mine obj = true := by
    refine mine_iff.mpr ⟨congrArg Prod.fst hkey, ?_, (createNew_owner hnew).2 rfl⟩
    rw [hover.attrs .itemId (by decide), Row.written, show blank.table = _ from blankRow_table]
    rfl
  have hdims : ∀ b ∈ impactDimensions, obj.attrs b = .null ∨ Scaled (obj.attrs b) := by
    intro b hb
    rw [hover.attrs b (by revert b; decide)]
    exact written_dimension blankRow_constrained htyped hb
  have hnone : ∀ s ∈ d.rows, a.mine s ≠ true := fun s hs' hmine' ↦ by cases hs.only s hs' hmine'
  have hfresh : d.row obj.key = none := by
    refine (Table.find_eq_none Row.key).mpr fun s hs' hk ↦ hnone s hs' (hs.own s hs' ?_)
    rw [hk, Row.key, hid, (mine_iff.mp hmine).1]
  cases hf : flushInsert d obj now with
  | ok d' =>
    have hadmitted := h.insert hdims hf
    have hstored := hs.insert hmine hf
    rw [hid] at hstored
    refine ⟨obj, { d' with audit := d'.audit ++ [entry obj] }, hnew, ?_, ?_, hstored.only,
      hstored.held, hstored.own, hstored.filled⟩
    · rw [flush_new, hf]
      rfl
    · exact hadmitted.undisturbed ⟨⟨fun _ _ ↦ rfl, fun _ ↦ rfl⟩, rfl⟩ hadmitted.keys
        hadmitted.rows rfl
  | error e =>
    exfalso
    rcases flushInsert_error hf with rfl | ⟨s, n, hstamped, hscored, hrefused⟩
    · have hflush := @flush_new d now obj (entry obj)
      rw [hf] at hflush
      exact not_unwritable rfl hnotes ((@create_unexpected conv d a.userId a.projectId change
        a.ownId now h.sequence val val hval hcode hrel _ hobj).mp hflush)
    · obtain ⟨ht, hitem, huser⟩ := mine_iff.mp hmine
      have hdefaults : ∀ {b : Attr}, b ∉ flushedAttrs → obj.attrs b ≠ .null →
          (s.withDefaults now).attrs b = obj.attrs b := by
        intro b hb hne
        rw [Row.withDefaults_attrs now (by rw [hstamped.attrs b hb]; exact hne),
          hstamped.attrs b hb]
      have hsitem := hdefaults (show Attr.itemId ∉ flushedAttrs by decide) (by rw [hitem]; simp)
      have hsuser := hdefaults (show Attr.assessorUserId ∉ flushedAttrs by decide)
        (by rw [huser]; simp)
      have hsmine : a.mine (s.withDefaults now) = true := by
        rw [mine_congr (show (s.withDefaults now).table = obj.table from hstamped.table)
          hsitem hsuser,
          hmine]
      have hadmits := h.admits hsmine (fun b hb ↦ ?_) fun s hs' hmine' ↦ absurd hmine' (hnone s hs')
      · rw [hadmits, hfresh] at hrefused
        cases hrefused
      · by_cases hsb : s.attrs b = .null
        · have hstable : s.table = .assessments := hstamped.table.trans ht
          have hvalue : (s.withDefaults now).attrs b =
              (((s.table.columnDefaults now).find? (fun d ↦ d.1 = b)).map Prod.snd).getD .null :=
            if_pos hsb
          have hcases : ∀ b ∈ Table.assessments.notNull,
              b ∈ [Attr.createdAt, .updatedAt, .isDeleted] ∨
              b ∈ [Attr.probability, .impact, .score] ∨ b = .itemId ∨ b = .assessorUserId := by
            decide
          rcases hcases b hb with hdefault | hscore | rfl | rfl
          · rw [hvalue, hstable]
            simp only [List.mem_cons, List.not_mem_nil, or_false] at hdefault
            rcases hdefault with rfl | rfl | rfl <;> simp [Table.columnDefaults]
          · exact absurd hsb (hscored ht b hscore)
          · rw [hsitem, hitem]
            simp
          · rw [hsuser, huser]
            simp
        · rw [Row.withDefaults_attrs now hsb]
          exact hsb

theorem claimExisting_refused {e : PushError} {bv : Option ℤ}
    (huser : r.attrs .assessorUserId = .uuid a.userId)
    (h : claimExisting d r .assessment a.ownId a.projectId a.userId bv now = .error e) :
    ∃ reason ∈ versionConflicts, ∃ entityId version record,
      e = .conflict reason entityId version record := by
  unfold claimExisting at h
  rcases bind_eq_error.mp h with h | ⟨_, -, h⟩
  · cases (require_eq_error.mp h).1
  rcases bind_eq_error.mp h with h | ⟨_, -, h⟩
  · have hno := (require_eq_error.mp h).1
    simp [huser] at hno
  rcases bind_eq_error.mp h with h | ⟨_, -, h⟩
  · unfold checkBaseVersion at h
    split at h
    · cases h
      exact ⟨_, List.mem_cons_self, _, _, _, rfl⟩
    · simp only at h
      split at h
      · cases h
        exact ⟨_, List.mem_cons_self, _, _, _, rfl⟩
      · split at h
        · cases h
          exact ⟨_, List.mem_cons_of_mem _ List.mem_cons_self, _, _, _, rfl⟩
        · cases h
  · unfold claimBaseVersion at h
    split at h
    · cases h
    · cases h
      exact ⟨_, List.mem_cons_of_mem _ List.mem_cons_self, _, _, _, rfl⟩

theorem update_own (h : a.Admitted d) (hs : a.Stored d m) (hr : r ∈ d.rows)
    (hmine : a.mine r = true)
    {change : SyncChange} {claimed : Data}
    (hfound : fetchObj d .assessment a.ownId a.projectId = some r)
    (hclaim : claimExisting d r .assessment a.ownId a.projectId a.userId change.baseVersion now =
      .ok claimed) (hentity : change.entity = .assessment)
    (hval : parseRecord conv .assessment change.record = .ok (a.parsed probability impact notes))
    (hnotes : textFits none notes = true) (entry : Row → AuditLog) :
    ∃ obj d', updateExisting conv claimed a.projectId .assessment r change.record now = .ok obj ∧
      flush claimed now (some ⟨obj, false, entry obj⟩) = .ok d' ∧ a.Admitted d' ∧
      a.Stored d' m := by
  obtain ⟨changeId, entity, op, base, record⟩ := change
  subst hentity
  set change : SyncChange := ⟨changeId, .assessment, op, base, record⟩
  set val := a.parsed probability impact notes
  obtain ⟨ht, hitem, huser⟩ := mine_iff.mp hmine
  have hdata := (claimExisting_ok hfound hclaim).2.2.2
  have hadmitted : a.Admitted claimed := by
    rw [hdata]
    exact h.claimed hr ht
  have hrel : validateRelationships conv claimed a.projectId .assessment val (some r) = .ok () :=
    hadmitted.relates conv (some r)
  have hupdate : updateExisting conv claimed a.projectId .assessment r record now =
      .ok (r.update val now) := by
    unfold updateExisting
    rw [hval]
    simp only [bind, Except.bind, hrel]
    rfl
  obtain ⟨hobj, hkey, hfilled⟩ := @update_parsed a r now probability impact notes ht huser
    (hs.filled r hr hmine)
  have htyped := parseRecord_typed hval
  have hover : r.Overwrites val (r.update val now) :=
    Row.update_overwrites htyped.fixed htyped.nodup
  have hdims : ∀ b ∈ impactDimensions,
      (r.update val now).attrs b = .null ∨ Scaled ((r.update val now).attrs b) := by
    intro b hb
    rw [hover.attrs b (by revert b; decide)]
    exact written_dimension (h.rows r hr) htyped hb
  refine ⟨r.update val now, ?_⟩
  cases hf : flushUpdate claimed (r.update val now) with
  | ok d' =>
    have hdone : a.Admitted d' ∧ a.Stored d' m := by
      rw [hdata] at hf
      exact edit_claimed h hs hr hmine hobj hkey hdims hf
    refine ⟨{ d' with audit := d'.audit ++ [entry (r.update val now)] }, hupdate, ?_, ?_,
      hdone.2.only, hdone.2.held, hdone.2.own, hdone.2.filled⟩
    · rw [flush_old, hf]
      rfl
    · exact hdone.1.undisturbed ⟨⟨fun _ _ ↦ rfl, fun _ ↦ rfl⟩, rfl⟩ hdone.1.keys hdone.1.rows rfl
  | error e =>
    exfalso
    rcases flushUpdate_error hf with rfl | ⟨s, n, hstamped, hscored, hrefused⟩
    · have hflush := @flush_old claimed now (r.update val now) (entry (r.update val now))
      rw [hf] at hflush
      exact not_unwritable ht hnotes ((@update_unexpected conv d a.userId a.projectId change a.ownId
        now h.rows h.sequence r claimed hfound hclaim val hval hrel _ rfl).mp hflush)
    · have hsmine : a.mine s = true := by
        rw [mine_congr hstamped.table (hstamped.attrs _ (by decide)) (hstamped.attrs _ (by decide)),
          hobj]
      have hadmits := hadmitted.admits hsmine (fun b hb ↦ ?_) fun x hx hx' ↦ ?_
      · rw [hadmits] at hrefused
        cases hrefused
      · by_cases hscore : b ∈ [Attr.probability, .impact, .score]
        · exact hscored ((congrArg Prod.fst hkey).trans ht) b hscore
        · rw [hstamped.naive fun he ↦ hscore (by rw [he]; decide)]
          exact Row.naive_attrs_eq_null.not.mpr (hfilled b hb hscore)
      · have hclaimed : a.Stored claimed m := by
          rw [hdata]
          exact hs.claimed hr hmine
        have hmem : r.claim now ∈ claimed.rows := by
          rw [hdata]
          exact mem_claimed hr now
        have hkeys := hclaimed.key_eq hmem hx ((mine_claim r now).trans hmine) hx'
        exact hkeys.trans ((r.keeps_claim now).key.trans (hkey.symm.trans hstamped.key.symm))

theorem applyChange_own (h : a.Admitted d) (hs : a.Stored d m) (hm : m = none ∨ m = some a.ownId)
    {change : SyncChange} (hc : a.Change conv change) :
    (∃ d', applyChange conv d a.userId a.projectId change now = .ok (d', a.ownId) ∧ a.Admitted d' ∧
        a.Stored d' (some a.ownId)) ∨
      ∃ reason ∈ versionConflicts, ∃ entityId version record,
        applyChange conv d a.userId a.projectId change now =
          .error (.conflict reason entityId version record) := by
  obtain ⟨hentity, hop, hnamed, probability, impact, notes, hval, hnotes⟩ := hc
  have hid : parseUuid conv "record.id" (change.record.get .id) = .ok a.ownId := by
    rw [Dict.get, hnamed]
    rfl
  have hupsert : applyOp conv d a.userId a.projectId change now =
      applyUpsert conv d a.userId a.projectId change now := by
    rw [applyOp, hop]
  unfold applyChange
  rw [hupsert]
  unfold applyUpsert
  rw [hid, hentity]
  cases hrow : d.row (.assessments, a.ownId) with
  | none =>
    have hfound : fetchObj d .assessment a.ownId a.projectId = none := by
      rw [fetchObj, show Entity.assessment.table = .assessments from rfl, hrow]
      rfl
    have hnone : m = none := by
      rcases hm with hm | hm
      · exact hm
      · obtain ⟨r, hr, hmine, hrid⟩ := hs.held _ hm
        exact absurd (Prod.ext (mine_iff.mp hmine).1 hrid)
          ((Table.find_eq_none Row.key).mp hrow r hr)
    subst hnone
    left
    obtain ⟨obj, d', hnew, hflush, hdone⟩ := @create_own a d now conv _ _ _ h hs _ hentity hval
      hnotes fun obj ↦ ⟨now, a.userId, a.projectId, change.changeId, .assessment, a.ownId, .upsert,
        none, modelToDict obj⟩
    refine ⟨d', ?_, hdone⟩
    simp only [bind, Except.bind, hfound, hnew, pure, Except.pure, hflush]
  | some r =>
    have hr := Table.mem_of_find Row.key hrow
    have hmine := hs.own r hr (Table.key_of_find Row.key hrow)
    have hfound : fetchObj d .assessment a.ownId a.projectId = some r := by
      rw [fetchObj, show Entity.assessment.table = .assessments from rfl, hrow]
      simp [Option.filter, h.projectOf hmine]
    have hsome : m = some a.ownId := by
      rw [hs.only r hr hmine]
      exact congrArg (fun k : RowKey ↦ some k.2) (Table.key_of_find Row.key hrow)
    cases hclaim : claimExisting d r .assessment a.ownId a.projectId a.userId change.baseVersion now
      with
    | error e =>
      right
      obtain ⟨reason, hreason, entityId, version, record, rfl⟩ :=
        claimExisting_refused (mine_iff.mp hmine).2.2 hclaim
      refine ⟨reason, hreason, entityId, version, record, ?_⟩
      simp only [bind, Except.bind, hfound, hclaim]
    | ok claimed =>
      left
      obtain ⟨obj, d', hupdate, hflush, hadmitted, hstored⟩ := update_own conv h hs hr hmine hfound
        hclaim hentity hval hnotes (fun obj ↦ ⟨now, a.userId, a.projectId, change.changeId,
          .assessment, a.ownId, .upsert, some (modelToDict r), modelToDict obj⟩)
      refine ⟨d', ?_, hadmitted, hsome ▸ hstored⟩
      simp only [bind, Except.bind, hfound, hclaim, hupdate, pure, Except.pure, hflush]

variable {Digest : Type} (sha : Payload → Digest)

def EndsWell (result : ChangeResult) : Prop :=
  result.status = .accepted ∨ result.status = .conflict ∧
    ∃ reason ∈ versionConflicts, result.body.reason = some reason

/-- The receipt of that change, pushed by the user. -/
structure Answered (a : Assessor) (change : SyncChange) (receipt : SyncReceipt Digest) : Prop where
  user : receipt.userId = a.userId
  project : receipt.projectId = a.projectId
  hash : receipt.payloadHash = some (sha change.payload)
  ends : EndsWell (receiptResult receipt)

theorem endsWell_refresh {result : ChangeResult} (h : EndsWell result) (projectId userId : Uuid) :
    EndsWell (refreshAcceptedReplay d projectId userId result) := by
  rcases h with haccepted | ⟨hconflict, hreason⟩
  · exact Or.inl ((refreshAcceptedReplay_status d projectId userId result).trans haccepted)
  · have hsame : refreshAcceptedReplay d projectId userId result = result := by
      unfold refreshAcceptedReplay
      rw [if_pos (by rw [hconflict]; decide)]
    rw [hsame]
    exact Or.inr ⟨hconflict, hreason⟩

theorem process_own (h : a.Admitted d) (hs : a.Stored d m) (hm : m = none ∨ m = some a.ownId)
    {change : SyncChange} (hc : a.Change conv change) {role : Role}
    (hrole : Role.member.rank ≤ role.rank) :
    let o := processNewPushChange conv d a.userId a.projectId role change now
    a.Admitted o.data ∧ (∃ m', (m' = m ∨ m' = some a.ownId) ∧ a.Stored o.data m') ∧
      EndsWell (o.result change) ∧ a.Answered sha change
      (o.receipt sha a.userId a.projectId change now) := by
  have hrank : ¬ role.rank < (requiredRole conv d a.projectId change).rank := by
    have hmember : requiredRole conv d a.projectId change = .member := by
      unfold requiredRole requiresManager
      rw [hc.entity]
      rfl
    rw [hmember]
    omega
  intro o
  have ho : o = processNewPushChange conv d a.userId a.projectId role change now := rfl
  unfold processNewPushChange at ho
  rw [if_neg hrank] at ho
  rcases @applyChange_own a d m now conv h hs hm change hc with ⟨d', happly, hadmitted, hstored⟩ |
      ⟨reason, hreason, entityId, version, record, happly⟩
  · rw [happly] at ho
    rw [ho]
    exact ⟨hadmitted, ⟨_, Or.inr rfl, hstored⟩, Or.inl rfl, rfl, rfl, rfl, Or.inl rfl⟩
  · rw [happly] at ho
    rw [ho]
    exact ⟨h, ⟨_, Or.inl rfl, hs⟩, Or.inr ⟨rfl, reason, hreason, rfl⟩, rfl, rfl, rfl,
      Or.inr ⟨rfl, reason, hreason, rfl⟩⟩

theorem push_own [DecidableEq Digest] {db db' : Db Digest} (h : a.Admitted db.data)
    (hs : a.Stored db.data m) (hm : m = none ∨ m = some a.ownId) {c : SyncChange × Time}
    (hc : a.Change conv c.1)
    (hknown : ∀ receipt ∈ db.receipts, receipt.changeId = c.1.changeId → a.Answered sha c.1 receipt)
    {results : List ChangeResult}
    (hpush : pushChanges conv sha db a.userId a.projectId [c] = .ok (db', results)) :
    a.Admitted db'.data ∧ (∃ m', (m' = m ∨ m' = some a.ownId) ∧ a.Stored db'.data m') ∧
      (∀ result ∈ results, EndsWell result) ∧
      ∀ receipt ∈ db'.receipts, receipt ∈ db.receipts ∨
        receipt.changeId = c.1.changeId ∧ a.Answered sha c.1 receipt := by
  obtain ⟨ctx, hopen, hrun⟩ := map_ok hpush
  obtain ⟨-, role, hrole, rfl⟩ := openPush_ok hopen
  obtain ⟨role', hrole', hrank⟩ := h.role
  obtain rfl := Option.some.inj (hrole.symm.trans hrole')
  set ctx := PushContext.start db a.userId a.projectId role [c]
  have hstep : ctx.run conv sha [c] = ctx.step conv sha c := rfl
  dsimp only at hrun
  rw [hstep] at hrun
  have hexisting : ctx.existingReceipts c.1.changeId =
      Table.find SyncReceipt.changeId c.1.changeId db.receipts :=
    if_pos List.mem_cons_self
  cases hfind : Table.find SyncReceipt.changeId c.1.changeId db.receipts with
  | some receipt =>
    have hmem := Table.mem_of_find SyncReceipt.changeId hfind
    have hknows := hknown receipt hmem (Table.key_of_find SyncReceipt.changeId hfind)
    have hseen : ctx.seen c.1.changeId = true := by
      rw [PushContext.seen, hexisting, hfind]
      rfl
    rw [PushContext.step_of_seen conv sha hseen] at hrun
    obtain ⟨rfl, rfl⟩ := Prod.mk.inj hrun
    have hreason : duplicateErrorReason sha c.1 (some receipt) (ctx.batchHashes c.1.changeId)
        ctx.userId ctx.projectId = none := by
      unfold duplicateErrorReason
      dsimp only
      rw [if_neg (by rw [hknows.user, hknows.project]; simp [ctx, PushContext.start]),
        if_neg (by rw [hknows.hash]; simp), if_neg (by rw [hknows.hash]; simp)]
    refine ⟨h, ⟨m, Or.inl rfl, hs⟩, fun result hr ↦ ?_, fun receipt hr ↦ Or.inl hr⟩
    obtain rfl := List.mem_singleton.mp hr
    unfold PushContext.duplicateResult
    rw [hexisting, hfind]
    dsimp only
    rw [hreason]
    exact endsWell_refresh hknows.ends _ _
  | none =>
    have hnew : ¬ ctx.seen c.1.changeId = true := by
      rw [PushContext.seen, hexisting, hfind]
      exact Bool.false_ne_true
    rw [PushContext.step_of_new conv sha hnew] at hrun
    obtain ⟨rfl, rfl⟩ := Prod.mk.inj hrun
    obtain ⟨hadmitted, hstored, hends, hanswered⟩ := @process_own a db.data m c.2 conv _ sha h hs hm
      c.1 hc role hrank
    refine ⟨hadmitted, hstored, fun result hr ↦ ?_, fun receipt hr ↦ ?_⟩
    · obtain rfl := List.mem_singleton.mp hr
      exact hends
    · refine (List.mem_append.mp hr).imp id fun hr ↦ ?_
      unfold Outcome.receipts at hr
      split at hr
      · obtain rfl := List.mem_singleton.mp hr
        exact ⟨rfl, hanswered⟩
      · cases hr

end Push

end Assessor

end RiskApp.Server
