import RiskApp.Server.Offsets

namespace RiskApp.Server

open Lib Lib.Result

def AuditLog.key (e : AuditLog) : RowKey := (e.entity.table, e.entityId)

/-- The log tells of a change of `d` to `d'`: one entry was added for it, with the row that it names
as it was stored before and after. -/
def Logged (change : SyncChange) (d d' : Data) : Prop :=
  ∃ e, d'.audit = d.audit ++ [e] ∧ e.changeId = change.changeId ∧ e.entity = change.entity ∧
    e.op = change.op ∧ e.before = (d.row e.key).map modelToDict ∧
    some e.after = (d'.row e.key).map modelToDict

/-- The change writes a row once it is accepted: it is an upsert, or deletes a row that is there. -/
def SyncChange.WritesRow (conv : Conv) (d : Data) (projectId : Uuid) (change : SyncChange) : Prop :=
  change.op = .upsert ∨ ∃ entityId,
    parseUuid conv "record.id" (change.record.get .id) = .ok entityId ∧
      fetchObj d change.entity entityId projectId ≠ none

/-- Entries that continue each other: each begins with what the one before it ended with. -/
def Consecutive (before : Option Dict) : List AuditLog → Option Dict → Prop
  | [], after => before = after
  | e :: entries, after => e.before = before ∧ Consecutive (some e.after) entries after

/-- The entries added on the way from `d` to `d'` tell the story of every row. -/
def Chronicled (d d' : Data) : Prop :=
  ∃ added, d'.audit = d.audit ++ added ∧
    ∀ k, Consecutive ((d.row k).map modelToDict) (added.filter (·.key = k))
      ((d'.row k).map modelToDict)

section Dict

theorem modelToDict_eq_iff {r s : Row} (ht : r.table = s.table) :
    modelToDict r = modelToDict s ↔ ∀ a ∈ r.table.columns, r.get a = s.get a := by
  constructor
  · intro h a ha
    have hfield := congrFun h a
    unfold modelToDict at hfield
    rw [if_pos ha, if_pos (ht ▸ ha)] at hfield
    exact Option.some.inj hfield
  · intro h
    funext a
    unfold modelToDict
    rw [← ht]
    by_cases ha : a ∈ r.table.columns
    · rw [if_pos ha, if_pos ha, h a ha]
    · rw [if_neg ha, if_neg ha]
      split
      · rename_i hparent
        rw [h .itemId hparent.1]
      · rfl

variable {obj s : Row} {new : Bool} {now : Time}

theorem Flushed.get_eq_iff (h : Flushed obj new now s) (a : Attr) :
    obj.get a = s.get a ↔ a ∈ [Attr.id, .version] ∨ obj.attrs a = s.attrs a := by
  have hversion : s.version = obj.version := by
    obtain ⟨s₀, n, hscore, rfl⟩ := h.written
    have := (computeScore_ok hscore).version
    split <;> exact this
  have hid : s.id = obj.id := congrArg Prod.snd h.key
  cases a with
  | id => simp [Row.get, hid]
  | version => simp [Row.get, hversion]
  | _ => simp [Row.get]

theorem scored_of_score_mem {table : Table} (h : Attr.score ∈ table.columns) :
    table = .items ∨ table = .assessments := by
  cases table <;> revert h <;> decide

theorem Flushed.naiveTimes (h : Flushed obj new now s) (heq : modelToDict obj = modelToDict s) :
    obj.NaiveTimes := by
  intro a ha htime
  have hkey : ∀ a ∈ datetimeColumns, a ∉ [Attr.id, .version] := by decide
  have hsame := ((h.get_eq_iff a).mp ((modelToDict_eq_iff h.table.symm).mp heq a ha)).resolve_left
    (hkey a htime)
  rw [hsame]
  exact Row.naive_iff.mp h.naive a htime

theorem Row.NaiveTimes.attrs {r : Row} (h : r.NaiveTimes) {a : Attr} (ha : a ∈ r.table.columns) :
    r.naive.attrs a = r.attrs a := by
  by_cases htime : a ∈ datetimeColumns
  · rw [Row.naive_attrs_of_mem htime, h a ha htime]
  · exact Row.naive_attrs_of_not_mem htime

theorem Flushed.updated_dict (h : Flushed obj false now s)
    (hscore : obj.table = .items ∨ obj.table = .assessments → obj.attrs .score = s.attrs .score) :
    modelToDict obj = modelToDict s ↔ obj.NaiveTimes := by
  refine ⟨h.naiveTimes, fun hnaive ↦ (modelToDict_eq_iff h.table.symm).mpr fun a ha ↦ ?_⟩
  rw [h.get_eq_iff]
  by_cases hs : a = .score
  · subst hs
    exact Or.inr (hscore (scored_of_score_mem ha))
  · exact Or.inr ((hnaive.attrs ha).symm.trans (h.naive_updated hs).symm)

theorem Flushed.created_dict (h : Flushed obj true now s)
    (hscore : obj.table = .items ∨ obj.table = .assessments → obj.attrs .score = s.attrs .score) :
    modelToDict obj = modelToDict s ↔
      (∀ f ∈ obj.table.columnDefaults now, obj.attrs f.1 ≠ .null) ∧ obj.NaiveTimes := by
  have hdefaults : ∀ f ∈ obj.table.columnDefaults now,
      f.1 ∈ obj.table.columns ∧ f.1 ∉ [Attr.id, .version] ∧ f.2 ≠ .null ∧
        fieldOf (obj.table.columnDefaults now) f.1 = some f.2 ∧
        (f.1 = .score → obj.table = .items) := by
    intro f hf
    cases ht : obj.table <;> rw [ht] at hf <;>
      simp only [Table.columnDefaults, List.mem_cons, List.not_mem_nil, or_false] at hf <;>
      rcases hf with rfl | rfl | rfl | rfl | rfl | rfl | rfl | rfl | rfl <;>
      exact ⟨by simp [Table.columns], by simp, by simp, rfl, by simp⟩
  rw [modelToDict_eq_iff h.table.symm]
  constructor
  · intro heq
    refine ⟨fun f hf hnull ↦ ?_, h.naiveTimes ((modelToDict_eq_iff h.table.symm).mpr heq)⟩
    obtain ⟨hcolumn, hid, hvalue, hfield, hitems⟩ := hdefaults f hf
    have hsame := ((h.get_eq_iff f.1).mp (heq f.1 hcolumn)).resolve_left hid
    by_cases hs : f.1 = .score
    · obtain ⟨p, i, -, -, -, -, hproduct⟩ := h.multiplied (Or.inl (h.table.trans (hitems hs)))
      rw [hs] at hsame hnull
      rw [hnull, hproduct] at hsame
      cases hsame
    · rw [h.attrs_default hs hnull hfield, hnull] at hsame
      exact hvalue hsame.symm
  · rintro ⟨hfilled, hnaive⟩ a ha
    rw [h.get_eq_iff]
    by_cases hs : a = .score
    · subst hs
      exact Or.inr (hscore (scored_of_score_mem ha))
    · right
      rw [← hnaive.attrs ha]
      by_cases hnull : obj.attrs a = .null
      · by_cases hdef : a ∈ (obj.table.columnDefaults now).map Prod.fst
        · obtain ⟨f, hf, rfl⟩ := List.mem_map.mp hdef
          exact absurd hnull (hfilled f hf)
        · exact (h.naive_without_default hs hdef).symm
      · exact (h.naive_of_ne hs hnull).symm

def Row.Timely (r : Row) : Prop :=
  r.attrs .score = .int (intOrOne (r.attrs .probability) * intOrOne (r.attrs .impact))

theorem intOrOne_of_scaled {p : ℤ} (h : FieldType.inScale p = true) : intOrOne (.int p) = p := by
  simp only [FieldType.inScale, Bool.and_eq_true, decide_eq_true_eq] at h
  simp only [intOrOne, if_neg (show ¬p = 0 by omega)]

theorem Flushed.score_eq (h : Flushed obj new now s) (hobj : obj.Timely)
    (ht : obj.table = .items ∨ obj.table = .assessments) : obj.attrs .score = s.attrs .score := by
  obtain ⟨p, i, hp, hi, hprobability, himpact, hscore⟩ := h.multiplied (h.table.symm ▸ ht)
  obtain ⟨s₀, n, hcompute, -⟩ := h.written
  obtain ⟨p', i', hp', hi', hprobability', himpact', -⟩ := computeScore_scores hcompute ht
  have hpp : p' = p := by
    rw [h.attrs_of_ne (by decide) (by simp [hprobability'])] at hprobability
    exact Val.int.inj (hprobability'.symm.trans hprobability)
  have hii : i' = i := by
    rw [h.impact ht] at himpact
    exact Val.int.inj (himpact'.symm.trans himpact)
  rw [hobj, hprobability', himpact', hscore, intOrOne_of_scaled hp', intOrOne_of_scaled hi', hpp,
    hii]

theorem recalculated_timely {r : Row} (ht : r.table = .items ∨ r.table = .assessments) :
    (recalculateItemScores r).Timely := by
  have hkept : ∀ (w : Row) (v : Val), ∀ a ∈ [Attr.probability, .impact],
      (w.setAttr .score v).attrs a = w.attrs a := by
    intro w v a ha
    refine w.setAttr_attrs_of_ne v ?_
    revert a
    decide
  unfold Row.Timely recalculateItemScores
  rw [if_pos ht]
  simp only
  rw [Row.setAttr_self _ _ (by decide), hkept _ _ _ (by decide), hkept _ _ _ (by decide)]

theorem Row.Timely.of_attrs {r w : Row} (h : r.Timely)
    (hattrs : ∀ a ∈ [Attr.probability, .impact, .score], w.attrs a = r.attrs a) : w.Timely := by
  unfold Row.Timely at h ⊢
  rw [hattrs _ (by decide), hattrs _ (by decide), hattrs _ (by decide), h]

theorem update_timely {r : Row} {val : Parsed} (hfixed : ∀ f ∈ val.fields, f.1 ∉ fixedAttrs)
    (ht : r.table = .items ∨ r.table = .assessments) : (r.update val now).Timely := by
  have htable : (((clientFields r.table val).foldl (Row.assign now) r).flagged val now).table =
      r.table :=
    ((Row.keeps_foldl (Row.keeps_assign now) (clientFields r.table val) r
      fun f hf ↦ hfixed f (List.mem_of_mem_filter hf)).trans Row.keeps_flagged).table
  refine (recalculated_timely (htable.symm ▸ ht)).of_attrs fun a ha ↦ Row.update_attrs_eq ?_
  revert a
  decide

theorem Row.Multiplied.timely {r : Row} (h : r.Multiplied)
    (ht : r.table = .items ∨ r.table = .assessments) : r.Timely := by
  obtain ⟨p, i, hp, hi, hprobability, himpact, hscore⟩ := h ht
  unfold Row.Timely
  rw [hprobability, himpact, hscore, intOrOne_of_scaled hp, intOrOne_of_scaled hi]

theorem softDelete_timely {r : Row} (h : r.Multiplied)
    (ht : r.table = .items ∨ r.table = .assessments) : (r.softDelete now).Timely := by
  refine (h.timely ht).of_attrs fun a ha ↦ r.softDelete_attrs now ?_
  revert a
  decide

end Dict

section Created

variable {conv : Conv} {d : Data} {userId projectId entityId : Uuid} {entity : Entity}
  {record : Dict} {obj : Row} {now : Time}

/-- A record that leaves nothing of the new row to the defaults of the columns. Every new item has
its `status_changed_at` from there. -/
def Parsed.TellsAll (entity : Entity) (val : Parsed) : Prop :=
  entity.scored = false ∧ val.get .isDeleted ≠ .null ∧
    ∀ a ∈ [Attr.status, .category, .priority], val.find a ≠ some .null

theorem find_undeclared {val : Parsed} (h : parseRecord conv entity record = .ok val) {a : Attr}
    (ha : a ∉ (schema entity).map Prod.fst) : val.find a = none :=
  fieldOf_eq_none fun hmem ↦ by
    obtain ⟨f, hf, rfl⟩ := List.mem_map.mp hmem
    exact ha (parseRecord_keys h f hf)

theorem created_filled_iff {val : Parsed} (hval : parseRecord conv entity record = .ok val)
    (h : createNew conv d userId projectId entity entityId record now = .ok obj) :
    (∀ f ∈ obj.table.columnDefaults now, obj.attrs f.1 ≠ .null) ↔ val.TellsAll entity := by
  have htable : obj.table = entity.table := congrArg Prod.fst (createNew_ok h).1
  have hvalue : ∀ a ∈ entity.table.columns,
      a ∉ [Attr.impact, .code, .id, .version, .score, .assessorUserId] →
      obj.attrs a = (val.find a).getD ((blankRow userId projectId entity entityId now).attrs a) :=
    fun a hcol ha ↦ created_value hval h hcol ha
  have hdefault : ∀ {o : Option Val} {v : Val}, v ≠ .null →
      (o.getD v ≠ .null ↔ o ≠ some .null) := by
    intro o v hv
    cases o <;> simp [hv]
  have hdated : ∀ a ∈ [Attr.createdAt, .updatedAt], obj.attrs a ≠ .null := by
    intro a ha
    simp only [List.mem_cons, List.not_mem_nil, or_false] at ha
    rcases ha with rfl | rfl
    · rw [hvalue _ (by cases entity <;> decide) (by decide),
        find_undeclared hval (by cases entity <;> decide)]
      cases entity <;> simp [blankRow, Row.setAll, Row.setAttr, defaults]
    · rw [hvalue _ (by cases entity <;> decide) (by decide),
        find_undeclared hval (by cases entity <;> decide)]
      cases entity <;> simp [blankRow, Row.setAll, Row.setAttr, defaults]
  have hflag : obj.attrs .isDeleted = val.get .isDeleted := by
    rw [hvalue _ (by cases entity <;> decide) (by decide)]
    cases entity <;> rfl
  have hitem : entity.scored = true → obj.attrs .statusChangedAt = .null := by
    intro hs
    have hcol : Attr.statusChangedAt ∈ entity.table.columns := by
      cases entity <;> first | decide | cases hs
    rw [hvalue _ hcol (by decide), find_undeclared hval (by cases entity <;> decide)]
    cases entity <;> rfl
  rw [htable]
  unfold Parsed.TellsAll
  cases entity with
  | risk =>
    refine iff_of_false (fun hfilled ↦ ?_) fun htells ↦ by cases htells.1
    exact hfilled (.statusChangedAt, .time now) (by simp [Entity.table, Table.columnDefaults])
      (hitem rfl)
  | opportunity =>
    refine iff_of_false (fun hfilled ↦ ?_) fun htells ↦ by cases htells.1
    exact hfilled (.statusChangedAt, .time now) (by simp [Entity.table, Table.columnDefaults])
      (hitem rfl)
  | action =>
    have hstatus := hvalue .status (by decide) (by decide)
    simp only [Entity.table, Table.columnDefaults, List.forall_mem_cons, List.not_mem_nil,
      false_implies, implies_true, and_true, hflag, hstatus]
    rw [hdefault (by simp [blankRow, Row.setAll, Row.setAttr, defaults])]
    rw [find_undeclared hval (a := .category) (by decide),
      find_undeclared hval (a := .priority) (by decide)]
    simp [hdated, Entity.scored]
  | assessment =>
    simp only [Entity.table, Table.columnDefaults, List.forall_mem_cons, List.not_mem_nil,
      false_implies, implies_true, and_true, hflag]
    rw [find_undeclared hval (a := .status) (by decide),
      find_undeclared hval (a := .category) (by decide),
      find_undeclared hval (a := .priority) (by decide)]
    simp [hdated, Entity.scored]
  | helpdeskTicket =>
    have hstatus := hvalue .status (by decide) (by decide)
    have hcategory := hvalue .category (by decide) (by decide)
    have hpriority := hvalue .priority (by decide) (by decide)
    simp only [Entity.table, Table.columnDefaults, List.forall_mem_cons, List.not_mem_nil,
      false_implies, implies_true, and_true, hflag, hstatus, hcategory, hpriority]
    rw [hdefault (by simp [blankRow, Row.setAll, Row.setAttr, defaults]),
      hdefault (by simp [blankRow, Row.setAll, Row.setAttr, defaults]),
      hdefault (by simp [blankRow, Row.setAll, Row.setAttr, defaults])]
    simp [hdated, Entity.scored]
    tauto

theorem unscored_naive {val : Parsed} (hval : parseRecord conv entity record = .ok val)
    (hs : entity.scored = false) : val.Naive := by
  intro a ha
  have hnone : ∀ entity : Entity, entity.scored = false → ∀ a ∈ clientTimes,
      a ∉ (schema entity).map Prod.fst := by
    intro entity
    cases entity <;> decide
  rw [Parsed.get, find_undeclared hval (hnone entity hs a ha)]
  rfl

theorem created_naiveTimes {val : Parsed} (hval : parseRecord conv entity record = .ok val)
    (h : createNew conv d userId projectId entity entityId record now = .ok obj)
    (hs : entity.scored = false) : obj.NaiveTimes := by
  have htable : obj.table = entity.table := congrArg Prod.fst (createNew_ok h).1
  intro a hcol ha
  rw [htable] at hcol
  have hdates : ∀ entity : Entity, entity.scored = false → ∀ a ∈ entity.table.columns,
      a ∈ datetimeColumns → a ∈ [Attr.createdAt, .updatedAt] ∧
        a ∉ (schema entity).map Prod.fst := by
    intro entity
    cases entity <;> decide
  obtain ⟨hdate, hundeclared⟩ := hdates entity hs a hcol ha
  have hclient : ∀ a ∈ [Attr.createdAt, .updatedAt],
      a ∉ [Attr.impact, .code, .id, .version, .score, .assessorUserId] := by decide
  rw [created_value hval h hcol (hclient a hdate), find_undeclared hval hundeclared,
    Option.getD_none]
  simp only [List.mem_cons, List.not_mem_nil, or_false] at hdate
  rcases hdate with rfl | rfl <;>
    · cases entity <;> simp [blankRow, Row.setAll, Row.setAttr, defaults, Val.naive]

end Created

/-- What makes the entries true: a record gives no time an offset, and that of a new row says what
is stored of it. -/
def toldInFull (conv : Conv) : Terms where
  change d _ projectId change _ := change.op = .upsert → ∀ entityId val,
    parseUuid conv "record.id" (change.record.get .id) = .ok entityId →
    parseRecord conv change.entity change.record = .ok val →
    val.Naive ∧ (fetchObj d change.entity entityId projectId = none → val.TellsAll change.entity)
  call _ _ _ _ _ _ := True

/-- What the listener and the columns leave of a row. -/
structure Row.Settled (r : Row) : Prop where
  multiplied : r.Multiplied
  naive : r.naive = r

section Saved

variable {conv : Conv} {d d' : Data} {userId projectId : Uuid} {change : SyncChange} {now : Time}
  {obj s : Row} {new : Bool} {entry : AuditLog}

theorem Saved.row (h : Saved d d' obj new now entry s) : d'.row obj.key = some s := by
  have hkey := h.flushed.key
  unfold Data.row
  rw [h.rows]
  split
  · rename_i hnew
    have hnone : Table.find Row.key obj.key d.rows = none := h.fresh.mp hnew
    rw [Table.find_append, hnone, Option.none_or, Table.find_singleton, if_pos hkey]
  · rename_i hold
    rw [← hkey]
    refine Table.find_replace_self Row.key ?_
    obtain ⟨y, hy⟩ := Option.ne_none_iff_exists'.mp fun hnone ↦ hold (h.fresh.mpr hnone)
    exact ⟨y, Table.mem_of_find Row.key hy, (Table.key_of_find Row.key hy).trans hkey.symm⟩

theorem Saved.row_of_ne (h : Saved d d' obj new now entry s) {k : RowKey} (hk : k ≠ obj.key) :
    d'.row k = d.row k := by
  have hkey := h.flushed.key
  unfold Data.row
  rw [h.rows]
  split
  · rw [Table.find_append, Table.find_singleton, if_neg fun he ↦ hk (he.symm.trans hkey),
      Option.or_none]
  · exact Table.find_replace_of_ne Row.key d.rows fun he ↦ hk (he.trans hkey)

theorem Saved.logged_iff {entityId : Uuid}
    (h : Saved d d' obj new now (change.entry userId projectId now d obj) s)
    (hkey : obj.key = (change.entity.table, entityId)) :
    Logged change d d' ↔ modelToDict obj = modelToDict s := by
  have hentry : (change.entry userId projectId now d obj).key = obj.key := by
    rw [hkey]
    exact congrArg (Prod.mk change.entity.table) (congrArg Prod.snd hkey)
  constructor
  · rintro ⟨e, haudit, -, -, -, -, hafter⟩
    obtain rfl : e = change.entry userId projectId now d obj := by
      have hsame := List.append_cancel_left (haudit.symm.trans h.audit)
      exact List.head_eq_of_cons_eq hsame
    rw [hentry, h.row] at hafter
    exact Option.some.inj hafter
  · intro heq
    refine ⟨_, h.audit, rfl, rfl, rfl, ?_, ?_⟩
    · rw [hentry]
      rfl
    · rw [hentry, h.row, Option.map_some, ← heq]
      rfl

theorem SyncChange.Writes.told_iff (hw : change.Writes conv d userId projectId now obj new)
    (hs : Flushed obj new now s) (hd : ∀ r ∈ d.rows, r.Settled) :
    modelToDict obj = modelToDict s ↔ (toldInFull conv).change d userId projectId change now := by
  cases hw with
  | @created entityId _ op named missing made =>
    obtain ⟨val, coded, hval, -, -, hobj⟩ := createNew_ok_iff.mp made
    have htimely : obj.table = .items ∨ obj.table = .assessments → obj.Timely := by
      intro ht
      rw [hobj] at ht ⊢
      exact recalculated_timely ((keeps_recalculateItemScores _).table ▸ ht)
    rw [hs.created_dict fun ht ↦ hs.score_eq (htimely ht) ht, created_filled_iff hval made]
    constructor
    · rintro ⟨htells, -⟩ _ id val' hid hval'
      obtain rfl : val = val' := Except.ok.inj (hval.symm.trans hval')
      exact ⟨unscored_naive hval htells.1, fun _ ↦ htells⟩
    · intro h
      have htells := (h op entityId val named hval).2 missing
      exact ⟨htells, created_naiveTimes hval made htells.1⟩
  | @updated entityId r val op named found parsed =>
    have hfixed := (parseRecord_typed parsed).fixed
    have htable := (r.keeps_update val now hfixed).table
    have hstored := fetchObj_some found
    have hentity : r.table = change.entity.table :=
      congrArg Prod.fst (Table.key_of_find Row.key hstored.1)
    have hr := (hd r (Table.mem_of_find Row.key hstored.1)).naive
    rw [hs.updated_dict fun ht ↦ hs.score_eq (update_timely hfixed (htable ▸ ht)) ht,
      Row.update_naiveTimes_iff hr hentity parsed]
    constructor
    · intro hnaive _ id val' hid hval'
      obtain rfl : val = val' := Except.ok.inj (parsed.symm.trans hval')
      obtain rfl : entityId = id := Except.ok.inj (named.symm.trans hid)
      exact ⟨hnaive, fun hmissing ↦ by rw [found] at hmissing; cases hmissing⟩
    · exact fun h ↦ (h op entityId val named parsed).1
  | @deleted entityId r op named found =>
    have hr := hd r (Table.mem_of_find Row.key (fetchObj_some found).1)
    have htable := (r.keeps_softDelete now).table
    refine iff_of_true ((hs.updated_dict fun ht ↦
      hs.score_eq (softDelete_timely hr.multiplied (htable ▸ ht)) ht).mpr fun a _ ha ↦ ?_) ?_
    · exact Row.naive_iff.mp (Row.softDelete_naive hr.naive) a ha
    · intro hop
      rw [op] at hop
      cases hop

end Saved

namespace Consecutive

theorem append {before middle after : Option Dict} {entries entries' : List AuditLog}
    (h : Consecutive before entries middle) (h' : Consecutive middle entries' after) :
    Consecutive before (entries ++ entries') after := by
  induction entries generalizing before with
  | nil =>
    obtain rfl : before = middle := h
    exact h'
  | cons e entries ih => exact ⟨h.1, ih h.2⟩

end Consecutive

namespace Chronicled

variable {d d' d'' : Data}

theorem refl (d : Data) : Chronicled d d :=
  ⟨[], (List.append_nil _).symm, fun _ ↦ rfl⟩

theorem trans (h : Chronicled d d') (h' : Chronicled d' d'') : Chronicled d d'' := by
  obtain ⟨added, haudit, hentries⟩ := h
  obtain ⟨added', haudit', hentries'⟩ := h'
  refine ⟨added ++ added', by rw [haudit', haudit, List.append_assoc], fun k ↦ ?_⟩
  rw [List.filter_append]
  exact (hentries k).append (hentries' k)

end Chronicled

section Turns

variable {Digest : Type} [DecidableEq Digest] (conv : Conv) (sha : Payload → Digest)

namespace PushContext

/-- The turn writes a row: the change is new and accepted, and no delete of a missing row. -/
def WritesRow (ctx : PushContext Digest) (c : SyncChange × Time) : Prop :=
  ctx.seen c.1.changeId = false ∧ (ctx.outcome conv c).status = .accepted ∧
    c.1.WritesRow conv ctx.db.data ctx.projectId

/-- A turn that writes a row adds one entry, a true one; any other turn adds none. -/
def TurnTold (ctx : PushContext Digest) (c : SyncChange × Time) : Prop :=
  (ctx.WritesRow conv c → Logged c.1 ctx.db.data (ctx.step conv sha c).db.data) ∧
    (¬ctx.WritesRow conv c → (ctx.step conv sha c).db.data.audit = ctx.db.data.audit)

def Told (ctx : PushContext Digest) : List (SyncChange × Time) → Prop
  | [] => True
  | c :: cs => ctx.TurnTold conv sha c ∧ (ctx.step conv sha c).Told cs

/-- A turn saves one object with its entry, or leaves the data as they are: then a change that was
accepted deleted nothing. -/
theorem step_saved (ctx : PushContext Digest) (c : SyncChange × Time) :
    (¬ctx.WritesRow conv c ∧ (ctx.step conv sha c).db.data = ctx.db.data ∧
      (ctx.seen c.1.changeId = false → (ctx.outcome conv c).status = .accepted →
        c.1.op = .delete)) ∨
    ctx.WritesRow conv c ∧ ∃ obj new s entityId,
      c.1.Writes conv ctx.db.data ctx.userId ctx.projectId c.2 obj new ∧
      obj.key = (c.1.entity.table, entityId) ∧
      Saved ctx.db.data (ctx.step conv sha c).db.data obj new c.2
        (c.1.entry ctx.userId ctx.projectId c.2 ctx.db.data obj) s := by
  by_cases hs : ctx.seen c.1.changeId = true
  · have hnew : ¬ctx.seen c.1.changeId = false := by simp [hs]
    refine Or.inl ⟨fun hw ↦ hnew hw.1, ?_, fun h ↦ absurd h hnew⟩
    rw [step_of_seen conv sha hs]
    rfl
  have hdata : (ctx.step conv sha c).db.data = (ctx.outcome conv c).data := by
    rw [step_of_new conv sha hs]
    rfl
  rw [hdata]
  by_cases hok : (ctx.outcome conv c).status = .accepted
  · rcases processNewPushChange_cases conv ctx.db.data ctx.userId ctx.projectId ctx.role c.1 c.2
      with h | ⟨e, h⟩ | ⟨d', entityId, happly, h⟩
    · exact absurd (congrArg Outcome.status h ▸ hok) (by simp [rejectPushChange])
    · exact absurd (congrArg Outcome.status h ▸ hok) (failedOutcome_data conv _ _ e).2.1
    · have hd : (ctx.outcome conv c).data = d' := congrArg Outcome.data h
      obtain ⟨hid, -⟩ := applyChange_ok happly
      rw [hd]
      rcases applyChange_saved happly with ⟨rfl, hop, hmissing⟩ | ⟨obj, new, s, hwrites, hsaved⟩
      · refine Or.inl ⟨fun hw ↦ ?_, rfl, fun _ _ ↦ hop⟩
        rcases hw.2.2 with hupsert | ⟨id, hid', hfound⟩
        · rw [hop] at hupsert
          cases hupsert
        · obtain rfl : entityId = id := Except.ok.inj (hid.symm.trans hid')
          exact hfound hmissing
      · refine Or.inr ⟨⟨Bool.eq_false_iff.mpr hs, hok, ?_⟩, obj, new, s, entityId, hwrites, hsaved⟩
        cases hwrites with
        | created op named missing made => exact Or.inl op
        | updated op named found parsed => exact Or.inl op
        | deleted op named found => exact Or.inr ⟨_, named, by simp [found]⟩
  · exact Or.inl ⟨fun hw ↦ hok hw.2.1, processNewPushChange_failed _ _ _ _ _ _ _ hok,
      fun _ h ↦ absurd h hok⟩

theorem turnTold_iff {ctx : PushContext Digest} (hd : ∀ r ∈ ctx.db.data.rows, r.Settled)
    (c : SyncChange × Time) :
    ctx.TurnTold conv sha c ↔ (ctx.seen c.1.changeId = false →
      (ctx.outcome conv c).status = .accepted →
      (toldInFull conv).change ctx.db.data ctx.userId ctx.projectId c.1 c.2) := by
  rcases ctx.step_saved conv sha c with ⟨hw, hdata, hop⟩ | ⟨hw, obj, new, s, id, hwrites, hkey, hs⟩
  · refine iff_of_true ⟨fun h ↦ absurd h hw, fun _ ↦ congrArg Data.audit hdata⟩ ?_
    intro hnew hok hupsert
    rw [hop hnew hok] at hupsert
    cases hupsert
  · have hlogged := (hs.logged_iff hkey).trans (hwrites.told_iff hs.flushed hd)
    constructor
    · exact fun h _ _ ↦ hlogged.mp (h.1 hw)
    · exact fun h ↦ ⟨fun _ ↦ hlogged.mpr (h hw.1 hw.2.1), fun hno ↦ absurd hw hno⟩

/-- A true entry continues the story of its row. -/
theorem TurnTold.chronicled {ctx : PushContext Digest} {c : SyncChange × Time}
    (h : ctx.TurnTold conv sha c) : Chronicled ctx.db.data (ctx.step conv sha c).db.data := by
  rcases ctx.step_saved conv sha c with ⟨-, hdata, -⟩ | ⟨hw, obj, new, s, id, hwrites, hkey, hs⟩
  · rw [hdata]
    exact .refl _
  · obtain ⟨e, haudit, -, hentity, -, hbefore, hafter⟩ := h.1 hw
    refine ⟨[e], haudit, fun k ↦ ?_⟩
    by_cases hk : e.key = k
    · subst hk
      rw [List.filter_cons_of_pos (by simp)]
      exact ⟨hbefore, hafter⟩
    · rw [List.filter_cons_of_neg (by simpa using hk)]
      have he : e.key = obj.key := by
        have hsame := List.head_eq_of_cons_eq (List.append_cancel_left (haudit.symm.trans hs.audit))
        rw [hsame, hkey]
        exact congrArg (Prod.mk c.1.entity.table) (congrArg Prod.snd hkey)
      exact (hs.row_of_ne fun hko ↦ hk (he.trans hko.symm)) ▸ rfl

end PushContext

section Batch

variable {conv sha}

theorem settled_invariant : RowInvariant conv Terms.none Row.Settled where
  others hs _ := ⟨hs.multiplied, hs.naive⟩
  change _ _ _ hs := ⟨hs.multiplied, hs.naive⟩
  call _ _ _ _ hs := ⟨hs.multiplied, hs.naive⟩

theorem PushContext.told_iff {ctx : PushContext Digest}
    (hd : ∀ r ∈ ctx.db.data.rows, r.Settled) (cs : List (SyncChange × Time)) :
    ctx.Told conv sha cs ↔ ctx.Meets conv sha (toldInFull conv) cs := by
  induction cs generalizing ctx with
  | nil => exact Iff.rfl
  | cons c cs ih =>
    exact and_congr (ctx.turnTold_iff conv sha hd c)
      (ih (settled_invariant.step sha hd c fun _ _ ↦ trivial))

theorem PushContext.Told.chronicled {ctx : PushContext Digest} {cs : List (SyncChange × Time)}
    (h : ctx.Told conv sha cs) : Chronicled ctx.db.data (ctx.run conv sha cs).db.data := by
  induction cs generalizing ctx with
  | nil => exact .refl _
  | cons c cs ih => exact (h.1.chronicled conv sha).trans (ih h.2)

end Batch

/-- The log tells the truth about a batch exactly when every record of it gives no time an offset
and every record of a new row tells all. -/
theorem audit_log_tells_truth {db db' : Db Digest} (hdb : ReachableOn conv sha Terms.none db)
    {userId projectId : Uuid} {role : Role}
    (hrole : db.data.getMemberRole projectId userId = some role)
    {changes : List (SyncChange × Time)} {results : List ChangeResult}
    (hpush : pushChanges conv sha db userId projectId changes = .ok (db', results)) :
    (PushContext.start db userId projectId role changes).Told conv sha changes ∧
        Chronicled db.data db'.data ↔
      (PushContext.start db userId projectId role changes).Meets conv sha (toldInFull conv)
        changes := by
  have hd := settled_invariant.reachable sha hdb
  rw [← PushContext.told_iff hd changes]
  refine and_iff_left_of_imp fun htold ↦ ?_
  obtain ⟨ctx, hopen, hrun⟩ := map_ok hpush
  obtain ⟨-, role', hrole', rfl⟩ := openPush_ok hopen
  cases hrun
  obtain rfl : role = role' := Option.some.inj (hrole.symm.trans hrole')
  exact htold.chronicled

end Turns

section Sample

def pushedTicket : SyncChange × Time :=
  (⟨8, .helpdeskTicket, .upsert, none, Dict.ofList [(.id, .uuid 200), (.title, .str "Help"),
    (.isDeleted, .bool false)]⟩, 6)

def batchOf (c : SyncChange × Time) : PushContext Val :=
  .start ⟨newProject, []⟩ 10 1 .manager [c]

theorem pushedTicket_meets :
    (batchOf pushedTicket).Meets Conv.strict titleDigest (toldInFull Conv.strict)
      [pushedTicket] := by
  refine ⟨fun _ _ _ entityId val _ hval ↦ ⟨unscored_naive hval rfl, fun _ ↦ ?_⟩, trivial⟩
  cases hval
  exact ⟨rfl, by decide, by decide⟩

end Sample

theorem audit_log_tells_truth_sample :
    (batchOf pushedTicket).Told Conv.strict titleDigest [pushedTicket] ∧
      Chronicled newProject
        ((batchOf pushedTicket).run Conv.strict titleDigest [pushedTicket]).db.data :=
  (audit_log_tells_truth Conv.strict titleDigest (.empty rfl) rfl rfl).mpr pushedTicket_meets

/-- The entry of a new risk has a null where the default of the flag is stored. -/
theorem created_risk_not_told : ¬ ∀ db db' : Db Val,
    ReachableOn Conv.strict titleDigest Terms.none db → ∀ changes results,
    pushChanges Conv.strict titleDigest db 10 1 changes = .ok (db', results) →
    (PushContext.start db 10 1 .manager changes).Told Conv.strict titleDigest changes := by
  intro h
  have htold := h ⟨newProject, []⟩ _ (.empty rfl) [pushedRisk []] _ rfl
  have hmeets := (PushContext.told_iff (by simp [newProject, PushContext.start]) _).mp htold
  have htells := (hmeets.1 rfl (by decide) rfl 100 _ rfl rfl).2 rfl
  cases htells.1

end RiskApp.Server
