import RiskApp.Client.Device
import RiskApp.Client.Projection

namespace RiskApp.Client

open Lib Server

/-- The fields of a server record that a local row repeats in columns of the same name. -/
def syncedFields : Entity → List Attr
  | .action => .riskId :: .opportunityId :: .updatedAt :: Cache.mergeFields .action
  | .assessment => .assessorUserId :: .updatedAt :: Cache.mergeFields .assessment
  | .helpdeskTicket => .createdAt :: .updatedAt :: Cache.mergeFields .helpdeskTicket
  | entity => .statusChangedAt :: .updatedAt :: Cache.mergeFields entity

/-- The form that the local tables give to a field: optional texts are trimmed, and a missing value
becomes the default of its column. -/
def localForm (entity : Entity) (a : Attr) (v : Val) : Option Val :=
  match entity with
  | .action =>
    if a ∈ [.description, .updatedAt] then some (textOr v "")
    else if a ∈ [.kind, .title] then some (optStr v (.str ""))
    else if a = .status then some (optStr v (.str "open"))
    else some (optStr v .null)
  | .assessment =>
    if a ∈ [.probability, .impact] then some (.int (optIntOr v 1))
    else if a = .assessorUserId then some (optStr v (.str ""))
    else some (textOr v "")
  | .helpdeskTicket =>
    if a = .category then some (textOr v "other")
    else if a = .priority then some (textOr v "medium")
    else if a = .status then some (textOr v "open")
    else some (textOr v "")
  | _ =>
    if a ∈ [.title, .updatedAt] then some (textOr v "")
    else if a ∈ [.probability, .impact] then (intOr v 1).map .int
    else if a ∈ impactDimensions then optionalInt v
    else if a = .status then some (normText (Val.orElse v (.str "concept")))
    else some (normText v)

namespace Outbox

def Remembers (o o' : Outbox) (pulled : EntityKey → Dict → Prop) : Prop :=
  ∃ g : Entry → SavedOutcome, o' = o.map (fun e ↦ e.withOutcome (g e)) ∧ ∀ e ∈ o,
    g e = e.outcome ∨ ∃ conflict ∈ o, conflict.inConflict = true ∧
      conflict.changeId = e.changeId ∧ ∃ record, pulled conflict.key record ∧
        g e = ⟨some (recordVersion record), some record⟩

namespace Remembers

variable {o o' o'' : Outbox} {pulled pulled' : EntityKey → Dict → Prop}

theorem refl (o : Outbox) : o.Remembers o pulled :=
  ⟨Entry.outcome, (List.map_id o).symm, fun _ _ ↦ Or.inl rfl⟩

theorem trans (h : o.Remembers o' pulled) (h' : o'.Remembers o'' pulled) :
    o.Remembers o'' pulled := by
  obtain ⟨g, rfl, hg⟩ := h
  obtain ⟨g', rfl, hg'⟩ := h'
  refine ⟨fun e ↦ g' (e.withOutcome (g e)), by rw [List.map_map]; rfl, fun e he ↦ ?_⟩
  rcases hg' _ (List.mem_map_of_mem he) with hsame | ⟨conflict', hmem, hconflict, hid, hrecord⟩
  · dsimp only
    rw [hsame]
    exact hg e he
  · obtain ⟨conflict, hc, rfl⟩ := List.mem_map.mp hmem
    exact Or.inr ⟨conflict, hc, hconflict, hid, hrecord⟩

theorem mono (h : o.Remembers o' pulled) (hp : ∀ k record, pulled k record → pulled' k record) :
    o.Remembers o' pulled' := by
  obtain ⟨g, rfl, hg⟩ := h
  refine ⟨g, rfl, fun e he ↦ (hg e he).imp id ?_⟩
  rintro ⟨conflict, hc, hconflict, hid, record, hr, heq⟩
  exact ⟨conflict, hc, hconflict, hid, record, hp _ _ hr, heq⟩

theorem refreshed (h : o.Remembers o' pulled) : o.Refreshed o' := by
  obtain ⟨g, rfl, -⟩ := h
  exact ⟨g, rfl⟩

end Remembers

end Outbox

namespace Cache

variable {c c' t t' : Cache} {k : EntityKey} {entity : Entity} {record : Dict} {columns : Columns}

theorem pulledScored_fields (hs : entity.scored = true) (h : pulledScored record = some columns) :
    ∀ a ∈ syncedFields entity, localForm entity a (record.get a) = some (columns a) := by
  obtain ⟨m, hm, h⟩ := Option.bind_eq_some_iff.mp h
  obtain ⟨probability, hprobability, h⟩ := Option.bind_eq_some_iff.mp h
  obtain ⟨impact, himpact, h⟩ := Option.bind_eq_some_iff.mp h
  obtain rfl := Option.some.inj h
  unfold normScoredMeta at hm
  split at hm
  · rename_i hdims
    obtain rfl := Option.some.inj hm
    have hdim : ∀ a ∈ impactDimensions, optionalInt (record.get a) =
        some ((optionalInt (record.get a)).getD .null) := by
      intro a ha
      have hsome := List.all_eq_true.mp hdims a ha
      have hne : a ≠ .status := by
        rintro rfl
        revert ha
        decide
      dsimp only at hsome
      rw [if_neg hne] at hsome
      obtain ⟨v, hv⟩ := Option.isSome_iff_exists.mp hsome
      rw [hv]
      rfl
    have hlocal : localForm entity = localForm .risk ∧
        syncedFields entity = syncedFields .risk := by
      cases entity <;> first | exact ⟨rfl, rfl⟩ | cases hs
    rw [hlocal.1, hlocal.2]
    intro a ha
    simp only [syncedFields, mergeFields, List.mem_cons, List.not_mem_nil, or_false] at ha
    rcases ha with rfl | rfl | rfl | rfl | rfl | rfl | rfl | rfl | rfl | rfl | rfl | rfl | rfl |
      rfl | rfl | rfl | rfl | rfl | rfl | rfl | rfl
    all_goals first
      | rfl
      | exact hdim _ (by decide)
      | exact congrArg (Option.map Val.int) hprobability
      | exact congrArg (Option.map Val.int) himpact
  · cases hm

theorem pulledColumns_fields (h : c.pulledColumns entity record = some columns) :
    ∀ a ∈ syncedFields entity, localForm entity a (record.get a) = some (columns a) := by
  cases entity with
  | risk => exact pulledScored_fields rfl h
  | opportunity => exact pulledScored_fields rfl h
  | action | assessment | helpdeskTicket =>
    obtain rfl := Option.some.inj h
    intro a ha
    simp only [syncedFields, mergeFields, List.mem_cons, List.not_mem_nil, or_false] at ha
    rcases ha with rfl | rfl | rfl | rfl | rfl | rfl | rfl | rfl <;> rfl

theorem pulledColumns_code (h : c.pulledColumns entity record = some columns)
    (hne : columns .code ≠ .null) :
    entity.scored = true ∧ columns .code = normText (record.get .code) := by
  have hfields := pulledColumns_fields h
  cases entity with
  | risk => exact ⟨rfl, (Option.some.inj (hfields .code (by decide))).symm⟩
  | opportunity => exact ⟨rfl, (Option.some.inj (hfields .code (by decide))).symm⟩
  | action | assessment | helpdeskTicket =>
    obtain rfl := Option.some.inj h
    exact absurd rfl hne

/-- The row holds what the server's record says, in the form of the local columns. -/
structure Mirrors (k : EntityKey) (record : Dict) (r : CachedRow) : Prop where
  key : r.key = k
  version : r.version = pulledVersion k.1 record
  deleted : r.isDeleted = recordDeleted record
  clean : r.dirty = false
  fields : ∀ a ∈ syncedFields k.1, localForm k.1 a (record.get a) = some (r.columns a)
  item : k.1 = .assessment → r.columns .itemId = assessedItem record

theorem mirrors_serverRow (h : c.pulledColumns k.1 record = some columns) :
    Mirrors k record (serverRow k record columns) := by
  refine ⟨rfl, rfl, rfl, rfl, pulledColumns_fields h, fun hk ↦ ?_⟩
  rw [hk] at h
  obtain rfl := Option.some.inj h
  rfl

def Reassigned (k : EntityKey) (records : List Dict) (code : Val) : Prop :=
  k.1.scored = true ∧ code ≠ .null ∧ ∃ record ∈ records, ∃ id,
    recordId record = some id ∧ id ≠ k.2 ∧ normText (record.get .code) = code

/-- A row stays as it is, except that it loses a code that now belongs to another row. -/
def Stays (k : EntityKey) (records : List Dict) (o o' : Option CachedRow) : Prop :=
  o' = o ∨ ∃ r, o = some r ∧ o' = some (clearCode r) ∧ Reassigned k records (r.columns .code)

theorem Reassigned.mono {records records' : List Dict} {code : Val} (h : Reassigned k records code)
    (hsub : records ⊆ records') : Reassigned k records' code :=
  ⟨h.1, h.2.1, h.2.2.imp fun _ hr ↦ ⟨hsub hr.1, hr.2⟩⟩

theorem Stays.mono {records records' : List Dict} {o o' : Option CachedRow}
    (h : Stays k records o o') (hsub : records ⊆ records') : Stays k records' o o' := by
  rcases h with hsame | ⟨r, ho, ho', hcode⟩
  · exact Or.inl hsame
  · exact Or.inr ⟨r, ho, ho', hcode.mono hsub⟩

def lastNamed (records : List Dict) (id : Uuid) : Option Dict :=
  (records.filter (recordId · = some id)).getLast?

theorem lastNamed_append (records : List Dict) (record : Dict) (id : Uuid) :
    lastNamed (records ++ [record]) id =
      if recordId record = some id then some record else lastNamed records id := by
  rw [lastNamed, List.filter_append, List.filter_cons, List.filter_nil]
  by_cases h : recordId record = some id
  · rw [if_pos (decide_eq_true h), if_pos h, List.getLast?_concat]
  · rw [if_neg (by simpa using h), if_neg h, List.append_nil]
    rfl

/-- The row that is due once the records are applied: the old one under an open entry or without a
record, and otherwise what the last record says. -/
inductive Due (c : Cache) (records : List Dict) (k : EntityKey) : Option CachedRow → Prop
  | pending (waiting : (c.outbox.entry k).isSome) : Due c records k (c.row k)
  | unnamed (unnamed : lastNamed records k.2 = none) : Due c records k (c.row k)
  | pulled {record : Dict} {r : CachedRow} (free : c.outbox.entry k = none)
      (last : lastNamed records k.2 = some record) (mirrors : Mirrors k record r) :
      Due c records k (some r)

theorem row_takeRecord (c : Cache) (k k' : EntityKey) (record : Dict) (columns : Columns) :
    (c.takeRecord k record columns).row k' =
      if k = k' then some (serverRow k record columns)
      else (c.row k').map fun r ↦ if holdsCode k (columns .code) r then clearCode r else r := by
  have hkeeps : ∀ r : CachedRow, (clearCode r).key = r.key := fun _ ↦ rfl
  rw [takeRecord, row_saveRow, row_updateRows c hkeeps]
  rfl

theorem Stays.takeRecord {records : List Dict} {k' : EntityKey} {o : Option CachedRow}
    (h : Stays k' records o (t.row k')) (hne : k ≠ k')
    (hid : recordId record = some k.2) (hcolumns : t.pulledColumns k.1 record = some columns)
    (hin : k.1 = k'.1 → record ∈ records) :
    Stays k' records o ((t.takeRecord k record columns).row k') := by
  rw [row_takeRecord, if_neg hne]
  rcases h with hsame | ⟨r, ho, hcleared, hcode⟩
  · rw [hsame]
    cases ho : o with
    | none => exact Or.inl rfl
    | some r =>
      rw [Option.map_some]
      split
      · rename_i hholds
        have hkey : r.key = k' := Table.key_of_find CachedRow.key (hsame.trans ho)
        simp only [holdsCode, Bool.and_eq_true, decide_eq_true_eq] at hholds
        obtain ⟨⟨⟨hentity, hnull⟩, hcode⟩, hother⟩ := hholds
        obtain ⟨hscored, hnorm⟩ := pulledColumns_code hcolumns hnull
        have htable : k.1 = k'.1 := hentity.symm.trans (congrArg Prod.fst hkey)
        refine Or.inr ⟨r, rfl, rfl, htable ▸ hscored, hcode ▸ hnull, record, hin htable, k.2, hid,
          fun he ↦ hne (Prod.ext htable he), hnorm.symm.trans hcode.symm⟩
      · exact Or.inl rfl
  · refine Or.inr ⟨r, ho, ?_, hcode⟩
    rw [hcleared, Option.map_some]
    split
    · refine congrArg some ?_
      simp [clearCode, CachedRow.setColumn]
    · rfl

theorem rememberConflict_remembers
    (h : (rememberConflict k record).eval t = some ((), t')) :
    t'.rows = t.rows ∧ t'.watermark = t.watermark ∧
      t.outbox.Remembers t'.outbox fun k' r ↦ k' = k ∧ r = record := by
  rw [rememberConflict, Work.eval_bind, Work.eval_select, Option.bind_some] at h
  cases hfind : t.outbox.find? fun e ↦ e.key = k && e.inConflict with
  | none =>
    rw [hfind] at h
    obtain rfl : t = t' := congrArg Prod.snd (Option.some.inj h)
    exact ⟨rfl, rfl, .refl _⟩
  | some conflict =>
    rw [hfind] at h
    obtain ⟨version, hversion, h⟩ := ofOption_eval h
    obtain rfl : recordVersion record = version := by rw [recordVersion, hversion, Option.getD_some]
    obtain rfl : _ = t' := congrArg Prod.snd (Option.some.inj h)
    have hsel := List.find?_some hfind
    simp only [Bool.and_eq_true, decide_eq_true_eq] at hsel
    refine ⟨rfl, rfl, fun e ↦ if e.changeId = conflict.changeId then
      ⟨some (recordVersion record), some record⟩ else e.outcome,
      List.map_congr_left fun e _ ↦ ?_, fun e _ ↦ ?_⟩
    · by_cases hid : e.changeId = conflict.changeId
      · simp only [hid, decide_true, if_true]
      · simp only [hid, decide_false, if_false]
        rfl
    · by_cases hid : e.changeId = conflict.changeId
      · exact Or.inr ⟨conflict, List.mem_of_find?_eq_some hfind, hsel.2, hid.symm, record,
          ⟨hsel.1, rfl⟩, if_pos hid⟩
      · exact Or.inl (if_neg hid)

/-- What has become of the cache when, of each entity, these records have been applied. -/
structure Absorbs (c : Cache) (records : Entity → List Dict) (t : Cache) : Prop where
  watermark : t.watermark = c.watermark
  outbox : c.outbox.Remembers t.outbox fun k record ↦
    record ∈ records k.1 ∧ recordId record = some k.2
  row : ∀ k, ∃ o, Due c (records k.1) k o ∧ Stays k (records k.1) o (t.row k)

section Absorbs

variable {records : Entity → List Dict}

def andRecord (records : Entity → List Dict) (entity : Entity) (record : Dict) :
    Entity → List Dict := Function.update records entity (records entity ++ [record])

theorem andRecord_self : andRecord records entity record entity = records entity ++ [record] :=
  Function.update_self ..

theorem andRecord_of_ne {e : Entity} (h : e ≠ entity) :
    andRecord records entity record e = records e := Function.update_of_ne h ..

theorem subset_andRecord (e : Entity) : records e ⊆ andRecord records entity record e := by
  by_cases he : e = entity
  · subst he
    rw [andRecord_self]
    exact List.subset_append_left _ _
  · rw [andRecord_of_ne he]
    exact List.Subset.refl _

theorem Due.skip {o : Option CachedRow} (h : Due c (records k.1) k o)
    (hskip : (c.outbox.entry k).isSome ∨ k.1 ≠ entity ∨ recordId record ≠ some k.2) :
    Due c (andRecord records entity record k.1) k o := by
  have hlast : k.1 ≠ entity ∨ recordId record ≠ some k.2 →
      lastNamed (andRecord records entity record k.1) k.2 = lastNamed (records k.1) k.2 := by
    intro h
    by_cases he : k.1 = entity
    · rw [he, andRecord_self, lastNamed_append, if_neg (h.resolve_left fun hne ↦ hne he)]
    · rw [andRecord_of_ne he]
  cases h with
  | pending waiting => exact .pending waiting
  | unnamed unnamed =>
    rcases hskip with hwaiting | hother
    · exact .pending hwaiting
    · exact .unnamed ((hlast hother).trans unnamed)
  | pulled free last mirrors =>
    rcases hskip with hwaiting | hother
    · rw [free] at hwaiting
      cases hwaiting
    · exact .pulled free ((hlast hother).trans last) mirrors

theorem Absorbs.refl (c : Cache) : Absorbs c (fun _ ↦ []) c :=
  ⟨rfl, .refl _, fun _ ↦ ⟨_, .unnamed rfl, Or.inl rfl⟩⟩

theorem Absorbs.pulls {pendingIds : List Uuid} (h : Absorbs c records t)
    (hpending : ∀ id, id ∈ pendingIds ↔ (c.outbox.entry (entity, id)).isSome)
    (hs : PullsRecord t entity pendingIds record t') :
    Absorbs c (andRecord records entity record) t' := by
  have houtbox : c.outbox.Remembers t.outbox fun k r ↦
      r ∈ andRecord records entity record k.1 ∧ recordId r = some k.2 :=
    h.outbox.mono fun k r hr ↦ ⟨subset_andRecord _ hr.1, hr.2⟩
  cases hs with
  | skipped nameless =>
    refine ⟨h.watermark, houtbox, fun k ↦ ?_⟩
    obtain ⟨o, hdue, hstays⟩ := h.row k
    exact ⟨o, hdue.skip (Or.inr (Or.inr (by simp [nameless]))), hstays.mono (subset_andRecord _)⟩
  | @kept id _ named pending remembered =>
    obtain ⟨hrows, hwatermark, hremembers⟩ := rememberConflict_remembers remembered
    refine ⟨hwatermark.trans h.watermark, houtbox.trans (hremembers.mono ?_), fun k ↦ ?_⟩
    · rintro k r ⟨rfl, rfl⟩
      exact ⟨by rw [andRecord_self]; exact List.mem_append_right _ List.mem_cons_self, named⟩
    · obtain ⟨o, hdue, hstays⟩ := h.row k
      refine ⟨o, hdue.skip ?_, ?_⟩
      · by_cases hk : k = (entity, id)
        · subst hk
          exact Or.inl ((hpending id).mp pending)
        · refine Or.inr ?_
          by_cases he : k.1 = entity
          · refine Or.inr fun hid ↦ hk (Prod.ext he ?_)
            exact (Option.some.inj (named.symm.trans hid)).symm
          · exact Or.inl he
      · have hrow : t'.row k = t.row k := row_of_rows hrows k
        rw [hrow]
        exact hstays.mono (subset_andRecord _)
  | @saved id columns named free built =>
    refine ⟨h.watermark, houtbox, fun k ↦ ?_⟩
    have hin : record ∈ andRecord records entity record entity := by
      rw [andRecord_self]
      exact List.mem_append_right _ List.mem_cons_self
    obtain ⟨o, hdue, hstays⟩ := h.row k
    by_cases hk : (entity, id) = k
    · subst hk
      refine ⟨some (serverRow (entity, id) record columns), ?_, Or.inl ?_⟩
      · refine .pulled (Option.not_isSome_iff_eq_none.mp fun hw ↦ free ((hpending id).mpr hw)) ?_
          (mirrors_serverRow built)
        rw [andRecord_self, lastNamed_append, if_pos named]
      · rw [row_takeRecord, if_pos rfl]
    · refine ⟨o, hdue.skip (Or.inr ?_), ?_⟩
      · by_cases he : k.1 = entity
        · refine Or.inr fun hid ↦ hk (Prod.ext he.symm ?_)
          exact Option.some.inj (named.symm.trans hid)
        · exact Or.inl he
      · refine (hstays.mono (subset_andRecord _)).takeRecord hk named built fun he ↦ ?_
        rw [← he]
        exact hin

theorem Absorbs.mem_pending (h : Absorbs c records t) (id : Uuid) :
    id ∈ t.store.pendingOutboxIds entity ↔ (c.outbox.entry (entity, id)).isSome := by
  rw [LocalStore.mem_pendingOutboxIds]
  exact Bool.eq_iff_iff.mp (h.outbox.refreshed.isSome_entry _)

theorem Absorbs.entities {l : List Dict} (h : Absorbs c records t) (hnone : records entity = [])
    (hs : (applyPullEntities entity l).eval t = some ((), t')) :
    Absorbs c (Function.update records entity l) t' := by
  refine Work.eval_forM_induction (P := fun done u ↦
    Absorbs c (Function.update records entity done) u) (applyPullEntities_eval hs) ?_
    fun done record u u' _ hu hstep ↦ ?_
  · rw [← hnone, Function.update_eq_self]
    exact h
  · have hnext := hu.pulls (fun id ↦ h.mem_pending id) (pullRecord_pulls hstep)
    rwa [andRecord, Function.update_self, Function.update_idem] at hnext

end Absorbs

end Cache

def Download.ofEntity (pull : Download) : Entity → List Dict
  | .risk => pull.records .risks
  | .opportunity => pull.records .opportunities
  | .action => pull.records .actions
  | .assessment => pull.records .assessments
  | .helpdeskTicket => pull.records .helpdeskTickets

namespace Cache

variable {c c' : Cache} {pull : Download}

theorem applyTickets_absorbs {t t' : Cache} {records : Entity → List Dict} {tickets : List Dict}
    (h : Absorbs c records t) (hnone : records .helpdeskTicket = [])
    (hs : (applyTickets tickets).eval t = some ((), t')) :
    Absorbs c (Function.update records .helpdeskTicket tickets) t' := by
  unfold applyTickets at hs
  split at hs
  · rename_i hempty
    obtain rfl : t = t' := congrArg Prod.snd (Option.some.inj hs)
    rw [List.isEmpty_iff.mp hempty, ← hnone, Function.update_eq_self]
    exact h
  · exact h.entities hnone hs

theorem applyPull_absorbs (h : (applyPull pull).eval c = some ((), c')) :
    ∃ t, Absorbs c pull.ofEntity t ∧ c' = { t with watermark := pull.serverSequence } := by
  rw [applyPull, Work.eval_writeTransaction] at h
  obtain ⟨⟨⟩, c₄, hloop, h⟩ := Work.bind_eval h
  rw [Work.eval_bind, Work.eval_check, Option.bind_some] at h
  obtain ⟨⟨⟩, c₅, htickets, h⟩ := Work.bind_eval h
  rw [Work.eval_bind, Work.eval_check, Option.bind_some] at h
  obtain rfl := setSyncWatermark_eval h
  refine ⟨c₅, ?_, rfl⟩
  obtain ⟨⟨⟩, c₁, h₁, hloop⟩ := Work.bind_eval hloop
  obtain ⟨⟨⟩, c₂, h₂, hloop⟩ := Work.bind_eval hloop
  obtain ⟨⟨⟩, c₃, h₃, hloop⟩ := Work.bind_eval hloop
  obtain ⟨⟨⟩, c₄', h₄, hloop⟩ := Work.bind_eval hloop
  obtain rfl : c₄' = c₄ := congrArg Prod.snd (Option.some.inj hloop)
  have phase : ∀ (key : PullKey) {u u' : Cache}, (do
      Work.check
      applyPullEntities key.entity (pull.records key)).eval u = some ((), u') →
      (applyPullEntities key.entity (pull.records key)).eval u = some ((), u') := fun _ _ _ h ↦ h
  have hrisks := (Absorbs.refl c).entities rfl (phase .risks h₁)
  have hopportunities := hrisks.entities rfl (phase .opportunities h₂)
  have hactions := hopportunities.entities rfl (phase .actions h₃)
  have hassessments := hactions.entities rfl (phase .assessments h₄)
  have hall := applyTickets_absorbs hassessments rfl htickets
  refine cast (congrArg (Absorbs c · c₅) (funext fun entity ↦ ?_)) hall
  cases entity <;> rfl

/-- What applying a record keeps, a pull keeps. -/
theorem applyPullEntities_induction {P : Cache → Prop} {entity : Entity} {l : List Dict}
    {t t' : Cache} (hs : (applyPullEntities entity l).eval t = some ((), t')) (ht : P t)
    (hstep : ∀ pendingIds, ∀ record ∈ l, ∀ u u', P u → PullsRecord u entity pendingIds record u' →
      P u') : P t' :=
  Work.eval_forM_induction (P := fun _ u ↦ P u) (applyPullEntities_eval hs) ht
    fun _ record u u' hr hu hrecord ↦ hstep _ record hr u u' hu (pullRecord_pulls hrecord)

theorem applyPull_induction {P : Cache → Prop} (h : (applyPull pull).eval c = some ((), c'))
    (hc : P c) (hmark : ∀ t w, P t → P { t with watermark := w })
    (hstep : ∀ entity pendingIds, ∀ record ∈ pull.ofEntity entity, ∀ u u', P u →
      PullsRecord u entity pendingIds record u' → P u') : P c' := by
  rw [applyPull, Work.eval_writeTransaction] at h
  obtain ⟨⟨⟩, c₄, hloop, h⟩ := Work.bind_eval h
  rw [Work.eval_bind, Work.eval_check, Option.bind_some] at h
  obtain ⟨⟨⟩, c₅, htickets, h⟩ := Work.bind_eval h
  rw [Work.eval_bind, Work.eval_check, Option.bind_some] at h
  obtain rfl := setSyncWatermark_eval h
  refine hmark _ _ ?_
  have hpages : P c₄ := by
    refine Work.eval_forM_induction (P := fun _ u ↦ P u) hloop hc fun _ key u u' _ hu hs ↦ ?_
    rw [Work.eval_bind, Work.eval_check, Option.bind_some] at hs
    refine applyPullEntities_induction hs hu fun pendingIds record hr ↦
      hstep key.entity pendingIds record ?_
    cases key <;> exact hr
  unfold applyTickets at htickets
  split at htickets
  · obtain rfl : c₄ = c₅ := congrArg Prod.snd (Option.some.inj htickets)
    exact hpages
  · exact applyPullEntities_induction htickets hpages (hstep .helpdeskTicket)

/-- What a pull that returns leaves: pending rows stay, the other named rows are the server's, and
of the outbox only saved server copies of conflicts change. -/
structure Pulled (c : Cache) (pull : Download) (c' : Cache) : Prop where
  pending : ∀ k, (c.outbox.entry k).isSome → Stays k (pull.ofEntity k.1) (c.row k) (c'.row k)
  outbox : c.outbox.Remembers c'.outbox fun k record ↦
    record ∈ pull.ofEntity k.1 ∧ recordId record = some k.2
  pulled : ∀ k record, c.outbox.entry k = none → lastNamed (pull.ofEntity k.1) k.2 = some record →
    ∃ r, Mirrors k record r ∧ Stays k (pull.ofEntity k.1) (some r) (c'.row k)
  others : ∀ k, lastNamed (pull.ofEntity k.1) k.2 = none →
    Stays k (pull.ofEntity k.1) (c.row k) (c'.row k)
  watermark : c'.watermark = pull.serverSequence

theorem applyPull_pulled (h : (applyPull pull).eval c = some ((), c')) : Pulled c pull c' := by
  obtain ⟨t, ht, rfl⟩ := applyPull_absorbs h
  refine ⟨fun k hk ↦ ?_, ht.outbox, fun k record hfree hlast ↦ ?_, fun k hlast ↦ ?_, rfl⟩
  · obtain ⟨o, hdue, hstays⟩ := ht.row k
    cases hdue with
    | pending waiting => exact hstays
    | unnamed unnamed => exact hstays
    | pulled free last mirrors =>
      rw [free] at hk
      cases hk
  · obtain ⟨o, hdue, hstays⟩ := ht.row k
    cases hdue with
    | pending waiting =>
      rw [hfree] at waiting
      cases waiting
    | unnamed unnamed => cases unnamed.symm.trans hlast
    | @pulled record' r free last mirrors =>
      obtain rfl : record' = record := Option.some.inj (last.symm.trans hlast)
      exact ⟨r, mirrors, hstays⟩
  · obtain ⟨o, hdue, hstays⟩ := ht.row k
    cases hdue with
    | pending waiting => exact hstays
    | unnamed unnamed => exact hstays
    | pulled free last mirrors => cases last.symm.trans hlast

/-- The pull code can read the record, and SQLite can store it. -/
structure Readable (entity : Entity) (record : Dict) : Prop where
  named : (recordId record).isSome
  project : entity = .action → normText (record.get .projectId) ≠ .null
  item : entity = .assessment → assessedItem record ≠ .null
  version : (versionOf record).isSome
  numbers : entity.scored = true → (pulledScored record).isSome
  binds : ∀ id (c : Cache) columns, c.pulledColumns entity record = some columns →
    (serverRow (entity, id) record columns).binds = true

theorem codeTaken_clearCodes (c : Cache) (k : EntityKey) (code : Val) :
    (c.updateRows (holdsCode k code) clearCode).codeTaken k code = false := by
  by_cases hcode : code = .null
  · simp [codeTaken, hcode]
  · have hnone : (c.updateRows (holdsCode k code) clearCode).rows.any (fun r ↦
        r.entity = k.1 && r.key ≠ k && r.columns .code = code) = false := by
      rw [List.any_eq_false]
      intro r' hr'
      obtain ⟨r, -, rfl⟩ := List.mem_map.mp hr'
      split
      · have hcleared : (clearCode r).columns .code = .null := by
          simp [clearCode, CachedRow.setColumn]
        simp [hcleared, Ne.symm hcode]
      · rename_i hholds
        intro hmine
        simp only [Bool.and_eq_true, decide_eq_true_eq] at hmine
        refine hholds ?_
        simp only [holdsCode, Bool.and_eq_true, decide_eq_true_eq]
        exact ⟨⟨⟨hmine.1.1, hcode⟩, hmine.2⟩, fun hid ↦ hmine.1.2 (Prod.ext hmine.1.1 hid)⟩
    rw [codeTaken, hnone, Bool.and_false]

theorem rememberConflict_returns (k : EntityKey) {record : Dict}
    (hversion : (versionOf record).isSome) (t : Cache) :
    ∃ t', (rememberConflict k record).eval t = some ((), t') := by
  obtain ⟨version, hversion⟩ := Option.isSome_iff_exists.mp hversion
  rw [rememberConflict, Work.eval_bind, Work.eval_select, Option.bind_some]
  cases t.outbox.find? fun e ↦ e.key = k && e.inConflict with
  | none => exact ⟨t, rfl⟩
  | some e =>
    dsimp only
    rw [hversion]
    exact ⟨_, rfl⟩

theorem keepOrSave_returns {k : EntityKey} {pendingIds : List Uuid} {record : Dict}
    {save : Work Cache Unit} {t : Cache} (hversion : (versionOf record).isSome)
    (h : ∃ t', save.eval t = some ((), t')) :
    ∃ t', (keepOrSave k pendingIds record save).eval t = some ((), t') := by
  unfold keepOrSave
  split
  · exact rememberConflict_returns k hversion t
  · exact h

theorem pullScored_returns {entity : Entity} {record : Dict} {pendingIds : List Uuid} {t : Cache}
    (hs : entity.scored = true) (h : Readable entity record) :
    ∃ t', (pullScored entity pendingIds record).eval t = some ((), t') := by
  obtain ⟨id, hid⟩ := Option.isSome_iff_exists.mp h.named
  obtain ⟨columns, hcolumns⟩ := Option.isSome_iff_exists.mp (h.numbers hs)
  obtain ⟨version, hversion⟩ := Option.isSome_iff_exists.mp h.version
  have hbinds := h.binds id t columns (by cases entity <;> first | exact hcolumns | cases hs)
  rw [pullScored, hid, Work.eval_bind, Work.eval_ofOption, Option.map_some, Option.bind_some,
    hversion, Work.eval_bind, Work.eval_ofOption, Option.map_some, Option.bind_some]
  refine keepOrSave_returns h.version ⟨t.takeRecord (entity, id) record columns, ?_⟩
  rw [Work.eval_bind, hcolumns, Work.eval_ofOption, Option.map_some, Option.bind_some,
    Work.eval_bind, changeRows, Work.eval_modify, Option.bind_some, upsertRow, Work.eval_statement,
    hbinds]
  exact if_neg (Bool.eq_false_iff.mp (codeTaken_clearCodes t (entity, id) (columns .code)))

theorem upsertRow_returns {r : CachedRow} {t : Cache} (hs : r.key.1.scored = false)
    (hbinds : r.binds = true) : ∃ t', (upsertRow r).eval t = some ((), t') := by
  refine ⟨t.saveRow r, ?_⟩
  rw [upsertRow, Work.eval_statement, hbinds, codeTaken, hs]
  rfl

theorem pullRecord_returns {entity : Entity} {record : Dict} {pendingIds : List Uuid}
    (h : Readable entity record) (t : Cache) :
    ∃ t', (pullRecord entity pendingIds record).eval t = some ((), t') := by
  obtain ⟨id, hid⟩ := Option.isSome_iff_exists.mp h.named
  cases entity with
  | risk => exact pullScored_returns rfl h
  | opportunity => exact pullScored_returns rfl h
  | action =>
    have hproject : decide (normText (record.get .projectId) ≠ .null) = true :=
      decide_eq_true (h.project rfl)
    rw [pullRecord, pullAction, hid, hproject, Work.eval_bind, Work.eval_ofOption, Option.map_some,
      Option.bind_some, Work.eval_bind, Work.eval_require, if_pos rfl, Option.bind_some]
    exact keepOrSave_returns h.version (upsertRow_returns rfl (h.binds id t _ rfl))
  | assessment =>
    have hitem : decide (assessedItem record ≠ .null) = true := decide_eq_true (h.item rfl)
    rw [pullRecord, pullAssessment, hid, hitem, Work.eval_bind, Work.eval_ofOption,
      Option.map_some, Option.bind_some, Work.eval_bind, Work.eval_require, if_pos rfl,
      Option.bind_some]
    refine keepOrSave_returns h.version ?_
    rw [Work.eval_bind, eval_inferAssessmentItemType, Option.bind_some]
    exact upsertRow_returns rfl (h.binds id t _ rfl)
  | helpdeskTicket =>
    obtain ⟨version, hversion⟩ := Option.isSome_iff_exists.mp h.version
    rw [pullRecord, pullTicket, hid]
    refine keepOrSave_returns h.version ?_
    rw [hversion, Work.eval_bind, Work.eval_ofOption, Option.map_some, Option.bind_some]
    exact upsertRow_returns rfl (h.binds id t _ rfl)

theorem applyPullEntities_returns {entity : Entity} {l : List Dict}
    (h : ∀ record ∈ l, Readable entity record) (t : Cache) :
    ∃ t', (applyPullEntities entity l).eval t = some ((), t') := by
  obtain ⟨t', ht'⟩ := Work.eval_forM_total (f := pullRecord entity
      (t.store.pendingOutboxIds entity))
    (fun record hr u ↦ pullRecord_returns (h record hr) u) t
  refine ⟨t', ?_⟩
  unfold applyPullEntities
  split
  · exact ht'
  · rw [Work.eval_bind, Work.eval_select, Option.bind_some, Work.eval_bind, ht', Option.bind_some]
    rfl

theorem applyPull_returns (h : ∀ entity, ∀ record ∈ pull.ofEntity entity, Readable entity record)
    (hsequence : fits pull.serverSequence = true) (c : Cache) :
    (applyPull pull).returned [] c = true := by
  have hkeys : ∀ key ∈ [PullKey.risks, .opportunities, .actions, .assessments], ∀ t : Cache,
      ∃ t', (do
        Work.check
        applyPullEntities key.entity (pull.records key)).eval t = some ((), t') := by
    intro key _ t
    have hrecords : pull.records key = pull.ofEntity key.entity := by cases key <;> rfl
    exact applyPullEntities_returns (hrecords ▸ h key.entity) t
  obtain ⟨c₁, hloop⟩ := Work.eval_forM_total hkeys c
  obtain ⟨c₂, htickets⟩ : ∃ c₂, (applyTickets (pull.records .helpdeskTickets)).eval c₁ =
      some ((), c₂) := by
    unfold applyTickets
    split
    · exact ⟨c₁, rfl⟩
    · exact applyPullEntities_returns (h .helpdeskTicket) c₁
  refine (@Work.writeTransaction_completed _ _ _ _ { c₂ with watermark := pull.serverSequence } ()
    ?_).1
  rw [Work.eval_bind, hloop, Option.bind_some, Work.eval_bind, Work.eval_check, Option.bind_some,
    Work.eval_bind, htickets, Option.bind_some, Work.eval_bind, Work.eval_check, Option.bind_some,
    setSyncWatermark, Work.eval_bind, Work.eval_statement, if_pos hsequence, Option.bind_some]
  rfl

end Cache

def blankRisk : Dict := .ofList [(.id, .uuid 1), (.projectId, .uuid 2), (.code, .str "R-001"),
  (.title, .str "Delay"), (.description, .str "late "), (.probability, .int 2),
  (.impact, .int 3), (.version, .int 4)]

def blankPull : Download where
  records key := if key = .risks then [blankRisk] else []
  serverSequence := 9

end RiskApp.Client
