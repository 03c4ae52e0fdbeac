import RiskApp.Server.Reachable
import RiskApp.Server.Written

namespace RiskApp.Server

open Lib Lib.Result

/-- `s` is the stored row of a flushed object: the listener has computed its scores, its times are
naive, and in a new row the defaults of the columns replace the nulls. -/
structure Flushed (obj : Row) (new : Bool) (now : Time) (s : Row) : Prop where
  written : ∃ s₀ n, computeScore obj = .ok s₀ ∧
    s = if new then Row.withDefaults { s₀.naive with changeSequence := n } now
      else { s₀.naive with changeSequence := n }
  notNull : ∀ a ∈ obj.table.notNull, s.attrs a ≠ .null

section Flush

variable {d d' : Data} {obj s : Row} {new : Bool} {now : Time}

namespace Flushed

theorem table (h : Flushed obj new now s) : s.table = obj.table := by
  obtain ⟨s₀, n, hscore, rfl⟩ := h.written
  have := (computeScore_ok hscore).table
  split <;> exact this

theorem key (h : Flushed obj new now s) : s.key = obj.key := by
  obtain ⟨s₀, n, hscore, rfl⟩ := h.written
  have := (computeScore_ok hscore).key
  split <;> exact this

theorem naive_of_ne (h : Flushed obj new now s) {a : Attr} (ha : a ≠ .score)
    (hne : obj.attrs a ≠ .null) : s.attrs a = obj.naive.attrs a := by
  obtain ⟨s₀, n, hscore, rfl⟩ := h.written
  have hs := (computeScore_ok hscore).naive ha
  split
  · rw [Row.withDefaults_attrs now (by rw [hs]; exact Row.naive_attrs_eq_null.not.mpr hne)]
    exact hs
  · exact hs

theorem naive_updated (h : Flushed obj false now s) {a : Attr} (ha : a ≠ .score) :
    s.attrs a = obj.naive.attrs a := by
  obtain ⟨s₀, n, hscore, rfl⟩ := h.written
  exact (computeScore_ok hscore).naive ha

theorem naive_without_default (h : Flushed obj new now s) {a : Attr} (ha : a ≠ .score)
    (hdefault : a ∉ (obj.table.columnDefaults now).map Prod.fst) :
    s.attrs a = obj.naive.attrs a := by
  by_cases hne : obj.attrs a = .null
  · obtain ⟨s₀, n, hscore, rfl⟩ := h.written
    have hs := computeScore_ok hscore
    have hnull := (hs.naive ha).trans (Row.naive_attrs_eq_null.mpr hne)
    rw [Row.naive_attrs_eq_null.mpr hne]
    split
    · have hfind : (s₀.table.columnDefaults now).find? (fun d ↦ d.1 = a) = none := by
        rw [← s₀.naive_table, hs.table, List.find?_eq_none]
        intro f hf he
        exact hdefault (List.mem_map.mpr ⟨f, hf, of_decide_eq_true he⟩)
      simp [Row.withDefaults, hnull, hfind]
    · exact hnull
  · exact h.naive_of_ne ha hne

theorem attrs_of_ne (h : Flushed obj new now s) {a : Attr} (ha : a ∉ flushedAttrs)
    (hne : obj.attrs a ≠ .null) : s.attrs a = obj.attrs a := by
  rw [flushedAttrs, List.mem_cons, not_or] at ha
  rw [h.naive_of_ne ha.1 hne, Row.naive_attrs_of_not_mem ha.2]

theorem attrs_updated (h : Flushed obj false now s) {a : Attr} (ha : a ∉ flushedAttrs) :
    s.attrs a = obj.attrs a := by
  rw [flushedAttrs, List.mem_cons, not_or] at ha
  rw [h.naive_updated ha.1, Row.naive_attrs_of_not_mem ha.2]

theorem attrs_without_default (h : Flushed obj new now s) {a : Attr} (ha : a ∉ flushedAttrs)
    (hdefault : a ∉ (obj.table.columnDefaults now).map Prod.fst) : s.attrs a = obj.attrs a := by
  rw [flushedAttrs, List.mem_cons, not_or] at ha
  rw [h.naive_without_default ha.1 hdefault, Row.naive_attrs_of_not_mem ha.2]

theorem attrs_default (h : Flushed obj true now s) {a : Attr} (ha : a ≠ .score)
    (hnull : obj.attrs a = .null) {v : Val}
    (hdefault : fieldOf (obj.table.columnDefaults now) a = some v) : s.attrs a = v := by
  obtain ⟨s₀, n, hscore, rfl⟩ := h.written
  have hs := computeScore_ok hscore
  have htable : s₀.table = obj.table := hs.table
  have hfind : ((obj.table.columnDefaults now).find? (fun d ↦ d.1 = a)).map Prod.snd = some v :=
    hdefault
  simp [Row.withDefaults, hs.naive ha, Row.naive_attrs_eq_null.mpr hnull, htable, hfind]

end Flushed

theorem admits_notNull {r : Row} (h : d.admits r = true) :
    ∀ a ∈ r.table.notNull, r.attrs a ≠ .null := by
  intro a ha
  simp only [Data.admits, Bool.and_eq_true] at h
  exact of_decide_eq_true (List.all_eq_true.mp h.1.1.1.1 a ha)

theorem beforeWrite_scores {r : Row} (h : beforeWrite d obj = .ok (d', r)) :
    d'.rows = d.rows ∧ ∃ s₀ n, computeScore obj = .ok s₀ ∧
      r = { s₀.naive with changeSequence := n } := by
  obtain ⟨s₀, hscore, hassign⟩ := bind_ok h
  unfold assignChangeSequence at hassign
  split at hassign
  · cases hassign
  · split at hassign
    · cases hassign
    · cases hassign
      exact ⟨rfl, s₀, _, hscore, rfl⟩

theorem flushInsert_flushed (h : flushInsert d obj now = .ok d') :
    ∃ s, Flushed obj true now s ∧ d'.rows = d.rows ++ [s] := by
  obtain ⟨⟨d₁, r⟩, hwrite, h⟩ := bind_ok h
  obtain ⟨_, -, h⟩ := bind_ok h
  obtain ⟨_, hreq, h⟩ := bind_ok h
  cases h
  obtain ⟨hrows, s₀, n, hscore, rfl⟩ := beforeWrite_scores hwrite
  obtain ⟨hadmits, -⟩ := Bool.and_eq_true _ _ ▸ require_ok hreq
  refine ⟨_, ⟨⟨s₀, n, hscore, rfl⟩, fun a ha ↦ ?_⟩, by rw [← hrows]; rfl⟩
  rw [← (computeScore_ok hscore).table] at ha
  exact admits_notNull hadmits a ha

theorem flushUpdate_flushed (h : flushUpdate d obj = .ok d') :
    ∃ s, (∀ now, Flushed obj false now s) ∧ d'.rows = Table.replace Row.key s d.rows := by
  obtain ⟨⟨d₁, r⟩, hwrite, h⟩ := bind_ok h
  obtain ⟨_, -, h⟩ := bind_ok h
  obtain ⟨_, hadmits, h⟩ := bind_ok h
  cases h
  obtain ⟨hrows, s₀, n, hscore, rfl⟩ := beforeWrite_scores hwrite
  refine ⟨_, fun now ↦ ⟨⟨s₀, n, hscore, rfl⟩, fun a ha ↦ ?_⟩, by rw [← hrows]⟩
  rw [← (computeScore_ok hscore).table] at ha
  exact admits_notNull (require_ok hadmits) a ha

theorem flushInsert_audit (h : flushInsert d obj now = .ok d') : d'.audit = d.audit := by
  obtain ⟨p, n, r', -, -, -, -, -, rfl⟩ := flushInsert_ok h
  rfl

theorem flushUpdate_audit (h : flushUpdate d obj = .ok d') : d'.audit = d.audit := by
  obtain ⟨p, n, r', -, -, -, -, rfl⟩ := flushUpdate_ok h
  rfl

/-- The rows of `d'` are those of `d`, and one that an object was flushed to. -/
def Wrote (d d' : Data) (obj : Row) (new : Bool) (now : Time) : Prop :=
  ∃ s, Flushed obj new now s ∧ ∀ x ∈ d'.rows, x = s ∨ x ∈ d.rows

theorem flushInsert_wrote (h : flushInsert d obj now = .ok d') : Wrote d d' obj true now := by
  obtain ⟨s, hs, hrows⟩ := flushInsert_flushed h
  refine ⟨s, hs, fun x hx ↦ ?_⟩
  rw [hrows] at hx
  exact (List.mem_append.mp hx).symm.imp_left List.mem_singleton.mp

theorem flushUpdate_wrote (h : flushUpdate d obj = .ok d') (now : Time) :
    Wrote d d' obj false now := by
  obtain ⟨s, hs, hrows⟩ := flushUpdate_flushed h
  refine ⟨s, hs now, fun x hx ↦ ?_⟩
  rw [hrows] at hx
  exact (Table.mem_replace Row.key hx).imp_right And.left

theorem flushUpdate_claimed_wrote {r : Row} (hkey : obj.key = r.key) {t : Time}
    (h : flushUpdate { d with rows := Table.replace Row.key (r.claim t) d.rows } obj = .ok d')
    (now : Time) : Wrote d d' obj false now := by
  obtain ⟨s, hs, hrows⟩ := flushUpdate_flushed h
  have hsame : (r.claim t).key = s.key := ((hs now).key.trans hkey).symm
  refine ⟨s, hs now, fun x hx ↦ ?_⟩
  have hx : x ∈ Table.replace Row.key s (Table.replace Row.key (r.claim t) d.rows) := hrows ▸ hx
  rw [Table.replace_replace Row.key _ hsame] at hx
  exact (Table.mem_replace Row.key hx).imp_right And.left

end Flush

section Writes

/-- The object that an accepted change flushes. -/
inductive SyncChange.Writes (conv : Conv) (d : Data) (userId projectId : Uuid)
    (change : SyncChange) (now : Time) : Row → Bool → Prop
  | created {entityId obj} (op : change.op = .upsert)
      (named : parseUuid conv "record.id" (change.record.get .id) = .ok entityId)
      (missing : fetchObj d change.entity entityId projectId = none)
      (made : createNew conv d userId projectId change.entity entityId change.record now =
        .ok obj) :
      Writes conv d userId projectId change now obj true
  | updated {entityId r val} (op : change.op = .upsert)
      (named : parseUuid conv "record.id" (change.record.get .id) = .ok entityId)
      (found : fetchObj d change.entity entityId projectId = some r)
      (parsed : parseRecord conv change.entity change.record = .ok val) :
      Writes conv d userId projectId change now (r.update val now) false
  | deleted {entityId r} (op : change.op = .delete)
      (named : parseUuid conv "record.id" (change.record.get .id) = .ok entityId)
      (found : fetchObj d change.entity entityId projectId = some r) :
      Writes conv d userId projectId change now (r.softDelete now) false

variable {conv : Conv} {d d' : Data} {userId projectId : Uuid} {change : SyncChange} {now : Time}

/-- The entry that `_audit` adds for an object before it is flushed. -/
def SyncChange.entry (change : SyncChange) (userId projectId : Uuid) (now : Time) (d : Data)
    (obj : Row) : AuditLog :=
  ⟨now, userId, projectId, change.changeId, change.entity, obj.id, change.op,
    (d.row obj.key).map modelToDict, modelToDict obj⟩

/-- The data `d'` are `d` with the object stored and its entry added to the log. -/
structure Saved (d d' : Data) (obj : Row) (new : Bool) (now : Time) (entry : AuditLog) (s : Row) :
    Prop where
  flushed : Flushed obj new now s
  audit : d'.audit = d.audit ++ [entry]
  rows : d'.rows = if new then d.rows ++ [s] else Table.replace Row.key s d.rows
  fresh : new = true ↔ d.row obj.key = none

theorem Saved.wrote {obj s : Row} {new : Bool} {entry : AuditLog}
    (h : Saved d d' obj new now entry s) : Wrote d d' obj new now := by
  refine ⟨s, h.flushed, fun x hx ↦ ?_⟩
  rw [h.rows] at hx
  split at hx
  · exact (List.mem_append.mp hx).symm.imp_left List.mem_singleton.mp
  · exact (Table.mem_replace Row.key hx).imp_right And.left

/-- The claim of a row, the flush of its new state and the entry for it. -/
theorem saved_claimed {r obj : Row} (hr : d.row r.key = some r) (hkey : obj.key = r.key) {t : Time}
    {entry : AuditLog}
    (h : flush { d with rows := Table.replace Row.key (r.claim t) d.rows } now
      (some ⟨obj, false, entry⟩) = .ok d') : ∃ s, Saved d d' obj false now entry s := by
  obtain ⟨d₁, hwrite, rfl⟩ := map_ok h
  obtain ⟨s, hs, hrows⟩ := flushUpdate_flushed hwrite
  have hsame : (r.claim t).key = s.key := ((hs now).key.trans hkey).symm
  refine ⟨s, hs now, congrArg (· ++ [entry]) (flushUpdate_audit hwrite :), ?_, ?_⟩
  · exact hrows.trans (Table.replace_replace Row.key _ hsame)
  · rw [hkey, hr]
    simp

theorem applyChange_saved {entityId : Uuid}
    (h : applyChange conv d userId projectId change now = .ok (d', entityId)) :
    (d' = d ∧ change.op = .delete ∧ fetchObj d change.entity entityId projectId = none) ∨
    ∃ obj new s, change.Writes conv d userId projectId now obj new ∧
      obj.key = (change.entity.table, entityId) ∧
      Saved d d' obj new now (change.entry userId projectId now d obj) s := by
  obtain ⟨⟨d₁, id, write⟩, happly, h⟩ := bind_ok h
  obtain ⟨d₂, hflush, h⟩ := bind_ok h
  cases h
  have hentry : ∀ {obj : Row} {before : Option Dict}, obj.key = (change.entity.table, entityId) →
      before = (d.row obj.key).map modelToDict →
      (⟨now, userId, projectId, change.changeId, change.entity, entityId, change.op, before,
        modelToDict obj⟩ : AuditLog) = change.entry userId projectId now d obj := by
    intro obj before hkey hbefore
    have hid : obj.id = entityId := congrArg Prod.snd hkey
    rw [SyncChange.entry, hid, hbefore]
  cases hop : change.op with
  | upsert =>
    rw [hop] at hentry
    simp only [applyOp, hop] at happly
    obtain ⟨i, hid, happly⟩ := bind_ok happly
    cases hobj : fetchObj d change.entity i projectId with
    | none =>
      simp only [hobj] at happly
      obtain ⟨obj, hnew, happly⟩ := bind_ok happly
      cases happly
      have hkey := (createNew_ok hnew).1
      obtain ⟨d₃, hinsert, rfl⟩ := map_ok hflush
      obtain ⟨p, n, r', -, -, -, hfresh, -, -⟩ := flushInsert_ok hinsert
      obtain ⟨s, hs, hrows⟩ := flushInsert_flushed hinsert
      refine Or.inr ⟨obj, true, s, .created hop hid hobj hnew, hkey, hs, ?_, hrows,
        iff_of_true rfl hfresh⟩
      exact congrArg₂ (fun entries entry ↦ entries ++ [entry]) (flushInsert_audit hinsert)
        (hentry hkey (by rw [hfresh]; rfl))
    | some r =>
      simp only [hobj] at happly
      obtain ⟨claimed, hclaim, happly⟩ := bind_ok happly
      obtain ⟨obj, hupdate, happly⟩ := bind_ok happly
      cases happly
      obtain ⟨-, -, -, rfl⟩ := claimExisting_ok hobj hclaim
      have hrow := (fetchObj_some hobj).1
      have hrkey : r.key = (change.entity.table, entityId) := Table.key_of_find Row.key hrow
      have hkey := (updateExisting_ok hupdate).1.key
      obtain ⟨val, hval, hupdate⟩ := bind_ok hupdate
      obtain ⟨_, -, hupdate⟩ := bind_ok hupdate
      cases hupdate
      obtain ⟨s, hsaved⟩ := saved_claimed (hrkey ▸ hrow) hkey hflush
      rw [hentry (hkey.trans hrkey) (by rw [hkey, hrkey, hrow]; rfl)] at hsaved
      exact Or.inr ⟨_, false, s, .updated hop hid hobj hval, hkey.trans hrkey, hsaved⟩
  | delete =>
    rw [hop] at hentry
    simp only [applyOp, hop] at happly
    obtain ⟨i, hid, happly⟩ := bind_ok happly
    cases hobj : fetchObj d change.entity i projectId with
    | none =>
      simp only [hobj] at happly
      cases happly
      cases hflush
      exact Or.inl ⟨rfl, rfl, hobj⟩
    | some r =>
      simp only [hobj] at happly
      obtain ⟨claimed, hclaim, happly⟩ := bind_ok happly
      cases happly
      obtain ⟨-, -, -, rfl⟩ := claimExisting_ok hobj hclaim
      have hrow := (fetchObj_some hobj).1
      have hrkey : r.key = (change.entity.table, entityId) := Table.key_of_find Row.key hrow
      have hkey := (r.keeps_softDelete now).key
      obtain ⟨s, hsaved⟩ := saved_claimed (hrkey ▸ hrow) hkey hflush
      rw [hentry (hkey.trans hrkey) (by rw [hkey, hrkey, hrow]; rfl)] at hsaved
      exact Or.inr ⟨_, false, s, .deleted hop hid hobj, hkey.trans hrkey, hsaved⟩

end Writes

section Calls

variable {d d' : Data} {userId projectId : Uuid}

theorem Patch.run_wrote {p : Patch} {notFoundDetail : Option String}
    {check : Data → Except PushError Unit} (h : p.run d notFoundDetail check = .ok d')
    (now : Time) : ∃ r ∈ d.rows, r.table = p.table ∧ p.selects r = true ∧
      (r.version : ℤ) = p.base ∧ Wrote d d' (p.edit (r.claim p.now)) false now := by
  obtain ⟨r, hr, htable, hsel, hbase, -, h⟩ := Patch.run_ok h
  have hkey := ((r.keeps_claim p.now).trans (p.keeps _)).key
  exact ⟨r, hr, htable, hsel, hbase, flushUpdate_claimed_wrote hkey h now⟩

theorem Removal.run_wrote {m : Removal} (h : m.run d = .ok d') (now : Time) :
    ∃ r ∈ d.rows, r.table = m.table ∧ m.selects r = true ∧
      Wrote d d' (r.softDelete m.now) false now := by
  obtain ⟨r, hr, ht, hsel, h⟩ := Removal.run_ok h
  exact ⟨r, hr, ht, hsel, flushUpdate_wrote h now⟩

/-- The object that a call of the item routes flushes. -/
inductive ItemCall.Writes (d : Data) (userId projectId : Uuid) (itemType : Entity)
    (scored : itemType.scored = true) (now : Time) : ItemCall → Row → Bool → Prop
  | createObj {payload newId newCode new}
      (made : Server.createItem userId projectId payload newId now itemType scored newCode =
        .ok new) :
      Writes d userId projectId itemType scored now (.createObj payload newId newCode) new.row true
  | updateObj {itemId payload baseVersion changes r}
      (valid : validatedChanges payload = .ok changes) (found : r ∈ d.rows)
      (table : r.table = .items) (selected : itemWhere projectId itemId (some itemType) r = true)
      (current : (r.version : ℤ) = baseVersion) :
      Writes d userId projectId itemType scored now (.updateObj itemId payload baseVersion)
        (editItem now changes (r.claim now)) false
  | deleteObj {itemId r} (found : r ∈ d.rows) (table : r.table = .items)
      (selected : itemWhere projectId itemId (some itemType) r = true) :
      Writes d userId projectId itemType scored now (.deleteObj itemId) (r.softDelete now) false
  | createAssessment {itemId payload baseVersion newId} :
      Writes d userId projectId itemType scored now
        (.upsertMyAssessment itemId payload baseVersion newId)
        (Server.createAssessment itemId userId payload now newId).row true
  | updateAssessment {itemId payload baseVersion newId r} (found : r ∈ d.rows)
      (table : r.table = .assessments) (current : (r.version : ℤ) = baseVersion) :
      Writes d userId projectId itemType scored now
        (.upsertMyAssessment itemId payload baseVersion newId)
        (editAssessment payload now (r.claim now)) false
  | action {call obj new} (table : obj.table = .actions) :
      Writes d userId projectId itemType scored now call obj new

theorem ItemCall.run_writes {itemType : Entity} {scored : itemType.scored = true} {now : Time}
    {call : ItemCall} (h : call.run userId projectId itemType scored now d = .ok d') :
    ∃ obj new, call.Writes d userId projectId itemType scored now obj new ∧
      Wrote d d' obj new now := by
  obtain ⟨_, -, h⟩ := bind_ok h
  cases call with
  | createObj payload newId newCode =>
    obtain ⟨new, hnew, h⟩ := bind_ok h
    have hnow : new.now = now := by
      obtain ⟨_, -, hnew⟩ := bind_ok hnew
      cases hnew
      rfl
    exact ⟨_, _, .createObj hnew, hnow ▸ flushInsert_wrote h⟩
  | updateObj itemId payload baseVersion =>
    obtain ⟨p, hp, h⟩ := bind_ok h
    unfold Server.updateItem at hp
    split at hp
    · cases hp
    · rename_i changes hchanges
      cases hp
      obtain ⟨r, hr, htable, hsel, hbase, hwrote⟩ := Patch.run_wrote h now
      exact ⟨_, _, .updateObj hchanges hr htable hsel hbase, hwrote⟩
  | deleteObj itemId =>
    obtain ⟨r, hr, htable, hsel, hwrote⟩ := Removal.run_wrote h now
    exact ⟨_, _, .deleteObj hr htable hsel, hwrote⟩
  | upsertMyAssessment itemId payload baseVersion newId =>
    obtain ⟨_, -, h⟩ := bind_ok h
    simp only at h
    split at h
    · obtain ⟨_, -, h⟩ := bind_ok h
      exact ⟨_, _, .createAssessment, flushInsert_wrote h⟩
    · obtain ⟨r, hr, htable, -, hbase, hwrote⟩ := Patch.run_wrote h now
      exact ⟨_, _, .updateAssessment hr htable hbase, hwrote⟩
  | createAction payload newId =>
    obtain ⟨_, -, h⟩ := bind_ok h
    exact ⟨_, _, .action (Row.setAll_table _ _), flushInsert_wrote h⟩
  | updateAction actionId payload baseVersion =>
    obtain ⟨p, hp, h⟩ := bind_ok h
    have htable : p.table = .actions := by
      obtain ⟨_, -, hp⟩ := bind_ok hp
      obtain ⟨_, -, hp⟩ := bind_ok hp
      obtain ⟨_, -, hp⟩ := bind_ok hp
      obtain ⟨_, -, hp⟩ := bind_ok hp
      cases hp
      rfl
    obtain ⟨r, hr, ht, -, -, hwrote⟩ := Patch.run_wrote h now
    refine ⟨_, _, .action ?_, hwrote⟩
    rw [((r.keeps_claim p.now).trans (p.keeps _)).table, ht, htable]
  | deleteAction actionId =>
    obtain ⟨r, hr, ht, -, hwrote⟩ := Removal.run_wrote h now
    exact ⟨_, _, .action ((r.keeps_softDelete _).table.trans ht), hwrote⟩

theorem TicketCall.run_writes {now : Time} {call : TicketCall}
    (h : call.run userId projectId now d = .ok d') :
    ∃ obj new, obj.table = .helpdeskTickets ∧ Wrote d d' obj new now := by
  obtain ⟨_, -, h⟩ := bind_ok h
  cases call with
  | createHelpdeskTicket payload newId =>
    exact ⟨_, _, Row.setAll_table _ _, flushInsert_wrote h⟩
  | updateHelpdeskTicket ticketId payload baseVersion =>
    obtain ⟨p, hp, h⟩ := bind_ok h
    obtain ⟨_, -, hp⟩ := bind_ok hp
    cases hp
    obtain ⟨r, hr, ht, -, -, hwrote⟩ := Patch.run_wrote h now
    refine ⟨_, _, ?_, hwrote⟩
    rw [((r.keeps_claim _).trans (keeps_editRow now (fun f hf ↦ ?_) _)).table, ht]
    have hfixed : ∀ a ∈ helpDeskTicketUpdate, a ∉ fixedAttrs := by decide
    exact hfixed f.1 (mem_modelDump hf)
  | deleteHelpdeskTicket ticketId =>
    obtain ⟨_, -, h⟩ := bind_ok h
    obtain ⟨r, hr, ht, -, hwrote⟩ := Removal.run_wrote h now
    exact ⟨_, _, (r.keeps_softDelete _).table.trans ht, hwrote⟩

end Calls

section Runs

/-- What a request body holds once its schema has accepted it: values of the declared types, and
nulls where no value is required. -/
def Conforms (declared : List (Attr × FieldType)) (required : List Attr) (payload : Dict) : Prop :=
  (∀ f ∈ declared, ∀ v, payload f.1 = some v → v = .null ∨ f.2.parse Conv.strict v = some v) ∧
    ∀ a ∈ required, payload.get a ≠ .null

instance (declared : List (Attr × FieldType)) (required : List Attr) (payload : Dict) :
    Decidable (Conforms declared required payload) :=
  decidable_of_iff
    ((∀ f ∈ declared, ∀ v ∈ (payload f.1).toList, v = .null ∨ f.2.parse Conv.strict v = some v) ∧
      ∀ a ∈ required, payload.get a ≠ .null)
    (by simp [Conforms])

def itemFields (minTitle : ℕ) : List (Attr × FieldType) :=
  itemShared ++ [(.title, .text minTitle 300), (.probability, .scale), (.impact, .scale)]

def ItemCall.Conforms : ItemCall → Prop
  | createObj payload _ _ => Server.Conforms (itemFields 1) [.title, .probability, .impact] payload
  | updateObj _ payload _ => Server.Conforms (itemFields 0) [] payload
  | upsertMyAssessment _ payload _ _ =>
    Server.Conforms [(.probability, .scale), (.impact, .scale)] [.probability, .impact] payload
  | _ => True

/-- A condition on every accepted change and on every successful call of the item routes, each on
the data that it meets. -/
structure Terms where
  change : Data → Uuid → Uuid → SyncChange → Time → Prop
  call : Data → Uuid → Uuid → Entity → Time → ItemCall → Prop

def Terms.none : Terms := ⟨fun _ _ _ _ _ ↦ True, fun _ _ _ _ _ _ ↦ True⟩

variable {Digest : Type} [DecidableEq Digest] (conv : Conv) (sha : Payload → Digest)

/-- Every change of the batch that is accepted meets the terms at its turn. -/
def PushContext.Meets (terms : Terms) (ctx : PushContext Digest) :
    List (SyncChange × Time) → Prop
  | [] => True
  | c :: cs =>
    (ctx.seen c.1.changeId = false → (ctx.outcome conv c).status = .accepted →
      terms.change ctx.db.data ctx.userId ctx.projectId c.1 c.2) ∧
    (ctx.step conv sha c).Meets terms cs

/-- The databases that a server without rows reaches when all its steps meet the terms. -/
inductive ReachableOn (terms : Terms) : Db Digest → Prop
  | empty {data : Data} (rows : data.rows = []) : ReachableOn terms ⟨data, []⟩
  | push {db db' userId projectId changes results} (before : ReachableOn terms db)
      (run : pushChanges conv sha db userId projectId changes = .ok (db', results))
      (meets : ∀ role, db.data.getMemberRole projectId userId = some role →
        (PushContext.start db userId projectId role changes).Meets conv sha terms changes) :
      ReachableOn terms db'
  | item {db userId projectId itemType scored now data} {call : ItemCall}
      (before : ReachableOn terms db) (conforms : call.Conforms)
      (run : call.run userId projectId itemType scored now db.data = .ok data)
      (meets : terms.call db.data userId projectId itemType now call) :
      ReachableOn terms ⟨data, db.receipts⟩
  | ticket {db userId projectId now data} {call : TicketCall} (before : ReachableOn terms db)
      (run : call.run userId projectId now db.data = .ok data) :
      ReachableOn terms ⟨data, db.receipts⟩
  | administer {db data} (before : ReachableOn terms db) (rows : data.rows = db.data.rows) :
      ReachableOn terms ⟨data, db.receipts⟩
  | prune {db receipts} (before : ReachableOn terms db) (kept : receipts.Sublist db.receipts) :
      ReachableOn terms ⟨db.data, receipts⟩
  | deleteProject {db} (p : Uuid) (before : ReachableOn terms db) :
      ReachableOn terms (db.deleteProject p)

/-- A property of the rows that every step on the terms hands on to what it stores. -/
structure RowInvariant (terms : Terms) (P : Row → Prop) : Prop where
  others : ∀ {obj new now s}, Flushed obj new now s →
    s.table = .actions ∨ s.table = .helpdeskTickets → P s
  change : ∀ {d userId projectId change now obj new s}, (∀ r ∈ d.rows, P r) →
    terms.change d userId projectId change now →
    change.Writes conv d userId projectId now obj new → Flushed obj new now s → P s
  call : ∀ {d userId projectId itemType scored now call obj new s}, (∀ r ∈ d.rows, P r) →
    call.Conforms → terms.call d userId projectId itemType now call →
    call.Writes d userId projectId itemType scored now obj new → Flushed obj new now s → P s

variable {conv} {terms : Terms} {P : Row → Prop}

omit [DecidableEq Digest] in
theorem Wrote.forall {d d' : Data} {obj : Row} {new : Bool} {now : Time}
    (h : Wrote d d' obj new now) (hd : ∀ r ∈ d.rows, P r)
    (hs : ∀ s, Flushed obj new now s → P s) : ∀ r ∈ d'.rows, P r := by
  obtain ⟨s, hflushed, hrows⟩ := h
  intro r hr
  rcases hrows r hr with rfl | hold
  · exact hs r hflushed
  · exact hd r hold

namespace RowInvariant

omit [DecidableEq Digest] in
theorem outcome (h : RowInvariant conv terms P) {d : Data} (hd : ∀ r ∈ d.rows, P r)
    {userId projectId : Uuid} {role : Role} {change : SyncChange} {now : Time}
    (hmeets : (processNewPushChange conv d userId projectId role change now).status = .accepted →
      terms.change d userId projectId change now) :
    ∀ r ∈ (processNewPushChange conv d userId projectId role change now).data.rows, P r := by
  unfold processNewPushChange at hmeets ⊢
  split
  · exact hd
  · rename_i hrank
    rw [if_neg hrank] at hmeets
    split
    · rename_i e he
      rw [(failedOutcome_data conv d change e).1]
      exact hd
    · rename_i d' entityId hok
      rw [hok] at hmeets
      rcases applyChange_saved hok with ⟨rfl, -, -⟩ | ⟨obj, new, s, hwrites, -, hsaved⟩
      · exact hd
      · exact hsaved.wrote.forall hd fun s hs ↦ h.change hd (hmeets rfl) hwrites hs

theorem step (h : RowInvariant conv terms P) {ctx : PushContext Digest}
    (hd : ∀ r ∈ ctx.db.data.rows, P r) (c : SyncChange × Time)
    (hmeets : ctx.seen c.1.changeId = false → (ctx.outcome conv c).status = .accepted →
      terms.change ctx.db.data ctx.userId ctx.projectId c.1 c.2) :
    ∀ r ∈ (ctx.step conv sha c).db.data.rows, P r := by
  by_cases hs : ctx.seen c.1.changeId = true
  · rw [PushContext.step_of_seen conv sha hs]
    exact hd
  · rw [PushContext.step_of_new conv sha hs]
    exact h.outcome hd (hmeets (Bool.eq_false_iff.mpr hs))

theorem run (h : RowInvariant conv terms P) {ctx : PushContext Digest}
    (hd : ∀ r ∈ ctx.db.data.rows, P r) {cs : List (SyncChange × Time)}
    (hmeets : ctx.Meets conv sha terms cs) :
    ∀ r ∈ (ctx.run conv sha cs).db.data.rows, P r := by
  induction cs generalizing ctx with
  | nil => exact hd
  | cons c cs ih => exact ih (h.step sha hd c hmeets.1) hmeets.2

theorem push (h : RowInvariant conv terms P) {db db' : Db Digest}
    (hd : ∀ r ∈ db.data.rows, P r) {userId projectId : Uuid} {changes : List (SyncChange × Time)}
    {results : List ChangeResult}
    (hpush : pushChanges conv sha db userId projectId changes = .ok (db', results))
    (hmeets : ∀ role, db.data.getMemberRole projectId userId = some role →
      (PushContext.start db userId projectId role changes).Meets conv sha terms changes) :
    ∀ r ∈ db'.data.rows, P r := by
  obtain ⟨ctx, hopen, hrun⟩ := map_ok hpush
  obtain ⟨-, role, hrole, rfl⟩ := openPush_ok hopen
  cases hrun
  exact h.run sha hd (hmeets role hrole)

/-- An invariant holds of every row of every database that is reached on its terms. -/
theorem reachable (h : RowInvariant conv terms P) {db : Db Digest}
    (hdb : ReachableOn conv sha terms db) : ∀ r ∈ db.data.rows, P r := by
  induction hdb with
  | empty rows =>
    intro r hr
    rw [rows] at hr
    cases hr
  | push before run meets ih => exact h.push sha ih run meets
  | item before conforms run meets ih =>
    obtain ⟨obj, new, hwrites, hwrote⟩ := ItemCall.run_writes run
    exact hwrote.forall ih fun s hs ↦ h.call ih conforms meets hwrites hs
  | ticket before run ih =>
    obtain ⟨obj, new, htable, hwrote⟩ := TicketCall.run_writes run
    exact hwrote.forall ih fun s hs ↦ h.others hs (Or.inr (hs.table.trans htable))
  | administer before rows ih =>
    rw [rows]
    exact ih
  | prune before kept ih => exact ih
  | deleteProject p before ih => exact fun r hr ↦ ih r (List.mem_of_mem_filter hr)

end RowInvariant

end Runs

end RiskApp.Server
