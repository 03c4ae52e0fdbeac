import RiskApp.Server.Written

namespace RiskApp.Server

open Lib Lib.Result

def Table.maxLength (table : Table) (a : Attr) : Option ℕ :=
  (table.maxLengths.find? (fun m ↦ m.1 = a)).map Prod.snd

/-- The value fits the column: PostgreSQL stores it. -/
def Table.fits (table : Table) (a : Attr) (v : Val) : Prop :=
  textFits (table.maxLength a) v = true

instance (table : Table) (a : Attr) (v : Val) : Decidable (table.fits a v) :=
  inferInstanceAs (Decidable (_ = true))

def Oversized (r : Row) (val : Parsed) : Prop :=
  ∃ f ∈ clientFields r.table val, ¬ r.table.fits f.1 f.2

def Unscorable (r : Row) (val : Parsed) : Prop :=
  (r.table = .items ∨ r.table = .assessments) ∧
    (val.find .probability = some .null ∨
      val.find .impact = some .null ∧ ∀ a ∈ impactDimensions, r.written val a = .null)

def Orphaned (r : Row) (val : Parsed) : Prop :=
  r.table = .assessments ∧ val.find .itemId = some .null

/-- What no flush of the row with the record over it gets past. -/
def Unwritable (r : Row) (val : Parsed) : Prop :=
  Unscorable r val ∨ Oversized r val ∨ Orphaned r val

/-- What the listeners and the columns let into the database. -/
structure Row.Constrained (r : Row) : Prop where
  fits : r.dataFits = true
  scores : r.table = .items ∨ r.table = .assessments → ∀ a ∈ [Attr.probability, .impact],
    ∃ n, FieldType.inScale n = true ∧ r.attrs a = .int n
  dimensions : ∀ a ∈ impactDimensions,
    r.attrs a = .null ∨ ∃ n, FieldType.inScale n = true ∧ r.attrs a = .int n

namespace Row

theorem dataFits_iff (r : Row) :
    r.dataFits = true ↔ ∀ a ∈ r.table.columns, r.table.fits a (r.attrs a) :=
  List.all_eq_true

variable {r : Row}

theorem setAttr_fits (h : r.dataFits = true) {a : Attr} {v : Val} (hv : r.table.fits a v) :
    (r.setAttr a v).dataFits = true := by
  rw [dataFits_iff] at h ⊢
  rw [setAttr_table]
  intro b hb
  by_cases he : b = a
  · subst he
    unfold setAttr
    split
    · exact h _ hb
    · exact h _ hb
    · simp only [Function.update_self]
      exact hv
  · rw [r.setAttr_attrs_of_ne v he]
    exact h b hb

theorem version_fits (h : r.dataFits = true) (n : ℕ) :
    ({ r with version := n } : Row).dataFits = true := h

theorem changeStatus_fits (h : r.dataFits = true) {v : Val} (hv : r.table.fits .status v)
    (now : Time) : (r.changeStatus v now).dataFits = true := by
  unfold changeStatus
  split
  · exact h
  · have hset := setAttr_fits (a := .statusChangedAt) (v := .time now) (setAttr_fits h hv) rfl
    simp only
    split
    · exact setAttr_fits hset rfl
    · exact hset

theorem softDelete_fits (h : r.dataFits = true) (now : Time) :
    (r.softDelete now).dataFits = true := by
  have hset := setAttr_fits (a := .updatedAt) (v := .time now)
    (setAttr_fits (a := .isDeleted) (v := .bool true) h rfl) rfl
  unfold softDelete
  simp only
  split
  · rename_i ht
    refine changeStatus_fits (version_fits hset _) ?_ now
    rw [show ({ (r.setAttr .isDeleted (.bool true)).setAttr .updatedAt (.time now) with
      version := ((r.setAttr .isDeleted (.bool true)).setAttr .updatedAt (.time now)).version + 1 }
        : Row).table = .items from ht]
    decide
  · exact hset

theorem flagged_fits (h : r.dataFits = true) (val : Parsed) (now : Time) :
    (r.flagged val now).dataFits = true := by
  unfold flagged
  split
  · exact h
  · split
    · exact softDelete_fits h now
    · exact setAttr_fits h rfl

theorem foldl_fits {f : Row → Attr × Val → Row} (htable : ∀ r g, (f r g).table = r.table)
    (hf : ∀ (r : Row) g, r.dataFits = true → r.table.fits g.1 g.2 → (f r g).dataFits = true)
    {fields : List (Attr × Val)} (h : r.dataFits = true)
    (hfields : ∀ g ∈ fields, r.table.fits g.1 g.2) : (fields.foldl f r).dataFits = true := by
  induction fields generalizing r with
  | nil => exact h
  | cons g fields ih =>
    refine ih (hf r g h (hfields g List.mem_cons_self)) fun g' hg' ↦ ?_
    rw [htable]
    exact hfields g' (List.mem_cons_of_mem g hg')

end Row

theorem recalculateItemScores_fits {r : Row} (h : r.dataFits = true) :
    (recalculateItemScores r).dataFits = true := by
  have hint : ∀ {s : Row} {a : Attr} (n : ℤ), s.dataFits = true →
      (s.setAttr a (.int n)).dataFits = true := fun n hs ↦ Row.setAttr_fits hs rfl
  unfold recalculateItemScores
  split
  · simp only
    split
    · exact hint _ h
    · exact hint _ (hint _ h)
  · exact h

namespace Row

variable {r : Row} {val : Parsed}

theorem update_fits (h : r.dataFits = true) (hval : ¬ Oversized r val) (now : Time) :
    (r.update val now).dataFits = true := by
  have hfields : ∀ g ∈ clientFields r.table val, r.table.fits g.1 g.2 := fun g hg ↦
    Classical.not_not.mp fun hno ↦ hval ⟨g, hg, hno⟩
  have hassign : ∀ (s : Row) g, s.dataFits = true → s.table.fits g.1 g.2 →
      (s.assign now g).dataFits = true := by
    intro s g hs hg
    unfold assign
    split
    · rename_i hstatus
      exact changeStatus_fits hs (hstatus.1 ▸ hg) now
    · exact setAttr_fits hs hg
  have htable : ∀ (s : Row) g, (s.assign now g).table = s.table := by
    intro s g
    unfold assign
    split
    · exact (s.keeps_changeStatus _ _).table
    · exact s.setAttr_table _ _
  have hset := setAttr_fits (a := .updatedAt) (v := .time now)
    (recalculateItemScores_fits (flagged_fits (foldl_fits htable hassign h hfields) val now)) rfl
  unfold update
  simp only
  split <;> exact hset

theorem setAll_fits (h : r.dataFits = true) (hval : ¬ Oversized r val) :
    (recalculateItemScores (r.setAll (clientFields r.table val))).dataFits = true := by
  have hfields : ∀ g ∈ clientFields r.table val, r.table.fits g.1 g.2 := fun g hg ↦
    Classical.not_not.mp fun hno ↦ hval ⟨g, hg, hno⟩
  exact recalculateItemScores_fits (foldl_fits (fun s g ↦ s.setAttr_table _ _)
    (fun s g hs hg ↦ setAttr_fits hs hg) h hfields)

theorem withDefaults_fits (now : Time) : (r.withDefaults now).dataFits = r.dataFits := by
  rw [Bool.eq_iff_iff, dataFits_iff, dataFits_iff]
  refine forall₂_congr fun a _ ↦ ?_
  have htable : (r.withDefaults now).table = r.table := rfl
  rw [htable]
  by_cases hnull : r.attrs a = .null
  · have hdefault : ∀ d ∈ r.table.columnDefaults now, r.table.fits d.1 d.2 := by
      cases r.table <;> simp [Table.columnDefaults, Table.fits, Table.maxLength, textFits,
        Table.maxLengths] <;> decide
    have hvalue : (r.withDefaults now).attrs a =
        (fieldOf (r.table.columnDefaults now) a).getD .null := if_pos hnull
    rw [hvalue, hnull]
    refine iff_of_true ?_ rfl
    cases hfind : fieldOf (r.table.columnDefaults now) a with
    | none => rfl
    | some v => exact hdefault _ (mem_of_fieldOf hfind)
  · rw [withDefaults_attrs now hnull]

theorem naive_fits (r : Row) : r.naive.dataFits = r.dataFits := by
  rw [Bool.eq_iff_iff, dataFits_iff, dataFits_iff]
  refine forall₂_congr fun a _ ↦ ?_
  have hvalue : ∀ v : Val, textFits (r.table.maxLength a) v.naive =
      textFits (r.table.maxLength a) v := fun v ↦ by cases v <;> rfl
  by_cases ha : a ∈ datetimeColumns
  · rw [naive_attrs_of_mem ha]
    exact (hvalue _).congr_left
  · rw [naive_attrs_of_not_mem ha]
    rfl

end Row

/-- What validation leaves in the fields that the derived columns depend on. -/
structure Parsed.Typed (entity : Entity) (val : Parsed) : Prop where
  nodup : (val.fields.map Prod.fst).Nodup
  fixed : ∀ f ∈ val.fields, f.1 ∉ fixedAttrs
  derived : ∀ f ∈ val.fields, f.1 ∈ derivedAttrs → entity.table.fits f.1 f.2
  scales : ∀ a ∈ .probability :: .impact :: impactDimensions, ∀ w, val.find a = some w →
    w = .null ∨ ∃ n, FieldType.inScale n = true ∧ w = .int n
  item : ∀ w, val.find .itemId = some w → w = .null ∨ ∃ u, w = .uuid u

def FieldType.within (table : Table) (a : Attr) : FieldType → Bool
  | .text .. => false
  | .choice values => values.all fun s ↦ table.fits a (.str s)
  | _ => true

theorem Validated.within {conv : Conv} {t : FieldType} {v : Option Val} {w : Val}
    (h : Validated conv t v (some w)) {table : Table} {a : Attr} (ht : t.within table a = true) :
    table.fits a w := by
  cases h with
  | null => rfl
  | @value v w ne parsed =>
    cases t with
    | text => cases ht
    | choice values =>
      cases v with
      | str s =>
        simp only [FieldType.parse] at parsed
        split at parsed
        · rename_i hs
          cases parsed
          exact of_decide_eq_true (List.all_eq_true.mp ht s hs)
        · cases parsed
      | _ => cases parsed
    | uuid =>
      rcases (Validated.value ne parsed).uuid with rfl | ⟨u, rfl⟩ <;> rfl
    | scale =>
      rcases (Validated.value ne parsed).scale with rfl | ⟨n, -, rfl⟩ <;> rfl
    | datetime =>
      have htime : ∃ t offset, w = Val.ofTime t offset := by
        cases v with
        | time t => exact ⟨t, none, (Option.some.inj parsed).symm⟩
        | zoned t offset => exact ⟨t, some offset, (Option.some.inj parsed).symm⟩
        | _ =>
          obtain ⟨t, -, rfl⟩ := Option.map_eq_some_iff.mp parsed
          exact ⟨t.1, t.2, rfl⟩
      obtain ⟨t, offset, rfl⟩ := htime
      cases offset <;> rfl
    | bool =>
      have hbool : ∃ b, w = .bool b := by
        cases v with
        | bool b => exact ⟨b, (Option.some.inj parsed).symm⟩
        | _ =>
          obtain ⟨b, -, rfl⟩ := Option.map_eq_some_iff.mp parsed
          exact ⟨b, rfl⟩
      obtain ⟨b, rfl⟩ := hbool
      rfl

section Typed

variable {conv : Conv} {entity : Entity} {record : Dict} {val : Parsed}

theorem parseRecord_typed (h : parseRecord conv entity record = .ok val) : val.Typed entity := by
  have hnodup := parseRecord_nodup h
  have hfind : ∀ f ∈ val.fields, val.find f.1 = some f.2 := fun f hf ↦
    congrArg (Option.map Prod.snd) (Table.find_of_mem Prod.fst hnodup hf)
  refine ⟨hnodup, parseRecord_not_fixed h, fun f hf hder ↦ ?_, fun a ha w hw ↦ ?_,
    fun w ↦ parseRecord_itemId h⟩
  · have hwithin : ∀ s ∈ schema entity, s.1 ∈ derivedAttrs →
        s.2.within entity.table s.1 = true := by
      cases entity <;> decide
    obtain ⟨s, hs, he⟩ := List.mem_map.mp (parseRecord_keys h f hf)
    have hfit := hwithin s hs (he ▸ hder)
    rw [he] at hfit
    by_cases hdeleted : f.1 = .isDeleted
    · rcases parseRecord_isDeleted h with ⟨-, -, hflag⟩ | hflag
      · rw [← hdeleted, hfind f hf] at hflag
        rw [Option.some.inj hflag]
        rfl
      · rw [← hdeleted, hfind f hf] at hflag
        exact hflag.within rfl
    · have hparsed := parseRecord_find h (a := f.1) (t := s.2) (he ▸ hs)
        (by revert hder hdeleted; generalize f.1 = a; revert a; decide)
      rw [hfind f hf] at hparsed
      exact hparsed.within hfit
  · have hscale : ∀ s ∈ schema entity, s.1 ∈ .probability :: .impact :: impactDimensions →
        s.2 = .scale := by
      cases entity <;> simp [schema, syncItemRecord, itemShared, syncActionRecord,
        syncAssessmentRecord, syncHelpDeskTicketRecord, impactDimensions]
    obtain ⟨s, hs, he⟩ := List.mem_map.mp (parseRecord_keys h (a, w) (mem_of_fieldOf hw))
    obtain rfl : s.1 = a := he
    have hparsed := parseRecord_find h hs (by revert ha; generalize s.1 = a; revert a; decide)
    rw [hscale s hs ha, hw] at hparsed
    exact hparsed.scale

theorem Parsed.Typed.coded (h : val.Typed entity) {d : Data} {projectId : Uuid}
    {val' : Parsed} (hcode : withItemCode conv d projectId entity val = .ok val') :
    val'.Typed entity := by
  unfold withItemCode at hcode
  split at hcode
  · obtain ⟨code, -, rfl⟩ := map_ok hcode
    refine ⟨Parsed.nodup_set h.nodup _ _, fun f hf ↦ ?_, fun f hf hder ↦ ?_,
      fun a ha w hw ↦ ?_, fun w hw ↦ ?_⟩
    · rcases Parsed.mem_set hf with he | hf
      · rw [he]
        decide
      · exact h.fixed f hf
    · rcases Parsed.mem_set hf with he | hf
      · rw [he] at hder
        exact absurd hder (by decide)
      · exact h.derived f hf hder
    · rw [Parsed.find_set, if_neg (by rintro rfl; revert ha; decide)] at hw
      exact h.scales a ha w hw
    · rw [Parsed.find_set, if_neg (by decide)] at hw
      exact h.item w hw
  · cases hcode
    exact h

end Typed

def Scaled (v : Val) : Prop := ∃ n, FieldType.inScale n = true ∧ v = .int n

theorem not_scaled_null : ¬ Scaled .null := by
  rintro ⟨n, -, h⟩
  cases h

theorem validateScale_eq_error {v : Val} {e : PushError} :
    validateScale v = .error e ↔ ¬ Scaled v ∧ e = .unexpected := by
  have hfail : ∀ {v : Val}, ¬ Scaled v →
      (Except.error .unexpected = (.error e : Except PushError ℤ) ↔
        ¬ Scaled v ∧ e = .unexpected) := by
    intro v hv
    constructor
    · intro h
      cases h
      exact ⟨hv, rfl⟩
    · rintro ⟨-, rfl⟩
      rfl
  cases v with
  | int n =>
    unfold validateScale
    simp only
    split
    · rename_i hn
      constructor
      · intro h
        cases h
      · rintro ⟨h, -⟩
        exact absurd ⟨n, hn, rfl⟩ h
    · rename_i hn
      refine hfail ?_
      rintro ⟨m, hm, h⟩
      cases h
      exact hn hm
  | _ =>
    refine hfail ?_
    rintro ⟨m, -, h⟩
    cases h

theorem computeScore_eq_error {r : Row} {e : PushError} :
    computeScore r = .error e ↔ (r.table = .items ∨ r.table = .assessments) ∧
      ¬ (Scaled (r.attrs .probability) ∧ Scaled (r.attrs .impact)) ∧ e = .unexpected := by
  unfold computeScore
  split
  · rename_i ht
    rw [bind_eq_error, validateScale_eq_error]
    constructor
    · rintro (⟨hp, he⟩ | ⟨p, -, h⟩)
      · exact ⟨ht, fun hboth ↦ hp hboth.1, he⟩
      · rw [bind_eq_error, validateScale_eq_error] at h
        rcases h with ⟨hi, he⟩ | ⟨i, -, h⟩
        · exact ⟨ht, fun hboth ↦ hi hboth.2, he⟩
        · cases h
    · rintro ⟨-, hboth, he⟩
      by_cases hp : Scaled (r.attrs .probability)
      · right
        have hi : ¬ Scaled (r.attrs .impact) := fun hi ↦ hboth ⟨hp, hi⟩
        cases hv : validateScale (r.attrs .probability) with
        | error e' => exact absurd hp (validateScale_eq_error.mp hv).1
        | ok p =>
          exact ⟨p, rfl, bind_eq_error.mpr (Or.inl (validateScale_eq_error.mpr ⟨hi, he⟩))⟩
      · exact Or.inl ⟨hp, he⟩
  · rename_i ht
    constructor
    · intro h
      cases h
    · rintro ⟨h, -⟩
      exact absurd h ht

theorem assignChangeSequence_eq_error {d : Data} {r : Row} {e : PushError} :
    assignChangeSequence d r = .error e ↔
      (d.projectOf r).bind d.lastSequence = none ∧ e = .unexpected := by
  unfold assignChangeSequence
  split
  · rename_i hp
    rw [hp]
    exact ⟨fun h ↦ ⟨rfl, (Except.error.inj h).symm⟩, fun h ↦ h.2 ▸ rfl⟩
  · rename_i p hp
    rw [hp, Option.bind_some]
    split
    · rename_i hn
      exact ⟨fun h ↦ ⟨hn, (Except.error.inj h).symm⟩, fun h ↦ h.2 ▸ rfl⟩
    · rename_i n hn
      constructor
      · intro h
        cases h
      · rintro ⟨h, -⟩
        cases hn.symm.trans h

/-- A flush fails unexpectedly in a listener, or for a text that its column cannot hold. -/
theorem flush_unexpected (d : Data) (now : Time) (write : Write) :
    flush d now (some write) = .error .unexpected ↔
      computeScore write.obj = .error .unexpected ∨ ∃ s, computeScore write.obj = .ok s ∧
        ((d.projectOf s).bind d.lastSequence = none ∨ s.dataFits = false) := by
  have hlater : ∀ (x : Except PushError Data) {b : Bool},
      (∀ e, x = .error e → e = .integrity) →
      ((require b .unexpected : Except PushError Unit) >>= fun _ ↦ x) = .error .unexpected →
      b = false := by
    intro x b hx h
    rcases bind_eq_error.mp h with h | ⟨-, -, h⟩
    · exact (require_eq_error.mp h).1
    · cases hx _ h
  have hintegrity : ∀ (b : Bool) (d' : Data) e,
      ((require b .integrity : Except PushError Unit) >>= fun _ ↦ .ok d') = .error e →
      e = .integrity := by
    intro b d' e h
    rcases bind_eq_error.mp h with h | ⟨-, -, h⟩
    · exact (require_eq_error.mp h).2.symm
    · cases h
  have hbefore : beforeWrite d write.obj = .error .unexpected ↔
      computeScore write.obj = .error .unexpected ∨ ∃ s, computeScore write.obj = .ok s ∧
        (d.projectOf s).bind d.lastSequence = none := by
    unfold beforeWrite
    simp only [bind_eq_error, assignChangeSequence_eq_error, and_true, Data.projectOf_naive]
  have hstored : ∀ (d' : Data) (r' : Row), beforeWrite d write.obj = .ok (d', r') →
      ∃ s, computeScore write.obj = .ok s ∧ r'.dataFits = s.dataFits := by
    intro d' r' h
    obtain ⟨s, hs, h⟩ := bind_ok h
    refine ⟨s, hs, ?_⟩
    unfold assignChangeSequence at h
    split at h
    · cases h
    · split at h
      · cases h
      · cases h
        exact s.naive_fits
  have hsplit : flush d now (some write) = .error .unexpected ↔
      beforeWrite d write.obj = .error .unexpected ∨
        ∃ x, beforeWrite d write.obj = .ok x ∧ x.2.dataFits = false := by
    unfold flush
    rw [map_eq_error]
    split
    · unfold flushInsert
      rw [bind_eq_error]
      refine or_congr_right (exists_congr fun x ↦ and_congr_right fun _ ↦ ⟨fun h ↦ ?_, fun h ↦ ?_⟩)
      · have hfits := hlater _ (hintegrity _ _) h
        rwa [Row.withDefaults_fits] at hfits
      · exact bind_eq_error.mpr (Or.inl (require_eq_error.mpr
          ⟨(Row.withDefaults_fits now).trans h, rfl⟩))
    · unfold flushUpdate
      rw [bind_eq_error]
      refine or_congr_right (exists_congr fun x ↦ and_congr_right fun _ ↦ ⟨fun h ↦ ?_, fun h ↦ ?_⟩)
      · exact hlater _ (hintegrity _ _) h
      · exact bind_eq_error.mpr (Or.inl (require_eq_error.mpr ⟨h, rfl⟩))
  rw [hsplit, hbefore]
  constructor
  · rintro ((h | ⟨s, hs, h⟩) | ⟨x, hx, h⟩)
    · exact Or.inl h
    · exact Or.inr ⟨s, hs, Or.inl h⟩
    · obtain ⟨s, hs, hfits⟩ := hstored x.1 x.2 hx
      exact Or.inr ⟨s, hs, Or.inr (hfits ▸ h)⟩
  · rintro (h | ⟨s, hs, h | h⟩)
    · exact Or.inl (Or.inl h)
    · exact Or.inl (Or.inr ⟨s, hs, h⟩)
    · cases hb : beforeWrite d write.obj with
      | error e =>
        left
        have hwhich := bind_eq_error.mp hb
        rcases hwhich with hc | ⟨s', hs', hc⟩
        · rw [hs] at hc
          cases hc
        · exact Or.inr ⟨s', hs', (assignChangeSequence_eq_error.mp hc).1⟩
      | ok x =>
        obtain ⟨s', hs', hfits⟩ := hstored x.1 x.2 hb
        rw [hs] at hs'
        cases hs'
        exact Or.inr ⟨x, rfl, hfits.trans h⟩

section Unwritable

variable {d : Data} {entity : Entity} {r w : Row} {val : Parsed} {projectId : Uuid} {now : Time}

theorem Row.Constrained.scaled (h : r.Constrained)
    (ht : r.table = .items ∨ r.table = .assessments) :
    Scaled (r.attrs .probability) ∧ Scaled (r.attrs .impact) :=
  ⟨h.scores ht _ (by decide), h.scores ht _ (by decide)⟩

theorem written_eq (ht : r.table = .items ∨ r.table = .assessments) {a : Attr}
    (ha : a ∈ [Attr.probability, .impact]) :
    r.written val a = (val.find a).getD (r.attrs a) := by
  have hcol : a ∈ r.table.columns := by
    rcases ht with ht | ht <;> rw [ht] <;> revert a <;> decide
  unfold Row.written
  have hclient : ∀ a ∈ [Attr.probability, .impact], a ∉ [Attr.score, .assessorUserId] := by decide
  rw [clientFields_find hcol (hclient a ha)]

theorem written_scale (hval : val.Typed entity) {a : Attr} (ha : a ∈ impactDimensions)
    (hr : r.attrs a = .null ∨ Scaled (r.attrs a)) :
    r.written val a = .null ∨ Scaled (r.written val a) := by
  have hscales : ∀ v, fieldOf (clientFields r.table val) a = some v → v = .null ∨ Scaled v := by
    intro v hv
    refine hval.scales a (List.mem_cons_of_mem _ (List.mem_cons_of_mem _ ha)) v ?_
    have hmem := List.mem_of_mem_filter (mem_of_fieldOf hv)
    exact congrArg (Option.map Prod.snd) (Table.find_of_mem Prod.fst hval.nodup hmem)
  unfold Row.written
  cases hf : fieldOf (clientFields r.table val) a with
  | none => exact hr
  | some v => exact hscales v hf

theorem written_dimension (hr : r.Constrained) (hval : val.Typed entity) {a : Attr}
    (ha : a ∈ impactDimensions) : r.written val a = .null ∨ Scaled (r.written val a) :=
  written_scale hval ha (hr.dimensions a ha)

theorem foldl_max_inScale {ns : List ℤ} {n : ℤ} (hn : FieldType.inScale n = true)
    (hns : ∀ m ∈ ns, FieldType.inScale m = true) :
    FieldType.inScale (ns.foldl max n) = true := by
  induction ns generalizing n with
  | nil => exact hn
  | cons m ns ih =>
    refine ih ?_ fun k hk ↦ hns k (List.mem_cons_of_mem m hk)
    by_cases h : n ≤ m
    · rw [Int.max_eq_right h]
      exact hns m List.mem_cons_self
    · rw [Int.max_eq_left (by omega)]
      exact hn

theorem impactOf_scaled {f : Attr → Val}
    (hdims : ∀ a ∈ impactDimensions, f a = .null ∨ Scaled (f a)) :
    Scaled (impactOf f) ↔ Scaled (f .impact) ∨ ∃ a ∈ impactDimensions, f a ≠ .null := by
  have hmem : ∀ n ∈ dimensionsOf f, FieldType.inScale n = true ∧ ∃ a ∈ impactDimensions,
      f a ≠ .null := by
    intro n hn
    obtain ⟨a, ha, hfa⟩ := List.mem_filterMap.mp hn
    split at hfa
    · rename_i m hm
      cases hfa
      refine ⟨?_, a, ha, by rw [hm]; simp⟩
      rcases hdims a ha with h | ⟨k, hk, h⟩ <;> rw [hm] at h <;> cases h
      exact hk
    · cases hfa
  unfold impactOf
  cases hd : dimensionsOf f with
  | nil =>
    refine ⟨Or.inl, fun h ↦ h.resolve_right ?_⟩
    rintro ⟨a, ha, hne⟩
    obtain ⟨n, -, hn⟩ := (hdims a ha).resolve_left hne
    have hin : n ∈ dimensionsOf f := List.mem_filterMap.mpr ⟨a, ha, by rw [hn]⟩
    rw [hd] at hin
    cases hin
  | cons n ns =>
    rw [hd] at hmem
    have hmax := foldl_max_inScale (hmem n List.mem_cons_self).1
      fun m hm ↦ (hmem m (List.mem_cons_of_mem n hm)).1
    exact ⟨fun _ ↦ Or.inr (hmem n List.mem_cons_self).2, fun _ ↦ ⟨_, hmax, rfl⟩⟩

theorem computeScore_unscorable (hr : r.Constrained) (hval : val.Typed entity)
    (hw : r.Overwrites val w) : computeScore w = .error .unexpected ↔ Unscorable r val := by
  rw [computeScore_eq_error, hw.keeps.table]
  refine and_congr_right fun ht ↦ ?_
  have hfirst : ∀ a ∈ [Attr.probability, .impact],
      a ∈ Attr.probability :: .impact :: impactDimensions := by decide
  have hscaled : ∀ a ∈ [Attr.probability, .impact],
      (Scaled (r.written val a) ↔ val.find a ≠ some .null) := by
    intro a ha
    rw [written_eq ht ha]
    cases hf : val.find a with
    | none => exact iff_of_true (hr.scores ht a ha) (by simp)
    | some v =>
      rcases hval.scales a (hfirst a ha) v hf with rfl | ⟨n, hn, rfl⟩
      · exact iff_of_false not_scaled_null (by simp)
      · exact iff_of_true ⟨n, hn, rfl⟩ (by simp)
  have hprob : w.attrs .probability = r.written val .probability := hw.attrs _ (by decide)
  rw [hprob, hw.impact ht, impactOf_scaled fun a ha ↦ written_dimension hr hval ha,
    hscaled _ (by decide), hscaled _ (by decide)]
  simp only [ne_eq, and_true]
  grind

theorem dataFits_oversized (hval : val.Typed entity) (htable : r.table = entity.table)
    (hw : r.Overwrites val w) (hover : Oversized r val) : w.dataFits = false := by
  obtain ⟨f, hf, hno⟩ := hover
  obtain ⟨hmem, hfilter⟩ := List.mem_filter.mp hf
  simp only [Bool.and_eq_true, decide_eq_true_eq] at hfilter
  have hder : f.1 ∉ derivedAttrs := fun h ↦ hno (htable ▸ hval.derived f hmem h)
  have hvalue : w.attrs f.1 = f.2 := by
    rw [hw.attrs _ hder]
    unfold Row.written
    have hfind : fieldOf (clientFields r.table val) f.1 = some f.2 :=
      congrArg (Option.map Prod.snd) (Table.find_of_mem Prod.fst (clientFields_nodup hval.nodup) hf)
    rw [hfind]
    rfl
  refine Bool.eq_false_iff.mpr fun hfits ↦ hno ?_
  have hcol := (w.dataFits_iff.mp hfits) f.1 (hw.keeps.table ▸ hfilter.2)
  rwa [hw.keeps.table, hvalue] at hcol

theorem computeScore_overwrites {s : Row} (hw : r.Overwrites val w)
    (hs : computeScore w = .ok s) : r.Overwrites val s := by
  rcases computeScore_cases hs with rfl | ⟨v, rfl⟩
  · exact hw
  · refine ⟨hw.keeps.trans (Row.keeps_setAttr _ _ (by decide)), fun a ha ↦ ?_, fun ht ↦ ?_⟩
    · rw [Row.setAttr_attrs_of_ne _ _ (Row.not_mem_of_derived ha).2.1, hw.attrs a ha]
    · rw [Row.setAttr_attrs_of_ne _ _ (by decide), hw.impact ht]

theorem computeScore_fits {s : Row} (hs : computeScore w = .ok s) (hw : w.dataFits = true) :
    s.dataFits = true := by
  unfold computeScore at hs
  split at hs
  · obtain ⟨p, -, hs⟩ := bind_ok hs
    obtain ⟨i, -, hs⟩ := bind_ok hs
    cases hs
    exact Row.setAttr_fits hw rfl
  · cases hs
    exact hw

/-- Writing a record over a stored row fails unexpectedly exactly when no flush can pass. -/
theorem flush_unwritable (hr : r.Constrained) (hval : val.Typed entity)
    (htable : r.table = entity.table) {write : Write} (hw : r.Overwrites val write.obj)
    (hfits : ¬ Oversized r val → write.obj.dataFits = true)
    (horphan : Orphaned r val → d.projectOf write.obj = none)
    (hplaced : ¬ Orphaned r val → d.projectOf write.obj = some projectId)
    (hseq : (d.lastSequence projectId).isSome = true) :
    flush d now (some write) = .error .unexpected ↔ Unwritable r val := by
  rw [flush_unexpected, computeScore_unscorable hr hval hw]
  have hplace : ∀ s, computeScore write.obj = .ok s →
      ((d.projectOf s).bind d.lastSequence = none ↔ Orphaned r val) := by
    intro s hs
    rw [← d.projectOf_naive, d.projectOf_congr (computeScore_ok hs)]
    by_cases ho : Orphaned r val
    · rw [horphan ho]
      exact iff_of_true rfl ho
    · rw [hplaced ho, Option.bind_some]
      refine iff_of_false (fun hnone ↦ ?_) ho
      rw [hnone] at hseq
      cases hseq
  have hfit : ∀ s, computeScore write.obj = .ok s → (s.dataFits = false ↔ Oversized r val) := by
    intro s hs
    refine ⟨fun h ↦ Classical.byContradiction fun ho ↦ ?_,
      dataFits_oversized hval htable (computeScore_overwrites hw hs)⟩
    rw [computeScore_fits hs (hfits ho)] at h
    cases h
  unfold Unwritable
  by_cases hscore : Unscorable r val
  · exact iff_of_true (Or.inl hscore) (Or.inl hscore)
  · refine or_congr_right ⟨?_, fun h ↦ ?_⟩
    · rintro ⟨s, hs, h | h⟩
      · exact Or.inr ((hplace s hs).mp h)
      · exact Or.inl ((hfit s hs).mp h)
    · cases hs : computeScore write.obj with
      | error e =>
        have hunexpected := (computeScore_eq_error.mp hs).2.2
        subst hunexpected
        exact absurd ((computeScore_unscorable hr hval hw).mp hs) hscore
      | ok s =>
        refine ⟨s, rfl, ?_⟩
        rcases h with h | h
        · exact Or.inr ((hfit s hs).mpr h)
        · exact Or.inl ((hplace s hs).mpr h)

end Unwritable

end RiskApp.Server
