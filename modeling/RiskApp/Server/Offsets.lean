import RiskApp.Server.Statuses

namespace RiskApp.Server

open Lib Lib.Result

def clientTimes : List Attr := [.identifiedAt, .responseAt, .occurredAt]

def Parsed.Naive (val : Parsed) : Prop := ∀ a ∈ clientTimes, (val.get a).naive = val.get a

def Row.NaiveTimes (r : Row) : Prop :=
  ∀ a ∈ r.table.columns, a ∈ datetimeColumns → (r.attrs a).naive = r.attrs a

theorem Val.naive_naive (v : Val) : v.naive.naive = v.naive := by
  cases v <;> rfl

theorem Row.naive_iff {r : Row} :
    r.naive = r ↔ ∀ a ∈ datetimeColumns, (r.attrs a).naive = r.attrs a := by
  constructor
  · intro h a ha
    rw [← Row.naive_attrs_of_mem ha, h]
  · exact Row.naive_eq_self

section Order

/-- Setting the status may set the time of occurrence, but then it is set before the times are. -/
def StatusFirst (keys : List Attr) : Prop := keys.Pairwise fun a b ↦ a ∈ clientTimes → b ≠ .status

theorem schema_statusFirst (entity : Entity) : StatusFirst ((schema entity).map Prod.fst) := by
  unfold StatusFirst
  cases entity <;> decide

variable {conv : Conv} {entity : Entity} {record : Dict} {val : Parsed}

theorem parseRecord_statusFirst (h : parseRecord conv entity record = .ok val) :
    StatusFirst (val.fields.map Prod.fst) := by
  obtain ⟨keys, hsub, he | ⟨a, ha, -, -, he⟩⟩ := parseRecord_keyList h
  · rw [he]
    exact (schema_statusFirst entity).sublist hsub
  · rw [he]
    refine List.pairwise_append.mpr ⟨(schema_statusFirst entity).sublist hsub,
      List.pairwise_singleton _ _, fun b _ c hc _ ↦ ?_⟩
    rw [List.mem_singleton.mp hc]
    rintro rfl
    exact absurd ha (by decide)

end Order

namespace Row

variable {r : Row} {now : Time} {a : Attr}

theorem assign_of_ne {f : Attr × Val} (hne : f.1 ≠ a) (hstatus : f.1 ≠ .status) :
    (r.assign now f).attrs a = r.attrs a := by
  unfold assign
  rw [if_neg fun h ↦ hstatus h.1]
  exact r.setAttr_attrs_of_ne f.2 hne.symm

theorem foldl_assign_of_ne {fields : List (Attr × Val)}
    (h : ∀ f ∈ fields, f.1 ≠ a ∧ f.1 ≠ .status) :
    (fields.foldl (assign now) r).attrs a = r.attrs a := by
  induction fields generalizing r with
  | nil => rfl
  | cons f fields ih =>
    obtain ⟨hne, hstatus⟩ := h f List.mem_cons_self
    rw [List.foldl_cons, ih fun g hg ↦ h g (List.mem_cons_of_mem f hg), assign_of_ne hne hstatus]

theorem foldl_assign_time {fields : List (Attr × Val)} {v : Val} (ha : a ∈ clientTimes)
    (hnodup : (fields.map Prod.fst).Nodup) (hfirst : StatusFirst (fields.map Prod.fst))
    (hmem : (a, v) ∈ fields) : (fields.foldl (assign now) r).attrs a = v := by
  have hplain : ∀ a ∈ clientTimes, a ≠ .status ∧ a ∉ [Attr.id, .version] := by decide
  obtain ⟨hstatus, hkey⟩ := hplain a ha
  obtain ⟨before, after, rfl⟩ := List.append_of_mem hmem
  rw [List.map_append, List.map_cons] at hnodup
  unfold StatusFirst at hfirst
  rw [List.map_append, List.map_cons] at hfirst
  have hfresh := (List.nodup_cons.mp (List.nodup_append.mp hnodup).2.1).1
  have hlater := (List.pairwise_cons.mp (List.pairwise_append.mp hfirst).2.1).1
  have hafter : ∀ f ∈ after, f.1 ≠ a ∧ f.1 ≠ .status := fun f hf ↦
    ⟨fun he ↦ hfresh (List.mem_map.mpr ⟨f, hf, he⟩), hlater f.1 (List.mem_map_of_mem hf) ha⟩
  rw [List.foldl_append, List.foldl_cons, foldl_assign_of_ne hafter]
  unfold assign
  rw [if_neg fun h ↦ hstatus h.1]
  exact setAttr_self _ _ hkey

theorem setAttr_naive {b : Attr} {v : Val} (h : r.naive = r)
    (hv : b ∈ datetimeColumns → v.naive = v) : (r.setAttr b v).naive = r.setAttr b v := by
  rw [naive_iff] at h ⊢
  intro c hc
  have hkey : ∀ c ∈ datetimeColumns, c ∉ [Attr.id, .version] := by decide
  rw [setAttr_attrs _ _ (hkey c hc)]
  split
  · rename_i he
    exact hv (he ▸ hc)
  · exact h c hc

theorem changeStatus_naive {v : Val} (h : r.naive = r) :
    (r.changeStatus v now).naive = r.changeStatus v now := by
  have hset : ((r.setAttr .status v).setAttr .statusChangedAt (.time now)).naive =
      (r.setAttr .status v).setAttr .statusChangedAt (.time now) :=
    setAttr_naive (setAttr_naive h fun hs ↦ absurd hs (by decide)) fun _ ↦ rfl
  unfold changeStatus
  split
  · exact h
  · simp only
    split
    · exact setAttr_naive hset fun _ ↦ rfl
    · exact hset

theorem softDelete_naive (h : r.naive = r) : (r.softDelete now).naive = r.softDelete now := by
  have hset : ((r.setAttr .isDeleted (.bool true)).setAttr .updatedAt (.time now)).naive =
      (r.setAttr .isDeleted (.bool true)).setAttr .updatedAt (.time now) :=
    setAttr_naive (setAttr_naive h fun hs ↦ absurd hs (by decide)) fun _ ↦ rfl
  have hversion : ∀ (s : Row) (n : ℕ), s.naive = s →
      ({ s with version := n } : Row).naive = { s with version := n } := by
    intro s n hs
    rw [naive_iff] at hs ⊢
    exact hs
  unfold softDelete
  simp only
  split
  · exact changeStatus_naive (hversion _ _ hset)
  · exact hversion _ _ hset

theorem flagged_naive {val : Parsed} (h : r.naive = r) :
    (r.flagged val now).naive = r.flagged val now := by
  unfold flagged
  split
  · exact h
  · split
    · exact softDelete_naive h
    · exact setAttr_naive h fun hs ↦ absurd hs (by decide)

theorem foldl_assign_naive {fields : List (Attr × Val)} (h : r.naive = r)
    (hfields : ∀ f ∈ fields, f.1 ∈ datetimeColumns → f.2.naive = f.2) :
    (fields.foldl (assign now) r).naive = fields.foldl (assign now) r := by
  induction fields generalizing r with
  | nil => exact h
  | cons f fields ih =>
    refine ih ?_ fun g hg ↦ hfields g (List.mem_cons_of_mem f hg)
    unfold assign
    split
    · exact changeStatus_naive h
    · exact setAttr_naive h (hfields f List.mem_cons_self)

theorem flagged_time {val : Parsed} (ha : a ∈ clientTimes) :
    (r.flagged val now).attrs a = r.attrs a := by
  have hplain : ∀ a ∈ clientTimes, a ≠ .isDeleted ∧ a ≠ .updatedAt ∧ a ≠ .status ∧
      a ≠ .statusChangedAt := by decide
  obtain ⟨hdeleted, hupdated, hstatus, hchanged⟩ := hplain a ha
  have hset : ((r.setAttr .isDeleted (.bool true)).setAttr .updatedAt (.time now)).attrs a =
      r.attrs a := by
    rw [setAttr_attrs_of_ne _ _ hupdated, setAttr_attrs_of_ne _ _ hdeleted]
  unfold flagged
  split
  · rfl
  · split
    · unfold softDelete
      simp only
      split
      · unfold changeStatus
        split
        · exact hset
        · simp only [Val.str.injEq, String.reduceEq, if_false]
          rw [setAttr_attrs_of_ne _ _ hchanged, setAttr_attrs_of_ne _ _ hstatus]
          exact hset
      · exact hset
    · exact setAttr_attrs_of_ne _ _ hdeleted

theorem update_naiveTimes_iff {conv : Conv} {entity : Entity} {record : Dict} {val : Parsed}
    (hr : r.naive = r) (ht : r.table = entity.table)
    (hval : parseRecord conv entity record = .ok val) :
    (r.update val now).NaiveTimes ↔ val.Naive := by
  have htable := (r.keeps_update val now (parseRecord_not_fixed hval)).table
  have hlast : ∀ a ∈ datetimeColumns, a ≠ .updatedAt → (r.update val now).attrs a =
      (((clientFields r.table val).foldl (assign now) r).flagged val now).attrs a := by
    intro a ha hne
    have hscores : ∀ a ∈ datetimeColumns, a ≠ .impact ∧ a ≠ .score := by decide
    rw [update_attrs_eq hne, recalculateItemScores_attrs _ (hscores a ha).1 (hscores a ha).2]
  constructor
  · intro h a ha
    have hkinds : ∀ a ∈ clientTimes, a ∈ datetimeColumns ∧ a ≠ .updatedAt ∧
        a ∉ [Attr.score, .assessorUserId] := by decide
    obtain ⟨htime, hne, hclient⟩ := hkinds a ha
    cases hfind : val.find a with
    | none =>
      rw [Parsed.get, hfind]
      rfl
    | some v =>
      have hmem := mem_of_fieldOf hfind
      have hcolumns : ∀ entity, ∀ a ∈ clientTimes, a ∈ (schema entity).map Prod.fst →
          a ∈ entity.table.columns := by
        intro entity
        cases entity <;> decide
      have hcol : a ∈ r.table.columns :=
        ht ▸ hcolumns entity a ha (parseRecord_keys hval _ hmem)
      have hfields : (a, v) ∈ clientFields r.table val := mem_of_fieldOf
        ((clientFields_find hcol hclient).trans hfind)
      have hvalue := h a (htable.symm ▸ hcol) htime
      rw [hlast a htime hne, flagged_time ha, foldl_assign_time ha
        (clientFields_nodup (parseRecord_nodup hval))
        ((parseRecord_statusFirst hval).sublist (List.filter_sublist.map _)) hfields] at hvalue
      rw [Parsed.get, hfind]
      exact hvalue
  · intro h a _ ha
    by_cases hne : a = .updatedAt
    · subst hne
      unfold update
      simp only
      split <;> rw [setAttr_self _ _ (by decide)] <;> rfl
    · rw [hlast a ha hne]
      refine naive_iff.mp (flagged_naive (foldl_assign_naive hr fun f hf hf' ↦ ?_)) a ha
      have hmem := List.mem_of_mem_filter hf
      have htimes : ∀ entity, ∀ a ∈ datetimeColumns, a ∈ (schema entity).map Prod.fst →
          a ∈ clientTimes := by
        intro entity
        cases entity <;> decide
      have hget := h f.1 (htimes entity f.1 hf' (parseRecord_keys hval f hmem))
      rwa [Parsed.get_of_mem (parseRecord_nodup hval) hmem] at hget

end Row

section Stored

variable {obj s : Row} {new : Bool} {now : Time} {conv : Conv}

theorem columnDefaults_naive {table : Table} :
    ∀ f ∈ table.columnDefaults now, f.2.naive = f.2 := by
  cases table <;> simp [Table.columnDefaults, Val.naive]

theorem Flushed.naive (h : Flushed obj new now s) : s.naive = s := by
  rw [Row.naive_iff]
  intro a ha
  have hscore : ∀ a ∈ datetimeColumns, a ≠ .score := by decide
  have hflushed : obj.naive.attrs a = s.attrs a → (s.attrs a).naive = s.attrs a := by
    intro he
    rw [← he, Row.naive_attrs_of_mem ha, Val.naive_naive]
  by_cases hnull : obj.attrs a = .null
  · cases new with
    | false => exact hflushed (h.naive_updated (hscore a ha)).symm
    | true =>
      cases hdefault : fieldOf (obj.table.columnDefaults now) a with
      | some v =>
        rw [h.attrs_default (hscore a ha) hnull hdefault]
        exact columnDefaults_naive (a, v) (mem_of_fieldOf hdefault)
      | none =>
        refine hflushed (h.naive_without_default (hscore a ha) fun hmem ↦ ?_).symm
        obtain ⟨f, hf, rfl⟩ := List.mem_map.mp hmem
        rw [fieldOf, Option.map_eq_none_iff, Table.find_eq_none] at hdefault
        exact hdefault f hf rfl
  · exact hflushed (h.naive_of_ne (hscore a ha) hnull).symm

end Stored

end RiskApp.Server
