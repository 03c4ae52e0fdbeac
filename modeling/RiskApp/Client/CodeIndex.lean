import RiskApp.Lib.Labels
import RiskApp.Client.Superseded

namespace RiskApp.Client

open Lib Server

def recordCode (entity : Entity) (record : Dict) : Val :=
  if entity.scored then normText (record.get .code) else .null

def rowCode (entity : Entity) (o : Option CachedRow) : Val :=
  if entity.scored then (o.map (·.columns .code)).getD .null else .null

theorem rowCode_none (entity : Entity) : rowCode entity none = .null := ite_self _

theorem rowCode_some {entity : Entity} (hs : entity.scored = true) (r : CachedRow) :
    rowCode entity (some r) = r.columns .code := if_pos hs

namespace Cache

def code (c : Cache) (k : EntityKey) : Val := rowCode k.1 (c.row k)

/-- What SQLite checks of the rows: their primary keys, and that a code of the project is in one
row of its table. -/
structure Indexed (c : Cache) : Prop where
  keys : (c.rows.map CachedRow.key).Nodup
  codes : Labels.Distinct Prod.fst Val.null c.code

variable {c c' t : Cache} {k : EntityKey} {entity : Entity} {record : Dict} {columns : Columns}
  {v : Val}

theorem code_of_rows (h : t.rows = c.rows) : t.code = c.code :=
  funext fun k ↦ congrArg (rowCode k.1) (row_of_rows h k)

theorem Indexed.of_rows (hi : c.Indexed) (h : t.rows = c.rows) : t.Indexed :=
  ⟨h ▸ hi.keys, code_of_rows h ▸ hi.codes⟩

theorem keys_updateRows (c : Cache) (p : CachedRow → Bool) {f : CachedRow → CachedRow}
    (hf : ∀ r, (f r).key = r.key) :
    (c.updateRows p f).rows.map CachedRow.key = c.rows.map CachedRow.key := by
  rw [updateRows, List.map_map]
  refine List.map_congr_left fun r _ ↦ ?_
  rw [Function.comp_apply]
  split
  · exact hf r
  · rfl

theorem codeTaken_iff (hk : (c.rows.map CachedRow.key).Nodup) :
    c.codeTaken k v = true ↔
      v ≠ .null ∧ k.1.scored = true ∧ ∃ j, j ≠ k ∧ j.1 = k.1 ∧ c.code j = v := by
  simp only [codeTaken, Bool.and_eq_true, decide_eq_true_eq, List.any_eq_true]
  constructor
  · rintro ⟨⟨hs, hv⟩, r, hr, ⟨htable, hne⟩, hcode⟩
    refine ⟨hv, hs, r.key, hne, htable, ?_⟩
    have hfind : c.row r.key = some r := Table.find_of_mem CachedRow.key hk hr
    have hscored : r.key.1.scored = true := (congrArg Entity.scored htable).trans hs
    rw [code, hfind, rowCode_some hscored, hcode]
  · rintro ⟨hv, hs, j, hne, htable, hcode⟩
    refine ⟨⟨hs, hv⟩, ?_⟩
    cases hr : c.row j with
    | none =>
      rw [code, hr, rowCode_none] at hcode
      exact absurd hcode.symm hv
    | some r =>
      have hkey : r.key = j := Table.key_of_find CachedRow.key hr
      have hentity : r.entity = j.1 := congrArg Prod.fst hkey
      refine ⟨r, Table.mem_of_find CachedRow.key hr, ⟨hentity.trans htable, hkey ▸ hne⟩, ?_⟩
      rw [code, hr, rowCode_some (htable ▸ hs)] at hcode
      exact hcode

theorem pulledColumns_recordCode (h : c.pulledColumns entity record = some columns) :
    columns .code = recordCode entity record := by
  cases entity with
  | risk => exact (Option.some.inj (pulledColumns_fields h .code (by decide))).symm
  | opportunity => exact (Option.some.inj (pulledColumns_fields h .code (by decide))).symm
  | action | assessment | helpdeskTicket =>
    obtain rfl := Option.some.inj h
    rfl

theorem code_takeRecord (h : c.pulledColumns k.1 record = some columns) :
    (c.takeRecord k record columns).code =
      Labels.claim Prod.fst .null k (recordCode k.1 record) c.code := by
  have hcolumns := pulledColumns_recordCode h
  funext j
  by_cases hj : j = k
  · subst hj
    rw [Labels.claim_self, code, row_takeRecord, if_pos rfl]
    cases hs : j.1.scored with
    | true =>
      rw [rowCode_some hs]
      exact hcolumns
    | false => simp only [rowCode, recordCode, hs, Bool.false_eq_true, if_false]
  · rw [code, row_takeRecord, if_neg (Ne.symm hj)]
    cases hr : c.row j with
    | none =>
      have hnone : c.code j = .null := by rw [code, hr, rowCode_none]
      rw [Option.map_none, rowCode_none]
      rcases Labels.claim_or Prod.fst Val.null (recordCode k.1 record) c.code hj with hb | ⟨hs, -⟩
      · exact hb.symm
      · exact (hs.trans hnone).symm
    | some r =>
      have hkey : r.key = j := Table.key_of_find CachedRow.key hr
      have hentity : r.entity = j.1 := congrArg Prod.fst hkey
      have hid : r.id = j.2 := congrArg Prod.snd hkey
      have hcode : c.code j = rowCode j.1 (some r) := congrArg (rowCode j.1) hr
      rw [Option.map_some]
      by_cases hv : j.1 = k.1 ∧ c.code j = recordCode k.1 record
      · rw [Labels.claim_taken hj hv.1 hv.2]
        split
        · simp [rowCode, clearCode, CachedRow.setColumn]
        · rename_i hkeeps
          cases hs : j.1.scored with
          | false => simp only [rowCode, hs, Bool.false_eq_true, if_false]
          | true =>
            rw [rowCode_some hs] at hcode ⊢
            by_contra hnull
            refine hkeeps ?_
            have hsame : columns .code = r.columns .code :=
              hcolumns.trans (hv.2.symm.trans hcode)
            have hother : j.2 ≠ k.2 := fun h ↦ hj (Prod.ext hv.1 h)
            simp [holdsCode, hentity, hid, hv.1, hsame, hnull, hother]
      · rw [Labels.claim_of_ne hj hv, hcode]
        split
        · rename_i hholds
          simp only [holdsCode, Bool.and_eq_true, decide_eq_true_eq] at hholds
          obtain ⟨⟨⟨htable, hnull⟩, hsame⟩, -⟩ := hholds
          have hscored := (pulledColumns_code h hnull).1
          have htable : j.1 = k.1 := hentity.symm.trans htable
          refine absurd ⟨htable, ?_⟩ hv
          rw [hcode, rowCode_some (htable ▸ hscored), hsame, hcolumns]
        · rfl

theorem Indexed.takeRecord (hi : c.Indexed) (h : c.pulledColumns k.1 record = some columns) :
    (c.takeRecord k record columns).Indexed := by
  refine ⟨Table.nodup_upsert CachedRow.key ?_ _, code_takeRecord h ▸ hi.codes.claim k _⟩
  rw [keys_updateRows c (f := clearCode) _ fun _ ↦ rfl]
  exact hi.keys

theorem Indexed.pulls {pendingIds : List Uuid} (hi : c.Indexed)
    (h : PullsRecord c entity pendingIds record c') : c'.Indexed := by
  cases h with
  | skipped nameless => exact hi
  | kept named pending remembered => exact hi.of_rows (rememberConflict_remembers remembered).1
  | @saved id columns named free built => exact hi.takeRecord (k := (entity, id)) built

theorem Indexed.applyPull {pull : Download} (hi : c.Indexed)
    (h : (Cache.applyPull pull).eval c = some ((), c')) : c'.Indexed :=
  applyPull_induction h hi (fun _ _ ht ↦ ht.of_rows rfl) fun _ _ _ _ _ _ ht hs ↦ ht.pulls hs

theorem mem_of_lastNamed {records : List Dict} {id : Uuid}
    (h : lastNamed records id = some record) :
    record ∈ records ∧ recordId record = some id := by
  have hmem := List.mem_of_getLast? h
  obtain ⟨hin, hid⟩ := List.mem_filter.mp hmem
  exact ⟨hin, of_decide_eq_true hid⟩

theorem lastNamed_isSome {records : List Dict} {id : Uuid} (hin : record ∈ records)
    (hid : recordId record = some id) : ∃ last, lastNamed records id = some last := by
  cases h : lastNamed records id with
  | some last => exact ⟨last, rfl⟩
  | none =>
    have hempty := List.getLast?_eq_none_iff.mp h
    have hmem : record ∈ records.filter (recordId · = some id) :=
      List.mem_filter.mpr ⟨hin, decide_eq_true hid⟩
    rw [hempty] at hmem
    cases hmem

theorem Stays.codes {records : List Dict} {o o' : Option CachedRow} (h : Stays k records o o') :
    rowCode k.1 o' = rowCode k.1 o ∨
      rowCode k.1 o' = .null ∧ Reassigned k records (rowCode k.1 o) := by
  rcases h with hsame | ⟨r, rfl, rfl, hcode⟩
  · exact Or.inl (congrArg _ hsame)
  · refine Or.inr ⟨?_, ?_⟩
    · simp [rowCode, clearCode, CachedRow.setColumn]
    · rwa [rowCode_some hcode.1]

section Pull

variable {g : EntityKey → Val} {pull : Download}

def named (c : Cache) (pull : Download) : Set EntityKey :=
  {k | c.outbox.entry k = none ∧ ∃ record ∈ pull.ofEntity k.1, recordId record = some k.2}

/-- No record of the pull gives a row's right code to another row. -/
theorem not_reassigned (hg : Labels.Distinct Prod.fst Val.null g)
    (hcodes : ∀ entity, ∀ record ∈ pull.ofEntity entity, ∀ id, recordId record = some id →
      recordCode entity record = g (entity, id)) (h : v = g k) :
    ¬ Reassigned k (pull.ofEntity k.1) v := by
  rintro ⟨hs, hnull, record, hin, id, hid, hne, hcode⟩
  have hrecord := hcodes k.1 record hin id hid
  rw [recordCode, if_pos hs, hcode] at hrecord
  have hsame : (k.1, id) = k := hg (k.1, id) k rfl (hrecord.symm.trans h) (hrecord ▸ hnull)
  exact hne (congrArg Prod.snd hsame)

theorem pull_adopts (hg : Labels.Distinct Prod.fst Val.null g)
    (hcodes : ∀ entity, ∀ record ∈ pull.ofEntity entity, ∀ id, recordId record = some id →
      recordCode entity record = g (entity, id)) (h : Pulled c pull c') :
    Labels.Adopts .null g (c.named pull) c.code c'.code := by
  have hstays : ∀ k, k ∉ c.named pull →
      Stays k (pull.ofEntity k.1) (c.row k) (c'.row k) := by
    intro k hk
    cases hopen : c.outbox.entry k with
    | some e => exact h.pending k (by rw [hopen]; rfl)
    | none =>
      cases hlast : lastNamed (pull.ofEntity k.1) k.2 with
      | none => exact h.others k hlast
      | some record => exact absurd ⟨hopen, record, mem_of_lastNamed hlast⟩ hk
  have htaken : ∀ k ∈ c.named pull, c'.code k = g k := by
    rintro k ⟨hopen, record, hin, hid⟩
    obtain ⟨last, hlast⟩ := lastNamed_isSome hin hid
    obtain ⟨hlastIn, hlastId⟩ := mem_of_lastNamed hlast
    obtain ⟨r, hr, hstay⟩ := h.pulled k last hopen hlast
    have hright : rowCode k.1 (some r) = g k := by
      rw [← hcodes k.1 last hlastIn k.2 hlastId]
      cases hk : k.1 with
      | risk | opportunity =>
        have hfield := hr.fields .code (by rw [hk]; decide)
        rw [hk] at hfield
        exact (Option.some.inj hfield).symm
      | _ => rfl
    rcases hstay.codes with hsame | ⟨-, hre⟩
    · exact hsame.trans hright
    · exact absurd hre (not_reassigned hg hcodes hright)
  refine ⟨htaken, fun k hk ↦ ?_, fun k hright ↦ ?_⟩
  · exact (hstays k hk).codes.imp id And.left
  · by_cases hk : k ∈ c.named pull
    · exact htaken k hk
    · rcases (hstays k hk).codes with hsame | ⟨-, hre⟩
      · exact Eq.trans hsame hright
      · exact absurd hre (not_reassigned hg hcodes hright)

end Pull

end Cache

end RiskApp.Client
