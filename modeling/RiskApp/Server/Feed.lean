import Mathlib.Data.Nat.Basic
import RiskApp.Server.Atomicity

namespace RiskApp.Server

open Lib

def Row.hasType (r : Row) : Prop :=
  r.table = .items → r.attrs .type = .str "risk" ∨ r.attrs .type = .str "opportunity"

theorem Row.Keeps.hasType {r r' : Row} (h : r.Keeps r') (hr : r.hasType) : r'.hasType := by
  intro ht
  rw [h.fixed .type (by decide)]
  exact hr (h.table.symm.trans ht)

/-- The change feed is in order: ids are unique, every row belongs to a project that has a
counter, and within a project the sequences are distinct and at most the counter. -/
structure Data.WellFormed (d : Data) : Prop where
  keys : (d.rows.map Row.key).Nodup
  bounded : ∀ r ∈ d.rows, ∃ p n, d.projectOf r = some p ∧ d.lastSequence p = some n ∧
    1 ≤ r.changeSequence ∧ r.changeSequence ≤ n
  distinct : ∀ r ∈ d.rows, ∀ s ∈ d.rows, d.projectOf r = d.projectOf s →
    r.changeSequence = s.changeSequence → r = s
  parents : ∀ r ∈ d.rows, d.hasParent r
  types : ∀ r ∈ d.rows, r.hasType

/-- Committed writes, as the change feed sees them: rows stay, in their project, and a row that
is new or different carries a sequence above every earlier value of its project's counter. -/
structure FeedStep (d d' : Data) : Prop where
  counter : ∀ p n, d.lastSequence p = some n → ∃ n', d'.lastSequence p = some n' ∧ n ≤ n'
  persists : ∀ r ∈ d.rows, ∃ r' ∈ d'.rows, r.Keeps r' ∧ d'.projectOf r' = d.projectOf r
  stamped : ∀ r' ∈ d'.rows, r' ∈ d.rows ∨ ∃ p n', d'.projectOf r' = some p ∧
    d'.lastSequence p = some n' ∧ r'.changeSequence ≤ n' ∧
    ∀ n, d.lastSequence p = some n → n < r'.changeSequence

theorem Data.WellFormed.eq_of_key {d : Data} (h : d.WellFormed) {r s : Row} (hr : r ∈ d.rows)
    (hs : s ∈ d.rows) (hk : r.key = s.key) : r = s := by
  have hfind := Table.find_of_mem Row.key h.keys hr
  rw [hk, Table.find_of_mem Row.key h.keys hs] at hfind
  exact (Option.some.inj hfind).symm

theorem Data.WellFormed.row_of_mem {d : Data} (h : d.WellFormed) {r : Row} (hr : r ∈ d.rows) :
    d.row r.key = some r :=
  Table.find_of_mem Row.key h.keys hr

theorem FeedStep.refl (d : Data) : FeedStep d d :=
  ⟨fun _ n hn ↦ ⟨n, hn, le_rfl⟩, fun r hr ↦ ⟨r, hr, .refl r, rfl⟩, fun _ hr ↦ Or.inl hr⟩

theorem FeedStep.projectOf_eq {d d' : Data} (h : FeedStep d d') (hd' : d'.WellFormed) {r : Row}
    (hr : r ∈ d.rows) (hr' : r ∈ d'.rows) : d'.projectOf r = d.projectOf r := by
  obtain ⟨s, hs, hk, hp⟩ := h.persists r hr
  have hsr : s = r := hd'.eq_of_key hs hr' hk.key
  rwa [hsr] at hp

theorem FeedStep.trans {d d' d'' : Data} (hd'' : d''.WellFormed) (h : FeedStep d d')
    (h' : FeedStep d' d'') : FeedStep d d'' := by
  refine ⟨fun p n hn ↦ ?_, fun r hr ↦ ?_, fun r hr ↦ ?_⟩
  · obtain ⟨n', hn', hle⟩ := h.counter p n hn
    obtain ⟨n'', hn'', hle'⟩ := h'.counter p n' hn'
    exact ⟨n'', hn'', hle.trans hle'⟩
  · obtain ⟨r', hr', hk, hp⟩ := h.persists r hr
    obtain ⟨r'', hr'', hk', hp'⟩ := h'.persists r' hr'
    exact ⟨r'', hr'', hk.trans hk', hp'.trans hp⟩
  · rcases h'.stamped r hr with hmid | ⟨p, n'', hp, hn'', hle, hgt⟩
    · rcases h.stamped r hmid with hold | ⟨p, n', hp, hn', hle, hgt⟩
      · exact Or.inl hold
      · obtain ⟨n'', hn'', hle'⟩ := h'.counter p n' hn'
        exact Or.inr ⟨p, n'', (h'.projectOf_eq hd'' hmid hr).trans hp, hn'', hle.trans hle', hgt⟩
    · refine Or.inr ⟨p, n'', hp, hn'', hle, fun n hn ↦ ?_⟩
      obtain ⟨n', hn', hle'⟩ := h.counter p n hn
      exact hle'.trans_lt (hgt n' hn')

section Write

variable {d : Data} {p : Uuid} {n : ℕ} (audit : List AuditLog)

/-- One row written under its project's next sequence, over the rows `rows`. -/
def Data.stamp (d : Data) (rows : List Row) (audit : List AuditLog) (p : Uuid) (n : ℕ) : Data :=
  { d with
    rows := rows
    audit := audit
    lastSequence := Function.update d.lastSequence p (some (n + 1)) }

theorem Data.stamp_last (rows : List Row) (q : Uuid) (hn : d.lastSequence p = some n) {m : ℕ}
    (hm : d.lastSequence q = some m) :
    ∃ m', (d.stamp rows audit p n).lastSequence q = some m' ∧ m ≤ m' := by
  by_cases hq : q = p
  · subst hq
    have hmn : m = n := Option.some.inj (hm.symm.trans hn)
    exact ⟨n + 1, by simp [Data.stamp], by omega⟩
  · exact ⟨m, by simp [Data.stamp, Function.update_of_ne hq, hm], le_rfl⟩

/-- What a write of one row needs of the other rows: they are rows of `d` in the same projects,
and no item is lost. -/
structure WritesOne (d : Data) (rows : List Row) (r' : Row) : Prop where
  mem : r' ∈ rows
  keys : (rows.map Row.key).Nodup
  others : ∀ r ∈ rows, r = r' ∨ r ∈ d.rows ∧ r.key ≠ r'.key
  project : ∀ r, (d.projectOf r).isSome →
    ({ d with rows := rows } : Data).projectOf r = d.projectOf r
  items : ∀ i, (d.item i).isSome → (({ d with rows := rows } : Data).item i).isSome
  kept : ∀ r ∈ d.rows, ∃ s ∈ rows, r.Keeps s ∧
    (s = r ∨ s = r' ∧ d.projectOf r' = d.projectOf r)

theorem Data.stamp_wellFormed (hd : d.WellFormed) {rows : List Row} {r' : Row}
    (hw : WritesOne d rows r') (hp : d.projectOf r' = some p) (hn : d.lastSequence p = some n)
    (hs : r'.changeSequence = n + 1) (hparent : d.hasParent r') (htype : r'.hasType) :
    (d.stamp rows audit p n).WellFormed := by
  have hproject : ∀ r, (d.projectOf r).isSome →
      (d.stamp rows audit p n).projectOf r = d.projectOf r := hw.project
  have hold : ∀ r ∈ d.rows, (d.projectOf r).isSome := fun r hr ↦ by
    obtain ⟨q, m, hq, -⟩ := hd.bounded r hr
    rw [hq]
    rfl
  have hnew : (d.projectOf r').isSome := by rw [hp]; rfl
  have hlt : ∀ r ∈ d.rows, d.projectOf r = some p → r.changeSequence < r'.changeSequence := by
    intro r hr hrp
    obtain ⟨q, m, hq, hm, -, hle⟩ := hd.bounded r hr
    obtain rfl : q = p := Option.some.inj (hq.symm.trans hrp)
    obtain rfl : m = n := Option.some.inj (hm.symm.trans hn)
    omega
  refine ⟨hw.keys, fun r hr ↦ ?_, fun r hr s hs' hrs hseq ↦ ?_, fun r hr hcol ↦ ?_,
    fun r hr ↦ ?_⟩
  · rcases hw.others r hr with rfl | ⟨hr, -⟩
    · exact ⟨p, n + 1, (hproject r hnew).trans hp, by simp [Data.stamp], by omega, by omega⟩
    · obtain ⟨q, m, hq, hm, hpos, hle⟩ := hd.bounded r hr
      obtain ⟨m', hm', hmm⟩ := Data.stamp_last audit rows q hn hm
      exact ⟨q, m', (hproject r (hold r hr)).trans hq, hm', hpos, hle.trans hmm⟩
  · rcases hw.others r hr with rfl | ⟨hr, -⟩ <;> rcases hw.others s hs' with rfl | ⟨hs', -⟩
    · rfl
    · rw [hproject r hnew, hproject s (hold s hs'), hp] at hrs
      have := hlt s hs' hrs.symm
      omega
    · rw [hproject r (hold r hr), hproject s hnew, hp] at hrs
      have := hlt r hr hrs
      omega
    · rw [hproject r (hold r hr), hproject s (hold s hs')] at hrs
      exact hd.distinct r hr s hs' hrs hseq
  · have hparents : d.hasParent r := by
      rcases hw.others r hr with rfl | ⟨hr, -⟩
      · exact hparent
      · exact hd.parents r hr
    obtain ⟨i, hi, hsome⟩ := hparents hcol
    exact ⟨i, hi, hw.items i hsome⟩
  · rcases hw.others r hr with rfl | ⟨hr, -⟩
    · exact htype
    · exact hd.types r hr

theorem Data.stamp_feedStep (hd : d.WellFormed) {rows : List Row} {r' : Row}
    (hw : WritesOne d rows r') (hp : d.projectOf r' = some p) (hn : d.lastSequence p = some n)
    (hs : r'.changeSequence = n + 1) : FeedStep d (d.stamp rows audit p n) := by
  have hproject : ∀ r, (d.projectOf r).isSome →
      (d.stamp rows audit p n).projectOf r = d.projectOf r := hw.project
  have hnew : (d.projectOf r').isSome := by rw [hp]; rfl
  refine ⟨fun q m hm ↦ Data.stamp_last audit rows q hn hm, fun r hr ↦ ?_, fun r hr ↦ ?_⟩
  · obtain ⟨s, hs', hk, hcase⟩ := hw.kept r hr
    refine ⟨s, hs', hk, ?_⟩
    obtain ⟨q, m, hq, -⟩ := hd.bounded r hr
    have hsome : (d.projectOf r).isSome := by rw [hq]; rfl
    rcases hcase with rfl | ⟨rfl, hpr⟩
    · exact hproject s hsome
    · exact (hproject s hnew).trans hpr
  · rcases hw.others r hr with rfl | ⟨hr, -⟩
    · right
      refine ⟨p, n + 1, (hproject r hnew).trans hp, by simp [Data.stamp], by omega, fun m hm ↦ ?_⟩
      have hmn : m = n := Option.some.inj (hm.symm.trans hn)
      omega
    · exact Or.inl hr

end Write

theorem writesOne_replace {d : Data} (hd : d.WellFormed) {r r' : Row} (hr : r ∈ d.rows)
    (hk : r.Keeps r') (hp : d.projectOf r' = d.projectOf r) :
    WritesOne d (Table.replace Row.key r' d.rows) r' := by
  have hrow := hd.row_of_mem hr
  refine ⟨?_, by rw [Table.map_key_replace]; exact hd.keys, fun s hs ↦ ?_, fun s _ ↦ ?_,
    fun i hi ↦ ?_, fun s hs ↦ ?_⟩
  · exact List.mem_map.mpr ⟨r, hr, by simp [hk.key]⟩
  · exact Table.mem_replace Row.key hs
  · exact Data.projectOf_replace hrow hk s
  · unfold Data.item at hi ⊢
    rw [Data.row_replace hrow hk.key]
    split
    · rfl
    · exact hi
  · by_cases he : s.key = r.key
    · obtain rfl := hd.eq_of_key hs hr he
      refine ⟨r', ?_, hk, Or.inr ⟨rfl, hp⟩⟩
      exact List.mem_map.mpr ⟨s, hr, by simp [hk.key]⟩
    · refine ⟨s, ?_, .refl s, Or.inl rfl⟩
      exact List.mem_map.mpr ⟨s, hs, by rw [hk.key, if_neg he]⟩

theorem Data.item_append {d : Data} {r' : Row} {i : Uuid} {o : Row} (h : d.item i = some o) :
    ({ d with rows := d.rows ++ [r'] } : Data).item i = some o := by
  unfold Data.item Data.row at h ⊢
  rw [Table.find_append, h]
  rfl

theorem writesOne_append {d : Data} (hd : d.WellFormed) {r' : Row} (hfresh : d.row r'.key = none) :
    WritesOne d (d.rows ++ [r']) r' := by
  have hkeys : ∀ s ∈ d.rows, s.key ≠ r'.key := (Table.find_eq_none Row.key).mp hfresh
  refine ⟨by simp, ?_, fun s hs ↦ ?_, fun s hs ↦ ?_, fun i hi ↦ ?_, fun s hs ↦ ?_⟩
  · rw [List.map_append, List.map_cons, List.map_nil]
    refine List.nodup_append.mpr ⟨hd.keys, by simp, fun k hk k' hk' he ↦ ?_⟩
    obtain ⟨s, hs, rfl⟩ := List.mem_map.mp hk
    exact hkeys s hs (he.trans (List.mem_singleton.mp hk'))
  · rcases List.mem_append.mp hs with hs | hs
    · exact Or.inr ⟨hs, hkeys s hs⟩
    · exact Or.inl (List.mem_singleton.mp hs)
  · obtain ⟨q, hq⟩ := Option.isSome_iff_exists.mp hs
    obtain ⟨ht, hown⟩ | ⟨ht, i, hi, hitem⟩ := Data.projectOf_eq hq
    · cases htable : s.table <;> simp_all [Data.projectOf]
    · obtain ⟨o, ho, hop⟩ := Option.bind_eq_some_iff.mp hitem
      rw [Data.projectOf_assessment ht hi, Data.projectOf_assessment ht hi, Data.item_append ho, ho]
  · obtain ⟨o, ho⟩ := Option.isSome_iff_exists.mp hi
    rw [Data.item_append ho]
    rfl
  · exact ⟨s, List.mem_append_left _ hs, .refl s, Or.inl rfl⟩

theorem Applied.feedStep {d d' : Data} {userId projectId entityId : Uuid} {change : SyncChange}
    (h : Applied d userId projectId change entityId d') (hd : d.WellFormed) :
    d'.WellFormed ∧ FeedStep d d' := by
  cases h with
  | absent => exact ⟨hd, .refl d⟩
  | @modified r r' n entry found scope base pos keeps version project last sequence parent =>
    obtain ⟨hrow, hp⟩ := fetchObj_some found
    have hmem := Table.mem_of_find Row.key hrow
    have hw := writesOne_replace hd hmem keeps (project.trans hp.symm)
    have htype := keeps.hasType (hd.types r hmem)
    exact ⟨Data.stamp_wellFormed _ hd hw project last sequence parent htype,
      Data.stamp_feedStep _ hd hw project last sequence⟩
  | @created r' n entry op missing fresh key version type assessor project last sequence parent =>
    have hw := writesOne_append hd (key ▸ fresh : d.row r'.key = none)
    have htype : r'.hasType := by
      intro ht
      have htable : change.entity.table = .items := (congrArg Prod.fst key).symm.trans ht
      cases he : change.entity <;> simp [he, Entity.table] at htable
      · exact Or.inl (by simpa [he, Entity.name] using type (by rw [he]; rfl))
      · exact Or.inr (by simpa [he, Entity.name] using type (by rw [he]; rfl))
    exact ⟨Data.stamp_wellFormed _ hd hw project last sequence parent htype,
      Data.stamp_feedStep _ hd hw project last sequence⟩

section Push

variable {Digest : Type} [DecidableEq Digest] (conv : Conv) (sha : Payload → Digest)

theorem step_feedStep (ctx : PushContext Digest) (c : SyncChange × Time)
    (hd : ctx.db.data.WellFormed) :
    (ctx.step conv sha c).db.data.WellFormed ∧
      FeedStep ctx.db.data (ctx.step conv sha c).db.data := by
  by_cases hs : (ctx.answer conv sha c).status = .accepted
  · rcases PushContext.step_accepted conv sha hs with ⟨-, hsame⟩ | ⟨entityId, -, happ⟩
    · rw [hsame]
      exact ⟨hd, .refl _⟩
    · exact happ.feedStep hd
  · rw [(PushContext.step_not_accepted conv sha hs).1]
    exact ⟨hd, .refl _⟩

theorem run_feedStep (ctx : PushContext Digest) (cs : List (SyncChange × Time))
    (hd : ctx.db.data.WellFormed) :
    (ctx.run conv sha cs).db.data.WellFormed ∧
      FeedStep ctx.db.data (ctx.run conv sha cs).db.data := by
  induction cs generalizing ctx with
  | nil => exact ⟨hd, .refl _⟩
  | cons c cs ih =>
    obtain ⟨hd', hstep⟩ := step_feedStep conv sha ctx c hd
    obtain ⟨hd'', hrun⟩ := ih (ctx.step conv sha c) hd'
    exact ⟨hd'', hstep.trans hd'' hrun⟩

/-- A push is a step of the change feed. -/
theorem pushChanges_feedStep {db db' : Db Digest} {userId projectId : Uuid}
    {changes : List (SyncChange × Time)} {results : List ChangeResult}
    (hd : db.data.WellFormed)
    (h : pushChanges conv sha db userId projectId changes = .ok (db', results)) :
    db'.data.WellFormed ∧ FeedStep db.data db'.data := by
  obtain ⟨ctx, hopen, hrun⟩ := Result.map_ok h
  obtain ⟨-, role, -, rfl⟩ := openPush_ok hopen
  cases hrun
  exact run_feedStep conv sha (.start db userId projectId role changes) changes hd

end Push

theorem sampleDb_wellFormed : sampleDb.data.WellFormed := by
  have hrow : ∀ r ∈ sampleDb.data.rows, r = sampleRisk := fun r hr ↦ List.mem_singleton.mp hr
  refine ⟨by decide, fun r hr ↦ ?_, fun r hr s hs _ _ ↦ ?_, fun r hr ↦ ?_, fun r hr ↦ ?_⟩
  · rw [hrow r hr]
    exact ⟨1, 1, rfl, rfl, by decide, by decide⟩
  · rw [hrow r hr, hrow s hs]
  · rw [hrow r hr]
    exact fun hcol ↦ absurd hcol (by decide)
  · rw [hrow r hr]
    exact fun _ ↦ Or.inl rfl

end RiskApp.Server
