import RiskApp.Server.Work

namespace RiskApp.Server

open Lib

section Claim

variable {v : Data} {s : Row} (now : Time)

theorem Row.claim_attrs {a : Attr} (ha : a ≠ .updatedAt) : (s.claim now).attrs a = s.attrs a :=
  s.setAttr_attrs_of_ne _ ha

theorem Data.projectOf_claim : v.projectOf (s.claim now) = v.projectOf s := by
  have hp := s.claim_attrs now (show Attr.projectId ≠ .updatedAt by decide)
  have hi := s.claim_attrs now (show Attr.itemId ≠ .updatedAt by decide)
  have ht := (s.keeps_claim now).table
  unfold Data.projectOf Row.ownProject
  rw [hp, hi, ht]

theorem Data.hasParent_claim (h : v.hasParent s) : v.hasParent (s.claim now) := by
  intro hcol
  rw [(s.keeps_claim now).table] at hcol
  obtain ⟨i, hi, hsome⟩ := h hcol
  exact ⟨i, (s.claim_attrs now (by decide)).trans hi, hsome⟩

end Claim

section WriteChanges

variable {v : Data} {s l obj : Row}

theorem Row.keeps_writeChanges (h : l.Keeps obj) : s.Keeps (s.writeChanges l obj) :=
  ⟨rfl, rfl, fun a ha ↦ if_pos (h.fixed a ha)⟩

theorem Data.projectOf_writeChanges {p : Uuid} (h : l.Keeps obj) (hl : l.Keeps s)
    (hs : v.projectOf s = some p) (hobj : v.projectOf obj = some p) :
    v.projectOf (s.writeChanges l obj) = some p := by
  by_cases ht : s.table = .assessments
  · have hto : obj.table = .assessments := h.table.trans (hl.table.symm.trans ht)
    by_cases hi : obj.attrs .itemId = l.attrs .itemId
    · have he : (s.writeChanges l obj).attrs .itemId = s.attrs .itemId := if_pos hi
      rw [← hs]
      unfold Data.projectOf
      rw [he, show (s.writeChanges l obj).table = s.table from rfl, ht]
    · have he : (s.writeChanges l obj).attrs .itemId = obj.attrs .itemId := if_neg hi
      rw [← hobj]
      unfold Data.projectOf
      rw [he, show (s.writeChanges l obj).table = s.table from rfl, ht, hto]
  · rw [(Row.keeps_writeChanges h).projectOf_ne ht, hs]

end WriteChanges

theorem Row.withDefaults_hasType {r : Row} (h : r.hasType) (now : Time) :
    (r.withDefaults now).hasType := by
  intro ht
  have htype := h ht
  have hne : r.attrs .type ≠ .null := by
    rcases htype with he | he <;> simp [he]
  rwa [Row.withDefaults_attrs now hne]

theorem createNew_hasType {conv : Conv} {d : Data} {userId projectId : Uuid} {entity : Entity}
    {entityId : Uuid} {record : Dict} {now : Time} {obj : Row}
    (h : createNew conv d userId projectId entity entityId record now = .ok obj) :
    obj.hasType := by
  intro ht
  have htable : entity.table = .items := (congrArg Prod.fst (createNew_ok h).1).symm.trans ht
  cases he : entity <;> rw [he] at htable h <;> try cases htable
  · exact Or.inl ((createNew_owner h).1 rfl)
  · exact Or.inr ((createNew_owner h).1 rfl)

structure Loaded (v : Data) (l obj : Row) : Prop where
  keeps : l.Keeps obj
  stored : ∃ s p, v.row l.key = some s ∧ l.Keeps s ∧ v.projectOf s = some p ∧ v.Placed obj p

theorem Loaded.mono {v v' : Data} {l obj : Row} (h : Loaded v l obj) (hext : v.Extends v') :
    Loaded v' l obj := by
  obtain ⟨s, p, hs, hk, hp, ho⟩ := h.stored
  obtain ⟨s', hs', hk', hp'⟩ := hext _ s hs
  exact ⟨h.keeps, s', p, hs', hk.trans hk', hp' p hp, ho.imp_left hext.projectOf⟩

theorem Loaded.of_row {v : Data} {r : Row} {p : Uuid} (hr : v.row r.key = some r)
    (hp : v.projectOf r = some p) : Loaded v r r :=
  ⟨.refl r, r, p, hr, .refl r, hp, Or.inl hp⟩

namespace Stage

/-- The row that is claimed, or about to be written, and not flushed. -/
def claimedKey : Stage → Option RowKey
  | claimed _ r => some r.key
  | pending _ (some l) _ => some l.key
  | sequenced _ (some l) _ => some l.key
  | _ => none

def Ok (d : Data) (w : Work) : Stage → Prop
  | locking _ | ready | written | selected none => True
  | selected (some r) | claimed _ r => Loaded (w.view d) r r
  | pending _ none obj => obj.hasType
  | pending _ (some l) obj => Loaded (w.view d) l obj
  | sequenced _ none obj => obj.hasType ∧
      ∃ p, (w.view d).projectOf obj = some p ∧ w.Fresh d none p obj.changeSequence
  | sequenced _ (some l) obj => Loaded (w.view d) l obj ∧
      ∃ p, (w.view d).projectOf obj = some p ∧ w.Fresh d (some l.key) p obj.changeSequence

end Stage

def Task.Suits (v : Data) : Task → Stage → Prop
  | .sync _ projectId change _, .selected (some r) => r.table = change.entity.table ∧
      v.projectOf r = some projectId
  | .sync _ projectId change _, .claimed _ r => r.table = change.entity.table ∧
      v.projectOf r = some projectId
  | .patch p, .claimed _ r => r.table = p.table
  | _, _ => True

theorem Task.Suits.mono {v v' : Data} (hext : v.Extends v') {t : Task} {stage : Stage}
    (h : t.Suits v stage) : t.Suits v' stage := by
  unfold Task.Suits at h ⊢
  split <;> simp_all [hext.projectOf]

structure Work.Within (w₀ w : Work) : Prop where
  rows : ∀ k, (w₀.row k).isSome → (w.row k).isSome
  counters : ∀ p, (w₀.counters p).isSome → (w.counters p).isSome

structure Tx.Inv (d : Data) (tx : Tx) : Prop where
  sound : tx.work.Sound d tx.stage.claimedKey
  stage : tx.stage.Ok d tx.work
  suits : ∀ t ∈ tx.tasks.head?, t.Suits (tx.work.view d) tx.stage
  saved : ∀ w₀ ∈ tx.saved, w₀.Sound d none ∧ w₀.Within tx.work

namespace Work.Within

variable {w₀ w : Work}

theorem refl (w : Work) : w.Within w := ⟨fun _ h ↦ h, fun _ h ↦ h⟩

theorem put (h : w₀.Within w) (r : Row) : w₀.Within (w.put r) := by
  refine ⟨fun k hk ↦ ?_, h.counters⟩
  rw [put_row]
  split
  · rfl
  · exact h.rows k hk

theorem setCounter (h : w₀.Within w) (p : Uuid) (n : ℕ) : w₀.Within (w.setCounter p n) := by
  refine ⟨h.rows, fun q hq ↦ ?_⟩
  by_cases hqp : q = p
  · subst hqp
    simp [Work.setCounter]
  · simpa [Work.setCounter, Function.update_of_ne hqp] using h.counters q hq

theorem record (h : w₀.Within w) (b : ℕ) (r : Row) : w₀.Within (w.record b r) :=
  ⟨h.rows, h.counters⟩

theorem apart (h : w₀.Within w) {d d' : Data} (ha : w.Apart d d') : w₀.Apart d d' :=
  ⟨ha.wellFormed, ha.extends', fun k hk ↦ ha.rows k (h.rows k hk),
    fun p hp ↦ ha.counters p (h.counters p hp)⟩

end Work.Within

theorem Stage.Ok.frame {d d' : Data} {w : Work} {stage : Stage} (h : stage.Ok d w)
    (hs : w.Sound d stage.claimedKey) (ha : w.Apart d d') : stage.Ok d' w := by
  have hext := hs.view_extends ha
  match stage, h with
  | .locking _, _ | .ready, _ | .written, _ | .selected none, _ => trivial
  | .selected (some r), h | .claimed _ r, h => exact Loaded.mono h hext
  | .pending _ none obj, h => exact h
  | .pending _ (some l) obj, h => exact Loaded.mono h hext
  | .sequenced _ none obj, ⟨h, p, hp, hf⟩ =>
    exact ⟨h, p, hext.projectOf hp, hf.frame hs ha⟩
  | .sequenced _ (some l) obj, ⟨h, p, hp, hf⟩ =>
    exact ⟨h.mono hext, p, hext.projectOf hp, hf.frame hs ha⟩

theorem Tx.Inv.frame {d d' : Data} {tx : Tx} (h : tx.Inv d) (ha : tx.work.Apart d d') :
    tx.Inv d' where
  sound := h.sound.frame ha
  stage := h.stage.frame h.sound ha
  suits t ht := (h.suits t ht).mono (h.sound.view_extends ha)
  saved w₀ hw := by
    obtain ⟨hs, hin⟩ := h.saved w₀ hw
    exact ⟨hs.frame (hin.apart ha), hin⟩

theorem Tx.Initial.inv {tx : Tx} (h : tx.Initial) (d : Data) : tx.Inv d := by
  have hsuits : ∀ t, Task.Suits d t .ready := fun t ↦ by cases t <;> trivial
  rcases h with ⟨u, p, cs, rfl⟩ | ⟨t, -, rfl⟩
  · refine ⟨.empty d, trivial, fun t ht ↦ ?_, fun w₀ hw ↦ by cases hw⟩
    cases t <;> trivial
  · exact ⟨.empty d, trivial, fun t ht ↦ by cases t <;> trivial, fun w₀ hw ↦ by cases hw⟩

section Steps

variable {conv : Conv} {d : Data} {rowFree : RowKey → Prop} {counterFree : Uuid → Prop}

theorem TxStep.locks {tx tx' : Tx} (h : TxStep conv d rowFree counterFree tx tx')
    (hs : ∀ w₀ ∈ tx.saved, w₀.Within tx.work) :
    (∀ k, (tx'.work.row k).isSome → (tx.work.row k).isSome ∨ rowFree k) ∧
      ∀ p, (tx'.work.counters p).isSome → (tx.work.counters p).isSome ∨ counterFree p := by
  have hput : ∀ (w : Work) (r : Row), rowFree r.key → ∀ k, ((w.put r).row k).isSome →
      (w.row k).isSome ∨ rowFree k := by
    intro w r hr k hk
    rw [Work.put_row] at hk
    split at hk
    · rename_i he
      exact Or.inr (he ▸ hr)
    · exact Or.inl hk
  have hset : ∀ (w : Work) (p : Uuid) (n : ℕ), counterFree p →
      ∀ q, ((w.setCounter p n).counters q).isSome → (w.counters q).isSome ∨ counterFree q := by
    intro w p n hp q hq
    by_cases hqp : q = p
    · exact Or.inr (hqp ▸ hp)
    · left
      simpa [Work.setCounter, Function.update_of_ne hqp] using hq
  cases h with
  | lock free found => exact ⟨fun k hk ↦ Or.inl hk, hset _ _ _ free⟩
  | claim checked found free =>
    refine ⟨hput _ _ ?_, fun p hp ↦ Or.inl hp⟩
    rwa [(Row.keeps_claim _ _).key]
  | claimPatch found free =>
    refine ⟨hput _ _ ?_, fun p hp ↦ Or.inl hp⟩
    rwa [(Row.keeps_claim _ _).key]
  | sequence stamped project next free => exact ⟨fun k hk ↦ Or.inl hk, hset _ _ _ free⟩
  | insert row fits admitted fresh free => exact ⟨hput _ _ free, fun p hp ↦ Or.inl hp⟩
  | write found row fits admitted free => exact ⟨hput _ _ free, fun p hp ↦ Or.inl hp⟩
  | fail =>
    have hin := hs _ rfl
    exact ⟨fun k hk ↦ Or.inl (hin.rows k hk), fun p hp ↦ Or.inl (hin.counters p hp)⟩
  | _ => exact ⟨fun k hk ↦ Or.inl hk, fun p hp ↦ Or.inl hp⟩

theorem Work.Sound.hasType {w : Work} {c : Option RowKey} (h : w.Sound d c) (hd : d.WellFormed)
    {k : RowKey} {r : Row} (hr : (w.view d).row k = some r) : r.hasType := by
  rcases Work.mem_view (Table.mem_of_find Row.key hr) with hr | ⟨hr, -⟩
  · exact h.types r hr
  · exact hd.types r hr

theorem Work.Sound.hasParent {w : Work} {c : Option RowKey} (h : w.Sound d c) (hd : d.WellFormed)
    {k : RowKey} {r : Row} (hr : (w.view d).row k = some r) : (w.view d).hasParent r := by
  rcases Work.mem_view (Table.mem_of_find Row.key hr) with hr | ⟨hr, -⟩
  · exact h.parents r hr
  · exact h.extends.hasParent (hd.parents r hr)

theorem Work.Sound.project {w : Work} {c : Option RowKey} (h : w.Sound d c) (hd : d.WellFormed)
    {k : RowKey} {r : Row} (hr : (w.view d).row k = some r) :
    ∃ p, (w.view d).projectOf r = some p := by
  rcases Work.mem_view (Table.mem_of_find Row.key hr) with hr | ⟨hr, -⟩
  · obtain ⟨p, hp, -⟩ := h.origin r hr
    exact ⟨p, hp⟩
  · obtain ⟨p, -, hp, -⟩ := hd.bounded r hr
    exact ⟨p, h.extends.projectOf hp⟩

theorem Work.Sound.claim {w : Work} (h : w.Sound d none) (hd : d.WellFormed) {k : RowKey}
    {s : Row} (hs : (w.view d).row k = some s) (now : Time) :
    (w.put (s.claim now)).Sound d (some s.key) ∧
      (w.view d).Extends ((w.put (s.claim now)).view d) := by
  obtain ⟨p, hp⟩ := h.project hd hs
  have hk := s.keeps_claim now
  have hkey : s.key = k := Table.key_of_find Row.key hs
  have hclaim : (w.view d).projectOf (s.claim now) = some p :=
    (Data.projectOf_claim now).trans hp
  have hold : ∀ s', (w.view d).row (s.claim now).key = some s' →
      s'.Keeps (s.claim now) ∧ (w.view d).projectOf s' = some p := by
    intro s' hs'
    rw [hk.key, hkey, hs] at hs'
    cases hs'
    exact ⟨hk, hp⟩
  exact ⟨h.put hd hclaim hold (Data.hasParent_claim now (h.hasParent hd hs))
    (hk.hasType (h.hasType hd hs)) (Or.inl rfl) (Or.inl (by rw [hk.key])),
    Work.view_extends_put hclaim hold⟩

theorem Task.suits_of_not_held {v : Data} (t : Task) {stage : Stage}
    (h : ∀ b r, stage ≠ .selected (some r) ∧ stage ≠ .claimed b r) : t.Suits v stage := by
  unfold Task.Suits
  split
  · exact absurd rfl (h 0 _).1
  · exact absurd rfl (h _ _).2
  · exact absurd rfl (h _ _).2
  · trivial

theorem Work.Sound.row_of_mem {w : Work} {c : Option RowKey} (h : w.Sound d c)
    (hd : d.WellFormed) {r : Row} (hr : r ∈ (w.view d).rows) : (w.view d).row r.key = some r :=
  Table.find_of_mem Row.key (Table.nodup_overlay Row.key h.nodup hd.keys) hr

theorem Patch.loaded_edit {v : Data} (p : Patch) {r : Row} (h : Loaded v r r)
    (ht : r.table = p.table) : Loaded v r (p.edit r) := by
  obtain ⟨s, q, hs, hk, hq, hr⟩ := h.stored
  refine ⟨p.keeps r, s, q, hs, hk, hq, ?_⟩
  by_cases hta : r.table = .assessments
  · unfold Data.Placed Data.projectOf
    rw [p.parent r (ht.symm.trans hta), (p.keeps r).table, hta]
    simpa [Data.Placed, Data.projectOf, hta] using hr
  · left
    rw [(p.keeps r).projectOf_ne hta]
    exact hr.resolve_right fun h ↦ hta h.1

theorem Loaded.softDelete {v : Data} {r : Row} (h : Loaded v r r) (now : Time) :
    Loaded v r (r.softDelete now) := by
  obtain ⟨s, q, hs, hk, hq, hr⟩ := h.stored
  refine ⟨r.keeps_softDelete now, s, q, hs, hk, hq, ?_⟩
  unfold Data.Placed
  rwa [Data.projectOf_softDelete, Row.softDelete_itemId, (r.keeps_softDelete now).table]

theorem Loaded.stamped {v : Data} {l obj obj' : Row} {n : ℕ} (h : Loaded v l obj)
    (hst : Stamped obj obj' n) : Loaded v l obj' := by
  obtain ⟨s, q, hs, hk, hq, ho⟩ := h.stored
  refine ⟨h.keeps.trans hst.keeps, s, q, hs, hk, hq, ?_⟩
  unfold Data.Placed
  rwa [v.projectOf_congr hst, hst.table, hst.attrs .itemId (by decide)]

namespace Tx.Inv

variable {t : Task} {tasks : List Task} {w : Work} {saved : Option Work} {base : ℕ} {obj : Row}

theorem ready (h : w.Sound d none) : Tx.Inv d ⟨tasks, .ready, w, none⟩ :=
  ⟨h, trivial, fun t _ ↦ t.suits_of_not_held (by simp), fun w₀ hw ↦ by cases hw⟩

theorem fetched {userId projectId entityId : Uuid} {change : SyncChange} {now : Time}
    (h : w.Sound d none) :
    Tx.Inv d ⟨.sync userId projectId change now :: tasks,
      .selected (fetchObj (w.view d) change.entity entityId projectId), w, some w⟩ := by
  have hsaved : ∀ w₀ ∈ some w, w₀.Sound d none ∧ w₀.Within w := by
    rintro w₀ hw
    cases hw
    exact ⟨h, .refl w⟩
  cases hr : fetchObj (w.view d) change.entity entityId projectId with
  | none => exact ⟨h, trivial, fun t _ ↦ t.suits_of_not_held (by simp), hsaved⟩
  | some r =>
    obtain ⟨hrow, hp⟩ := fetchObj_some hr
    have hkey : r.key = (change.entity.table, entityId) := Table.key_of_find Row.key hrow
    refine ⟨h, .of_row (hkey ▸ hrow) hp, fun t ht ↦ ?_, hsaved⟩
    cases ht
    exact ⟨congrArg Prod.fst hkey, hp⟩

theorem claimed {userId projectId : Uuid} {change : SyncChange} {now : Time} {r s : Row}
    (h : Tx.Inv d ⟨.sync userId projectId change now :: tasks, .selected (some r), w, saved⟩)
    (hd : d.WellFormed) (found : (w.view d).row (change.entity.table, r.id) = some s) :
    Tx.Inv d ⟨.sync userId projectId change now :: tasks, .claimed r.version r,
      w.put (s.claim now), saved⟩ := by
  obtain ⟨htable, hp⟩ := h.suits _ rfl
  obtain ⟨hs, hext⟩ := h.sound.claim hd found now
  have hkey : s.key = r.key := by
    rw [Table.key_of_find Row.key found, Row.key, htable]
  rw [hkey] at hs
  refine ⟨hs, Loaded.mono h.stage hext, fun t ht ↦ ?_, fun w₀ hw ↦ ?_⟩
  · cases ht
    exact ⟨htable, hext.projectOf hp⟩
  · obtain ⟨hs₀, hin⟩ := h.saved w₀ hw
    exact ⟨hs₀, hin.put _⟩

theorem patchClaimed {p : Patch} {s : Row} (h : w.Sound d none) (hd : d.WellFormed)
    (hmem : s ∈ (w.view d).rows) (ht : s.table = p.table) :
    Tx.Inv d ⟨[.patch p], .claimed s.version (s.claim p.now), w.put (s.claim p.now), none⟩ := by
  have hrow := h.row_of_mem hd hmem
  obtain ⟨hs, hext⟩ := h.claim hd hrow p.now
  have hk := s.keeps_claim p.now
  obtain ⟨q, hq⟩ := h.project hd hrow
  have hproject := (Data.projectOf_claim p.now).trans (hext.projectOf hq)
  refine ⟨?_, .of_row ?_ hproject, fun t ht' ↦ ?_, fun w₀ hw ↦ by cases hw⟩
  · show (w.put (s.claim p.now)).Sound d (some (s.claim p.now).key)
    rwa [hk.key]
  · rw [Work.put_view_row, if_pos rfl]
  · cases ht'
    exact hk.table.trans ht

theorem sequenced {loaded : Option Row} {obj' : Row} {d' : Data} {p : Uuid} {n : ℕ}
    (h : Tx.Inv d ⟨t :: tasks, .pending base loaded obj, w, saved⟩)
    (stamped : beforeWrite (w.view d) obj = .ok (d', obj'))
    (project : (w.view d).projectOf obj = some p) (next : d'.lastSequence p = some n) :
    Tx.Inv d ⟨t :: tasks, .sequenced base loaded obj', w.setCounter p n, saved⟩ := by
  obtain ⟨p', m, hp', hm, hst, rfl⟩ := beforeWrite_ok stamped
  obtain rfl : p = p' := Option.some.inj (project.symm.trans hp')
  obtain rfl : m + 1 = n := by simpa using next
  have hproject := ((w.view d).projectOf_congr hst).trans project
  have hseq : obj'.changeSequence = m + 1 := hst.sequence
  have hs := h.sound.setCounter hm (Nat.le_succ m)
  have hfresh := h.sound.fresh hm
  refine ⟨?_, ?_, fun t _ ↦ t.suits_of_not_held (by simp), fun w₀ hw ↦ ?_⟩
  · cases loaded <;> exact hs
  · cases loaded with
    | none => exact ⟨hst.keeps.hasType h.stage, p, hproject, hseq ▸ hfresh⟩
    | some l =>
      have hl : Loaded (w.view d) l obj := h.stage
      have hext := w.view_extends_setCounter d p (m + 1)
      exact ⟨(hl.stamped hst).mono hext, p, hproject, hseq ▸ hfresh⟩
  · obtain ⟨hs₀, hin⟩ := h.saved w₀ hw
    exact ⟨hs₀, hin.setCounter _ _⟩

/-- A flush puts a row that the work stays sound with. -/
theorem flushed {stage : Stage} {r : Row} (h : Tx.Inv d ⟨t :: tasks, stage, w, saved⟩)
    (hput : (w.put r).Sound d none) :
    Tx.Inv d ⟨t :: tasks, .written, (w.put r).record base r, saved⟩ := by
  refine ⟨hput.record _ _, trivial, fun t _ ↦ t.suits_of_not_held (by simp), fun w₀ hw ↦ ?_⟩
  obtain ⟨hs₀, hin⟩ := h.saved w₀ hw
  exact ⟨hs₀, (hin.put _).record _ _⟩

theorem inserted (h : Tx.Inv d ⟨t :: tasks, .sequenced base none obj, w, saved⟩)
    (hd : d.WellFormed) (admitted : (w.view d).admits (obj.withDefaults t.now) = true)
    (fresh : (w.view d).row (obj.withDefaults t.now).key = none) :
    Tx.Inv d ⟨t :: tasks, .written,
      (w.put (obj.withDefaults t.now)).record base (obj.withDefaults t.now), saved⟩ := by
  obtain ⟨htype, p, hp, hfresh⟩ := h.stage
  exact h.flushed (h.sound.put hd (Data.projectOf_withDefaults t.now hp)
    (fun s hs ↦ by rw [fresh] at hs; cases hs) (Data.hasParent_of_admits admitted)
    (Row.withDefaults_hasType htype t.now) (Or.inl rfl) (Or.inr ⟨rfl, hfresh⟩))

theorem written {l s : Row} (h : Tx.Inv d ⟨t :: tasks, .sequenced base (some l) obj, w, saved⟩)
    (hd : d.WellFormed) (found : (w.view d).row obj.key = some s)
    (admitted : (w.view d).admits (s.writeChanges l obj) = true) :
    Tx.Inv d ⟨t :: tasks, .written,
      (w.put (s.writeChanges l obj)).record base (s.writeChanges l obj), saved⟩ := by
  obtain ⟨hl, p, hp, hfresh⟩ := h.stage
  obtain ⟨s', q, hs', hk, hq, hplaced⟩ := hl.stored
  rw [hl.keeps.key, hs'] at found
  cases found
  obtain rfl := hplaced.eq hp
  have hkeeps : s.Keeps (s.writeChanges l obj) := Row.keeps_writeChanges hl.keeps
  have hkey : l.key = (s.writeChanges l obj).key := hk.key.symm
  have hold : ∀ t, (w.view d).row (s.writeChanges l obj).key = some t →
      t.Keeps (s.writeChanges l obj) ∧ (w.view d).projectOf t = some p := by
    intro t ht
    rw [← hkey, hs'] at ht
    cases ht
    exact ⟨hkeeps, hq⟩
  exact h.flushed (h.sound.put hd (Data.projectOf_writeChanges hl.keeps hk hq hp) hold
    (Data.hasParent_of_admits admitted) (hkeeps.hasType (h.sound.hasType hd hs'))
    (Or.inr (congrArg some hkey)) (Or.inr ⟨rfl, hfresh⟩))

end Tx.Inv

theorem TxStep.inv {tx tx' : Tx} (hstep : TxStep conv d rowFree counterFree tx tx')
    (hd : d.WellFormed) (h : tx.Inv d) : tx'.Inv d := by
  have ⟨hsound, hstage, hsuits, hsaved⟩ := h
  cases hstep with
  | lock free found => exact .ready (hsound.setCounter found le_rfl)
  | skip | putMissing | putFound | release => exact .ready hsound
  | fetch id => exact .fetched hsound
  | absent op => exact ⟨hsound, trivial, fun t _ ↦ t.suits_of_not_held (by simp), hsaved⟩
  | build op id new =>
    exact ⟨hsound, createNew_hasType new, fun t _ ↦ t.suits_of_not_held (by simp), hsaved⟩
  | claim checked found free => exact h.claimed hd found
  | @update userId projectId change now tasks w saved base r obj op edit =>
    obtain ⟨htable, hp⟩ := hsuits _ rfl
    obtain ⟨s, q, hs, hk, hq, hr⟩ := hstage.stored
    obtain rfl := hr.eq hp
    exact ⟨hsound, ⟨(updateExisting_ok edit).1, s, projectId, hs, hk, hq,
      updateExisting_placed htable hp edit⟩, fun t _ ↦ t.suits_of_not_held (by simp), hsaved⟩
  | delete op =>
    exact ⟨hsound, hstage.softDelete _, fun t _ ↦ t.suits_of_not_held (by simp), hsaved⟩
  | @add new w check =>
    exact ⟨hsound, new.type, fun t _ ↦ t.suits_of_not_held (by simp), hsaved⟩
  | @claimPatch p w s found free =>
    obtain ⟨hmem, ht, -⟩ := mem_rowsWhere.mp (found ▸ List.mem_singleton_self s)
    exact .patchClaimed hsound hd hmem ht
  | @edit p w base r check =>
    exact ⟨hsound, p.loaded_edit hstage (hsuits _ rfl), fun t _ ↦ t.suits_of_not_held (by simp),
      hsaved⟩
  | @selectRemoved m w r rest found =>
    obtain ⟨hmem, -⟩ := mem_rowsWhere.mp (found ▸ List.mem_cons_self (a := r) (l := rest))
    have hrow := hsound.row_of_mem hd hmem
    obtain ⟨q, hq⟩ := hsound.project hd hrow
    refine ⟨hsound, .of_row hrow hq, fun t ht ↦ ?_, hsaved⟩
    cases ht
    trivial
  | @markRemoved m w r =>
    exact ⟨hsound.mono _, hstage.softDelete _, fun t _ ↦ t.suits_of_not_held (by simp), hsaved⟩
  | sequence stamped project next free => exact h.sequenced stamped project next
  | insert row fits admitted fresh free =>
    subst row
    exact h.inserted hd admitted fresh
  | write found row fits admitted free =>
    subst row
    exact h.written hd found admitted
  | fail => exact .ready (hsaved _ rfl).1

end Steps

def Sys.Exclusive {κ β : Type} (s : Sys) (held : Work → κ → Option β) : Prop :=
  ∀ t tx, s.txs t = some tx → ∀ k, (held tx.work k).isSome →
    ∀ u x, u ≠ t → s.txs u = some x → held x.work k = none

structure Sys.Inv (s : Sys) : Prop where
  data : s.data.WellFormed
  rows : s.Exclusive Work.row
  counters : s.Exclusive Work.counters
  txs : ∀ t tx, s.txs t = some tx → tx.Inv s.data

namespace Sys

variable {s : Sys} {t u : ℕ} {tx : Tx}

theorem start_inv {d : Data} (hd : d.WellFormed) : (start d).Inv where
  data := hd
  rows _ _ h := by cases h
  counters _ _ h := by cases h
  txs _ _ h := by cases h

theorem Exclusive.update {κ β : Type} {held : Work → κ → Option β} (h : s.Exclusive held)
    {d' : Data} {tx' : Option Tx} {history : List Mutation}
    (hfree : ∀ x ∈ tx', ∀ k, (held x.work k).isSome →
      ∀ u y, u ≠ t → s.txs u = some y → held y.work k = none) :
    (⟨d', Function.update s.txs t tx', history⟩ : Sys).Exclusive held := by
  have hself : ∀ {x}, Function.update s.txs t tx' t = some x → x ∈ tx' := by
    intro x hx
    rwa [Function.update_self] at hx
  have hother : ∀ {u}, u ≠ t → Function.update s.txs t tx' u = s.txs u :=
    fun hu ↦ Function.update_of_ne hu _ _
  intro u x hx k hk v y hv hy
  simp only at hx hy
  by_cases hut : u = t
  · subst hut
    rw [hother hv] at hy
    exact hfree x (hself hx) k hk v y hv hy
  · rw [hother hut] at hx
    by_cases hvt : v = t
    · subst hvt
      by_contra hne
      have hnone := hfree y (hself hy) k (Option.isSome_iff_ne_none.mpr hne) u x hut hx
      rw [hnone] at hk
      cases hk
    · rw [hother hvt] at hy
      exact h u x hx k hk v y hv hy

theorem Inv.update (h : s.Inv) {d' : Data} {tx' : Option Tx} {history : List Mutation}
    (hd' : d'.WellFormed)
    (hrows : ∀ x ∈ tx', ∀ k, (x.work.row k).isSome → s.rowFree t k)
    (hcounters : ∀ x ∈ tx', ∀ p, (x.work.counters p).isSome → s.counterFree t p)
    (htx : ∀ x ∈ tx', x.Inv d') (hothers : ∀ u x, u ≠ t → s.txs u = some x → x.Inv d') :
    (⟨d', Function.update s.txs t tx', history⟩ : Sys).Inv := by
  refine ⟨hd', h.rows.update hrows, h.counters.update hcounters, fun u x hx ↦ ?_⟩
  simp only at hx
  by_cases hut : u = t
  · subst hut
    rw [Function.update_self] at hx
    exact htx x hx
  · rw [Function.update_of_ne hut] at hx
    exact hothers u x hut hx

/-- A commit publishes only rows and counters that its transaction holds. -/
theorem Inv.apart (h : s.Inv) (ht : s.txs t = some tx) {x : Tx} (hu : u ≠ t)
    (hx : s.txs u = some x) (hext : s.data.Extends (tx.work.view s.data)) :
    x.work.Apart s.data (tx.work.view s.data) := by
  refine ⟨h.data, hext, fun k hk ↦ ?_, fun p hp ↦ ?_⟩
  · rw [Work.view_row, h.rows u x hx k hk t tx hu.symm ht]
    rfl
  · simp [Work.view, h.counters u x hx p hp t tx hu.symm ht]

end Sys

theorem Tx.Done.claimedKey {tx : Tx} (h : tx.Done) : tx.stage.claimedKey = none := by
  rcases h.2 with ⟨-, h⟩ | h <;> rw [h] <;> rfl

/-- Every step keeps the invariant, and what it commits is a step of the change feed. -/
theorem Step.inv {conv : Conv} {s s' : Sys} {t : ℕ} (hstep : Step conv s t s') (h : s.Inv) :
    s'.Inv ∧ FeedStep s.data s'.data := by
  cases hstep with
  | @begin tx fresh new =>
    have hempty : tx.work = .empty := by
      rcases new with ⟨u, p, cs, rfl⟩ | ⟨t, -, rfl⟩ <;> rfl
    refine ⟨h.update h.data (fun x hx k hk ↦ ?_) (fun x hx p hp ↦ ?_) (fun x hx ↦ ?_)
      (fun u x _ hx ↦ h.txs u x hx), .refl _⟩
    · cases hx
      rw [hempty] at hk
      cases hk
    · cases hx
      rw [hempty] at hp
      cases hp
    · cases hx
      exact new.inv s.data
  | @exec tx tx' running step =>
    have hinv := h.txs t tx running
    obtain ⟨hrows, hcounters⟩ := step.locks fun w₀ hw ↦ (hinv.saved w₀ hw).2
    refine ⟨h.update h.data (fun x hx k hk ↦ ?_) (fun x hx p hp ↦ ?_) (fun x hx ↦ ?_)
      (fun u x _ hx ↦ h.txs u x hx), .refl _⟩
    · cases hx
      exact (hrows k hk).elim (h.rows t tx running k) id
    · cases hx
      exact (hcounters p hp).elim (h.counters t tx running p) id
    · cases hx
      exact step.inv h.data hinv
  | @commit tx running done =>
    have hinv := h.txs t tx running
    have hsound := hinv.sound
    rw [done.claimedKey] at hsound
    obtain ⟨hd', hfeed⟩ := hsound.feedStep h.data
    refine ⟨h.update hd' (by simp) (by simp) (by simp) fun u x hu hx ↦ ?_, hfeed⟩
    exact (h.txs u x hx).frame (h.apart running hu hx hsound.extends)
  | @abort tx running =>
    exact ⟨h.update h.data (by simp) (by simp) (by simp) fun u x _ hx ↦ h.txs u x hx, .refl _⟩

theorem Runs.inv {conv : Conv} {s s' : Sys} (hrun : Runs conv s s') (h : s.Inv) :
    s'.Inv ∧ FeedStep s.data s'.data := by
  induction hrun with
  | refl => exact ⟨h, .refl _⟩
  | tail _ hstep ih =>
    obtain ⟨t, hstep⟩ := hstep
    obtain ⟨hmid, hfeed⟩ := ih
    obtain ⟨hend, hlast⟩ := hstep.inv hmid
    exact ⟨hend, hfeed.trans hend.data hlast⟩

/-- A row that one step changes or adds is stamped above every row of its project committed at any
time before. -/
theorem FeedStep.above {d₁ d d' : Data} (h₁ : d₁.WellFormed)
    (hrun : FeedStep d₁ d) (hstep : FeedStep d d') {r r' : Row}
    (hr : r ∈ d₁.rows) (hr' : r' ∈ d'.rows) (hnew : r' ∉ d.rows)
    (hp : d₁.projectOf r = d'.projectOf r') : r.changeSequence < r'.changeSequence := by
  obtain ⟨p, n', hp', -, -, hgt⟩ := (hstep.stamped r' hr').resolve_left hnew
  obtain ⟨q, n, hq, hn, -, hle⟩ := h₁.bounded r hr
  obtain rfl : q = p := Option.some.inj (hq.symm.trans (hp.trans hp'))
  obtain ⟨m, hm, hnm⟩ := hrun.counter q n hn
  have := hgt m hm
  omega

/-- In every reachable state the sequences of a project are distinct, at least 1 and at most its
counter; and a step that commits a new or changed row leaves it above every sequence of its
project that was committed before. -/
theorem change_feed_invariant (conv : Conv) {d₀ : Data} (h₀ : d₀.WellFormed) {s : Sys}
    (hs : Runs conv (.start d₀) s) :
    (∀ r ∈ s.data.rows, ∃ p n, s.data.projectOf r = some p ∧ s.data.lastSequence p = some n ∧
      1 ≤ r.changeSequence ∧ r.changeSequence ≤ n) ∧
    (∀ r ∈ s.data.rows, ∀ r' ∈ s.data.rows, s.data.projectOf r = s.data.projectOf r' →
      r.changeSequence = r'.changeSequence → r = r') ∧
    ∀ t s', Step conv s t s' → ∀ r' ∈ s'.data.rows, r' ∉ s.data.rows →
      ∀ s₁, Runs conv (.start d₀) s₁ → Runs conv s₁ s →
        ∀ r ∈ s₁.data.rows, s₁.data.projectOf r = s'.data.projectOf r' →
          r.changeSequence < r'.changeSequence := by
  obtain ⟨hinv, -⟩ := hs.inv (Sys.start_inv h₀)
  refine ⟨hinv.data.bounded, hinv.data.distinct, ?_⟩
  intro t s' hstep r' hr' hnew s₁ hs₁ hrun r hr hp
  obtain ⟨hinv', hfeed⟩ := hstep.inv hinv
  obtain ⟨hinv₁, -⟩ := hs₁.inv (Sys.start_inv h₀)
  exact FeedStep.above hinv₁.data (hrun.inv hinv₁).2 hfeed hr hr' hnew hp

section Sample

def sampleDelete : Removal := deleteItem 1 7 .items 100 (some .risk)

theorem Sys.free_of_alone (s : Sys) (h : ∀ u, u ≠ 0 → s.txs u = none) :
    (∀ k, s.rowFree 0 k) ∧ ∀ p, s.counterFree 0 p := by
  constructor <;> intro _ u x hu hx <;> rw [h u hu] at hx <;> cases hx

/-- One deletion runs to its commit: version and sequence of the risk are both 2. -/
theorem change_feed_invariant_sample : ∃ s, Runs .strict (.start sampleDb.data) s ∧
    s.data.rows.map (fun r ↦ (r.version, r.changeSequence)) = [(2, 2)] ∧
    ∀ r ∈ s.data.rows, ∃ p n, s.data.projectOf r = some p ∧ s.data.lastSequence p = some n ∧
      1 ≤ r.changeSequence ∧ r.changeSequence ≤ n := by
  have h0 : Runs .strict (.start sampleDb.data) (.start sampleDb.data) := .refl
  have h1 := h0.tail ⟨0, .begin rfl (Or.inr ⟨.remove sampleDelete, rfl, rfl⟩)⟩
  have h2 := h1.tail ⟨0, .exec rfl (.selectRemoved rfl)⟩
  have h3 := h2.tail ⟨0, .exec rfl .markRemoved⟩
  have h4 := h3.tail ⟨0, .exec rfl (.sequence rfl rfl rfl ?_)⟩
  have h5 := h4.tail ⟨0, .exec rfl (.write rfl rfl rfl rfl ?_)⟩
  have h6 := h5.tail ⟨0, .commit rfl ⟨rfl, Or.inr rfl⟩⟩
  · exact ⟨_, h6, rfl, (change_feed_invariant .strict sampleDb_wellFormed h6).1⟩
  · exact (Sys.free_of_alone _ fun u hu ↦ by simp [Sys.start, Function.update_of_ne hu]).1 _
  · exact (Sys.free_of_alone _ fun u hu ↦ by simp [Sys.start, Function.update_of_ne hu]).2 _

end Sample

end RiskApp.Server
