import RiskApp.Server.Transactions

namespace RiskApp.Server

open Lib

def Data.Extends (v v' : Data) : Prop :=
  ∀ k r, v.row k = some r → ∃ r', v'.row k = some r' ∧ r.Keeps r' ∧
    ∀ p, v.projectOf r = some p → v'.projectOf r' = some p

/-- A row's project stays while the items keep theirs. -/
theorem Data.projectOf_mono {v v' : Data}
    (h : ∀ i o, v.item i = some o → ∃ o', v'.item i = some o' ∧ o.Keeps o') {r : Row} {p : Uuid}
    (hp : v.projectOf r = some p) : v'.projectOf r = some p := by
  obtain ⟨ht, hown⟩ | ⟨ht, i, hi, hitem⟩ := Data.projectOf_eq hp
  · rw [← hown]
    unfold Data.projectOf
    cases htable : r.table <;> simp_all
  · obtain ⟨o, ho, hop⟩ := Option.bind_eq_some_iff.mp hitem
    obtain ⟨o', ho', hk⟩ := h i o ho
    rw [Data.projectOf_assessment ht hi]
    exact Option.bind_eq_some_iff.mpr ⟨o', ho', hk.ownProject.trans hop⟩

namespace Data.Extends

variable {v v' : Data}

theorem projectOf (h : v.Extends v') {r : Row} {p : Uuid} (hp : v.projectOf r = some p) :
    v'.projectOf r = some p :=
  Data.projectOf_mono (fun _ o ho ↦ (h _ o ho).imp fun _ ho' ↦ ⟨ho'.1, ho'.2.1⟩) hp

theorem hasParent (h : v.Extends v') {r : Row} (hr : v.hasParent r) : v'.hasParent r := by
  intro hcol
  obtain ⟨i, hi, hsome⟩ := hr hcol
  obtain ⟨o, ho⟩ := Option.isSome_iff_exists.mp hsome
  obtain ⟨o', ho', -⟩ := h _ o ho
  exact ⟨i, hi, Option.isSome_iff_exists.mpr ⟨o', ho'⟩⟩

end Data.Extends

theorem FeedStep.extends {d d' : Data} (h : FeedStep d d') (hd' : d'.WellFormed) :
    d.Extends d' := by
  intro k r hr
  obtain ⟨r', hr', hk, hp⟩ := h.persists r (Table.mem_of_find Row.key hr)
  refine ⟨r', ?_, hk, fun p h ↦ hp.trans h⟩
  have hkey : r'.key = k := hk.key.trans (Table.key_of_find Row.key hr)
  rw [← hkey]
  exact hd'.row_of_mem hr'

namespace Work

theorem view_row (w : Work) (d : Data) (k : RowKey) :
    (w.view d).row k = (w.row k).or (d.row k) :=
  Table.find_overlay Row.key k w.rows d.rows

theorem put_row (w : Work) (r : Row) (k : RowKey) :
    (w.put r).row k = if r.key = k then some r else w.row k :=
  Table.find_upsert Row.key k r w.rows

theorem put_view_row (w : Work) (d : Data) (r : Row) (k : RowKey) :
    ((w.put r).view d).row k = if r.key = k then some r else (w.view d).row k := by
  rw [view_row, view_row, put_row]
  split <;> rfl

theorem mem_put {w : Work} {r s : Row} (h : s ∈ (w.put r).rows) :
    s = r ∨ s ∈ w.rows ∧ s.key ≠ r.key := by
  rcases List.mem_append.mp h with h | h
  · right
    simpa using List.mem_filter.mp h
  · exact Or.inl (List.mem_singleton.mp h)

theorem view_extends_put {w : Work} {d : Data} {r : Row} {p : Uuid}
    (hp : (w.view d).projectOf r = some p)
    (hold : ∀ s, (w.view d).row r.key = some s → s.Keeps r ∧ (w.view d).projectOf s = some p) :
    (w.view d).Extends ((w.put r).view d) := by
  have hkeeps : ∀ k s, (w.view d).row k = some s →
      ∃ s', ((w.put r).view d).row k = some s' ∧ s.Keeps s' := by
    intro k s hs
    rw [put_view_row]
    split
    · rename_i hk
      exact ⟨r, rfl, (hold s (hk ▸ hs)).1⟩
    · exact ⟨s, hs, .refl s⟩
  have hproject : ∀ {x q}, (w.view d).projectOf x = some q →
      ((w.put r).view d).projectOf x = some q :=
    Data.projectOf_mono fun i o ho ↦ hkeeps _ o ho
  intro k s hs
  rw [put_view_row]
  split
  · rename_i hk
    obtain ⟨hks, hps⟩ := hold s (hk ▸ hs)
    refine ⟨r, rfl, hks, fun q hq ↦ hproject ?_⟩
    rw [hp, ← hps, hq]
  · exact ⟨s, hs, .refl s, fun q hq ↦ hproject hq⟩

theorem view_extends_setCounter (w : Work) (d : Data) (p : Uuid) (n : ℕ) :
    (w.view d).Extends ((w.setCounter p n).view d) :=
  fun _ r hr ↦ ⟨r, hr, .refl r, fun _ hp ↦ hp⟩

/-- What holds of the uncommitted writes of a transaction. The row `c` has been claimed and is not
flushed yet, so that it need not carry a new sequence. -/
structure Sound (d : Data) (w : Work) (c : Option RowKey) : Prop where
  nodup : (w.rows.map Row.key).Nodup
  counter : ∀ p n, w.counters p = some n → ∃ m, d.lastSequence p = some m ∧ m ≤ n
  origin : ∀ r ∈ w.rows, ∃ p, (w.view d).projectOf r = some p ∧
    ∀ r₀, d.row r.key = some r₀ → r₀.Keeps r ∧ d.projectOf r₀ = some p
  parents : ∀ r ∈ w.rows, (w.view d).hasParent r
  types : ∀ r ∈ w.rows, r.hasType
  stamped : ∀ r ∈ w.rows, c ≠ some r.key → ∀ p, (w.view d).projectOf r = some p →
    ∃ n m, w.counters p = some n ∧ d.lastSequence p = some m ∧
      m < r.changeSequence ∧ r.changeSequence ≤ n
  distinct : ∀ r ∈ w.rows, ∀ s ∈ w.rows, c ≠ some r.key → c ≠ some s.key →
    (w.view d).projectOf r = (w.view d).projectOf s →
    r.changeSequence = s.changeSequence → r = s

/-- `r` carries a sequence that the transaction has reserved and not used. -/
structure Fresh (d : Data) (w : Work) (c : Option RowKey) (p : Uuid) (n : ℕ) : Prop where
  counter : w.counters p = some n
  above : ∀ m, d.lastSequence p = some m → m < n
  unused : ∀ s ∈ w.rows, c ≠ some s.key → (w.view d).projectOf s = some p →
    s.changeSequence < n

variable {d : Data} {w : Work} {c : Option RowKey}

theorem Sound.empty (d : Data) : Work.empty.Sound d none where
  nodup := List.nodup_nil
  counter _ _ h := by cases h
  origin _ h := by cases h
  parents _ h := by cases h
  types _ h := by cases h
  stamped _ h := by cases h
  distinct _ h := by cases h

theorem Sound.mono (h : w.Sound d none) (c : Option RowKey) : w.Sound d c :=
  { h with
    stamped := fun r hr _ ↦ h.stamped r hr (by simp)
    distinct := fun r hr s hs _ _ ↦ h.distinct r hr s hs (by simp) (by simp) }

theorem mem_of_row {k : RowKey} {r : Row} (h : w.row k = some r) : r ∈ w.rows ∧ r.key = k :=
  ⟨Table.mem_of_find Row.key h, Table.key_of_find Row.key h⟩

theorem Sound.view_keeps (h : w.Sound d c) {d' : Data}
    (hheld : ∀ k, (w.row k).isSome → d'.row k = d.row k) {k : RowKey} {r : Row}
    (hr : d'.row k = some r) : ∃ r', (w.view d').row k = some r' ∧ r.Keeps r' := by
  rw [view_row]
  cases hw : w.row k with
  | none => exact ⟨r, hr, .refl r⟩
  | some r' =>
    obtain ⟨hr', rfl⟩ := mem_of_row hw
    obtain ⟨p, -, hold⟩ := h.origin r' hr'
    rw [hheld _ (by rw [hw]; rfl)] at hr
    exact ⟨r', rfl, (hold r hr).1⟩

theorem Sound.extends (h : w.Sound d c) : d.Extends (w.view d) := by
  intro k r hr
  have hkeeps : ∀ i o, d.item i = some o → ∃ o', (w.view d).item i = some o' ∧ o.Keeps o' :=
    fun i o ho ↦ h.view_keeps (fun _ _ ↦ rfl) ho
  rw [view_row]
  cases hw : w.row k with
  | none => exact ⟨r, hr, .refl r, fun p hp ↦ Data.projectOf_mono hkeeps hp⟩
  | some r' =>
    obtain ⟨hr', rfl⟩ := mem_of_row hw
    obtain ⟨p, hp, hold⟩ := h.origin r' hr'
    obtain ⟨hk, hp₀⟩ := hold r hr
    refine ⟨r', rfl, hk, fun q hq ↦ ?_⟩
    rw [hp, ← hp₀, hq]

theorem mem_view {r : Row} (h : r ∈ (w.view d).rows) :
    r ∈ w.rows ∨ r ∈ d.rows ∧ w.row r.key = none := by
  rcases List.mem_append.mp h with h | h
  · obtain ⟨y, hy, rfl⟩ := List.mem_map.mp h
    cases hw : Table.find Row.key y.key w.rows with
    | none => exact Or.inr ⟨hy, hw⟩
    | some x => exact Or.inl (Table.mem_of_find Row.key hw)
  · exact Or.inl (List.mem_of_mem_filter h)

/-- What a transaction sees keeps the change feed in order, and what it commits is a step of the
feed. -/
theorem Sound.feedStep (h : w.Sound d none) (hd : d.WellFormed) :
    (w.view d).WellFormed ∧ FeedStep d (w.view d) := by
  have hext := h.extends
  have hcounter : ∀ p n, d.lastSequence p = some n →
      ∃ n', (w.view d).lastSequence p = some n' ∧ n ≤ n' := by
    intro p n hn
    cases hw : w.counters p with
    | none => exact ⟨n, by simp [view, hw, hn], le_rfl⟩
    | some n' =>
      obtain ⟨m, hm, hle⟩ := h.counter p n' hw
      obtain rfl : m = n := Option.some.inj (hm.symm.trans hn)
      exact ⟨n', by simp [view, hw], hle⟩
  have hold : ∀ r ∈ d.rows, ∃ p n, (w.view d).projectOf r = some p ∧ d.projectOf r = some p ∧
      d.lastSequence p = some n ∧ 1 ≤ r.changeSequence ∧ r.changeSequence ≤ n := by
    intro r hr
    obtain ⟨p, n, hp, hn, hb⟩ := hd.bounded r hr
    exact ⟨p, n, hext.projectOf hp, hp, hn, hb⟩
  have hnew : ∀ r ∈ w.rows, ∃ p n m, (w.view d).projectOf r = some p ∧
      (w.view d).lastSequence p = some n ∧ d.lastSequence p = some m ∧
      m < r.changeSequence ∧ r.changeSequence ≤ n := by
    intro r hr
    obtain ⟨p, hp, -⟩ := h.origin r hr
    obtain ⟨n, m, hn, hm, hb⟩ := h.stamped r hr (by simp) p hp
    exact ⟨p, n, m, hp, by simp [view, hn], hm, hb⟩
  have hmixed : ∀ r ∈ w.rows, ∀ s ∈ d.rows, (w.view d).projectOf r = (w.view d).projectOf s →
      s.changeSequence < r.changeSequence := by
    intro r hr s hs he
    obtain ⟨p, n, m, hp, -, hm, hlt, -⟩ := hnew r hr
    obtain ⟨q, m', hq, -, hm', -, hle⟩ := hold s hs
    obtain rfl : p = q := Option.some.inj (hp.symm.trans (he.trans hq))
    obtain rfl : m = m' := Option.some.inj (hm.symm.trans hm')
    omega
  refine ⟨⟨Table.nodup_overlay Row.key h.nodup hd.keys, fun r hr ↦ ?_, fun r hr s hs he hseq ↦ ?_,
    fun r hr ↦ ?_, fun r hr ↦ ?_⟩, ⟨hcounter, fun r hr ↦ ?_, fun r hr ↦ ?_⟩⟩
  · rcases mem_view hr with hr | ⟨hr, -⟩
    · obtain ⟨p, n, m, hp, hn, -, hlt, hle⟩ := hnew r hr
      exact ⟨p, n, hp, hn, by omega, hle⟩
    · obtain ⟨p, n, hp, -, hn, hpos, hle⟩ := hold r hr
      obtain ⟨n', hn', hle'⟩ := hcounter p n hn
      exact ⟨p, n', hp, hn', hpos, hle.trans hle'⟩
  · rcases mem_view hr with hr | ⟨hr, hrw⟩ <;> rcases mem_view hs with hs | ⟨hs, hsw⟩
    · exact h.distinct r hr s hs (by simp) (by simp) he hseq
    · exact absurd hseq (hmixed r hr s hs he).ne'
    · exact absurd hseq (hmixed s hs r hr he.symm).ne
    · obtain ⟨p, n, hp, hp₀, -⟩ := hold r hr
      obtain ⟨q, m, hq, hq₀, -⟩ := hold s hs
      refine hd.distinct r hr s hs ?_ hseq
      rw [hp₀, hq₀, ← hp, ← hq, he]
  · rcases mem_view hr with hr | ⟨hr, -⟩
    · exact h.parents r hr
    · exact hext.hasParent (hd.parents r hr)
  · rcases mem_view hr with hr | ⟨hr, -⟩
    · exact h.types r hr
    · exact hd.types r hr
  · obtain ⟨p, n, -, hp, -⟩ := hold r hr
    obtain ⟨r', hr', hk, hp'⟩ := hext _ r (hd.row_of_mem hr)
    exact ⟨r', Table.mem_of_find Row.key hr', hk, (hp' p hp).trans hp.symm⟩
  · rcases mem_view hr with hr | ⟨hr, -⟩
    · obtain ⟨p, n, m, hp, hn, hm, hlt, hle⟩ := hnew r hr
      refine Or.inr ⟨p, n, hp, hn, hle, fun m' hm' ↦ ?_⟩
      obtain rfl : m' = m := Option.some.inj (hm'.symm.trans hm)
      exact hlt
    · exact Or.inl hr

theorem Sound.put (h : w.Sound d c) (hd : d.WellFormed) {r : Row} {p : Uuid} {c' : Option RowKey}
    (hp : (w.view d).projectOf r = some p)
    (hold : ∀ s, (w.view d).row r.key = some s → s.Keeps r ∧ (w.view d).projectOf s = some p)
    (hparent : (w.view d).hasParent r) (htype : r.hasType) (hc : c = none ∨ c = some r.key)
    (hc' : c' = some r.key ∨ c' = none ∧ w.Fresh d c p r.changeSequence) :
    (w.put r).Sound d c' := by
  have hext := view_extends_put hp hold
  have hback : ∀ s ∈ w.rows, ∀ q, ((w.put r).view d).projectOf s = some q →
      (w.view d).projectOf s = some q := by
    intro s hs q hq
    obtain ⟨q', hq', -⟩ := h.origin s hs
    rwa [hext.projectOf hq', ← hq'] at hq
  have hother : ∀ {s : Row}, s.key ≠ r.key → c' ≠ some s.key → c ≠ some s.key := by
    intro s hs _ he
    rcases hc with rfl | rfl
    · cases he
    · exact hs (Option.some.inj he).symm
  have hlt : c' ≠ some r.key → ∀ s ∈ w.rows, s.key ≠ r.key →
      ((w.put r).view d).projectOf s = some p → s.changeSequence < r.changeSequence := by
    intro hne s hs hk hps
    obtain ⟨-, hfresh⟩ := hc'.resolve_left hne
    refine hfresh.unused s hs ?_ (hback s hs p hps)
    rcases hc with rfl | rfl
    · simp
    · exact fun he ↦ hk (Option.some.inj he).symm
  refine ⟨Table.nodup_upsert Row.key h.nodup r, h.counter, fun s hs ↦ ?_, fun s hs ↦ ?_,
    fun s hs ↦ ?_, fun s hs hne q hq ↦ ?_, fun s hs t ht hns hnt he hseq ↦ ?_⟩
  · rcases mem_put hs with rfl | ⟨hs, -⟩
    · refine ⟨p, hext.projectOf hp, fun r₀ hr₀ ↦ ?_⟩
      obtain ⟨s', hs', hk, hps⟩ := h.extends _ r₀ hr₀
      obtain ⟨hk', hps'⟩ := hold s' hs'
      obtain ⟨q, -, hq, -⟩ := hd.bounded r₀ (Table.mem_of_find Row.key hr₀)
      obtain rfl : q = p := Option.some.inj ((hps q hq).symm.trans hps')
      exact ⟨hk.trans hk', hq⟩
    · obtain ⟨q, hq, hold'⟩ := h.origin s hs
      exact ⟨q, hext.projectOf hq, hold'⟩
  · rcases mem_put hs with rfl | ⟨hs, -⟩
    · exact hext.hasParent hparent
    · exact hext.hasParent (h.parents s hs)
  · rcases mem_put hs with rfl | ⟨hs, -⟩
    · exact htype
    · exact h.types s hs
  · rcases mem_put hs with rfl | ⟨hs, hk⟩
    · obtain rfl : q = p := Option.some.inj (hq.symm.trans (hext.projectOf hp))
      obtain ⟨-, hfresh⟩ := hc'.resolve_left hne
      obtain ⟨m, hm, hle⟩ := h.counter q _ hfresh.counter
      exact ⟨_, m, hfresh.counter, hm, hfresh.above m hm, le_rfl⟩
    · exact h.stamped s hs (hother hk hne) q (hback s hs q hq)
  · rcases mem_put hs with hsr | ⟨hsw, hks⟩ <;> rcases mem_put ht with htr | ⟨htw, hkt⟩
    · exact hsr.trans htr.symm
    · subst hsr
      have hpt := he.symm.trans (hext.projectOf hp)
      exact absurd hseq (hlt hns t htw hkt hpt).ne'
    · subst htr
      have hps := he.trans (hext.projectOf hp)
      exact absurd hseq (hlt hnt s hsw hks hps).ne
    · obtain ⟨q, hq, -⟩ := h.origin s hsw
      obtain ⟨q', hq', -⟩ := h.origin t htw
      refine h.distinct s hsw t htw (hother hks hns) (hother hkt hnt) ?_ hseq
      rw [hq, hq', ← hext.projectOf hq, ← hext.projectOf hq', he]

theorem Sound.record (h : w.Sound d c) (b : ℕ) (r : Row) : (w.record b r).Sound d c :=
  ⟨h.nodup, h.counter, h.origin, h.parents, h.types, h.stamped, h.distinct⟩

theorem Sound.setCounter (h : w.Sound d c) {p : Uuid} {n n' : ℕ}
    (hn : (w.view d).lastSequence p = some n) (hle : n ≤ n') : (w.setCounter p n').Sound d c := by
  have hcounter : ∀ m, w.counters p = some m → m = n := by
    intro m hm
    simpa [view, hm] using hn
  refine ⟨h.nodup, fun q m hm ↦ ?_, h.origin, h.parents, h.types, fun r hr hc q hq ↦ ?_,
    h.distinct⟩
  · by_cases hqp : q = p
    · subst hqp
      obtain rfl : n' = m := by simpa [Work.setCounter] using hm
      cases hw : w.counters q with
      | none => exact ⟨n, by simpa [view, hw] using hn, hle⟩
      | some m' =>
        obtain ⟨m₀, hm₀, hle₀⟩ := h.counter q m' hw
        have := hcounter m' hw
        exact ⟨m₀, hm₀, by omega⟩
    · refine h.counter q m ?_
      simpa [Work.setCounter, Function.update_of_ne hqp] using hm
  · obtain ⟨m, m₀, hm, hm₀, hlt, hle'⟩ := h.stamped r hr hc q hq
    by_cases hqp : q = p
    · subst hqp
      have := hcounter m hm
      exact ⟨n', m₀, by simp [Work.setCounter], hm₀, hlt, by omega⟩
    · exact ⟨m, m₀, by simpa [Work.setCounter, Function.update_of_ne hqp] using hm, hm₀, hlt, hle'⟩

theorem Sound.fresh (h : w.Sound d c) {p : Uuid} {n : ℕ}
    (hn : (w.view d).lastSequence p = some n) : (w.setCounter p (n + 1)).Fresh d c p (n + 1) := by
  refine ⟨by simp [Work.setCounter], fun m hm ↦ ?_, fun s hs hc hp ↦ ?_⟩
  · cases hw : w.counters p with
    | none =>
      have : d.lastSequence p = some n := by simpa [view, hw] using hn
      obtain rfl : m = n := Option.some.inj (hm.symm.trans this)
      omega
    | some m' =>
      have hmn : m' = n := by simpa [view, hw] using hn
      obtain ⟨m₀, hm₀, hle⟩ := h.counter p m' hw
      obtain rfl : m = m₀ := Option.some.inj (hm.symm.trans hm₀)
      omega
  · obtain ⟨m', m₀, hm', -, -, hle⟩ := h.stamped s hs hc p hp
    have hmn : m' = n := by simpa [view, hm'] using hn
    omega

/-- Others commit: they hold neither the rows nor the counters of this transaction. -/
structure Apart (w : Work) (d d' : Data) : Prop where
  wellFormed : d.WellFormed
  extends' : d.Extends d'
  rows : ∀ k, (w.row k).isSome → d'.row k = d.row k
  counters : ∀ p, (w.counters p).isSome → d'.lastSequence p = d.lastSequence p

theorem Sound.view_extends (h : w.Sound d c) {d' : Data} (ha : w.Apart d d') :
    (w.view d).Extends (w.view d') := by
  have hout : ∀ {r p}, d'.projectOf r = some p → (w.view d').projectOf r = some p :=
    Data.projectOf_mono fun i o ho ↦ h.view_keeps ha.rows ho
  have hitems : ∀ i o, (w.view d).item i = some o →
      ∃ o', (w.view d').item i = some o' ∧ o.Keeps o' := by
    intro i o ho
    unfold Data.item at ho ⊢
    rw [view_row] at ho ⊢
    cases hw : w.row (.items, i) with
    | some o' =>
      rw [hw] at ho
      exact ⟨o, ho, .refl o⟩
    | none =>
      rw [hw] at ho
      obtain ⟨o', ho', hk, -⟩ := ha.extends' _ o ho
      exact ⟨o', ho', hk⟩
  intro k r hr
  rw [view_row] at hr ⊢
  cases hw : w.row k with
  | some r' =>
    rw [hw] at hr
    exact ⟨r, hr, .refl r, fun p hp ↦ Data.projectOf_mono hitems hp⟩
  | none =>
    rw [hw] at hr
    obtain ⟨r', hr', hk, hp'⟩ := ha.extends' _ r hr
    refine ⟨r', hr', hk, fun p hp ↦ hout (hp' p ?_)⟩
    obtain ⟨q, -, hq, -⟩ := ha.wellFormed.bounded r (Table.mem_of_find Row.key hr)
    rwa [h.extends.projectOf hq, ← hq] at hp

theorem Sound.frame (h : w.Sound d c) {d' : Data} (ha : w.Apart d d') : w.Sound d' c := by
  have hext := h.view_extends ha
  have hback : ∀ r ∈ w.rows, ∀ p, (w.view d').projectOf r = some p →
      (w.view d).projectOf r = some p := by
    intro r hr p hp
    obtain ⟨q, hq, -⟩ := h.origin r hr
    rwa [hext.projectOf hq, ← hq] at hp
  refine ⟨h.nodup, fun p n hn ↦ ?_, fun r hr ↦ ?_, fun r hr ↦ hext.hasParent (h.parents r hr),
    h.types, fun r hr hc p hp ↦ ?_, fun r hr s hs hcr hcs he hseq ↦ ?_⟩
  · rw [ha.counters p (by rw [hn]; rfl)]
    exact h.counter p n hn
  · obtain ⟨p, hp, hold⟩ := h.origin r hr
    refine ⟨p, hext.projectOf hp, fun r₀ hr₀ ↦ ?_⟩
    rw [ha.rows r.key (Table.find_isSome Row.key hr rfl)] at hr₀
    obtain ⟨hk, hp₀⟩ := hold r₀ hr₀
    exact ⟨hk, ha.extends'.projectOf hp₀⟩
  · obtain ⟨n, m, hn, hm, hb⟩ := h.stamped r hr hc p (hback r hr p hp)
    rw [← ha.counters p (by rw [hn]; rfl)] at hm
    exact ⟨n, m, hn, hm, hb⟩
  · obtain ⟨p, hp, -⟩ := h.origin r hr
    obtain ⟨q, hq, -⟩ := h.origin s hs
    refine h.distinct r hr s hs hcr hcs ?_ hseq
    rw [hp, hq, ← hext.projectOf hp, ← hext.projectOf hq, he]

theorem Fresh.frame {p : Uuid} {n : ℕ} (hf : w.Fresh d c p n) (h : w.Sound d c) {d' : Data}
    (ha : w.Apart d d') : w.Fresh d' c p n := by
  have hext := h.view_extends ha
  refine ⟨hf.counter, fun m hm ↦ ?_, fun s hs hc hp ↦ hf.unused s hs hc ?_⟩
  · rw [ha.counters p (by rw [hf.counter]; rfl)] at hm
    exact hf.above m hm
  · obtain ⟨q, hq, -⟩ := h.origin s hs
    rwa [hext.projectOf hq, ← hq] at hp

end Work

end RiskApp.Server
