import Mathlib.Data.Char
import Mathlib.Data.Prod.Lex
import Mathlib.Data.List.Lex
import Mathlib.Data.Set.Function
import RiskApp.Client.Pull
import RiskApp.Lib.Digits

namespace RiskApp.Server

open Lib Lib.Digits

structure DateTime where
  year : ℕ
  month : ℕ
  day : ℕ
  hour : ℕ
  minute : ℕ
  second : ℕ
  microsecond : ℕ
  valid : year ≤ 9999 ∧ month ≤ 12 ∧ day ≤ 31 ∧ hour < 24 ∧ minute < 60 ∧ second < 60 ∧
    microsecond < 1000000

namespace DateTime

def fields (t : DateTime) : List ℕ :=
  [t.year, t.month, t.day, t.hour, t.minute, t.second, t.microsecond]

def fraction (microsecond : ℕ) : List Char :=
  if microsecond = 0 then [] else field ['.'] 6 microsecond

def isoformat (t : DateTime) : List Char :=
  field [] 4 t.year ++ (field ['-'] 2 t.month ++ (field ['-'] 2 t.day ++ (field ['T'] 2 t.hour ++
    (field [':'] 2 t.minute ++ (field [':'] 2 t.second ++ fraction t.microsecond)))))

theorem fraction_lt {m n : ℕ} (hm : m < 1000000) (hn : n < 1000000) :
    fraction m < fraction n ↔ m < n := by
  unfold fraction
  by_cases hm0 : m = 0
  · by_cases hn0 : n = 0
    · simp [hm0, hn0]
    · simp [hm0, hn0, field, Nat.pos_of_ne_zero]
  · by_cases hn0 : n = 0
    · simp [hm0, hn0]
    · rw [if_neg hm0, if_neg hn0]
      have h := @Digits.field_append_lt ['.'] [] [] 6 _ _ hm hn
      simpa using h

/-- The texts order as the datetimes, whether or not they show microseconds. -/
theorem isoformat_lt {a b : DateTime} : a.isoformat < b.isoformat ↔ a.fields < b.fields := by
  obtain ⟨ha₁, ha₂, ha₃, ha₄, ha₅, ha₆, ha₇⟩ := a.valid
  obtain ⟨hb₁, hb₂, hb₃, hb₄, hb₅, hb₆, hb₇⟩ := b.valid
  have hfraction := fraction_lt ha₇ hb₇
  unfold isoformat fields
  rw [field_append_lt (by omega) (by omega), field_append_lt (by omega) (by omega),
    field_append_lt (by omega) (by omega), field_append_lt (by omega) (by omega),
    field_append_lt (by omega) (by omega), field_append_lt (by omega) (by omega), hfraction]
  simp only [List.cons_lt_cons_iff, List.lt_irrefl, and_false, or_false]

end DateTime

inductive Timestamp
  | datetime (t : DateTime)
  | text (s : List Char)

def timestampKey : Timestamp → List Char
  | .datetime t => t.isoformat
  | .text s => s

def Table.name : Table → List Char
  | .items => "items".toList
  | .actions => "actions".toList
  | .assessments => "assessments".toList
  | .helpdeskTickets => "helpdesk_tickets".toList

def uuidText (u : Uuid) : List Char :=
  let hex := (Nat.toDigits 16 u).leftpad 32 '0'
  hex.take 8 ++ '-' :: (hex.drop 8).take 4 ++ '-' :: (hex.drop 12).take 4 ++
    '-' :: (hex.drop 16).take 4 ++ '-' :: hex.drop 20

namespace Backfill

abbrev SortKey := List Char ×ₗ List Char ×ₗ List Char

section

variable (reads : Val → Timestamp)

def sortKey (r : Row) : SortKey :=
  toLex (timestampKey (reads (r.attrs .updatedAt)), toLex (r.table.name, uuidText r.id))

def changes (d : Data) (projectId : Uuid) : List Row :=
  [Table.items, .actions, .helpdeskTickets].flatMap (fun t ↦
    d.rows.filter fun r ↦ r.table = t && r.ownProject = some projectId) ++
  d.rows.filter fun r ↦ r.table = .assessments && d.projectOf r = some projectId

def sorted (d : Data) (projectId : Uuid) : List Row :=
  (changes d projectId).insertionSort fun r s ↦ sortKey reads r ≤ sortKey reads s

def numbered (d : Data) (projectId : Uuid) : List (Row × ℕ) := (sorted reads d projectId).zipIdx 1

def setSequence (rows : List Row) (c : Row × ℕ) : List Row :=
  rows.map fun r ↦ if r.key = c.1.key then { r with changeSequence := c.2 } else r

def updates (projectIds : List Uuid) (d : Data) : List (Row × ℕ) :=
  projectIds.flatMap (numbered reads d)

/-- `_backfill_change_sequences`, on the table `sync_project_state` as it was just created. -/
def backfillChangeSequences (projectIds : List Uuid) (d : Data) : Data :=
  { d with
    rows := (updates reads projectIds d).foldl setSequence d.rows
    lastSequence := fun p ↦ if p ∈ projectIds then some (changes d p).length else none }

end

def changedKey (c : Row × ℕ) : RowKey := c.1.key

def assigned (cs : List (Row × ℕ)) (r : Row) : Option ℕ :=
  (Table.find changedKey r.key cs).map Prod.snd

def withSequence (cs : List (Row × ℕ)) (r : Row) : Row :=
  { r with changeSequence := (assigned cs r).getD r.changeSequence }

theorem foldl_setSequence {cs : List (Row × ℕ)} (hcs : (cs.map changedKey).Nodup)
    (rows : List Row) : cs.foldl setSequence rows = rows.map (withSequence cs) := by
  induction cs generalizing rows with
  | nil => exact (List.map_id rows).symm
  | cons c cs ih =>
    obtain ⟨hfresh, hcs⟩ := List.nodup_cons.mp hcs
    rw [List.foldl_cons, ih hcs, setSequence, List.map_map]
    refine List.map_congr_left fun r _ ↦ ?_
    have hassigned : assigned (c :: cs) r =
        if c.1.key = r.key then some c.2 else assigned cs r := by
      rw [assigned, Table.find_cons]
      change Option.map Prod.snd (if c.1.key = r.key then some c else _) = _
      split <;> rfl
    by_cases hk : r.key = c.1.key
    · have hnone : Table.find changedKey r.key cs = none :=
        (Table.find_eq_none changedKey).mpr fun c' hc' he ↦
          hfresh (List.mem_map.mpr ⟨c', hc', he.trans hk⟩)
      have hsame : assigned cs { r with changeSequence := c.2 } = none := by
        rw [assigned, show ({ r with changeSequence := c.2 } : Row).key = r.key from rfl, hnone]
        rfl
      simp only [Function.comp, if_pos hk, withSequence, hassigned, if_pos hk.symm, hsame]
      rfl
    · simp only [Function.comp, if_neg hk, withSequence, hassigned, if_neg (Ne.symm hk)]

section

variable {reads : Val → Timestamp} {projectIds : List Uuid} {d : Data} {p : Uuid} {r : Row}

theorem mem_changes : r ∈ changes d p ↔ r ∈ d.rows ∧ d.projectOf r = some p := by
  cases ht : r.table <;>
    simp [changes, List.mem_filter, ht, Data.projectOf]

theorem changes_nodup (hd : d.rows.Nodup) : (changes d p).Nodup := by
  unfold changes
  rw [List.nodup_append]
  refine ⟨List.nodup_flatMap.mpr ⟨fun t _ ↦ hd.filter _, ?_⟩, hd.filter _, fun r hr s hs he ↦ ?_⟩
  · have hdistinct : [Table.items, .actions, .helpdeskTickets].Pairwise (· ≠ ·) := by decide
    refine hdistinct.imp fun {t t'} hne r hr hr' ↦ hne ?_
    simp only [List.mem_filter, Bool.and_eq_true, decide_eq_true_eq] at hr hr'
    exact hr.2.1.symm.trans hr'.2.1
  · subst he
    simp only [List.mem_flatMap, List.mem_filter, Bool.and_eq_true, decide_eq_true_eq] at hr hs
    obtain ⟨t, ht, -, htable, -⟩ := hr
    rw [htable] at hs
    rw [hs.2.1] at ht
    exact absurd ht (by decide)

theorem mem_sorted : r ∈ sorted reads d p ↔ r ∈ d.rows ∧ d.projectOf r = some p := by
  rw [sorted, List.mem_insertionSort, mem_changes]

theorem sorted_nodup (hd : d.rows.Nodup) : (sorted reads d p).Nodup :=
  (List.perm_insertionSort _ _).nodup_iff.mpr (changes_nodup hd)

theorem sorted_pairwise :
    (sorted reads d p).Pairwise fun r s ↦ sortKey reads r ≤ sortKey reads s := by
  let le := fun r s ↦ sortKey reads r ≤ sortKey reads s
  have htotal : Std.Total le := ⟨fun r s ↦ le_total _ _⟩
  have htrans : IsTrans Row le := ⟨fun r s t ↦ le_trans⟩
  exact List.pairwise_insertionSort le _

theorem updates_nodup (hd : (d.rows.map Row.key).Nodup) (hp : projectIds.Nodup) :
    ((updates reads projectIds d).map changedKey).Nodup := by
  have hrows : d.rows.Nodup := hd.of_map
  have hfst : (updates reads projectIds d).map Prod.fst = projectIds.flatMap (sorted reads d) := by
    rw [updates, List.map_flatMap]
    simp only [numbered, List.zipIdx_map_fst]
  have hkeys : (updates reads projectIds d).map changedKey =
      (projectIds.flatMap (sorted reads d)).map Row.key := by
    rw [← hfst, List.map_map]
    rfl
  rw [hkeys]
  refine List.Nodup.map_on (fun r hr s hs he ↦ ?_) (List.nodup_flatMap.mpr
    ⟨fun p _ ↦ sorted_nodup hrows, hp.imp fun {p q} hne r hr hr' ↦ hne ?_⟩)
  · obtain ⟨p, -, hr⟩ := List.mem_flatMap.mp hr
    obtain ⟨q, -, hs⟩ := List.mem_flatMap.mp hs
    exact List.inj_on_of_nodup_map hd (mem_sorted.mp hr).1 (mem_sorted.mp hs).1 he
  · exact Option.some.inj ((mem_sorted.mp hr).2.symm.trans (mem_sorted.mp hr').2)

theorem withSequence_place (hd : (d.rows.map Row.key).Nodup) (hp : projectIds.Nodup)
    (hin : p ∈ projectIds) {i : ℕ} (hi : (sorted reads d p)[i]? = some r) :
    (withSequence (updates reads projectIds d) r).changeSequence = i + 1 := by
  have hmem : (r, i + 1) ∈ updates reads projectIds d := by
    refine List.mem_flatMap.mpr ⟨p, hin, ?_⟩
    rw [Nat.add_comm]
    exact List.mk_add_mem_zipIdx_iff_getElem?.mpr hi
  have hfind := Table.find_of_mem changedKey (updates_nodup hd hp) hmem
  have hassigned : assigned (updates reads projectIds d) r = some (i + 1) := by
    rw [assigned]
    exact congrArg (Option.map Prod.snd) hfind
  rw [withSequence, hassigned]
  rfl

end

/-- What the schema before the migration guarantees, and that every assessment has an item. -/
structure Premigration (projectIds : List Uuid) (d : Data) : Prop where
  keys : (d.rows.map Row.key).Nodup
  projects : projectIds.Nodup
  parents : ∀ r ∈ d.rows, d.hasParent r
  owned : ∀ r ∈ d.rows, ∃ p ∈ projectIds, d.projectOf r = some p

def projectRows (d : Data) (p : Uuid) : List Row :=
  d.rows.filter fun r ↦ d.projectOf r = some p

/-- The order of `updated_at`: by the text of the key, which for datetimes is the order in time. -/
def NotLater (reads : Val → Timestamp) (r s : Row) : Prop :=
  timestampKey (reads (r.attrs .updatedAt)) ≤ timestampKey (reads (s.attrs .updatedAt)) ∧
    ∀ a b, reads (r.attrs .updatedAt) = .datetime a → reads (s.attrs .updatedAt) = .datetime b →
      a.fields ≤ b.fields

theorem notLater_of_key {reads : Val → Timestamp} {r s : Row}
    (h : sortKey reads r ≤ sortKey reads s) : NotLater reads r s := by
  have hkey : timestampKey (reads (r.attrs .updatedAt)) ≤
      timestampKey (reads (s.attrs .updatedAt)) := by
    rcases Prod.Lex.toLex_le_toLex.mp h with hlt | ⟨heq, -⟩
    · exact hlt.le
    · exact heq.le
  refine ⟨hkey, fun a b ha hb ↦ ?_⟩
  rw [ha, hb] at hkey
  exact not_lt.mp fun hlt ↦ absurd (DateTime.isoformat_lt.mpr hlt) (not_lt.mpr hkey)

section Backfilled

variable {reads : Val → Timestamp} {projectIds : List Uuid} {d : Data} {p : Uuid} {r : Row}
variable (h : Premigration projectIds d)

include h

theorem backfill_rows : (backfillChangeSequences reads projectIds d).rows =
    d.rows.map (withSequence (updates reads projectIds d)) :=
  foldl_setSequence (updates_nodup h.keys h.projects) d.rows

theorem backfill_item (i : Uuid) : (backfillChangeSequences reads projectIds d).item i =
    (d.item i).map (withSequence (updates reads projectIds d)) := by
  rw [Data.item, Data.row, backfill_rows h]
  exact Table.find_map Row.key _ (g := withSequence (updates reads projectIds d))
    (fun _ ↦ rfl) d.rows

theorem backfill_projectOf (r : Row) : (backfillChangeSequences reads projectIds d).projectOf
    (withSequence (updates reads projectIds d) r) = d.projectOf r := by
  have hitem : ∀ i, ((backfillChangeSequences reads projectIds d).item i).bind Row.ownProject =
      (d.item i).bind Row.ownProject := fun i ↦ by
    rw [backfill_item h]
    cases d.item i <;> rfl
  have hattrs : (withSequence (updates reads projectIds d) r).attrs = r.attrs := rfl
  have htable : (withSequence (updates reads projectIds d) r).table = r.table := rfl
  unfold Data.projectOf
  rw [htable, hattrs]
  cases r.table with
  | assessments => cases r.attrs .itemId <;> first | exact hitem _ | rfl
  | items | actions | helpdeskTickets => rfl

theorem projectRows_backfill : projectRows (backfillChangeSequences reads projectIds d) p =
    (projectRows d p).map (withSequence (updates reads projectIds d)) := by
  rw [projectRows, backfill_rows h, List.filter_map, projectRows]
  refine congrArg _ (List.filter_congr fun r _ ↦ ?_)
  simp only [Function.comp, backfill_projectOf h]

theorem length_backfill : (projectRows (backfillChangeSequences reads projectIds d) p).length =
    (sorted reads d p).length := by
  have hnodup : d.rows.Nodup := h.keys.of_map
  rw [projectRows_backfill h, List.length_map]
  refine ((List.perm_ext_iff_of_nodup (hnodup.filter _) (sorted_nodup hnodup)).mpr
    fun r ↦ ?_).length_eq
  rw [mem_sorted, List.mem_filter, decide_eq_true_eq]

theorem backfill_place (hp : p ∈ projectIds)
    (hr : r ∈ projectRows (backfillChangeSequences reads projectIds d) p) :
    ∃ r₀ i, (sorted reads d p)[i]? = some r₀ ∧ i + 1 = r.changeSequence ∧
      withSequence (updates reads projectIds d) r₀ = r := by
  rw [projectRows_backfill h] at hr
  obtain ⟨r₀, hr₀, rfl⟩ := List.mem_map.mp hr
  obtain ⟨hmem, hproject⟩ := List.mem_filter.mp hr₀
  have hsorted : r₀ ∈ sorted reads d p := mem_sorted.mpr ⟨hmem, of_decide_eq_true hproject⟩
  obtain ⟨i, hi⟩ := List.mem_iff_getElem?.mp hsorted
  exact ⟨r₀, i, hi, (withSequence_place h.keys h.projects hp hi).symm, rfl⟩

theorem backfill_lastSequence (hp : p ∈ projectIds) :
    (backfillChangeSequences reads projectIds d).lastSequence p =
      some (projectRows (backfillChangeSequences reads projectIds d) p).length := by
  have hlast : (backfillChangeSequences reads projectIds d).lastSequence p =
      some (changes d p).length := if_pos hp
  rw [hlast, length_backfill h, sorted, List.length_insertionSort]

theorem backfill_ordered (hp : p ∈ projectIds) {r s : Row}
    (hr : r ∈ projectRows (backfillChangeSequences reads projectIds d) p)
    (hs : s ∈ projectRows (backfillChangeSequences reads projectIds d) p)
    (hlt : r.changeSequence < s.changeSequence) : NotLater reads r s := by
  obtain ⟨r₀, i, hi, hri, rfl⟩ := backfill_place h hp hr
  obtain ⟨s₀, j, hj, hsj, rfl⟩ := backfill_place h hp hs
  obtain ⟨hi', rfl⟩ := List.getElem?_eq_some_iff.mp hi
  obtain ⟨hj', rfl⟩ := List.getElem?_eq_some_iff.mp hj
  have hij : i < j := by omega
  exact notLater_of_key (List.pairwise_iff_getElem.mp sorted_pairwise i j hi' hj' hij)

theorem backfill_injective (hp : p ∈ projectIds) {r s : Row}
    (hr : r ∈ projectRows (backfillChangeSequences reads projectIds d) p)
    (hs : s ∈ projectRows (backfillChangeSequences reads projectIds d) p)
    (heq : r.changeSequence = s.changeSequence) : r = s := by
  obtain ⟨r₀, i, hi, hri, rfl⟩ := backfill_place h hp hr
  obtain ⟨s₀, j, hj, hsj, rfl⟩ := backfill_place h hp hs
  obtain rfl : i = j := by omega
  rw [Option.some.inj (hi.symm.trans hj)]

theorem backfill_bounds (hp : p ∈ projectIds)
    (hr : r ∈ projectRows (backfillChangeSequences reads projectIds d) p) : 1 ≤ r.changeSequence ∧
      r.changeSequence ≤ (projectRows (backfillChangeSequences reads projectIds d) p).length := by
  obtain ⟨r₀, i, hi, hri, -⟩ := backfill_place h hp hr
  have hlen := (List.getElem?_eq_some_iff.mp hi).1
  rw [length_backfill h]
  omega

theorem backfill_bijOn (hp : p ∈ projectIds) : Set.BijOn Row.changeSequence
    {r | r ∈ projectRows (backfillChangeSequences reads projectIds d) p}
    (Set.Icc 1 (projectRows (backfillChangeSequences reads projectIds d) p).length) := by
  refine ⟨fun r hr ↦ backfill_bounds h hp hr, fun r hr s hs ↦ backfill_injective h hp hr hs,
    fun n hn ↦ ?_⟩
  obtain ⟨hlo, hhi⟩ := hn
  rw [length_backfill h] at hhi
  have hi : n - 1 < (sorted reads d p).length := by omega
  have hget := List.getElem?_eq_getElem hi
  obtain ⟨hmem, hproject⟩ := mem_sorted.mp (List.getElem_mem hi)
  refine ⟨withSequence (updates reads projectIds d) (sorted reads d p)[n - 1], ?_, ?_⟩
  · change _ ∈ projectRows _ p
    rw [projectRows_backfill h]
    exact List.mem_map_of_mem (List.mem_filter.mpr ⟨hmem, decide_eq_true hproject⟩)
  · rw [withSequence_place h.keys h.projects hp hget]
    omega

theorem backfill_wellFormed (htypes : ∀ r ∈ d.rows, r.hasType) :
    (backfillChangeSequences reads projectIds d).WellFormed := by
  have hrow : ∀ r ∈ (backfillChangeSequences reads projectIds d).rows, ∃ r₀ ∈ d.rows,
      withSequence (updates reads projectIds d) r₀ = r := fun r hr ↦ by
    rw [backfill_rows h] at hr
    exact List.mem_map.mp hr
  have hproject : ∀ r ∈ (backfillChangeSequences reads projectIds d).rows, ∃ p ∈ projectIds,
      r ∈ projectRows (backfillChangeSequences reads projectIds d) p := fun r hr ↦ by
    obtain ⟨r₀, hr₀, rfl⟩ := hrow r hr
    obtain ⟨p, hp, hown⟩ := h.owned r₀ hr₀
    exact ⟨p, hp, List.mem_filter.mpr ⟨hr, decide_eq_true ((backfill_projectOf h r₀).trans hown)⟩⟩
  refine ⟨?_, fun r hr ↦ ?_, fun r hr s hs hsame heq ↦ ?_, fun r hr hcol ↦ ?_, fun r hr ↦ ?_⟩
  · rw [backfill_rows h, List.map_map]
    exact h.keys
  · obtain ⟨p, hp, hmem⟩ := hproject r hr
    exact ⟨p, _, of_decide_eq_true (List.mem_filter.mp hmem).2, backfill_lastSequence h hp,
      backfill_bounds h hp hmem⟩
  · obtain ⟨p, hp, hmem⟩ := hproject r hr
    have hpr := of_decide_eq_true (List.mem_filter.mp hmem).2
    have hmem' : s ∈ projectRows (backfillChangeSequences reads projectIds d) p :=
      List.mem_filter.mpr ⟨hs, decide_eq_true (hsame.symm.trans hpr)⟩
    exact backfill_injective h hp hmem hmem' heq
  · obtain ⟨r₀, hr₀, rfl⟩ := hrow r hr
    obtain ⟨itemId, hitem, hsome⟩ := h.parents r₀ hr₀ hcol
    refine ⟨itemId, hitem, ?_⟩
    rw [backfill_item h, Option.isSome_map]
    exact hsome
  · obtain ⟨r₀, hr₀, rfl⟩ := hrow r hr
    exact htypes r₀ hr₀

end Backfilled

/-- Whatever way a client pulls the project from sequence 0 (the whole lists, or pages of any
size), it gets these rows, each once. -/
structure PullsAll (d : Data) (p : Uuid) (rows : List Row) : Prop where
  whole : ∀ hardCap resp, hardCap ≠ 0 →
    pullSince hardCap d p 0 none (fun _ ↦ none) none = .ok resp →
    (PullKey.all.flatMap resp.rows).Perm rows
  paged : ∀ hardCap limit, 1 ≤ limit → ∃ fuel₀ st j, (∀ fuel ≥ fuel₀,
      Client.pullPaginated (Client.pullRequest hardCap (fun _ ↦ d) p 0 limit) fuel 0 {} =
        some (.ok (st, j))) ∧ st.rows.Perm rows

section

variable {d : Data} {p : Uuid}

theorem pulled_perm (hd : d.WellFormed) {n : ℕ} (hlast : d.lastSequence p = some n)
    {st : Client.PullState} (h : Client.Pulled d d p 0 n st) : st.rows.Perm (projectRows d p) := by
  have hrows : d.rows.Nodup := hd.keys.of_map
  refine (List.perm_ext_iff_of_nodup (h.nodup hd).of_map (hrows.filter _)).mpr fun r ↦ ?_
  rw [List.mem_filter, decide_eq_true_eq, Client.PullState.mem_rows]
  constructor
  · rintro ⟨k, hr⟩
    obtain ⟨c, hc⟩ := h.collected k
    obtain ⟨hmem, hp, -⟩ := (Client.mem_entityFeed hd).mp (hc.origin r hr)
    exact ⟨hmem, hp⟩
  · rintro ⟨hmem, hp⟩
    obtain ⟨k, hk⟩ := Client.pullKey_isSome hd hmem
    obtain ⟨q, m, hq, hm, hlo, hhi⟩ := hd.bounded r hmem
    obtain rfl : q = p := Option.some.inj (hq.symm.trans hp)
    obtain rfl : m = n := Option.some.inj (hm.symm.trans hlast)
    exact ⟨k, h.complete k r ((Client.mem_entityFeed hd).mpr ⟨hmem, hp, hk⟩) hlo hhi⟩

/-- On a feed in order, a pull from the start gets every row of the project once. -/
theorem pullsAll (hd : d.WellFormed) {n : ℕ} (hlast : d.lastSequence p = some n) :
    PullsAll d p (projectRows d p) := by
  refine ⟨fun hardCap resp hcap hresp ↦ ?_, fun hardCap limit hlimit ↦ ?_⟩
  · rw [pullSince_whole hcap hlast n.zero_le] at hresp
    split at hresp
    · cases hresp
    · cases hresp
      let st : Client.PullState :=
        ⟨fun _ ↦ none, some n, fun k ↦ Window.window Row.changeSequence 0 n (entityFeed d p k)⟩
      have hall : Client.Pulled d d p 0 n st := by
        refine ⟨rfl, fun k ↦ ⟨n, n.zero_le, le_rfl, Client.window_feed_strict hd 0 n, fun r hr ↦ ?_,
          fun r hr ↦ ?_, fun r hr hlo hhi ↦ ?_⟩, fun k r hr hlo hhi ↦ ?_⟩
        · exact (Window.mem_window.mp hr).2
        · exact (Window.mem_window.mp hr).1
        · exact Window.mem_window.mpr ⟨hr, hlo, hhi⟩
        · exact Window.mem_window.mpr ⟨hr, hlo, hhi⟩
      exact pulled_perm hd hlast hall
  · obtain ⟨fuel₀, st, j, hrun, hdone⟩ := @Client.pullPaginated_pulled hardCap (fun _ ↦ d) p 0 limit
      n hlimit (fun _ ↦ hd) (fun _ ↦ .refl d) hlast n.zero_le
    exact ⟨fuel₀, st, j, hrun, pulled_perm hd hlast hdone⟩

end

/-- The migration puts the change feed in order. -/
theorem backfill_establishes_feed (reads : Val → Timestamp) {projectIds : List Uuid} {d : Data}
    (h : Premigration projectIds d) :
    let d' := backfillChangeSequences reads projectIds d
    (∃ number : Row → ℕ, d' = { d with
        rows := d.rows.map fun r ↦ { r with changeSequence := number r }
        lastSequence := d'.lastSequence }) ∧
      ∀ p ∈ projectIds,
        d'.lastSequence p = some (projectRows d' p).length ∧
        Set.BijOn Row.changeSequence {r | r ∈ projectRows d' p}
          (Set.Icc 1 (projectRows d' p).length) ∧
        (∀ r ∈ projectRows d' p, ∀ s ∈ projectRows d' p,
          r.changeSequence < s.changeSequence → NotLater reads r s) ∧
        ((∀ r ∈ d.rows, r.hasType) → PullsAll d' p (projectRows d' p)) := by
  refine ⟨⟨fun r ↦ (assigned (updates reads projectIds d) r).getD r.changeSequence, ?_⟩,
    fun p hp ↦ ⟨backfill_lastSequence h hp, backfill_bijOn h hp,
      fun r hr s hs hlt ↦ backfill_ordered h hp hr hs hlt, fun htypes ↦ ?_⟩⟩
  · have hrows : (backfillChangeSequences reads projectIds d).rows =
        d.rows.map (withSequence (updates reads projectIds d)) := backfill_rows h
    exact congrArg
      (fun rows ↦ { backfillChangeSequences reads projectIds d with rows := rows }) hrows
  · exact pullsAll (backfill_wellFormed h htypes) (backfill_lastSequence h hp)

section Sample

def sampleReads : Val → Timestamp
  | .time t => .datetime ⟨2026, 1, 1, 0, 0, 0, t % 1000000, by omega⟩
  | _ => .text []

def sampleAssessment : Row :=
  ⟨.assessments, 200, 1, 0, Dict.get (Dict.ofList [(.itemId, .uuid 100), (.updatedAt, .time 7)])⟩

def oldDb : Data := { sampleDb.data with rows := [sampleAssessment, sampleRisk] }

theorem oldDb_premigration : Premigration [1, 2] oldDb where
  keys := by decide
  projects := by decide
  parents r hr hcol := by
    rcases List.mem_cons.mp hr with rfl | hr
    · exact ⟨100, rfl, by decide⟩
    · rw [List.mem_singleton.mp hr] at hcol
      exact absurd hcol (by decide)
  owned r hr := by
    rcases List.mem_cons.mp hr with rfl | hr
    · exact ⟨1, by decide, by decide⟩
    · rw [List.mem_singleton.mp hr]
      exact ⟨1, by decide, by decide⟩

theorem backfill_establishes_feed_sample :
    let d' := backfillChangeSequences sampleReads [1, 2] oldDb
    d'.lastSequence 2 = some (projectRows d' 2).length ∧ PullsAll d' 1 (projectRows d' 1) := by
  have htypes : ∀ r ∈ oldDb.rows, r.hasType := fun r hr ↦ by
    rcases List.mem_cons.mp hr with rfl | hr
    · exact fun h ↦ absurd h (by decide)
    · rw [List.mem_singleton.mp hr]
      exact fun _ ↦ Or.inl rfl
  have h := (backfill_establishes_feed sampleReads oldDb_premigration).2
  exact ⟨(h 2 (by decide)).1, (h 1 (by decide)).2.2.2 htypes⟩

end Sample

end Backfill

end RiskApp.Server
