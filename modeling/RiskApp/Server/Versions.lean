import RiskApp.Server.ChangeFeed

namespace RiskApp.Server

open Lib Lib.Result

/-- A write goes one version above the content it replaces, which its writer had read; a new row
starts at version 1. -/
def Mutation.Follows (m : Mutation) : Option Row → Prop
  | none => m.after.version = 1
  | some r => m.after.version = r.version + 1 ∧ m.base = r.version

def Chained : Option Row → List Mutation → Prop
  | _, [] => True
  | prev, m :: ms => m.Follows prev ∧ Chained (some m.after) ms

def latest : Option Row → List Mutation → Option Row
  | prev, [] => prev
  | _, m :: ms => latest (some m.after) ms

def writesOf (k : RowKey) (ms : List Mutation) : List Mutation := ms.filter (·.after.key = k)

theorem latest_append (prev : Option Row) (ms ms' : List Mutation) :
    latest prev (ms ++ ms') = latest (latest prev ms) ms' := by
  induction ms generalizing prev with
  | nil => rfl
  | cons m ms ih => exact ih (some m.after)

theorem Chained.append {prev : Option Row} {ms ms' : List Mutation} (h : Chained prev ms)
    (h' : Chained (latest prev ms) ms') : Chained prev (ms ++ ms') := by
  induction ms generalizing prev with
  | nil => exact h'
  | cons m ms ih => exact ⟨h.1, ih h.2 h'⟩

theorem Chained.above {r : Row} {ms : List Mutation} (h : Chained (some r) ms) :
    ∀ m ∈ ms, r.version < m.after.version := by
  induction ms generalizing r with
  | nil =>
    intro m hm
    cases hm
  | cons m ms ih =>
    intro m' hm'
    have hm : m.after.version = r.version + 1 := h.1.1
    rcases List.mem_cons.mp hm' with rfl | hm'
    · omega
    · have := ih h.2 m' hm'
      omega

/-- Along chained writes a version names one content. -/
theorem Chained.unique {prev : Option Row} {ms : List Mutation} (h : Chained prev ms)
    {m m' : Mutation} (hm : m ∈ ms) (hm' : m' ∈ ms) (hv : m.after.version = m'.after.version) :
    m = m' := by
  induction ms generalizing prev with
  | nil => cases hm
  | cons m₀ ms ih =>
    have habove := Chained.above h.2
    rcases List.mem_cons.mp hm with he | hms <;> rcases List.mem_cons.mp hm' with he' | hms'
    · exact he.trans he'.symm
    · exact absurd hv (he ▸ habove m' hms').ne
    · exact absurd hv (he' ▸ habove m hms).ne'
    · exact ih h.2 hms hms'

theorem writesOf_append (k : RowKey) (ms ms' : List Mutation) :
    writesOf k (ms ++ ms') = writesOf k ms ++ writesOf k ms' :=
  List.filter_append ..

/-- The writes of a transaction, row by row. The row `c` is claimed: its version is already the
next one. -/
structure Work.Versioned (d : Data) (w : Work) (c : Option RowKey) : Prop where
  held : ∀ m ∈ w.log, (w.row m.after.key).isSome
  chained : ∀ k, Chained (d.row k) (writesOf k w.log)
  current : ∀ k, c ≠ some k → (w.view d).row k = latest (d.row k) (writesOf k w.log)

def Work.Claimed (d : Data) (w : Work) (k : RowKey) (b : ℕ) : Prop :=
  ∃ q s, latest (d.row k) (writesOf k w.log) = some q ∧ q.version = b ∧
    w.row k = some s ∧ s.version = b + 1

namespace Work

variable {d d' : Data} {w : Work} {c : Option RowKey}

theorem Versioned.empty (d : Data) : Work.empty.Versioned d none :=
  ⟨fun _ h ↦ absurd h List.not_mem_nil, fun _ ↦ trivial, fun k _ ↦ view_row _ d k⟩

theorem Versioned.frame (h : w.Versioned d c) (ha : w.Apart d d') : w.Versioned d' c := by
  have hcases : ∀ k, d'.row k = d.row k ∨ w.row k = none ∧ writesOf k w.log = [] := by
    intro k
    cases hw : w.row k with
    | some r => exact Or.inl (ha.rows k (by rw [hw]; rfl))
    | none =>
      refine Or.inr ⟨rfl, List.filter_eq_nil_iff.mpr fun m hm he ↦ ?_⟩
      have hheld := h.held m hm
      rw [of_decide_eq_true he, hw] at hheld
      cases hheld
  refine ⟨h.held, fun k ↦ ?_, fun k hk ↦ ?_⟩
  · rcases hcases k with he | ⟨-, he⟩
    · rw [he]
      exact h.chained k
    · rw [he]
      trivial
  · rcases hcases k with he | ⟨hw, he⟩
    · rw [view_row, he, ← view_row]
      exact h.current k hk
    · rw [view_row, hw, he]
      rfl

theorem Claimed.frame {k : RowKey} {b : ℕ} (h : w.Claimed d k b) (ha : w.Apart d d') :
    w.Claimed d' k b := by
  obtain ⟨q, s, hq, hb, hs, hv⟩ := h
  rw [← ha.rows k (by rw [hs]; rfl)] at hq
  exact ⟨q, s, hq, hb, hs, hv⟩

theorem Versioned.setCounter (h : w.Versioned d c) (p : Uuid) (n : ℕ) :
    (w.setCounter p n).Versioned d c :=
  ⟨h.held, h.chained, h.current⟩

/-- The row seen before a claim is the one the next write follows. -/
theorem Versioned.claim (h : w.Versioned d none) {s : Row} (hs : (w.view d).row s.key = some s)
    (now : Time) : (w.put (s.claim now)).Versioned d (some s.key) ∧
      (w.put (s.claim now)).Claimed d s.key s.version := by
  have hkey := (s.keeps_claim now).key
  refine ⟨⟨fun m hm ↦ ?_, h.chained, fun k hk ↦ ?_⟩, s, s.claim now, ?_, rfl, ?_, rfl⟩
  · rw [put_row]
    split
    · rfl
    · exact h.held m hm
  · have hne : (s.claim now).key ≠ k := fun he ↦ hk (by rw [← he, hkey])
    rw [put_view_row, if_neg hne]
    exact h.current k (by simp)
  · exact (h.current s.key (by simp)).symm.trans hs
  · rw [put_row, if_pos hkey]

theorem Versioned.write (h : w.Versioned d c) {r : Row} {b : ℕ}
    (hc : c = none ∨ c = some r.key)
    (hf : (⟨b, r⟩ : Mutation).Follows (latest (d.row r.key) (writesOf r.key w.log))) :
    ((w.put r).record b r).Versioned d none := by
  have hself : writesOf r.key ((w.put r).record b r).log = writesOf r.key w.log ++ [⟨b, r⟩] := by
    rw [record, writesOf_append]
    simp [writesOf, put]
  have hother : ∀ k, r.key ≠ k → writesOf k ((w.put r).record b r).log = writesOf k w.log := by
    intro k hk
    rw [record, writesOf_append]
    simp [writesOf, put, hk]
  refine ⟨fun m hm ↦ ?_, fun k ↦ ?_, fun k _ ↦ ?_⟩
  · show ((w.put r).row m.after.key).isSome
    rw [put_row]
    split
    · rfl
    · rename_i hne
      rcases List.mem_append.mp hm with hm | hm
      · exact h.held m hm
      · obtain rfl := List.mem_singleton.mp hm
        exact absurd rfl hne
  · by_cases hk : r.key = k
    · subst hk
      rw [hself]
      exact (h.chained r.key).append ⟨hf, trivial⟩
    · rw [hother k hk]
      exact h.chained k
  · show ((w.put r).view d).row k = _
    rw [put_view_row]
    split
    · rename_i hk
      subst hk
      rw [hself, latest_append]
      rfl
    · rename_i hk
      rw [hother k hk]
      refine h.current k fun he ↦ ?_
      rcases hc with rfl | rfl
      · cases he
      · exact hk (Option.some.inj he)

end Work

/-- The claim compares the row as it is at the claim with the version the object was read at. -/
theorem claimExisting_version {v d' : Data} {r s : Row} {entity : Entity}
    {projectId userId : Uuid} {bv : Option ℤ} {now : Time}
    (h : claimExisting v r entity r.id projectId userId bv now = .ok d')
    (hs : v.row (entity.table, r.id) = some s) : s.version = r.version := by
  obtain ⟨_, -, h⟩ := bind_ok h
  obtain ⟨_, -, h⟩ := bind_ok h
  obtain ⟨b, hb, h⟩ := bind_ok h
  obtain ⟨-, rfl, -⟩ := checkBaseVersion_ok hb
  unfold claimBaseVersion at h
  rw [hs] at h
  split at h
  · rename_i r' hr'
    obtain ⟨he, hv⟩ := Option.filter_eq_some_iff.mp hr'
    cases he
    simp only [Bool.and_eq_true, decide_eq_true_eq] at hv
    omega
  · cases h

/-- What the object that the first task holds says about versions. A delete holds no row before it
writes. -/
def Task.Versioned (d : Data) (w : Work) : Task → Stage → Prop
  | .remove _, .written => True
  | .remove _, .pending _ none _ => False
  | .remove _, .sequenced _ none _ => False
  | .remove _, .pending b (some l) obj => w.rows = [] ∧ l.version = b ∧ obj.version = b + 1
  | .remove _, .sequenced b (some l) obj => w.rows = [] ∧ l.version = b ∧ obj.version = b + 1
  | .remove _, _ => w.rows = []
  | .sync .., .claimed b r => w.Claimed d r.key b ∧ r.version = b
  | _, .claimed b r => w.Claimed d r.key b
  | _, .pending b (some l) obj => w.Claimed d l.key b ∧
      (obj.version = l.version ∨ obj.version = b + 1)
  | _, .sequenced b (some l) obj => w.Claimed d l.key b ∧
      (obj.version = l.version ∨ obj.version = b + 1)
  | _, .pending _ none obj => obj.version = 1
  | _, .sequenced _ none obj => obj.version = 1
  | _, _ => True

def Tx.claimed (tx : Tx) : Option RowKey :=
  match tx.tasks with
  | .remove _ :: _ => none
  | _ => tx.stage.claimedKey

structure Tx.Versioned (d : Data) (tx : Tx) : Prop where
  shape : (∀ t ∈ tx.tasks, t.isSync = true) ∨ tx.tasks.length = 1 ∧ tx.saved = none
  work : tx.work.Versioned d tx.claimed
  task : ∀ t ∈ tx.tasks.head?, t.Versioned d tx.work tx.stage
  saved : ∀ w₀ ∈ tx.saved, w₀.Versioned d none

theorem Task.Versioned.mono {d d' : Data} {w w' : Work} {t : Task} {stage : Stage}
    (hrows : w.rows = [] → w'.rows = [])
    (hclaimed : ∀ k b, w.Claimed d k b → w'.Claimed d' k b) (h : t.Versioned d w stage) :
    t.Versioned d' w' stage := by
  revert h
  unfold Task.Versioned
  split <;> intro h
  · trivial
  · exact h
  · exact h
  · exact ⟨hrows h.1, h.2⟩
  · exact ⟨hrows h.1, h.2⟩
  · exact hrows h
  · exact ⟨hclaimed _ _ h.1, h.2⟩
  · exact hclaimed _ _ h
  · exact ⟨hclaimed _ _ h.1, h.2⟩
  · exact ⟨hclaimed _ _ h.1, h.2⟩
  · exact h
  · exact h
  · trivial

theorem Tx.Versioned.frame {d d' : Data} {tx : Tx} (h : tx.Versioned d) (hinv : tx.Inv d)
    (ha : tx.work.Apart d d') : tx.Versioned d' where
  shape := h.shape
  work := h.work.frame ha
  task t ht := (h.task t ht).mono id fun _ _ hc ↦ hc.frame ha
  saved w₀ hw := (h.saved w₀ hw).frame ((hinv.saved w₀ hw).2.apart ha)

theorem Tx.Initial.versioned {tx : Tx} (h : tx.Initial) (d : Data) : tx.Versioned d := by
  rcases h with ⟨u, p, cs, rfl⟩ | ⟨t, -, rfl⟩
  · refine ⟨Or.inl fun t ht ↦ ?_, ?_, fun t ht ↦ ?_, fun w₀ hw ↦ by cases hw⟩
    · obtain ⟨c, -, rfl⟩ := List.mem_map.mp ht
      rfl
    · cases cs <;> exact .empty d
    · obtain ⟨c, -, rfl⟩ := List.mem_map.mp (List.mem_of_mem_head? ht)
      trivial
  · refine ⟨Or.inr ⟨rfl, rfl⟩, ?_, fun t' ht ↦ ?_, fun w₀ hw ↦ by cases hw⟩
    · cases t <;> exact .empty d
    · cases ht
      cases t <;> trivial

theorem Tx.claimed_eq_none {tx : Tx} (h : tx.stage.claimedKey = none) : tx.claimed = none := by
  unfold Tx.claimed
  split
  · rfl
  · exact h

theorem Tx.claimed_of_sync {tx : Tx} (h : ∀ m, tx.tasks.head? ≠ some (.remove m)) :
    tx.claimed = tx.stage.claimedKey := by
  unfold Tx.claimed
  split
  · rename_i m rest heq
    exact absurd (by rw [heq]; rfl) (h m)
  · rfl

theorem isSync_of_mem_tail {t : Task} {tasks : List Task} {p : Prop}
    (h : (∀ t' ∈ t :: tasks, t'.isSync = true) ∨ (t :: tasks).length = 1 ∧ p) :
    ∀ t' ∈ tasks, t'.isSync = true := by
  intro t' ht
  rcases h with hall | ⟨hlen, -⟩
  · exact hall t' (List.mem_cons_of_mem _ ht)
  · rw [List.eq_nil_of_length_eq_zero (Nat.succ.inj hlen)] at ht
    cases ht

theorem Task.versioned_of_sync {d : Data} {w : Work} {t : Task} (h : t.isSync = true)
    {stage : Stage} (hidle : stage = .ready ∨ stage = .written ∨ ∃ r, stage = .selected r) :
    t.Versioned d w stage := by
  cases t <;> try cases h
  rcases hidle with rfl | rfl | ⟨r, rfl⟩ <;> trivial

theorem Task.Versioned.sequence {d : Data} {w : Work} {t : Task} {b : ℕ} {loaded : Option Row}
    {obj obj' : Row} (h : t.Versioned d w (.pending b loaded obj))
    (hv : obj'.version = obj.version) :
    t.Versioned d w (.sequenced b loaded obj') := by
  cases loaded <;> cases t <;> simp only [Task.Versioned, hv] at h ⊢ <;> exact h

theorem Work.view_row_of_rows_nil {d : Data} {w : Work} (h : w.rows = []) (k : RowKey) :
    (w.view d).row k = d.row k := by
  rw [Work.view_row, Work.row, h]
  rfl

/-- The UPDATE of a claimed row leaves the version that the claim set. -/
theorem Row.writeChanges_version {s l obj : Row} {b : ℕ} (hs : s.version = b + 1)
    (hobj : obj.version = l.version ∨ obj.version = b + 1) :
    (s.writeChanges l obj).version = b + 1 := by
  unfold Row.writeChanges
  simp only
  split
  · exact hs
  · rename_i hne
    exact hobj.resolve_left hne

namespace Tx.Versioned

variable {d : Data} {t : Task} {tasks : List Task} {stage : Stage} {w w₁ : Work}
  {saved : Option Work} {base : ℕ} {l obj s : Row}

theorem claimed {userId projectId : Uuid} {change : SyncChange} {now : Time} {r : Row}
    (h : Tx.Versioned d ⟨.sync userId projectId change now :: tasks, .selected (some r), w, saved⟩)
    (hs : (w.view d).row s.key = some s) (hkey : s.key = r.key) (hversion : s.version = r.version) :
    Tx.Versioned d ⟨.sync userId projectId change now :: tasks, .claimed r.version r,
      w.put (s.claim now), saved⟩ := by
  obtain ⟨hw, hc⟩ := h.work.claim hs now
  rw [hkey] at hw hc
  rw [hversion] at hc
  exact ⟨h.shape, hw, fun t ht ↦ by cases ht; exact ⟨hc, rfl⟩, h.saved⟩

theorem sequenced {loaded : Option Row} {obj' : Row} (p : Uuid) (n : ℕ)
    (h : Tx.Versioned d ⟨t :: tasks, .pending base loaded obj, w, saved⟩)
    (hv : obj'.version = obj.version) :
    Tx.Versioned d ⟨t :: tasks, .sequenced base loaded obj', w.setCounter p n, saved⟩ := by
  have hsame : (⟨t :: tasks, .sequenced base loaded obj', w.setCounter p n, saved⟩ : Tx).claimed =
      (⟨t :: tasks, .pending base loaded obj, w, saved⟩ : Tx).claimed := by
    cases t <;> cases loaded <;> rfl
  refine ⟨h.shape, ?_, fun t' ht ↦ ?_, h.saved⟩
  · rw [hsame]
    exact h.work.setCounter p n
  · cases ht
    have hseq := (h.task t rfl).sequence hv
    exact hseq.mono id fun _ _ hc ↦ hc

/-- The first change is done with, or rolled back to `w₁`. -/
theorem dropped (h : Tx.Versioned d ⟨t :: tasks, stage, w, saved⟩) (hw : w₁.Versioned d none) :
    Tx.Versioned d ⟨tasks, .ready, w₁, none⟩ := by
  have hsync := isSync_of_mem_tail h.shape
  refine ⟨Or.inl hsync, ?_, fun t ht ↦ ?_, fun w₀ hw ↦ by cases hw⟩
  · rwa [Tx.claimed_eq_none rfl]
  · exact t.versioned_of_sync (hsync t (List.mem_of_mem_head? ht)) (Or.inl rfl)

/-- A flush leaves a transaction whose row follows the one before. -/
theorem flushed {r : Row} (h : Tx.Versioned d ⟨t :: tasks, stage, w, saved⟩)
    (hw : ((w.put r).record base r).Versioned d none) :
    Tx.Versioned d ⟨t :: tasks, .written, (w.put r).record base r, saved⟩ := by
  refine ⟨h.shape, ?_, fun t' ht ↦ by cases ht; cases t <;> trivial, h.saved⟩
  rwa [Tx.claimed_eq_none rfl]

theorem inserted (h : Tx.Versioned d ⟨t :: tasks, .sequenced base none obj, w, saved⟩)
    (fresh : (w.view d).row (obj.withDefaults t.now).key = none) :
    Tx.Versioned d ⟨t :: tasks, .written,
      (w.put (obj.withDefaults t.now)).record base (obj.withDefaults t.now), saved⟩ := by
  have hone : obj.version = 1 := by
    have hv := h.task t rfl
    cases t <;> first | exact hv | exact hv.elim
  have hwork := h.work
  rw [Tx.claimed_eq_none rfl] at hwork
  refine h.flushed (hwork.write (Or.inl rfl) ?_)
  rw [← hwork.current _ (by simp), fresh]
  exact hone

/-- The DELETE that selected the row as it still is. -/
theorem removed {m : Removal}
    (h : Tx.Versioned d ⟨[.remove m], .sequenced base (some l) obj, w, none⟩)
    (hs : (w.view d).row l.key = some s) (hkey : (s.writeChanges l obj).key = l.key)
    (hrace : ∀ r, d.row l.key = some r → r.version = l.version) :
    Tx.Versioned d ⟨[.remove m], .written,
      (w.put (s.writeChanges l obj)).record base (s.writeChanges l obj), none⟩ := by
  obtain ⟨hrows, rfl, hobj⟩ := h.task _ rfl
  have hfresh := hrace s ((Work.view_row_of_rows_nil hrows l.key).symm.trans hs)
  refine h.flushed (h.work.write (Or.inl rfl) ?_)
  rw [← h.work.current _ (by simp [Tx.claimed]), hkey, hs]
  have hne : obj.version ≠ l.version := by omega
  exact ⟨(if_neg hne).trans (hobj.trans (by rw [hfresh])), hfresh.symm⟩

/-- The UPDATE of a row that the transaction has claimed. -/
theorem updated (h : Tx.Versioned d ⟨t :: tasks, .sequenced base (some l) obj, w, saved⟩)
    (ht : ∀ m, t ≠ .remove m) (hs : (w.view d).row l.key = some s)
    (hkey : (s.writeChanges l obj).key = l.key) :
    Tx.Versioned d ⟨t :: tasks, .written,
      (w.put (s.writeChanges l obj)).record base (s.writeChanges l obj), saved⟩ := by
  have hclaimed : w.Claimed d l.key base ∧
      (obj.version = l.version ∨ obj.version = base + 1) := by
    have hv := h.task t rfl
    cases t <;> first | exact hv | exact absurd rfl (ht _)
  obtain ⟨⟨q, s', hq, hb, hrow, hversion⟩, hobj⟩ := hclaimed
  obtain rfl : s' = s := by
    rw [Work.view_row, hrow] at hs
    exact Option.some.inj hs
  have hclaims := @Tx.claimed_of_sync ⟨t :: tasks, .sequenced base (some l) obj, w, saved⟩
    fun m he ↦ ht m (Option.some.inj he)
  have hwork := h.work
  rw [hclaims] at hwork
  refine h.flushed (hwork.write (Or.inr (congrArg some hkey.symm)) ?_)
  rw [hkey, hq]
  exact ⟨(Row.writeChanges_version hversion hobj).trans (by rw [hb]), hb.symm⟩

end Tx.Versioned

/-- The committed row is no longer the one that the delete selected, and the delete overwrites
it. -/
def Sys.Raced (s : Sys) (t : ℕ) (s' : Sys) : Prop :=
  ∃ m b l obj w tx' r, s.txs t = some ⟨[.remove m], .sequenced b (some l) obj, w, none⟩ ∧
    s'.txs t = some tx' ∧ tx'.stage = .written ∧ s.data.row l.key = some r ∧
    r.version ≠ l.version

section Steps

variable {conv : Conv} {d : Data} {rowFree : RowKey → Prop} {counterFree : Uuid → Prop}

theorem TxStep.versioned {tx tx' : Tx} (hstep : TxStep conv d rowFree counterFree tx tx')
    (hd : d.WellFormed) (hinv : tx.Inv d) (h : tx.Versioned d)
    (hrace : ∀ m b l obj w r, tx = ⟨[.remove m], .sequenced b (some l) obj, w, none⟩ →
      tx'.stage = .written → d.row l.key = some r → r.version = l.version) :
    tx'.Versioned d := by
  have ⟨hshape, hwork, htask, hsaved⟩ := h
  cases hstep with
  | @lock tasks w p n free found =>
    refine ⟨hshape, ?_, fun t ht ↦ ?_, hsaved⟩
    · rw [Tx.claimed_eq_none rfl] at hwork ⊢
      exact hwork.setCounter p n
    · have hv := htask t ht
      cases t <;> exact hv
  | skip =>
    rw [Tx.claimed_eq_none rfl] at hwork
    exact h.dropped hwork
  | @fetch userId projectId change now tasks w entityId id =>
    have hsync : ∀ t ∈ Task.sync userId projectId change now :: tasks, t.isSync = true :=
      List.forall_mem_cons.mpr ⟨rfl, isSync_of_mem_tail hshape⟩
    refine ⟨Or.inl hsync, hwork, fun t ht ↦ ?_, fun w₀ hw ↦ ?_⟩
    · cases ht
      cases fetchObj (w.view d) change.entity entityId projectId <;> trivial
    · cases hw
      exact hwork
  | @absent userId projectId change now tasks w saved op =>
    exact ⟨hshape, hwork, fun t ht ↦ by cases ht; trivial, hsaved⟩
  | @build userId projectId change now tasks w saved entityId obj op id new =>
    exact ⟨hshape, hwork, fun t ht ↦ by cases ht; exact (createNew_ok new).2, hsaved⟩
  | claim checked found free =>
    obtain ⟨htable, -⟩ := hinv.suits _ rfl
    have hkey := Table.key_of_find Row.key found
    exact h.claimed (hkey ▸ found) (hkey.trans (by rw [Row.key, htable]))
      (claimExisting_version checked found)
  | @update userId projectId change now tasks w saved base r obj op edit =>
    obtain ⟨hc, rfl⟩ := htask _ rfl
    refine ⟨hshape, hwork, fun t ht ↦ ?_, hsaved⟩
    cases ht
    exact ⟨hc, Or.inr (updateExisting_ok edit).2⟩
  | @delete userId projectId change now tasks w saved base r op =>
    obtain ⟨hc, rfl⟩ := htask _ rfl
    refine ⟨hshape, hwork, fun t ht ↦ ?_, hsaved⟩
    cases ht
    exact ⟨hc, Or.inr (r.softDelete_version now)⟩
  | @add new w check =>
    exact ⟨hshape, hwork, fun t ht ↦ by cases ht; exact new.version, hsaved⟩
  | @claimPatch p w s found free =>
    obtain ⟨hmem, -⟩ := mem_rowsWhere.mp (found ▸ List.mem_singleton_self s)
    obtain ⟨hw, hc⟩ := hwork.claim (hinv.sound.row_of_mem hd hmem) p.now
    have hkey := (s.keeps_claim p.now).key
    rw [← hkey] at hw hc
    exact ⟨hshape, hw, fun t ht ↦ by cases ht; exact hc, hsaved⟩
  | @edit p w base r check =>
    have hc := htask _ rfl
    exact ⟨hshape, hwork, fun t ht ↦ by cases ht; exact ⟨hc, Or.inl (p.version r)⟩, hsaved⟩
  | putMissing none' base =>
    exact ⟨Or.inr ⟨rfl, rfl⟩, hwork, fun t ht ↦ by cases ht; trivial, hsaved⟩
  | putFound some' =>
    exact ⟨Or.inr ⟨rfl, rfl⟩, hwork, fun t ht ↦ by cases ht; trivial, hsaved⟩
  | @selectRemoved m w r rest found =>
    have hrows := htask _ rfl
    exact ⟨hshape, hwork, fun t ht ↦ by cases ht; exact hrows, hsaved⟩
  | @markRemoved m w r =>
    have hrows := htask _ rfl
    exact ⟨hshape, hwork, fun t ht ↦ by cases ht; exact ⟨hrows, rfl, r.softDelete_version m.now⟩,
      hsaved⟩
  | sequence stamped project next free =>
    obtain ⟨p', m, -, -, hst, -⟩ := beforeWrite_ok stamped
    exact h.sequenced _ _ hst.version
  | @insert t tasks w saved base obj r row fits admitted fresh free =>
    subst row
    exact h.inserted fresh
  | @write t tasks w saved base l obj s r found row fits admitted free =>
    subst row
    obtain ⟨hl, -⟩ := hinv.stage
    obtain ⟨s', p, hs', hk, -⟩ := hl.stored
    rw [hl.keeps.key, hs'] at found
    cases found
    by_cases hremove : ∃ m, t = .remove m
    · obtain ⟨m, rfl⟩ := hremove
      obtain ⟨htasks, hsave⟩ : tasks = [] ∧ saved = none := by
        rcases hshape with hall | ⟨hlen, hnone⟩
        · cases hall _ List.mem_cons_self
        · exact ⟨List.eq_nil_of_length_eq_zero (Nat.succ.inj hlen), hnone⟩
      subst htasks hsave
      exact h.removed hs' hk.key fun r hr ↦ hrace _ _ _ _ _ r rfl rfl hr
    · exact h.updated (fun m hm ↦ hremove ⟨m, hm⟩) hs' hk.key
  | release =>
    rw [Tx.claimed_eq_none rfl] at hwork
    exact h.dropped hwork
  | fail => exact h.dropped (hsaved _ rfl)

end Steps

/-- The committed writes of every row, from the initial state `d₀` on. -/
structure Sys.Versioned (d₀ : Data) (s : Sys) : Prop where
  inv : s.Inv
  chained : ∀ k, Chained (d₀.row k) (writesOf k s.history)
  current : ∀ k, s.data.row k = latest (d₀.row k) (writesOf k s.history)
  txs : ∀ t tx, s.txs t = some tx → tx.Versioned s.data

theorem Sys.start_versioned {d₀ : Data} (h₀ : d₀.WellFormed) : (start d₀).Versioned d₀ where
  inv := start_inv h₀
  chained _ := trivial
  current _ := rfl
  txs _ _ h := by cases h

theorem Step.versioned {conv : Conv} {d₀ : Data} {s s' : Sys} {t : ℕ} (hstep : Step conv s t s')
    (hrace : ¬ s.Raced t s') (h : s.Versioned d₀) : s'.Versioned d₀ := by
  have hinv' := (hstep.inv h.inv).1
  have hupdate : ∀ {tx'}, (∀ x ∈ tx', x.Versioned s.data) →
      ∀ u x, Function.update s.txs t tx' u = some x → x.Versioned s.data := by
    intro tx' htx u x hx
    by_cases hut : u = t
    · subst hut
      rw [Function.update_self] at hx
      exact htx x hx
    · rw [Function.update_of_ne hut] at hx
      exact h.txs u x hx
  cases hstep with
  | @begin tx fresh new =>
    refine ⟨hinv', h.chained, h.current, hupdate fun x hx ↦ ?_⟩
    cases hx
    exact new.versioned s.data
  | @exec tx tx' running step =>
    refine ⟨hinv', h.chained, h.current, hupdate fun x hx ↦ ?_⟩
    cases hx
    refine step.versioned h.inv.data (h.inv.txs t tx running) (h.txs t tx running) ?_
    intro m b l obj w r htx hstage hrow
    by_contra hne
    refine hrace ⟨m, b, l, obj, w, tx', r, htx ▸ running, ?_, hstage, hrow, hne⟩
    simp
  | @commit tx running done =>
    have hwork := (h.txs t tx running).work
    rw [Tx.claimed_eq_none done.claimedKey] at hwork
    have hsound := (h.inv.txs t tx running).sound
    refine ⟨hinv', fun k ↦ ?_, fun k ↦ ?_, fun u x hx ↦ ?_⟩
    · rw [writesOf_append]
      refine (h.chained k).append ?_
      rw [← h.current k]
      exact hwork.chained k
    · rw [writesOf_append, latest_append, ← h.current k]
      exact hwork.current k (by simp)
    · simp only at hx
      by_cases hut : u = t
      · subst hut
        rw [Function.update_self] at hx
        cases hx
      · rw [Function.update_of_ne hut] at hx
        exact (h.txs u x hx).frame (h.inv.txs u x hx)
          (h.inv.apart running hut hx hsound.extends)
  | @abort tx running =>
    exact ⟨hinv', h.chained, h.current, hupdate (by simp)⟩

/-- Every interleaving in which no delete overwrites a row that changed after it was selected. -/
def UnracedRuns (conv : Conv) : Sys → Sys → Prop :=
  Relation.ReflTransGen fun s s' ↦ ∃ t, Step conv s t s' ∧ ¬ s.Raced t s'

theorem UnracedRuns.versioned {conv : Conv} {d₀ : Data} {s s' : Sys}
    (hrun : UnracedRuns conv s s') (h : s.Versioned d₀) : s'.Versioned d₀ := by
  induction hrun with
  | refl => exact h
  | tail _ hstep ih =>
    obtain ⟨t, hstep, hrace⟩ := hstep
    exact hstep.versioned hrace ih

theorem mem_writesOf {k : RowKey} {ms : List Mutation} {m : Mutation} (hm : m ∈ ms)
    (hk : m.after.key = k) : m ∈ writesOf k ms :=
  List.mem_filter.mpr ⟨hm, by simpa using hk⟩

/-- Every committed write of a row goes one version above the content it replaces, which its
writer had read, and a version of a row names one content. -/
theorem versions_advance_by_one (conv : Conv) {d₀ : Data} (h₀ : d₀.WellFormed) {s : Sys}
    (hs : UnracedRuns conv (.start d₀) s) :
    (∀ k, Chained (d₀.row k) (writesOf k s.history) ∧
      s.data.row k = latest (d₀.row k) (writesOf k s.history)) ∧
    (∀ m ∈ s.history, ∀ r, d₀.row m.after.key = some r → r.version < m.after.version) ∧
    ∀ m ∈ s.history, ∀ m' ∈ s.history, m.after.key = m'.after.key →
      m.after.version = m'.after.version → m.after = m'.after := by
  have h := hs.versioned (Sys.start_versioned h₀)
  refine ⟨fun k ↦ ⟨h.chained k, h.current k⟩, fun m hm r hr ↦ ?_, fun m hm m' hm' hk hv ↦ ?_⟩
  · have hchain := h.chained m.after.key
    rw [hr] at hchain
    exact hchain.above m (mem_writesOf hm rfl)
  · have he := (h.chained m.after.key).unique (mem_writesOf hm rfl) (mem_writesOf hm' hk.symm) hv
    rw [he]

section Sample

theorem versions_advance_by_one_sample : ∃ s, UnracedRuns .strict (.start sampleDb.data) s ∧
    s.history.map (fun m ↦ (m.base, m.after.version)) = [(1, 2)] ∧
    Chained (some sampleRisk) (writesOf (.items, 100) s.history) := by
  have h0 : UnracedRuns .strict (.start sampleDb.data) (.start sampleDb.data) := .refl
  have h1 := h0.tail ⟨0, .begin rfl (Or.inr ⟨.remove sampleDelete, rfl, rfl⟩),
    fun ⟨_, _, _, _, _, _, _, h, _⟩ ↦ nomatch h⟩
  have h2 := h1.tail ⟨0, .exec rfl (.selectRemoved rfl),
    fun ⟨_, _, _, _, _, _, _, h, _⟩ ↦ nomatch h⟩
  have h3 := h2.tail ⟨0, .exec rfl .markRemoved, fun ⟨_, _, _, _, _, _, _, h, _⟩ ↦ nomatch h⟩
  have h4 := h3.tail ⟨0, .exec rfl (.sequence rfl rfl rfl ?_),
    fun ⟨_, _, _, _, _, _, _, h, _⟩ ↦ nomatch h⟩
  have h5 := h4.tail ⟨0, .exec rfl (.write rfl rfl rfl rfl ?_), ?_⟩
  have h6 := h5.tail ⟨0, .commit rfl ⟨rfl, Or.inr rfl⟩,
    fun ⟨_, _, _, _, _, _, _, h, _⟩ ↦ nomatch h⟩
  · have h := versions_advance_by_one .strict sampleDb_wellFormed h6
    exact ⟨_, h6, rfl, (h.1 (.items, 100)).1⟩
  · exact (Sys.free_of_alone _ fun u hu ↦ by simp [Sys.start, Function.update_of_ne hu]).1 _
  · rintro ⟨m, b, l, obj, w, tx', r, htx, -, -, hrow, hne⟩
    cases htx
    cases hrow
    exact hne rfl
  · exact (Sys.free_of_alone _ fun u hu ↦ by simp [Sys.start, Function.update_of_ne hu]).2 _

def samplePatch : Patch where
  table := .items
  selects := itemWhere 1 100 (some .risk)
  base := 1
  now := 8
  check := fun _ ↦ true
  edit := editItem 8 [(.title, .str "New")]
  keeps := keeps_editItem 8 (by decide)
  version := editItem_version 8 _
  parent := fun _ h ↦ by cases h

example : updateItem 1 (Dict.ofList [(.title, .str "New")]) 1 8 100 (some .risk) =
    .ok samplePatch := rfl

/-- A deletion selects the risk at version 1; a PATCH then brings it to version 2 and commits; the
deletion overwrites it with another version 2. -/
theorem stale_delete_repeats_version : ∃ d₀ : Data, d₀.WellFormed ∧
    ∃ s, Runs .strict (.start d₀) s ∧ (∃ k, ¬ Chained (d₀.row k) (writesOf k s.history)) ∧
      ∃ m ∈ s.history, ∃ m' ∈ s.history, m.after.key = m'.after.key ∧
        m.after.version = m'.after.version ∧ m.after ≠ m'.after := by
  have h0 : Runs .strict (.start sampleDb.data) (.start sampleDb.data) := .refl
  have h1 := h0.tail ⟨0, .begin rfl (Or.inr ⟨.remove sampleDelete, rfl, rfl⟩)⟩
  have h2 := h1.tail ⟨0, .exec rfl (.selectRemoved rfl)⟩
  have h3 := h2.tail ⟨0, .exec rfl .markRemoved⟩
  have h4 := h3.tail ⟨1, .begin rfl (Or.inr ⟨.patch samplePatch, rfl, rfl⟩)⟩
  have h5 := h4.tail ⟨1, .exec rfl (.claimPatch rfl (fun u x hu hx ↦ match u with
    | 0 => by cases hx; rfl
    | u + 2 => by cases hx))⟩
  have h6 := h5.tail ⟨1, .exec rfl (.edit rfl)⟩
  have h7 := h6.tail ⟨1, .exec rfl (.sequence rfl rfl rfl (fun u x hu hx ↦ match u with
    | 0 => by cases hx; rfl
    | u + 2 => by cases hx))⟩
  have h8 := h7.tail ⟨1, .exec rfl (.write rfl rfl rfl rfl (fun u x hu hx ↦ match u with
    | 0 => by cases hx; rfl
    | u + 2 => by cases hx))⟩
  have h9 := h8.tail ⟨1, .commit rfl ⟨rfl, Or.inr rfl⟩⟩
  have h10 := h9.tail ⟨0, .exec rfl (.sequence rfl rfl rfl (fun u x hu hx ↦ match u with
    | 1 => by cases hx
    | u + 2 => by cases hx))⟩
  have h11 := h10.tail ⟨0, .exec rfl (.write rfl rfl rfl rfl (fun u x hu hx ↦ match u with
    | 1 => by cases hx
    | u + 2 => by cases hx))⟩
  have h12 := h11.tail ⟨0, .commit rfl ⟨rfl, Or.inr rfl⟩⟩
  refine ⟨_, sampleDb_wellFormed, _, h12, ⟨(.items, 100), ?_⟩, _, List.mem_cons_self, _,
    List.mem_cons_of_mem _ List.mem_cons_self, rfl, rfl, ?_⟩
  · rintro ⟨-, ⟨hversion, -⟩, -⟩
    cases hversion
  · intro he
    have hdeleted := congrArg Row.isDeleted he
    cases hdeleted

end Sample

end RiskApp.Server
