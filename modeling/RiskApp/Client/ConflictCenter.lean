import RiskApp.Lib.Ranking
import RiskApp.Client.Projects

namespace RiskApp.Client

open Lib

/-- What `_blocked_row_to_dict` makes of a blocked row, without the texts for the user. -/
structure BlockedChange where
  changeId : Uuid
  projectId : String
  entity : Entity
  op : ChangeOp
  entityId : Uuid
  baseVersion : Option ℤ
  record : Dict
  serverVersion : Option ℤ
  serverRecord : Option Dict
  failureKind : FailureKind
  createdAt : Time

def blockedRowToDict (r : Owned Entry) : BlockedChange where
  changeId := r.row.changeId
  projectId := r.projectId
  entity := r.row.entity
  op := r.row.op
  entityId := r.row.entityId
  baseVersion := r.row.baseVersion
  record := r.row.record
  serverVersion := r.row.outcome.serverVersion
  serverRecord := r.row.outcome.serverRecord
  failureKind := r.row.failureKind.getD .error
  createdAt := r.row.createdAt

/-- The `WHERE` of the queries on one project; without an id they read every project. -/
def ofProject (projectId : Option String) (r : Owned Entry) : Bool :=
  projectId.all fun p ↦ p = "" || r.projectId = p

def blockedOf (projectId : Option String) (r : Owned Entry) : Bool :=
  ofProject projectId r && r.row.status = .blocked

def conflictOf (projectId : Option String) (r : Owned Entry) : Bool :=
  ofProject projectId r && r.row.inConflict

namespace LocalDb

variable (db : LocalDb) (projectId : Option String)

def getBlockedChanges (limit : ℤ) : List BlockedChange :=
  ((Ranking.ascending (fun r : Owned Entry ↦ r.row.createdAt)
    (db.outbox.filter (blockedOf projectId))).take (max 1 (min limit 1000)).toNat).map
    blockedRowToDict

def blockedLimit : ℤ := 100

def conflictDetails : List BlockedChange :=
  (db.getBlockedChanges projectId blockedLimit).filter (·.failureKind = .conflict)

def conflictCount : ℕ := db.outbox.countP (conflictOf projectId)

def ListsConflicts : Prop :=
  (db.conflictDetails projectId).Perm
      ((db.outbox.filter (conflictOf projectId)).map blockedRowToDict) ∧
    (db.conflictDetails projectId).length = db.conflictCount projectId

/-- How many blocked entries of the project are older than this one, or as old and stored before
it. -/
def blockedBefore (pre : List (Owned Entry)) (r : Owned Entry) (post : List (Owned Entry)) : ℕ :=
  pre.countP (fun s ↦ blockedOf projectId s && s.row.createdAt ≤ r.row.createdAt) +
    post.countP fun s ↦ blockedOf projectId s && s.row.createdAt < r.row.createdAt

end LocalDb

theorem conflictOf_eq (projectId : Option String) (r : Owned Entry) :
    conflictOf projectId r = (blockedOf projectId r && r.row.failureKind = some .conflict) := by
  unfold conflictOf blockedOf Entry.inConflict
  rw [Bool.and_assoc]

theorem blockedRowToDict_conflict (r : Owned Entry) :
    (blockedRowToDict r).failureKind = .conflict ↔ r.row.failureKind = some .conflict := by
  unfold blockedRowToDict
  cases r.row.failureKind with
  | none => simp
  | some kind => simp

namespace LocalDb

variable {db : LocalDb} {projectId : Option String}

theorem conflictDetails_eq : db.conflictDetails projectId =
    (((Ranking.ascending (fun r : Owned Entry ↦ r.row.createdAt)
      (db.outbox.filter (blockedOf projectId))).take 100).filter
        fun r ↦ r.row.failureKind = some .conflict).map blockedRowToDict := by
  unfold conflictDetails getBlockedChanges
  rw [List.filter_map]
  congr 1
  refine List.filter_congr fun r _ ↦ ?_
  exact decide_eq_decide.mpr (blockedRowToDict_conflict r)

theorem filter_conflicts : (db.outbox.filter (blockedOf projectId)).filter
    (fun r ↦ r.row.failureKind = some .conflict) = db.outbox.filter (conflictOf projectId) := by
  rw [List.filter_filter]
  refine List.filter_congr fun r _ ↦ ?_
  rw [conflictOf_eq, Bool.and_comm]

theorem rank_blocked (pre : List (Owned Entry)) (r : Owned Entry) (post : List (Owned Entry)) :
    Ranking.rank (fun r : Owned Entry ↦ r.row.createdAt) (pre.filter (blockedOf projectId)) r
      (post.filter (blockedOf projectId)) = blockedBefore projectId pre r post := by
  unfold Ranking.rank blockedBefore
  rw [List.countP_filter, List.countP_filter]
  simp only [Bool.and_comm]

theorem filter_split {p : Owned Entry → Bool} {l pre post : List (Owned Entry)} {r : Owned Entry}
    (h : l.filter p = pre ++ r :: post) :
    ∃ pre' post', l = pre' ++ r :: post' ∧ pre = pre'.filter p ∧ post = post'.filter p := by
  obtain ⟨front, back, rfl, hfront, hback⟩ := List.filter_eq_append_iff.mp h
  obtain ⟨skip, back', rfl, hskip, hr, hpost⟩ := List.filter_eq_cons_iff.mp hback
  refine ⟨front ++ skip, back', by simp, ?_, hpost.symm⟩
  rw [List.filter_append, hfront, List.filter_eq_nil_iff.mpr hskip, List.append_nil]

/-- The Conflict Center lists every conflict exactly when each of them is among the hundred oldest
blocked entries of the project. -/
theorem conflict_details_complete (hdb : (db.outbox.map fun e ↦ e.row.changeId).Nodup) :
    db.ListsConflicts projectId ↔ ∀ pre r post, db.outbox = pre ++ r :: post →
      conflictOf projectId r = true → blockedBefore projectId pre r post < 100 := by
  have hnodup : (db.outbox.filter (blockedOf projectId)).Nodup := (List.Nodup.of_map _ hdb).filter _
  unfold ListsConflicts
  rw [conflictDetails_eq]
  constructor
  · rintro ⟨hperm, -⟩ pre r post hsplit hconflict
    have hlength := hperm.length_eq
    rw [List.length_map, List.length_map, ← filter_conflicts] at hlength
    rw [conflictOf_eq, Bool.and_eq_true] at hconflict
    rw [← rank_blocked]
    refine Ranking.rank_lt_of_length hlength ?_ hconflict.2
    rw [hsplit, List.filter_append, List.filter_cons_of_pos hconflict.1]
  · intro h
    have hperm := Ranking.take_perm_of_rank (f := fun r : Owned Entry ↦ r.row.createdAt)
      (p := fun r ↦ r.row.failureKind = some .conflict)
      (n := 100) hnodup fun pre r post hsplit hp ↦ by
        obtain ⟨pre', post', hout, rfl, rfl⟩ := filter_split hsplit
        rw [rank_blocked]
        refine h pre' r post' hout ?_
        have hblocked : r ∈ db.outbox.filter (blockedOf projectId) := by
          rw [hsplit]
          exact List.mem_append_right _ List.mem_cons_self
        rw [conflictOf_eq, (List.mem_filter.mp hblocked).2, hp]
        rfl
    rw [filter_conflicts] at hperm
    refine ⟨hperm.map _, ?_⟩
    rw [(hperm.map blockedRowToDict).length_eq, List.length_map, ← List.countP_eq_length_filter]
    rfl

def blockedEntry (changeId : Uuid) (kind : FailureKind) : Owned Entry :=
  ⟨"p1", ⟨changeId, .risk, .upsert, changeId, none, .empty, .blocked, some kind, {}, 0, none, none,
    changeId⟩⟩

theorem conflict_details_complete_sample :
    ({ outbox := [blockedEntry 1 .validation, blockedEntry 2 .conflict] } : LocalDb).ListsConflicts
      (some "p1") := by
  refine (conflict_details_complete (by decide)).mpr fun pre r post hsplit _ ↦ ?_
  have hlength := congrArg List.length hsplit
  simp only [List.length_append, List.length_cons, List.length_nil] at hlength
  have hpre := List.countP_le_length (p := fun s ↦ blockedOf (some "p1") s &&
    decide (s.row.createdAt ≤ r.row.createdAt)) (l := pre)
  have hpost := List.countP_le_length (p := fun s ↦ blockedOf (some "p1") s &&
    decide (s.row.createdAt < r.row.createdAt)) (l := post)
  unfold blockedBefore
  omega

/-- Behind a hundred rejected changes a conflict is counted and not listed. -/
theorem conflict_behind_errors : ∃ db : LocalDb, (db.outbox.map fun e ↦ e.row.changeId).Nodup ∧
    ¬ db.ListsConflicts (some "p1") := by
  refine ⟨{ outbox := (List.range 100).map (blockedEntry · .validation) ++
    [blockedEntry 100 .conflict] }, by decide, fun h ↦ ?_⟩
  have hlength := h.2
  revert hlength
  decide

end LocalDb

end RiskApp.Client
