import Mathlib.Logic.Relation
import RiskApp.Server.Models

namespace RiskApp.Server.Members

open Lib

structure ProjectMember where
  id : Uuid
  projectId : Uuid
  userId : Uuid
  role : Role
  deriving DecidableEq

structure User where
  id : Uuid
  email : List Char
  isSuperuser : Bool

abbrev Memberships := List ProjectMember

def ProjectMember.pair (m : ProjectMember) : Uuid × Uuid := (m.projectId, m.userId)

def ProjectMember.isAdmin (projectId : Uuid) (m : ProjectMember) : Bool :=
  m.projectId = projectId && m.role = .admin

def membership (ms : Memberships) (projectId userId : Uuid) : Option ProjectMember :=
  Table.find ProjectMember.pair (projectId, userId) ms

def admins (ms : Memberships) (projectId : Uuid) : Memberships :=
  ms.filter (·.isAdmin projectId)

abbrev Users := List User

def Users.superuser (users : Users) (userId : Uuid) : Bool :=
  users.any fun u ↦ u.id = userId && u.isSuperuser

def getMemberRole (users : Users) (ms : Memberships) (projectId userId : Uuid) : Option Role :=
  match membership ms projectId userId with
  | some m => some m.role
  | none => if users.superuser userId then some .admin else none

/-- `_ensure_not_last_admin`: whether it returns. -/
def ensureNotLastAdmin (users : Users) (ms : Memberships) (projectId actor : Uuid) : Bool :=
  users.superuser actor || 1 < (admins ms projectId).length

inductive Request
  | addMember (userEmail : List Char) (role : Role)
  | removeMember (memberUserId : Uuid)

/-- How far a call is: what its last statement returned, and what it keeps for the next. -/
inductive Phase
  | begun
  | admitted
  | targeted (target : Uuid)
  | loaded (target : Uuid) (existing : Option ProjectMember)
  | cleared (existing : ProjectMember)
  | counted (existing : ProjectMember) (count : ℕ)
  | finished

structure Call where
  userId : Uuid
  projectId : Uuid
  request : Request
  phase : Phase := .begun

def setRole (existing : ProjectMember) (role : Role) (ms : Memberships) : Memberships :=
  if existing.role = role then ms
  else ms.map fun m ↦ if m.id = existing.id then { m with role := role } else m

def delete (existing : ProjectMember) (ms : Memberships) : Memberships :=
  ms.filter (·.id ≠ existing.id)

/-- A second membership of the user violates `uq_project_user`. -/
def insert (m : ProjectMember) (ms : Memberships) : Memberships :=
  if (membership ms m.projectId m.userId).isSome then ms else ms ++ [m]

namespace Call

variable (users : Users) (c : Call)

def countAdmins (existing : ProjectMember) (ms : Memberships) : Phase :=
  if ensureNotLastAdmin users ms c.projectId c.userId then
    .counted existing (admins ms c.projectId).length
  else .finished

def write (existing : ProjectMember) (ms : Memberships) : Memberships :=
  match c.request with
  | .addMember _ role => setRole existing role ms
  | .removeMember _ => delete existing ms

def refuses (target : Uuid) : Bool := users.superuser target && !users.superuser c.userId

/-- The next statement of a call, on the committed rows: `add_member` and `remove_member`. A
write and the commit after it are one statement, because the lock on the written row lasts from
the one to the other. `newId` is the id of a row to be inserted. -/
def next (newId : Uuid) (ms : Memberships) : Memberships × Phase :=
  match c.phase, c.request with
  | .begun, _ =>
    (ms, if getMemberRole users ms c.projectId c.userId = some .admin then .admitted else .finished)
  | .admitted, .addMember userEmail _ =>
    match users.find? (·.email = Text.lower userEmail) with
    | none => (ms, .finished)
    | some u => (ms, if c.refuses users u.id then .finished else .targeted u.id)
  | .admitted, .removeMember target =>
    match membership ms c.projectId target with
    | none => (ms, .finished)
    | some m => (ms, .loaded target (some m))
  | .targeted target, _ => (ms, .loaded target (membership ms c.projectId target))
  | .loaded target none, .addMember _ role =>
    (insert ⟨newId, c.projectId, target, role⟩ ms, .finished)
  | .loaded _ (some m), .addMember _ role =>
    if m.role = .admin ∧ role ≠ .admin then (ms, c.countAdmins users m ms)
    else (c.write m ms, .finished)
  | .loaded _ none, .removeMember _ => (ms, .finished)
  | .loaded target (some m), .removeMember _ =>
    (ms, if c.refuses users target then .finished else .cleared m)
  | .cleared m, _ =>
    if m.role = .admin then (ms, c.countAdmins users m ms) else (c.write m ms, .finished)
  | .counted m _, _ => (c.write m ms, .finished)
  | .finished, _ => (ms, .finished)

end Call

/-- The committed memberships, the running calls and the row ids drawn so far. -/
structure State where
  members : Memberships
  calls : ℕ → Call
  drawn : List Uuid

def State.afterNext (users : Users) (s : State) (i : ℕ) (newId : Uuid) : State where
  members := ((s.calls i).next users newId s.members).1
  calls := Function.update s.calls i
    { s.calls i with phase := ((s.calls i).next users newId s.members).2 }
  drawn := newId :: s.drawn

inductive Step (users : Users) (s : State) : Option ℕ → State → Prop
  | begin (i : ℕ) (c : Call) (free : (s.calls i).phase = .finished) (begun : c.phase = .begun)
      (plain : users.superuser c.userId = false) :
      Step users s none { s with calls := Function.update s.calls i c }
  | statement (i : ℕ) (newId : Uuid) (new : newId ∉ s.drawn) :
      Step users s (some i) (s.afterNext users i newId)

def Runs (users : Users) (allowed : Memberships → Call → Prop) : State → State → Prop :=
  Relation.ReflTransGen fun s s' ↦
    ∃ i, Step users s i s' ∧ ∀ j, i = some j → allowed s.members (s.calls j)

/-- What a call read about the row it is about to demote or remove is not outdated: a row read
as no admin is none yet, and if an admin's row is still one, no admin was lost since the count. -/
def UpToDate (ms : Memberships) (c : Call) : Prop :=
  match c.phase, c.request with
  | .loaded _ (some m), .addMember _ role =>
    m.role ≠ .admin → role ≠ .admin → ∀ m' ∈ ms, m'.id = m.id → m'.role ≠ .admin
  | .cleared m, _ => m.role ≠ .admin → ∀ m' ∈ ms, m'.id = m.id → m'.role ≠ .admin
  | .counted m count, _ =>
    (∃ m' ∈ ms, m'.id = m.id ∧ m'.role = .admin) → count ≤ (admins ms c.projectId).length
  | _, _ => True

def Phase.existing : Phase → Option ProjectMember
  | .loaded _ existing => existing
  | .cleared m | .counted m _ => some m
  | _ => none

def Phase.Counted (ph : Phase) : Prop := ∀ m count, ph = .counted m count → 1 < count

/-- Writing the row leaves an admin if there was one. -/
def Spares (ms : Memberships) (c : Call) (m : ProjectMember) : Prop :=
  (∃ userEmail, c.request = .addMember userEmail .admin) ∨
    (∀ m' ∈ ms, m'.id = m.id → m'.role ≠ .admin) ∨ 1 < (admins ms c.projectId).length

inductive Next (newId : Uuid) (ms : Memberships) (c : Call) : Memberships × Phase → Prop
  | read {ph : Phase} (existing : ∀ m, ph.existing = some m →
      c.phase.existing = some m ∨ m ∈ ms ∧ m.projectId = c.projectId) (counted : ph.Counted) :
      Next newId ms c (ms, ph)
  | insert {m : ProjectMember} (id : m.id = newId) : Next newId ms c (ms ++ [m], .finished)
  | write {m : ProjectMember} (existing : c.phase.existing = some m)
      (spares : UpToDate ms c → Spares ms c m) : Next newId ms c (c.write m ms, .finished)

section Statement

variable {users : Users} {newId : Uuid} {ms : Memberships} {c : Call}

theorem Next.finished : Next newId ms c (ms, .finished) :=
  .read (fun _ h ↦ nomatch h) fun _ _ h ↦ nomatch h

theorem membership_some {projectId userId : Uuid} {m : ProjectMember}
    (h : membership ms projectId userId = some m) : m ∈ ms ∧ m.projectId = projectId :=
  ⟨Table.mem_of_find _ h, congrArg Prod.fst (Table.key_of_find ProjectMember.pair h)⟩

theorem countAdmins_next (hplain : users.superuser c.userId = false) {m : ProjectMember}
    (hm : c.phase.existing = some m) : Next newId ms c (ms, c.countAdmins users m ms) := by
  unfold Call.countAdmins
  split
  · rename_i hcheck
    refine .read (fun m' h ↦ Or.inl (hm.trans h)) fun m' count h ↦ ?_
    cases h
    simpa [ensureNotLastAdmin, hplain] using hcheck
  · exact .finished

theorem insert_next (m : ProjectMember) (hm : m.id = newId) :
    Next newId ms c (insert m ms, .finished) := by
  unfold insert
  split
  · exact .finished
  · exact .insert hm

theorem next_next (hplain : users.superuser c.userId = false) (hcount : c.phase.Counted) :
    Next newId ms c (c.next users newId ms) := by
  unfold Call.next
  split
  · split
    · exact .read (fun _ h ↦ nomatch h) fun _ _ h ↦ nomatch h
    · exact .finished
  · split
    · exact .finished
    · split
      · exact .finished
      · exact .read (fun _ h ↦ nomatch h) fun _ _ h ↦ nomatch h
  · split
    · exact .finished
    · rename_i m hm
      refine .read (fun m' h ↦ ?_) fun _ _ h ↦ nomatch h
      cases h
      exact Or.inr (membership_some hm)
  · exact .read (fun m h ↦ Or.inr (membership_some h)) fun _ _ h ↦ nomatch h
  · exact insert_next _ rfl
  · rename_i hphase hreq
    split
    · exact countAdmins_next hplain (by rw [hphase]; rfl)
    · rename_i m _ role hcond
      refine .write (by rw [hphase]; rfl) fun h ↦ ?_
      by_cases hrole : role = .admin
      · exact Or.inl ⟨_, hrole ▸ hreq⟩
      · simp only [UpToDate, hphase, hreq] at h
        exact Or.inr (Or.inl (h (fun hadmin ↦ hcond ⟨hadmin, hrole⟩) hrole))
  · exact .finished
  · rename_i hphase _
    split
    · exact .finished
    · exact .read (fun m' h ↦ Or.inl (by rw [hphase]; exact h)) fun _ _ h ↦ nomatch h
  · rename_i hphase
    split
    · exact countAdmins_next hplain (by rw [hphase]; rfl)
    · rename_i hrole
      refine .write (by rw [hphase]; rfl) fun h ↦ ?_
      simp only [UpToDate, hphase] at h
      exact Or.inr (Or.inl (h hrole))
  · rename_i m count hphase
    refine .write (by rw [hphase]; rfl) fun h ↦ ?_
    simp only [UpToDate, hphase] at h
    by_cases hadmin : ∃ m' ∈ ms, m'.id = m.id ∧ m'.role = .admin
    · exact Or.inr (Or.inr (Nat.lt_of_lt_of_le (hcount m count hphase) (h hadmin)))
    · exact Or.inr (Or.inl fun m' hm' hid hrole ↦ hadmin ⟨m', hm', hid, hrole⟩)
  · exact .finished

end Statement

theorem mem_setRole {m m' : ProjectMember} {role : Role} {ms : Memberships}
    (h : m' ∈ setRole m role ms) :
    ∃ m₀ ∈ ms, m₀.id = m'.id ∧ m₀.projectId = m'.projectId := by
  unfold setRole at h
  split at h
  · exact ⟨m', h, rfl, rfl⟩
  · obtain ⟨m₀, hm₀, rfl⟩ := List.mem_map.mp h
    refine ⟨m₀, hm₀, ?_, ?_⟩ <;> split <;> rfl

theorem mem_write {c : Call} {m m' : ProjectMember} {ms : Memberships} (h : m' ∈ c.write m ms) :
    ∃ m₀ ∈ ms, m₀.id = m'.id ∧ m₀.projectId = m'.projectId := by
  unfold Call.write at h
  split at h
  · exact mem_setRole h
  · exact ⟨m', (List.mem_filter.mp h).1, rfl, rfl⟩

theorem write_ids {c : Call} {m : ProjectMember} {ms : Memberships}
    (h : (ms.map ProjectMember.id).Nodup) : ((c.write m ms).map ProjectMember.id).Nodup := by
  unfold Call.write
  split
  · unfold setRole
    split
    · exact h
    · rw [List.map_map]
      refine (congrArg List.Nodup (List.map_congr_left fun m' _ ↦ ?_)).mpr h
      dsimp only [Function.comp]
      split <;> rfl
  · exact h.sublist ((List.filter_sublist).map _)

theorem write_other {c : Call} {m m' : ProjectMember} {ms : Memberships} (h : m' ∈ ms)
    (hid : m'.id ≠ m.id) : m' ∈ c.write m ms := by
  unfold Call.write
  split
  · unfold setRole
    split
    · exact h
    · exact List.mem_map.mpr ⟨m', h, if_neg hid⟩
  · exact List.mem_filter.mpr ⟨h, decide_eq_true hid⟩

theorem write_promotes {c : Call} {m m' : ProjectMember} {ms : Memberships} {userEmail : List Char}
    (hreq : c.request = .addMember userEmail .admin) (h : m' ∈ ms) (hrole : m'.role = .admin) :
    m' ∈ c.write m ms := by
  unfold Call.write
  rw [hreq]
  dsimp only
  unfold setRole
  split
  · exact h
  · refine List.mem_map.mpr ⟨m', h, ?_⟩
    split
    · obtain ⟨id, projectId, userId, role⟩ := m'
      cases hrole
      rfl
    · rfl

theorem other_admin {ms : Memberships} {projectId id : Uuid}
    (hids : (ms.map ProjectMember.id).Nodup) (h : 1 < (admins ms projectId).length) :
    ∃ m ∈ ms, m.isAdmin projectId = true ∧ m.id ≠ id := by
  have hin : ∀ m ∈ admins ms projectId, m ∈ ms ∧ m.isAdmin projectId = true := fun m hm ↦
    List.mem_filter.mp hm
  have hnodup : ((admins ms projectId).map ProjectMember.id).Nodup :=
    hids.sublist ((List.filter_sublist).map _)
  match hl : admins ms projectId with
  | [] => simp [hl] at h
  | [m] => simp [hl] at h
  | m :: m' :: rest =>
    rw [hl] at hin hnodup
    have hne : m.id ≠ m'.id := fun he ↦ by simp [he] at hnodup
    by_cases hm : m.id = id
    · obtain ⟨hmem, hadmin⟩ := hin m' (by simp)
      exact ⟨m', hmem, hadmin, fun he ↦ hne (hm.trans he.symm)⟩
    · obtain ⟨hmem, hadmin⟩ := hin m (by simp)
      exact ⟨m, hmem, hadmin, hm⟩

structure Sound (users : Users) (s : State) : Prop where
  ids : (s.members.map ProjectMember.id).Nodup
  drawn : ∀ m ∈ s.members, m.id ∈ s.drawn
  plain : ∀ i, (s.calls i).phase ≠ .finished → users.superuser (s.calls i).userId = false
  counted : ∀ i, (s.calls i).phase.Counted
  existing : ∀ i m, (s.calls i).phase.existing = some m → m.id ∈ s.drawn ∧
    ∀ m' ∈ s.members, m'.id = m.id → m'.projectId = (s.calls i).projectId

def HasAdmin (ms : Memberships) (projectId : Uuid) : Prop :=
  ∃ m ∈ ms, m.projectId = projectId ∧ m.role = .admin

theorem isAdmin_iff {m : ProjectMember} {projectId : Uuid} :
    m.isAdmin projectId = true ↔ m.projectId = projectId ∧ m.role = .admin := by
  simp [ProjectMember.isAdmin]

/-- A write that spares the project leaves it an admin. -/
theorem Spares.hasAdmin {ms : Memberships} {c : Call} {m : ProjectMember} {projectId : Uuid}
    (h : Spares ms c m) (hids : (ms.map ProjectMember.id).Nodup)
    (hproject : ∀ m' ∈ ms, m'.id = m.id → m'.projectId = c.projectId)
    (hadmin : HasAdmin ms projectId) : HasAdmin (c.write m ms) projectId := by
  obtain ⟨a, hmem, hp, hrole⟩ := hadmin
  rcases h with ⟨userEmail, hreq⟩ | hnone | hcount
  · exact ⟨a, write_promotes hreq hmem hrole, hp, hrole⟩
  · exact ⟨a, write_other hmem fun hid ↦ hnone a hmem hid hrole, hp, hrole⟩
  · by_cases hid : a.id = m.id
    · obtain rfl : projectId = c.projectId := hp.symm.trans (hproject a hmem hid)
      obtain ⟨b, hb, hadmin, hne⟩ := @other_admin _ _ m.id hids hcount
      exact ⟨b, write_other hb hne, isAdmin_iff.mp hadmin⟩
    · exact ⟨a, write_other hmem hid, hp, hrole⟩

section Run

variable {users : Users} {s s' : State} {projectId : Uuid}

theorem Sound.next (h : Sound users s) (i newId : Uuid) :
    Next newId s.members (s.calls i) ((s.calls i).next users newId s.members) := by
  by_cases hdone : (s.calls i).phase = .finished
  · have hnext : (s.calls i).next users newId s.members = (s.members, .finished) := by
      simp [Call.next, hdone]
    rw [hnext]
    exact .finished
  · exact next_next (h.plain i hdone) (h.counted i)

theorem Next.row {newId : Uuid} {ms : Memberships} {c : Call} {o : Memberships × Phase}
    (h : Next newId ms c o) {m' : ProjectMember} (hm' : m' ∈ o.1) :
    m'.id = newId ∨ ∃ m ∈ ms, m.id = m'.id ∧ m.projectId = m'.projectId := by
  cases h with
  | read => exact Or.inr ⟨m', hm', rfl, rfl⟩
  | insert hid =>
    rcases List.mem_append.mp hm' with hm' | hm'
    · exact Or.inr ⟨m', hm', rfl, rfl⟩
    · exact Or.inl (List.mem_singleton.mp hm' ▸ hid)
  | write => exact Or.inr (mem_write hm')

theorem Next.ids {newId : Uuid} {ms : Memberships} {c : Call} {o : Memberships × Phase}
    (h : Next newId ms c o) (hids : (ms.map ProjectMember.id).Nodup)
    (hnew : ∀ m ∈ ms, m.id ≠ newId) : (o.1.map ProjectMember.id).Nodup := by
  cases h with
  | read => exact hids
  | insert hid =>
    rw [List.map_append, List.nodup_append]
    refine ⟨hids, List.nodup_singleton _, fun a ha b hb ↦ ?_⟩
    obtain ⟨m, hm, rfl⟩ := List.mem_map.mp ha
    obtain rfl := List.mem_singleton.mp hb
    exact fun he ↦ hnew m hm (he.trans hid)
  | write => exact write_ids hids

theorem Next.counted {newId : Uuid} {ms : Memberships} {c : Call} {o : Memberships × Phase}
    (h : Next newId ms c o) : o.2.Counted := by
  cases h with
  | read _ counted => exact counted
  | insert => exact fun _ _ h ↦ nomatch h
  | write => exact fun _ _ h ↦ nomatch h

theorem Next.existing {newId : Uuid} {ms : Memberships} {c : Call} {o : Memberships × Phase}
    (h : Next newId ms c o) {m : ProjectMember} (hm : o.2.existing = some m) :
    c.phase.existing = some m ∨ m ∈ ms ∧ m.projectId = c.projectId := by
  cases h with
  | read existing _ => exact existing m hm
  | insert => cases hm
  | write => cases hm

theorem Sound.statement (h : Sound users s) {i newId : Uuid} (hnew : newId ∉ s.drawn) :
    Sound users (s.afterNext users i newId) := by
  have hnext := h.next i newId
  have hrow : ∀ {m : ProjectMember}, m ∈ (s.afterNext users i newId).members →
      m.id = newId ∨ ∃ m₀ ∈ s.members, m₀.id = m.id ∧ m₀.projectId = m.projectId := hnext.row
  have hkept : ∀ {m : ProjectMember} {p : Uuid}, m.id ∈ s.drawn →
      (∀ m' ∈ s.members, m'.id = m.id → m'.projectId = p) →
      ∀ m' ∈ (s.afterNext users i newId).members, m'.id = m.id → m'.projectId = p := by
    intro m p hdrawn hp m' hm' hid
    rcases hrow hm' with hfresh | ⟨m₀, hm₀, hid₀, hp₀⟩
    · exact absurd (hfresh.symm.trans hid ▸ hdrawn) hnew
    · exact hp₀.symm.trans (hp m₀ hm₀ (hid₀.trans hid))
  have hcall : ∀ j, j ≠ i → (s.afterNext users i newId).calls j = s.calls j := fun j hj ↦
    Function.update_of_ne hj _ _
  have hmoved : (s.afterNext users i newId).calls i =
      { s.calls i with phase := ((s.calls i).next users newId s.members).2 } :=
    Function.update_self _ _ _
  refine ⟨hnext.ids h.ids fun m hm ↦ ?_, fun m hm ↦ ?_, fun j hj ↦ ?_, fun j ↦ ?_, fun j m hm ↦ ?_⟩
  · exact fun hid ↦ hnew (hid ▸ h.drawn m hm)
  · rcases hrow hm with hid | ⟨m₀, hm₀, hid, -⟩
    · exact List.mem_cons.mpr (Or.inl hid)
    · exact List.mem_cons_of_mem _ (hid ▸ h.drawn m₀ hm₀)
  · by_cases hji : j = i
    · subst hji
      rw [hmoved] at hj ⊢
      exact h.plain j fun hdone ↦ hj (by simp [Call.next, hdone])
    · rw [hcall j hji] at hj ⊢
      exact h.plain j hj
  · by_cases hji : j = i
    · subst hji
      rw [hmoved]
      exact hnext.counted
    · rw [hcall j hji]
      exact h.counted j
  · by_cases hji : j = i
    · subst hji
      rw [hmoved] at hm ⊢
      rcases hnext.existing hm with hold | ⟨hmem, hp⟩
      · obtain ⟨hdrawn, hproject⟩ := h.existing j m hold
        exact ⟨List.mem_cons_of_mem _ hdrawn, hkept hdrawn hproject⟩
      · have hdrawn := h.drawn m hmem
        refine ⟨List.mem_cons_of_mem _ hdrawn, hkept hdrawn fun m' hm' hid ↦ ?_⟩
        rw [List.inj_on_of_nodup_map h.ids hm' hmem hid]
        exact hp
    · rw [hcall j hji] at hm ⊢
      obtain ⟨hdrawn, hproject⟩ := h.existing j m hm
      exact ⟨List.mem_cons_of_mem _ hdrawn, hkept hdrawn hproject⟩

theorem Sound.step (h : Sound users s) {i : Option ℕ} (hs : Step users s i s') :
    Sound users s' := by
  cases hs with
  | «begin» i c free begun plain =>
    have hupdate : ∀ (P : Call → Prop), P c → (∀ j, P (s.calls j)) →
        ∀ j, P (Function.update s.calls i c j) := fun P hc hall j ↦ by
      by_cases hj : j = i
      · rw [hj, Function.update_self]
        exact hc
      · rw [Function.update_of_ne hj]
        exact hall j
    refine ⟨h.ids, h.drawn, hupdate (fun d ↦ d.phase ≠ .finished → users.superuser d.userId = false)
      (fun _ ↦ plain) h.plain, hupdate (·.phase.Counted) (fun m count hm ↦ ?_) h.counted,
      hupdate (fun d ↦ ∀ m, d.phase.existing = some m → m.id ∈ s.drawn ∧
        ∀ m' ∈ s.members, m'.id = m.id → m'.projectId = d.projectId) (fun m hm ↦ ?_) h.existing⟩
    · rw [begun] at hm
      cases hm
    · rw [begun] at hm
      cases hm
  | statement i newId new => exact h.statement new

/-- The step lemma: a statement on rows that the call still knows leaves the project its admin. -/
theorem Sound.hasAdmin (h : Sound users s) {i : Option ℕ} (hs : Step users s i s')
    (hup : ∀ j, i = some j → UpToDate s.members (s.calls j))
    (hadmin : HasAdmin s.members projectId) :
    HasAdmin s'.members projectId := by
  cases hs with
  | «begin» => exact hadmin
  | statement i newId new =>
    have hnext := h.next i newId
    change HasAdmin ((s.calls i).next users newId s.members).1 projectId
    generalize (s.calls i).next users newId s.members = o at hnext
    cases hnext with
    | read => exact hadmin
    | insert =>
      obtain ⟨m, hm, hp, hrole⟩ := hadmin
      exact ⟨m, List.mem_append_left _ hm, hp, hrole⟩
    | write existing spares =>
      exact (spares (hup i rfl)).hasAdmin h.ids (h.existing i _ existing).2 hadmin

end Run

structure State.Quiet (s : State) : Prop where
  calls : ∀ i, (s.calls i).phase = .finished
  ids : (s.members.map ProjectMember.id).Nodup
  drawn : ∀ m ∈ s.members, m.id ∈ s.drawn

theorem State.Quiet.sound {s : State} (h : s.Quiet) (users : Users) : Sound users s := by
  refine ⟨h.ids, h.drawn, fun i hi ↦ absurd (h.calls i) hi, fun i m count hm ↦ ?_, fun i m hm ↦ ?_⟩
  · rw [h.calls i] at hm
    cases hm
  · rw [h.calls i] at hm
    cases hm

/-- As long as no call writes on what it read too long ago, a project keeps an admin. -/
theorem admin_remains (users : Users) {s s' : State} {projectId : Uuid} (hquiet : s.Quiet)
    (hadmin : HasAdmin s.members projectId) (hrun : Runs users UpToDate s s') :
    HasAdmin s'.members projectId := by
  have hboth : Sound users s' ∧ HasAdmin s'.members projectId := by
    induction hrun with
    | refl => exact ⟨hquiet.sound users, hadmin⟩
    | tail _ hlast ih =>
      obtain ⟨i, hs, hup⟩ := hlast
      exact ⟨ih.1.step hs, ih.1.hasAdmin hs hup ih.2⟩
  exact hboth.2

section Samples

def plainUsers : Users := [⟨10, "ann".toList, false⟩, ⟨11, "bob".toList, false⟩]

def twoAdmins : State where
  members := [⟨1, 1, 10, .admin⟩, ⟨2, 1, 11, .admin⟩]
  calls := fun _ ↦ ⟨0, 0, .removeMember 0, .finished⟩
  drawn := [1, 2]

theorem twoAdmins_quiet : twoAdmins.Quiet where
  calls _ := rfl
  ids := by decide
  drawn := by decide

variable {allowed : Memberships → Call → Prop} {s s' : State}

theorem Runs.begin (h : Runs plainUsers allowed s s') (i : ℕ) (c : Call)
    (free : (s'.calls i).phase = .finished) (begun : c.phase = .begun)
    (plain : plainUsers.superuser c.userId = false) :
    Runs plainUsers allowed s { s' with calls := Function.update s'.calls i c } :=
  h.tail ⟨none, .begin i c free begun plain, fun _ h ↦ nomatch h⟩

theorem Runs.statement (h : Runs plainUsers allowed s s') (i newId : Uuid)
    (new : newId ∉ s'.drawn) (ok : allowed s'.members (s'.calls i)) :
    Runs plainUsers allowed s (s'.afterNext plainUsers i newId) := by
  refine h.tail ⟨some i, .statement i newId new, fun j hj ↦ ?_⟩
  cases hj
  exact ok

/-- Bob's call to remove Ann is admitted before Ann makes him a viewer, and counts after it. -/
theorem admin_remains_sample : ∃ s, Runs plainUsers UpToDate twoAdmins s ∧
    (s.calls 0).phase = .finished ∧ (s.calls 1).phase = .finished ∧
    s.members = [⟨1, 1, 10, .admin⟩, ⟨2, 1, 11, .viewer⟩] ∧ HasAdmin s.members 1 := by
  have h₀ : Runs plainUsers UpToDate twoAdmins twoAdmins := .refl
  have a := h₀.begin 0 ⟨10, 1, .addMember "Bob".toList .viewer, .begun⟩ rfl rfl rfl
  have b := a.begin 1 ⟨11, 1, .removeMember 10, .begun⟩ rfl rfl rfl
  have a₁ := b.statement 0 3 (by decide) trivial
  have b₁ := a₁.statement 1 4 (by decide) trivial
  have a₂ := b₁.statement 0 5 (by decide) trivial
  have b₂ := a₂.statement 1 6 (by decide) trivial
  have a₃ := b₂.statement 0 7 (by decide) trivial
  have b₃ := a₃.statement 1 8 (by decide) trivial
  have a₄ := b₃.statement 0 9 (by decide) fun h ↦ absurd rfl h
  have a₅ := a₄.statement 0 10 (by decide) fun _ ↦ by decide
  have b₄ := a₅.statement 1 11 (by decide) fun h ↦ absurd rfl h
  exact ⟨_, b₄, rfl, rfl, rfl, admin_remains plainUsers twoAdmins_quiet
    ⟨_, List.mem_cons_self, rfl, rfl⟩ b₄⟩

/-- Both admins leave at the same time. -/
theorem last_admins_leave : HasAdmin twoAdmins.members 1 ∧
    ∃ s, Runs plainUsers (fun _ _ ↦ True) twoAdmins s ∧ ¬HasAdmin s.members 1 := by
  refine ⟨⟨_, List.mem_cons_self, rfl, rfl⟩, ?_⟩
  have h₀ : Runs plainUsers (fun _ _ ↦ True) twoAdmins twoAdmins := .refl
  have a := h₀.begin 0 ⟨10, 1, .removeMember 10, .begun⟩ rfl rfl rfl
  have b := a.begin 1 ⟨11, 1, .removeMember 11, .begun⟩ rfl rfl rfl
  have a₁ := b.statement 0 3 (by decide) trivial
  have b₁ := a₁.statement 1 4 (by decide) trivial
  have a₂ := b₁.statement 0 5 (by decide) trivial
  have b₂ := a₂.statement 1 6 (by decide) trivial
  have a₃ := b₂.statement 0 7 (by decide) trivial
  have b₃ := a₃.statement 1 8 (by decide) trivial
  have a₄ := b₃.statement 0 9 (by decide) trivial
  have b₄ := a₄.statement 1 10 (by decide) trivial
  have a₅ := b₄.statement 0 11 (by decide) trivial
  have b₅ := a₅.statement 1 12 (by decide) trivial
  refine ⟨_, b₅, fun h ↦ ?_⟩
  obtain ⟨m, hm, -⟩ := h
  exact nomatch hm

end Samples

end RiskApp.Server.Members
