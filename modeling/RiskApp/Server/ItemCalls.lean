import RiskApp.Server.Transactions

namespace RiskApp.Server

open Lib Lib.Result

def requireMinRole (db : Data) (projectId userId : Uuid) (minRole : Role) :
    Except PushError Unit :=
  require ((db.getMemberRole projectId userId).any fun role ↦ minRole.rank ≤ role.rank)
    (.http 403 "Insufficient permissions")

def requireItem (db : Data) (projectId itemId : Uuid) (itemType : Entity) :
    Except PushError Unit :=
  require (!(rowsWhere db .items fun r ↦ liveWhere projectId itemId r &&
    r.attrs .type = .str itemType.name).isEmpty) (.http 404 "Item not found")

/-- `claim_base_version`: the data after the UPDATE, and the row it is selected back as. -/
def Patch.claim (p : Patch) (db : Data) (notFoundDetail : Option String) :
    Except PushError (Data × Row) :=
  match rowsWhere db p.table (fun r ↦ p.selects r && (r.version : ℤ) = p.base) with
  | [r] => .ok ({ db with rows := Table.replace Row.key (r.claim p.now) db.rows }, r.claim p.now)
  | _ => match rowsWhere db p.table p.selects, notFoundDetail with
    | [], some detail => .error (.http 404 detail)
    | found, _ => .error (.conflict "version_mismatch" none (found.head?.map Row.version) none)

def Patch.run (p : Patch) (db : Data) (notFoundDetail : Option String)
    (check : Data → Except PushError Unit) : Except PushError Data := do
  let (claimed, r) ← p.claim db notFoundDetail
  check claimed
  flushUpdate claimed (p.edit r)

def Removal.run (m : Removal) (db : Data) : Except PushError Data :=
  match rowsWhere db m.table m.selects with
  | [] => .error (.http 404 "Item not found")
  | r :: _ => flushUpdate db (r.softDelete m.now)

theorem Patch.claim_ok {p : Patch} {db claimed : Data} {notFoundDetail : Option String} {s : Row}
    (h : p.claim db notFoundDetail = .ok (claimed, s)) :
    ∃ r ∈ db.rows, r.table = p.table ∧ p.selects r = true ∧ (r.version : ℤ) = p.base ∧
      claimed = { db with rows := Table.replace Row.key (r.claim p.now) db.rows } ∧
        s = r.claim p.now := by
  unfold claim at h
  split at h
  · rename_i r hfound
    cases h
    have hmem : r ∈ rowsWhere db p.table fun r ↦ p.selects r && (r.version : ℤ) = p.base :=
      hfound ▸ List.mem_singleton_self r
    obtain ⟨hr, htable, hsel⟩ := mem_rowsWhere.mp hmem
    simp only [Bool.and_eq_true, decide_eq_true_eq] at hsel
    exact ⟨r, hr, htable, hsel.1, hsel.2, rfl, rfl⟩
  · split at h <;> cases h

theorem Patch.run_ok {p : Patch} {db db' : Data} {notFoundDetail : Option String}
    {check : Data → Except PushError Unit} (h : p.run db notFoundDetail check = .ok db') :
    ∃ r ∈ db.rows, r.table = p.table ∧ p.selects r = true ∧ (r.version : ℤ) = p.base ∧
      check { db with rows := Table.replace Row.key (r.claim p.now) db.rows } = .ok () ∧
      flushUpdate { db with rows := Table.replace Row.key (r.claim p.now) db.rows }
        (p.edit (r.claim p.now)) = .ok db' := by
  obtain ⟨⟨claimed, s⟩, hclaim, h⟩ := bind_ok h
  obtain ⟨⟨⟩, hcheck, hput⟩ := bind_ok h
  obtain ⟨r, hr, htable, hsel, hbase, rfl, rfl⟩ := claim_ok hclaim
  exact ⟨r, hr, htable, hsel, hbase, hcheck, hput⟩

theorem Removal.run_ok {m : Removal} {db db' : Data} (h : m.run db = .ok db') :
    ∃ r ∈ db.rows, r.table = m.table ∧ m.selects r = true ∧
      flushUpdate db (r.softDelete m.now) = .ok db' := by
  unfold run at h
  split at h
  · cases h
  · rename_i r rest hfound
    obtain ⟨hr, htable, hsel⟩ :=
      mem_rowsWhere.mp (hfound ▸ List.mem_cons_self (a := r) (l := rest))
    exact ⟨r, hr, htable, hsel, h⟩

/-- The writing routes of items and actions, with the body of the request and the values that the
handler draws. -/
inductive ItemCall
  | createObj (payload : Dict) (newId : Uuid) (newCode : String)
  | updateObj (itemId : Uuid) (payload : Dict) (baseVersion : ℤ)
  | deleteObj (itemId : Uuid)
  | upsertMyAssessment (itemId : Uuid) (payload : Dict) (baseVersion : ℤ) (newId : Uuid)
  | createAction (payload : Dict) (newId : Uuid)
  | updateAction (actionId : Uuid) (payload : Dict) (baseVersion : ℤ)
  | deleteAction (actionId : Uuid)

namespace ItemCall

def minRole : ItemCall → Role
  | createObj .. => .member
  | updateObj _ payload _ =>
    if statusText (payload.get .status) = "deleted".toList then .manager else .member
  | deleteObj _ => .manager
  | upsertMyAssessment .. => .member
  | createAction .. => .member
  | updateAction .. => .member
  | deleteAction _ => .manager

variable (userId projectId : Uuid) (itemType : Entity) (scored : itemType.scored = true)
  (now : Time)

def body (db : Data) : ItemCall → Except PushError Data
  | createObj payload newId newCode => do
    let new ← Server.createItem userId projectId payload newId now itemType scored newCode
    flushInsert db new.row new.now
  | updateObj itemId payload baseVersion => do
    let p ← Server.updateItem projectId payload baseVersion now itemId (some itemType)
    p.run db (some "Item not found") fun _ ↦ .ok ()
  | deleteObj itemId => (Server.deleteItem projectId now .items itemId (some itemType)).run db
  | upsertMyAssessment itemId payload baseVersion newId => do
    requireItem db projectId itemId itemType
    let p := Server.updateAssessment itemId userId payload now baseVersion
    if (rowsWhere db p.table p.selects).isEmpty then
      require (baseVersion = 0) (.conflict "version_mismatch" none none none)
      let new := Server.createAssessment itemId userId payload now newId
      flushInsert db new.row new.now
    else p.run db none fun _ ↦ .ok ()
  | createAction payload newId => do
    let _ ← resolveTarget db projectId (uuidOf (payload.get .riskId))
      (uuidOf (payload.get .opportunityId))
    let new := Server.createAction userId projectId payload newId now
    flushInsert db new.row new.now
  | updateAction actionId payload baseVersion => do
    let p ← Server.updateAction projectId payload baseVersion now actionId
    p.run db (some "Action not found") fun claimed ↦ match actionTarget payload with
      | none => .ok ()
      | some t => (resolveTarget claimed projectId t.1 t.2).map fun _ ↦ ()
  | deleteAction actionId => (Server.deleteItem projectId now .actions actionId none).run db

/-- A route of `create_item_router` for one item type, or of the actions: the data it commits. -/
def run (db : Data) (call : ItemCall) : Except PushError Data := do
  requireMinRole db projectId userId call.minRole
  call.body userId projectId itemType scored now db

end ItemCall

/-- The writing routes of the help desk. -/
inductive TicketCall
  | createHelpdeskTicket (payload : Dict) (newId : Uuid)
  | updateHelpdeskTicket (ticketId : Uuid) (payload : Dict) (baseVersion : ℤ)
  | deleteHelpdeskTicket (ticketId : Uuid)

namespace TicketCall

variable (userId projectId : Uuid) (now : Time)

def body (db : Data) : TicketCall → Except PushError Data
  | createHelpdeskTicket payload newId =>
    let new := Server.createHelpdeskTicket userId projectId payload newId now
    flushInsert db new.row new.now
  | updateHelpdeskTicket ticketId payload baseVersion => do
    let p ← Server.updateHelpdeskTicket projectId payload baseVersion now ticketId
    p.run db (some "Help Desk ticket not found") fun _ ↦ .ok ()
  | deleteHelpdeskTicket ticketId => do
    let m := Server.deleteHelpdeskTicket projectId now ticketId
    require (!(rowsWhere db m.table m.selects).isEmpty)
      (.http 404 "Help Desk ticket not found")
    m.run db

def run (db : Data) (call : TicketCall) : Except PushError Data := do
  requireMinRole db projectId userId .member
  call.body userId projectId now db

end TicketCall

end RiskApp.Server
