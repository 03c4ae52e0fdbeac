import RiskApp.Client.Codes
import RiskApp.Client.UnitsOfWork
import RiskApp.Lib.Interleaving

namespace RiskApp.Client

open Lib Server

namespace Cache

def getVersionOr0 (k : EntityKey) (c : Cache) : ℤ := ((c.row k).map (·.version)).getD 0

def codes (c : Cache) (entity : Entity) : List Val :=
  (c.rows.filter (·.entity = entity)).map (·.columns .code)

def nextCode (c : Cache) (entity : Entity) : Option Val :=
  let codePrefix := entityPrefix entity
  let counted := ((c.codes entity).filter (likeCode Char.toLower codePrefix)).filterMap
    (numberPart codePrefix)
  (largestNumber 0 counted).bind fun maxN ↦ formatCode codePrefix (maxN + 1)

/-- The code generator is asked where `_ensure_code` finds no code. -/
def askedCode (code existing : Val) (entity : Entity) (c : Cache) : Option Val :=
  if normText code ≠ .null ∨ normText existing ≠ .null then some .null else c.nextCode entity

/-- `update_risk` and `update_opportunity`, which ask for a code inside of their transaction. -/
def updateCoded (k : EntityKey) (form : ScoredForm) (baseVersion : Option ℤ)
    (t : LocalStore.Stamp) : Work Cache Unit :=
  .writeTransaction do
    let existing ← .select (columns · k)
    let kept := if form.fields.has .code then form.fields.get .code else existing .code
    let code ← .select (askedCode kept (existing .code) k.1)
    let nextCode ← .ofOption code
    updateScored k form nextCode baseVersion t

end Cache

/-- What the user asks the facade for; new ids are drawn, and the id of an assessment is derived,
before anything is read. -/
inductive Write
  | createScored (entity : Entity) (entityId : Uuid) (form : ScoredForm)
  | updateScored (entity : Entity) (entityId : Uuid) (form : ScoredForm) (baseVersion : Option ℤ)
  | deleteScored (entity : Entity) (entityId : Uuid)
  | createTicket (ticketId : Uuid) (form : TicketForm)
  | updateTicket (ticketId : Uuid) (fields : Dict)
  | deleteTicket (ticketId : Uuid)
  | createAction (actionId : Uuid) (form : ActionForm)
  | updateAction (actionId : Uuid) (form : ActionForm) (baseVersion : Option ℤ)
  | upsertMyAssessment (assessmentId : Uuid) (form : AssessmentForm) (assessorUserId : Uuid)

namespace Write

def key : Write → EntityKey
  | createScored entity entityId _ => (entity, entityId)
  | updateScored entity entityId _ _ => (entity, entityId)
  | deleteScored entity entityId => (entity, entityId)
  | createTicket ticketId _ => (.helpdeskTicket, ticketId)
  | updateTicket ticketId _ => (.helpdeskTicket, ticketId)
  | deleteTicket ticketId => (.helpdeskTicket, ticketId)
  | createAction actionId _ => (.action, actionId)
  | updateAction actionId _ _ => (.action, actionId)
  | upsertMyAssessment assessmentId _ _ => (.assessment, assessmentId)

def creates : Write → Bool
  | createScored _ _ _ | createTicket _ _ | createAction _ _ => true
  | _ => false

def baseVersion : Write → Option ℤ
  | updateScored _ _ _ baseVersion => baseVersion
  | updateAction _ _ baseVersion => baseVersion
  | _ => none

/-- The command that a write comes to by what it reads before its transaction: the code of a new
item, and the version of an assessment. A read that raises ends the write. -/
def look (c : Cache) : Write → Option Command
  | createScored entity entityId form =>
    (c.askedCode (form.fields.get .code) .null entity).map (.createScored entity entityId form)
  | updateScored entity entityId form baseVersion =>
    some (.updateScored entity entityId form .null baseVersion)
  | deleteScored entity entityId => some (.deleteScored entity entityId)
  | createTicket ticketId form => some (.createTicket ticketId form)
  | updateTicket ticketId fields => some (.updateTicket ticketId fields)
  | deleteTicket ticketId => some (.deleteTicket ticketId)
  | createAction actionId form => some (.createAction actionId form)
  | updateAction actionId form baseVersion => some (.updateAction actionId form baseVersion)
  | upsertMyAssessment assessmentId form assessorUserId =>
    some (.upsertMyAssessment assessmentId form assessorUserId
      (c.getVersionOr0 (.assessment, assessmentId)))

end Write

def Command.transaction (t : LocalStore.Stamp) (cmd : Command) : Work Cache Unit :=
  if cmd.wired then
    match cmd with
    | .updateScored entity entityId form _ baseVersion =>
      Cache.updateCoded (entity, entityId) form baseVersion t
    | cmd => cmd.work t
  else .raise

/-- A write, when it is made, under what new id it is queued, and which of its statements fail. -/
structure LocalWrite where
  write : Write
  stamp : LocalStore.Stamp
  faults : List Fate := []

def LocalWrite.commit (w : LocalWrite) (cmd : Option Command) (c : Cache) : Cache :=
  match cmd with
  | none => c
  | some cmd => (cmd.transaction w.stamp).after w.faults c

def Operation.syncs : Operation → Bool
  | .command _ _ | .keepMine _ _ _ | .useServer _ _ | .merge _ _ _ _ => false
  | _ => true

structure SyncWork where
  operation : Operation
  syncs : operation.syncs = true
  faults : List Fate := []

def sharedFile (projectId : Uuid) : Sharing Cache LocalWrite (Option Command) SyncWork where
  look w c := w.write.look c
  act w cmd c := w.commit cmd c
  work s c := (s.operation.work projectId).after s.faults c

structure LocalWrite.Drawn (w : LocalWrite) (c : Cache) : Prop where
  change : ∀ e ∈ c.outbox, e.changeId ≠ w.stamp.changeId
  entity : w.write.creates = true → c.row w.write.key = none

/-- What the write has read is still what it would read. -/
def LocalWrite.Current (w : LocalWrite) (cmd : Option Command) (c : Cache) : Prop :=
  w.Drawn c ∧ cmd = w.write.look c

namespace Command

variable {c c' : Cache} {cmd : Command} {t : LocalStore.Stamp}

def coded (nextCode : Val) : Command → Command
  | updateScored entity entityId form _ baseVersion =>
    updateScored entity entityId form nextCode baseVersion
  | cmd => cmd

theorem transaction_done (h : (cmd.transaction t).eval c = some ((), c')) :
    ∃ nextCode, (cmd.coded nextCode).wired = true ∧
      ((cmd.coded nextCode).work t).eval c = some ((), c') := by
  unfold transaction at h
  split at h
  · rename_i hw
    cases cmd with
    | updateScored entity entityId form code baseVersion =>
      simp only [Cache.updateCoded, Work.eval_writeTransaction, Work.eval_bind, Work.eval_select,
        Option.bind_some, Work.eval_ofOption] at h
      obtain ⟨⟨nextCode, c₁⟩, hcode, h⟩ := Option.bind_eq_some_iff.mp h
      obtain ⟨answer, -, he⟩ := Option.map_eq_some_iff.mp hcode
      obtain ⟨rfl, rfl⟩ := Prod.mk.inj he
      exact ⟨answer, hw, h⟩
    | _ => exact ⟨.null, hw, h⟩
  · cases h

/-- What the command takes from the cache is what the cache holds. -/
def UpToDate (c : Cache) : Command → Prop
  | createScored entity entityId _ _ => c.row (entity, entityId) = none
  | createTicket ticketId _ => c.row (.helpdeskTicket, ticketId) = none
  | createAction actionId _ => c.row (.action, actionId) = none
  | upsertMyAssessment assessmentId _ _ version =>
    version = c.getVersionOr0 (.assessment, assessmentId)
  | _ => True

theorem UpToDate.version {now : Time} {r r' : CachedRow} (h : cmd.UpToDate c)
    (hr : c.row cmd.key = some r) (hsaved : cmd.savedRow c now = some r') :
    r'.version = r.version := by
  cases cmd with
  | createScored entity entityId form nextCode => cases hr.symm.trans h
  | createTicket ticketId form => cases hr.symm.trans h
  | createAction actionId form => cases hr.symm.trans h
  | updateScored entity entityId form nextCode baseVersion =>
    obtain ⟨r₀, hr₀, hsaved⟩ := Option.bind_eq_some_iff.mp hsaved
    obtain ⟨_, -, hsaved⟩ := Option.bind_eq_some_iff.mp hsaved
    obtain rfl := Option.some.inj (hr.symm.trans hr₀)
    obtain rfl := Option.some.inj hsaved
    rfl
  | updateTicket | deleteScored | deleteTicket | updateAction =>
    obtain ⟨r₀, hr₀, rfl⟩ := Option.map_eq_some_iff.mp hsaved
    obtain rfl := Option.some.inj (hr.symm.trans hr₀)
    rfl
  | upsertMyAssessment assessmentId form assessorUserId version =>
    obtain rfl := Option.some.inj hsaved
    have hread : version = ((c.row (.assessment, assessmentId)).map (·.version)).getD 0 := h
    have hrow : c.row (.assessment, assessmentId) = some r := hr
    rw [hrow] at hread
    exact hread

/-- A command keeps the versions of the rows. -/
theorem Done.version_eq (h : Done c cmd t c') (hcur : cmd.UpToDate c) {k : EntityKey}
    {r r' : CachedRow} (hr : c.row k = some r) (hr' : c'.row k = some r') :
    r'.version = r.version := by
  by_cases hk : cmd.key = k
  · subst hk
    rcases h.row with hrow | ⟨-, hnone⟩
    · exact hcur.version hr (hrow.symm.trans hr')
    · cases hnone.symm.trans hr'
  · rw [h.frame k hk] at hr'
    rw [Option.some.inj (hr.symm.trans hr')]

theorem Done.base_eq (h : Done c cmd t c') (hcur : cmd.UpToDate c) (hd : c.outbox.Distinct)
    (heditor : (cmd.edit c t.now).baseVersion = none) (hnone : c.outbox.entry cmd.key = none)
    {r : CachedRow} (hr : c.row cmd.key = some r) {e : Entry}
    (he : c'.outbox.entry cmd.key = some e) :
    e.baseVersion = if 1 ≤ r.version then some r.version else none := by
  have hkey := edit_key c t.now cmd
  have hedit := LocalStore.edit_edited hd h.edited
  have hversion : ∀ r', (cmd.edit c t.now).savedRow (c.store.row cmd.key) = some r' →
      c'.store.row cmd.key = some r' → r'.version = r.version := by
    intro r' _ hrow
    rw [Cache.store_row] at hrow
    obtain ⟨new, hnew, rfl⟩ := Option.map_eq_some_iff.mp hrow
    exact h.version_eq hcur hr hnew
  generalize hs : c'.store = s' at hedit
  have hout : c'.outbox = s'.outbox := congrArg LocalStore.outbox hs
  rw [hout] at he
  cases hedit with
  | rewritten joins entry conflict saved row =>
    rw [hkey] at entry
    cases hnone.symm.trans entry
  | discarded delete unsynced unsent row gone =>
    rw [← hkey, Outbox.entry_deleteOpenEntries, if_pos rfl] at he
    cases he
  | queued base saved row =>
    rw [← hkey, Outbox.entry_insertEntry] at he
    obtain rfl := Option.some.inj ((if_pos rfl).symm.trans he)
    change _ = _
    cases base with
    | squashed joins entry free editor =>
      rw [hkey] at entry
      cases hnone.symm.trans entry
    | stored joins entry srow editor =>
      rw [hkey] at srow row
      rw [← hversion _ srow ((congrArg (LocalStore.row · cmd.key) hs).trans
        ((row cmd.key).trans ((if_pos rfl).trans srow)))]
      rfl
    | sentCreate delete unsynced entry sent =>
      rw [hkey] at entry
      cases hnone.symm.trans entry
    | editor free editor => cases heditor.symm.trans editor

end Command

namespace LocalWrite

variable {projectId : Uuid} {c : Cache} {w : LocalWrite} {cmd : Option Command}

theorem commit_done (w : LocalWrite) (cmd : Option Command) (c : Cache) :
    w.commit cmd c = c ∨ ∃ command nextCode, cmd = some command ∧
      (command.coded nextCode).wired = true ∧
      ((command.coded nextCode).work w.stamp).eval c = some ((), w.commit cmd c) := by
  cases cmd with
  | none => exact Or.inl rfl
  | some command =>
    have hatomic : (command.transaction w.stamp).after w.faults c = c ∨
        (command.transaction w.stamp).eval c =
          some ((), (command.transaction w.stamp).after w.faults c) := by
      unfold Command.transaction
      split
      · cases command <;> exact Work.writeTransaction_cases _ w.faults c
      · exact Or.inl rfl
    rcases hatomic with hsame | heval
    · exact Or.inl hsame
    · obtain ⟨nextCode, hwired, hwork⟩ := Command.transaction_done heval
      exact Or.inr ⟨command, nextCode, rfl, hwired, hwork⟩

theorem commit_sound (hc : c.Sound) (hdrawn : w.Drawn c) : (w.commit cmd c).Sound := by
  rcases w.commit_done cmd c with hsame | ⟨command, nextCode, -, hwired, hwork⟩
  · rw [hsame]
    exact hc
  · have heval : ((Operation.command (command.coded nextCode) w.stamp).work 0).eval c =
        some ((), w.commit cmd c) := (congrArg (Work.eval · c) (if_pos hwired)).trans hwork
    refine hc.eval (fun id hid e he ↦ ?_) heval
    obtain rfl := Option.some.inj hid
    exact hdrawn.change e he

theorem Current.upToDate {command : Command} (h : w.Current (some command) c) (nextCode : Val) :
    (command.coded nextCode).UpToDate c ∧ (command.coded nextCode).key = w.write.key ∧
      ∀ now, ((command.coded nextCode).edit c now).baseVersion = w.write.baseVersion := by
  obtain ⟨hdrawn, hlook⟩ := h
  have hnew := hdrawn.entity
  generalize w.write = write at hlook hnew
  cases write with
  | createScored entity entityId form =>
    obtain ⟨code, -, rfl⟩ := Option.map_eq_some_iff.mp hlook.symm
    exact ⟨hnew rfl, rfl, fun _ ↦ rfl⟩
  | createTicket ticketId form | createAction actionId form =>
    obtain rfl := Option.some.inj hlook
    exact ⟨hnew rfl, rfl, fun _ ↦ rfl⟩
  | upsertMyAssessment assessmentId form assessorUserId =>
    obtain rfl := Option.some.inj hlook
    exact ⟨rfl, rfl, fun _ ↦ rfl⟩
  | _ =>
    obtain rfl := Option.some.inj hlook
    exact ⟨trivial, rfl, fun _ ↦ rfl⟩

end LocalWrite

section Runs

variable {projectId : Uuid} {start : Cache} {order : List (LocalWrite ⊕ SyncWork)}
  {s : Sharing.State Cache LocalWrite (Option Command) SyncWork}

theorem SyncWork.sound {c : Cache} (hc : c.Sound) (w : SyncWork) :
    ((w.operation.work projectId).after w.faults c).Sound := by
  have hstep : Cache.Step projectId c ((w.operation.work projectId).after w.faults c) := by
    refine ⟨w.operation, w.faults, fun id hid ↦ ?_, rfl⟩
    obtain ⟨operation, syncs, faults⟩ := w
    cases operation with
    | command | keepMine | merge => cases syncs
    | _ => cases hid
  exact hc.step hstep

theorem sharedFile_sound {ok : LocalWrite → Option Command → Cache → Prop}
    (hok : ∀ w cmd c, ok w cmd c → w.Drawn c) (hstart : start.Sound)
    (h : (sharedFile projectId).Runs ok start order s) : s.store.Sound := by
  induction h with
  | idle => exact hstart
  | step before next ih =>
    have hlock := before.holds
    cases next with
    | look w | lookPast w | beginWrite meets | beginWork t => exact ih
    | commitWrite =>
      obtain ⟨rfl, meets⟩ := hlock
      exact LocalWrite.commit_sound ih (hok _ _ _ meets)
    | commitWork =>
      obtain rfl : _ = _ := hlock
      exact SyncWork.sound ih _

end Runs

def sentAssessment : Cache :=
  ((Operation.markAttempted [1] 20).work 1).after [] <|
    ((Operation.command (.upsertMyAssessment 5 ⟨.risk, 7, 2, 2, .null⟩ 3 0) ⟨1, 10⟩).work 1).after
      [] {}

def assessedAgain : LocalWrite := ⟨.upsertMyAssessment 5 ⟨.risk, 7, 4, 4, .null⟩ 3, ⟨2, 30⟩, []⟩

def assessmentAnswer : SyncWork where
  operation := .acknowledge [{
    changeId := 1
    status := .accepted
    replayed := false
    entity := .assessment
    op := .upsert
    entityId := some 5
    body := { serverVersion := some (some 1), serverRecord := some (some (.ofList
      [(.id, .uuid 5), (.projectId, .uuid 1), (.itemId, .uuid 7), (.riskId, .uuid 7),
        (.assessorUserId, .uuid 3), (.probability, .int 2), (.impact, .int 2),
        (.version, .int 1)])) } }]
  syncs := rfl

def answered : Cache := (sharedFile 1).work assessmentAnswer sentAssessment

def assessedAfter : Cache := assessedAgain.commit (assessedAgain.write.look answered) answered

end RiskApp.Client
