import RiskApp.Server.Feed

namespace RiskApp.Server

open Lib Lib.Result

def modelDump (declared : List Attr) (payload : Dict) : List (Attr × Val) :=
  declared.filterMap fun a ↦ (payload a).map (a, ·)

def itemUpdate : List Attr := itemShared.map Prod.fst ++ [.title, .probability, .impact]

def actionUpdate : List Attr := [.kind, .title, .description, .status, .ownerUserId]

def helpDeskTicketUpdate : List Attr :=
  [.title, .description, .category, .priority, .status, .reporterEmail]

theorem mem_modelDump {declared : List Attr} {payload : Dict} {f : Attr × Val}
    (h : f ∈ modelDump declared payload) : f.1 ∈ declared := by
  obtain ⟨a, ha, hf⟩ := List.mem_filterMap.mp h
  obtain ⟨v, -, rfl⟩ := Option.map_eq_some_iff.mp hf
  exact ha

/-- A row that a handler adds to the session; `check` is what it reads before. -/
structure NewRow where
  row : Row
  now : Time
  check : Data → Bool
  version : row.version = 1
  type : row.hasType

/-- What a handler passes to `claim_base_version` and does to the row it gets back; `check` is
what it reads in between. -/
structure Patch where
  table : Table
  selects : Row → Bool
  base : ℤ
  now : Time
  check : Data → Bool
  edit : Row → Row
  keeps : ∀ r : Row, r.Keeps (edit r)
  version : ∀ r : Row, (edit r).version = r.version
  parent : ∀ r : Row, table = .assessments → (edit r).attrs .itemId = r.attrs .itemId

/-- What a handler selects and soft-deletes without a claim. -/
structure Removal where
  table : Table
  selects : Row → Bool
  now : Time

namespace Row

theorem keeps_setAll {fields : List (Attr × Val)} (r : Row)
    (h : ∀ f ∈ fields, f.1 ∉ fixedAttrs) : r.Keeps (r.setAll fields) :=
  keeps_foldl (fun r g hg ↦ r.keeps_setAttr g.2 hg) fields r h

theorem setAll_attrs_of_ne {a : Attr} {fields : List (Attr × Val)} (r : Row)
    (h : ∀ f ∈ fields, f.1 ≠ a) : (r.setAll fields).attrs a = r.attrs a := by
  unfold setAll
  induction fields generalizing r with
  | nil => rfl
  | cons f fields ih =>
    rw [List.foldl_cons, ih _ fun g hg ↦ h g (List.mem_cons_of_mem f hg)]
    exact r.setAttr_attrs_of_ne _ (h f List.mem_cons_self).symm

theorem setAll_table (fields : List (Attr × Val)) (r : Row) :
    (r.setAll fields).table = r.table :=
  congrArg Prod.fst (setAll_key fields r)

end Row

def textOf : Val → String
  | .str s => s
  | _ => ""

def uuidOf : Val → Option Uuid
  | .uuid u => some u
  | _ => none

def resolveTarget (db : Data) (projectId : Uuid) (riskId opportunityId : Option Uuid) :
    Except PushError (Uuid × Entity) :=
  let found (itemId : Uuid) (expected : Entity) : Except PushError (Uuid × Entity) :=
    match (db.item itemId).filter (fun r ↦
        r.attrs .projectId = .uuid projectId && !r.isDeleted) with
    | none => .error (.http 404 "Target not found")
    | some r =>
      if r.attrs .type = .str expected.name then .ok (itemId, expected)
      else .error (.http 400 ("Target is a " ++ textOf (r.attrs .type) ++ ", expected " ++
        expected.name))
  match riskId, opportunityId with
  | some riskId, none => found riskId .risk
  | none, some opportunityId => found opportunityId .opportunity
  | _, _ => .error (.http 400 "Provide exactly one of risk_id or opportunity_id")

section Create

variable (userId projectId : Uuid) (payload : Dict) (newId : Uuid) (now : Time)

/-- The object `create_item` adds; `newCode` stands for the generated code. -/
def newItem (entity : Entity) (newCode : String) (status : Val) : Row :=
  let code := match payload.get .code with
    | .str s => let t := Text.strip s.toList
      if t = [] then newCode else String.ofList t
    | _ => newCode
  let occurredAt := Val.orElse (payload.get .occurredAt)
    (if status = .str "happened" then .time now else .null)
  let obj := (⟨.items, newId, 1, 0, fun _ ↦ .null⟩ : Row).setAttr .type (.str entity.name)
  recalculateItemScores ((obj.setAll (modelDump itemUpdate payload)).setAll
    [(.projectId, .uuid projectId), (.code, .str code), (.score, .int 0), (.status, status),
     (.identifiedAt, Val.orElse (payload.get .identifiedAt) (.time now)),
     (.statusChangedAt, .time now), (.createdAt, .time now), (.createdBy, .uuid userId),
     (.updatedAt, .time now), (.isDeleted, .bool false), (.occurredAt, occurredAt)])

theorem newItem_type (entity : Entity) (newCode : String) (status : Val) :
    (newItem userId projectId payload newId now entity newCode status).attrs .type =
      .str entity.name := by
  unfold newItem
  rw [(keeps_recalculateItemScores _).fixed .type (by decide), Row.setAll_attrs_of_ne _ (by simp),
    Row.setAll_attrs_of_ne]
  · simp [Row.setAttr]
  · exact fun f hf he ↦ absurd (he ▸ mem_modelDump hf) (by decide)

theorem newItem_version (entity : Entity) (newCode : String) (status : Val) :
    (newItem userId projectId payload newId now entity newCode status).version = 1 := by
  unfold newItem
  rw [recalculateItemScores_version, Row.setAll_version, Row.setAll_version, Row.setAttr_version]

theorem name_of_scored {entity : Entity} (h : entity.scored = true) :
    entity.name = "risk" ∨ entity.name = "opportunity" := by
  cases entity <;> simp [Entity.scored, Entity.name] at h ⊢

def createItem (entity : Entity) (he : entity.scored = true) (newCode : String) :
    Except PushError NewRow := do
  let status := Val.orElse (.str (String.ofList (statusText (payload.get .status))))
    (.str "concept")
  require (status ≠ .str "deleted") (.http 422 "Cannot create an item with status=deleted")
  return {
    row := newItem userId projectId payload newId now entity newCode status
    now := now
    check := fun _ ↦ true
    version := newItem_version _ _ _ _ _ _ _ _
    type := fun _ ↦ by
      rw [newItem_type]
      exact (name_of_scored he).imp (congrArg Val.str) (congrArg Val.str) }

/-- `create_action`; the body names one of a risk and an opportunity. -/
def createAction : NewRow where
  row := (⟨.actions, newId, 1, 0, fun _ ↦ .null⟩ : Row).setAll
    [(.projectId, .uuid projectId),
     (.itemId, Val.orElse (payload.get .riskId) (payload.get .opportunityId)),
     (.kind, payload.get .kind),
     (.title, payload.get .title), (.description, payload.get .description),
     (.status, Val.orElse (payload.get .status) (.str "open")),
     (.ownerUserId, payload.get .ownerUserId), (.createdBy, .uuid userId),
     (.createdAt, .time now), (.updatedAt, .time now), (.isDeleted, .bool false)]
  now := now
  check := fun db ↦ (resolveTarget db projectId (uuidOf (payload.get .riskId))
    (uuidOf (payload.get .opportunityId))).toOption.isSome
  version := Row.setAll_version _ _
  type := fun h ↦ by
    rw [Row.setAll_table] at h
    cases h

def createHelpdeskTicket : NewRow where
  row := (⟨.helpdeskTickets, newId, 1, 0, fun _ ↦ .null⟩ : Row).setAll
    [(.projectId, .uuid projectId), (.title, payload.get .title),
     (.description, payload.get .description),
     (.category, Val.orElse (payload.get .category) (.str "other")),
     (.priority, Val.orElse (payload.get .priority) (.str "medium")), (.status, .str "open"),
     (.reporterEmail, payload.get .reporterEmail), (.createdBy, .uuid userId),
     (.createdAt, .time now), (.updatedAt, .time now), (.isDeleted, .bool false)]
  now := now
  check := fun _ ↦ true
  version := Row.setAll_version _ _
  type := fun h ↦ by
    rw [Row.setAll_table] at h
    cases h

end Create

section Update

variable (projectId : Uuid) (payload : Dict) (base : ℤ) (now : Time)

/-- The message `_validated_changes` refuses a field with. -/
def refusedChange (f : Attr × Val) : Option String :=
  if f.2 = .null then match f.1 with
    | .code => some "code cannot be null"
    | .title => some "title cannot be null"
    | .probability => some "probability cannot be null"
    | .impact => some "impact cannot be null"
    | .status => some "status cannot be null"
    | .identifiedAt => some "identified_at cannot be null"
    | _ => none
  else match f with
    | (.code, .str s) => if Text.strip s.toList = [] then some "code cannot be blank" else none
    | (.title, .str s) => if Text.strip s.toList = [] then some "title cannot be blank" else none
    | _ => none

def normalizedChange : Attr × Val → Attr × Val
  | (.code, .str s) => (.code, .str (String.ofList (Text.strip s.toList)))
  | (.status, .str s) => (.status, .str (String.ofList (Text.strip (Text.lower s.toList))))
  | f => f

theorem normalizedChange_fst (f : Attr × Val) : (normalizedChange f).1 = f.1 := by
  unfold normalizedChange
  split <;> rfl

def validatedChanges : Except PushError (List (Attr × Val)) :=
  let updateData := modelDump itemUpdate payload
  match updateData.filterMap refusedChange with
  | [] => .ok (updateData.map normalizedChange)
  | detail :: _ => .error (.http 422 detail)

theorem validatedChanges_fst {payload : Dict} {changes : List (Attr × Val)}
    (h : validatedChanges payload = .ok changes) : ∀ f ∈ changes, f.1 ∈ itemUpdate := by
  intro f hf
  unfold validatedChanges at h
  simp only at h
  split at h
  · cases h
    obtain ⟨g, hg, rfl⟩ := List.mem_map.mp hf
    rw [normalizedChange_fst]
    exact mem_modelDump hg
  · cases h

/-- What `update_item` does to the row it claimed. -/
def editItem (changes : List (Attr × Val)) (r : Row) : Row :=
  let r := (changes.foldl (Row.assign now) r).setAttr .updatedAt (.time now)
  if (Attr.status, Val.str "deleted") ∈ changes then r.setAttr .isDeleted (.bool true)
  else recalculateItemScores r

theorem keeps_editItem {changes : List (Attr × Val)} (h : ∀ f ∈ changes, f.1 ∈ itemUpdate)
    (r : Row) : r.Keeps (editItem now changes r) := by
  have hfixed : ∀ a ∈ itemUpdate, a ∉ fixedAttrs := by decide
  have hassign := (Row.keeps_foldl (Row.keeps_assign now) changes r
    fun f hf ↦ hfixed f.1 (h f hf)).trans
    (Row.keeps_setAttr _ (.time now) (show Attr.updatedAt ∉ fixedAttrs by decide))
  unfold editItem
  simp only
  split
  · exact hassign.trans (Row.keeps_setAttr _ _ (by decide))
  · exact hassign.trans (keeps_recalculateItemScores _)

theorem editItem_version (changes : List (Attr × Val)) (r : Row) :
    (editItem now changes r).version = r.version := by
  unfold editItem
  simp only
  split <;> simp

def itemWhere (itemId : Uuid) (itemType : Option Entity) (r : Row) : Bool :=
  r.attrs .projectId = .uuid projectId && r.id = itemId &&
    (r.table ≠ .items || itemType.all (fun e ↦ r.attrs .type = .str e.name))

def updateItem (itemId : Uuid) (itemType : Option Entity) : Except PushError Patch :=
  match h : validatedChanges payload with
  | .error e => .error e
  | .ok changes => .ok {
    table := .items
    selects := itemWhere projectId itemId itemType
    base := base
    now := now
    check := fun _ ↦ true
    edit := editItem now changes
    keeps := keeps_editItem now (validatedChanges_fst h)
    version := editItem_version now changes
    parent := fun _ h ↦ by cases h }

def liveWhere (id : Uuid) (r : Row) : Bool :=
  r.attrs .projectId = .uuid projectId && r.id = id && !r.isDeleted

/-- The assignments of `update_action` and `update_helpdesk_ticket`. -/
def editRow (fields : List (Attr × Val)) (r : Row) : Row :=
  (r.setAll fields).setAttr .updatedAt (.time now)

theorem keeps_editRow {fields : List (Attr × Val)} (h : ∀ f ∈ fields, f.1 ∉ fixedAttrs)
    (r : Row) : r.Keeps (editRow now fields r) :=
  (r.keeps_setAll h).trans (Row.keeps_setAttr _ _ (by decide))

theorem editRow_version (fields : List (Attr × Val)) (r : Row) :
    (editRow now fields r).version = r.version := by
  rw [editRow, Row.setAttr_version, Row.setAll_version]

def actionTarget : Option (Option Uuid × Option Uuid) :=
  if payload.has .riskId || payload.has .opportunityId then
    some (uuidOf (payload.get .riskId), uuidOf (payload.get .opportunityId))
  else none

/-- The assignments of `update_action`; the title was stripped. -/
def actionChanges : List (Attr × Val) :=
  (modelDump actionUpdate payload).map (fun f ↦ match f with
    | (.title, .str s) => (.title, .str (String.ofList (Text.strip s.toList)))
    | f => f) ++
  ((actionTarget payload).bind fun t ↦ t.1.or t.2).toList.map fun itemId ↦ (.itemId, .uuid itemId)

theorem actionChanges_not_fixed {f : Attr × Val} (h : f ∈ actionChanges payload) :
    f.1 ∉ fixedAttrs := by
  have hfixed : ∀ a ∈ actionUpdate, a ∉ fixedAttrs := by decide
  rcases List.mem_append.mp h with h | h
  · obtain ⟨g, hg, rfl⟩ := List.mem_map.mp h
    have hfst := hfixed g.1 (mem_modelDump hg)
    split <;> exact hfst
  · obtain ⟨t, -, rfl⟩ := List.mem_map.mp h
    simp [fixedAttrs]

def updateAction (actionId : Uuid) : Except PushError Patch := do
  require (payload .kind ≠ some .null) (.http 422 "kind cannot be null")
  require (payload .status ≠ some .null) (.http 422 "status cannot be null")
  require (payload .title ≠ some .null) (.http 422 "title cannot be null")
  require (!payload.has .title || Text.strip (textOf (payload.get .title)).toList ≠ [])
    (.http 422 "title cannot be blank")
  return {
    table := .actions
    selects := liveWhere projectId actionId
    base := base
    now := now
    check := fun db ↦ (actionTarget payload).all fun t ↦
      (resolveTarget db projectId t.1 t.2).toOption.isSome
    edit := editRow now (actionChanges payload)
    keeps := keeps_editRow now fun _ hf ↦ actionChanges_not_fixed payload hf
    version := editRow_version now _
    parent := fun _ h ↦ by cases h }

def updateHelpdeskTicket (ticketId : Uuid) : Except PushError Patch := do
  require (payload .title ≠ some .null) (.http 422 "title cannot be null")
  return {
    table := .helpdeskTickets
    selects := liveWhere projectId ticketId
    base := base
    now := now
    check := fun _ ↦ true
    edit := editRow now (modelDump helpDeskTicketUpdate payload)
    keeps := by
      have hfixed : ∀ a ∈ helpDeskTicketUpdate, a ∉ fixedAttrs := by decide
      exact keeps_editRow now fun f hf ↦ hfixed f.1 (mem_modelDump hf)
    version := editRow_version now _
    parent := fun _ h ↦ by cases h }

end Update

section Assessment

variable (itemId userId : Uuid) (payload : Dict) (now : Time)

def editAssessment (r : Row) : Row :=
  recalculateItemScores (r.setAll
    [(.probability, payload.get .probability), (.impact, payload.get .impact),
     (.notes, payload.get .notes), (.isDeleted, .bool false), (.updatedAt, .time now)])

theorem keeps_editAssessment (r : Row) : r.Keeps (editAssessment payload now r) := by
  refine (r.keeps_setAll ?_).trans (keeps_recalculateItemScores _)
  simp [fixedAttrs]

theorem editAssessment_itemId (r : Row) :
    (editAssessment payload now r).attrs .itemId = r.attrs .itemId := by
  unfold editAssessment
  rw [recalculateItemScores_itemId]
  exact r.setAll_attrs_of_ne (by simp)

theorem editAssessment_version (r : Row) : (editAssessment payload now r).version = r.version := by
  rw [editAssessment, recalculateItemScores_version, Row.setAll_version]

def createAssessment (newId : Uuid) : NewRow where
  row := editAssessment payload now
    ((⟨.assessments, newId, 1, 0, fun _ ↦ .null⟩ : Row).setAll
      [(.itemId, .uuid itemId), (.assessorUserId, .uuid userId), (.createdAt, .time now),
       (.updatedAt, .time now), (.isDeleted, .bool false)])
  now := now
  check := fun _ ↦ true
  version := by rw [editAssessment_version, Row.setAll_version]
  type := fun h ↦ by
    rw [(keeps_editAssessment payload now _).table, Row.setAll_table] at h
    cases h

def updateAssessment (base : ℤ) : Patch where
  table := .assessments
  selects r := r.attrs .itemId = .uuid itemId && r.attrs .assessorUserId = .uuid userId
  base := base
  now := now
  check _ := true
  edit := editAssessment payload now
  keeps := keeps_editAssessment payload now
  version := editAssessment_version payload now
  parent r _ := editAssessment_itemId payload now r

end Assessment

section Delete

variable (projectId : Uuid) (now : Time)

def deleteItem (model : Table) (itemId : Uuid) (itemType : Option Entity) : Removal :=
  ⟨model, itemWhere projectId itemId itemType, now⟩

def deleteHelpdeskTicket (ticketId : Uuid) : Removal :=
  ⟨.helpdeskTickets, liveWhere projectId ticketId, now⟩

end Delete

end RiskApp.Server
