import RiskApp.Client.Exchange
import RiskApp.Server.Serialize

namespace RiskApp.Client

open Lib Server

/-- `UUID(value)` and `datetime.fromisoformat(value)` on texts that are not in canonical form:
whether they return. -/
structure Parsers where
  uuid : String → Bool
  date : String → Bool

def Parsers.strict : Parsers := ⟨fun _ ↦ false, fun _ ↦ false⟩

inductive Choice
  | mine
  | server
  | invalid (text : String)
  deriving DecidableEq

abbrev Choices := List (Attr × Choice)

namespace Merge

def parents : List Attr := [.itemId, .riskId, .opportunityId]

/-- `_CHOICES`; the closed sets are those of the server, without the status `deleted`. -/
def allowedValues : Entity → Attr → Option (List String)
  | .risk, .status | .opportunity, .status => some (riskStatuses.filter (· ≠ "deleted"))
  | .action, .status => some actionStatuses
  | .action, .kind => some actionKinds
  | .helpdeskTicket, .status => some helpDeskStatuses
  | .helpdeskTicket, .priority => some helpDeskPriorities
  | .helpdeskTicket, .category => some helpDeskCategories
  | _, _ => none

def maxLength : Attr → ℕ
  | .category => 200
  | .documentUrl => 2000
  | .reporterEmail => 320
  | .notes => 5000
  | _ => 10000

def isText : Val → Bool
  | .str _ | .uuid _ | .time _ => true
  | _ => false

def textLength : Val → ℕ
  | .str s => s.length
  | .uuid _ => 36
  | .time _ => 26
  | _ => 0

def blank : Val → Bool
  | .str s => Text.strip s.toList = []
  | _ => false

def validScore (a : Attr) : Val → Bool
  | .null => a ∈ impactDimensions
  | .int n => FieldType.inScale n
  | _ => false

def validText (ps : Parsers) : Attr → Val → Bool
  | .ownerUserId, .uuid _ => true
  | .ownerUserId, .str s => ps.uuid s
  | .ownerUserId, _ => false
  | .identifiedAt, .time _ | .responseAt, .time _ | .occurredAt, .time _ => true
  | .identifiedAt, .str s | .responseAt, .str s | .occurredAt, .str s => ps.date s
  | .identifiedAt, _ | .responseAt, _ | .occurredAt, _ => false
  | .code, v => 1 ≤ textLength v && textLength v ≤ 64
  | a, v => textLength v ≤ maxLength a

def allowedValue (values : List String) : Val → Bool
  | .str s => s ∈ values
  | _ => false

def validateSelected (ps : Parsers) (entity : Entity) (a : Attr) (v : Val) : Bool :=
  if a ∈ [.probability, .impact] ++ impactDimensions then validScore a v
  else if a = .title then isText v && !blank v && textLength v ≤ 300
  else if v ≠ .null && !isText v then false
  else match allowedValues entity a with
    | some values => allowedValue values v
    | none => v = .null || validText ps a v

def dimensionsActive (entity : Entity) (mine theirs : Dict) : Bool :=
  entity.scored && impactDimensions.any fun a ↦ theirs.get a ≠ .null || mine.get a ≠ .null

/-- The fields the user edits: an active dimension determines the impact. -/
def editable (entity : Entity) (mine theirs : Dict) : List Attr :=
  (Cache.mergeFields entity).filter fun a ↦
    !(a = .impact && dimensionsActive entity mine theirs)

def differs (mine theirs : Dict) (a : Attr) : Bool :=
  mine.has a && theirs.has a && mine a ≠ theirs a

/-- `max` of the dimensions that are not null; they are integers on both sides. -/
def maxDimension (record : Dict) : Option ℤ :=
  match impactDimensions.filterMap fun a ↦ match record.get a with
    | .int n => some n
    | _ => none with
  | [] => none
  | n :: rest => some (rest.foldl max n)

def withMaxImpact (entity : Entity) (record : Dict) : Dict :=
  match maxDimension record with
  | some n => if entity.scored then record.set .impact (.int n) else record
  | none => record

/-- The server's copy under the selected local fields. -/
def overlay (entity : Entity) (mine theirs : Dict) (selected : List Attr) : Dict := fun a ↦
  if a ∈ selected then mine a
  else if a ∈ .id :: Cache.mergeFields entity ++ parents then theirs a
  else none

end Merge

open Merge

namespace Choices

def keys (choices : Choices) : List Attr := choices.map Prod.fst

def mine (choices : Choices) : List Attr := (choices.filter (·.2 = .mine)).map Prod.fst

def complete (choices : Choices) (fields : List Attr) : Bool :=
  fields.all (· ∈ choices.keys) && choices.keys.all (· ∈ fields) &&
    choices.all (fun c ↦ c.2 = .mine || c.2 = .server) && choices.mine ≠ []

theorem mine_subset {choices : Choices} {fields : List Attr}
    (h : choices.complete fields = true) {a : Attr} (ha : a ∈ choices.mine) : a ∈ fields := by
  simp only [complete, Bool.and_eq_true] at h
  obtain ⟨c, hc, rfl⟩ := List.mem_map.mp ha
  have hkey : c.1 ∈ choices.keys := List.mem_map_of_mem (List.mem_filter.mp hc).1
  exact of_decide_eq_true (List.all_eq_true.mp h.1.1.2 c.1 hkey)

end Choices

namespace Entry

def canMerge (e : Entry) : Bool :=
  match e.outcome.serverRecord with
  | none => false
  | some theirs => e.op = .upsert && !LocalStore.deletedRecord e.record &&
      !LocalStore.deletedRecord theirs && theirs.get .id = .uuid e.entityId &&
      e.outcome.serverVersion.any (1 ≤ ·)

def serverCopy (e : Entry) : Dict := e.outcome.serverRecord.getD Dict.empty

def mergeableFields (e : Entry) : List Attr :=
  if e.canMerge then
    (editable e.entity e.record e.serverCopy).filter (differs e.record e.serverCopy)
  else []

/-- The checks of `merged_record`, which raises unless they hold. -/
def acceptsChoices (ps : Parsers) (e : Entry) (choices : Choices) : Bool :=
  e.mergeableFields ≠ [] && choices.complete e.mergeableFields &&
    choices.mine.all fun a ↦ validateSelected ps e.entity a (e.record.get a)

def mergeOf (e : Entry) (selected : List Attr) : Dict :=
  withMaxImpact e.entity (overlay e.entity e.record e.serverCopy selected)

/-- `merged_record`; none when it raises. -/
def mergedRecord (ps : Parsers) (e : Entry) (choices : Choices) : Option Dict :=
  if e.acceptsChoices ps choices then some (e.mergeOf choices.mine) else none

end Entry

end RiskApp.Client
