import Mathlib.Data.Int.Notation
import RiskApp.Text

namespace RiskApp

abbrev Uuid := ℕ

/-- Microseconds since the start of year 1. -/
abbrev Time := ℕ

inductive Entity
  | risk
  | opportunity
  | action
  | assessment
  | helpdeskTicket
  deriving DecidableEq, Repr

inductive ChangeOp
  | upsert
  | delete
  deriving DecidableEq, Repr

inductive Role
  | viewer
  | member
  | manager
  | admin
  deriving DecidableEq, Repr

def Role.rank : Role → ℕ
  | .viewer => 1
  | .member => 2
  | .manager => 3
  | .admin => 4

inductive FailureKind
  | transient
  | authentication
  | permission
  | validation
  | conflict
  | error
  deriving DecidableEq, Repr

inductive ResultStatus
  | accepted
  | conflict
  | error
  deriving DecidableEq, Repr

/-- The values of JSON records and of database columns. A text that is the canonical form of a
UUID or of a timestamp is `uuid`, `time` or `zoned`, any other text is `str`, and `other` keeps what
`str` gives of a float, a list or an object. A `zoned` timestamp has an offset from UTC, and its
time is what a column without a time zone keeps of it. -/
inductive Val
  | null
  | bool (b : Bool)
  | int (n : ℤ)
  | str (s : String)
  | uuid (u : Uuid)
  | time (t : Time)
  | zoned (t : Time) (offset : ℤ)
  | other (json : String)
  deriving DecidableEq, Repr

def Val.truthy : Val → Bool
  | .null => false
  | .bool b => b
  | .int n => n ≠ 0
  | .str s => s ≠ ""
  | .uuid _ => true
  | .time _ => true
  | .zoned _ _ => true
  | .other json => json ∉ ["[]", "\x7b\x7d", "0.0", "-0.0"]

def Val.ofTime (t : Time) : Option ℤ → Val
  | none => .time t
  | some offset => .zoned t offset

def Val.naive : Val → Val
  | .zoned t _ => .time t
  | v => v

/-- Attribute names of the records, the tables and their serializations. -/
inductive Attr
  | id
  | projectId
  | itemId
  | riskId
  | opportunityId
  | type
  | code
  | title
  | description
  | category
  | threat
  | triggers
  | mitigationPlan
  | documentUrl
  | ownerUserId
  | status
  | identifiedAt
  | statusChangedAt
  | responseAt
  | occurredAt
  | probability
  | impact
  | impactCost
  | impactTime
  | impactScope
  | impactQuality
  | score
  | assessorUserId
  | notes
  | kind
  | priority
  | reporterEmail
  | itemType
  | createdBy
  | createdAt
  | updatedAt
  | version
  | isDeleted
  | other (name : String)
  deriving DecidableEq, Repr

/-- A JSON object: `none` for an absent key. -/
abbrev Dict := Attr → Option Val

namespace Dict

def empty : Dict := fun _ ↦ none

def set (d : Dict) (a : Attr) (v : Val) : Dict := fun b ↦ if b = a then some v else d b

/-- `d.get(a)`: absent and null keys both read as `None`. -/
def get (d : Dict) (a : Attr) : Val := (d a).getD .null

def has (d : Dict) (a : Attr) : Bool := (d a).isSome

def ofList : List (Attr × Val) → Dict
  | [] => empty
  | (a, v) :: rest => (ofList rest).set a v

@[simp] theorem set_same (d : Dict) (a : Attr) (v : Val) : d.set a v a = some v := by
  simp [set]

theorem set_of_ne (d : Dict) {a b : Attr} (v : Val) (h : b ≠ a) : d.set a v b = d b := by
  simp [set, h]

end Dict

end RiskApp
