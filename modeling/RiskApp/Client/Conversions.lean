import RiskApp.Lib.Binary64
import RiskApp.Server.Schemas

namespace RiskApp.Client

open Lib Server

def textOf : Val → Val
  | .null => .str "None"
  | .bool b => .str (if b then "True" else "False")
  | .int n => .str (toString n)
  | .other text => .str text
  | v => v

def textOr (v : Val) (default : String) : Val := textOf (Val.orElse v (.str default))

/-- `norm_text`: trimmed, and nothing for an empty text. -/
def normText (v : Val) : Val :=
  match v with
  | .null => .null
  | v => match textOf v with
    | .str s =>
      if Text.strip s.toList = [] then .null else .str (String.ofList (Text.strip s.toList))
    | w => w

/-- The number that a text writes as `repr` does for a float. -/
def floatText (s : List Char) : Option ℚ :=
  let (sign, s) := match s with
    | '-' :: rest => (-1, rest)
    | s => (1, s)
  let (whole, s) := s.span Char.isDigit
  let (fraction, s) := match s with
    | '.' :: rest => rest.span Char.isDigit
    | s => ([], s)
  let exponent : Option ℤ := match s with
    | [] => some 0
    | 'e' :: rest => Text.writtenInt rest
    | _ => none
  if whole = [] then none
  else exponent.map fun (e : ℤ) ↦
    (sign : ℤ) * Nat.ofDigitChars 10 (whole ++ fraction) 0 * (10 : ℚ) ^ (e - fraction.length)

/-- `int` cuts the fraction off. -/
def truncate (q : ℚ) : ℤ := if q < 0 then ⌈q⌉ else ⌊q⌋

/-- `int(v)`, none when it raises. -/
def intOf : Val → Option ℤ
  | .int n => some n
  | .bool b => some (if b then 1 else 0)
  | .str s => Text.toInt s.toList
  | .other text => (floatText text.toList).map fun q ↦ truncate (Binary64.nearest q)
  | _ => none

def optionalInt (v : Val) : Option Val := if v = .null then some .null else (intOf v).map .int

def intOr (v : Val) (default : ℤ) : Option ℤ := intOf (Val.orElse v (.int default))

def optStr (v default : Val) : Val := if normText v = .null then default else normText v

def optInt (v : Val) (default : ℤ) : ℤ :=
  match v with
  | .int n => n
  | .str s => (Text.toInt (Text.strip s.toList)).getD default
  | _ => default

/-- `int(_opt_int(..) or default)`. -/
def optIntOr (v : Val) (default : ℤ) : ℤ :=
  if optInt v default = 0 then default else optInt v default

/-- `sqlite3` binds integers of 64 bits. -/
def fits (n : ℤ) : Bool := -9223372036854775808 ≤ n && n ≤ 9223372036854775807

end RiskApp.Client
