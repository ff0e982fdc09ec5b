import MarketLoad.Json.Printer
import MarketLoad.Json.Reader

/-! # Records

The JSON form of domain values. A record of named fields is written as an object in a fixed
order, and read from an object in any order (members nobody asks for are passed over, a field
named twice is refused) or from an array with exactly its fields. An alternative is a name
alone, or an object whose one member is the name with its content. -/

namespace MarketLoad

/-- Values with a JSON form. -/
class Recorded (α : Type) where
  toRecord : α → Json
  ofRecord? : Json → Option α

export Recorded (toRecord ofRecord?)

/-- The compact text of a value's record. -/
def recordText {α : Type} [Recorded α] (a : α) : String := (toRecord a).compact

/-- Reads a value from the text of its record. -/
def ofRecordText? {α : Type} [Recorded α] (text : String) : Option α :=
  (Json.parse? text).bind ofRecord?

namespace Json

/-- The member of this name; `none` in the outer option if the name comes twice. -/
def memberOnce? (name : String) (members : List (Option String × Json)) :
    Option (Option Json) :=
  match members.filter fun m => m.1 == some name with
  | [] => some none
  | [(_, value)] => some (some value)
  | _ => none

/-- The values of the named fields, in the order of the names; the value is `none` where an
object lacks the field. -/
def fields? (names : List String) : Json → Option (List (Option Json))
  | .object members =>
    if members.all fun m => m.1.isSome then names.mapM (memberOnce? · members) else none
  | .array items => if items.length = names.length then some (items.map some) else none
  | _ => none

/-- Like `fields?`, for records that refuse members of other names. -/
def exactFields? (names : List String) (j : Json) : Option (List (Option Json)) :=
  match j with
  | .object members =>
    if members.all fun m => names.any fun name => m.1 == some name then fields? names j else none
  | _ => fields? names j

/-- The value of a field that must be there. -/
def required {α : Type} [Recorded α] (field : Option Json) : Option α := field.bind ofRecord?

/-- The value of a field that may be missing. -/
def optional {α : Type} [Recorded α] : Option Json → Option (Option α)
  | none | some .null => some none
  | some j => (ofRecord? j).map some

/-- The name of an alternative and its content, if it has any. -/
def alternative? : Json → Option (String × Option Json)
  | .string (some name) => some (name, none)
  | .object [(some name, content)] => some (name, some content)
  | _ => none

/-- The name of an alternative without content. -/
def bareName? (j : Json) : Option String :=
  match alternative? j with
  | some (name, none) => some name
  | some (name, some .null) => some name
  | _ => none

/-- Reads a name from a list of names with their meanings. -/
def ofNames? {α : Type} (names : List (String × α)) (j : Json) : Option α :=
  (bareName? j).bind (names.lookup ·)

def ofNat (n : Nat) : Json :=
  .number { negative := false, whole := Text.digits n, fraction := none, exponent := none }

def ofInt (n : Int) : Json :=
  .number { negative := decide (n < 0), whole := Text.digits n.natAbs, fraction := none,
            exponent := none }

/-- An integer by its digits: no fraction, no exponent, and no negative zero. -/
def int? : Json → Option Int
  | .number { negative, whole, fraction := none, exponent := none } =>
    let n := Text.ofDigits whole
    if negative then (if n = 0 then none else some (-(n : Int))) else some n
  | _ => none

def natBelow? (limit : Nat) (j : Json) : Option Nat :=
  match int? j with
  | some (.ofNat n) => if n < limit then some n else none
  | _ => none

end Json

instance : Recorded String where
  toRecord := Json.text
  ofRecord?
    | .string s => s
    | _ => none

instance : Recorded Bool where
  toRecord := Json.bool
  ofRecord?
    | .bool b => some b
    | _ => none

instance : Recorded UInt16 where
  toRecord n := .ofNat n.toNat
  ofRecord? j := (j.natBelow? UInt16.size).map UInt16.ofNat

instance : Recorded UInt32 where
  toRecord n := .ofNat n.toNat
  ofRecord? j := (j.natBelow? UInt32.size).map UInt32.ofNat

instance : Recorded UInt64 where
  toRecord n := .ofNat n.toNat
  ofRecord? j := (j.natBelow? UInt64.size).map UInt64.ofNat

instance : Recorded Int64 where
  toRecord n := .ofInt n.toInt
  ofRecord? j :=
    match j.int? with
    | some n =>
      if Int64.minValue.toInt ≤ n ∧ n ≤ Int64.maxValue.toInt then some (Int64.ofInt n) else none
    | none => none

instance {α : Type} [Recorded α] : Recorded (List α) where
  toRecord as := .array (as.map toRecord)
  ofRecord?
    | .array items => items.mapM ofRecord?
    | _ => none

instance {α : Type} [Recorded α] : Recorded (Option α) where
  toRecord
    | none => .null
    | some a => toRecord a
  ofRecord? j := Json.optional (some j)

end MarketLoad
