import Interchange.Number.Binary64
/-!
The value that every format reads and writes, neutral between formats. A map
keeps the order in which its keys arrived; an absent key, not a value of its
own, is how a map says that something is absent. Integers come in two words so that
both 64-bit ranges fit; readers use the unsigned one only above the signed range.

Comparisons here are the numeric ones: key order does not count, the zeros are equal
and what is not a number equals nothing.
-/
namespace Interchange

inductive Value where
  | null
  | bool (flag : Bool)
  | integer (number : Int64)
  | unsigned (number : UInt64)
  | float (number : Binary64)
  | str (text : String)
  | bytes (content : List UInt8)
  | array (items : List Value)
  | object (entries : List (String × Value))
  deriving Inhabited

namespace Value

-- The coarse shape of a value, as messages name it.
inductive Kind where
  | null
  | bool
  | integer
  | float
  | str
  | bytes
  | array
  | object
  deriving DecidableEq, Repr

def Kind.name : Kind → String
  | .null => "null"
  | .bool => "bool"
  | .integer => "integer"
  | .float => "float"
  | .str => "string"
  | .bytes => "bytes"
  | .array => "list"
  | .object => "map"

def kind : Value → Kind
  | .null => .null
  | .bool _ => .bool
  | .integer _ => .integer
  | .unsigned _ => .integer
  | .float _ => .float
  | .str _ => .str
  | .bytes _ => .bytes
  | .array _ => .array
  | .object _ => .object

/-- A natural below 2^64 in the word that readers choose for it. -/
def ofUnsigned (number : UInt64) : Value :=
  if number.toNat < 2 ^ 63 then .integer number.toInt64 else .unsigned number

def isNull : Value → Bool
  | .null => true
  | _ => false

def isNumber : Value → Bool
  | .integer _ => true
  | .unsigned _ => true
  | .float _ => true
  | _ => false

def asBool? : Value → Option Bool
  | .bool flag => some flag
  | _ => none

-- Integers of either word in the signed range; a float is not converted.
def asSigned? : Value → Option Int64
  | .integer number => some number
  | .unsigned number => if number.toNat < 2 ^ 63 then some number.toInt64 else none
  | _ => none

/-- The nearest double to any number. -/
def asDouble? : Value → Option Binary64
  | .integer number => some (.ofInt number.toInt)
  | .unsigned number => some (.ofNat number.toNat)
  | .float number => some number
  | _ => none

def asText? : Value → Option String
  | .str text => some text
  | _ => none

def asArray? : Value → Option (List Value)
  | .array items => some items
  | _ => none

def asObject? : Value → Option (List (String × Value))
  | .object entries => some entries
  | _ => none

def get? (key : String) : Value → Option Value
  | .object entries => entries.lookup key
  | _ => none

mutual
def same : Value → Value → Bool
  | .null, .null => true
  | .bool left, .bool right => left == right
  | .integer left, .integer right => left == right
  | .unsigned left, .unsigned right => left == right
  | .float left, .float right => left.equals right
  | .str left, .str right => left == right
  | .bytes left, .bytes right => left == right
  | .array left, .array right => sameItems left right
  | .object left, .object right => left.length == right.length && sameEntries left right
  | _, _ => false
termination_by structural left => left
def sameItems : List Value → List Value → Bool
  | [], [] => true
  | left :: lefts, right :: rights => same left right && sameItems lefts rights
  | _, _ => false
termination_by structural lefts => lefts
def sameEntries : List (String × Value) → List (String × Value) → Bool
  | [], _ => true
  | (key, left) :: lefts, rights =>
    (match rights.lookup key with
      | some right => same left right
      | none => false) && sameEntries lefts rights
termination_by structural lefts => lefts
end

-- An array never holds a null afterwards; a null under a key stays, for it says
-- something that an absent key does not.
mutual
def stripNulls : Value → Value
  | .array items => .array (stripItems items)
  | .object entries => .object (stripEntries entries)
  | other => other
termination_by structural value => value
def stripItems : List Value → List Value
  | [] => []
  | item :: rest => if item.isNull then stripItems rest else stripNulls item :: stripItems rest
termination_by structural items => items
def stripEntries : List (String × Value) → List (String × Value)
  | [] => []
  | (key, value) :: rest => (key, stripNulls value) :: stripEntries rest
termination_by structural entries => entries
end

-- Container nesting: a scalar has none, a container one more than its deepest part.
mutual
def height : Value → Nat
  | .array items => heightItems items + 1
  | .object entries => heightEntries entries + 1
  | _ => 0
termination_by structural value => value
def heightItems : List Value → Nat
  | [] => 0
  | item :: rest => max (height item) (heightItems rest)
termination_by structural items => items
def heightEntries : List (String × Value) → Nat
  | [] => 0
  | (_, value) :: rest => max (height value) (heightEntries rest)
termination_by structural entries => entries
end

-- Results already computed for the values directly inside a container.
inductive Parts (α : Type u) : Type u where
  | none
  | items (results : List α)
  | entries (results : List (String × α))

-- A pass from the leaves up: `step` sees each value with the results of its parts.
mutual
def fold {α : Type u} (step : Value → Parts α → α) : Value → α
  | .array items => step (.array items) (.items (foldItems step items))
  | .object entries => step (.object entries) (.entries (foldEntries step entries))
  | value => step value .none
termination_by structural value => value
def foldItems {α : Type u} (step : Value → Parts α → α) : List Value → List α
  | [] => []
  | item :: rest => fold step item :: foldItems step rest
termination_by structural items => items
def foldEntries {α : Type u} (step : Value → Parts α → α) :
    List (String × Value) → List (String × α)
  | [] => []
  | (key, value) :: rest => (key, fold step value) :: foldEntries step rest
termination_by structural entries => entries
end

end Value

end Interchange
