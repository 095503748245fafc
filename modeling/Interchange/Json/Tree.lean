import Interchange.DataUri
/-!
JSON documents and their relation to values. A document has no byte strings and no numbers that
are not finite, so bytes become data URIs on the way out, and the first float that has no
JSON form stops the conversion. On the way back text stays text; what was an integer
is an integer and what was a float is a float.
-/
namespace Interchange

namespace Json

-- Integers carry their exact value; `negative` is only used below zero.
inductive Number where
  | natural (number : UInt64)
  | negative (number : Int64)
  | float (number : Binary64)
  deriving DecidableEq, Repr

inductive Tree where
  | null
  | bool (flag : Bool)
  | number (number : Number)
  | str (text : String)
  | array (items : List Tree)
  | object (entries : List (String × Tree))
  deriving Inhabited

namespace Number

def ofSigned (number : Int64) : Number :=
  if 0 ≤ number.toInt then .natural number.toUInt64 else .negative number

def toValue : Number → Value
  | .natural number => .ofUnsigned number
  | .negative number => .integer number
  | .float number => .float number

end Number

namespace Tree

-- The only failure is a float that is not finite; it is returned.
mutual
def ofValue : Value → Except Binary64 Tree
  | .null => .ok .null
  | .bool flag => .ok (.bool flag)
  | .integer signed => .ok (.number (.ofSigned signed))
  | .unsigned natural => .ok (.number (.natural natural))
  | .float float => if float.isFinite then .ok (.number (.float float)) else .error float
  | .str text => .ok (.str text)
  | .bytes content => .ok (.str (DataUri.ofBytes content))
  | .array items =>
    match ofItems [] items with
    | .ok done => .ok (.array done)
    | .error float => .error float
  | .object entries =>
    match ofEntries [] entries with
    | .ok done => .ok (.object done)
    | .error float => .error float
termination_by structural value => value
def ofItems (done : List Tree) : List Value → Except Binary64 (List Tree)
  | [] => .ok done.reverse
  | item :: rest =>
    match ofValue item with
    | .ok tree => ofItems (tree :: done) rest
    | .error float => .error float
termination_by structural items => items
def ofEntries (done : List (String × Tree)) :
    List (String × Value) → Except Binary64 (List (String × Tree))
  | [] => .ok done.reverse
  | (key, item) :: rest =>
    match ofValue item with
    | .ok tree => ofEntries ((key, tree) :: done) rest
    | .error float => .error float
termination_by structural entries => entries
end

mutual
def toValue : Tree → Value
  | .null => .null
  | .bool flag => .bool flag
  | .number content => content.toValue
  | .str text => .str text
  | .array items => .array (toItems [] items)
  | .object entries => .object (toEntries [] entries)
termination_by structural tree => tree
def toItems (done : List Value) : List Tree → List Value
  | [] => done.reverse
  | item :: rest => toItems (toValue item :: done) rest
termination_by structural items => items
def toEntries (done : List (String × Value)) : List (String × Tree) → List (String × Value)
  | [] => done.reverse
  | (key, item) :: rest => toEntries ((key, toValue item) :: done) rest
termination_by structural entries => entries
end

end Tree

end Json

end Interchange
