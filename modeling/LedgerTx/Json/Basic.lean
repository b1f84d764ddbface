/-!
# JSON values

A JSON text as a tree.  Members keep their order and may repeat.  Integers
are told apart from other numbers, and strings that stand for a text from
those that hold half of a surrogate pair, like objects that have such a name;
what is set apart keeps its spelling.
-/

namespace LedgerTx

inductive Json where
  | null
  | bool (value : Bool)
  | number (value : Int)
  | decimal (spelling : String)
  | string (text : String)
  | halfPair (spelling : String)
  | array (items : List Json)
  | object (members : List (String × Json))

namespace Json

def text? : Json → Option String
  | string text => some text
  | _ => none

def bool? : Json → Option Bool
  | bool value => some value
  | _ => none

def below? (bound : Nat) : Json → Option Nat
  | number (.ofNat n) => if n < bound then some n else none
  | _ => none

def items? : Json → Option (List Json)
  | array items => some items
  | _ => none

def members? : Json → Option (List (String × Json))
  | object members => some members
  | _ => none

def named (name : String) (members : List (String × Json)) : List Json :=
  members.filterMap fun (other, value) => if other = name then some value else none

/-- A value that is given at most once. -/
def single? : List Json → Option (Option Json)
  | [] => some none
  | [value] => some (some value)
  | _ => none

/--
The values of a record under its member names.  It is an object, whose other
members are ignored, or an array of exactly these values in order.  A member
may be absent, but not repeated.
-/
def record? (names : List String) : Json → Option (List (Option Json))
  | object members => names.mapM fun name => single? (named name members)
  | array items => if items.length = names.length then some (items.map some) else none
  | _ => none

/-- The values of a record that has no members besides the given ones. -/
def closedRecord? (names : List String) : Json → Option (List (Option Json))
  | object members =>
      if members.all fun (name, _) => names.contains name then record? names (object members)
      else none
  | other => record? names other

/--
A choice and its content: the name of the choice as a string, or an object
whose only member is the choice with its content.
-/
def choice? : Json → Option (String × Option Json)
  | string name => some (name, none)
  | object [(name, content)] => some (name, some content)
  | _ => none

/-- Whether a choice without content has none: it is absent or null. -/
def isVoid : Option Json → Bool
  | none => true
  | some null => true
  | some _ => false

end Json

end LedgerTx
