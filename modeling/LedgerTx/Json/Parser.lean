import LedgerTx.Json.Basic
import LedgerTx.Text.Hex

/-!
# Reading JSON text

The strict grammar: four kinds of blanks, no leading zeros, no control
characters in strings, nothing after the value.  Surrogate escapes join to
one character when a high one is followed directly by a low one.
-/

namespace LedgerTx.Json

def isBlank (c : Char) : Bool := c == ' ' || c == '\n' || c == '\t' || c == '\r'

def skipBlanks (cs : List Char) : List Char := cs.dropWhile isBlank

def spelling (cs after : List Char) : String := String.ofList (cs.take (cs.length - after.length))

/-! ## Strings -/

def escaped? : Char → Option Char
  | '"' => some '"'
  | '\\' => some '\\'
  | '/' => some '/'
  | 'b' => some '\x08'
  | 'f' => some '\x0c'
  | 'n' => some '\n'
  | 'r' => some '\r'
  | 't' => some '\t'
  | _ => none

def unit? (a b c d : Char) : Option Nat :=
  [a, b, c, d].foldlM (fun n digit => (Hex.value? digit).map (16 * n + ·)) 0

/-- The code units up to the closing quote, and the text after it. -/
def units? : List Char → Option (List Nat × List Char)
  | [] => none
  | '"' :: rest => some ([], rest)
  | '\\' :: 'u' :: a :: b :: c :: d :: rest => do
      let unit ← unit? a b c d
      let (units, after) ← units? rest
      some (unit :: units, after)
  | '\\' :: c :: rest => do
      let char ← escaped? c
      let (units, after) ← units? rest
      some (char.toNat :: units, after)
  | c :: rest => do
      if c.toNat < 32 then none
      else
        let (units, after) ← units? rest
        some (c.toNat :: units, after)

def isHigh (unit : Nat) : Bool := 0xd800 ≤ unit && unit < 0xdc00

def isLow (unit : Nat) : Bool := 0xdc00 ≤ unit && unit < 0xe000

/-- The characters of code units, unless one is half of a pair. -/
def joinUnits? : List Nat → Option (List Char)
  | [] => some []
  | high :: low :: rest =>
      if isHigh high then
        if isLow low then do
          let chars ← joinUnits? rest
          some (Char.ofNat (0x10000 + (high - 0xd800) * 0x400 + (low - 0xdc00)) :: chars)
        else none
      else if isLow high then none
      else do some (Char.ofNat high :: (← joinUnits? (low :: rest)))
  | [unit] => if isHigh unit || isLow unit then none else some [Char.ofNat unit]

def readString? (cs : List Char) : Option (Json × List Char) := do
  let (units, after) ← units? cs
  match joinUnits? units with
  | some chars => some (string (String.ofList chars), after)
  | none => some (halfPair (spelling ('"' :: cs) after), after)

/-! ## Numbers -/

def digits? (cs : List Char) : Option (List Char × List Char) :=
  match cs.span Char.isDigit with
  | ([], _) => none
  | (digits, rest) => some (digits, rest)

def digitsValue (digits : List Char) : Nat :=
  digits.foldl (fun n c => 10 * n + (c.toNat - 48)) 0

/-- The whole part: digits that do not start with zero, or zero itself. -/
def whole? (cs : List Char) : Option (Nat × List Char) := do
  let (digits, rest) ← digits? cs
  if digits.head? = some '0' ∧ digits.length ≠ 1 then none else some (digitsValue digits, rest)

def afterFraction? : List Char → Option (List Char)
  | '.' :: rest => (digits? rest).map Prod.snd
  | rest => some rest

def afterSign : List Char → List Char
  | '+' :: rest => rest
  | '-' :: rest => rest
  | rest => rest

def afterExponent? : List Char → Option (List Char)
  | 'e' :: rest => (digits? (afterSign rest)).map Prod.snd
  | 'E' :: rest => (digits? (afterSign rest)).map Prod.snd
  | rest => some rest

/-- The number in front; zero with a minus sign is not an integer. -/
def readNumber? (cs : List Char) : Option (Json × List Char) := do
  let negative := cs.head? = some '-'
  let (value, rest) ← whole? (if negative then cs.drop 1 else cs)
  let after ← (afterFraction? rest) >>= afterExponent?
  if after.length < rest.length ∨ negative ∧ value = 0 then
    some (decimal (spelling cs after), after)
  else if negative then some (number (-value), after)
  else some (number value, after)

/-! ## Values -/

/--
The object of members, which ends before `after`.  A name with half of a
pair leaves only the spelling of the object.
-/
def ofMembers (members : List (Json × Json)) (cs after : List Char) : Json :=
  match members.mapM fun (name, value) => name.text?.map fun name => (name, value) with
  | some members => object members
  | none => halfPair (spelling cs after)

def afterWord? : List Char → List Char → Option (List Char)
  | [], cs => some cs
  | _ :: _, [] => none
  | w :: word, c :: cs => if w = c then afterWord? word cs else none

mutual

/-- The value in front, found in at most `fuel` steps. -/
def readValue? : (fuel : Nat) → List Char → Option (Json × List Char)
  | 0, _ => none
  | fuel + 1, cs =>
      match skipBlanks cs with
      | [] => none
      | 'n' :: rest => (afterWord? ['u', 'l', 'l'] rest).map fun after => (null, after)
      | 't' :: rest => (afterWord? ['r', 'u', 'e'] rest).map fun after => (bool true, after)
      | 'f' :: rest => (afterWord? ['a', 'l', 's', 'e'] rest).map fun after => (bool false, after)
      | '"' :: rest => readString? rest
      | '[' :: rest =>
          match skipBlanks rest with
          | ']' :: after => some (array [], after)
          | _ => (readItems? fuel rest).map fun (items, after) => (array items, after)
      | '\x7b' :: rest =>
          match skipBlanks rest with
          | '\x7d' :: after => some (object [], after)
          | _ => (readMembers? fuel rest).map fun (members, after) =>
              (ofMembers members ('\x7b' :: rest) after, after)
      | other => readNumber? other

def readItems? : (fuel : Nat) → List Char → Option (List Json × List Char)
  | 0, _ => none
  | fuel + 1, cs =>
      match readValue? fuel cs with
      | none => none
      | some (item, rest) =>
          match skipBlanks rest with
          | ',' :: more => (readItems? fuel more).map fun (items, after) => (item :: items, after)
          | ']' :: after => some ([item], after)
          | _ => none

/-- The members up to the closing brace, their names being strings. -/
def readMembers? : (fuel : Nat) → List Char → Option (List (Json × Json) × List Char)
  | 0, _ => none
  | fuel + 1, cs =>
      match skipBlanks cs with
      | '"' :: inName =>
          match readString? inName with
          | none => none
          | some (name, rest) =>
              match skipBlanks rest with
              | ':' :: content =>
                  match readValue? fuel content with
                  | none => none
                  | some (value, rest) =>
                      match skipBlanks rest with
                      | ',' :: more =>
                          (readMembers? fuel more).map fun (members, after) =>
                            ((name, value) :: members, after)
                      | '\x7d' :: after => some ([(name, value)], after)
                      | _ => none
              | _ => none
      | _ => none

end

def parse? (source : String) : Option Json :=
  let cs := source.toList
  match readValue? (2 * cs.length + 1) cs with
  | some (value, rest) => if (skipBlanks rest).isEmpty then some value else none
  | none => none

end LedgerTx.Json
