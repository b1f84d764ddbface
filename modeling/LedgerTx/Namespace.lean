import LedgerTx.Fault
import LedgerTx.Hash.Keccak
import LedgerTx.Word64

/-!
# Namespaces

A namespace name is one to three parts joined by dots.  Each part has an id
derived from its own text and the id of the part before it, the first part
standing under the root id zero.  Every derived id has its highest bit set.
-/

namespace LedgerTx

structure NamespaceId where
  value : UInt64
deriving DecidableEq

namespace NamespaceId

/-- The bit that tells namespace ids from mosaic ids. -/
def flag : UInt64 := 0x8000000000000000

def root : NamespaceId := ⟨0⟩

def isNamespace (id : NamespaceId) : Bool := id.value &&& flag ≠ 0

def toHex (id : NamespaceId) : String := Word64.toHex id.value

def ofHex (text : String) : Except Word64.Error NamespaceId := (Word64.ofHex text).map mk

end NamespaceId

/-- The word of the first eight bytes of a digest. -/
def Hash.word (digest : Block 32) : UInt64 :=
  Word64.ofBlock (Block.front 8 digest)

namespace NamespaceName

def maxDepth : Nat := 3

def maxSize : Nat := 64

inductive Error where
  | empty
  | depth (name : String)
  | first (part : String)
  | character (part : String) (bad : Char)
  | size (part : String)
deriving DecidableEq

def Error.fault : Error → Fault
  | empty => .invalid "name" "namespace name is empty"
  | depth name => .invalid "name" s!"`{name}` has more than {maxDepth} levels"
  | first part => .invalid "name" s!"`{part}` must start with a lowercase letter or digit"
  | character part bad => .invalid "name" s!"`{part}` contains invalid character `{bad}`"
  | size part => .invalid "name" s!"`{part}` is longer than {maxSize} bytes"

def isFirst (c : Char) : Bool := ('a' ≤ c && c ≤ 'z') || ('0' ≤ c && c ≤ '9')

def isLater (c : Char) : Bool := isFirst c || c == '_' || c == '-'

/-- Checks one part: its first character, then the others, then its size. -/
def checkPart (part : String) : Except Error Unit :=
  match part.toList with
  | [] => .error .empty
  | first :: later =>
      if !isFirst first then .error (.first part)
      else
        match later.find? fun c => !isLater c with
        | some bad => .error (.character part bad)
        | none => if maxSize < Utf8.size part then .error (.size part) else .ok ()

def splitDots : List Char → List (List Char)
  | [] => [[]]
  | c :: rest =>
      if c = '.' then [] :: splitDots rest
      else
        match splitDots rest with
        | piece :: others => (c :: piece) :: others
        | [] => [[c]]

/-- The parts of a name: their number is checked before any part. -/
def parts (name : String) : Except Error (List String) :=
  if name.isEmpty then .error .empty
  else
    let pieces := (splitDots name.toList).map String.ofList
    if maxDepth < pieces.length then .error (.depth name)
    else do
      pieces.forM checkPart
      .ok pieces

end NamespaceName

namespace NamespaceId

def child (parent : NamespaceId) (part : String) : NamespaceId :=
  let digest := Hash.sha3_256 ((Word64.toBlock parent.value).bytes ++ Utf8.encode part)
  ⟨Hash.word digest ||| flag⟩

def derive (parent : NamespaceId) (name : String) :
    Except NamespaceName.Error NamespaceId := do
  .ok ((← NamespaceName.parts name).foldl child parent)

/-- The ids of successive parts, each under the one before. -/
def descend (parent : NamespaceId) : List String → List NamespaceId
  | [] => []
  | part :: rest => parent.child part :: descend (parent.child part) rest

def path (name : String) : Except NamespaceName.Error (List NamespaceId) := do
  .ok (descend root (← NamespaceName.parts name))

end NamespaceId

end LedgerTx
