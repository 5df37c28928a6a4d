import TypedBlocks.Decimal
import TypedBlocks.Text.Quoted

/-! Decoded JSON values. Objects keep the order of their keys, and integers stay apart from
floating-point numbers. A pointer leads into a document: each segment is preceded by a slash, and a
tilde or slash inside a segment is escaped. -/
namespace TypedBlocks.Json

inductive Value where
  | null
  | bool (b : Bool)
  | int (n : Int)
  | float (x : Float)
  | text (s : Text)
  | list (items : List Value)
  | object (fields : List (Text × Value))
  deriving Inhabited

namespace Value

/-- Absent, zero and empty values count as nothing given. -/
def isVoid : Value → Bool
  | .null => true
  | .bool b => !b
  | .int n => n == 0
  | .float x => x == 0.0
  | .text s => s.isEmpty
  | .list items => items.isEmpty
  | .object fields => fields.isEmpty

def field? (fields : List (Text × Value)) (key : Text) : Option Value :=
  fields.lookup key

/-- A missing field reads as null. -/
def field (fields : List (Text × Value)) (key : Text) : Value :=
  (field? fields key).getD .null

/-- A key that is already there keeps its place and takes the new value. -/
def putField (fields : List (Text × Value)) (key : Text) (v : Value) :
    List (Text × Value) :=
  if fields.any (·.1 == key) then fields.map fun f => if f.1 == key then (key, v) else f
  else fields ++ [(key, v)]

/-! ### Texts of values -/

mutual

def display : Value → Text
  | .null => "None"
  | .bool true => "True"
  | .bool false => "False"
  | .int n => .ofInt n
  | .float x => Decimal.floatText x
  | .text s => Text.quoted s
  | .list items => "[" ++ Text.intercalate ", " (displayItems items) ++ "]"
  | .object fields => "\x7b" ++ Text.intercalate ", " (displayFields fields) ++ "\x7d"

def displayItems : List Value → List Text
  | [] => []
  | v :: vs => v.display :: displayItems vs

def displayFields : List (Text × Value) → List Text
  | [] => []
  | (k, v) :: fs => (Text.quoted k ++ ": " ++ v.display) :: displayFields fs

end

/-- Like `display`, with a text standing bare. -/
def plain : Value → Text
  | .text s => s
  | v => v.display

def kindName : Value → String
  | .null => "NoneType"
  | .bool _ => "bool"
  | .int _ => "int"
  | .float _ => "float"
  | .text _ => "str"
  | .list _ => "list"
  | .object _ => "dict"

/-! ### Keys that need not be texts -/

/-- Lists and objects cannot be keys. -/
def isKey : Value → Bool
  | .list _ | .object _ => false
  | _ => true

def integer? : Value → Option Int
  | .bool b => some (if b then 1 else 0)
  | .int n => some n
  | .float x => Decimal.integer? x
  | _ => none

/-- Equal numbers are one key, in whatever form they are given. -/
def sameKey : Value → Value → Bool
  | .null, .null => true
  | .text s, .text t => s == t
  | .float x, .float y => x == y || (x.isNaN && y.isNaN)
  | a, b =>
    match a.integer?, b.integer? with
    | some m, some n => m == n
    | _, _ => false

/-- A key that is already there keeps its place and its form and takes the new value. -/
def putEntry (entries : List (Value × Value)) (key v : Value) : List (Value × Value) :=
  if entries.any fun e => e.1.sameKey key then
    entries.map fun e => if e.1.sameKey key then (e.1, v) else e
  else entries ++ [(key, v)]

end Value

/-! ### Pointers -/

namespace Pointer

def escape : List CodePoint → List CodePoint
  | [] => []
  | c :: cs =>
    if c = '~' then '~' :: '0' :: escape cs
    else if c = '/' then '~' :: '1' :: escape cs
    else c :: escape cs

def join (segments : List Text) : Text :=
  ⟨segments.flatMap fun s => '/' :: escape s.toList⟩

end Pointer

end TypedBlocks.Json
