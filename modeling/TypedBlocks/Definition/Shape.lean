import TypedBlocks.TypeExpr.Parser

/-! The shape of a hierarchy definition: an object from type names to bodies, where a body is null
or an object with a list of parameters and a list of parents. -/
namespace TypedBlocks

open Json (Value)

inductive Breach where
  | kind (found : Json.Value) (expected : List Text)
  | pattern (text form : Text)
  | reserved
  | empty
  | missing (key : Text)
  | unexpected (keys : List Text)

namespace Breach

def rule : Breach → String
  | .kind _ _ => "type"
  | .pattern _ _ => "pattern"
  | .reserved => "not"
  | .empty => "minLength"
  | .missing _ => "required"
  | .unexpected _ => "additionalProperties"

def message : Breach → Text
  | .kind found expected =>
    found.display ++ " is not of type " ++ Text.intercalate ", " (expected.map Text.quoted)
  | .pattern text form => Text.quoted text ++ " does not match " ++ Text.quoted form
  | .reserved => "'*' should not be valid under \x7b'const': '*'\x7d"
  | .empty => "'' should be non-empty"
  | .missing key => Text.quoted key ++ " is a required property"
  | .unexpected keys =>
    let verb := if keys.length = 1 then "was" else "were"
    "Additional properties are not allowed (" ++ Text.intercalate ", " (keys.map Text.quoted) ++
      " " ++ verb ++ " unexpected)"

end Breach

structure Violation where
  path : List Text
  breach : Breach

namespace Violation

def pointer (v : Violation) : Text :=
  Json.Pointer.join v.path

/-- The place, with the whole document shown as a slash, and what is wrong there. -/
def line (v : Violation) : Text :=
  let place : Text := if v.path.isEmpty then "/" else v.pointer
  place ++ ": " ++ v.breach.message

end Violation

/-- A decoded definition: entries in order, or a value that is no mapping. The keys of a mapping
that was not read from text need not be texts. -/
inductive Definition where
  | mapping (entries : List (Value × Value))
  | other (v : Value)

namespace Definition

def ofValue : Value → Definition
  | .object fields => .mapping (fields.map fun (k, v) => (.text k, v))
  | v => .other v

namespace Shape

def namePattern : Text := "^[^\\s,\\[\\]]+$"

def variancePattern : Text := "^([Ii][Nn][Vv]|[Cc][Oo])"

/-- A name, or a name before one closing line break. -/
def fitsName (s : Text) : Bool :=
  let cs := s.toList
  TypeExpr.isName cs || (cs.getLast? == some (.char '\n') && TypeExpr.isName cs.dropLast)

def startsWithLetters : List (Char × Char) → List CodePoint → Bool
  | [], _ => true
  | (small, capital) :: more, c :: cs => (c = small || c = capital) && startsWithLetters more cs
  | _ :: _, [] => false

def fitsVariance (s : Text) : Bool :=
  startsWithLetters [('i', 'I'), ('n', 'N'), ('v', 'V')] s.toList ||
    startsWithLetters [('c', 'C'), ('o', 'O')] s.toList

def name (path : List Text) : Value → List Violation
  | .text s =>
    (if fitsName s then [] else [⟨path, .pattern s namePattern⟩]) ++
      (if s = TypeExpr.star then [⟨path, .reserved⟩] else [])
  | v => [⟨path, .kind v ["string"]⟩]

def variance (path : List Text) : Value → List Violation
  | .text s => if fitsVariance s then [] else [⟨path, .pattern s variancePattern⟩]
  | v => [⟨path, .kind v ["string"]⟩]

def parent (path : List Text) : Value → List Violation
  | .text s => if s.isEmpty then [⟨path, .empty⟩] else []
  | v => [⟨path, .kind v ["string"]⟩]

def optional (path : List Text) (fields : List (Text × Value)) (key : Text)
    (rule : List Text → Value → List Violation) : List Violation :=
  match Value.field? fields key with
  | some v => rule (path ++ [key]) v
  | none => []

def required (path : List Text) (fields : List (Text × Value)) (key : Text) :
    List Violation :=
  if (Value.field? fields key).isSome then [] else [⟨path, .missing key⟩]

/-- One violation for all keys outside the known ones, which it names in order. -/
def closed (path : List Text) (fields : List (Text × Value)) (known : List Text) :
    List Violation :=
  match (fields.map (·.1)).filter (!known.contains ·) with
  | [] => []
  | extra => [⟨path, .unexpected (extra.mergeSort Text.notAfter)⟩]

def param (path : List Text) : Value → List Violation
  | .object fields =>
    required path fields "name" ++ required path fields "variance" ++
      optional path fields "name" name ++ optional path fields "variance" variance ++
      closed path fields ["name", "variance"]
  | v => [⟨path, .kind v ["object"]⟩]

def listOf (rule : List Text → Value → List Violation) (path : List Text) :
    Value → List Violation
  | .list items => items.zipIdx.flatMap fun (v, i) => rule (path ++ [.ofNat i]) v
  | v => [⟨path, .kind v ["array"]⟩]

def body (path : List Text) : Value → List Violation
  | .object fields =>
    optional path fields "params" (listOf param) ++
      optional path fields "fulfills" (listOf parent) ++
      closed path fields ["params", "fulfills"]
  | .null => []
  | v => [⟨path, .kind v ["object", "null"]⟩]

/-- The step from a mapping to the value of a key. A null key adds none. -/
def keyStep : Value → List Text
  | .null => []
  | key => [key.plain]

def unordered : Definition → List Violation
  | .mapping entries =>
    entries.flatMap (fun (k, _) => name [] k) ++
      entries.flatMap fun (k, v) => body (keyStep k) v
  | .other v => [⟨[], .kind v ["object"]⟩]

end Shape

/-- Paths are compared step by step as texts; a path comes before those that go on from it. -/
def notAfter : List Text → List Text → Bool
  | [], _ => true
  | _ :: _, [] => false
  | a :: as, b :: bs => if a = b then notAfter as bs else a.notAfter b

/-- All violations, ordered by place; those of one place keep the order of the rules. -/
def violations (d : Definition) : List Violation :=
  (Shape.unordered d).mergeSort fun a b => notAfter a.path b.path

end Definition

end TypedBlocks
