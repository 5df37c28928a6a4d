import TypedBlocks.Json.Value
import TypedBlocks.TypeExpr.Basic

/-! Reading type expressions such as `dict[k, list[dog]]`, with blanks next to commas only, and what
can be wrong with one. -/
namespace TypedBlocks

inductive Malformed where
  | notText
  | emptyName
  | padded (core : Text)
  | badName (name : Text)
  | noHead
  | unclosed
  | unopened
  | trailing (head : Text)
  | appliedGeneric (name : Text)
  deriving DecidableEq, Repr

def Malformed.message : Malformed → Text
  | .notText => "type expressions must be strings"
  | .emptyName => "empty identifier"
  | .padded core => "whitespace around '" ++ core ++ "'"
  | .badName name => "invalid identifier '" ++ name ++ "'"
  | .noHead => "empty identifier before '['"
  | .unclosed => "mismatched '['"
  | .unopened => "mismatched ']'"
  | .trailing head => "unexpected trailing text after '" ++ head ++ "[...]'"
  | .appliedGeneric name => "the generic '" ++ name ++ "' cannot take parameters"

inductive TypeFault where
  | malformed (source : Text) (cause : Malformed)
  | undefined (name : Text)
  | arity (name : Text) (actual expected : Nat)
  deriving DecidableEq, Repr

namespace TypeFault

def subject : TypeFault → Text
  | .malformed source _ => source
  | .undefined name => name
  | .arity name _ _ => name

def reason : TypeFault → Text
  | .malformed _ cause => cause.message
  | .undefined _ => "the type is not defined in the hierarchy"
  | .arity name actual expected =>
    "the type " ++ name ++ " got " ++ Text.ofNat actual ++ " parameter(s) but declares " ++
      Text.ofNat expected

def message (f : TypeFault) : Text :=
  "Bad type '" ++ f.subject ++ "': " ++ f.reason

end TypeFault

namespace TypeExpr

def isNameChar (c : CodePoint) : Bool :=
  !(Text.isBlank c || c = ',' || c = '[' || c = ']')

def isName (cs : List CodePoint) : Bool :=
  !cs.isEmpty && cs.all isNameChar

def isNameText (s : Text) : Bool :=
  isName s.toList

/-- Cuts at the commas outside all brackets. The pieces are the first one and the others. -/
def splitArgs (depth : Nat) :
    List CodePoint → Except Malformed (List CodePoint × List (List CodePoint))
  | [] => if depth = 0 then .ok ([], []) else .error .unclosed
  | c :: cs =>
    if c = '[' then do
      let (first, others) ← splitArgs (depth + 1) cs
      return (c :: first, others)
    else if c = ']' then
      if depth = 0 then .error .unopened
      else do
        let (first, others) ← splitArgs (depth - 1) cs
        return (c :: first, others)
    else if c = ',' ∧ depth = 0 then do
      let (first, others) ← splitArgs depth cs
      return ([], first :: others)
    else do
      let (first, others) ← splitArgs depth cs
      return (c :: first, others)

/-- The pieces after the first comma lose the blanks beside their commas. -/
def trimOthers : List (List CodePoint) → List (List CodePoint)
  | [] => []
  | [last] => [Text.trimLeft last]
  | piece :: pieces => Text.trim piece :: trimOthers pieces

def trimArgs (first : List CodePoint) (others : List (List CodePoint)) : List (List CodePoint) :=
  if others.isEmpty then [first] else Text.trimRight first :: trimOthers others

/-- The checks on a text before its arguments are looked at. -/
inductive Shape where
  | leaf (name : List CodePoint)
  | applied (head : List CodePoint) (inner : List CodePoint)
  deriving DecidableEq, Repr

def shape (cs : List CodePoint) : Except Malformed Shape :=
  if cs.isEmpty then .error .emptyName
  else if cs ≠ Text.trim cs then .error (.padded ⟨Text.trim cs⟩)
  else if !cs.contains '[' then
    if isName cs then .ok (.leaf cs) else .error (.badName ⟨cs⟩)
  else
    let head := cs.takeWhile (· ≠ CodePoint.char '[')
    if head.isEmpty then .error .noHead
    else if !isName head then .error (.badName ⟨head⟩)
    else if cs.getLast? ≠ some ']' then
      if cs.count (CodePoint.char ']') < cs.count (CodePoint.char '[') then .error .unclosed
      else .error (.trailing ⟨head⟩)
    else .ok (.applied head (cs.drop (head.length + 1)).dropLast)

/-- Reads a text whose brackets are nested at most `depth` deep. -/
def parseWithin : Nat → List CodePoint → Except Malformed TypeExpr
  | 0, _ => .error .emptyName
  | depth + 1, cs => do
    match ← shape cs with
    | .leaf name => return of ⟨name⟩ []
    | .applied head inner =>
      let (first, others) ← splitArgs 0 inner
      let params ← (trimArgs first others).mapM (parseWithin depth)
      return of ⟨head⟩ params

/-- The whole text is named in the fault. -/
def parse (s : Text) : Except TypeFault TypeExpr :=
  match parseWithin (s.length + 1) s.toList with
  | .ok t => .ok t
  | .error cause => .error (.malformed s cause)

def ofValue : Json.Value → Except TypeFault TypeExpr
  | .text s => parse s
  | v => .error (.malformed v.display .notText)

end TypeExpr

end TypedBlocks
