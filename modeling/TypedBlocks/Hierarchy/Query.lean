import TypedBlocks.Hierarchy.Link
import TypedBlocks.Nearest

/-! Questions put to a hierarchy from outside: names in any case, types as texts or built. -/
namespace TypedBlocks

open Json (Value)

/-- A type as a caller gives it: a value that should be a text, or an expression already built. -/
inductive TypeArg where
  | value (v : Value)
  | built (t : TypeExpr)

def TypeArg.expr : TypeArg → Except Fault TypeExpr
  | .built t => .ok t
  | .value v =>
    match TypeExpr.ofValue v with
    | .ok t => .ok t
    | .error fault => .error (.type fault)

def nameOf : Value → Except Fault Text
  | .text s => .ok (Text.lower s)
  | _ => .error .notText

def askNamed {α : Type} (question : Text → α) (v : Value) : Except Fault α := do
  return question (← nameOf v)

namespace Entry

def reachesNamed (e : Entry) : Value → Except Fault Bool :=
  askNamed e.reaches

def hasAncestorNamed (e : Entry) : Value → Except Fault Bool :=
  askNamed e.hasAncestor

def hasDescendantNamed (e : Entry) : Value → Except Fault Bool :=
  askNamed e.hasDescendant

def pathsNamed (e : Entry) : Value → Except Fault (List (List Template)) :=
  askNamed e.paths

def templateNamed (e : Entry) : Value → Except Fault (Option Template) :=
  askNamed e.template?

def paramIndexNamed (e : Entry) : Value → Except Fault (Option Nat) :=
  askNamed e.decl.paramIndex?

/-- The parameter at an index; negative indexes count from the end. -/
def paramAt (e : Entry) (index : Int) : Except Fault Param :=
  let i := if index < 0 then index + e.arity else index
  if i < 0 then .error .noSuchParam
  else
    match e.params[i.toNat]? with
    | some p => .ok p
    | none => .error .noSuchParam

/-- The type reaches all the names, which are read only up to the first that it does not reach. -/
def reachesAll (e : Entry) (names : List Value) : Except Fault Bool :=
  names.allM e.reachesNamed

def renderTemplate (e : Entry) (t : Template) : Text :=
  (t.fill (e.params.map fun p => ⟨p.name, []⟩)).render

/-- The type itself, then its ancestors, each with its templates. -/
def templates (e : Entry) : List (Text × List Template) :=
  (e.name :: e.ancestors).map fun n => (n, (e.paths n).map (.app n))

def describe (e : Entry) : Text :=
  let params := Text.intercalate ", " (e.params.map fun p => p.name ++ ":" ++ p.variance.name)
  let head := if e.params.isEmpty then e.name else e.name ++ "[" ++ params ++ "]"
  let parents := Text.intercalate ", " (e.decl.parents.map (·.render.quoted))
  "TypeDef(" ++ head ++ ", fulfills=[" ++ parents ++ "])"

end Entry

namespace Hierarchy

def lookup (h : Hierarchy) (v : Value) : Except Fault Entry := do
  h.get (← nameOf v)

/-- The answer to a question about a type, which has to be declared, and an ancestor's name. -/
def askAncestor {α : Type} (h : Hierarchy) (question : TypeExpr → Text → Except Fault α)
    (t : TypeExpr) (ancestor : Value) : Except Fault α := do
  let _ ← h.get t.name
  question t (← nameOf ancestor)

def allParamsForNamed (h : Hierarchy) :
    TypeExpr → Value → Except Fault (List (List TypeExpr)) :=
  h.askAncestor h.allParamsFor

def paramsForNamed (h : Hierarchy) : TypeExpr → Value → Except Fault (Option (List TypeExpr)) :=
  h.askAncestor h.paramsFor

def viewAsNamed (h : Hierarchy) : TypeExpr → Value → Except Fault (Option TypeExpr) :=
  h.askAncestor h.viewAs

/-- The parameters of a descendant as far as those of an ancestor determine them. Where none are
given, the ancestor is applied to its own parameter names. -/
def paramsBelowNamed (h : Hierarchy) (ancestor descendant : Value)
    (actuals : Option (List TypeExpr)) : Except Fault (Option (List (Option TypeExpr))) := do
  let above ← h.lookup ancestor
  let below ← h.lookup descendant
  match actuals with
  | some types => h.paramsBelow above.name below.name types
  | none => h.formalsBelow above.name below.name

def exists? (h : Hierarchy) : Value → Bool
  | .text s => h.declares (Text.lower s)
  | _ => false

def describe (h : Hierarchy) : Text :=
  "TypeHierarchy(" ++ Text.ofNat h.size ++ " types)"

def accept (h : Hierarchy) (arg : TypeArg) : Except Fault TypeExpr := do
  let t ← arg.expr
  h.validate t
  return t

/-- Reads a text; an expression already built is refused. -/
def parse (h : Hierarchy) : TypeArg → Except Fault TypeExpr
  | .value v => h.accept (.value v)
  | .built t => .error (.type (.malformed t.describe .notText))

def fulfills (h : Hierarchy) (sub sup : TypeArg) : Except Fault Bool := do
  let sub ← h.accept sub
  let sup ← h.accept sup
  h.isSubtype sub sup

def isExactly (h : Hierarchy) (a b : TypeArg) : Except Fault Bool := do
  let a ← h.accept a
  let b ← h.accept b
  return a == b

def nearestAncestors (h : Hierarchy) (types : List TypeArg) : Except Fault (List TypeExpr) := do
  h.commonAncestors (← types.mapM h.accept)

def nearestDescendants (h : Hierarchy) (types : List TypeArg) : Except Fault (List TypeExpr) := do
  h.commonDescendants (← types.mapM h.accept)

def nearestAncestorNames (h : Hierarchy) (names : List Value) : Except Fault (List Text) := do
  let entries ← names.mapM h.lookup
  h.commonAncestorNames (entries.map (·.name))

def nearestDescendantNames (h : Hierarchy) (names : List Value) : Except Fault (List Text) := do
  if names.isEmpty then return []
  return highest (← h.entries.filterM (·.reachesAll names))

end Hierarchy

end TypedBlocks
