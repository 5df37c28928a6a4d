import TypedBlocks.Hierarchy.Basic
import TypedBlocks.Pattern.Parser
import TypedBlocks.Workspace.Basic

/-! What the flow of types depends on: a hierarchy, the blocks, the bindings of their generics, and
the policy that comes from the settings of the session. -/
namespace TypedBlocks

open Json (Value)

/-- Settings as they are given; their values are not checked. -/
structure Settings where
  pattern : Value := .null
  reconnect : Value := .bool true
  bump : Value := .bool true
  checkShape : Value := .bool true

namespace Settings

def ofFields (fields : List (Text × Value)) : Settings :=
  { pattern := Value.field fields "generic_pattern"
    reconnect := (Value.field? fields "reconnect_on_bind").getD (.bool true)
    bump := (Value.field? fields "bump_neighbours_on_bind").getD (.bool true)
    checkShape := (Value.field? fields "validate_schema").getD (.bool true) }

def fields (s : Settings) : List (Text × Value) :=
  [("generic_pattern", s.pattern), ("reconnect_on_bind", s.reconnect),
    ("bump_neighbours_on_bind", s.bump), ("validate_schema", s.checkShape)]

end Settings

/-- What the settings ask for. Without a pattern every undeclared name is a generic. -/
structure Policy where
  pattern : Option Pattern := none
  reconnect : Bool := true
  bump : Bool := true
  checkShape : Bool := true
  deriving DecidableEq, Repr

def Settings.policy (s : Settings) : Except Fault Policy := do
  let pattern ←
    match s.pattern with
    | .null => .ok none
    | .text t =>
      match Pattern.parse? t with
      | some p => .ok (some p)
      | none => .error .badPattern
    | _ => .error .wrongKind
  return ⟨pattern, !s.reconnect.isVoid, !s.bump.isVoid, !s.checkShape.isVoid⟩

abbrev Bindings := List ((Nat × Text) × TypeExpr)

namespace Bindings

def find? (bs : Bindings) (block : Nat) (generic : Text) : Option TypeExpr :=
  bs.lookup (block, generic)

def erase (bs : Bindings) (block : Nat) (generic : Text) : Bindings :=
  bs.filter (·.1 ≠ (block, generic))

def set (bs : Bindings) (block : Nat) (generic : Text) (t : TypeExpr) : Bindings :=
  ((block, generic), t) :: bs.erase block generic

end Bindings

structure Scene where
  hierarchy : Hierarchy
  pattern : Option Pattern
  bindings : Bindings
  workspace : Workspace
  deriving DecidableEq, Repr

namespace Scene

/-- The wildcard, or an undeclared name that fits the pattern if there is one. -/
def isGeneric (s : Scene) (name : Text) : Bool :=
  name == TypeExpr.star ||
    (!s.hierarchy.declares name &&
      match s.pattern with
      | some p => p.fits name
      | none => true)

/-- In a check generics take no parameters and other names are declared ones, rightly applied. -/
def validateNode (s : Scene) (whole : TypeExpr) (t : TypeExpr) : Except Fault Unit :=
  if s.isGeneric t.name then
    if t.params.isEmpty then .ok ()
    else .error (.type (.malformed whole.render (.appliedGeneric t.name)))
  else do
    let e ← s.hierarchy.get t.name
    if t.params.length = e.arity then .ok ()
    else .error (.type (.arity t.name t.params.length e.arity))

def validateCheck (s : Scene) (t : TypeExpr) : Except Fault Unit :=
  t.walk.forM (s.validateNode t)

end Scene

end TypedBlocks
