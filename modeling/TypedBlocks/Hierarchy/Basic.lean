import TypedBlocks.Declaration
import TypedBlocks.Template

/-! Linked hierarchies of declared types, and the parameters of a type seen as those of an ancestor
or of a descendant. -/
namespace TypedBlocks

abbrev Table (α : Type) := List (Text × List α)

namespace Table

variable {α : Type}

def get (t : Table α) (name : Text) : List α :=
  (t.lookup name).getD []

/-- Changes the list under a name; a new name starts with nothing. -/
def alter (t : Table α) (name : Text) (f : List α → List α) : Table α :=
  match t with
  | [] => [(name, f [])]
  | (n, items) :: more => if n = name then (n, f items) :: more else (n, items) :: alter more name f

def alterAll (t : Table α) (names : List Text) (f : List α → List α) : Table α :=
  names.foldl (fun t name => t.alter name f) t

end Table

/-- For each type that can be reached, the lists of arguments it is reached with. -/
abbrev Reach := Table (List Template)

/-- A declared type and its place in the hierarchy. The arguments of its parents and ancestors are
written over its own slots; `reach` holds the type itself as well. Children stand in the order in
which they are linked, descendants in that of their declarations. -/
structure Entry where
  decl : Declaration
  edges : List (Text × List Template)
  reach : Reach
  children : List Text
  descendants : List Text
  deriving DecidableEq, Repr

namespace Entry

def name (e : Entry) : Text :=
  e.decl.name

def arity (e : Entry) : Nat :=
  e.decl.arity

def params (e : Entry) : List Param :=
  e.decl.params

def reaches (e : Entry) (name : Text) : Bool :=
  e.reach.any (·.1 == name)

/-- Every distinct list of arguments with which the type is an instance of the named one. -/
def paths (e : Entry) (name : Text) : List (List Template) :=
  e.reach.get name

def ancestors (e : Entry) : List Text :=
  (e.reach.map (·.1)).filter (· ≠ e.name)

def hasAncestor (e : Entry) (name : Text) : Bool :=
  name ≠ e.name && e.reaches name

def hasDescendant (e : Entry) (name : Text) : Bool :=
  e.descendants.contains name

def template? (e : Entry) (name : Text) : Option Template :=
  (e.paths name).head?.map (.app name)

end Entry

/-- The entries stand in declaration order; `order` puts parents before children. -/
structure Hierarchy where
  entries : List Entry
  order : List Text
  deriving DecidableEq, Repr

namespace Hierarchy

def names (h : Hierarchy) : List Text :=
  h.entries.map (·.name)

def size (h : Hierarchy) : Nat :=
  h.entries.length

def find? (h : Hierarchy) (name : Text) : Option Entry :=
  h.entries.find? (·.name == name)

def get (h : Hierarchy) (name : Text) : Except Fault Entry :=
  match h.find? name with
  | some e => .ok e
  | none => .error (.type (.undefined name))

def declares (h : Hierarchy) (name : Text) : Bool :=
  (h.find? name).isSome

/-- The wildcard takes no parameters, a declared type as many as it declares. -/
def validateNode (h : Hierarchy) (t : TypeExpr) : Except Fault Unit :=
  if t.name = TypeExpr.star then
    if t.params.isEmpty then .ok () else .error (.type (.arity t.name t.params.length 0))
  else do
    let e ← h.get t.name
    if t.params.length = e.arity then .ok ()
    else .error (.type (.arity t.name t.params.length e.arity))

def validate (h : Hierarchy) (t : TypeExpr) : Except Fault Unit :=
  t.walk.forM h.validateNode

def allParamsFor (h : Hierarchy) (t : TypeExpr) (ancestor : Text) :
    Except Fault (List (List TypeExpr)) := do
  let e ← h.get t.name
  return (e.paths ancestor).map (Template.fillAll t.params)

/-- The parameters along the first path, or nothing if the name is not that of an ancestor. -/
def paramsFor (h : Hierarchy) (t : TypeExpr) (ancestor : Text) :
    Except Fault (Option (List TypeExpr)) := do
  let e ← h.get t.name
  return (e.paths ancestor).head?.map (Template.fillAll t.params)

def viewAs (h : Hierarchy) (t : TypeExpr) (ancestor : Text) : Except Fault (Option TypeExpr) := do
  let params ← h.paramsFor t ancestor
  return params.map (⟨ancestor, ·⟩)

/-- The descendant's parameters as far as those of the ancestor determine them. -/
def paramsBelow (h : Hierarchy) (ancestor descendant : Text) (actuals : List TypeExpr) :
    Except Fault (Option (List (Option TypeExpr))) := do
  let _ ← h.get ancestor
  let e ← h.get descendant
  return (e.paths ancestor).head?.map fun path =>
    Template.unfillAll (List.replicate e.arity none) path actuals

/-- Like `paramsBelow`, for the ancestor applied to its own parameter names. -/
def formalsBelow (h : Hierarchy) (ancestor descendant : Text) :
    Except Fault (Option (List (Option TypeExpr))) := do
  let a ← h.get ancestor
  h.paramsBelow ancestor descendant (a.params.map fun p => ⟨p.name, []⟩)

end Hierarchy

end TypedBlocks
