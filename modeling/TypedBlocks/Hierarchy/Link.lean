import TypedBlocks.Hierarchy.Basic

/-! Building a hierarchy from declarations. Parents are written over the slots of the declaring
type, and what each type reaches is composed from what its parents reach, in an order in which
parents come before their children. A type that is linked is entered with its parents as a child and
with its ancestors as a descendant. -/
namespace TypedBlocks

namespace Declaration

def find? (decls : List Declaration) (name : Text) : Option Declaration :=
  decls.find? (·.name == name)

mutual

/-- An argument of a parent over the slots of `d`. A parameter hides a declared type of its name. -/
def argument (decls : List Declaration) (d : Declaration) (parent : TypeExpr) :
    TypeExpr → Except DefinitionFault Template
  | ⟨name, params⟩ =>
    match d.paramIndex? name with
    | some i =>
      if params.isEmpty then .ok (.slot i) else .error (.appliedParam d.name name parent)
    | none =>
      match find? decls name with
      | none => .error (.unknownReference d.name parent name)
      | some target =>
        if params.length ≠ target.arity then
          .error (.parentArity d.name name params.length target.arity)
        else do
          let args ← arguments decls d parent params
          return .app name args

def arguments (decls : List Declaration) (d : Declaration) (parent : TypeExpr) :
    List TypeExpr → Except DefinitionFault (List Template)
  | [] => .ok []
  | p :: ps => do
    let t ← argument decls d parent p
    let ts ← arguments decls d parent ps
    return t :: ts

end

def edge (decls : List Declaration) (d : Declaration) (parent : TypeExpr) :
    Except DefinitionFault (Text × List Template) :=
  match find? decls parent.name with
  | none => .error (.undefinedParent d.name parent.name)
  | some target =>
    if parent.params.length ≠ target.arity then
      .error (.parentArity d.name parent.name parent.params.length target.arity)
    else do
      let args ← arguments decls d parent parent.params
      return (parent.name, args)

def edges (decls : List Declaration) (d : Declaration) :
    Except DefinitionFault (List (Text × List Template)) :=
  d.parents.mapM (edge decls d)

end Declaration

def addNew {α : Type} [BEq α] (known : List α) (item : α) : List α :=
  if known.contains item then known else known ++ [item]

namespace Reach

def add (r : Reach) (name : Text) (args : List Template) : Reach :=
  r.alter name (addNew · args)

/-- Adds all that a parent reaches, seen through the arguments given to the parent. -/
def addParent (r : Reach) (args : List Template) (parent : Reach) : Reach :=
  parent.foldl (fun r (name, paths) =>
    paths.foldl (fun r path => r.add name (Template.plugAll args path)) r) r

def sort (names : List Text) (r : Reach) : Reach :=
  names.filterMap fun n => (r.lookup n).map (n, ·)

end Reach

namespace Hierarchy

/-- Appends a name after its parents, unless it is done. `path` leads from a first name down to this
one; meeting a name on it again closes a cycle. The path never repeats a name, so a `fuel` above
the number of names is not used up. -/
def visit (heads : Text → List Text) :
    Nat → List Text → List Text → Text → Except DefinitionFault (List Text)
  | fuel, path, done, name =>
    if done.contains name then .ok done
    else if path.contains name then .error (.cyclic (path.dropWhile (· ≠ name) ++ [name]))
    else
      match fuel with
      | 0 => .error (.cyclic (path ++ [name]))
      | fuel + 1 => do
        let done ← (heads name).foldlM (visit heads fuel (path ++ [name])) done
        return done ++ [name]

def parentsFirst (heads : Text → List Text) (names : List Text) :
    Except DefinitionFault (List Text) :=
  names.foldlM (visit heads (names.length + 1) []) []

/-- What one type reaches, given what its parents reach: first itself, then parent by parent. -/
def reachOf (table : List (Text × Reach)) (d : Declaration)
    (edges : List (Text × List Template)) : Reach :=
  edges.foldl (fun r (parent, args) => r.addParent args ((table.lookup parent).getD []))
    [(d.name, [Template.slots d.arity])]

def insertByPlace (names : List Text) (name : Text) : List Text → List Text
  | [] => [name]
  | first :: rest =>
    if names.idxOf name ≤ names.idxOf first then name :: first :: rest
    else first :: insertByPlace names name rest

def sortByPlace (names items : List Text) : List Text :=
  items.foldr (insertByPlace names) []

/-- What is known of types while they are linked one by one. -/
structure Tables where
  reach : List (Text × Reach) := []
  children : Table Text := []
  descendants : Table Text := []

/-- Extends the tables by one type whose parents are linked. A parent that is named twice has the
child once. -/
def linkOne (decls : List Declaration) (edges : List (Text × List (Text × List Template)))
    (t : Tables) (name : Text) : Tables :=
  match Declaration.find? decls name with
  | some d =>
    let names := decls.map (·.name)
    let parents := (edges.lookup name).getD []
    let reach := (reachOf t.reach d parents).sort names
    let ancestors := (reach.map (·.1)).filter (· ≠ name)
    { reach := t.reach ++ [(name, reach)]
      children := t.children.alterAll (parents.map (·.1)) (addNew · name)
      descendants :=
        t.descendants.alterAll ancestors fun below => sortByPlace names (below ++ [name]) }
  | none => t

def Tables.entry (t : Tables) (edges : List (Text × List (Text × List Template)))
    (d : Declaration) : Entry where
  decl := d
  edges := (edges.lookup d.name).getD []
  reach := (t.reach.lookup d.name).getD []
  children := t.children.get d.name
  descendants := t.descendants.get d.name

def link (decls : List Declaration) (edges : List (Text × List (Text × List Template)))
    (order : List Text) : Hierarchy where
  entries := decls.map ((order.foldl (linkOne decls edges) {}).entry edges)
  order := order

def ofDeclarations (decls : List Declaration) : Except DefinitionFault Hierarchy := do
  let edges ← decls.mapM fun d => do return (d.name, ← d.edges decls)
  let heads := fun name => ((edges.lookup name).getD []).map (·.1)
  let order ← parentsFirst heads (decls.map (·.name))
  return link decls edges order

def ofDefinition : Definition → Except DefinitionFault Hierarchy
  | .mapping entries => do ofDeclarations (← Declaration.readEntries [] entries)
  | .other _ => .error .notMapping

end Hierarchy

end TypedBlocks
