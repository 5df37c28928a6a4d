import TypedBlocks.Fault

/-! Declarations of types, and how they are read from the entries of a definition. The variance of a
parameter says how its subtyping feeds the subtyping of the type. -/
namespace TypedBlocks

open Json (Value)

inductive Variance where
  | co
  | contra
  | inv
  deriving DecidableEq, Repr

namespace Variance

def name : Variance → String
  | .co => "co"
  | .contra => "contra"
  | .inv => "inv"

/-- Only the first letters count, in either case. -/
def ofText? (s : Text) : Option Variance :=
  let s := s.lower
  if s.startsWith "inv" then some .inv
  else if s.startsWith "contra" then some .contra
  else if s.startsWith "co" then some .co
  else none

def ofValue? : Json.Value → Option Variance
  | .text s => ofText? s
  | _ => none

end Variance

structure Param where
  name : Text
  variance : Variance
  deriving DecidableEq, Repr

structure Declaration where
  name : Text
  params : List Param
  parents : List TypeExpr
  deriving DecidableEq, Repr

namespace Declaration

def arity (d : Declaration) : Nat :=
  d.params.length

def paramIndex? (d : Declaration) (name : Text) : Option Nat :=
  d.params.findIdx? (·.name == name)

def readName : Value → Except DefinitionFault Text
  | .text s =>
    if !TypeExpr.isNameText s then .error (.badTypeName (.text s))
    else if s = TypeExpr.star then .error .reservedTypeName
    else .ok (Text.lower s)
  | v => .error (.badTypeName v)

def readVariance (v : Value) (type param : Option Text) : Except DefinitionFault Variance :=
  match Variance.ofValue? v with
  | some variance => .ok variance
  | none => .error (.badVariance v type param)

def readParamName (type : Text) (seen : List Text) : Value → Except DefinitionFault Text
  | .text s =>
    if !TypeExpr.isNameText s then .error (.badParamName type (.text s))
    else
      let name := Text.lower s
      if name = TypeExpr.star then .error (.reservedParamName type)
      else if seen.contains name then .error (.repeatedParam type name)
      else .ok name
  | v => .error (.badParamName type v)

def readParam (type : Text) (seen : List Text) : Value → Except DefinitionFault Param
  | .object fields => do
    let name ← readParamName type seen (Value.field fields "name")
    let variance ← readVariance (Value.field fields "variance") (some type) (some name)
    return ⟨name, variance⟩
  | v => .error (.badParam type v)

def readParamItems (type : Text) (seen : List Text) :
    List Value → Except DefinitionFault (List Param)
  | [] => .ok []
  | v :: vs => do
    let p ← readParam type seen v
    let ps ← readParamItems type (p.name :: seen) vs
    return p :: ps

/-- The items of a list; a value that counts as nothing is an empty list. -/
def readItems (fault : DefinitionFault) : Value → Except DefinitionFault (List Value)
  | .list items => .ok items
  | v => if v.isVoid then .ok [] else .error fault

def readParent (type : Text) (v : Value) : Except DefinitionFault TypeExpr :=
  match TypeExpr.ofValue v with
  | .ok t => .ok t
  | .error fault => .error (.badParent type fault)

def readBody (type : Text) : Value → Except DefinitionFault (List (Text × Value))
  | .object fields => .ok fields
  | v => if v.isVoid then .ok [] else .error (.bodyNotMapping type)

def read (name : Text) (v : Value) : Except DefinitionFault Declaration := do
  let fields ← readBody name v
  let params ← readItems (.paramsNotList name) (Value.field fields "params")
  let params ← readParamItems name [] params
  let parents ← readItems (.parentsNotList name) (Value.field fields "fulfills")
  let parents ← parents.mapM (readParent name)
  return ⟨name, params, parents⟩

/-- Reads the entries in order; `seen` holds the names of those before. -/
def readEntries (seen : List Text) :
    List (Value × Value) → Except DefinitionFault (List Declaration)
  | [] => .ok []
  | (key, v) :: entries => do
    let name ← readName key
    if seen.contains name then .error (.repeatedType name)
    else
      let d ← read name v
      let ds ← readEntries (name :: seen) entries
      return d :: ds

end Declaration

end TypedBlocks
