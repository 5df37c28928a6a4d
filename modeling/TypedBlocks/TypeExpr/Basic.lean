import TypedBlocks.Text.Case
import TypedBlocks.Text.Quoted

/-! Type expressions: a name applied to parameters. -/
namespace TypedBlocks

structure TypeExpr where
  name : Text
  params : List TypeExpr := []
  deriving Inhabited, Repr

namespace TypeExpr

mutual

def decEq : (a b : TypeExpr) → Decidable (a = b)
  | ⟨n, ps⟩, ⟨m, qs⟩ =>
    if hn : n = m then
      match decEqList ps qs with
      | isTrue h => isTrue (by rw [hn, h])
      | isFalse h => isFalse (by simp [h])
    else isFalse (by simp [hn])

def decEqList : (as bs : List TypeExpr) → Decidable (as = bs)
  | [], [] => isTrue rfl
  | [], _ :: _ => isFalse (by simp)
  | _ :: _, [] => isFalse (by simp)
  | a :: as, b :: bs =>
    match decEq a b with
    | isTrue h =>
      match decEqList as bs with
      | isTrue hs => isTrue (by rw [h, hs])
      | isFalse hs => isFalse (by simp [hs])
    | isFalse h => isFalse (by simp [h])

end

instance : DecidableEq TypeExpr := decEq

/-- Names are kept in lower case. -/
def of (name : Text) (params : List TypeExpr) : TypeExpr :=
  ⟨Text.lower name, params⟩

/-- The name of the wildcard, which is compatible with every type. -/
def star : Text := "*"

def wildcard : TypeExpr := ⟨star, []⟩

def isWildcard (t : TypeExpr) : Bool :=
  t.name == star && t.params.isEmpty

mutual

/-- The expression and all expressions inside it, outermost first. -/
def walk : TypeExpr → List TypeExpr
  | ⟨n, ps⟩ => ⟨n, ps⟩ :: walkAll ps

def walkAll : List TypeExpr → List TypeExpr
  | [] => []
  | p :: ps => walk p ++ walkAll ps

end

mutual

def size : TypeExpr → Nat
  | ⟨_, ps⟩ => sizeAll ps + 1

def sizeAll : List TypeExpr → Nat
  | [] => 0
  | p :: ps => size p + sizeAll ps

end

def mentions (t : TypeExpr) (name : Text) : Bool :=
  t.walk.any (·.name == name)

def mentionsAnyCase (t : TypeExpr) (name : Text) : Bool :=
  t.mentions (Text.lower name)

def occurrences (t : TypeExpr) (name : Text) : Nat :=
  t.walk.countP (·.name == name)

def stars (t : TypeExpr) : Nat :=
  t.occurrences star

mutual

def substitute (assignment : List (Text × TypeExpr)) : TypeExpr → TypeExpr
  | ⟨n, []⟩ => (assignment.lookup n).getD ⟨n, []⟩
  | ⟨n, p :: ps⟩ => ⟨n, substitute assignment p :: substituteAll assignment ps⟩

def substituteAll (assignment : List (Text × TypeExpr)) : List TypeExpr → List TypeExpr
  | [] => []
  | p :: ps => substitute assignment p :: substituteAll assignment ps

end

mutual

def render : TypeExpr → Text
  | ⟨n, []⟩ => n
  | ⟨n, p :: ps⟩ => n ++ "[" ++ render p ++ renderMore ps ++ "]"

def renderMore : List TypeExpr → Text
  | [] => ""
  | p :: ps => ", " ++ render p ++ renderMore ps

end

mutual

/-- The same tree, where the wildcard stands for any tree. -/
def agrees : TypeExpr → TypeExpr → Bool
  | ⟨n, ps⟩, ⟨m, qs⟩ =>
    isWildcard ⟨n, ps⟩ || isWildcard ⟨m, qs⟩ || (n == m && agreeAll ps qs)

def agreeAll : List TypeExpr → List TypeExpr → Bool
  | [], [] => true
  | p :: ps, q :: qs => agrees p q && agreeAll ps qs
  | _, _ => false

end

/-! ### How an expression is built up -/

/-- A list in round brackets; a single item is followed by a comma. -/
def tupleText : List Text → Text
  | [] => "()"
  | [item] => "(" ++ item ++ ",)"
  | items => "(" ++ Text.intercalate ", " items ++ ")"

mutual

def describe : TypeExpr → Text
  | ⟨name, params⟩ =>
    "TypeStructure(name=" ++ Text.quoted name ++ ", params=" ++
      tupleText (describeAll params) ++ ")"

def describeAll : List TypeExpr → List Text
  | [] => []
  | p :: ps => describe p :: describeAll ps

end

end TypeExpr

end TypedBlocks
