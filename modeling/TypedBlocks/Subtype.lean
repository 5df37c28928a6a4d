import TypedBlocks.Hierarchy.Basic

/-! The subtype relation. A type is seen as an instance of the other's head along each path, and its
parameters are compared position by position as the head's variances say. -/
namespace TypedBlocks

variable {m : Type → Type} [Monad m]

/-- Compares parameters by their variances, given the relation on types. Surplus entries of the
longer lists are not looked at. -/
def fitByVariance (relation : TypeExpr → TypeExpr → m Bool) :
    List Param → List TypeExpr → List TypeExpr → m Bool
  | p :: ps, a :: as, b :: bs => do
    let fits ←
      match p.variance with
      | .co => relation a b
      | .contra => relation b a
      | .inv => pure (a.agrees b)
    if fits then fitByVariance relation ps as bs else pure false
  | _, _, _ => pure true

namespace Hierarchy

def compareBy [MonadLiftT (Except Fault) m] (h : Hierarchy)
    (relation : TypeExpr → TypeExpr → m Bool) (sub sup : TypeExpr) : m Bool :=
  if sub.isWildcard || sup.isWildcard then pure true
  else do
    let above ← liftM (h.get sup.name)
    let views ← liftM (h.allParamsFor sub sup.name)
    views.anyM fun params => fitByVariance relation above.params params sup.params

/-- Decides subtyping with at most `depth` nested comparisons. -/
def subtypeWithin (h : Hierarchy) : Nat → TypeExpr → TypeExpr → Except Fault Bool
  | 0, _, _ => .error .unending
  | depth + 1, sub, sup => h.compareBy (h.subtypeWithin depth) sub sup

/-- How many comparisons may be nested beyond those that the size of the types accounts for. A
parent applied to larger and larger types can need any number of them. -/
def allowance : Nat := 1000

def isSubtype (h : Hierarchy) (sub sup : TypeExpr) : Except Fault Bool :=
  h.subtypeWithin (allowance + sub.size + sup.size) sub sup

def isStrictSubtype (h : Hierarchy) (sub sup : TypeExpr) : Except Fault Bool := do
  if ← h.isSubtype sub sup then return !(← h.isSubtype sup sub) else return false

end Hierarchy

end TypedBlocks
