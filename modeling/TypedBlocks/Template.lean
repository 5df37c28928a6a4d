import TypedBlocks.TypeExpr.Basic

/-! Type expressions over numbered slots, which stand for the parameters of some declared type. -/
namespace TypedBlocks

inductive Template where
  | slot (index : Nat)
  | app (name : Text) (args : List Template)
  deriving Inhabited, Repr

namespace Template

mutual

def decEq : (a b : Template) → Decidable (a = b)
  | .slot i, .slot j => if h : i = j then isTrue (by rw [h]) else isFalse (by simp [h])
  | .slot _, .app _ _ => isFalse (by simp)
  | .app _ _, .slot _ => isFalse (by simp)
  | .app n ps, .app m qs =>
    if hn : n = m then
      match decEqList ps qs with
      | isTrue h => isTrue (by rw [hn, h])
      | isFalse h => isFalse (by simp [h])
    else isFalse (by simp [hn])

def decEqList : (as bs : List Template) → Decidable (as = bs)
  | [], [] => isTrue rfl
  | [], _ :: _ => isFalse (by simp)
  | _ :: _, [] => isFalse (by simp)
  | a :: as, b :: bs =>
    match decEq a b with
    | isTrue h =>
      match decEqList as bs with
      | isTrue hs => isTrue (by rw [h, hs])
      | isFalse hs => isFalse (by simp [hs])
    | isFalse h => isFalse (by simp [h])

end

instance : DecidableEq Template := decEq

/-- What an unfilled slot looks like. No type expression read from a text has such a name. -/
def slotLeaf (index : Nat) : TypeExpr :=
  ⟨"[" ++ Text.ofNat index ++ "]", []⟩

mutual

def fill (actuals : List TypeExpr) : Template → TypeExpr
  | .slot i => actuals.getD i (slotLeaf i)
  | .app n args => ⟨n, fillAll actuals args⟩

def fillAll (actuals : List TypeExpr) : List Template → List TypeExpr
  | [] => []
  | t :: ts => fill actuals t :: fillAll actuals ts

end

mutual

def plug (args : List Template) : Template → Template
  | .slot i => args.getD i (.slot i)
  | .app n ts => .app n (plugAll args ts)

def plugAll (args : List Template) : List Template → List Template
  | [] => []
  | t :: ts => plug args t :: plugAll args ts

end

def slots (arity : Nat) : List Template :=
  (List.range arity).map .slot

def bindSlot (bindings : List (Option TypeExpr)) (index : Nat) (t : TypeExpr) :
    List (Option TypeExpr) :=
  match bindings[index]? with
  | some none => bindings.set index (some t)
  | _ => bindings

mutual

/-- Reads off what the slots must stand for to make the template the actual type. The first entry
of a slot wins; a wildcard, or a part that does not line up, says nothing. -/
def unfill (bindings : List (Option TypeExpr)) : Template → TypeExpr → List (Option TypeExpr)
  | .slot i, actual => if actual.isWildcard then bindings else bindSlot bindings i actual
  | .app n ts, actual =>
    if actual.isWildcard || n ≠ actual.name || ts.length ≠ actual.params.length then bindings
    else unfillAll bindings ts actual.params

def unfillAll (bindings : List (Option TypeExpr)) :
    List Template → List TypeExpr → List (Option TypeExpr)
  | t :: ts, actual :: actuals => unfillAll (unfill bindings t actual) ts actuals
  | _, _ => bindings

end

end Template

end TypedBlocks
