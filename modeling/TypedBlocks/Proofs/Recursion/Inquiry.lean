import TypedBlocks.Nearest
import TypedBlocks.Proofs.Outcome

/-! Comparisons and nearest common types as one recursion. Each of the three puts questions about
parameters; the questions of one step are kept apart from the way they are answered, and answering
them with one level less is what the step of the recursion does. -/
namespace TypedBlocks

inductive Call where
  | subtype (sub sup : TypeExpr)
  | ancestors (types : List TypeExpr)
  | descendants (types : List TypeExpr)

abbrev Call.Answer : Call → Type
  | .subtype _ _ => Bool
  | .ancestors _ => List TypeExpr
  | .descendants _ => List TypeExpr

/-- A computation that puts questions and goes on from their answers. -/
inductive Inquiry (α : Type) where
  | done (result : Except Fault α)
  | ask (call : Call) (next : call.Answer → Inquiry α)

namespace Inquiry

variable {α β : Type}

protected def bind (x : Inquiry α) (f : α → Inquiry β) : Inquiry β :=
  match x with
  | .done (.ok a) => f a
  | .done (.error fault) => .done (.error fault)
  | .ask call next => .ask call fun answer => (next answer).bind f

instance : Monad Inquiry where
  pure a := .done (.ok a)
  bind := Inquiry.bind

instance : MonadLift (Except Fault) Inquiry :=
  ⟨.done⟩

theorem bind_pure_self (x : Inquiry α) : x.bind (fun a => .done (.ok a)) = x := by
  induction x with
  | done result => cases result <;> rfl
  | ask call next ih =>
    simp only [Inquiry.bind]
    congr 1
    exact funext ih

theorem bind_bind {γ : Type} (x : Inquiry α) (f : α → Inquiry β) (g : β → Inquiry γ) :
    (x.bind f).bind g = x.bind fun a => (f a).bind g := by
  induction x with
  | done result => cases result <;> rfl
  | ask call next ih =>
    simp only [Inquiry.bind]
    congr 1
    exact funext ih

instance : LawfulMonad Inquiry :=
  LawfulMonad.mk' Inquiry bind_pure_self (fun _ _ => rfl) bind_bind

def eval (answer : (call : Call) → Except Fault call.Answer) : Inquiry α → Except Fault α
  | .done result => result
  | .ask call next => answer call >>= fun a => (next a).eval answer

variable {answer : (call : Call) → Except Fault call.Answer}

@[simp]
theorem eval_pure (a : α) : (pure a : Inquiry α).eval answer = pure a := rfl

@[simp]
theorem eval_liftM (result : Except Fault α) :
    (liftM result : Inquiry α).eval answer = result := rfl

@[simp]
theorem eval_bind (x : Inquiry α) (f : α → Inquiry β) :
    (x >>= f).eval answer = x.eval answer >>= fun a => (f a).eval answer := by
  change (x.bind f).eval answer = _
  induction x with
  | done result => cases result <;> rfl
  | ask call next ih =>
    simp only [Inquiry.bind, eval, bind_assoc]
    congr 1
    exact funext ih

@[simp]
theorem eval_map (f : α → β) (x : Inquiry α) :
    (f <$> x).eval answer = f <$> x.eval answer := by
  rw [map_eq_pure_bind, map_eq_pure_bind, eval_bind]
  rfl

@[simp]
theorem eval_mapM (f : α → Inquiry β) (xs : List α) :
    (xs.mapM f).eval answer = xs.mapM fun x => (f x).eval answer := by
  induction xs with
  | nil => simp
  | cons x xs ih => simp [ih]

@[simp]
theorem eval_anyM (f : α → Inquiry Bool) (xs : List α) :
    (xs.anyM f).eval answer = xs.anyM fun x => (f x).eval answer := by
  induction xs with
  | nil => rfl
  | cons x xs ih =>
    simp only [List.anyM, eval_bind]
    congr 1
    funext found
    cases found with
    | true => rfl
    | false => exact ih

@[simp]
theorem eval_allM (f : α → Inquiry Bool) (xs : List α) :
    (xs.allM f).eval answer = xs.allM fun x => (f x).eval answer := by
  induction xs with
  | nil => rfl
  | cons x xs ih =>
    simp only [List.allM, eval_bind]
    congr 1
    funext holds
    cases holds with
    | true => exact ih
    | false => rfl

def put (call : Call) : Inquiry call.Answer :=
  .ask call fun answer => .done (.ok answer)

@[simp]
theorem eval_put (call : Call) : (put call).eval answer = answer call :=
  bind_pure (answer call)

end Inquiry

section Steps

variable {answer : (call : Call) → Except Fault call.Answer}
  {relation : TypeExpr → TypeExpr → Inquiry Bool}
  {up down : List TypeExpr → Inquiry (List TypeExpr)}

@[simp]
theorem eval_fitByVariance (ps : List Param) (as bs : List TypeExpr) :
    (fitByVariance relation ps as bs).eval answer =
      fitByVariance (fun a b => (relation a b).eval answer) ps as bs := by
  induction ps generalizing as bs with
  | nil => rfl
  | cons p ps ih =>
    cases as with
    | nil => rfl
    | cons a as =>
      cases bs with
      | nil => rfl
      | cons b bs =>
        simp only [fitByVariance]
        cases p.variance <;>
        · simp only [Inquiry.eval_bind, Inquiry.eval_pure]
          congr 1
          funext fits
          cases fits with
          | true => exact ih as bs
          | false => rfl

@[simp]
theorem eval_isBeaten (t : TypeExpr) (i : Nat) (others : List (TypeExpr × Nat)) :
    (Nearest.isBeaten relation t i others).eval answer =
      Nearest.isBeaten (fun a b => (relation a b).eval answer) t i others := by
  induction others with
  | nil => rfl
  | cons other rest ih =>
    simp only [Nearest.isBeaten, apply_ite (Inquiry.eval answer), Inquiry.eval_bind,
      Inquiry.eval_pure, ih]

@[simp]
theorem eval_survivors (all candidates : List (TypeExpr × Nat)) :
    (Nearest.survivors relation all candidates).eval answer =
      Nearest.survivors (fun a b => (relation a b).eval answer) all candidates := by
  induction candidates with
  | nil => rfl
  | cons candidate rest ih =>
    simp only [Nearest.survivors, Inquiry.eval_bind, eval_isBeaten, ih, Inquiry.eval_pure]

@[simp]
theorem eval_keepNearest (candidates : List TypeExpr) :
    (keepNearest relation candidates).eval answer =
      keepNearest (fun a b => (relation a b).eval answer) candidates :=
  eval_survivors _ _

namespace Hierarchy

variable (h : Hierarchy)

@[simp]
theorem eval_compareBy (sub sup : TypeExpr) :
    (h.compareBy relation sub sup).eval answer =
      h.compareBy (fun a b => (relation a b).eval answer) sub sup := by
  simp only [compareBy, apply_ite (Inquiry.eval answer), Inquiry.eval_bind, Inquiry.eval_liftM,
    Inquiry.eval_pure, Inquiry.eval_anyM, eval_fitByVariance]
  rfl

@[simp]
theorem eval_ancestorPosition (v : Variance) (column : List TypeExpr) :
    (ancestorPosition up down v column).eval answer =
      ancestorPosition (fun ts => (up ts).eval answer) (fun ts => (down ts).eval answer) v
        column := by
  cases v <;> rfl

@[simp]
theorem eval_ancestorOptions (ps : List Param) (rows : List (List TypeExpr)) :
    (ancestorOptions up down ps rows).eval answer =
      ancestorOptions (fun ts => (up ts).eval answer) (fun ts => (down ts).eval answer) ps
        rows := by
  induction ps generalizing rows with
  | nil => rfl
  | cons p ps ih =>
    simp only [ancestorOptions, apply_ite (Inquiry.eval answer), Inquiry.eval_bind,
      eval_ancestorPosition, Inquiry.eval_pure, ih]

@[simp]
theorem eval_descendantPosition (v : Variance) (column : List TypeExpr) :
    (descendantPosition up down v column).eval answer =
      descendantPosition (fun ts => (up ts).eval answer) (fun ts => (down ts).eval answer) v
        column := by
  cases v <;>
    simp only [descendantPosition, apply_ite (Inquiry.eval answer), Inquiry.eval_bind,
      Inquiry.eval_pure]

@[simp]
theorem eval_descendantOptions (ps : List Param) (rows : List (List (Option TypeExpr))) :
    (descendantOptions up down ps rows).eval answer =
      descendantOptions (fun ts => (up ts).eval answer) (fun ts => (down ts).eval answer) ps
        rows := by
  induction ps generalizing rows with
  | nil => rfl
  | cons p ps ih =>
    simp only [descendantOptions, Inquiry.eval_bind, eval_descendantPosition, Inquiry.eval_pure,
      ih]

@[simp]
theorem eval_fulfillAll (types candidates : List TypeExpr) :
    (fulfillAll relation types candidates).eval answer =
      fulfillAll (fun a b => (relation a b).eval answer) types candidates := by
  induction candidates with
  | nil => rfl
  | cons c cs ih =>
    simp only [fulfillAll, Inquiry.eval_bind, Inquiry.eval_allM, Inquiry.eval_pure, ih]

@[simp]
theorem eval_ancestorsAt (types : List TypeExpr) (head : Text) :
    (h.ancestorsAt up down types head).eval answer =
      h.ancestorsAt (fun ts => (up ts).eval answer) (fun ts => (down ts).eval answer) types
        head := by
  simp only [ancestorsAt, Inquiry.eval_bind, Inquiry.eval_liftM, eval_ancestorOptions]
  refine bind_congr fun rows => bind_congr fun e => bind_congr fun options => ?_
  cases options <;> rfl

@[simp]
theorem eval_descendantsAt (types : List TypeExpr) (head : Text) :
    (h.descendantsAt relation up down types head).eval answer =
      h.descendantsAt (fun a b => (relation a b).eval answer) (fun ts => (up ts).eval answer)
        (fun ts => (down ts).eval answer) types head := by
  simp only [descendantsAt, Inquiry.eval_bind, Inquiry.eval_liftM, eval_descendantOptions,
    eval_fulfillAll]
  rfl

@[simp]
theorem eval_ancestorsBy (types : List TypeExpr) :
    (h.ancestorsBy relation up down types).eval answer =
      h.ancestorsBy (fun a b => (relation a b).eval answer) (fun ts => (up ts).eval answer)
        (fun ts => (down ts).eval answer) types := by
  unfold ancestorsBy
  split
  · rfl
  · split
    · rfl
    · rfl
    · simp only [Inquiry.eval_bind, Inquiry.eval_liftM, Inquiry.eval_mapM, eval_ancestorsAt,
        eval_keepNearest]
      rfl

@[simp]
theorem eval_descendantsBy (types : List TypeExpr) :
    (h.descendantsBy relation up down types).eval answer =
      h.descendantsBy (fun a b => (relation a b).eval answer) (fun ts => (up ts).eval answer)
        (fun ts => (down ts).eval answer) types := by
  unfold descendantsBy
  split
  · rfl
  · split
    · rfl
    · rfl
    · simp only [Inquiry.eval_bind, Inquiry.eval_mapM, eval_descendantsAt, eval_keepNearest]

end Hierarchy

end Steps

namespace Hierarchy

/-- One step of the recursion, with the questions it puts left open. -/
def inquire (h : Hierarchy) : (call : Call) → Inquiry call.Answer
  | .subtype sub sup => h.compareBy (fun a b => .put (.subtype a b)) sub sup
  | .ancestors types =>
    h.ancestorsBy (fun a b => .put (.subtype a b)) (fun ts => .put (.ancestors ts))
      (fun ts => .put (.descendants ts)) types
  | .descendants types =>
    h.descendantsBy (fun a b => .put (.subtype a b)) (fun ts => .put (.ancestors ts))
      (fun ts => .put (.descendants ts)) types

def answerWithin (h : Hierarchy) (depth : Nat) : (call : Call) → Except Fault call.Answer
  | .subtype sub sup => h.subtypeWithin depth sub sup
  | .ancestors types => h.ancestorsWithin depth types
  | .descendants types => h.descendantsWithin depth types

theorem answerWithin_zero (h : Hierarchy) (call : Call) :
    h.answerWithin 0 call = .error .unending := by
  cases call <;> simp [answerWithin, subtypeWithin, ancestorsWithin, descendantsWithin]

/-- One level of the recursion answers the questions of a step by the levels below. -/
theorem answerWithin_succ (h : Hierarchy) (depth : Nat) (call : Call) :
    h.answerWithin (depth + 1) call = (h.inquire call).eval (h.answerWithin depth) := by
  have hsub : (fun a b => (Inquiry.put (.subtype a b)).eval (h.answerWithin depth)) =
      h.subtypeWithin depth := by
    funext a b
    exact Inquiry.eval_put (.subtype a b)
  have hup : (fun ts => (Inquiry.put (.ancestors ts)).eval (h.answerWithin depth)) =
      h.ancestorsWithin depth := by
    funext ts
    exact Inquiry.eval_put (.ancestors ts)
  have hdown : (fun ts => (Inquiry.put (.descendants ts)).eval (h.answerWithin depth)) =
      h.descendantsWithin depth := by
    funext ts
    exact Inquiry.eval_put (.descendants ts)
  cases call with
  | subtype sub sup =>
    rw [answerWithin, subtypeWithin, inquire, eval_compareBy, hsub]
  | ancestors types =>
    rw [answerWithin, ancestorsWithin, inquire, eval_ancestorsBy, hsub, hup, hdown]
  | descendants types =>
    rw [answerWithin, descendantsWithin, inquire, eval_descendantsBy, hsub, hup, hdown]

end Hierarchy

end TypedBlocks
