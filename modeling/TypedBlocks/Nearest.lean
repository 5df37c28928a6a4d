import TypedBlocks.Subtype

/-! Nearest common ancestors and descendants of types. Heads are chosen first; then the parameters
are combined position by position, covariant ones in the same direction and contravariant ones in
the other, and of all candidates the nearest are kept.

As with the flow of types, the steps are written over any monad in which the questions about
parameters can be put. -/
namespace TypedBlocks

namespace Nearest

/-- Some other candidate is nearer than the one at place `i`. Of two that are equally near, the one
with fewer wildcards counts as nearer, then the earlier one. -/
def isBeaten {m : Type → Type} [Monad m] (nearer : TypeExpr → TypeExpr → m Bool)
    (t : TypeExpr) (i : Nat) : List (TypeExpr × Nat) → m Bool
  | [] => pure false
  | (other, j) :: rest => do
    if i = j then isBeaten nearer t i rest
    else if !(← nearer other t) then isBeaten nearer t i rest
    else if !(← nearer t other) then return true
    else if other.stars < t.stars ∨ (other.stars = t.stars ∧ j < i) then return true
    else isBeaten nearer t i rest

def survivors {m : Type → Type} [Monad m] (nearer : TypeExpr → TypeExpr → m Bool)
    (all : List (TypeExpr × Nat)) : List (TypeExpr × Nat) → m (List TypeExpr)
  | [] => pure []
  | (t, i) :: rest => do
    let beaten ← isBeaten nearer t i all
    let kept ← survivors nearer all rest
    return if beaten then kept else t :: kept

end Nearest

/-- The candidates that no other is nearer than; `nearer a b` says that `a` is at least as near as
`b`. -/
def keepNearest {m : Type → Type} [Monad m] (nearer : TypeExpr → TypeExpr → m Bool)
    (candidates : List TypeExpr) : m (List TypeExpr) :=
  Nearest.survivors nearer candidates.zipIdx candidates.zipIdx

/-- All ways to take one item of each list, the last list varying fastest. -/
def choices {α : Type} : List (List α) → List (List α)
  | [] => [[]]
  | options :: rest => options.flatMap fun x => (choices rest).map (x :: ·)

namespace Hierarchy

variable {m : Type → Type} [Monad m]

/-- The lowest names that all given names reach, in declaration order. -/
def commonAncestorNames (h : Hierarchy) (names : List Text) : Except Fault (List Text) := do
  if names.isEmpty then return []
  let types ← names.mapM h.get
  let common := h.entries.filter fun e => types.all (·.reaches e.name)
  return (common.filter fun e => !common.any (·.hasAncestor e.name)).map (·.name)

/-- The names of those entries that are descendants of no other entry. -/
def highest (entries : List Entry) : List Text :=
  (entries.filter fun e => !entries.any fun other =>
    other.name ≠ e.name && other.hasDescendant e.name).map (·.name)

/-- The highest names that reach all given names, in declaration order. -/
def commonDescendantNames (h : Hierarchy) (names : List Text) : List Text :=
  if names.isEmpty then [] else highest (h.entries.filter fun e => names.all e.reaches)

/-- The one type that all entries of an invariant position agree on, if there is one. Of agreeing
types the first with the fewest wildcards stands for all. -/
def agreedOption (column : List TypeExpr) : List TypeExpr :=
  match column.filter (!·.isWildcard) with
  | [] => [.wildcard]
  | t :: ts =>
    let best := ts.foldl (fun best u => if u.stars < best.stars then u else best) t
    if (t :: ts).all best.agrees then [best] else []

def ancestorPosition (up down : List TypeExpr → m (List TypeExpr)) (variance : Variance)
    (column : List TypeExpr) : m (List TypeExpr) :=
  match variance with
  | .co => up column
  | .contra => down column
  | .inv => pure (agreedOption column)

/-- The options for each parameter of a common ancestor. There are none at all once a position has
none. Each row holds the parameters of one type. -/
def ancestorOptions (up down : List TypeExpr → m (List TypeExpr)) :
    List Param → List (List TypeExpr) → m (Option (List (List TypeExpr)))
  | [], _ => pure (some [])
  | p :: ps, rows => do
    let position ← ancestorPosition up down p.variance (rows.filterMap (·.head?))
    if position.isEmpty then return none
    let rest ← ancestorOptions up down ps (rows.map (·.tail))
    return rest.map (position :: ·)

/-- The options for one parameter of a common descendant. A position that nothing determines is
left open, and every determining entry is an option besides the combined ones. -/
def descendantPosition (up down : List TypeExpr → m (List TypeExpr)) (variance : Variance)
    (column : List TypeExpr) : m (List TypeExpr) :=
  if column.isEmpty then pure [.wildcard]
  else
    match variance with
    | .co => do return ((← down column) ++ column).eraseDups
    | .contra => do return ((← up column) ++ column).eraseDups
    | .inv => pure column.eraseDups

def descendantOptions (up down : List TypeExpr → m (List TypeExpr)) :
    List Param → List (List (Option TypeExpr)) → m (List (List TypeExpr))
  | [], _ => pure []
  | p :: ps, rows => do
    let position ←
      descendantPosition up down p.variance (rows.filterMap fun row => row.head?.join)
    let rest ← descendantOptions up down ps (rows.map (·.tail))
    return position :: rest

def fulfillAll (relation : TypeExpr → TypeExpr → m Bool) (types : List TypeExpr) :
    List TypeExpr → m (List TypeExpr)
  | [] => pure []
  | c :: cs => do
    let fits ← types.allM (relation c)
    let rest ← fulfillAll relation types cs
    return if fits then c :: rest else rest

variable [MonadLiftT (Except Fault) m]

def ancestorsAt (h : Hierarchy) (up down : List TypeExpr → m (List TypeExpr))
    (types : List TypeExpr) (head : Text) : m (List TypeExpr) := do
  let rows ← liftM (types.mapM fun t => do return (← h.paramsFor t head).getD [])
  let e ← liftM (h.get head)
  match ← ancestorOptions up down e.params rows with
  | none => return []
  | some options => return (choices options).map (⟨head, ·⟩)

def descendantsAt (h : Hierarchy) (relation : TypeExpr → TypeExpr → m Bool)
    (up down : List TypeExpr → m (List TypeExpr)) (types : List TypeExpr) (head : Text) :
    m (List TypeExpr) := do
  let rows ← liftM (types.mapM fun t => do
    return (← h.paramsBelow t.name head t.params).getD [])
  let e ← liftM (h.get head)
  let options ← descendantOptions up down e.params rows
  fulfillAll relation types ((choices options).map (⟨head, ·⟩))

def ancestorsBy (h : Hierarchy) (relation : TypeExpr → TypeExpr → m Bool)
    (up down : List TypeExpr → m (List TypeExpr)) (types : List TypeExpr) :
    m (List TypeExpr) :=
  if types.isEmpty then pure []
  else
    match types.filter (!·.isWildcard) with
    | [] => pure [.wildcard]
    | [t] => pure [t]
    | concrete => do
      let heads ← liftM (h.commonAncestorNames (concrete.map (·.name)))
      let found ← heads.mapM (h.ancestorsAt up down concrete)
      keepNearest relation found.flatten.eraseDups

def descendantsBy (h : Hierarchy) (relation : TypeExpr → TypeExpr → m Bool)
    (up down : List TypeExpr → m (List TypeExpr)) (types : List TypeExpr) :
    m (List TypeExpr) :=
  if types.isEmpty then pure []
  else
    match types.filter (!·.isWildcard) with
    | [] => pure [.wildcard]
    | [t] => pure [t]
    | concrete => do
      let heads := h.commonDescendantNames (concrete.map (·.name))
      let found ← heads.mapM (h.descendantsAt relation up down concrete)
      keepNearest (fun a b => relation b a) found.flatten.eraseDups

mutual

def ancestorsWithin (h : Hierarchy) : Nat → List TypeExpr → Except Fault (List TypeExpr)
  | 0, _ => .error .unending
  | depth + 1, types =>
    h.ancestorsBy (h.subtypeWithin depth) (h.ancestorsWithin depth) (h.descendantsWithin depth)
      types

def descendantsWithin (h : Hierarchy) : Nat → List TypeExpr → Except Fault (List TypeExpr)
  | 0, _ => .error .unending
  | depth + 1, types =>
    h.descendantsBy (h.subtypeWithin depth) (h.ancestorsWithin depth) (h.descendantsWithin depth)
      types

end

def commonAncestors (h : Hierarchy) (types : List TypeExpr) : Except Fault (List TypeExpr) :=
  h.ancestorsWithin (allowance + TypeExpr.sizeAll types) types

def commonDescendants (h : Hierarchy) (types : List TypeExpr) : Except Fault (List TypeExpr) :=
  h.descendantsWithin (allowance + TypeExpr.sizeAll types) types

end Hierarchy

end TypedBlocks
