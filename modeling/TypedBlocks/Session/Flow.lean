import TypedBlocks.Nearest
import TypedBlocks.Session.Scene

/-! The flow of types through links. A generic of a block stands for what it is bound to, or else
for what the blocks linked to it say; with nothing to go on it stands for the wildcard. Two
connections may be linked if the child's types fulfill the parent's; where only other inputs say
what the parent's generic is, a common ancestor with them is enough.

The steps are written over any monad in which checks can be read and the generics of other blocks
can be asked for. Asking afresh each time gives the plain recursion; asking a table first gives the
one that is run. -/
namespace TypedBlocks.Scene

def readCheck (s : Scene) (text : Text) : Except Fault TypeExpr :=
  match TypeExpr.parse text with
  | .error fault => .error (.type fault)
  | .ok t => do
    s.validateCheck t
    return t

/-- A monad in which the checks of connections can be read. -/
class ReadsChecks (m : Type → Type) where
  readCheck : Scene → Text → m TypeExpr

/-- Where nothing is kept, a check is read anew each time. -/
instance (priority := low) {m : Type → Type} [MonadLiftT (Except Fault) m] : ReadsChecks m :=
  ⟨fun s text => liftM (s.readCheck text)⟩

variable {m : Type → Type} [Monad m] [MonadLiftT (Except Fault) m]

mutual

/-- All expressions that come from a check by putting in what its generics stand for. -/
def expand (s : Scene) (ask : Text → m (List TypeExpr)) : TypeExpr → m (List TypeExpr)
  | ⟨name, params⟩ =>
    if TypeExpr.isWildcard ⟨name, params⟩ then pure [.wildcard]
    else if s.isGeneric name then ask name
    else do
      let options ← expandAll s ask params
      return ((choices options).map (⟨name, ·⟩)).eraseDups

def expandAll (s : Scene) (ask : Text → m (List TypeExpr)) :
    List TypeExpr → m (List (List TypeExpr))
  | [] => pure []
  | p :: ps => do
    let first ← expand s ask p
    let rest ← expandAll s ask ps
    return first :: rest

end

/-- The parameters of a type as those of another head, above or below it. -/
def paramsUnder (s : Scene) (head : Text) (actual : TypeExpr) :
    Except Fault (Option (List TypeExpr)) := do
  if actual.name = head then return some actual.params
  match ← s.hierarchy.paramsFor actual head with
  | some params => return some params
  | none =>
    let e ← s.hierarchy.get head
    if e.hasAncestor actual.name then
      let below ← s.hierarchy.paramsBelow actual.name head actual.params
      return below.map fun params => params.map (·.getD .wildcard)
    else return none

mutual

/-- The parts of a type that stand where the pattern has the generic. -/
def locate (s : Scene) (generic : Text) :
    TypeExpr → TypeExpr → Except Fault (List TypeExpr)
  | ⟨name, []⟩, actual => .ok (if name = generic then [actual] else [])
  | ⟨name, p :: ps⟩, actual =>
    if !TypeExpr.mentions ⟨name, p :: ps⟩ generic then .ok []
    else if actual.isWildcard then .ok [.wildcard]
    else do
      match ← s.paramsUnder name actual with
      | none => return []
      | some [] => return []
      | some (a :: as) => do
        let first ← locate s generic p a
        let rest ← locateAll s generic ps as
        return first ++ rest

def locateAll (s : Scene) (generic : Text) :
    List TypeExpr → List TypeExpr → Except Fault (List TypeExpr)
  | p :: ps, a :: as => do
    let first ← locate s generic p a
    let rest ← locateAll s generic ps as
    return first ++ rest
  | _, _ => .ok []

end

/-- What the types of a peer say about a generic of a check. Several occurrences in one type have to
agree; a type that does not tell is passed over, and nothing is said if none tells. -/
def gather (s : Scene) (check : TypeExpr) (generic : Text) :
    List TypeExpr → Except Fault (Option (List TypeExpr))
  | [] => .ok none
  | t :: ts => do
    let parts := (← s.locate generic check t).filter (!·.isWildcard)
    if parts.isEmpty then s.gather check generic ts
    else
      let found ← s.hierarchy.commonAncestors parts
      let rest ← s.gather check generic ts
      return some (found ++ rest.getD [])

def join (s : Scene) (as bs : List TypeExpr) : Except Fault (List TypeExpr) := do
  let pairs := as.flatMap fun a => bs.map fun b => [a, b]
  let found ← pairs.mapM s.hierarchy.commonAncestors
  return found.flatten.eraseDups

/-- Joins contributions from the left; once nothing is left, the rest is not looked at. -/
def joinAll (s : Scene) : List TypeExpr → List (List TypeExpr) → Except Fault (List TypeExpr)
  | as, [] => keepNearest s.hierarchy.isSubtype as
  | as, bs :: rest => do
    let joined ← s.join as bs
    if joined.isEmpty then return [] else s.joinAll joined rest

def unify (s : Scene) : List (List TypeExpr) → Except Fault (List TypeExpr)
  | [] => .ok [.wildcard]
  | as :: rest => s.joinAll as rest

def isGenericLeaf (s : Scene) (t : TypeExpr) : Bool :=
  t.params.isEmpty && !t.isWildcard && s.isGeneric t.name

def anyPair (relation : TypeExpr → TypeExpr → Except Fault Bool)
    (children parents : List TypeExpr) : Except Fault Bool :=
  children.anyM fun c => parents.anyM fun p => relation c p

def haveCommonAncestor (s : Scene) (a b : TypeExpr) : Except Fault Bool := do
  return !(← s.hierarchy.commonAncestors [a, b]).isEmpty

section Steps

variable [ReadsChecks m]

/-- The contribution of one connection to a generic of its block, or nothing if it has no say. -/
def contribution (s : Scene) (ask : Nat → Text → Option Nat → m (List TypeExpr)) (c : Nat)
    (generic : Text) : m (Option (List TypeExpr)) := do
  match s.workspace.connection? c with
  | some ⟨_, _, some text, some peer⟩ =>
    match s.workspace.connection? peer with
    | some ⟨block, _, some peerText, _⟩ =>
      let check ← ReadsChecks.readCheck s text
      if !check.mentions generic then return none
      let peerCheck ← ReadsChecks.readCheck s peerText
      let types ← s.expand (ask block · (some peer)) peerCheck
      let said ← liftM (s.gather check generic types)
      return said.map (·.eraseDups)
    | _ => return none
  | _ => return none

def contributions (s : Scene) (ask : Nat → Text → Option Nat → m (List TypeExpr))
    (generic : Text) (skip : Option Nat) : List Nat → m (List (List TypeExpr))
  | [] => pure []
  | c :: cs => do
    if skip = some c then s.contributions ask generic skip cs
    else
      let said ← s.contribution ask c generic
      let rest ← s.contributions ask generic skip cs
      return said.toList ++ rest

/-- What the links of a block, apart from the skipped one, make of a generic. -/
def resolveLinks (s : Scene) (ask : Nat → Text → Option Nat → m (List TypeExpr)) (block : Nat)
    (generic : Text) (skip : Option Nat) : m (List TypeExpr) := do
  let said ← s.contributions ask generic skip (s.workspace.connectionsOf block)
  liftM (s.unify said)

/-! ### Whether two connections may be linked -/

def outerSilent (s : Scene) (ask : Nat → Text → Option Nat → m (List TypeExpr))
    (generic : Text) : List Nat → m Bool
  | [] => pure true
  | c :: cs => do
    if (s.workspace.place? c).any (·.isOuter) then
      match ← s.contribution ask c generic with
      | some _ => return false
      | none => s.outerSilent ask generic cs
    else s.outerSilent ask generic cs

/-- Neither a binding nor an outer connection says what the generic stands for. -/
def boundByInputsOnly (s : Scene) (ask : Nat → Text → Option Nat → m (List TypeExpr))
    (block : Nat) (generic : Text) : m Bool :=
  match s.bindings.find? block generic with
  | some _ => pure false
  | none => s.outerSilent ask generic (s.workspace.connectionsOf block)

/-- The verdict on the checks of a parent and a child connection, each given with its block. Each
side leaves its own connection out of the flow, so that a link between the two does not vouch for
itself. -/
def judge (s : Scene) (ask : Nat → Text → Option Nat → m (List TypeExpr)) (parent above : Nat)
    (parentCheck : TypeExpr) (child below : Nat) (childCheck : TypeExpr) : m Bool := do
  let parents ← s.expand (ask above · (some parent)) parentCheck
  let children ← s.expand (ask below · (some child)) childCheck
  if parents.contains .wildcard || children.contains .wildcard then return true
  if parents.isEmpty || children.isEmpty then return false
  let lenient ←
    if s.isGenericLeaf parentCheck then s.boundByInputsOnly ask above parentCheck.name
    else pure false
  if lenient then liftM (anyPair s.haveCommonAncestor children parents)
  else liftM (anyPair s.hierarchy.isSubtype children parents)

def parentTakes (s : Scene) (ask : Nat → Text → Option Nat → m (List TypeExpr))
    (parent child : Nat) : m Bool := do
  match s.workspace.connection? parent, s.workspace.connection? child with
  | some ⟨above, _, some parentText, _⟩, some ⟨below, _, some childText, _⟩ =>
    let parentCheck ← ReadsChecks.readCheck s parentText
    let childCheck ← ReadsChecks.readCheck s childText
    s.judge ask parent above parentCheck child below childCheck
  | _, _ => return true

/-- The verdict on two connections, the one on the parent side being the parent. -/
def takes (s : Scene) (ask : Nat → Text → Option Nat → m (List TypeExpr)) (a b : Nat) : m Bool :=
  if (s.workspace.place? a).any (·.isParentSide) then s.parentTakes ask a b
  else s.parentTakes ask b a

/-- The check of a connection with its generics replaced by what they stand for. -/
def typesThrough (s : Scene) (ask : Nat → Text → Option Nat → m (List TypeExpr)) (c : Nat) :
    m (List TypeExpr) := do
  match s.workspace.connection? c with
  | some ⟨block, _, some text, _⟩ =>
    let check ← ReadsChecks.readCheck s text
    s.expand (ask block · none) check
  | _ => return [.wildcard]

end Steps

/-! ### The recursion -/

/-- The plain recursion, through at most `depth` links. -/
def resolveWithin (s : Scene) : Nat → Nat → Text → Option Nat → Except Fault (List TypeExpr)
  | 0, _, _, _ => .error .unending
  | depth + 1, block, generic, skip =>
    match s.bindings.find? block generic with
    | some t => .ok [t]
    | none => s.resolveLinks (s.resolveWithin depth) block generic skip

/-- Results by block, generic and skipped connection. -/
abbrev Memo := List ((Nat × Text × Option Nat) × List TypeExpr)

/-- A bound on the depth of any recursion that ends. After the first step each one enters a block
through a connection and asks for a generic of its check, which has no more generics than
characters; a recursion that comes back to the same question never ends. -/
def depth (s : Scene) : Nat :=
  s.workspace.connections.foldl (fun n c => n + (c.check.map (·.length)).getD 0) 2

section Questions

variable [ReadsChecks (StateT Memo m)]

/-- The same recursion with a table of the results so far. -/
def recallIn (s : Scene) : Nat → Nat → Text → Option Nat → StateT Memo m (List TypeExpr)
  | 0, _, _, _ => liftM (Except.error Fault.unending : Except Fault (List TypeExpr))
  | depth + 1, block, generic, skip =>
    match s.bindings.find? block generic with
    | some t => pure [t]
    | none => do
      match (← get).lookup (block, generic, skip) with
      | some types => return types
      | none =>
        let types ← s.resolveLinks (s.recallIn depth) block generic skip
        modify (((block, generic, skip), types) :: ·)
        return types

/-! Each question from outside is put with an empty table. -/

def compatibleIn (s : Scene) (a b : Nat) : m Bool :=
  (s.takes (s.recallIn s.depth) a b).run' []

def typesOfIn (s : Scene) (block : Nat) (generic : Text) : m (List TypeExpr) :=
  (s.recallIn s.depth block generic none).run' []

def typesAtIn (s : Scene) (c : Nat) : m (List TypeExpr) :=
  (s.typesThrough (s.recallIn s.depth) c).run' []

end Questions

/-! The same with every check read anew. -/

abbrev recallWithin (s : Scene) :
    Nat → Nat → Text → Option Nat → StateT Memo (Except Fault) (List TypeExpr) :=
  s.recallIn

abbrev resolve (s : Scene) : Nat → Text → Option Nat → StateT Memo (Except Fault) (List TypeExpr) :=
  s.recallWithin s.depth

def compatible (s : Scene) (a b : Nat) : Except Fault Bool :=
  s.compatibleIn a b

def typesOf (s : Scene) (block : Nat) (generic : Text) : Except Fault (List TypeExpr) :=
  s.typesOfIn block generic

def typesAt (s : Scene) (c : Nat) : Except Fault (List TypeExpr) :=
  s.typesAtIn c

end TypedBlocks.Scene
