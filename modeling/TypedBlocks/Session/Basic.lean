import TypedBlocks.Hierarchy.Query
import TypedBlocks.Session.Flow

/-! A session: a workspace with the hierarchy that vets its links and the bindings made so far. When
a generic of a block is bound to an explicit type, links of the block that no longer fit are ended;
the others are then ended and made again one by one, if the policy says so. -/
namespace TypedBlocks

open Json (Value)

structure Session where
  policy : Policy := {}
  hierarchy : Option Hierarchy := none
  bindings : Bindings := []
  workspace : Workspace := {}
  deriving DecidableEq, Repr

namespace Session

def known (s : Session) : Except Fault Hierarchy :=
  match s.hierarchy with
  | some h => .ok h
  | none => .error .uninitialized

def scene (s : Session) : Except Fault Scene := do
  return ⟨← s.known, s.policy.pattern, s.bindings, s.workspace⟩

/-- Wraps the library's own faults in one that names the connections asked about. -/
def naming {α : Type} (s : Session) (ends : List Nat) : Except Fault α → Except Fault α
  | .ok a => .ok a
  | .error fault =>
    .error (if fault.isReported then .checking (ends.map s.workspace.endpoint) fault else fault)

def verdict (s : Session) (a b : Nat) : Except Fault Bool := do
  (← s.scene).compatible a b

def check (s : Session) (a b : Nat) : Except Fault Bool :=
  s.naming [a, b] (s.verdict a b)

variable {n : Type → Type} [Monad n] (vet : Session → Nat → Nat → n (Except Fault Bool))

def canConnectBy (s : Session) (a b : Nat) : n (Except Fault Bool) := do
  match s.workspace.connection? a, s.workspace.connection? b with
  | some ka, some kb =>
    let paired :=
      if ka.place.isParentSide then ka.place.pairs kb.place else kb.place.pairs ka.place
    if ka.block = kb.block || !paired then return .ok false
    else return s.naming [a, b] (← vet s a b)
  | _, _ => return .ok false

def canConnect (s : Session) (a b : Nat) : Except Fault Bool :=
  s.canConnectBy (n := Id) verdict a b

theorem canConnect_eq (s : Session) (a b : Nat) : s.canConnect a b =
    match s.workspace.connection? a, s.workspace.connection? b with
    | some ka, some kb =>
      let paired :=
        if ka.place.isParentSide then ka.place.pairs kb.place else kb.place.pairs ka.place
      if ka.block = kb.block || !paired then .ok false else s.check a b
    | _, _ => .ok false :=
  rfl

/-- The explicit ones among the types found for a generic. The library's own faults are wrapped in
one that names the block. -/
def explicitOf (s : Session) (block : Nat) (generic : Value) :
    Except Fault (List TypeExpr) → Except Fault (List TypeExpr)
  | .ok types => .ok (types.filter (!·.isWildcard))
  | .error fault =>
    let label : Text := ((s.workspace.block? block).map (·.label)).getD ""
    .error (if fault.isReported then .resolving generic block label fault else fault)

theorem explicitOf_congr {s t : Session} {block : Nat} (generic : Value)
    (found : Except Fault (List TypeExpr))
    (hlabel : (s.workspace.block? block).map (·.label) =
      (t.workspace.block? block).map (·.label)) :
    s.explicitOf block generic found = t.explicitOf block generic found := by
  cases found with
  | ok types => rfl
  | error fault => simp only [explicitOf, hlabel]

def explicitTypes (s : Session) (block : Nat) (generic : Value) : Except Fault (List TypeExpr) :=
  s.explicitOf block generic do
    let scene ← s.scene
    scene.typesOf block (← nameOf generic)

/-- The types of a connection. One without a check has the wildcard for its type. -/
def connectionTypesBy (ask : n (Except Fault (List TypeExpr))) (s : Session) (c : Nat) :
    n (Except Fault (List TypeExpr)) := do
  match (s.workspace.connection? c).bind (·.check) with
  | none => return .ok [.wildcard]
  | some text =>
    match TypeExpr.parse text with
    | .error fault => return s.naming [c] (.error (.type fault))
    | .ok _ => return s.naming [c] (← ask)

def connectionTypes (s : Session) (c : Nat) : Except Fault (List TypeExpr) :=
  let types : Except Fault (List TypeExpr) := do (← s.scene).typesAt c
  s.connectionTypesBy (n := Id) types c

theorem connectionTypes_eq (s : Session) (c : Nat) : s.connectionTypes c =
    s.naming [c] (match (s.workspace.connection? c).bind (·.check) with
      | none => .ok [.wildcard]
      | some text =>
        match TypeExpr.parse text with
        | .error fault => .error (.type fault)
        | .ok _ => do (← s.scene).typesAt c) := by
  unfold connectionTypes connectionTypesBy
  split
  · rfl
  · split <;> rfl

def binding (s : Session) (block : Nat) (generic : Value) : Except Fault (Option TypeExpr) := do
  let _ ← s.known
  return s.bindings.find? block (← nameOf generic)

def typeNames (s : Session) : Except Fault (List Text) := do
  return (← s.known).names

/-! ### Bindings -/

/-- The type a generic is to be bound to. It mentions no generics, and the hierarchy knows it. -/
def readBinding (scene : Scene) (generic : Text) (explicit : Value) : Except Fault TypeExpr :=
  match TypeExpr.ofValue explicit with
  | .error fault => .error (.type fault)
  | .ok t =>
    match t.walk.find? fun node => scene.isGeneric node.name with
    | some node => .error (.binding generic explicit (.generic node.name))
    | none => do
      scene.hierarchy.validate t
      return t

/-- The name and the type of a binding that may be made. That the wildcard cannot be bound is known
without a hierarchy. -/
def admitBinding (s : Session) (generic explicit : Value) : Except Fault (Text × TypeExpr) := do
  let name ← nameOf generic
  if name = TypeExpr.star then .error (.binding name explicit (.notGeneric name))
  else
    let scene ← s.scene
    if !scene.isGeneric name then .error (.binding name explicit (.notGeneric name))
    else return (name, ← readBinding scene name explicit)

def disconnect (s : Session) (c : Nat) : Session :=
  { s with workspace := s.workspace.disconnect c }

def linkEnds (s : Session) (a b : Nat) : Session :=
  { s with workspace := s.workspace.connect a b }

def linksOf (s : Session) (block : Nat) : List (Nat × Nat) :=
  (s.workspace.connectionsOf block).filterMap fun c => (s.workspace.target? c).map (c, ·)

/-- Ends the links that do not fit and returns the others. A fault stops the work half done. -/
def dropUnfitBy (s : Session) : List (Nat × Nat) → n (Session × Except Fault (List (Nat × Nat)))
  | [] => return (s, .ok [])
  | (c, peer) :: rest => do
    match ← vet s c peer with
    | .error fault => return (s, .error fault)
    | .ok false => dropUnfitBy (s.disconnect c) rest
    | .ok true =>
      let (t, kept) ← dropUnfitBy s rest
      return (t, kept.map ((c, peer) :: ·))

def dropUnfit (s : Session) (links : List (Nat × Nat)) :
    Session × Except Fault (List (Nat × Nat)) :=
  s.dropUnfitBy (n := Id) verdict links

theorem dropUnfit_cons (s : Session) (c peer : Nat) (rest : List (Nat × Nat)) :
    s.dropUnfit ((c, peer) :: rest) =
      match s.verdict c peer with
      | .error fault => (s, .error fault)
      | .ok false => (s.disconnect c).dropUnfit rest
      | .ok true =>
        let (t, kept) := s.dropUnfit rest
        (t, kept.map ((c, peer) :: ·)) :=
  rfl

/-- Makes links again that fit what has been made again before them. -/
def relinkBy (s : Session) : List (Nat × Nat) → n (Session × Except Fault Unit)
  | [] => return (s, .ok ())
  | (c, peer) :: rest => do
    match ← vet s c peer with
    | .error fault => return (s, .error fault)
    | .ok false => relinkBy s rest
    | .ok true => relinkBy (s.linkEnds c peer) rest

def relink (s : Session) (links : List (Nat × Nat)) : Session × Except Fault Unit :=
  s.relinkBy (n := Id) verdict links

theorem relink_cons (s : Session) (c peer : Nat) (rest : List (Nat × Nat)) :
    s.relink ((c, peer) :: rest) =
      match s.verdict c peer with
      | .error fault => (s, .error fault)
      | .ok false => s.relink rest
      | .ok true => (s.linkEnds c peer).relink rest :=
  rfl

def disconnectAll (s : Session) (links : List (Nat × Nat)) : Session :=
  links.foldl (fun s link => s.disconnect link.1) s

def bumpRendered (s : Session) (block : Nat) : Session :=
  if s.policy.bump && (s.workspace.block? block).any (·.rendered) then
    { s with workspace := s.workspace.bump block }
  else s

/-- Ends the links and makes them again one by one, if the policy says so. -/
def reconnectBy (s : Session) (kept : List (Nat × Nat)) : n (Session × Except Fault Unit) :=
  if s.policy.reconnect then (s.disconnectAll kept).relinkBy vet kept else pure (s, .ok ())

def revalidateBy (s : Session) (block : Nat) : n (Session × Except Fault Unit) := do
  match ← s.dropUnfitBy vet (s.linksOf block) with
  | (s, .error fault) => return (s, .error fault)
  | (s, .ok kept) =>
    let (s, outcome) ← s.reconnectBy vet kept
    match outcome with
    | .error fault => return (s, .error fault)
    | .ok () => return (s.bumpRendered block, .ok ())

def revalidate (s : Session) (block : Nat) : Session × Except Fault Unit :=
  s.revalidateBy (n := Id) verdict block

theorem revalidate_eq (s : Session) (block : Nat) : s.revalidate block =
    match s.dropUnfit (s.linksOf block) with
    | (s, .error fault) => (s, .error fault)
    | (s, .ok kept) =>
      let (s, outcome) :=
        if s.policy.reconnect then (s.disconnectAll kept).relink kept else (s, .ok ())
      match outcome with
      | .error fault => (s, .error fault)
      | .ok () => (s.bumpRendered block, .ok ()) := by
  rfl

def bindBy (s : Session) (block : Nat) (generic explicit : Value) :
    n (Session × Except Fault Unit) := do
  match s.admitBinding generic explicit with
  | .error fault => return (s, .error fault)
  | .ok (name, t) => revalidateBy vet { s with bindings := s.bindings.set block name t } block

def bind (s : Session) (block : Nat) (generic explicit : Value) : Session × Except Fault Unit :=
  s.bindBy (n := Id) verdict block generic explicit

theorem bind_eq (s : Session) (block : Nat) (generic explicit : Value) :
    s.bind block generic explicit =
      match s.admitBinding generic explicit with
      | .error fault => (s, .error fault)
      | .ok (name, t) => { s with bindings := s.bindings.set block name t }.revalidate block :=
  rfl

/-- Removes a binding, if there is one, and leaves the links alone. -/
def unbind (s : Session) (block : Nat) (generic : Value) : Session × Except Fault Bool :=
  match s.known with
  | .error fault => (s, .error fault)
  | .ok _ =>
    match nameOf generic with
    | .error fault => (s, .error fault)
    | .ok name =>
      if (s.bindings.find? block name).isSome then
        ({ s with bindings := s.bindings.erase block name }, .ok true)
      else (s, .ok false)

end Session

end TypedBlocks
