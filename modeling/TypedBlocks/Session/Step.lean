import TypedBlocks.Definition.Source
import TypedBlocks.Session.Basic

/-! The commands that change a session. -/
namespace TypedBlocks

open Json (Value)

inductive Command where
  /-- Takes a new hierarchy; `built` leaves out loading and the check of the shape. -/
  | load (source : Source) (built : Bool)
  | addBlock (plan : BlockPlan)
  | addConnection (block : Nat) (place : Place) (check : Option Text)
  | setCheck (connection : Nat) (check : Option Text)
  /-- Links two connections if they are compatible. -/
  | connect (a b : Nat)
  /-- Links two connections as they are. -/
  | link (a b : Nat)
  | disconnect (connection : Nat)
  | bind (block : Nat) (generic explicit : Value)
  | unbind (block : Nat) (generic : Value)

inductive Reply where
  | done
  | count (n : Nat)
  | flag (b : Bool)
  | connection (c : Nat)
  deriving DecidableEq, Repr

namespace Session

def readHierarchy (s : Session) (source : Source) (built : Bool) : Except Fault Hierarchy := do
  let d ← if built then source.given else source.load s.policy.checkShape
  match Hierarchy.ofDefinition d with
  | .ok h => return h
  | .error fault => .error (.definition fault)

def connectBy {n : Type → Type} [Monad n] (vet : Session → Nat → Nat → n (Except Fault Bool))
    (s : Session) (a b : Nat) : n (Session × Except Fault Reply) := do
  match ← s.canConnectBy vet a b with
  | .ok true => return (s.linkEnds a b, .ok (.flag true))
  | .ok false => return (s, .ok (.flag false))
  | .error fault => return (s, .error fault)

def connect (s : Session) (a b : Nat) : Session × Except Fault Reply :=
  s.connectBy (n := Id) verdict a b

theorem connect_eq (s : Session) (a b : Nat) : s.connect a b =
    match s.canConnect a b with
    | .ok true => (s.linkEnds a b, .ok (.flag true))
    | .ok false => (s, .ok (.flag false))
    | .error fault => (s, .error fault) :=
  rfl

def step (s : Session) : Command → Session × Except Fault Reply
  | .load source built =>
    match s.readHierarchy source built with
    | .ok h => ({ s with hierarchy := some h }, .ok (.count h.size))
    | .error fault => (s, .error fault)
  | .addBlock plan =>
    match s.workspace.addBlock plan with
    | .ok w => ({ s with workspace := w }, .ok (.count w.blocks.length))
    | .error fault => (s, .error fault)
  | .addConnection block place check =>
    match s.workspace.addConnection block place check with
    | .ok w => ({ s with workspace := w }, .ok (.connection s.workspace.connections.length))
    | .error fault => (s, .error fault)
  | .setCheck c check => ({ s with workspace := s.workspace.setCheck c check }, .ok .done)
  | .connect a b => s.connect a b
  | .link a b => (s.linkEnds a b, .ok .done)
  | .disconnect c => (s.disconnect c, .ok .done)
  | .bind block generic explicit =>
    let (s, outcome) := s.bind block generic explicit
    (s, outcome.map fun _ => .done)
  | .unbind block generic =>
    let (s, outcome) := s.unbind block generic
    (s, outcome.map .flag)

/-- The session after a list of commands, whether they succeed or not. -/
def run (s : Session) (commands : List Command) : Session :=
  commands.foldl (fun s c => (s.step c).1) s

end Session

end TypedBlocks
