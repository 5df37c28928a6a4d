import TypedBlocks.Fault

/-! Blocks, their connections, and the links between connections. Connections are numbered in the
order of their creation and keep their number when their block replaces them. -/
namespace TypedBlocks

structure Connection where
  block : Nat
  place : Place
  check : Option Text
  target : Option Nat := none
  deriving DecidableEq, Repr

/-- A block, with the numbers of its present connections. -/
structure Block where
  label : Text
  rendered : Bool := false
  bumps : Nat := 0
  output : Option Nat := none
  previous : Option Nat := none
  inputs : List Nat := []
  next : Option Nat := none
  deriving DecidableEq, Repr

namespace Block

def connections (b : Block) : List Nat :=
  b.output.toList ++ b.previous.toList ++ b.inputs ++ b.next.toList

def describe (b : Block) : Text :=
  Fault.blockText b.label

/-- Takes a connection into its place; only inputs can be several. -/
def attach (b : Block) (place : Place) (c : Nat) : Block :=
  match place with
  | .output => { b with output := some c }
  | .previous => { b with previous := some c }
  | .input _ => { b with inputs := b.inputs ++ [c] }
  | .next => { b with next := some c }

end Block

structure Workspace where
  blocks : List Block := []
  connections : List Connection := []
  deriving DecidableEq, Repr

/-- A block to be made. Without a check an output, previous or next connection is left out. -/
structure BlockPlan where
  label : Text
  output : Option Text := none
  previous : Option Text := none
  inputs : List (Text × Option Text) := []
  next : Option Text := none
  rendered : Bool := false
  deriving DecidableEq, Repr

def BlockPlan.places (p : BlockPlan) : List (Place × Option Text) :=
  p.output.toList.map (.output, some ·) ++ p.previous.toList.map (.previous, some ·) ++
    p.inputs.map (fun (name, check) => (.input name, check)) ++
    p.next.toList.map (.next, some ·)

namespace Workspace

def connection? (w : Workspace) (c : Nat) : Option Connection :=
  w.connections[c]?

def block? (w : Workspace) (b : Nat) : Option Block :=
  w.blocks[b]?

def connectionsOf (w : Workspace) (b : Nat) : List Nat :=
  match w.block? b with
  | some block => block.connections
  | none => []

def target? (w : Workspace) (c : Nat) : Option Nat :=
  (w.connection? c).bind (·.target)

def place? (w : Workspace) (c : Nat) : Option Place :=
  (w.connection? c).map (·.place)

def connectionAt? (w : Workspace) (b : Nat) (place : Place) : Option Nat :=
  (w.connectionsOf b).find? fun c => w.place? c == some place

def isStale (w : Workspace) (c : Nat) : Bool :=
  match w.connection? c with
  | some k => !(w.connectionsOf k.block).contains c
  | none => true

/-- The linked connections of all blocks, in order, with their targets. -/
def links (w : Workspace) : List (Nat × Nat) :=
  (w.blocks.flatMap (·.connections)).filterMap fun c => (w.target? c).map (c, ·)

def describeConnection (w : Workspace) (c : Nat) : Text :=
  match w.connection? c with
  | none => ""
  | some k =>
    let label : Text := ((w.block? k.block).map (·.label)).getD ""
    let check :=
      match k.check with
      | some t => Text.quoted t
      | none => Json.Value.null.display
    "Connection(" ++ label ++ "." ++ k.place.label ++ ", check=" ++ check ++ ")"

def endpoint (w : Workspace) (c : Nat) : Endpoint :=
  match w.connection? c with
  | some k => ⟨c, k.block, ((w.block? k.block).map (·.label)).getD "", k.place⟩
  | none => ⟨c, 0, "", .output⟩

def setTarget (w : Workspace) (c : Nat) (target : Option Nat) : Workspace :=
  { w with connections := w.connections.modify c fun k => { k with target := target } }

def setCheck (w : Workspace) (c : Nat) (check : Option Text) : Workspace :=
  { w with connections := w.connections.modify c fun k => { k with check := check } }

/-- Ends the link of a connection, on the other side too if that points back. -/
def disconnect (w : Workspace) (c : Nat) : Workspace :=
  match w.target? c with
  | none => w
  | some peer =>
    let w := w.setTarget c none
    if w.target? peer = some c then w.setTarget peer none else w

/-- Links two connections, ending the links they have with others. -/
def connect (w : Workspace) (a b : Nat) : Workspace :=
  if w.target? a = some b then w
  else (((w.disconnect a).disconnect b).setTarget a (some b)).setTarget b (some a)

/-- Gives a block a new connection. An input needs a name of its own; another connection takes the
place of the one before it. -/
def addConnection (w : Workspace) (b : Nat) (place : Place) (check : Option Text) :
    Except Fault Workspace :=
  match w.block? b with
  | none => .ok w
  | some block =>
    match place, w.connectionAt? b place with
    | .input name, some _ => .error (.repeatedInput block.label name)
    | _, _ =>
      .ok { blocks := w.blocks.modify b fun k => k.attach place w.connections.length
            connections := w.connections ++ [⟨b, place, check, none⟩] }

def addBlock (w : Workspace) (plan : BlockPlan) : Except Fault Workspace :=
  let bare : Workspace :=
    { w with blocks := w.blocks ++ [{ label := plan.label, rendered := plan.rendered }] }
  plan.places.foldlM (fun w (place, check) => w.addConnection w.blocks.length.pred place check) bare

def bump (w : Workspace) (b : Nat) : Workspace :=
  { w with blocks := w.blocks.modify b fun k => { k with bumps := k.bumps + 1 } }

end Workspace

end TypedBlocks
