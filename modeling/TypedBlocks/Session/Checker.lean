import TypedBlocks.Session.Step

/-! A session that keeps the checks it has read. Reading looks among them first, and what has been
read is kept even if the work fails later on; a new hierarchy makes an end of it. -/
namespace TypedBlocks

open Json (Value)

/-- Checks that have been read, by their texts. -/
abbrev Checks := List (Text × TypeExpr)

namespace Scene

abbrev Reading := ExceptT Fault (StateM Checks)

def readThrough (s : Scene) (text : Text) : Reading TypeExpr := do
  match (← get).lookup text with
  | some t => return t
  | none =>
    let t ← liftM (s.readCheck text)
    modify ((text, t) :: ·)
    return t

instance : ReadsChecks (StateT Memo Reading) :=
  ⟨fun s text => liftM (s.readThrough text)⟩

end Scene

namespace Session

open Scene (Reading)

def keeping {α : Type} (s : Session) (question : Scene → Reading α) :
    StateM Checks (Except Fault α) :=
  match s.scene with
  | .ok scene => (question scene).run
  | .error fault => pure (.error fault)

def vet (s : Session) (a b : Nat) : StateM Checks (Except Fault Bool) :=
  s.keeping (·.compatibleIn a b)

end Session

structure Checker where
  session : Session := {}
  checks : Checks := []
  deriving DecidableEq, Repr

namespace Checker

def ask {α : Type} (c : Checker) (question : StateM Checks α) : Checker × α :=
  let (answer, checks) := question.run c.checks
  (⟨c.session, checks⟩, answer)

def check (c : Checker) (a b : Nat) : Checker × Except Fault Bool :=
  c.ask (c.session.naming [a, b] <$> c.session.vet a b)

def canConnect (c : Checker) (a b : Nat) : Checker × Except Fault Bool :=
  c.ask (c.session.canConnectBy Session.vet a b)

def explicitTypes (c : Checker) (block : Nat) (generic : Value) :
    Checker × Except Fault (List TypeExpr) :=
  c.ask (c.session.explicitOf block generic <$> c.session.keeping fun scene => do
    scene.typesOfIn block (← liftM (nameOf generic)))

def connectionTypes (c : Checker) (connection : Nat) : Checker × Except Fault (List TypeExpr) :=
  c.ask (c.session.connectionTypesBy (c.session.keeping (·.typesAtIn connection)) connection)

def act {α : Type} (c : Checker) (work : StateM Checks (Session × α)) : Checker × α :=
  let ((session, result), checks) := work.run c.checks
  (⟨session, checks⟩, result)

def step (c : Checker) : Command → Checker × Except Fault Reply
  | .load source built =>
    match c.session.step (.load source built) with
    | (session, .ok reply) => (⟨session, []⟩, .ok reply)
    | (session, .error fault) => (⟨session, c.checks⟩, .error fault)
  | .connect a b => c.act (c.session.connectBy Session.vet a b)
  | .bind block generic explicit =>
    let (c, outcome) := c.act (c.session.bindBy Session.vet block generic explicit)
    (c, outcome.map fun _ => .done)
  | command => c.act (pure (c.session.step command))

def run (c : Checker) (commands : List Command) : Checker :=
  commands.foldl (fun c command => (c.step command).1) c

end Checker

end TypedBlocks
