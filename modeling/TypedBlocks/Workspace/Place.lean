import TypedBlocks.Text.Basic

/-! Where a connection sits on its block. -/
namespace TypedBlocks

inductive Place where
  | output
  | previous
  | input (name : Text)
  | next
  deriving DecidableEq, Repr

namespace Place

def kind : Place → String
  | .output => "output"
  | .previous => "previous"
  | .input _ => "input"
  | .next => "next"

/-- Inputs and next connections are on the parent side of a link. -/
def isParentSide : Place → Bool
  | .input _ | .next => true
  | .output | .previous => false

/-- Outputs and previous connections attach a block to what contains it. -/
def isOuter (p : Place) : Bool :=
  !p.isParentSide

def label : Place → Text
  | .input name => name
  | p => p.kind

/-- Like `label`, with a nameless input shown by its kind. -/
def title (p : Place) : Text :=
  if p.label.isEmpty then p.kind else p.label

/-- The pairs of a parent's and a child's place that a link may join. -/
def pairs : Place → Place → Bool
  | .input _, .output | .input _, .previous | .next, .previous => true
  | _, _ => false

end Place

end TypedBlocks
