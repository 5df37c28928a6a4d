import TypedBlocks.Text.Case
import TypedBlocks.Text.WordChar

/-! Patterns for names, matched as a whole and without regard to case. A pattern is matched by
taking its derivative at each character in turn. -/
namespace TypedBlocks

inductive CharClass where
  | word
  | digit
  | blank
  deriving DecidableEq, Repr

def CharClass.has : CharClass → CodePoint → Bool
  | .word, c => Text.isWordChar c
  | .digit, c => Text.isDecimalDigit c
  | .blank, c => Text.isBlank c

inductive CharItem where
  | char (c : CodePoint)
  | range (first last : CodePoint)
  | cls (k : CharClass) (negated : Bool)
  deriving DecidableEq, Repr

def CharItem.has : CharItem → CodePoint → Bool
  | .char x, c => Text.sameLetter x c
  | .range first last, c =>
    (List.range (last.toNat + 1 - first.toNat)).any fun i =>
      Text.sameLetter (.ofNat (first.toNat + i)) c
  | .cls k negated, c => k.has c != negated

structure CharSet where
  items : List CharItem
  negated : Bool := false
  deriving DecidableEq, Repr

def CharSet.has (s : CharSet) (c : CodePoint) : Bool :=
  s.items.any (·.has c) != s.negated

/-- A condition on the place between the character before and the rest of a text. -/
inductive Anchor where
  | first
  | last
  /-- The end, or the place before one final line break. -/
  | line
  | edge (negated : Bool)
  deriving DecidableEq, Repr

def Anchor.holds (before : Option CodePoint) (rest : List CodePoint) : Anchor → Bool
  | .first => before.isNone
  | .last => rest.isEmpty
  | .line => rest.isEmpty || rest = [.char '\n']
  | .edge negated =>
    -- an empty text has no place of either kind
    (before.isSome || !rest.isEmpty) &&
      (before.any Text.isWordChar != rest.head?.any Text.isWordChar) != negated

inductive Pattern where
  | never
  | empty
  | here (anchor : Anchor)
  | one (set : CharSet)
  | seq (a b : Pattern)
  | alt (a b : Pattern)
  /-- At least so many times, and up to so many more if there is a limit. -/
  | times (p : Pattern) (least : Nat) (more : Option Nat)
  deriving DecidableEq, Repr

namespace Pattern

def nullable (before : Option CodePoint) (rest : List CodePoint) : Pattern → Bool
  | .never => false
  | .empty => true
  | .here anchor => anchor.holds before rest
  | .one _ => false
  | .seq a b => a.nullable before rest && b.nullable before rest
  | .alt a b => a.nullable before rest || b.nullable before rest
  | .times p least _ => least == 0 || p.nullable before rest

def mkSeq : Pattern → Pattern → Pattern
  | .never, _ => .never
  | .empty, b => b
  | a, b => .seq a b

def mkAlt : Pattern → Pattern → Pattern
  | .never, b => b
  | a, .never => a
  | a, b => .alt a b

/-- What is left to match after a character. Where a repeated pattern need not read anything, any
number of times may have gone by before the one that reads the character. -/
def deriv (before : Option CodePoint) (c : CodePoint) (rest : List CodePoint) : Pattern → Pattern
  | .never | .empty | .here _ => .never
  | .one set => if set.has c then .empty else .never
  | .seq a b =>
    let first := mkSeq (a.deriv before c rest) b
    if a.nullable before (c :: rest) then mkAlt first (b.deriv before c rest) else first
  | .alt a b => mkAlt (a.deriv before c rest) (b.deriv before c rest)
  | .times p least more =>
    if least = 0 && more = some 0 then .never
    else
      let first := p.deriv before c rest
      if least = 0 || p.nullable before (c :: rest) then
        mkSeq first (.times p 0 (more.map (least + · - 1)))
      else mkSeq first (.times p (least - 1) more)

def fitsFrom (before : Option CodePoint) : List CodePoint → Pattern → Bool
  | [], p => p.nullable before []
  | c :: rest, p => fitsFrom (some c) rest (p.deriv before c rest)

def fits (p : Pattern) (s : Text) : Bool :=
  p.fitsFrom none s.toList

end Pattern

end TypedBlocks
