/-! Texts as sequences of code points. Half of a surrogate pair is no character, but a text that was
decoded from numbers can hold one by itself. -/
namespace TypedBlocks

/-- A character, or half of a surrogate pair without its partner, counted from the first half. -/
inductive CodePoint where
  | char (c : Char)
  | lone (half : Fin 0x800)
  deriving DecidableEq, Inhabited, Repr

namespace CodePoint

instance : Coe Char CodePoint := ⟨.char⟩

def toNat : CodePoint → Nat
  | .char c => c.toNat
  | .lone half => 0xd800 + half.val

def ofNat (n : Nat) : CodePoint :=
  if h : 0xd800 ≤ n ∧ n < 0xe000 then .lone ⟨n - 0xd800, by omega⟩ else .char (Char.ofNat n)

def char? : CodePoint → Option Char
  | .char c => some c
  | .lone _ => none

def isDigit : CodePoint → Bool
  | .char c => c.isDigit
  | .lone _ => false

def isAlphanum : CodePoint → Bool
  | .char c => c.isAlphanum
  | .lone _ => false

def hexValue? (c : CodePoint) : Option Nat :=
  let n := c.toNat
  if c.isDigit then some (n - '0'.toNat)
  else if 'a'.toNat ≤ n && n ≤ 'f'.toNat then some (n - 'a'.toNat + 10)
  else if 'A'.toNat ≤ n && n ≤ 'F'.toNat then some (n - 'A'.toNat + 10)
  else none

def digitsValue (cs : List CodePoint) : Nat :=
  cs.foldl (fun n c => 10 * n + (c.toNat - '0'.toNat)) 0

/-- The order of code points, place by place; a sequence comes before those that go on from it. -/
def notAfter : List CodePoint → List CodePoint → Bool
  | [], _ => true
  | _ :: _, [] => false
  | c :: cs, d :: ds => if c = d then notAfter cs ds else c.toNat < d.toNat

end CodePoint

structure Text where
  ofList ::
  toList : List CodePoint
  deriving DecidableEq, Inhabited, Repr

namespace Text

def ofChars (cs : List Char) : Text :=
  ⟨cs.map .char⟩

def ofString (s : String) : Text :=
  ofChars s.toList

instance : Coe String Text := ⟨ofString⟩

def toString? (t : Text) : Option String :=
  (t.toList.mapM CodePoint.char?).map String.ofList

instance : Append Text := ⟨fun a b => ⟨a.toList ++ b.toList⟩⟩

@[simp]
theorem toList_append (a b : Text) : (a ++ b).toList = a.toList ++ b.toList :=
  rfl

def ofNat (n : Nat) : Text :=
  ofChars (Nat.toDigits 10 n)

def ofInt (n : Int) : Text :=
  if n < 0 then "-" ++ ofNat n.natAbs else ofNat n.natAbs

def length (t : Text) : Nat :=
  t.toList.length

def isEmpty (t : Text) : Bool :=
  t.toList.isEmpty

def startsWith (t start : Text) : Bool :=
  start.toList.isPrefixOf t.toList

def intercalate (separator : Text) (ts : List Text) : Text :=
  ⟨separator.toList.intercalate (ts.map (·.toList))⟩

def notAfter (a b : Text) : Bool :=
  CodePoint.notAfter a.toList b.toList

/-! ### Sets of code points -/

structure CodeRange where
  first : Nat
  last : Nat
  deriving DecidableEq, Repr

namespace CodeRange

def contains (r : CodeRange) (c : CodePoint) : Bool :=
  r.first ≤ c.toNat && c.toNat ≤ r.last

def covers (ranges : List CodeRange) (c : CodePoint) : Bool :=
  ranges.any (·.contains c)

end CodeRange

/-! ### Blanks -/

def blanks : List CodeRange := [
  ⟨0x09, 0x0d⟩, ⟨0x1c, 0x20⟩, ⟨0x85, 0x85⟩, ⟨0xa0, 0xa0⟩, ⟨0x1680, 0x1680⟩, ⟨0x2000, 0x200a⟩,
  ⟨0x2028, 0x2029⟩, ⟨0x202f, 0x202f⟩, ⟨0x205f, 0x205f⟩, ⟨0x3000, 0x3000⟩]

def isBlank (c : CodePoint) : Bool :=
  CodeRange.covers blanks c

def trimLeft (cs : List CodePoint) : List CodePoint :=
  cs.dropWhile isBlank

def trimRight (cs : List CodePoint) : List CodePoint :=
  (cs.reverse.dropWhile isBlank).reverse

def trim (cs : List CodePoint) : List CodePoint :=
  trimRight (trimLeft cs)

end Text

end TypedBlocks
