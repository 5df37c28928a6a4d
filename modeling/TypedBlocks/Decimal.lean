/-! How a 64-bit number is written: the fewest digits that still name it, positional between
`10 ^ -4` and `10 ^ 16`, and with a point or an exponent so that it is never taken for an
integer. -/
namespace TypedBlocks.Decimal

/-- A positive number `significand * 2 ^ exponent` together with the reals that round to it.
`lowest` says that the next smaller number is only half as far away as the next larger one. -/
structure Binary where
  significand : Nat
  exponent : Int
  lowest : Bool
  deriving DecidableEq, Repr

/-- The magnitude of a finite 64-bit number other than zero. -/
def Binary.ofBits (bits : UInt64) : Binary :=
  let field : Nat := (bits.toNat / 0x10000000000000) % 0x800
  let fraction : Nat := bits.toNat % 0x10000000000000
  if field = 0 then ⟨fraction, -1074, false⟩
  else ⟨0x10000000000000 + fraction, (field : Int) - 1075, fraction = 0 && 1 < field⟩

/-- The number `digits * 10 ^ exponent`. -/
structure Short where
  digits : Nat
  exponent : Int
  deriving DecidableEq, Repr

/-- A number and the ends of its rounding interval over one denominator. -/
structure Interval where
  low : Nat
  value : Nat
  high : Nat
  scale : Nat
  closed : Bool
  deriving DecidableEq, Repr

def Binary.interval (b : Binary) : Interval :=
  let up := Nat.pow 2 (b.exponent - 2).toNat
  let four := 4 * b.significand
  { low := (four - if b.lowest then 1 else 2) * up
    value := four * up
    high := (four + 2) * up
    scale := Nat.pow 2 (2 - b.exponent).toNat
    closed := b.significand % 2 = 0 }

def Interval.inUnits (v : Interval) (k : Int) : Interval :=
  let times := Nat.pow 10 (-k).toNat
  { v with
    low := v.low * times, value := v.value * times, high := v.high * times
    scale := v.scale * Nat.pow 10 k.toNat }

def Interval.admits (v : Interval) (n : Nat) : Bool :=
  let x := n * v.scale
  if v.closed then v.low ≤ x && x ≤ v.high else v.low < x && x < v.high

/-- The nearer of the two neighbours of the value that lie in the interval; the even one of two
that are equally near. -/
def Interval.grid? (v : Interval) : Option Nat :=
  let below := v.value / v.scale
  let rest := v.value % v.scale
  match v.admits below, v.admits (below + 1) with
  | true, true =>
    if 2 * rest < v.scale || (2 * rest = v.scale && below % 2 = 0) then some below
    else some (below + 1)
  | true, false => some below
  | false, true => some (below + 1)
  | false, false => none

/-- The number of decimal places before the point: the value lies below `10 ^ p` and not below
`10 ^ (p - 1)`. -/
def Interval.places (v : Interval) : Int :=
  (Nat.toDigits 10 (v.value * Nat.pow 10 400 / v.scale)).length - 400

def Short.reduced : Nat → Short → Short
  | 0, s => s
  | n + 1, s => if s.digits % 10 = 0 then Short.reduced n ⟨s.digits / 10, s.exponent + 1⟩ else s

/-- Tries `count`, `count + 1`, … digits; `tries` bounds the search. -/
def Interval.search (v : Interval) (places : Int) : Nat → Nat → Short
  | 0, count =>
    let w := v.inUnits (places - count)
    ⟨w.value / w.scale, places - count⟩
  | tries + 1, count =>
    match (v.inUnits (places - count)).grid? with
    | some n => ⟨n, places - count⟩
    | none => v.search places tries (count + 1)

/-- Seventeen digits always suffice for a 64-bit number. -/
def shortest (b : Binary) : Short :=
  let v := b.interval
  (v.search v.places 17 1).reduced 20

/-! ### Notation -/

def zeros (n : Nat) : List Char :=
  List.replicate n '0'

/-- An exponent has a sign and at least two digits. -/
def exponentText (e : Int) : List Char :=
  let digits := Nat.toDigits 10 e.natAbs
  let padded := if digits.length < 2 then '0' :: digits else digits
  'e' :: (if e < 0 then '-' else '+') :: padded

def layout (s : Short) : List Char :=
  let digits := Nat.toDigits 10 s.digits
  let point : Int := digits.length + s.exponent
  if -4 < point ∧ point ≤ 16 then
    if point ≤ 0 then '0' :: '.' :: zeros (-point).toNat ++ digits
    else if digits.length ≤ point.toNat then
      digits ++ zeros (point.toNat - digits.length) ++ ['.', '0']
    else digits.take point.toNat ++ '.' :: digits.drop point.toNat
  else
    match digits with
    | [] => []
    | [d] => d :: exponentText (point - 1)
    | d :: more => d :: '.' :: more ++ exponentText (point - 1)

def floatText (x : Float) : String :=
  if x.isNaN then "nan"
  else
    let bits := x.toBits
    let negative := bits.toNat / 0x8000000000000000 = 1
    let magnitude := bits.toNat % 0x8000000000000000
    let body :=
      if magnitude = 0 then "0.0"
      else if x.isInf then "inf"
      else String.ofList (layout (shortest (Binary.ofBits (UInt64.ofNat magnitude))))
    if negative then "-" ++ body else body

/-! ### Integers -/

def Binary.natural? (b : Binary) : Option Nat :=
  let scale := Nat.pow 2 (-b.exponent).toNat
  if b.significand % scale = 0 then
    some (b.significand / scale * Nat.pow 2 b.exponent.toNat)
  else none

def integer? (x : Float) : Option Int :=
  if x.isNaN || x.isInf then none
  else
    let bits := x.toBits.toNat
    let magnitude := Binary.ofBits (UInt64.ofNat (bits % 0x8000000000000000))
    magnitude.natural?.map fun n =>
      if bits / 0x8000000000000000 = 1 then -(n : Int) else (n : Int)

end TypedBlocks.Decimal
