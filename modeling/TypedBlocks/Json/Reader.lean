import TypedBlocks.Json.Value

/-! Reading JSON text. Every function returns the characters it leaves; a failure keeps how many
characters remained where it arose, from which its position in the text follows. An integer with too
many digits is refused without a position. -/
namespace TypedBlocks.Json

inductive Complaint where
  | byteOrderMark
  | value
  | propertyName
  | colon
  | comma
  | extraData
  | unterminatedString
  | controlCharacter
  | escape
  | unicodeEscape
  deriving DecidableEq, Repr

def Complaint.message : Complaint → String
  | .byteOrderMark => "Unexpected UTF-8 BOM (decode using utf-8-sig)"
  | .value => "Expecting value"
  | .propertyName => "Expecting property name enclosed in double quotes"
  | .colon => "Expecting ':' delimiter"
  | .comma => "Expecting ',' delimiter"
  | .extraData => "Extra data"
  | .unterminatedString => "Unterminated string starting at"
  | .controlCharacter => "Invalid control character at"
  | .escape => "Invalid \\escape"
  | .unicodeEscape => "Invalid \\uXXXX escape"

inductive Failure where
  | unexpected (complaint : Complaint) (remaining : Nat)
  | tooLong (digits : Nat)
  deriving DecidableEq, Repr

namespace Reader

def fail {α : Type} (complaint : Complaint) (cs : List CodePoint) :
    Except Failure (α × List CodePoint) :=
  .error (.unexpected complaint cs.length)

def isSpace (c : CodePoint) : Bool :=
  c = ' ' || c = '\t' || c = '\n' || c = '\r'

def skipSpace (cs : List CodePoint) : List CodePoint :=
  cs.dropWhile isSpace

def hex4? (a b c d : CodePoint) : Option Nat := do
  let a ← a.hexValue?
  let b ← b.hexValue?
  let c ← c.hexValue?
  let d ← d.hexValue?
  return ((a * 16 + b) * 16 + c) * 16 + d

def isHighSurrogate (n : Nat) : Bool :=
  0xd800 ≤ n && n ≤ 0xdbff

def isLowSurrogate (n : Nat) : Bool :=
  0xdc00 ≤ n && n ≤ 0xdfff

def pairChar (high low : Nat) : Char :=
  Char.ofNat (0x10000 + (high - 0xd800) * 0x400 + (low - 0xdc00))

def simpleEscape? (c : CodePoint) : Option CodePoint :=
  if c = '"' || c = '\\' || c = '/' then some c
  else if c = 'b' then some '\x08'
  else if c = 'f' then some '\x0c'
  else if c = 'n' then some '\n'
  else if c = 'r' then some '\r'
  else if c = 't' then some '\t'
  else none

/-- The second half of a surrogate pair, if the text goes on with an escaped unit. -/
def secondUnit? : List CodePoint → Except Failure (Option (Nat × List CodePoint))
  | '\\' :: 'u' :: a :: b :: c :: d :: (tail@(_ :: _)) =>
    match hex4? a b c d with
    | some n => .ok (some (n, tail))
    | none => .error (.unexpected .unicodeEscape (tail.length + 5))
  | _ => .ok none

/-- One escape, after the backslash. `quote` is what remained at the opening quotation mark. A high
surrogate is joined with a low one that follows it; without a partner each stands for itself. -/
def escaped (quote : Nat) : List CodePoint → Except Failure (CodePoint × List CodePoint)
  | [] => .error (.unexpected .unterminatedString quote)
  | 'u' :: cs =>
    match cs with
    | a :: b :: c :: d :: (tail@(_ :: _)) =>
      match hex4? a b c d with
      | none => fail .unicodeEscape ('u' :: cs)
      | some n =>
        if isHighSurrogate n then do
          match ← secondUnit? tail with
          | some (low, after) =>
            if isLowSurrogate low then return (.char (pairChar n low), after)
            else return (.ofNat n, tail)
          | none => return (.ofNat n, tail)
        else .ok (.ofNat n, tail)
    | _ => fail .unicodeEscape ('u' :: cs)
  | c :: cs =>
    match simpleEscape? c with
    | some e => .ok (e, cs)
    | none => .error (.unexpected .escape (cs.length + 2))

/-- The rest of a string after its opening quotation mark; `fuel` bounds the characters read. -/
def stringRest (quote : Nat) :
    Nat → List CodePoint → List CodePoint → Except Failure (Text × List CodePoint)
  | 0, _, _ => .error (.unexpected .unterminatedString quote)
  | _ + 1, _, [] => .error (.unexpected .unterminatedString quote)
  | fuel + 1, read, c :: cs =>
    if c = '"' then .ok (⟨read.reverse⟩, cs)
    else if c = '\\' then do
      let (e, after) ← escaped quote cs
      stringRest quote fuel (e :: read) after
    else if c.toNat ≤ 0x1f then fail .controlCharacter (c :: cs)
    else stringRest quote fuel (c :: read) cs

def string (cs : List CodePoint) : Except Failure (Text × List CodePoint) :=
  stringRest (cs.length + 1) (cs.length + 1) [] cs

/-- The 64-bit number nearest to `digits * 10 ^ exponent`. -/
def nearestFloat (digits : Nat) (exponent : Int) : Float :=
  let magnitude : Int := (Nat.toDigits 10 digits).length + exponent
  if digits = 0 ∨ magnitude < -400 then 0.0
  else if 400 < magnitude then 1.0 / 0.0
  else if exponent < 0 then Float.ofScientific digits true exponent.natAbs
  else Float.ofScientific digits false exponent.natAbs

def fraction? : List CodePoint → Option (List CodePoint × List CodePoint)
  | '.' :: c :: cs =>
    if c.isDigit then some ((c :: cs).takeWhile (·.isDigit), cs.dropWhile (·.isDigit)) else none
  | _ => none

def exponent? : List CodePoint → Option (Int × List CodePoint)
  | e :: cs =>
    if e = 'e' || e = 'E' then
      let (negative, body) :=
        match cs with
        | '-' :: more => (true, more)
        | '+' :: more => (false, more)
        | _ => (false, cs)
      match body.takeWhile (·.isDigit) with
      | [] => none
      | digits =>
        let n : Int := CodePoint.digitsValue digits
        some (if negative then -n else n, body.dropWhile (·.isDigit))
    else none
  | [] => none

def integerPart? : List CodePoint → Option (List CodePoint × List CodePoint)
  | c :: cs =>
    if c = '0' then some (['0'], cs)
    else if c.isDigit then some (c :: cs.takeWhile (·.isDigit), cs.dropWhile (·.isDigit))
    else none
  | [] => none

def digitLimit : Nat := 4300

def number (cs : List CodePoint) : Except Failure (Value × List CodePoint) :=
  let (negative, body) :=
    match cs with
    | '-' :: more => (true, more)
    | _ => (false, cs)
  match integerPart? body with
  | none => fail .value cs
  | some (whole, cs1) =>
    let (places, cs2) := (fraction? cs1).getD ([], cs1)
    match places, exponent? cs2 with
    | [], none =>
      if digitLimit < whole.length then .error (.tooLong whole.length)
      else
        let n : Int := CodePoint.digitsValue whole
        .ok (.int (if negative then -n else n), cs2)
    | _, e =>
      let (exponent, cs3) := e.getD (0, cs2)
      let x := nearestFloat (CodePoint.digitsValue (whole ++ places)) (exponent - places.length)
      .ok (.float (if negative then -x else x), cs3)

def literals : List (Text × Value) := [
  ("null", .null), ("true", .bool true), ("false", .bool false), ("NaN", .float (0.0 / 0.0)),
  ("Infinity", .float (1.0 / 0.0)), ("-Infinity", .float (-1.0 / 0.0))]

def literal? (cs : List CodePoint) : Option (Value × List CodePoint) :=
  literals.findSome? fun (word, v) =>
    if word.toList.isPrefixOf cs then some (v, cs.drop word.length) else none

mutual

def value : Nat → List CodePoint → Except Failure (Value × List CodePoint)
  | 0, cs => fail .value cs
  | fuel + 1, cs =>
    match cs with
    | [] => fail .value cs
    | '"' :: rest => do
      let (s, after) ← string rest
      return (.text s, after)
    | '{' :: rest =>
      match skipSpace rest with
      | '}' :: after => .ok (.object [], after)
      | body => members fuel [] body
    | '[' :: rest =>
      match skipSpace rest with
      | ']' :: after => .ok (.list [], after)
      | body => elements fuel [] body
    | _ =>
      match literal? cs with
      | some found => .ok found
      | none => number cs

def members : Nat → List (Text × Value) → List CodePoint → Except Failure (Value × List CodePoint)
  | 0, _, cs => fail .value cs
  | fuel + 1, done, cs =>
    match cs with
    | '"' :: rest => do
      let (key, afterKey) ← string rest
      match skipSpace afterKey with
      | ':' :: afterColon => do
        let (v, afterValue) ← value fuel (skipSpace afterColon)
        let done := Value.putField done key v
        match skipSpace afterValue with
        | '}' :: after => return (.object done, after)
        | ',' :: after => members fuel done (skipSpace after)
        | other => fail .comma other
      | other => fail .colon other
    | _ => fail .propertyName cs

/-- The elements of a list, those already read last first. -/
def elements : Nat → List Value → List CodePoint → Except Failure (Value × List CodePoint)
  | 0, _, cs => fail .value cs
  | fuel + 1, done, cs => do
    let (v, afterValue) ← value fuel cs
    match skipSpace afterValue with
    | ']' :: after => return (.list (v :: done).reverse, after)
    | ',' :: after => elements fuel (v :: done) (skipSpace after)
    | other => fail .comma other

end

def document (cs : List CodePoint) : Except Failure Value :=
  match cs with
  | '\ufeff' :: _ => .error (.unexpected .byteOrderMark cs.length)
  | _ => do
    let (v, after) ← value (2 * cs.length + 2) (skipSpace cs)
    match skipSpace after with
    | [] => return v
    | extra => .error (.unexpected .extraData extra.length)

end Reader

/-- What was not expected, and where: lines and columns count from one, positions from zero. -/
structure Misplaced where
  complaint : Complaint
  line : Nat
  column : Nat
  position : Nat
  deriving DecidableEq, Repr

/-- The place in a text at which so many characters remain. -/
def Misplaced.ofRemaining (cs : List CodePoint) (complaint : Complaint) (remaining : Nat) :
    Misplaced :=
  let position := cs.length - remaining
  let before := cs.take position
  { complaint := complaint
    line := before.count (CodePoint.char '\n') + 1
    column := (before.reverse.takeWhile (· ≠ CodePoint.char '\n')).length + 1
    position := position }

def Misplaced.message (m : Misplaced) : Text :=
  m.complaint.message ++ ": line " ++ Text.ofNat m.line ++ " column " ++ Text.ofNat m.column ++
    " (char " ++ Text.ofNat m.position ++ ")"

inductive ReadError where
  | misplaced (m : Misplaced)
  | tooLong (digits : Nat)
  deriving DecidableEq, Repr

def read (t : Text) : Except ReadError Value :=
  match Reader.document t.toList with
  | .ok v => .ok v
  | .error (.unexpected complaint remaining) =>
    .error (.misplaced (.ofRemaining t.toList complaint remaining))
  | .error (.tooLong digits) => .error (.tooLong digits)

end TypedBlocks.Json
