import TypedBlocks.Pattern.Basic

/-! Reading patterns: alternatives, groups, character sets, repetition and anchors. -/
namespace TypedBlocks.Pattern.Parser

def classOf? : CodePoint → Option CharItem
  | 'w' => some (.cls .word false)
  | 'W' => some (.cls .word true)
  | 'd' => some (.cls .digit false)
  | 'D' => some (.cls .digit true)
  | 's' => some (.cls .blank false)
  | 'S' => some (.cls .blank true)
  | _ => none

def controlOf? : CodePoint → Option CodePoint
  | 'n' => some '\n'
  | 't' => some '\t'
  | 'r' => some '\r'
  | 'f' => some '\x0c'
  | 'v' => some '\x0b'
  | 'a' => some '\x07'
  | _ => none

def valueOf (base : Nat) (digits : List CodePoint) : Nat :=
  digits.foldl (fun n c => base * n + c.hexValue?.getD 0) 0

/-- A character by its number, in as many digits to the base of sixteen. -/
def hex? (count : Nat) (cs : List CodePoint) : Option (CharItem × List CodePoint) :=
  let digits := cs.take count
  let n := valueOf 16 digits
  if digits.length = count && digits.all (·.hexValue?.isSome) && n < 0x110000 then
    some (.char (.ofNat n), cs.drop count)
  else none

/-- A character by its number to the base of eight. Outside of a set a number without a zero in
front needs three digits; with fewer it would refer to a group. -/
def octal? (inSet : Bool) (cs : List CodePoint) : Option (CharItem × List CodePoint) :=
  let digits := (cs.take 3).takeWhile (·.hexValue?.any (· < 8))
  let n := valueOf 8 digits
  let complete := inSet || digits.head? = some (.char '0') || digits.length = 3
  if digits.isEmpty || !complete || 0xff < n then none
  else some (.char (.ofNat n), cs.drop digits.length)

/-- What a backslash stands for with what follows it. Letters without a meaning are refused. -/
def escape? (inSet : Bool) : List CodePoint → Option (CharItem × List CodePoint)
  | [] => none
  | 'x' :: cs => hex? 2 cs
  | 'u' :: cs => hex? 4 cs
  | 'U' :: cs => hex? 8 cs
  | c :: cs =>
    if c.isDigit then octal? inSet (c :: cs)
    else if inSet && c = 'b' then some (.char '\x08', cs)
    else
      match classOf? c with
      | some item => some (item, cs)
      | none =>
        match controlOf? c with
        | some k => some (.char k, cs)
        | none => if c.isAlphanum then none else some (.char c, cs)

/-- One item of a character set, as far as it goes without a range. -/
def setAtom? : List CodePoint → Option (CharItem × List CodePoint)
  | '\\' :: cs => escape? true cs
  | c :: cs => some (.char c, cs)
  | [] => none

/-- The items of a set up to its closing bracket, which at the start of the set is an item. -/
def setItems : Nat → Bool → List CharItem → List CodePoint → Option (List CharItem × List CodePoint)
  | 0, _, _, _ => none
  | fuel + 1, start, read, cs =>
    match cs, start with
    | ']' :: rest, false => some (read.reverse, rest)
    | _, _ =>
      match setAtom? cs with
      | none => none
      | some (.char first, '-' :: rest) =>
        match rest with
        | ']' :: _ => setItems fuel false (.char first :: read) ('-' :: rest)
        | _ =>
          match setAtom? rest with
          | some (.char last, after) =>
            if last.toNat < first.toNat then none
            else setItems fuel false (.range first last :: read) after
          | _ => none
      | some (.cls k negated, '-' :: rest) =>
        match rest with
        | ']' :: _ => setItems fuel false (.cls k negated :: read) ('-' :: rest)
        | _ => none
      | some (item, rest) => setItems fuel false (item :: read) rest

def set? (cs : List CodePoint) : Option (CharSet × List CodePoint) :=
  match cs with
  | '^' :: rest =>
    (setItems (rest.length + 1) true [] rest).map fun (items, after) => (⟨items, true⟩, after)
  | _ => (setItems (cs.length + 1) true [] cs).map fun (items, after) => (⟨items, false⟩, after)

inductive Quantifier where
  | bounds (least : Nat) (most : Option Nat)
  | wrong
  deriving DecidableEq, Repr

def numberOf (digits : List CodePoint) : Option Nat :=
  if digits.isEmpty then none else some (CodePoint.digitsValue digits)

/-- Bounds in braces, after the opening brace. Braces without bounds are ordinary characters. -/
def braces? (cs : List CodePoint) : Option (Quantifier × List CodePoint) :=
  let low := cs.takeWhile (·.isDigit)
  let rest := cs.dropWhile (·.isDigit)
  match rest with
  | '}' :: after =>
    match numberOf low with
    | some n => some (.bounds n (some n), after)
    | none => none
  | ',' :: more =>
    let high := more.takeWhile (·.isDigit)
    match more.dropWhile (·.isDigit) with
    | '}' :: after =>
      let least := (numberOf low).getD 0
      match numberOf high with
      | some most =>
        if most < least then some (.wrong, after) else some (.bounds least (some most), after)
      | none => some (.bounds least none, after)
    | _ => none
  | _ => none

def quantifier? : List CodePoint → Option (Quantifier × List CodePoint)
  | '*' :: cs => some (.bounds 0 none, cs)
  | '+' :: cs => some (.bounds 1 none, cs)
  | '?' :: cs => some (.bounds 0 (some 1), cs)
  | '{' :: cs => braces? cs
  | _ => none

def anchor? : List CodePoint → Option (Anchor × List CodePoint)
  | '^' :: cs => some (.first, cs)
  | '$' :: cs => some (.line, cs)
  | '\\' :: 'A' :: cs => some (.first, cs)
  | '\\' :: 'Z' :: cs => some (.last, cs)
  | '\\' :: 'b' :: cs => some (.edge false, cs)
  | '\\' :: 'B' :: cs => some (.edge true, cs)
  | _ => none

/-- Applies the quantifier that follows an atom. A second one is refused; a question mark after the
first does not change what a whole text matches. -/
def quantified? (p : Pattern) (cs : List CodePoint) : Option (Pattern × List CodePoint) :=
  match quantifier? cs with
  | none => some (p, cs)
  | some (.wrong, _) => none
  | some (.bounds least most, rest) =>
    let rest :=
      match rest with
      | '?' :: more => more
      | _ => rest
    match quantifier? rest with
    | some _ => none
    | none => some (.times p least (most.map (· - least)), rest)

mutual

def alternatives : Nat → List CodePoint → Option (Pattern × List CodePoint)
  | 0, _ => none
  | fuel + 1, cs =>
    match sequence fuel cs with
    | some (p, '|' :: rest) =>
      match alternatives fuel rest with
      | some (q, after) => some (.alt p q, after)
      | none => none
    | other => other

/-- A run of anchors and quantified atoms up to a bar, a closing bracket or the end. -/
def sequence : Nat → List CodePoint → Option (Pattern × List CodePoint)
  | 0, _ => none
  | fuel + 1, cs =>
    match cs with
    | [] => some (.empty, [])
    | '|' :: _ => some (.empty, cs)
    | ')' :: _ => some (.empty, cs)
    | _ =>
      match part fuel cs with
      | none => none
      | some (p, rest) =>
        match sequence fuel rest with
        | some (q, after) => some (.seq p q, after)
        | none => none

/-- An anchor, which by itself cannot be repeated, or an atom with its quantifier. -/
def part : Nat → List CodePoint → Option (Pattern × List CodePoint)
  | 0, _ => none
  | fuel + 1, cs =>
    match anchor? cs with
    | some (anchor, rest) => if (quantifier? rest).isSome then none else some (.here anchor, rest)
    | none =>
      match atom fuel cs with
      | none => none
      | some (a, rest) => quantified? a rest

def atom : Nat → List CodePoint → Option (Pattern × List CodePoint)
  | 0, _ => none
  | fuel + 1, cs =>
    match cs with
    | [] => none
    | '(' :: rest =>
      let body :=
        match rest with
        | '?' :: ':' :: more => more
        | _ => rest
      match alternatives fuel body with
      | some (p, ')' :: after) => some (p, after)
      | _ => none
    | '[' :: rest => (set? rest).map fun (s, after) => (.one s, after)
    | '.' :: rest => some (.one ⟨[.char '\n'], true⟩, rest)
    | '\\' :: rest => (escape? false rest).map fun (item, after) => (.one ⟨[item], false⟩, after)
    | c :: rest =>
      if (quantifier? cs).isSome then none else some (.one ⟨[.char c], false⟩, rest)

end

end Parser

/-- A pattern, if the text is well formed. There is more to such texts than is read here: with a
reference back to a group, a group that has a name, a condition, flags or a comment, that looks
ahead or behind or is not entered twice, a character given by its name, or a repetition that gives
nothing back, a text is refused. -/
def parse? (s : Text) : Option Pattern :=
  match Parser.alternatives (4 * s.length + 4) s.toList with
  | some (p, []) => some p
  | _ => none

end TypedBlocks.Pattern
