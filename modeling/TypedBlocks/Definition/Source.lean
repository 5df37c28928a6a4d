import TypedBlocks.Fault

/-! Where a hierarchy definition comes from, and how it is loaded. Definitions are kept in files
too; a name leads to one of those written so far. -/
namespace TypedBlocks

open Json (Value)

/-- A root, empty for a relative name, and the steps from there. -/
structure FileName where
  root : Text
  steps : List Text
  deriving DecidableEq, Repr

namespace FileName

/-- Two slashes at the start are told apart from one; more than two count as one. -/
def rootOf (cs : List CodePoint) : Text :=
  match (cs.takeWhile (· = CodePoint.char '/')).length with
  | 0 => ""
  | 2 => "//"
  | _ => "/"

def pieces : List CodePoint → List CodePoint × List (List CodePoint)
  | [] => ([], [])
  | c :: cs =>
    let (first, others) := pieces cs
    if c = '/' then ([], first :: others) else (c :: first, others)

/-- Empty steps and steps that stay in place are left out. -/
def ofText (t : Text) : FileName :=
  let (first, others) := pieces t.toList
  ⟨rootOf t.toList, ((first :: others).map Text.ofList).filter fun s => s ≠ "" && s ≠ "."⟩

def text (n : FileName) : Text :=
  if n.root.isEmpty && n.steps.isEmpty then "." else n.root ++ Text.intercalate "/" n.steps

/-- The bytes of a code point in a file name. Some surrogates stand for single bytes that are part
of no character; the others cannot be written. -/
def bytesOf? : CodePoint → Option (List UInt8)
  | .char c => some (String.utf8EncodeChar c)
  | .lone half =>
    if 0x480 ≤ half.val && half.val < 0x500 then some [UInt8.ofNat (half.val - 0x400)] else none

def bytes? (t : Text) : Option (List UInt8) :=
  (t.toList.mapM bytesOf?).map List.flatten

def nameLimit : Nat := 4095

def stepLimit : Nat := 255

end FileName

/-- Where a file lies: so many levels above the working directory, or at the root. -/
structure Location where
  above : Option Nat
  name : List UInt8
  deriving DecidableEq, Repr

/-- No directory is ever made, so only the working directory and those above it hold files. -/
structure Folder where
  files : List (Location × ByteArray) := []

namespace Folder

def find? (f : Folder) (l : Location) : Option ByteArray :=
  f.files.lookup l

/-- Where a name leads. The first step that does not go up has to be the last one. -/
def locate (f : Folder) (n : FileName) : Except FileFault Location :=
  let goesUp := fun step => step = Text.ofString ".."
  match n.steps.dropWhile goesUp with
  | [] => .error .directory
  | step :: more =>
    let name := (FileName.bytes? step).getD []
    let level := (n.steps.takeWhile goesUp).length
    let place : Location := ⟨if n.root.isEmpty then some level else none, name⟩
    if FileName.stepLimit < name.length then .error .longName
    else if more.isEmpty then .ok place
    else if (f.find? place).isSome then .error .notDirectory
    else .error .missing

/-- Names that no file can have are refused before anything is looked up. -/
def reach (f : Folder) (n : FileName) (report : FileFault → Fault) : Except Fault Location :=
  match FileName.bytes? n.text with
  | none => .error .unencodable
  | some bytes =>
    if bytes.contains 0 then .error .nullInFileName
    else if FileName.nameLimit < bytes.length then .error (report .longName)
    else
      match f.locate n with
      | .ok place => .ok place
      | .error cause => .error (report cause)

def read (f : Folder) (n : FileName) : Except Fault ByteArray := do
  let report := fun cause => Fault.definition (.unreadable n.text cause)
  match f.find? (← f.reach n report) with
  | some data => return data
  | none => .error (report .missing)

def write (f : Folder) (n : FileName) (data : ByteArray) : Except Fault Folder := do
  return ⟨(← f.reach n .unwritable, data) :: f.files⟩

end Folder

inductive Source where
  | text (t : Text)
  | file (folder : Folder) (name : Text)
  | mapping (entries : List (Value × Value))
  | other (v : Value)

namespace Source

def ofValue : Value → Source
  | .text t => .text t
  | .object fields => .mapping (fields.map fun (k, v) => (.text k, v))
  | v => .other v

/-- Both a carriage return with a line feed and one without end a line. -/
def unifyLines : List CodePoint → List CodePoint
  | [] => []
  | '\r' :: '\n' :: cs => '\n' :: unifyLines cs
  | '\r' :: cs => '\n' :: unifyLines cs
  | c :: cs => c :: unifyLines cs

def ofEntries (entries : List (Value × Value)) : Except Fault Definition :=
  if entries.all fun (k, _) => k.isKey then
    .ok (.mapping (entries.foldl (fun put (k, v) => Value.putEntry put k v) []))
  else .error .wrongKind

def decode (origin t : Text) : Except Fault Definition :=
  match Json.read t with
  | .ok v => .ok (.ofValue v)
  | .error (.misplaced m) => .error (.definition (.notJson origin m))
  | .error (.tooLong digits) => .error (.tooManyDigits digits)

def fileText (data : ByteArray) : Except Fault Text :=
  match String.fromUTF8? data with
  | some s => .ok ⟨unifyLines (Text.ofString s).toList⟩
  | none => .error .undecodable

def definition : Source → Except Fault Definition
  | .text t => decode "<string>" t
  | .file folder name => do
    let name := FileName.ofText name
    decode name.text (← fileText (← folder.read name))
  | .mapping entries => ofEntries entries
  | .other v => .error (.definition (.unsupported v))

def load (s : Source) (checked : Bool) : Except Fault Definition := do
  let d ← s.definition
  if checked then
    match d.violations with
    | [] => return d
    | violations => .error (.definition (.shape violations))
  else return d

/-- What a definition handed over directly amounts to: only a mapping is one. -/
def given : Source → Except Fault Definition
  | .mapping entries => ofEntries entries
  | .text t => .ok (.other (.text t))
  | .file _ name => .ok (.other (.text name))
  | .other v => .ok (.other v)

end Source

end TypedBlocks
