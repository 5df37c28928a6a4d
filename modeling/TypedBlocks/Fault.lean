import TypedBlocks.Definition.Shape
import TypedBlocks.Json.Reader
import TypedBlocks.Workspace.Place

/-! The causes of failure, each with its message. -/
namespace TypedBlocks

open Json (Value)

inductive FileFault where
  | missing
  | notDirectory
  | directory
  | longName
  deriving DecidableEq, Repr

def FileFault.message (file : Text) : FileFault → Text
  | .missing => "[Errno 2] No such file or directory: " ++ file.quoted
  | .notDirectory => "[Errno 20] Not a directory: " ++ file.quoted
  | .directory => "[Errno 21] Is a directory: " ++ file.quoted
  | .longName => "[Errno 36] File name too long: " ++ file.quoted

inductive DefinitionFault where
  | unreadable (file : Text) (cause : FileFault)
  | notJson (origin : Text) (error : Json.Misplaced)
  | unsupported (found : Value)
  | shape (violations : List Violation)
  | notMapping
  | badTypeName (found : Value)
  | reservedTypeName
  | repeatedType (type : Text)
  | bodyNotMapping (type : Text)
  | paramsNotList (type : Text)
  | badParam (type : Text) (found : Value)
  | badParamName (type : Text) (found : Value)
  | reservedParamName (type : Text)
  | repeatedParam (type param : Text)
  | badVariance (found : Value) (type param : Option Text)
  | parentsNotList (type : Text)
  | badParent (type : Text) (fault : TypeFault)
  | undefinedParent (type parent : Text)
  | parentArity (type parent : Text) (actual expected : Nat)
  | appliedParam (type param : Text) (parent : TypeExpr)
  | unknownReference (type : Text) (parent : TypeExpr) (reference : Text)
  | cyclic (cycle : List Text)

namespace DefinitionFault

def type? : DefinitionFault → Option Text
  | .unreadable _ _ | .notJson _ _ | .unsupported _ | .shape _ | .notMapping
  | .badTypeName _ => none
  | .reservedTypeName => some TypeExpr.star
  | .badVariance _ type _ => type
  | .cyclic cycle => cycle.head?
  | .repeatedType type | .bodyNotMapping type | .paramsNotList type | .badParam type _
  | .badParamName type _ | .reservedParamName type | .repeatedParam type _ | .parentsNotList type
  | .badParent type _ | .undefinedParent type _ | .parentArity type _ _ _ | .appliedParam type _ _
  | .unknownReference type _ _ => some type

/-- The parameter a variance belongs to, when both names are known and not empty. -/
def varianceOwner : Option Text → Option Text → Text
  | some type, some param =>
    if type.isEmpty || param.isEmpty then "" else " on " ++ type ++ "[" ++ param ++ "]"
  | _, _ => ""

def message : DefinitionFault → Text
  | .unreadable file cause => "Cannot read hierarchy file " ++ file ++ ": " ++ cause.message file
  | .notJson origin error => "Invalid JSON in " ++ origin ++ ": " ++ error.message
  | .unsupported found => "Unsupported hierarchy source of type " ++ found.kindName
  | .shape violations =>
    "Invalid hierarchy definition: " ++ Text.intercalate "; " (violations.map (·.line))
  | .notMapping => "The hierarchy definition must be a mapping"
  | .badTypeName found => "Invalid type name " ++ found.display
  | .reservedTypeName => "The name '*' is reserved for the unbound generic"
  | .repeatedType type => "The type " ++ type ++ " is declared more than once"
  | .bodyNotMapping type => "The definition of " ++ type ++ " must be a mapping"
  | .paramsNotList type => "The params of " ++ type ++ " must be a list"
  | .badParam type found => "Invalid parameter " ++ found.display ++ " on " ++ type
  | .badParamName type found => "Invalid parameter name " ++ found.display ++ " on " ++ type
  | .reservedParamName _ => "The name '*' cannot be used as a parameter"
  | .repeatedParam type param => "The parameter " ++ param ++ " is declared twice on " ++ type
  | .badVariance found type param =>
    "The variance '" ++ found.plain ++ "'" ++ varianceOwner type param ++ " is not valid. " ++
      "Use one of 'co', 'contra' or 'inv'"
  | .parentsNotList type => "The fulfills of " ++ type ++ " must be a list"
  | .badParent type fault => "The type " ++ type ++ " has an invalid parent: " ++ fault.message
  | .undefinedParent type parent =>
    "The type " ++ type ++ " says it fulfills the type " ++ parent ++
      ", but that type is not defined"
  | .parentArity type parent actual expected =>
    "The type " ++ type ++ " fulfills " ++ parent ++ " with " ++ Text.ofNat actual ++
      " parameter(s), but " ++ parent ++ " declares " ++ Text.ofNat expected
  | .appliedParam type param parent =>
    "The type " ++ type ++ " applies its parameter " ++ param ++ " to parameters in " ++
      parent.render
  | .unknownReference type parent reference =>
    "The type " ++ type ++ " fulfills " ++ parent.render ++ ", but '" ++ reference ++
      "' is neither one of its parameters nor a defined type"
  | .cyclic cycle => "The fulfills relation is cyclic: " ++ Text.intercalate " -> " cycle

end DefinitionFault

inductive BindingFault where
  | notGeneric (name : Text)
  | generic (name : Text)
  deriving DecidableEq, Repr

def BindingFault.message : BindingFault → Text
  | .notGeneric name => "'" ++ name ++ "' is not a generic"
  | .generic name => "'" ++ name ++ "' is a generic, not an explicit type"

structure Endpoint where
  connection : Nat
  block : Nat
  label : Text
  place : Place
  deriving DecidableEq, Repr

inductive Fault where
  | type (fault : TypeFault)
  | definition (fault : DefinitionFault)
  | uninitialized
  | binding (generic : Text) (given : Value) (cause : BindingFault)
  | checking (ends : List Endpoint) (cause : Fault)
  | resolving (generic : Value) (block : Nat) (label : Text) (cause : Fault)
  | notText
  | noSuchParam
  | repeatedInput (label name : Text)
  | badPattern
  | wrongKind
  | unencodable
  | nullInFileName
  | unwritable (cause : FileFault)
  | undecodable
  | tooManyDigits (count : Nat)
  | unending

namespace Fault

/-- Faults of the library's own making; the others pass through every layer as they are. -/
def isReported : Fault → Bool
  | .type _ | .definition _ | .uninitialized | .binding _ _ _ | .checking _ _
  | .resolving _ _ _ _ => true
  | .notText | .noSuchParam | .repeatedInput _ _ | .badPattern | .wrongKind | .unencodable
  | .nullInFileName | .unwritable _ | .undecodable | .tooManyDigits _ | .unending => false

def blockText (label : Text) : Text :=
  "Block(" ++ Text.quoted label ++ ")"

def message : Fault → Text
  | .type fault => fault.message
  | .definition fault => fault.message
  | .uninitialized => "The checker has not been initialized with a type hierarchy"
  | .binding generic given cause =>
    "Cannot bind generic '" ++ generic ++ "' to '" ++ given.plain ++ "': " ++ cause.message
  | .checking ends cause =>
    "Error while checking connection(s) " ++ Text.intercalate ", " (ends.map (·.place.title)) ++
      " on " ++ Text.intercalate ", " (ends.map fun e => blockText e.label) ++ ": " ++
      cause.message
  | .resolving generic _ label cause =>
    "Error while resolving '" ++ generic.plain ++ "' on " ++ blockText label ++ ": " ++
      cause.message
  | .notText => "a name must be a text"
  | .noSuchParam => "no parameter has that index"
  | .repeatedInput label name => "Block " ++ label ++ " already has an input named " ++ name
  | .badPattern => "the pattern is not well formed"
  | .wrongKind => "a value of this kind cannot stand here"
  | .unencodable => "the text cannot be written in UTF-8"
  | .nullInFileName => "embedded null byte"
  | .unwritable _ => "the file cannot be written"
  | .undecodable => "the file is not UTF-8 text"
  | .tooManyDigits count =>
    "Exceeds the limit (" ++ Text.ofNat Json.Reader.digitLimit ++
      " digits) for integer string conversion: value has " ++ Text.ofNat count ++
      " digits; use sys.set_int_max_str_digits() to increase the limit"
  | .unending => "the resolution does not end"

end Fault

end TypedBlocks
