import ScriptListing.FileTree
import ScriptListing.Text.Octet
import ScriptListing.Toml.Value
import ScriptListing.Yaml.Error

/-! Failures: a cause, and the places it was met at from the outermost inward. -/
namespace ScriptListing

inductive Cause where
  | notFound
  | canceled
  | noArchive
  | noKey
  | badKey (invalid : Option UInt8)
  | workers (count : Int)
  | file (error : FileTree.Error)
  | yaml (error : Yaml.Error)
  | toml (error : Toml.Error)
  | endOfInput
  | unsupportedFormat (ending : String)
  | unknownKey (key : String)
  | emptyObjectName
  | invalidObjectName (name : String)
  | notDirectory (path : String)
  | keyLength (bytes : Nat)
  | partialBlock (bytes : Nat)
  | malformedFlag (name : String)
  | untypedProperty (name : String)
  | missingField (key : String)
  | notMapping
  | notList
  | unexpectedNode
  /-- Reading that never ends, and overflows the stack. -/
  | endless
  | mappingsShape
  | mappingsEntry (line : Nat)
  | namelessType
  | noClass
  | noWriter
  | noOpenArchive
  | lookup (message : String)
  | refused (reason : String)
  deriving DecidableEq, Repr

namespace Cause

/-- A byte by its number, and as a character where that is printable. -/
def byteText (b : UInt8) : String :=
  let c := Char.ofNat b.toNat
  "U+" ++ String.ofList (Text.fixedHex Text.upperDigit b.toNat 4) ++
    (if Text.isPrintable c then " '" ++ c.toString ++ "'" else "")

def message : Cause → String
  | notFound => "object not found"
  | canceled => "context canceled"
  | noArchive => "no archive directory given"
  | noKey => "no AES key given"
  | badKey none => "AES key must be 0x followed by 64 hex digits"
  | badKey (some b) =>
    "AES key must be 0x followed by 64 hex digits: encoding/hex: invalid byte: " ++ byteText b
  | workers count => "workers must be positive, got " ++ toString count
  | file error => error.message
  | yaml error => error.message
  | toml error => error.message
  | endOfInput => "EOF"
  | unsupportedFormat ending => "unsupported format " ++ Text.quoted ending
  | unknownKey key => "unknown key " ++ key
  | emptyObjectName => "empty object name"
  | invalidObjectName name => "invalid object name " ++ Text.quoted name
  | notDirectory path => path ++ " is not a directory"
  | keyLength bytes => "key must be 32 bytes, got " ++ toString bytes
  | partialBlock bytes => "encrypted size " ++ toString bytes ++ " is not a multiple of 16"
  | malformedFlag name => "malformed property flag " ++ Text.quoted name
  | untypedProperty name => "property " ++ Text.quoted name ++ " has no type"
  | missingField key => "missing " ++ Text.quoted key
  | notMapping => "expected a mapping"
  | notList => "expected a list"
  | unexpectedNode => "unexpected node"
  | endless => "stack overflow"
  | mappingsShape => "mappings: expected a mapping at top level"
  | mappingsEntry line => "mappings: line " ++ toString line ++ ": expected name: super"
  | namelessType => "mappings: type entry without a name"
  | noClass => "nil class"
  | noWriter => "nil writer"
  | noOpenArchive => "nil archive"
  | lookup message => message
  | refused reason => reason

end Cause

structure Failure where
  places : List String
  cause : Cause
  deriving DecidableEq, Repr

namespace Failure

def of (cause : Cause) : Failure := ⟨[], cause⟩

def within (place : String) (f : Failure) : Failure := { f with places := place :: f.places }

def message (f : Failure) : String := ": ".intercalate (f.places ++ [f.cause.message])

def isCanceled (f : Failure) : Bool := f.cause = .canceled

def isEndless (f : Failure) : Bool := f.cause = .endless

def isNotExist (f : Failure) : Bool :=
  match f.cause with
  | .file error => error.reason = .notExist
  | _ => false

end Failure

abbrev Attempt := Except Failure

def fail {α : Type} (cause : Cause) : Attempt α := .error (.of cause)

def inside {α : Type} (place : String) (step : Attempt α) : Attempt α :=
  step.mapError (Failure.within place)

end ScriptListing
