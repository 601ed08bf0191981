import ScriptListing.Number.Literal
import ScriptListing.Settings
import ScriptListing.Text.Octet

/-! The flags of a command line. One dash or two start a flag, its value follows an
equals sign or is the next argument, and the first argument that is no flag ends them. -/
namespace ScriptListing.CommandLine

structure Request where
  settings : Settings := {}
  /-- A settings file; empty for none. -/
  file : String := ""
  deriving DecidableEq, Repr, Inhabited

def splitList (source : String) : List String :=
  (((source.toList.splitOnP (· == ',')).map Text.trimBlanks).filter (!·.isEmpty)).map String.ofList

def addToList (list : List String) (value : String) : List String := list ++ splitList value

def listText (list : List String) : String := ",".intercalate list

/-- How a flag takes its value; an error says what is wrong with one. -/
inductive Taking where
  | value (put : String → Request → Except String Request)
  | switch (put : Bool → Request → Request)

structure Flag where
  name : String
  /-- What stands for the value in the usage text. -/
  placeholder : String
  description : String
  taking : Taking

def textFlag (name description : String) (put : String → Request → Request) : Flag :=
  ⟨name, "string", description, .value fun value r => .ok (put value r)⟩

def putInteger (put : Int → Request → Request) (value : String) (r : Request) :
    Except String Request :=
  match Number.integer64? value.toList with
  | some n => .ok (put n r)
  | none =>
    .error (if Number.isTooLarge value.toList then "value out of range" else "parse error")

def flags : List Flag := [
  textFlag "aes" "AES-256 key, 0x followed by 64 hex digits"
    fun v r => { r with settings.key := v },
  textFlag "config" "YAML or TOML config file" fun v r => { r with file := v },
  textFlag "i" "archive directory holding class dumps"
    fun v r => { r with settings.archive := v },
  ⟨"j", "int", "classes processed concurrently (default: number of CPUs)",
    .value (putInteger fun n r => { r with settings.workers := n })⟩,
  textFlag "map" "symbol mapping file (YAML or JSON)"
    fun v r => { r with settings.mappings := v },
  textFlag "o" "output directory (default: current directory)"
    fun v r => { r with settings.output := v },
  ⟨"obj", "value", "object path to disassemble; repeatable, comma separated",
    .value fun v r => .ok { r with settings.objects := addToList r.settings.objects v }⟩,
  ⟨"v", "", "debug logging", .switch fun b r => { r with settings.verbose := b }⟩]

def Flag.usage (f : Flag) : List String :=
  let head := "  -" ++ f.name ++ (if f.placeholder = "" then "" else " " ++ f.placeholder)
  if head.length ≤ 4 then [head ++ "\t" ++ f.description]
  else [head, "    \t" ++ f.description]

def usage : List String := "Usage of kismetdis:" :: flags.flatMap Flag.usage

inductive Refusal where
  | help
  | wrong (message : String)
  deriving DecidableEq, Repr

def trueWords : List String := ["1", "t", "T", "true", "TRUE", "True"]
def falseWords : List String := ["0", "f", "F", "false", "FALSE", "False"]

def truth? (word : String) : Option Bool :=
  if trueWords.contains word then some true
  else if falseWords.contains word then some false
  else none

inductive Argument where
  | positional
  | endOfFlags
  | malformed
  | flag (name : String) (value : Option String)
  deriving DecidableEq, Repr

/-- A flag after its dashes, cut at the first equals sign past its first character. -/
def Argument.ofBody : List Char → Argument
  | [] => .malformed
  | c :: rest =>
    if c == '-' || c == '=' then .malformed
    else
      let name := c :: rest.takeWhile (· != '=')
      match rest.dropWhile (· != '=') with
      | [] => .flag (String.ofList name) none
      | _ :: value => .flag (String.ofList name) (some (String.ofList value))

def Argument.of (argument : String) : Argument :=
  match argument.toList with
  | ['-', '-'] => .endOfFlags
  | '-' :: '-' :: body => .ofBody body
  | '-' :: c :: rest => .ofBody (c :: rest)
  | _ => .positional

def wrongValue (name value problem : String) : Refusal :=
  .wrong ("invalid value " ++ Text.quoted value ++ " for flag -" ++ name ++ ": " ++ problem)

/-- A switch is on unless its value says otherwise. -/
def Flag.turn (f : Flag) (put : Bool → Request → Request) (value : Option String) (r : Request) :
    Except Refusal Request :=
  match value with
  | none => .ok (put true r)
  | some word =>
    match truth? word with
    | some b => .ok (put b r)
    | none =>
      .error (.wrong ("invalid boolean value " ++ Text.quoted word ++ " for -" ++ f.name ++
        ": parse error"))

def Flag.give (f : Flag) (put : String → Request → Except String Request) (value : String)
    (r : Request) : Except Refusal Request :=
  (put value r).mapError (wrongValue f.name value)

/-- A name that no flag has. Two of them ask for help. -/
def undefined (name : String) : Refusal :=
  if name = "help" || name = "h" then .help
  else .wrong ("flag provided but not defined: -" ++ name)

/-- The request of some arguments. What follows the flags are objects. -/
def readArguments (r : Request) : List String → Except Refusal Request
  | [] => .ok r
  | argument :: rest =>
    match Argument.of argument with
    | .positional => .ok { r with settings.objects := r.settings.objects ++ argument :: rest }
    | .endOfFlags => .ok { r with settings.objects := r.settings.objects ++ rest }
    | .malformed => .error (.wrong ("bad flag syntax: " ++ argument))
    | .flag name value =>
      match flags.find? (·.name == name) with
      | none => .error (undefined name)
      | some f =>
        match f.taking, value, rest with
        | .switch put, value, rest => do
          let r ← f.turn put value r
          readArguments r rest
        | .value put, some value, rest => do
          let r ← f.give put value r
          readArguments r rest
        | .value put, none, value :: rest => do
          let r ← f.give put value r
          readArguments r rest
        | .value _, none, [] => .error (.wrong ("flag needs an argument: -" ++ name))

def parse (arguments : List String) : Except Refusal Request := readArguments {} arguments

end ScriptListing.CommandLine
