/-! Symbol tables: engine types by name, each with the name of its parent. A table is
any look-up; one that a caller supplies may break off instead of answering. -/
namespace ScriptListing

structure TypeEntry where
  name : String
  super : String
  deriving DecidableEq, Repr, Inhabited

/-- What a look-up broke off with: plain text or an error value. -/
inductive Breakdown where
  | text (message : String)
  | error (message : String)
  deriving DecidableEq, Repr, Inhabited

namespace Breakdown

def message : Breakdown → String
  | text message => message
  | error message => message

def cause? : Breakdown → Option String
  | text _ => none
  | error message => some message

end Breakdown

structure SymbolTable where
  lookup : String → Except Breakdown (Option TypeEntry)

/-- Types by key; the last entry of a key counts, and keys stay in the order they
first came in. -/
structure TypeMap where
  entries : List (String × TypeEntry)
  deriving DecidableEq, Repr, Inhabited

namespace TypeMap

def empty : TypeMap := ⟨[]⟩

def find? (m : TypeMap) (key : String) : Option TypeEntry := m.entries.lookup key

def put (key : String) (entry : TypeEntry) : List (String × TypeEntry) → List (String × TypeEntry)
  | [] => [(key, entry)]
  | head :: rest => if head.1 = key then (key, entry) :: rest else head :: put key entry rest

def insert (m : TypeMap) (key : String) (entry : TypeEntry) : TypeMap :=
  ⟨put key entry m.entries⟩

def add (m : TypeMap) (name super : String) : TypeMap := m.insert name ⟨name, super⟩

def size (m : TypeMap) : Nat := m.entries.length

/-- The table that answers from the map and never breaks off. -/
def toTable (m : TypeMap) : SymbolTable := ⟨fun name => .ok (m.find? name)⟩

end TypeMap
end ScriptListing
