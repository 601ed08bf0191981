import ScriptListing.Yaml.Scalar

/-! Document trees. Every node has the line it starts on. An alias holds the node it
refers to; one inside that very node is a `cycle`, and its `Document` knows the node. -/
namespace ScriptListing.Yaml

/-- Aliases are numbered in the order in which they are written. -/
inductive Node where
  | scalar (tag value : String) (line : Nat)
  | sequence (tag : String) (items : List Node) (line : Nat)
  | mapping (tag : String) (entries : List (Node × Node)) (line : Nat)
  | aliased (anchor : String) (number : Nat) (target : Node) (line : Nat)
  | cycle (anchor : String) (number : Nat) (line : Nat)
  deriving Inhabited

namespace Node

def line : Node → Nat
  | scalar _ _ line => line
  | sequence _ _ line => line
  | mapping _ _ line => line
  | aliased _ _ _ line => line
  | cycle _ _ line => line

/-- The text of a scalar and the anchor of an alias; collections have none. -/
def value : Node → String
  | scalar _ value _ => value
  | aliased anchor _ _ _ => anchor
  | cycle anchor _ _ => anchor
  | _ => ""

def tag : Node → String
  | scalar tag _ _ => tag
  | sequence tag _ _ => tag
  | mapping tag _ _ => tag
  | _ => ""

inductive Kind where
  | scalar
  | sequence
  | mapping
  | aliased
  deriving DecidableEq, Repr

def kind : Node → Kind
  | scalar _ _ _ => .scalar
  | sequence _ _ _ => .sequence
  | mapping _ _ _ => .mapping
  | aliased _ _ _ _ => .aliased
  | cycle _ _ _ => .aliased

/-- A null by its tag. An alias to a null is none. -/
def isNull (n : Node) : Bool := n.tag == "!!null"

/-- A plain `<<` in key position. -/
def isMerge : Node → Bool
  | scalar tag value _ => value == "<<" && tag == "!!merge"
  | _ => false

def ofPlain (value : String) (line : Nat) : Node :=
  if value = "<<" then .scalar "!!merge" value line
  else .scalar (Scalar.plain true value).tag value line

def empty (line : Nat) : Node := .ofPlain "" line

mutual

def size : Node → Nat
  | scalar _ _ _ => 1
  | sequence _ items _ => sizeItems items + 1
  | mapping _ entries _ => sizeEntries entries + 1
  | aliased _ _ target _ => target.size + 1
  | cycle _ _ _ => 1

def sizeItems : List Node → Nat
  | [] => 0
  | n :: rest => n.size + sizeItems rest

def sizeEntries : List (Node × Node) → Nat
  | [] => 0
  | (key, value) :: rest => key.size + value.size + sizeEntries rest

end

end Node

/-- A tree with what its aliases need to be followed. -/
structure Document where
  root : Node
  /-- The node that each `cycle` refers to, by the number of the alias. -/
  cycles : List (Nat × Node) := []
  /-- No path through the tree is longer, with every alias followed at most once. -/
  extent : Nat
  deriving Inhabited

def Document.ofNode (n : Node) : Document := ⟨n, [], n.size⟩

def Document.target (d : Document) : Node → Node
  | .aliased _ _ target _ => target
  | .cycle anchor number line => (d.cycles.lookup number).getD (.cycle anchor number line)
  | n => n

end ScriptListing.Yaml
