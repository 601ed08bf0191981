import ScriptListing.Expr
import ScriptListing.Property.Flags

/-! Properties: fields of a class, parameters and locals of a function. A class stands by
its key, and a container's elements are properties themselves. -/
namespace ScriptListing

structure Property where
  name : String
  kind : String
  flags : Flags := .none
  enum : String := ""
  struct : String := ""
  inner : Option Property := none
  key : Option Property := none
  value : Option Property := none
  objectClass : Option String := none
  interface : String := ""
  metaClass : String := ""
  deriving Inhabited

namespace Property

def isParm (p : Property) : Bool := p.flags.has .parm
def isOutParm (p : Property) : Bool := p.flags.has .outParm
def isReturnParm (p : Property) : Bool := p.flags.has .returnParm

mutual

def classes : Property → List String
  | ⟨_, _, _, _, _, inner, key, value, objectClass, _, _⟩ =>
    objectClass.toList ++ elementClasses inner ++ elementClasses key ++ elementClasses value

def elementClasses : Option Property → List String
  | none => []
  | some p => p.classes

end

end Property
end ScriptListing

/-! Script classes and their functions. Classes refer to each other by keys: a `Hierarchy`
gives each class at most one parent and its name. Cycles are possible, and classes that
share a name. -/
namespace ScriptListing

structure Function where
  name : String
  owner : String
  properties : List Property
  script : List Statement
  deriving Inhabited

namespace Function

/-- A parameter or local by name, the first one declared. -/
def property? (f : Function) (name : String) : Option Property :=
  f.properties.find? (·.name == name)

/-- The property that carries the return value, the first one flagged so. -/
def returnProperty? (f : Function) : Option Property :=
  f.properties.find? Property.isReturnParm

def parameters (f : Function) : List Property :=
  f.properties.filter fun p => p.isParm && !p.isReturnParm

end Function

/-- Parents and names by the keys of classes. The first entry of a key counts. A class
without a link has no parent, and the key of a class is its name unless it has another. -/
structure Hierarchy where
  links : List (String × Option String) := []
  names : List (String × String) := []
  deriving Inhabited

namespace Hierarchy

def super? (h : Hierarchy) (key : String) : Option String :=
  (h.links.lookup key).join

def nameOf (h : Hierarchy) (key : String) : String := (h.names.lookup key).getD key

def link (h : Hierarchy) (key : String) (super : Option String) : Hierarchy :=
  { h with links := (key, super) :: h.links }

/-- The parents above a class in order, cut where a class of `seen` comes again. -/
def above (h : Hierarchy) : (steps : Nat) → (seen : List String) → String → List String
  | 0, _, _ => []
  | steps + 1, seen, key =>
    match h.super? key with
    | none => []
    | some parent =>
      if seen.contains parent then [] else parent :: above h steps (parent :: seen) parent

def chain (h : Hierarchy) (key : String) : List String :=
  key :: above h h.links.length [key] key

def reach (h : Hierarchy) (keys : List String) : List (String × Option String) :=
  ((keys.flatMap h.chain).eraseDups).map fun key => (key, h.super? key)

end Hierarchy

structure Class where
  name : String
  path : String := ""
  properties : List Property := []
  functions : List Function := []
  hierarchy : Hierarchy := {}
  deriving Inhabited

namespace Class

def super? (c : Class) : Option String := c.hierarchy.super? c.name

def superName (c : Class) : String := (c.super?.map c.hierarchy.nameOf).getD ""

def function? (c : Class) (name : String) : Option Function :=
  c.functions.find? (·.name == name)

def allProperties (c : Class) : List Property :=
  c.properties ++ c.functions.flatMap Function.properties

def reach (c : Class) : List (String × Option String) :=
  c.hierarchy.reach (c.name :: c.allProperties.flatMap Property.classes)

end Class
end ScriptListing
