import Shrinker.Collection.Ascending
import Shrinker.Program.Class

/-!
The hierarchy of types below a root. It is made of edges from a type to those declared under it, in the
order of the declarations. A type that is named as a superclass but not defined hangs below the root, so
that a walk from the root reaches every class.
-/
namespace Shrinker.Program

open Reference Collection

/-- Edges between types. Defined interfaces are kept by increasing number. -/
structure Hierarchy where
  root : TypeId
  defined : List TypeId := []
  extending : List (TypeId × TypeId) := []
  implementing : List (TypeId × TypeId) := []
  interfaces : List TypeId := []
  deriving DecidableEq, Repr

namespace Hierarchy

def targets (edges : List (TypeId × TypeId)) (source : TypeId) : List TypeId :=
  edges.filterMap fun (start, target) => if start = source then some target else none

def subclasses (hierarchy : Hierarchy) (type : TypeId) : List TypeId :=
  targets hierarchy.extending type

/-- Types that name `type` as an interface, once for each time they do. -/
def implementors (hierarchy : Hierarchy) (type : TypeId) : List TypeId :=
  targets hierarchy.implementing type

def directSubtypes (hierarchy : Hierarchy) (type : TypeId) : List TypeId :=
  hierarchy.subclasses type ++ hierarchy.implementors type

def extend (hierarchy : Hierarchy) (parent child : TypeId) : Hierarchy :=
  if (parent, child) ∈ hierarchy.extending then
    hierarchy
  else
    { hierarchy with extending := hierarchy.extending ++ [(parent, child)] }

/-- The edge to a class from its superclass, which hangs below the root if it has no definition. A class
without superclass hangs below the root itself. -/
def addSuper (hierarchy : Hierarchy) (definition : ClassDef) : Hierarchy :=
  match definition.super? with
  | some parent =>
      let linked := hierarchy.extend parent definition.type
      if parent = hierarchy.root ∨ parent ∈ hierarchy.defined then
        linked
      else
        linked.extend hierarchy.root parent
  | none =>
      if definition.type = hierarchy.root then
        hierarchy
      else
        hierarchy.extend hierarchy.root definition.type

/-- A class with a superclass of its own no longer hangs below the root. -/
def detach (hierarchy : Hierarchy) (definition : ClassDef) : Hierarchy :=
  match definition.super? with
  | some parent =>
      if parent = hierarchy.root then
        hierarchy
      else
        { hierarchy with
          extending := hierarchy.extending.filter (· != (hierarchy.root, definition.type)) }
  | none => hierarchy

def addInterfaces (hierarchy : Hierarchy) (definition : ClassDef) : Hierarchy :=
  { hierarchy with
    implementing := hierarchy.implementing ++
      definition.interfaces.map fun parent => (parent, definition.type)
    interfaces :=
      if definition.isInterface then
        Ascending.insert TypeId.index definition.type hierarchy.interfaces
      else
        hierarchy.interfaces }

def addClass (hierarchy : Hierarchy) (definition : ClassDef) : Hierarchy :=
  let known := { hierarchy with defined := definition.type :: hierarchy.defined }
  ((known.addSuper definition).detach definition).addInterfaces definition

end Hierarchy

end Shrinker.Program
