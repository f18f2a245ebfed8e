import Shrinker.Collection.DepthFirst
import Shrinker.Program.Basic

namespace Shrinker.Program

open Reference Collection

structure MethodHit where
  holder : ClassDef
  definition : MethodDef
  deriving DecidableEq, Repr

structure FieldHit where
  holder : ClassDef
  definition : FieldDef
  deriving DecidableEq, Repr

def superWalk (program : Program) (type : TypeId) : List ClassDef :=
  let above (type : TypeId) := ((program.definition? type).bind (·.super?)).toList
  (DepthFirst.visit above program.definedTypes [type]).filterMap program.definition?

def parents (program : Program) (type : TypeId) : List TypeId :=
  ((program.definition? type).map (·.parents)).getD []

def interfacesOf (program : Program) (type : TypeId) : List TypeId :=
  ((program.definition? type).map (·.interfaces)).getD []

def isSubtype (program : Program) (sub sup : TypeId) : Bool :=
  sub == sup ||
    (DepthFirst.visit program.parents program.definedTypes [sub]).any
      fun type => sup ∈ program.parents type

def methodDefinition? (program : Program) (method : MethodId) : Option MethodHit := do
  let holder ← program.definition? (program.interner.method method).holder
  let definition ← holder.method? method
  return ⟨holder, definition⟩

def withSignature? (program : Program) (signature : Signature) (holder : ClassDef)
    (methods : List MethodDef) : Option MethodHit :=
  (methods.find? fun definition => program.interner.signature definition.method == signature).map
    fun definition => ⟨holder, definition⟩

/-- The interfaces that a walk comes upon: those named last are searched first. -/
def inheritedInterfaces (program : Program) (walk : List ClassDef) : List ClassDef :=
  let above (type : TypeId) := (program.interfacesOf type).reverse
  (DepthFirst.visit above program.definedTypes (walk.flatMap (·.interfaces)).reverse).filterMap
    program.definition?

/-- Looks a signature up in the methods that `select` admits on the superclass walk, then in the virtual
methods of the inherited interfaces. -/
def lookupSignature? (program : Program) (select : ClassDef → List MethodDef) (type : TypeId)
    (signature : Signature) : Option MethodHit :=
  let walk := program.superWalk type
  (walk.findSome? fun holder => program.withSignature? signature holder (select holder)).or
    ((program.inheritedInterfaces walk).findSome? fun holder =>
      program.withSignature? signature holder holder.virtualMethods)

def lookupMethod? (program : Program) (type : TypeId) (method : MethodId) : Option MethodHit :=
  program.lookupSignature? (·.methods) type (program.interner.signature method)

/-- The method that a call on a receiver of type `type` runs. Direct methods have no part in it. -/
def dispatchMethod? (program : Program) (type : TypeId) (method : MethodId) : Option MethodHit :=
  program.lookupSignature? (·.virtualMethods) type (program.interner.signature method)

def resolveMethod? (program : Program) (method : MethodId) : Option MethodHit :=
  program.lookupMethod? (program.interner.method method).holder method

def matchingField? (program : Program) (target : FieldRef) (holder : ClassDef) : Option FieldHit :=
  (holder.fields.find? fun definition =>
    let candidate := program.interner.field definition.field
    candidate.name == target.name && candidate.type == target.type).map
      fun definition => ⟨holder, definition⟩

def withInterfaces (program : Program) (type : TypeId) : List ClassDef :=
  (DepthFirst.visit program.interfacesOf program.definedTypes [type]).filterMap
    program.definition?

def resolveField? (program : Program) (field : FieldId) : Option FieldHit :=
  let target := program.interner.field field
  (program.superWalk target.holder).findSome? fun above =>
    (program.withInterfaces above.type).findSome? (program.matchingField? target)

end Shrinker.Program
