import Shrinker.Program.Access
import Shrinker.Program.Code

namespace Shrinker.Program

open Reference

inductive Origin where
  | program | library
  deriving DecidableEq, Repr

structure FieldDef where
  field : FieldId
  access : Access
  deriving DecidableEq, Repr

/-- A method without a body is abstract or runs elsewhere. `publicized` marks a private method that was
opened up. -/
structure MethodDef where
  method : MethodId
  access : Access
  code : Option Code := none
  publicized : Bool := false
  deriving DecidableEq, Repr

namespace MethodDef

def isDirect (definition : MethodDef) : Bool :=
  definition.access.isPrivate || definition.access.isStatic || definition.access.isConstructor

/-- Opens the method to all callers and closes it to overriding. -/
def publicize (definition : MethodDef) : MethodDef :=
  { definition with
    access := { definition.access.promote with isFinal := true }
    publicized := true }

end MethodDef

/-- A class or interface. Methods that need dispatch are kept apart from those that do not. -/
structure ClassDef where
  type : TypeId
  origin : Origin
  access : Access := {}
  super? : Option TypeId := none
  interfaces : List TypeId := []
  fields : List FieldDef := []
  directMethods : List MethodDef := []
  virtualMethods : List MethodDef := []
  deriving DecidableEq, Repr

namespace ClassDef

def isProgram (definition : ClassDef) : Bool :=
  definition.origin == .program

def isInterface (definition : ClassDef) : Bool :=
  definition.access.isInterface

def parents (definition : ClassDef) : List TypeId :=
  definition.super?.toList ++ definition.interfaces

def methods (definition : ClassDef) : List MethodDef :=
  definition.directMethods ++ definition.virtualMethods

def addMethod (definition : ClassDef) (method : MethodDef) : ClassDef :=
  if method.isDirect then
    { definition with directMethods := definition.directMethods ++ [method] }
  else
    { definition with virtualMethods := definition.virtualMethods ++ [method] }

def method? (definition : ClassDef) (method : MethodId) : Option MethodDef :=
  definition.methods.find? (·.method == method)

def field? (definition : ClassDef) (field : FieldId) : Option FieldDef :=
  definition.fields.find? (·.field == field)

def mapMethod (definition : ClassDef) (method : MethodId) (change : MethodDef → MethodDef) :
    ClassDef :=
  let changed (candidate : MethodDef) :=
    if candidate.method = method then change candidate else candidate
  { definition with
    directMethods := definition.directMethods.map changed
    virtualMethods := definition.virtualMethods.map changed }

/-- Moves direct methods to the end of the virtual ones, in the order in which they stood. -/
def virtualize (definition : ClassDef) (moved : List MethodId) : ClassDef :=
  { definition with
    directMethods := definition.directMethods.filter (·.method ∉ moved)
    virtualMethods := definition.virtualMethods ++
      definition.directMethods.filter (·.method ∈ moved) }

end ClassDef

end Shrinker.Program
