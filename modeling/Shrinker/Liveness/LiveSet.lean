import Shrinker.Reference.Interner

namespace Shrinker.Liveness

open Reference

/-- Live members in the order in which they were found. A live class may have no instances;
`instantiated` has those that do. -/
structure LiveSet where
  classes : List TypeId := []
  instantiated : List TypeId := []
  methods : List MethodId := []
  fields : List FieldId := []
  deriving DecidableEq, Repr

namespace LiveSet

def empty : LiveSet := {}

def size (live : LiveSet) : Nat :=
  live.classes.length + live.instantiated.length + live.methods.length + live.fields.length

def isEmpty (live : LiveSet) : Bool :=
  live.size == 0

def hasClass (live : LiveSet) (type : TypeId) : Bool :=
  type ∈ live.classes

def hasInstance (live : LiveSet) (type : TypeId) : Bool :=
  type ∈ live.instantiated

def hasMethod (live : LiveSet) (method : MethodId) : Bool :=
  method ∈ live.methods

def hasField (live : LiveSet) (field : FieldId) : Bool :=
  field ∈ live.fields

def addClass (live : LiveSet) (type : TypeId) : LiveSet :=
  { live with classes := live.classes ++ [type] }

def addInstance (live : LiveSet) (type : TypeId) : LiveSet :=
  { live with instantiated := live.instantiated ++ [type] }

def addMethod (live : LiveSet) (method : MethodId) : LiveSet :=
  { live with methods := live.methods ++ [method] }

def addField (live : LiveSet) (field : FieldId) : LiveSet :=
  { live with fields := live.fields ++ [field] }

end LiveSet

end Shrinker.Liveness
