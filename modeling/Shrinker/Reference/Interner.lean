import Shrinker.Reference.Descriptor
import Shrinker.Reference.Table

namespace Shrinker.Reference

structure Symbol where
  index : Nat
  deriving DecidableEq, Repr, Ord, Inhabited

structure TypeId where
  index : Nat
  deriving DecidableEq, Repr, Ord, Inhabited

structure ProtoId where
  index : Nat
  deriving DecidableEq, Repr, Ord, Inhabited

structure MethodId where
  index : Nat
  deriving DecidableEq, Repr, Ord, Inhabited

structure FieldId where
  index : Nat
  deriving DecidableEq, Repr, Ord, Inhabited

structure Proto where
  parameters : List TypeId
  result : TypeId
  deriving DecidableEq, Repr, Inhabited

structure MethodRef where
  holder : TypeId
  name : Symbol
  proto : ProtoId
  deriving DecidableEq, Repr, Inhabited

structure FieldRef where
  holder : TypeId
  name : Symbol
  type : TypeId
  deriving DecidableEq, Repr, Inhabited

/-- What two methods must share for one to override the other: all of the reference but its holder. -/
structure Signature where
  name : Symbol
  proto : ProtoId
  deriving DecidableEq, Repr, Ord, Inhabited

def MethodRef.signature (method : MethodRef) : Signature :=
  ⟨method.name, method.proto⟩

structure Interner where
  symbols : Table String
  types : Table Symbol
  protos : Table Proto
  methods : Table MethodRef
  fields : Table FieldRef
  deriving Inhabited

namespace Interner

def empty : Interner :=
  ⟨.empty, .empty, .empty, .empty, .empty⟩

def internSymbol (interner : Interner) (text : String) : Symbol × Interner :=
  let (index, symbols) := interner.symbols.intern text
  (⟨index⟩, { interner with symbols })

/-- Any text will do for a type; its form is not checked here. -/
def internType (interner : Interner) (descriptor : String) : TypeId × Interner :=
  let (symbol, interner) := interner.internSymbol descriptor
  let (index, types) := interner.types.intern symbol
  (⟨index⟩, { interner with types })

def internTypes (interner : Interner) : List String → List TypeId × Interner
  | [] => ([], interner)
  | descriptor :: descriptors =>
      let (type, interner) := interner.internType descriptor
      let (types, interner) := interner.internTypes descriptors
      (type :: types, interner)

def internProto (interner : Interner) (proto : Proto) : ProtoId × Interner :=
  let (index, protos) := interner.protos.intern proto
  (⟨index⟩, { interner with protos })

def internMethod (interner : Interner) (method : MethodRef) : MethodId × Interner :=
  let (index, methods) := interner.methods.intern method
  (⟨index⟩, { interner with methods })

def internField (interner : Interner) (field : FieldRef) : FieldId × Interner :=
  let (index, fields) := interner.fields.intern field
  (⟨index⟩, { interner with fields })

def internDescriptor? (interner : Interner) (descriptor : String) :
    Option (ProtoId × Interner) :=
  (Descriptor.splitMethod? descriptor).map fun (parameterTexts, resultText) =>
    let (parameters, interner) := interner.internTypes parameterTexts
    let (result, interner) := interner.internType resultText
    interner.internProto ⟨parameters, result⟩

/-- Adds a method given by the texts of its parts. Only the descriptor is checked. -/
def internMethodParts? (interner : Interner) (holderText nameText descriptor : String) :
    Option (MethodId × Interner) :=
  (interner.internDescriptor? descriptor).map fun (proto, interner) =>
    let (holder, interner) := interner.internType holderText
    let (name, interner) := interner.internSymbol nameText
    interner.internMethod ⟨holder, name, proto⟩

def internFieldParts (interner : Interner) (holderText nameText typeText : String) :
    FieldId × Interner :=
  let (holder, interner) := interner.internType holderText
  let (name, interner) := interner.internSymbol nameText
  let (type, interner) := interner.internType typeText
  interner.internField ⟨holder, name, type⟩

def splitArrow? : List Char → Option (List Char × List Char)
  | [] => none
  | '-' :: '>' :: member => some ([], member)
  | c :: rest => (splitArrow? rest).map fun (holder, member) => (c :: holder, member)

/-- Reads a method written `holder->name(parameters)result`. -/
def parseMethod? (interner : Interner) (text : String) : Option (MethodId × Interner) := do
  let (holder, member) ← splitArrow? text.toList
  let name := member.takeWhile (· != '(')
  let descriptor := member.dropWhile (· != '(')
  if Descriptor.isTypeChars holder && !name.isEmpty then
    interner.internMethodParts? (.ofList holder) (.ofList name) (.ofList descriptor)
  else
    none

def parseField? (interner : Interner) (text : String) : Option (FieldId × Interner) := do
  let (holder, member) ← splitArrow? text.toList
  let name := member.takeWhile (· != ':')
  match member.dropWhile (· != ':') with
  | [] => none
  | _ :: type =>
      if Descriptor.isTypeChars holder && !name.isEmpty && Descriptor.isTypeChars type then
        some (interner.internFieldParts (.ofList holder) (.ofList name) (.ofList type))
      else
        none

def symbolText (interner : Interner) (symbol : Symbol) : String :=
  (interner.symbols.get? symbol.index).getD ""

def typeText (interner : Interner) (type : TypeId) : String :=
  interner.symbolText ((interner.types.get? type.index).getD default)

def proto (interner : Interner) (proto : ProtoId) : Proto :=
  (interner.protos.get? proto.index).getD default

def method (interner : Interner) (method : MethodId) : MethodRef :=
  (interner.methods.get? method.index).getD default

def field (interner : Interner) (field : FieldId) : FieldRef :=
  (interner.fields.get? field.index).getD default

def signature (interner : Interner) (method : MethodId) : Signature :=
  (interner.method method).signature

def protoText (interner : Interner) (id : ProtoId) : String :=
  let proto := interner.proto id
  "(" ++ String.join (proto.parameters.map interner.typeText) ++ ")" ++
    interner.typeText proto.result

def methodText (interner : Interner) (id : MethodId) : String :=
  let method := interner.method id
  interner.typeText method.holder ++ "->" ++ interner.symbolText method.name ++
    interner.protoText method.proto

def fieldText (interner : Interner) (id : FieldId) : String :=
  let field := interner.field id
  interner.typeText field.holder ++ "->" ++ interner.symbolText field.name ++ ":" ++
    interner.typeText field.type

end Interner

def TypeId.object : TypeId := ⟨0⟩

def TypeId.classObject : TypeId := ⟨1⟩

def TypeId.bool : TypeId := ⟨2⟩

def TypeId.void : TypeId := ⟨3⟩

def TypeId.kotlinAssertions : TypeId := ⟨4⟩

def Symbol.constructor : Symbol := ⟨4⟩

def Symbol.classInitializer : Symbol := ⟨5⟩

def Symbol.assertionsDisabled : Symbol := ⟨6⟩

def Symbol.enabled : Symbol := ⟨7⟩

/-- Asks a class whether its assertions should run. -/
def MethodId.desiredAssertionStatus : MethodId := ⟨0⟩

def FieldId.kotlinAssertionsEnabled : FieldId := ⟨0⟩

namespace Interner

def standard : Interner :=
  let (_, interner) := empty.internType "Ljava/lang/Object;"
  let (classObject, interner) := interner.internType "Ljava/lang/Class;"
  let (bool, interner) := interner.internType "Z"
  let (_, interner) := interner.internType "V"
  let (_, interner) := interner.internSymbol "<init>"
  let (_, interner) := interner.internSymbol "<clinit>"
  let (_, interner) := interner.internSymbol "$assertionsDisabled"
  let (enabled, interner) := interner.internSymbol "ENABLED"
  let (status, interner) := interner.internProto ⟨[], bool⟩
  let (statusName, interner) := interner.internSymbol "desiredAssertionStatus"
  let (_, interner) := interner.internMethod ⟨classObject, statusName, status⟩
  let (kotlinAssertions, interner) := interner.internType "Lkotlin/_Assertions;"
  let (_, interner) := interner.internField ⟨kotlinAssertions, enabled, bool⟩
  interner

def isConstructor (interner : Interner) (method : MethodId) : Bool :=
  (interner.method method).name == .constructor

def isClassInitializer (interner : Interner) (method : MethodId) : Bool :=
  (interner.method method).name == .classInitializer

def isInitializer (interner : Interner) (method : MethodId) : Bool :=
  interner.isConstructor method || interner.isClassInitializer method

/-- Every well-known reference is what it is called. -/
example :
    [TypeId.object, .classObject, .bool, .void, .kotlinAssertions].map standard.typeText =
        ["Ljava/lang/Object;", "Ljava/lang/Class;", "Z", "V", "Lkotlin/_Assertions;"] ∧
      [Symbol.constructor, .classInitializer, .assertionsDisabled, .enabled].map
          standard.symbolText =
        ["<init>", "<clinit>", "$assertionsDisabled", "ENABLED"] ∧
      standard.methodText .desiredAssertionStatus =
        "Ljava/lang/Class;->desiredAssertionStatus()Z" ∧
      standard.fieldText .kotlinAssertionsEnabled = "Lkotlin/_Assertions;->ENABLED:Z" := by
  decide

end Interner

end Shrinker.Reference
