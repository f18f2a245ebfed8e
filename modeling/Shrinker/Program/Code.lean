import Shrinker.Bytecode.Instruction
import Shrinker.Reference.Interner

namespace Shrinker.Program

open Bytecode Reference

inductive LogicalOp where
  | and | or | xor
  deriving DecidableEq, Repr

namespace LogicalOp

def name : LogicalOp → String
  | and => "and"
  | or => "or"
  | xor => "xor"

def ofName? (text : String) : Option LogicalOp :=
  [and, or, xor].find? (·.name == text)

end LogicalOp

inductive StackInstruction where
  | label (label : Nat)
  | frame
  | position (line : Nat)
  | constNumber (value : Int)
  | constString (text : String)
  | constClass (type : TypeId)
  | load (slot : Nat)
  | store (slot : Nat)
  | logic (op : LogicalOp)
  | arrayStore
  | branch (target : Nat)
  | jump (target : Nat)
  | invoke (kind : InvokeKind) (method : MethodId)
  | staticGet (field : FieldId)
  | staticPut (field : FieldId)
  | instanceGet (field : FieldId)
  | instancePut (field : FieldId)
  | new (type : TypeId)
  | dup
  | pop
  | ret
  | raise
  deriving DecidableEq, Repr

inductive StackKind where
  | label | frame | position | const | load | store | logicalBinop | arrayStore | branch | jump
  | invoke | staticGet | staticPut | instanceGet | instancePut | new | other
  deriving DecidableEq, Repr

namespace StackKind

def name : StackKind → String
  | label => "Label"
  | frame => "Frame"
  | position => "Position"
  | const => "Const"
  | load => "Load"
  | store => "Store"
  | logicalBinop => "LogicalBinop"
  | arrayStore => "ArrayStore"
  | branch => "If"
  | jump => "Goto"
  | invoke => "Invoke"
  | staticGet => "StaticGet"
  | staticPut => "StaticPut"
  | instanceGet => "InstanceGet"
  | instancePut => "InstancePut"
  | new => "New"
  | other => "Other"

end StackKind

namespace StackInstruction

def kind : StackInstruction → StackKind
  | label _ => .label
  | frame => .frame
  | position _ => .position
  | constNumber _ | constString _ | constClass _ => .const
  | load _ => .load
  | store _ => .store
  | logic _ => .logicalBinop
  | arrayStore => .arrayStore
  | branch _ => .branch
  | jump _ => .jump
  | invoke _ _ => .invoke
  | staticGet _ => .staticGet
  | staticPut _ => .staticPut
  | instanceGet _ => .instanceGet
  | instancePut _ => .instancePut
  | new _ => .new
  | dup | pop | ret | raise => .other

def isMarker (instruction : StackInstruction) : Bool :=
  match instruction.kind with
  | .label | .frame | .position => true
  | _ => false

def isJump (instruction : StackInstruction) : Bool :=
  match instruction.kind with
  | .branch | .jump => true
  | _ => false

def putField? : StackInstruction → Option FieldId
  | staticPut field => some field
  | _ => none

end StackInstruction

/-- What the indices of a register body point to. -/
structure ReferenceTable where
  strings : List String := []
  types : List TypeId := []
  fields : List FieldId := []
  methods : List MethodId := []
  deriving DecidableEq, Repr

structure RegisterCode where
  registers : UInt16
  instructions : List Instruction
  references : ReferenceTable
  deriving DecidableEq, Repr

def RegisterCode.size (code : RegisterCode) : Nat :=
  (code.instructions.map Instruction.size).foldr (· + ·) 0

inductive Code where
  | stack (instructions : List StackInstruction)
  | register (code : RegisterCode)
  deriving DecidableEq, Repr

end Shrinker.Program
