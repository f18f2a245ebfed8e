import Shrinker.Bytecode.Instruction
import Shrinker.Collection.Ascending

namespace Shrinker.Bytecode

structure TableIndices where
  strings : List UInt16
  types : List UInt16
  fields : List UInt16
  methods : List UInt16
  deriving DecidableEq, Repr

namespace TableIndices

def empty : TableIndices :=
  ⟨[], [], [], []⟩

def isEmpty (indices : TableIndices) : Bool :=
  indices.strings.isEmpty && indices.types.isEmpty && indices.fields.isEmpty &&
    indices.methods.isEmpty

def add (indices : TableIndices) (kind : ReferenceKind) (index : UInt16) : TableIndices :=
  let insert := Collection.Ascending.insert UInt16.toNat index
  match kind with
  | .string => { indices with strings := insert indices.strings }
  | .type => { indices with types := insert indices.types }
  | .field => { indices with fields := insert indices.fields }
  | .method => { indices with methods := insert indices.methods }

/-- Formats that carry an index add it to the table that the opcode goes with, if there is one. -/
def addOperands (indices : TableIndices) (kind? : Option ReferenceKind) : Operands → TableIndices
  | .f21c _ index | .f22c _ _ index | .f35c _ _ _ _ _ _ index | .f3rc _ _ index =>
      match kind? with
      | some kind => indices.add kind index
      | none => indices
  | _ => indices

def addInstruction (indices : TableIndices) (instruction : Instruction) : TableIndices :=
  indices.addOperands instruction.opcode.referenceKind? instruction.operands

def ofInstructions (instructions : List Instruction) : TableIndices :=
  instructions.foldl addInstruction empty

end TableIndices

end Shrinker.Bytecode
