import Shrinker.Lens.Basic
import Shrinker.Program.Broken
import Shrinker.Program.Code

namespace Shrinker.Lens

open Bytecode Reference Program

def applyInstruction (lens : Lens) : StackInstruction → StackInstruction
  | .invoke kind method =>
      let lookup := lens.lookupMethod method
      .invoke (lookup.invokeKind kind) lookup.target
  | .staticGet field => .staticGet (lens.resolveField field)
  | .staticPut field => .staticPut (lens.resolveField field)
  | .instanceGet field => .instanceGet (lens.resolveField field)
  | .instancePut field => .instancePut (lens.resolveField field)
  | instruction => instruction

def calledMethod? (references : ReferenceTable) (instruction : Instruction) : Option MethodId := do
  references.methods[(← instruction.poolIndex?).toNat]?

/-- Calls change their kind; the operands of an instruction never change. -/
def applyCall (lens : Lens) (references : ReferenceTable) (instruction : Instruction) :
    Except BrokenProgram Instruction :=
  match instruction.opcode.invokeKind? with
  | none => .ok instruction
  | some kind =>
      match calledMethod? references instruction with
      | none => .error (.methodOutsideTable instruction)
      | some method =>
          let changed := (lens.lookupMethod method).invokeKind kind
          if changed = kind then
            .ok instruction
          else
            match instruction.opcode.withInvokeKind? changed with
            | none => .error (.noForm changed instruction.opcode)
            | some opcode => (instruction.withOpcode opcode).mapError .misfit

def applyReferences (lens : Lens) (references : ReferenceTable) : ReferenceTable :=
  { references with
    fields := references.fields.map lens.resolveField
    methods := references.methods.map lens.resolveMethod }

def applyRegister (lens : Lens) (code : RegisterCode) : Except BrokenProgram RegisterCode := do
  let instructions ← code.instructions.mapM (lens.applyCall code.references)
  return { code with instructions, references := lens.applyReferences code.references }

/-- The identity lens leaves a body alone, whatever is in it. -/
def applyCode (lens : Lens) (code : Code) : Except BrokenProgram Code :=
  if lens.isIdentity then
    .ok code
  else
    match code with
    | .stack instructions => .ok (.stack (instructions.map lens.applyInstruction))
    | .register body => (lens.applyRegister body).map .register

end Shrinker.Lens
