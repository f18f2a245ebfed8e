import Shrinker.Liveness.Action
import Shrinker.Program.Broken
import Shrinker.Program.Code

namespace Shrinker.Liveness

open Bytecode Reference Program

def stackAction? (context : MethodId) : StackInstruction → Option Action
  | .invoke kind method => some (.traceInvoke kind method (some context))
  | .staticGet field => some (.traceStaticRead field (some context))
  | .staticPut field => some (.traceStaticWrite field (some context))
  | .instanceGet field => some (.traceInstanceRead field (some context))
  | .instancePut field => some (.traceInstanceWrite field (some context))
  | .new type => some (.markInstantiated type)
  | .constClass type => some (.markClass type)
  | _ => none

def tableEntry {α : Type} (table : List α) (instruction : Instruction) (index : UInt16) :
    Except BrokenProgram α :=
  match table[index.toNat]? with
  | some entry => .ok entry
  | none => .error (.indexOutsideTable instruction index)

def typeAction (opcode : Opcode) (type : TypeId) : Action :=
  if opcode = .newInstance then .markInstantiated type else .markClass type

def fieldAction (opcode : Opcode) (field : FieldId) (context : MethodId) : Action :=
  if opcode.isStaticGet then
    .traceStaticRead field (some context)
  else if opcode.isStaticPut then
    .traceStaticWrite field (some context)
  else if opcode.isInstanceGet then
    .traceInstanceRead field (some context)
  else
    .traceInstanceWrite field (some context)

/-- What an instruction makes use of, by the reference table of its body. Strings are used freely. -/
def registerAction? (references : ReferenceTable) (context : MethodId)
    (instruction : Instruction) : Except BrokenProgram (Option Action) :=
  match instruction.reference? with
  | none | some (.string, _) => .ok none
  | some (.type, index) => do
      let type ← tableEntry references.types instruction index
      return some (typeAction instruction.opcode type)
  | some (.field, index) => do
      let field ← tableEntry references.fields instruction index
      return some (fieldAction instruction.opcode field context)
  | some (.method, index) => do
      let method ← tableEntry references.methods instruction index
      return instruction.opcode.invokeKind?.map fun kind =>
        .traceInvoke kind method (some context)

def bodyActions (context : MethodId) : Code → Except BrokenProgram (List Action)
  | .stack instructions => .ok (instructions.filterMap (stackAction? context))
  | .register code =>
      (code.instructions.mapM (registerAction? code.references context)).map
        (·.filterMap id)

end Shrinker.Liveness
