import Shrinker.Bytecode.Text

namespace Shrinker.Program

open Bytecode

/-- What is wrong with a body or a class. `reported` stands for what an analysis found wrong. -/
inductive BrokenProgram where
  | methodOutsideTable (instruction : Instruction)
  | noForm (kind : InvokeKind) (opcode : Opcode)
  | misfit (cause : OperandError)
  | indexOutsideTable (instruction : Instruction) (index : UInt16)
  | holderUndefined (method holder : String)
  | reported (reason : String)
  deriving DecidableEq, Repr

def BrokenProgram.reason : BrokenProgram → String
  | methodOutsideTable instruction =>
      instruction.text ++ " references a method outside the reference table"
  | noForm kind opcode => s!"no {kind.name.capitalize} form of {opcode.name}"
  | misfit cause => cause.message
  | indexOutsideTable instruction index =>
      instruction.text ++ s!" references pool index {index} outside the reference table"
  | holderUndefined method holder =>
      s!"synthetic method {method} in {holder} has no holder definition"
  | reported reason => reason

def BrokenProgram.message : BrokenProgram → String
  | misfit cause => "Invalid operand: " ++ cause.message
  | cause => "Broken program graph: " ++ cause.reason

end Shrinker.Program
