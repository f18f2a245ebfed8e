import Shrinker.Liveness.Analysis

/-!
Assertion status. Compilers turn assertions into checks of a static flag that the class initializer sets
from `Class.desiredAssertionStatus`. A read of the flag keeps the assertion handlers live, and class
initializers that set it in a known way are reported.
-/
namespace Shrinker.Liveness.Assertions

open Bytecode Reference Program

/-- What follows the call of `desiredAssertionStatus` in compiled source:
a branch over the two constants, then the write. -/
def compiledPattern : List StackKind :=
  [.branch, .const, .jump, .const, .staticPut]

/-- The form without a branch that an optimizer makes of it. -/
def optimizedPattern : List StackKind :=
  [.const, .logicalBinop, .staticPut]

/-- A coverage probe, which may stand between the instructions of the compiled pattern. -/
def probe : List StackKind :=
  [.load, .const, .const, .arrayStore]

def startsWithProbe (code : List StackInstruction) : Bool :=
  (code.take 4).map (·.kind) == probe

/-- The field that the last instruction of the compiled pattern writes, if the code begins with it.
Markers may stand anywhere, probes too but not two in a row: `mayProbe` tells whether one may come next. -/
def compiledField? (pattern : List StackKind) (mayProbe : Bool) :
    List StackInstruction → Option FieldId
  | [] => none
  | instruction :: rest =>
      if instruction.isMarker then
        compiledField? pattern true rest
      else
        match pattern with
        | [] => none
        | kind :: kinds =>
            if instruction.kind = kind then
              if kinds = [] then instruction.putField? else compiledField? kinds true rest
            else if mayProbe && startsWithProbe (instruction :: rest) then
              compiledField? (kind :: kinds) false (rest.drop 3)
            else
              none
termination_by code => code.length
decreasing_by all_goals simp; try omega

/-- The field that the last instruction of the optimized pattern writes, if the code begins with it.
Loads and stores may stand anywhere. -/
def optimizedField? (pattern : List StackKind) : List StackInstruction → Option FieldId
  | [] => none
  | instruction :: rest =>
      if instruction.kind = .load ∨ instruction.kind = .store then
        optimizedField? pattern rest
      else
        match pattern with
        | [] => none
        | kind :: kinds =>
            if instruction.kind = kind then
              if kinds = [] then instruction.putField? else optimizedField? kinds rest
            else
              none

def statusField? (code : List StackInstruction) : Option FieldId :=
  (compiledField? compiledPattern true code).or (optimizedField? optimizedPattern code)

def isStatusCall (instruction : StackInstruction) : Bool :=
  instruction == .invoke .virtual .desiredAssertionStatus

def isDisabledField (interner : Interner) (field : FieldId) : Bool :=
  let reference := interner.field field
  reference.name == .assertionsDisabled && reference.type == .bool

def IsFlag (interner : Interner) (field : FieldId) : Prop :=
  (interner.field field).name = .assertionsDisabled ∧ (interner.field field).type = .bool

theorem isDisabledField_iff {interner : Interner} {field : FieldId} :
    isDisabledField interner field ↔ IsFlag interner field := by
  rw [isDisabledField, Bool.and_eq_true, beq_iff_eq, beq_iff_eq, IsFlag]

/-- Whether the first status that goes into a field, before any jump, goes into the flag. -/
def setsDisabledField (interner : Interner) : List StackInstruction → Bool
  | [] => false
  | instruction :: rest =>
      match if isStatusCall instruction then statusField? rest else none with
      | some field => isDisabledField interner field
      | none => if instruction.isJump then false else setsDisabledField interner rest

def setsEnabledField (interner : Interner) : List StackInstruction → Bool
  | instruction :: following :: rest =>
      if isStatusCall instruction &&
          following.putField?.any (fun field => (interner.field field).name == .enabled) then
        true
      else if instruction.isJump then
        false
      else
        setsEnabledField interner (following :: rest)
  | _ => false

def enablesAssertions (interner : Interner) (hit : MethodHit) : Bool :=
  match hit.definition.code with
  | some (.stack code) =>
      interner.isClassInitializer hit.definition.method &&
        (setsDisabledField interner code ||
          (hit.holder.type == .kotlinAssertions && setsEnabledField interner code))
  | _ => false

def isStatusField (interner : Interner) (field : FieldId) : Bool :=
  isDisabledField interner field || field == .kotlinAssertionsEnabled

theorem isStatusField_iff {interner : Interner} {field : FieldId} :
    isStatusField interner field ↔
      IsFlag interner field ∨ field = .kotlinAssertionsEnabled := by
  rw [isStatusField, Bool.or_eq_true, isDisabledField_iff, beq_iff_eq]

def analysis {σ : Type} (handlers : List MethodId) : Analysis σ where
  name := "class-initializer-assertion-enabling"
  vocabulary := { methods := handlers }
  methodLive snapshot hit data :=
    .ok {
      data
      reported :=
        if enablesAssertions snapshot.program.interner hit then
          [hit.definition.method]
        else
          [] }
  staticRead snapshot field _ context data :=
    .ok {
      data
      actions :=
        if isStatusField snapshot.program.interner field then
          handlers.map fun handler => .traceInvoke .static handler context
        else
          [] }

end Shrinker.Liveness.Assertions
