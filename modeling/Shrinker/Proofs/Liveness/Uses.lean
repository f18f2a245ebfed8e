import Shrinker.Liveness.Body
import Shrinker.Proofs.Collection.Success

namespace Shrinker.Liveness

open Bytecode Reference Program Collection Success

/-- The stack instruction that an instruction with a reference stands for. -/
def symbolic? (references : ReferenceTable) (instruction : Instruction) :
    Option StackInstruction :=
  instruction.poolIndex?.bind fun index =>
    match instruction.opcode with
    | .newInstance => references.types[index.toNat]?.map .new
    | .constClass => references.types[index.toNat]?.map .constClass
    | .sget | .sgetBoolean => references.fields[index.toNat]?.map .staticGet
    | .sput | .sputBoolean => references.fields[index.toNat]?.map .staticPut
    | .iget | .igetBoolean => references.fields[index.toNat]?.map .instanceGet
    | .iput | .iputBoolean => references.fields[index.toNat]?.map .instancePut
    | .invokeVirtual | .invokeVirtualRange =>
        references.methods[index.toNat]?.map (.invoke .virtual)
    | .invokeSuper | .invokeSuperRange => references.methods[index.toNat]?.map (.invoke .super)
    | .invokeDirect | .invokeDirectRange => references.methods[index.toNat]?.map (.invoke .direct)
    | .invokeStatic | .invokeStaticRange => references.methods[index.toNat]?.map (.invoke .static)
    | .invokeInterface | .invokeInterfaceRange =>
        references.methods[index.toNat]?.map (.invoke .interface)
    | _ => none

def uses : Code → List StackInstruction
  | .stack instructions => instructions
  | .register code => code.instructions.filterMap (symbolic? code.references)

theorem tableEntry_eq_ok {α : Type} {table : List α} {instruction : Instruction} {index : UInt16}
    {entry : α} :
    tableEntry table instruction index = .ok entry ↔ table[index.toNat]? = some entry := by
  unfold tableEntry
  split
  · rename_i found
    rw [found, Except.ok.injEq, Option.some.injEq]
  · rename_i missing
    rw [missing]
    constructor
    · nofun
    · nofun

theorem eq_bind_of_tableEntry {α : Type} {table : List α} {instruction : Instruction}
    {index : UInt16} {context : MethodId} {issue : α → Option Action} {action : Option Action}
    (read : (tableEntry table instruction index >>= fun entry => pure (issue entry)) = .ok action)
    (symbol : α → StackInstruction) (same : ∀ entry, issue entry = stackAction? context (symbol entry)) :
    action = (table[index.toNat]?.map symbol).bind (stackAction? context) := by
  obtain ⟨entry, found, issued⟩ := bind_eq_ok.mp read
  cases issued
  rw [tableEntry_eq_ok.mp found, same entry]
  rfl

theorem registerAction?_eq_ok {references : ReferenceTable} {context : MethodId}
    {instruction : Instruction} {action : Option Action}
    (read : registerAction? references context instruction = .ok action) :
    action = (symbolic? references instruction).bind (stackAction? context) := by
  unfold registerAction? Instruction.reference? at read
  unfold symbolic?
  cases pointed : instruction.poolIndex? with
  | none =>
      cases kind : instruction.opcode.referenceKind? with
      | none | some kind =>
          simp only [kind, pointed] at read
          cases read
          rfl
  | some index =>
      cases opcode : instruction.opcode with
      | newInstance | constClass | sget | sgetBoolean | sput | sputBoolean | iget | igetBoolean
      | iput | iputBoolean | invokeVirtual | invokeVirtualRange | invokeSuper | invokeSuperRange
      | invokeDirect | invokeDirectRange | invokeStatic | invokeStaticRange | invokeInterface
      | invokeInterfaceRange =>
          simp only [opcode, pointed] at read
          exact eq_bind_of_tableEntry read _ fun _ => rfl
      | _ =>
          simp only [opcode, pointed] at read
          cases read
          rfl

theorem bodyActions_eq_ok {context : MethodId} {code : Code} {actions : List Action}
    (read : bodyActions context code = .ok actions) :
    actions = (uses code).filterMap (stackAction? context) := by
  cases code with
  | stack instructions =>
      cases read
      rfl
  | register code =>
      obtain ⟨results, readAll, rfl⟩ := map_eq_ok.mp read
      have each : results = code.instructions.map fun instruction =>
          (symbolic? code.references instruction).bind (stackAction? context) := by
        rw [← map_eq_of_mapM id _ (fun _ _ => registerAction?_eq_ok) readAll, List.map_id]
      rw [each, uses, List.filterMap_filterMap, List.filterMap_map]
      rfl

end Shrinker.Liveness
