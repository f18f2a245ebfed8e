import Shrinker.Lens.Apply
import Shrinker.Proofs.Bytecode.Calls
import Shrinker.Proofs.Lens.Chain
import Shrinker.Proofs.Liveness.Uses

namespace Shrinker.Lens

open Bytecode Reference Program Liveness Collection Success

theorem eq_identity_of_isIdentity {lens : Lens} (idle : lens.isIdentity) : lens = identity := by
  cases lens
  simpa [isIdentity, identity] using idle

theorem isIdentity_eq_false {lens : Lens} : lens.isIdentity = false ↔ 0 < lens.depth := by
  simp [isIdentity, depth, List.length_pos_iff]

@[simp] theorem Lookup.invokeKind_start (method : MethodId) (kind : InvokeKind) :
    (Lookup.start method).invokeKind kind = kind := by
  simp [invokeKind, start, ChangeSet.empty]

theorem applyInstruction_identity (instruction : StackInstruction) :
    identity.applyInstruction instruction = instruction := by
  cases instruction with
  | invoke kind method =>
      simp only [applyInstruction, lookupMethod_identity, Lookup.invokeKind_start]
      rfl
  | staticGet field | staticPut field | instanceGet field | instancePut field =>
      simp only [applyInstruction, resolveField, lookupField_identity]
      rfl
  | _ => rfl

theorem applyReferences_identity (references : ReferenceTable) :
    identity.applyReferences references = references := by
  have methods : identity.resolveMethod = id := by
    funext method
    rw [resolveMethod, lookupMethod_identity]
    rfl
  have fields : identity.resolveField = id := by
    funext field
    rw [resolveField, lookupField_identity]
    rfl
  simp [applyReferences, methods, fields]

theorem applyCode_stack (lens : Lens) (instructions : List StackInstruction) :
    lens.applyCode (.stack instructions) = .ok (.stack (instructions.map lens.applyInstruction)) := by
  unfold applyCode
  split
  · rename_i idle
    rw [eq_identity_of_isIdentity idle, List.map_congr_left fun _ _ => applyInstruction_identity _,
      List.map_id']
  · rfl

/-- A call whose index lies outside the method table. -/
def IsDangling (references : ReferenceTable) (instruction : Instruction) : Prop :=
  instruction.opcode.invokeKind?.isSome ∧
    ∃ index, instruction.poolIndex? = some index ∧ references.methods.length ≤ index.toNat

section Calls

variable {lens : Lens} {references : ReferenceTable} {instruction changed : Instruction}
  {kind : InvokeKind}

theorem calledMethod?_of_poolIndex? {index : UInt16} (pointed : instruction.poolIndex? = some index) :
    calledMethod? references instruction = references.methods[index.toNat]? := by
  rw [calledMethod?, pointed]
  rfl

theorem isDangling_iff (call : instruction.opcode.invokeKind? = some kind) :
    IsDangling references instruction ↔ calledMethod? references instruction = none := by
  obtain ⟨index, pointed⟩ := Instruction.exists_poolIndex? call
  rw [calledMethod?_of_poolIndex? pointed, List.getElem?_eq_none_iff]
  simp [IsDangling, call, pointed]

/-- A call that points into the table has a form of its new kind, and its operands fit that form. -/
theorem exists_applyCall (lens : Lens) {method : MethodId}
    (call : instruction.opcode.invokeKind? = some kind)
    (called : calledMethod? references instruction = some method) :
    ∃ changed, lens.applyCall references instruction = .ok changed ∧
      instruction.opcode.withInvokeKind? ((lens.lookupMethod method).invokeKind kind) =
        some changed.opcode ∧
      changed.operands = instruction.operands := by
  simp only [applyCall, call, called]
  by_cases kept : (lens.lookupMethod method).invokeKind kind = kind
  · rw [if_pos kept, kept]
    exact ⟨instruction, rfl, Opcode.withInvokeKind?_self call, rfl⟩
  · rw [if_neg kept]
    obtain ⟨opcode, found⟩ :=
      Opcode.exists_withInvokeKind? call ((lens.lookupMethod method).invokeKind kind)
    obtain ⟨changed, done, rfl, operands⟩ :=
      instruction.exists_withOpcode (Opcode.format_withInvokeKind? found)
    simp only [found, done]
    exact ⟨changed, rfl, rfl, operands⟩

/-- A call fails only where it points outside the table. -/
theorem applyCall_eq_error {cause : BrokenProgram} :
    lens.applyCall references instruction = .error cause ↔
      IsDangling references instruction ∧ cause = .methodOutsideTable instruction := by
  cases call : instruction.opcode.invokeKind? with
  | none => simp [applyCall, IsDangling, call]
  | some kind =>
      rw [isDangling_iff call]
      cases called : calledMethod? references instruction with
      | none => simp [applyCall, call, called, eq_comm]
      | some method =>
          obtain ⟨changed, done, -⟩ := exists_applyCall lens call called
          simp [done]

theorem cases_of_applyCall (applied : lens.applyCall references instruction = .ok changed) :
    instruction.opcode.invokeKind? = none ∧ changed = instruction ∨
      ∃ kind method, instruction.opcode.invokeKind? = some kind ∧
        calledMethod? references instruction = some method ∧
        instruction.opcode.withInvokeKind? ((lens.lookupMethod method).invokeKind kind) =
          some changed.opcode ∧
        changed.operands = instruction.operands := by
  cases call : instruction.opcode.invokeKind? with
  | none =>
      simp only [applyCall, call, Except.ok.injEq] at applied
      exact Or.inl ⟨rfl, applied.symm⟩
  | some kind =>
      cases called : calledMethod? references instruction with
      | none => simp [applyCall, call, called] at applied
      | some method =>
          obtain ⟨other, done, form, operands⟩ := exists_applyCall lens call called
          cases done.symm.trans applied
          exact Or.inr ⟨kind, method, rfl, rfl, form, operands⟩

/-- What becomes of an instruction of a register body. A call that points into the method table is read
through the new opcode and the new table as the stack instruction is rewritten. -/
structure SeenCall (lens : Lens) (before after : ReferenceTable) (instruction changed : Instruction) :
    Prop where
  operands : changed.operands = instruction.operands
  size : changed.size = instruction.size
  other : instruction.opcode.invokeKind? = none → changed = instruction
  call : ∀ kind index method, instruction.opcode.invokeKind? = some kind →
    instruction.poolIndex? = some index → before.methods[index.toNat]? = some method →
      ∃ newKind newMethod, changed.opcode.invokeKind? = some newKind ∧
        after.methods[index.toNat]? = some newMethod ∧
        lens.applyCode (.stack [.invoke kind method]) = .ok (.stack [.invoke newKind newMethod])

theorem size_of_operands (same : changed.operands = instruction.operands) :
    changed.size = instruction.size := by
  rw [changed.size_eq, instruction.size_eq, same]

theorem seenCall_applyCall (applied : lens.applyCall references instruction = .ok changed) :
    lens.SeenCall references (lens.applyReferences references) instruction changed := by
  rcases cases_of_applyCall applied with ⟨other, rfl⟩ | ⟨kind, method, call, called, form, same⟩
  · refine ⟨rfl, rfl, fun _ => rfl, ?_⟩
    intro kind index method call
    rw [other] at call
    cases call
  · refine ⟨same, size_of_operands same, ?_, ?_⟩
    · intro other
      rw [other] at call
      cases call
    · intro ownKind index ownMethod ownCall pointed found
      rw [call] at ownCall
      cases ownCall
      rw [calledMethod?_of_poolIndex? pointed, found] at called
      cases called
      refine ⟨_, lens.resolveMethod method, Opcode.invokeKind?_withInvokeKind? form, ?_,
        applyCode_stack lens _⟩
      rw [applyReferences, List.getElem?_map, found]
      rfl

theorem seenCall_identity (references : ReferenceTable) (instruction : Instruction) :
    identity.SeenCall references references instruction instruction := by
  refine ⟨rfl, rfl, fun _ => rfl, ?_⟩
  intro kind index method call _ found
  refine ⟨kind, method, call, found, ?_⟩
  rw [applyCode_stack, List.map_singleton, applyInstruction_identity]

end Calls

structure SeenBody (lens : Lens) (body changed : RegisterCode) : Prop where
  registers : changed.registers = body.registers
  strings : changed.references.strings = body.references.strings
  types : changed.references.types = body.references.types
  fields : changed.references.fields = body.references.fields.map lens.resolveField
  methods : changed.references.methods = body.references.methods.map lens.resolveMethod
  instructions : List.Forall₂ (lens.SeenCall body.references changed.references)
    body.instructions changed.instructions

section Registers

variable {lens : Lens} {body changed : RegisterCode}

theorem applyRegister_eq_ok :
    lens.applyRegister body = .ok changed ↔
      ∃ instructions, body.instructions.mapM (lens.applyCall body.references) = .ok instructions ∧
        changed = { body with instructions, references := lens.applyReferences body.references } := by
  rw [applyRegister, bind_eq_ok]
  simp only [pure, Except.pure, Except.ok.injEq, eq_comm]

theorem exists_applyRegister_eq_error :
    (∃ cause, lens.applyRegister body = .error cause) ↔
      ∃ instruction ∈ body.instructions, IsDangling body.references instruction := by
  have dangling (instruction : Instruction) :
      (∃ cause, lens.applyCall body.references instruction = .error cause) ↔
        IsDangling body.references instruction := by
    simp [applyCall_eq_error]
  simp only [← dangling]
  rw [← exists_mapM_eq_error, applyRegister]
  cases body.instructions.mapM (lens.applyCall body.references) with
  | error cause => simp [bind, Except.bind]
  | ok instructions => simp [pure, Except.pure]

theorem seenBody_applyRegister (applied : lens.applyRegister body = .ok changed) :
    lens.SeenBody body changed := by
  obtain ⟨instructions, calls, rfl⟩ := applyRegister_eq_ok.mp applied
  refine ⟨rfl, rfl, rfl, rfl, rfl, ?_⟩
  exact (mapM_eq_ok_iff_forall₂.mp calls).imp fun _ _ => seenCall_applyCall

theorem seenBody_identity (body : RegisterCode) : identity.SeenBody body body := by
  have same := (applyReferences_identity body.references).symm
  exact ⟨rfl, rfl, rfl, congrArg ReferenceTable.fields same, congrArg ReferenceTable.methods same,
    List.forall₂_same.mpr fun _ _ => seenCall_identity _ _⟩

end Registers

section Whole

variable (lens : Lens) (body : RegisterCode)

theorem applyCode_register :
    lens = identity ∧ lens.applyCode (.register body) = .ok (.register body) ∨
      0 < lens.depth ∧
        lens.applyCode (.register body) = (lens.applyRegister body).map .register := by
  unfold applyCode
  cases idle : lens.isIdentity with
  | true => exact Or.inl ⟨eq_identity_of_isIdentity idle, rfl⟩
  | false => exact Or.inr ⟨isIdentity_eq_false.mp idle, rfl⟩

theorem exists_applyCode_eq_error :
    (∃ cause, lens.applyCode (.register body) = .error cause) ↔
      0 < lens.depth ∧
        ∃ instruction ∈ body.instructions, IsDangling body.references instruction := by
  have broken : (∃ cause, lens.applyRegister body = .error cause) ↔ _ :=
    exists_applyRegister_eq_error
  rw [← broken]
  rcases applyCode_register lens body with ⟨rfl, applied⟩ | ⟨leveled, applied⟩
  · simp [applied, show identity.depth = 0 from rfl]
  · rw [applied, and_iff_right leveled]
    cases lens.applyRegister body <;> simp [Except.map]

theorem applyCode_register_eq_ok {code : Code} (applied : lens.applyCode (.register body) = .ok code) :
    ∃ changed, code = .register changed ∧ lens.SeenBody body changed := by
  rcases applyCode_register lens body with ⟨rfl, kept⟩ | ⟨-, mapped⟩
  · rw [kept] at applied
    cases applied
    exact ⟨body, rfl, seenBody_identity body⟩
  · rw [mapped] at applied
    obtain ⟨changed, done, rfl⟩ := map_eq_ok.mp applied
    exact ⟨changed, rfl, seenBody_applyRegister done⟩

theorem exists_applyCode_eq_ok
    (sound : ∀ instruction ∈ body.instructions, ¬IsDangling body.references instruction) :
    ∃ final, lens.applyCode (.register body) = .ok (.register final) ∧ lens.SeenBody body final := by
  cases applied : lens.applyCode (.register body) with
  | error cause =>
      obtain ⟨-, instruction, member, dangling⟩ :=
        (exists_applyCode_eq_error lens body).mp ⟨cause, applied⟩
      exact absurd dangling (sound instruction member)
  | ok code =>
      obtain ⟨final, rfl, seen⟩ := applyCode_register_eq_ok lens body applied
      exact ⟨final, rfl, seen⟩

end Whole

section Symbols

variable {lens : Lens} {before after : ReferenceTable} {instruction changed : Instruction}

theorem symbolic?_of_call {references : ReferenceTable} {kind : InvokeKind} {index : UInt16}
    (call : instruction.opcode.invokeKind? = some kind)
    (pointed : instruction.poolIndex? = some index) :
    symbolic? references instruction = references.methods[index.toNat]?.map (.invoke kind) := by
  rw [symbolic?, pointed, Option.bind_some]
  cases opcode : instruction.opcode <;> rw [opcode] at call <;> cases call <;> rfl

theorem symbolic?_of_other (types : after.types = before.types)
    (fields : after.fields = before.fields.map lens.resolveField)
    (other : instruction.opcode.invokeKind? = none) :
    symbolic? after instruction = (symbolic? before instruction).map lens.applyInstruction := by
  unfold symbolic?
  cases instruction.poolIndex? with
  | none => rfl
  | some index =>
      simp only [Option.bind_some, types, fields, List.getElem?_map]
      cases opcode : instruction.opcode with
      | newInstance | constClass | sget | sgetBoolean | sput | sputBoolean | iget | igetBoolean
      | iput | iputBoolean =>
          simp only [Option.map_map]
          rfl
      | invokeVirtual | invokeSuper | invokeDirect | invokeStatic | invokeInterface
      | invokeVirtualRange | invokeSuperRange | invokeDirectRange | invokeStaticRange
      | invokeInterfaceRange =>
          rw [opcode] at other
          cases other
      | _ => rfl

theorem SeenCall.symbolic? (seen : lens.SeenCall before after instruction changed)
    (types : after.types = before.types)
    (fields : after.fields = before.fields.map lens.resolveField)
    (methods : after.methods = before.methods.map lens.resolveMethod) :
    symbolic? after changed = (symbolic? before instruction).map lens.applyInstruction := by
  cases call : instruction.opcode.invokeKind? with
  | none =>
      rw [seen.other call]
      exact symbolic?_of_other types fields call
  | some kind =>
      obtain ⟨index, pointed⟩ := Instruction.exists_poolIndex? call
      have newPointed : changed.poolIndex? = some index := by
        rw [Instruction.poolIndex?, seen.operands]
        exact pointed
      rw [symbolic?_of_call call pointed]
      cases found : before.methods[index.toNat]? with
      | none =>
          -- outside the table both stand for nothing, whatever the kind of the call
          have missing : after.methods[index.toNat]? = none := by
            rw [methods, List.getElem?_map, found]
            rfl
          obtain ⟨newKind, newCall⟩ := Option.isSome_iff_exists.mp
            ((Instruction.isSome_invokeKind?_congr seen.operands).mpr (Option.isSome_of_mem call))
          rw [symbolic?_of_call newCall newPointed, missing]
          rfl
      | some method =>
          obtain ⟨newKind, newMethod, newCall, newFound, stack⟩ :=
            seen.call kind index method call pointed found
          rw [symbolic?_of_call newCall newPointed, newFound]
          rw [applyCode_stack] at stack
          cases stack
          rfl

variable {body final : RegisterCode}

theorem SeenBody.map_eq {γ : Type} {left right : Instruction → γ} (seen : lens.SeenBody body final)
    (same : ∀ instruction changed,
      lens.SeenCall body.references final.references instruction changed →
        left changed = right instruction) :
    final.instructions.map left = body.instructions.map right := by
  rw [eq_comm, ← List.forall₂_eq_eq_eq, List.forall₂_map_left_iff, List.forall₂_map_right_iff]
  exact seen.instructions.imp fun instruction changed call => (same instruction changed call).symm

theorem SeenBody.operands (seen : lens.SeenBody body final) :
    final.instructions.map Instruction.operands = body.instructions.map Instruction.operands :=
  seen.map_eq fun _ _ call => call.operands

theorem SeenBody.uses (seen : lens.SeenBody body final) :
    uses (.register final) = (uses (.register body)).map lens.applyInstruction := by
  have each := seen.map_eq fun _ _ call => call.symbolic? seen.types seen.fields seen.methods
  have symbols := congrArg (List.filterMap id) each
  simpa only [List.filterMap_map, Function.id_comp, Liveness.uses, List.map_filterMap] using symbols

end Symbols

end Shrinker.Lens
