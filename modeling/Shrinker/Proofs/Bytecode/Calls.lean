import Shrinker.Proofs.Bytecode.RoundTrip

namespace Shrinker.Bytecode

namespace Opcode

variable {opcode changed : Opcode} {kind : InvokeKind}

theorem invokeKind?_withInvokeKind? (found : opcode.withInvokeKind? kind = some changed) :
    changed.invokeKind? = some kind := by
  obtain ⟨_, -, rfl⟩ := Option.map_eq_some_iff.mp found
  cases kind <;> split <;> rfl

theorem exists_withInvokeKind? {own : InvokeKind} (call : opcode.invokeKind? = some own)
    (kind : InvokeKind) : ∃ changed, opcode.withInvokeKind? kind = some changed := by
  rw [withInvokeKind?, call]
  exact ⟨_, rfl⟩

theorem withInvokeKind?_self (call : opcode.invokeKind? = some kind) :
    opcode.withInvokeKind? kind = some opcode := by
  cases opcode <;> cases call <;> rfl

theorem isSome_invokeKind? (opcode : Opcode) :
    opcode.invokeKind?.isSome ↔ opcode.format = .f35c ∨ opcode.format = .f3rc := by
  cases opcode <;> decide

theorem invokeKind?_eq_direct :
    opcode.invokeKind? = some .direct ↔ opcode = .invokeDirect ∨ opcode = .invokeDirectRange := by
  cases opcode <;> decide

theorem referenceKind?_of_call (opcode : Opcode) :
    opcode.invokeKind?.isSome → opcode.referenceKind? = some .method := by
  cases opcode <;> decide

end Opcode

namespace Instruction

variable {instruction : Instruction} {kind : InvokeKind}

/-- Operands fit every opcode of their format. -/
theorem exists_withOpcode (instruction : Instruction) {opcode : Opcode}
    (same : opcode.format = instruction.opcode.format) :
    ∃ changed, instruction.withOpcode opcode = .ok changed ∧ changed.opcode = opcode ∧
      changed.operands = instruction.operands :=
  ⟨⟨opcode, instruction.operands, instruction.fits.trans same.symm⟩, dif_pos _, rfl, rfl⟩

theorem ext_of_parts {left right : Instruction} (opcode : left.opcode = right.opcode)
    (operands : left.operands = right.operands) : left = right := by
  cases left
  cases right
  cases opcode
  cases operands
  rfl

theorem isSome_invokeKind?_congr {left right : Instruction} (same : left.operands = right.operands) :
    left.opcode.invokeKind?.isSome ↔ right.opcode.invokeKind?.isSome := by
  rw [Opcode.isSome_invokeKind?, Opcode.isSome_invokeKind?, ← left.fits, ← right.fits, same]

theorem exists_poolIndex? (call : instruction.opcode.invokeKind? = some kind) :
    ∃ index, instruction.poolIndex? = some index := by
  have format := (Opcode.isSome_invokeKind? _).mp (Option.isSome_of_mem call)
  rw [← instruction.fits] at format
  unfold poolIndex?
  cases operands : instruction.operands with
  | f35c | f3rc => exact ⟨_, rfl⟩
  | _ => simp [operands, Operands.format] at format

end Instruction

namespace Instruction

def address (instructions : List Instruction) (place : Nat) : Nat :=
  (encodeAll (instructions.take place)).length

section Layout

variable {left right : List Instruction}

theorem size_eq (instruction : Instruction) :
    instruction.size = instruction.operands.format.size := by
  rw [instruction.fits]
  rfl

theorem length_encodeAll_congr (same : left.map operands = right.map operands) :
    (encodeAll left).length = (encodeAll right).length := by
  have sizes (instructions : List Instruction) :
      instructions.map size = (instructions.map operands).map fun found => found.format.size := by
    simp only [List.map_map]
    exact List.map_congr_left fun instruction _ => size_eq instruction
  rw [length_encodeAll, length_encodeAll, sizes, sizes, same]

end Layout

end Instruction

end Shrinker.Bytecode
