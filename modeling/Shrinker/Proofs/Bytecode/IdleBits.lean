import Shrinker.Proofs.Bytecode.RoundTrip

/-!
Writing back what was read. Reading passes over some bits of the code: the upper byte of a unit whose
instruction has nothing to put there, and registers past the argument count of an invoke. Written back,
the code is the same but for these bits, which are zero.
-/
namespace Shrinker.Bytecode

open Collection.Success

theorem Nibble.pair_and_not (high low maskHigh maskLow : Nibble) :
    pair high low &&& ~~~pair maskHigh maskLow =
      pair (high &&& ~~~maskHigh) (low &&& ~~~maskLow) := by
  apply UInt8.toBitVec_inj.mp
  have inverted : ~~~(maskHigh ++ maskLow) = ~~~maskHigh ++ ~~~maskLow := BitVec.not_append
  have split : (high ++ low) &&& (~~~maskHigh ++ ~~~maskLow) =
      (high &&& ~~~maskHigh) ++ (low &&& ~~~maskLow) := BitVec.and_append
  rw [← inverted] at split
  exact split

namespace CodeUnit

def clear (unit mask : CodeUnit) : CodeUnit :=
  unit &&& ~~~mask

@[simp] theorem clear_zero (unit : CodeUnit) : clear unit 0 = unit := by
  simp [clear]

theorem clear_ofBytes (high low maskHigh maskLow : UInt8) :
    clear (ofBytes high low) (ofBytes maskHigh maskLow) =
      ofBytes (high &&& ~~~maskHigh) (low &&& ~~~maskLow) := by
  apply UInt16.toBitVec_inj.mp
  have inverted : ~~~(maskHigh.toBitVec ++ maskLow.toBitVec) =
      ~~~maskHigh.toBitVec ++ ~~~maskLow.toBitVec := BitVec.not_append
  have split : (high.toBitVec ++ low.toBitVec) &&&
      (~~~maskHigh.toBitVec ++ ~~~maskLow.toBitVec) =
      (high.toBitVec &&& ~~~maskHigh.toBitVec) ++ (low.toBitVec &&& ~~~maskLow.toBitVec) :=
    BitVec.and_append
  rw [← inverted] at split
  exact split

theorem clear_eq_self_iff {unit mask : CodeUnit} : clear unit mask = unit ↔ unit &&& mask = 0 := by
  have parts : unit &&& ~~~mask ||| unit &&& mask = unit := by
    apply UInt16.toBitVec_inj.mp
    rw [UInt16.toBitVec_or, UInt16.toBitVec_and, UInt16.toBitVec_and, UInt16.toBitVec_not,
      ← BitVec.and_or_distrib_left, BitVec.or_comm, BitVec.or_not_self, BitVec.and_allOnes]
  constructor
  · intro kept
    rw [← kept, clear, UInt16.and_assoc]
    simp
  · intro nothing
    rw [nothing, UInt16.or_zero] at parts
    exact parts

theorem zipWith_clear_eq_self_iff {units masks : List CodeUnit}
    (width : masks.length = units.length) :
    List.zipWith clear units masks = units ↔
      ∀ bits ∈ List.zipWith (· &&& ·) units masks, bits = 0 := by
  induction units generalizing masks with
  | nil => simp
  | cons unit units ih =>
      cases masks with
      | nil => cases width
      | cons mask masks =>
          simp only [List.zipWith_cons_cons, List.cons.injEq, List.forall_mem_cons,
            clear_eq_self_iff, ih (Nat.succ.inj width)]

end CodeUnit

def idleRegister (count : Nibble) (place : Nat) : Nibble :=
  if place < count.toNat then 0 else 15

theorem and_not_idleRegister (register count : Nibble) (place : Nat) :
    register &&& ~~~idleRegister count place = if place < count.toNat then register else 0 := by
  unfold idleRegister
  split
  · exact BitVec.and_allOnes
  · exact BitVec.and_zero

namespace Operands

/-- The bits of the upper byte of the opcode's unit that reading passes over. -/
def idleHigh : Operands → UInt8
  | f10x | f20t _ => 0xFF
  | f35c count .. => Nibble.pair 0 (idleRegister count 4)
  | _ => 0

/-- The bits of the units after it that reading passes over. -/
def idleTail : Operands → List CodeUnit
  | f35c count .. =>
      [0, CodeUnit.ofBytes (Nibble.pair (idleRegister count 3) (idleRegister count 2))
        (Nibble.pair (idleRegister count 1) (idleRegister count 0))]
  | operands => List.replicate (operands.format.size - 1) 0

theorem length_idleTail (operands : Operands) :
    operands.idleTail.length = operands.tailUnits.length := by
  cases operands <;> rfl

section Reading

variable {format : Format} {high : UInt8} {cursor after : Cursor} {operands : Operands}

theorem highByte_decode (read : decode format high cursor = .ok (operands, after)) :
    operands.highByte = high &&& ~~~operands.idleHigh := by
  obtain ⟨rest, position⟩ := cursor
  have whole : high &&& ~~~0 = high := by simp
  have nothing : high &&& ~~~0xFF = 0 := UInt8.and_zero
  cases format with
  | f10x =>
      cases read
      exact nothing.symm
  | f20t =>
      cases rest <;> cases read
      exact nothing.symm
  | f35c =>
      rcases rest with _ | ⟨index, _ | ⟨registers, rest⟩⟩ <;> cases read
      -- the fifth register shares its byte with the count, which is always read
      have count : Nibble.highOf high &&& ~~~0 = Nibble.highOf high := BitVec.and_allOnes
      have last := Nibble.pair_and_not (Nibble.highOf high) (Nibble.lowOf high) 0
        (idleRegister (Nibble.highOf high) 4)
      rw [Nibble.pair_highOf_lowOf, count, and_not_idleRegister] at last
      exact last.symm
  | _ =>
      rcases rest with _ | ⟨_, _ | ⟨_, _⟩⟩ <;> cases read <;>
        simp only [highByte, idleHigh, whole, Nibble.pair_highOf_lowOf] <;> rfl

theorem clear_registers (count : Nibble) (unit : CodeUnit) :
    CodeUnit.clear unit (CodeUnit.ofBytes
        (Nibble.pair (idleRegister count 3) (idleRegister count 2))
        (Nibble.pair (idleRegister count 1) (idleRegister count 0))) =
      CodeUnit.ofBytes
        (Nibble.pair (if 3 < count.toNat then Nibble.highOf (CodeUnit.high unit) else 0)
          (if 2 < count.toNat then Nibble.lowOf (CodeUnit.high unit) else 0))
        (Nibble.pair (if 1 < count.toNat then Nibble.highOf (CodeUnit.low unit) else 0)
          (if 0 < count.toNat then Nibble.lowOf (CodeUnit.low unit) else 0)) := by
  conv_lhs =>
    rw [← CodeUnit.ofBytes_high_low unit, CodeUnit.clear_ofBytes,
      ← Nibble.pair_highOf_lowOf (CodeUnit.high unit), ← Nibble.pair_highOf_lowOf (CodeUnit.low unit)]
  simp only [Nibble.pair_and_not, and_not_idleRegister]

theorem tailUnits_decode (read : decode format high cursor = .ok (operands, after)) :
    ∃ tail, cursor.rest = tail ++ after.rest ∧ tail.length = operands.tailUnits.length ∧
      operands.tailUnits = List.zipWith CodeUnit.clear tail operands.idleTail := by
  obtain ⟨rest, position⟩ := cursor
  cases format with
  | f10x | f10t | f11n | f11x | f12x =>
      cases read
      exact ⟨[], rfl, rfl, rfl⟩
  | f35c =>
      rcases rest with _ | ⟨index, _ | ⟨registers, rest⟩⟩ <;> cases read
      refine ⟨[index, registers], rfl, rfl, ?_⟩
      simp only [tailUnits, idleTail, List.zipWith_cons_cons, List.zipWith_nil_right,
        CodeUnit.clear_zero, clear_registers]
  | f3rc =>
      rcases rest with _ | ⟨index, _ | ⟨first, rest⟩⟩ <;> cases read
      refine ⟨[index, first], rfl, rfl, ?_⟩
      simp [tailUnits, idleTail, format, Format.size]
  | _ =>
      rcases rest with _ | ⟨unit, rest⟩ <;> cases read
      refine ⟨[unit], rfl, rfl, ?_⟩
      simp [tailUnits, idleTail, Operands.format, Format.size]

end Reading

end Operands

namespace Instruction

def idleBits (instruction : Instruction) : List CodeUnit :=
  CodeUnit.ofBytes instruction.operands.idleHigh 0 :: instruction.operands.idleTail

def idleBitsAll (instructions : List Instruction) : List CodeUnit :=
  instructions.flatMap idleBits

theorem encode_decode {cursor after : Cursor} {instruction : Instruction}
    (read : decode cursor = .ok (instruction, after)) :
    ∃ units, cursor.rest = units ++ after.rest ∧ units.length = instruction.idleBits.length ∧
      instruction.encode = List.zipWith CodeUnit.clear units instruction.idleBits := by
  unfold decode at read
  split at read
  · cases read
  · rename_i unit middle next
    split at read
    · cases read
    · rename_i opcode named
      split at read
      · cases read
      · rename_i operands last found
        cases read
        obtain ⟨tail, split, width, cleared⟩ := Operands.tailUnits_decode found
        refine ⟨unit :: tail, ?_, ?_, ?_⟩
        · rw [Cursor.rest_next next, split, List.cons_append]
        · simp only [idleBits, List.length_cons, width, Operands.length_idleTail]
        · have first := CodeUnit.clear_ofBytes (CodeUnit.high unit) (CodeUnit.low unit)
            operands.idleHigh 0
          rw [CodeUnit.ofBytes_high_low, ← Operands.highByte_decode found,
            ← Opcode.byte_of_ofByte? named, show ∀ byte : UInt8, byte &&& ~~~0 = byte by simp]
            at first
          simp only [encode, idleBits, List.zipWith_cons_cons, first, ← cleared]

theorem decodeFrom_eq_ok {cursor : Cursor} {instructions : List Instruction}
    (read : decodeFrom cursor = .ok instructions) :
    cursor.rest = [] ∧ instructions = [] ∨
      ∃ instruction others after, instructions = instruction :: others ∧
        decode cursor = .ok (instruction, after) ∧ decodeFrom after = .ok others := by
  rw [decodeFrom] at read
  split at read
  · rename_i ended
    cases read
    exact .inl ⟨ended, rfl⟩
  · split at read
    · cases read
    · rename_i instruction after first
      split at read
      · cases read
      · rename_i others remaining
        cases read
        exact .inr ⟨instruction, others, after, rfl, first, remaining⟩

theorem isCanonical_of_mem_decodeFrom {cursor : Cursor} {instructions : List Instruction}
    (read : decodeFrom cursor = .ok instructions) :
    ∀ instruction ∈ instructions, instruction.operands.IsCanonical := by
  induction instructions generalizing cursor with
  | nil => exact List.forall_mem_nil _
  | cons instruction instructions ih =>
      obtain ⟨-, impossible⟩ | ⟨_, _, after, same, first, remaining⟩ := decodeFrom_eq_ok read
      · cases impossible
      · cases same
        exact List.forall_mem_cons.mpr ⟨isCanonical_of_decode first, ih remaining⟩

theorem encodeAll_decodeFrom {cursor : Cursor} {instructions : List Instruction}
    (read : decodeFrom cursor = .ok instructions) :
    cursor.rest.length = (idleBitsAll instructions).length ∧
      encodeAll instructions =
        List.zipWith CodeUnit.clear cursor.rest (idleBitsAll instructions) := by
  induction instructions generalizing cursor with
  | nil =>
      obtain ⟨ended, -⟩ | ⟨_, _, _, impossible, -⟩ := decodeFrom_eq_ok read
      · rw [ended]
        exact ⟨rfl, rfl⟩
      · cases impossible
  | cons instruction instructions ih =>
      obtain ⟨-, impossible⟩ | ⟨_, _, after, same, first, remaining⟩ := decodeFrom_eq_ok read
      · cases impossible
      · cases same
        obtain ⟨units, split, width, written⟩ := encode_decode first
        obtain ⟨widths, others⟩ := ih remaining
        have masks : idleBitsAll (instruction :: instructions) =
            instruction.idleBits ++ idleBitsAll instructions := List.flatMap_cons
        have code : encodeAll (instruction :: instructions) =
            instruction.encode ++ encodeAll instructions := List.flatMap_cons
        rw [split, masks, code]
        refine ⟨?_, ?_⟩
        · simp only [List.length_append, width, widths]
        · rw [List.zipWith_append width, ← written, ← others]

/-- Reading code and writing it back is a normal form of code. It has as many units and is read as the
same instructions, its units are the old ones with the idle bits zero, and so it is the old code just
when the idle bits were zero before. -/
theorem encodeAll_normalizes {units : List CodeUnit} {instructions : List Instruction}
    (read : decodeAll units = .ok instructions) :
    (encodeAll instructions).length = units.length ∧
      decodeAll (encodeAll instructions) = .ok instructions ∧
      (idleBitsAll instructions).length = units.length ∧
      encodeAll instructions = List.zipWith CodeUnit.clear units (idleBitsAll instructions) ∧
      (encodeAll instructions = units ↔
        ∀ bits ∈ List.zipWith (· &&& ·) units (idleBitsAll instructions), bits = 0) := by
  obtain ⟨width, written⟩ := encodeAll_decodeFrom read
  have readBack := decodeAll_encodeAll (isCanonical_of_mem_decodeFrom read)
  change units.length = _ at width
  change encodeAll instructions = List.zipWith CodeUnit.clear units _ at written
  refine ⟨?_, readBack, width.symm, written, ?_⟩
  · rw [written, List.length_zipWith, ← width, Nat.min_self]
  · rw [written]
    exact CodeUnit.zipWith_clear_eq_self_iff width.symm

/-- A `nop`, a long jump and an invoke of two registers with stale bits, and an invoke that counts
fifteen registers, where no register is idle. -/
theorem encodeAll_normalizes_stale :
    ∃ instructions,
      decodeAll [0xAB00, 0x7F29, 0x0005, 0x2F6E, 0x0001, 0x4321, 0xF570, 0x0002, 0x4321] =
        .ok instructions ∧
      encodeAll instructions =
        [0x0000, 0x0029, 0x0005, 0x206E, 0x0001, 0x0021, 0xF570, 0x0002, 0x4321] ∧
      idleBitsAll instructions = [0xFF00, 0xFF00, 0, 0x0F00, 0, 0xFF00, 0, 0, 0] ∧
      decodeAll (encodeAll instructions) = .ok instructions := by
  have read : decodeAll [0xAB00, 0x7F29, 0x0005, 0x2F6E, 0x0001, 0x4321, 0xF570, 0x0002, 0x4321] =
      .ok [⟨.nop, .f10x, rfl⟩, ⟨.jump16, .f20t 5, rfl⟩, ⟨.invokeVirtual, .f35c 2 1 2 0 0 0 1, rfl⟩,
        ⟨.invokeDirect, .f35c 15 1 2 3 4 5 2, rfl⟩] := by
    cbv
  obtain ⟨-, readBack, -, written, -⟩ := encodeAll_normalizes read
  refine ⟨_, read, ?_, ?_, readBack⟩
  · rw [written]
    decide
  · decide

end Instruction

end Shrinker.Bytecode
