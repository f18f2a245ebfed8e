import Mathlib.Algebra.Ring.Nat
import Shrinker.Proofs.Bytecode.Checked

namespace Shrinker.Bytecode

open Collection.Success

namespace Cursor

@[simp] theorem next_cons (unit : CodeUnit) (rest : List CodeUnit) (position : Nat) :
    next ⟨unit :: rest, position⟩ = .ok (unit, ⟨rest, position + 1⟩) := rfl

@[simp] theorem nextBytes_cons (high low : UInt8) (rest : List CodeUnit) (position : Nat) :
    nextBytes ⟨CodeUnit.ofBytes high low :: rest, position⟩ =
      .ok ((high, low), ⟨rest, position + 1⟩) := by
  simp only [nextBytes, next_cons, Except.map, CodeUnit.high_ofBytes, CodeUnit.low_ofBytes]

end Cursor

namespace Operands

/-- Registers out of use are zero. Only an invoke with explicit registers has any. -/
def IsCanonical : Operands → Prop
  | f35c count c d e f g _ => ∀ unused ∈ [c, d, e, f, g].drop count.toNat, unused = 0
  | _ => True

theorem used_register {registers : List Nibble} {count place : Nat} {register : Nibble}
    (canonical : ∀ unused ∈ registers.drop count, unused = 0)
    (present : registers[place]? = some register) :
    (if place < count then register else 0) = register := by
  split
  · rfl
  · rename_i outOfUse
    refine (canonical register ?_).symm
    refine List.mem_iff_getElem?.mpr ⟨place - count, ?_⟩
    rw [List.getElem?_drop, show count + (place - count) = place by omega]
    exact present

theorem decode_tailUnits {operands : Operands} (canonical : operands.IsCanonical)
    (rest : List CodeUnit) (position : Nat) :
    decode operands.format operands.highByte ⟨operands.tailUnits ++ rest, position⟩ =
      .ok (operands, ⟨rest, position + operands.tailUnits.length⟩) := by
  cases operands with
  | f10x => rfl
  | f10t offset => rfl
  | f11x register => rfl
  | f20t offset => rfl
  | f21c register index => rfl
  | f21s register literal => rfl
  | f21t register offset => rfl
  | f3rc count first index => rfl
  | f11n register literal =>
      simp only [format, highByte, decode, tailUnits, Nibble.lowOf_pair, Nibble.highOf_pair]
      rfl
  | f12x first second =>
      simp only [format, highByte, decode, tailUnits, Nibble.lowOf_pair, Nibble.highOf_pair]
      rfl
  | f22c first second index =>
      simp only [format, highByte, decode, tailUnits, Nibble.lowOf_pair, Nibble.highOf_pair]
      rfl
  | f22s first second literal =>
      simp only [format, highByte, decode, tailUnits, Nibble.lowOf_pair, Nibble.highOf_pair]
      rfl
  | f22t first second offset =>
      simp only [format, highByte, decode, tailUnits, Nibble.lowOf_pair, Nibble.highOf_pair]
      rfl
  | f22b first second literal =>
      simp only [format, highByte, decode, tailUnits, List.cons_append, Cursor.nextBytes_cons]
      rfl
  | f23x first second third =>
      simp only [format, highByte, decode, tailUnits, List.cons_append, Cursor.nextBytes_cons]
      rfl
  | f35c count c d e f g index =>
      simp only [format, highByte, decode, tailUnits, List.cons_append, List.nil_append,
        Cursor.next_cons, Cursor.nextBytes_cons, ok_bind, Nibble.highOf_pair, Nibble.lowOf_pair]
      rw [used_register canonical rfl, used_register canonical rfl, used_register canonical rfl,
        used_register canonical rfl, used_register canonical rfl]
      rfl

theorem isCanonical_of_format {operands : Operands} (other : operands.format ≠ .f35c) :
    operands.IsCanonical := by
  cases operands with
  | f35c => exact absurd rfl other
  | _ => trivial

theorem isCanonical_check {raw : RawOperands} {operands : Operands}
    (checked : raw.check = .ok operands) : operands.IsCanonical := by
  cases raw with
  | f35c index registers =>
      obtain ⟨few, used, narrow, rfl, -, rfl⟩ := RawOperands.check_f35c checked
      rcases used with _ | ⟨c, _ | ⟨d, _ | ⟨e, _ | ⟨f, _ | ⟨g, _ | ⟨h, more⟩⟩⟩⟩⟩⟩
      rotate_right
      · simp only [List.length_map, List.length_cons] at few
        omega
      all_goals simp [IsCanonical]
  | _ =>
      apply isCanonical_of_format
      rw [RawOperands.format_check checked]
      simp [RawOperands.format]

theorem isCanonical_decode {format : Format} {high : UInt8} {cursor after : Cursor}
    {operands : Operands} (read : decode format high cursor = .ok (operands, after)) :
    operands.IsCanonical := by
  cases format with
  | f35c =>
      obtain ⟨⟨index, middle⟩, -, continued⟩ := bind_eq_ok.mp read
      obtain ⟨⟨⟨upper, lower⟩, last⟩, -, assembled⟩ := bind_eq_ok.mp continued
      cases assembled
      intro unused member
      obtain ⟨offset, found⟩ := List.mem_iff_getElem?.mp member
      rw [List.getElem?_drop] at found
      -- the reader does not look at registers past the count
      have past (place : Nat) (register : Nibble)
          (here : (Nibble.highOf high).toNat + offset = place) :
          (if place < (Nibble.highOf high).toNat then register else 0) = 0 :=
        if_neg (by omega)
      match here : (Nibble.highOf high).toNat + offset with
      | 0 | 1 | 2 | 3 | 4 =>
          rw [here] at found
          cases found
          exact past _ _ here
      | more + 5 =>
          rw [here] at found
          cases found
  | _ =>
      apply isCanonical_of_format
      rw [format_decode read]
      nofun

end Operands

namespace Instruction

theorem decode_encode {instruction : Instruction} (canonical : instruction.operands.IsCanonical)
    (rest : List CodeUnit) (position : Nat) :
    decode ⟨instruction.encode ++ rest, position⟩ =
      .ok (instruction, ⟨rest, position + instruction.size⟩) := by
  have readBack := Operands.decode_tailUnits canonical rest (position + 1)
  rw [instruction.fits] at readBack
  have width : instruction.operands.tailUnits.length + 1 = instruction.size := by
    rw [Operands.length_tailUnits, instruction.fits, size]
  simp only [decode, encode, List.cons_append, Cursor.next_cons, CodeUnit.low_ofBytes,
    Opcode.ofByte?_byte]
  split
  · rename_i error failed
    rw [CodeUnit.high_ofBytes, readBack] at failed
    cases failed
  · rename_i operands after found
    rw [CodeUnit.high_ofBytes, readBack] at found
    cases found
    rw [← width]
    simp only [Except.ok.injEq, Prod.mk.injEq, Cursor.mk.injEq, true_and]
    omega

@[simp] theorem decodeFrom_nil (position : Nat) : decodeFrom ⟨[], position⟩ = .ok [] := by
  rw [decodeFrom, if_pos rfl]

theorem decodeFrom_of_decode {cursor after : Cursor} {instruction : Instruction}
    (read : decode cursor = .ok (instruction, after)) :
    decodeFrom cursor = (decodeFrom after).map (instruction :: ·) := by
  have started : cursor.rest ≠ [] := by
    intro ended
    have shorter := decode_shorter read
    rw [ended] at shorter
    exact Nat.not_lt_zero _ shorter
  rw [decodeFrom, if_neg started]
  split
  · rename_i error failed
    rw [read] at failed
    cases failed
  · rename_i found next again
    rw [read] at again
    cases again
    cases decodeFrom after <;> rfl

theorem decodeFrom_encodeAll {instructions : List Instruction}
    (canonical : ∀ instruction ∈ instructions, instruction.operands.IsCanonical)
    (rest : List CodeUnit) (position : Nat) :
    decodeFrom ⟨encodeAll instructions ++ rest, position⟩ =
      (decodeFrom ⟨rest, position + (encodeAll instructions).length⟩).map
        (instructions ++ ·) := by
  induction instructions generalizing position with
  | nil =>
      change decodeFrom ⟨rest, position⟩ = (decodeFrom ⟨rest, position⟩).map id
      cases decodeFrom ⟨rest, position⟩ <;> rfl
  | cons instruction instructions ih =>
      have first := decode_encode (canonical instruction (by simp))
        (encodeAll instructions ++ rest) position
      have others := ih (fun other member => canonical other (by simp [member]))
        (position + instruction.size)
      have width : (encodeAll (instruction :: instructions)).length =
          instruction.size + (encodeAll instructions).length := by
        simp only [encodeAll, List.flatMap_cons, List.length_append, length_encode]
      rw [show encodeAll (instruction :: instructions) ++ rest =
          instruction.encode ++ (encodeAll instructions ++ rest) by simp [encodeAll],
        decodeFrom_of_decode first, others, width, Nat.add_assoc]
      cases decodeFrom _ <;> rfl

theorem length_encodeAll (instructions : List Instruction) :
    (encodeAll instructions).length = (instructions.map size).sum := by
  induction instructions with
  | nil => rfl
  | cons instruction instructions ih =>
      simp only [encodeAll, List.flatMap_cons, List.length_append, List.map_cons, List.sum_cons,
        length_encode] at ih ⊢
      rw [ih]

theorem decodeAll_encodeAll {instructions : List Instruction}
    (canonical : ∀ instruction ∈ instructions, instruction.operands.IsCanonical) :
    decodeAll (encodeAll instructions) = .ok instructions := by
  have readBack := decodeFrom_encodeAll canonical [] 0
  rw [List.append_nil, decodeFrom_nil] at readBack
  rw [decodeAll, Cursor.start, readBack]
  simp only [Except.map, List.append_nil]

theorem ofRaw_eq_ok {opcode : Opcode} {raw : RawOperands} {instruction : Instruction}
    (built : ofRaw opcode raw = .ok instruction) :
    instruction.opcode = opcode ∧ raw.check = .ok instruction.operands := by
  obtain ⟨operands, checked, made⟩ := bind_eq_ok.mp built
  unfold make at made
  split at made
  · cases made
    exact ⟨rfl, checked⟩
  · cases made

/-- Built from numbers that were checked, or read from code units. -/
def IsObtained (instruction : Instruction) : Prop :=
  (∃ opcode raw, ofRaw opcode raw = .ok instruction) ∨
    ∃ cursor after, decode cursor = .ok (instruction, after)

theorem isCanonical_of_decode {cursor after : Cursor} {instruction : Instruction}
    (read : decode cursor = .ok (instruction, after)) : instruction.operands.IsCanonical := by
  unfold decode at read
  split at read
  · cases read
  · split at read
    · cases read
    · split at read
      · cases read
      · rename_i tail
        cases read
        exact Operands.isCanonical_decode tail

theorem IsObtained.isCanonical {instruction : Instruction} (obtained : instruction.IsObtained) :
    instruction.operands.IsCanonical := by
  rcases obtained with ⟨opcode, raw, built⟩ | ⟨cursor, after, read⟩
  · exact Operands.isCanonical_check (ofRaw_eq_ok built).2
  · exact isCanonical_of_decode read

/-- Instructions built from numbers lose nothing in code units: the units are as many as the sizes say,
pass through bytes unharmed and are read back as the same instructions, each with its opcode and with
the numbers that it was built from. -/
theorem encodeAll_lossless (sources : List (Opcode × RawOperands)) {instructions : List Instruction}
    (built : sources.mapM (fun (opcode, raw) => ofRaw opcode raw) = .ok instructions) :
    (encodeAll instructions).length = (instructions.map size).sum ∧
      CodeUnit.ofByteStream (CodeUnit.toBytes (encodeAll instructions)) =
        .ok (encodeAll instructions) ∧
      decodeAll (encodeAll instructions) = .ok instructions ∧
      instructions.map (fun instruction => (instruction.opcode, instruction.operands.fields)) =
        sources.map (fun (opcode, raw) => (opcode, raw.fields)) := by
  have canonical : ∀ instruction ∈ instructions, instruction.operands.IsCanonical := by
    intro instruction member
    obtain ⟨⟨opcode, raw⟩, -, made⟩ := exists_of_mem_mapM built member
    exact Operands.isCanonical_check (ofRaw_eq_ok made).2
  refine ⟨length_encodeAll instructions, ?_, decodeAll_encodeAll canonical, ?_⟩
  · rw [CodeUnit.ofByteStream, CodeUnit.ofByteStream?_toBytes]
  · apply map_eq_of_mapM _ _ _ built
    rintro ⟨opcode, raw⟩ instruction made
    obtain ⟨rfl, checked⟩ := ofRaw_eq_ok made
    rw [RawOperands.fields_check checked]

/-- Signed literals at the ends of their ranges, an invoke with two of five registers and one whose
range ends at the last register. -/
theorem encodeAll_lossless_extremes :
    ∃ instructions,
      [(Opcode.const4, RawOperands.f11n 15 (-8)), (.addIntLit8, .f22b 255 0 (-128)),
        (.invokeDirect, .f35c 65535 [15, 1]), (.invokeStaticRange, .f3rc 255 7 65281)].mapM
          (fun (opcode, raw) => ofRaw opcode raw) = .ok instructions ∧
      (encodeAll instructions).length = 9 ∧
      decodeAll (encodeAll instructions) = .ok instructions ∧
      instructions.map (fun instruction => (instruction.opcode, instruction.operands.fields)) =
        [(.const4, [15, -8]), (.addIntLit8, [255, 0, -128]),
          (.invokeDirect, [2, 15, 1, 0, 0, 0, 65535]),
          (.invokeStaticRange, [255, 65281, 7])] := by
  refine ⟨_, rfl, ?_⟩
  obtain ⟨width, -, readBack, numbers⟩ := encodeAll_lossless
    [(.const4, .f11n 15 (-8)), (.addIntLit8, .f22b 255 0 (-128)),
      (.invokeDirect, .f35c 65535 [15, 1]), (.invokeStaticRange, .f3rc 255 7 65281)] rfl
  exact ⟨width, readBack, numbers⟩

end Instruction

end Shrinker.Bytecode
