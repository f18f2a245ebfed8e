import Mathlib.Data.Nat.Cast.Order.Ring
import Shrinker.Proofs.Bytecode.Ordering

namespace Shrinker.Bytecode

open Collection.Success

namespace Operands

/-- The registers that an invoke counts exist: there is room for five where they are named one by one, and a
range ends with the last register at most. -/
def IsAdmissible : Operands → Prop
  | f35c count .. => count.toNat ≤ 5
  | f3rc count first _ => first.toNat + count.toNat ≤ 65536
  | _ => True

theorem isAdmissible_of_format {operands : Operands} (unnamed : operands.format ≠ .f35c)
    (unranged : operands.format ≠ .f3rc) : operands.IsAdmissible := by
  cases operands with
  | f35c => exact absurd rfl unnamed
  | f3rc => exact absurd rfl unranged
  | _ => trivial

theorem length_arguments (count c d e f g : Nibble) (index : UInt16) :
    (f35c count c d e f g index).arguments.length = min count.toNat 5 :=
  List.length_take

theorem slot_register {registers : List Nibble} {count place : Nat} {register : Nibble}
    (canonical : ∀ unused ∈ registers.drop count, unused = 0)
    (present : registers[place]? = some register) :
    (registers.take count).getD place 0 = register := by
  have used := used_register canonical present
  rw [List.getD_eq_getElem?_getD, List.getElem?_take, present]
  split at used
  · rename_i inUse
    rw [if_pos inUse, Option.getD_some]
  · rename_i outOfUse
    rw [if_neg outOfUse, Option.getD_none, used]

end Operands

namespace RawOperands

theorem narrow_eq_ok {α : Type} {narrow : Int → α} {operand : String} {least greatest value : Int}
    {field : α} (above : least ≤ value) (below : value ≤ greatest) (kept : narrow value = field) :
    (inRange operand least greatest value).map narrow = .ok field :=
  map_eq_ok.mpr ⟨value, inRange_eq_ok.mpr ⟨⟨above, below⟩, rfl⟩, kept⟩

theorem nibble_toNat (operand : String) (field : Nibble) :
    nibble operand field.toNat = .ok field := by
  have bound := field.isLt
  refine narrow_eq_ok (by omega) (by omega) ?_
  rw [BitVec.ofInt_natCast, BitVec.ofNat_toNat, BitVec.setWidth_eq]

theorem signedNibble_toInt (operand : String) (field : Nibble) :
    signedNibble operand field.toInt = .ok field := by
  have above := field.le_toInt
  have below := field.toInt_lt
  exact narrow_eq_ok (by omega) (by omega) BitVec.ofInt_toInt

theorem byte_toNat (operand : String) (field : UInt8) : byte operand field.toNat = .ok field := by
  have bound := field.toNat_lt
  exact narrow_eq_ok (by omega) (by omega) UInt8.ofNat_toNat

theorem signedByte_toInt (operand : String) (field : Int8) :
    signedByte operand field.toInt = .ok field := by
  have above := field.le_toInt
  have below := field.toInt_lt
  exact narrow_eq_ok (by omega) (by omega) (Int8.ofInt_toInt field)

theorem word_toNat (operand : String) (field : UInt16) : word operand field.toNat = .ok field := by
  have bound := field.toNat_lt
  exact narrow_eq_ok (by omega) (by omega) UInt16.ofNat_toNat

theorem signedWord_toInt (operand : String) (field : Int16) :
    signedWord operand field.toInt = .ok field := by
  have above := field.le_toInt
  have below := field.toInt_lt
  exact narrow_eq_ok (by omega) (by omega) (Int16.ofInt_toInt field)

theorem argumentRegisters_map_toNat {used : List Nibble} (few : used.length ≤ 5) :
    argumentRegisters (used.map fun register => (register.toNat : Int)) = .ok used := by
  rcases used with _ | ⟨c, _ | ⟨d, _ | ⟨e, _ | ⟨f, _ | ⟨g, _ | ⟨h, more⟩⟩⟩⟩⟩⟩
  rotate_right
  · simp only [List.length_cons] at few
    omega
  all_goals
    simp only [argumentRegisters, registerNames, List.map_cons, List.map_nil, List.zip_cons_cons,
      List.zip_nil_right, List.mapM_cons, List.mapM_nil, nibble_toNat, ok_bind]
    rfl

theorem check_f35c_raw {count c d e f g : Nibble} {index : UInt16}
    (canonical : (Operands.f35c count c d e f g index).IsCanonical) (room : count.toNat ≤ 5) :
    (Operands.f35c count c d e f g index).raw.check = .ok (.f35c count c d e f g index) := by
  have width : ([c, d, e, f, g].take count.toNat).length = count.toNat := by
    rw [List.length_take]
    exact Nat.min_eq_left room
  have few : ([c, d, e, f, g].take count.toNat).length ≤ 5 := by
    rw [width]
    exact room
  simp only [Operands.raw, check, List.length_map, width, argumentRegisters_map_toNat few, word_toNat,
    ok_bind, gt_iff_lt, Nat.not_lt.mpr room, if_false]
  rw [Operands.slot_register canonical rfl, Operands.slot_register canonical rfl,
    Operands.slot_register canonical rfl, Operands.slot_register canonical rfl,
    Operands.slot_register canonical rfl, BitVec.ofNat_toNat, BitVec.setWidth_eq]
  rfl

theorem check_raw {operands : Operands} (canonical : operands.IsCanonical)
    (admissible : operands.IsAdmissible) : operands.raw.check = .ok operands := by
  cases operands with
  | f35c count c d e f g index => exact check_f35c_raw canonical admissible
  | f3rc count first index =>
      have reaches : (first.toNat : Int) + count.toNat ≤ 65536 := by
        exact_mod_cast admissible
      have last : inRange "C" 0 65536 (first.toNat + count.toNat) =
          .ok ((first.toNat : Int) + count.toNat) :=
        inRange_eq_ok.mpr ⟨⟨by omega, reaches⟩, rfl⟩
      simp only [Operands.raw, check, byte_toNat, word_toNat, last, ok_bind]
      rfl
  | _ =>
      simp only [Operands.raw, check, nibble_toNat, signedNibble_toInt, byte_toNat, signedByte_toInt,
        word_toNat, signedWord_toInt, ok_bind]
      rfl

theorem isAdmissible_check {raw : RawOperands} {operands : Operands}
    (checked : raw.check = .ok operands) : operands.IsAdmissible := by
  cases raw with
  | f35c index registers =>
      obtain ⟨few, used, narrow, -, -, rfl⟩ := check_f35c checked
      change (BitVec.ofNat 4 registers.length).toNat ≤ 5
      rw [BitVec.toNat_ofNat]
      omega
  | f3rc count index first =>
      simp only [check, bind_eq_ok] at checked
      obtain ⟨narrowCount, countChecked, narrowFirst, firstChecked, _, lastChecked, _, -,
        assembled⟩ := checked
      cases assembled
      have last := (inRange_eq_ok.mp lastChecked).1.2
      rw [← toNat_byte countChecked, ← toNat_word firstChecked] at last
      exact_mod_cast last
  | _ =>
      apply Operands.isAdmissible_of_format <;>
        rw [format_check checked] <;> simp [format]

theorem eq_of_fields {left right : RawOperands} (format : left.format = right.format)
    (fields : left.fields = right.fields) : left = right := by
  cases left <;> cases right <;> cases format
  case f35c.f35c index registers index' registers' =>
    obtain ⟨count, others⟩ := List.cons.inj fields
    have width : registers.length = registers'.length := Int.natCast_inj.mp count
    obtain ⟨padded, last⟩ := List.append_inj' others rfl
    obtain ⟨same, -⟩ := List.append_inj padded width
    rw [same, List.singleton_inj.mp last]
  all_goals simp_all [RawOperands.fields]

/-- The checks accept the numbers of operands whose registers out of use are zero and whose other registers
exist, and no more. -/
theorem check_eq_ok_iff {raw : RawOperands} {operands : Operands} :
    raw.check = .ok operands ↔
      operands.IsCanonical ∧ operands.IsAdmissible ∧ raw = operands.raw := by
  constructor
  · intro checked
    have canonical := Operands.isCanonical_check checked
    have admissible := isAdmissible_check checked
    have again := check_raw canonical admissible
    refine ⟨canonical, admissible, eq_of_fields ?_ ?_⟩
    · rw [← format_check checked, format_check again]
    · rw [← fields_check checked, fields_check again]
  · rintro ⟨canonical, admissible, rfl⟩
    exact check_raw canonical admissible

end RawOperands

namespace Instruction

variable {instruction : Instruction}

theorem ofRaw_eq_ok_iff {opcode : Opcode} {raw : RawOperands} :
    ofRaw opcode raw = .ok instruction ↔
      instruction.opcode = opcode ∧ raw.check = .ok instruction.operands := by
  constructor
  · intro built
    exact ofRaw_eq_ok built
  · rintro ⟨rfl, checked⟩
    refine bind_eq_ok.mpr ⟨instruction.operands, checked, ?_⟩
    rw [make, dif_pos instruction.fits]

theorem exists_decodeAll_iff :
    (∃ units instructions, decodeAll units = .ok instructions ∧ instruction ∈ instructions) ↔
      instruction.operands.IsCanonical := by
  constructor
  · rintro ⟨units, instructions, read, member⟩
    exact isCanonical_of_mem_decodeFrom read instruction member
  · intro canonical
    have readBack := decodeAll_encodeAll (List.forall_mem_singleton.mpr canonical)
    exact ⟨_, _, readBack, List.mem_singleton_self instruction⟩

/-- An instruction that was read can be built exactly if its registers exist, and then from its own numbers
only. Only the two forms of an invoke can fail in this: one that counts more registers than it has room for,
and so passes fewer than it counts, and one whose range goes past the last register. The instructions that
can be built are those that can be read without such a fault. -/
theorem decoded_built_iff_admissible {units : List CodeUnit} {instructions : List Instruction}
    (read : decodeAll units = .ok instructions) :
    (∀ instruction ∈ instructions,
      (∀ opcode raw, ofRaw opcode raw = .ok instruction ↔
        instruction.operands.IsAdmissible ∧ opcode = instruction.opcode ∧
          raw = instruction.operands.raw) ∧
      (instruction.operands.format ≠ .f35c → instruction.operands.format ≠ .f3rc →
        instruction.operands.IsAdmissible) ∧
      ∀ count c d e f g index, instruction.operands = .f35c count c d e f g index →
        instruction.operands.arguments.length = min count.toNat 5 ∧
          (instruction.operands.arguments.length = count.toNat ↔
            instruction.operands.IsAdmissible)) ∧
    ∀ instruction, (∃ opcode raw, ofRaw opcode raw = .ok instruction) ↔
      (∃ units instructions, decodeAll units = .ok instructions ∧ instruction ∈ instructions) ∧
        instruction.operands.IsAdmissible := by
  refine ⟨?_, ?_⟩
  · intro instruction member
    have canonical := isCanonical_of_mem_decodeFrom read instruction member
    refine ⟨?_, Operands.isAdmissible_of_format, ?_⟩
    · intro opcode raw
      rw [ofRaw_eq_ok_iff, RawOperands.check_eq_ok_iff, and_iff_right canonical, and_left_comm,
        eq_comm (b := opcode)]
    · intro count c d e f g index same
      rw [same, Operands.length_arguments]
      exact ⟨rfl, min_eq_left_iff⟩
  · intro instruction
    simp only [ofRaw_eq_ok_iff, RawOperands.check_eq_ok_iff, exists_decodeAll_iff, exists_and_left,
      exists_eq_left', exists_eq, and_true]

def crowded : Instruction := ⟨.invokeVirtual, .f35c 15 1 2 3 4 0 7, rfl⟩

def overrun : Instruction := ⟨.invokeVirtualRange, .f3rc 2 65535 7, rfl⟩

theorem not_isAdmissible_crowded : ¬crowded.operands.IsAdmissible := by
  simp [crowded, Operands.IsAdmissible]

theorem not_isAdmissible_overrun : ¬overrun.operands.IsAdmissible := by
  simp [overrun, Operands.IsAdmissible]

/-- Both invokes are read from code, and no numbers build them. -/
theorem decoded_beyond_constructors :
    decodeAll [0xF06E, 7, 0x4321, 0x0274, 7, 0xFFFF] = .ok [crowded, overrun] ∧
      crowded.operands.arguments.length = 5 ∧
      ∀ opcode raw, ofRaw opcode raw ≠ .ok crowded ∧ ofRaw opcode raw ≠ .ok overrun := by
  refine ⟨by cbv, rfl, ?_⟩
  intro opcode raw
  simp only [Ne, ofRaw_eq_ok_iff, RawOperands.check_eq_ok_iff, not_and]
  refine ⟨fun _ _ admissible => ?_, fun _ _ admissible => ?_⟩
  · exact absurd admissible not_isAdmissible_crowded
  · exact absurd admissible not_isAdmissible_overrun

/-- Of a negative literal, an invoke of two registers with stale bits, a range that ends with the last
register and an invoke that counts fifteen registers only the last cannot be built. -/
theorem decoded_built_iff_admissible_crowded :
    ∃ literal two range,
      decodeAll [0x8312, 0x2F6E, 7, 0x4321, 0xFF74, 7, 0xFF01, 0xF06E, 7, 0x4321] =
        .ok [literal, two, range, crowded] ∧
      ofRaw .const4 (.f11n 3 (-8)) = .ok literal ∧
      ofRaw .invokeVirtual (.f35c 7 [1, 2]) = .ok two ∧
      ofRaw .invokeVirtualRange (.f3rc 255 7 65281) = .ok range ∧
      ∀ opcode raw, ofRaw opcode raw ≠ .ok crowded := by
  have read : decodeAll [0x8312, 0x2F6E, 7, 0x4321, 0xFF74, 7, 0xFF01, 0xF06E, 7, 0x4321] =
      .ok [⟨.const4, .f11n 3 (-8), rfl⟩, ⟨.invokeVirtual, .f35c 2 1 2 0 0 0 7, rfl⟩,
        ⟨.invokeVirtualRange, .f3rc 255 65281 7, rfl⟩, crowded] := by
    cbv
  obtain ⟨decoded, -⟩ := decoded_built_iff_admissible read
  refine ⟨_, _, _, read, ?_, ?_, ?_, ?_⟩
  · exact ((decoded _ (by simp)).1 .const4 (.f11n 3 (-8))).mpr ⟨trivial, rfl, rfl⟩
  · refine ((decoded _ (by simp)).1 .invokeVirtual (.f35c 7 [1, 2])).mpr ⟨?_, rfl, rfl⟩
    simp [Operands.IsAdmissible]
  · refine ((decoded _ (by simp)).1 .invokeVirtualRange (.f3rc 255 7 65281)).mpr ⟨?_, rfl, rfl⟩
    simp [Operands.IsAdmissible]
  · intro opcode raw built
    have admissible := (((decoded crowded (by simp)).1 opcode raw).mp built).1
    exact not_isAdmissible_crowded admissible

end Instruction

end Shrinker.Bytecode
