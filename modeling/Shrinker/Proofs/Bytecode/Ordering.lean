import Shrinker.Proofs.Bytecode.IdleBits

namespace Shrinker.Bytecode

open Collection.Success

theorem compare_toNat_byte (left right : UInt8) :
    compare (left.toNat : Int) right.toNat = compare left right := by
  rw [UInt8.compare_eq_toNat_compare_toNat, Int.compare_eq_ite_lt, Nat.compare_eq_ite_lt]
  simp only [Int.ofNat_lt]

namespace Operands

theorem eq_of_fields {left right : Operands} (format : left.format = right.format)
    (fields : left.fields = right.fields) : left = right := by
  cases left <;> cases right <;> cases format
  case f10x.f10x => rfl
  all_goals
    simpa [Operands.fields, UInt8.toNat_inj, UInt16.toNat_inj, Int8.toInt_inj, Int16.toInt_inj,
      BitVec.toNat_inj, BitVec.toInt_inj, Int.ofNat_inj] using fields

theorem key_injective {left right : Operands} (same : left.key = right.key) : left = right := by
  obtain ⟨ordinal, fields⟩ := List.cons.inj same
  exact eq_of_fields (Format.ordinal_injective (Int.natCast_inj.mp ordinal)) fields

end Operands

/-- The numbers that operands are built from, in the order in which they count. Only the two forms of an
invoke change it: the method comes last, and registers that are not named count as zero. -/
def Format.precedence : Format → List Int → List Int
  | .f35c, index :: registers =>
      registers.length :: (registers ++ List.replicate (5 - registers.length) 0 ++ [index])
  | .f3rc, [count, index, first] => [count, first, index]
  | _, numbers => numbers

theorem RawOperands.fields_ofNumbers? {format : Format} {numbers : List Int} {raw : RawOperands}
    (listed : ofNumbers? format numbers = some raw) : raw.fields = format.precedence numbers := by
  unfold ofNumbers? at listed
  split at listed <;> cases listed <;> rfl

namespace Instruction

variable {left right : Instruction}

theorem key_injective (same : left.key = right.key) : left = right := by
  obtain ⟨byte, key⟩ := List.cons.inj same
  have opcode : left.opcode = right.opcode :=
    Opcode.byte_injective (UInt8.toNat_inj.mp (Int.natCast_inj.mp byte))
  have operands : left.operands = right.operands := Operands.key_injective key
  cases left
  cases right
  cases opcode
  cases operands
  rfl

theorem compare_eq_compare_key (left right : Instruction) :
    compare left right = compare left.key right.key :=
  rfl

instance : Std.TransOrd Instruction where
  eq_swap {left right} := by
    rw [compare_eq_compare_key, compare_eq_compare_key]
    exact Std.OrientedOrd.eq_swap
  isLE_trans {first second third} := by
    rw [compare_eq_compare_key, compare_eq_compare_key, compare_eq_compare_key]
    exact Std.TransOrd.isLE_trans

instance : Std.LawfulEqOrd Instruction where
  compare_self {instruction} := by
    rw [compare_eq_compare_key]
    exact Std.ReflOrd.compare_self
  eq_of_compare {left right} same := by
    rw [compare_eq_compare_key] at same
    exact key_injective (Std.LawfulEqOrd.eq_of_compare same)

instance : Std.LawfulOrderOrd Instruction where
  isLE_compare _ _ := Iff.rfl
  isGE_compare left right := by
    rw [Std.OrientedOrd.eq_swap, Ordering.isGE_swap]
    exact Iff.rfl

instance : Std.IsLinearOrder Instruction :=
  .of_ord

instance : DecidableLE Instruction :=
  fun left right => inferInstanceAs (Decidable ((compare left right).isLE = true))

theorem compare_of_opcode_ne (different : left.opcode ≠ right.opcode) :
    compare left right = compare left.opcode.byte right.opcode.byte := by
  rw [compare_eq_compare_key, key, key, List.compare_cons_cons, compare_toNat_byte]
  have apart : compare left.opcode.byte right.opcode.byte ≠ .eq := by
    intro same
    exact different (Opcode.byte_injective (Std.LawfulEqOrd.eq_of_compare same))
  cases order : compare left.opcode.byte right.opcode.byte with
  | lt => rfl
  | eq => exact absurd order apart
  | gt => rfl

theorem compare_of_opcode_eq (same : left.opcode = right.opcode) :
    compare left right = compare left.operands.fields right.operands.fields := by
  have format : left.operands.format = right.operands.format := by
    rw [left.fits, right.fits, same]
  rw [compare_eq_compare_key, key, key, Operands.key, Operands.key, same, format,
    List.compare_cons_cons, List.compare_cons_cons, Std.ReflOrd.compare_self,
    Std.ReflOrd.compare_self]
  rfl

theorem compare_of_numbers {opcode : Opcode} {numbers others : List Int} {raw other : RawOperands}
    (listed : RawOperands.ofNumbers? opcode.format numbers = some raw)
    (alsoListed : RawOperands.ofNumbers? opcode.format others = some other)
    (built : ofRaw opcode raw = .ok left) (alsoBuilt : ofRaw opcode other = .ok right) :
    compare left right =
      compare (opcode.format.precedence numbers) (opcode.format.precedence others) := by
  obtain ⟨leftOpcode, leftChecked⟩ := ofRaw_eq_ok built
  obtain ⟨rightOpcode, rightChecked⟩ := ofRaw_eq_ok alsoBuilt
  rw [compare_of_opcode_eq (leftOpcode.trans rightOpcode.symm), RawOperands.fields_check leftChecked,
    RawOperands.fields_check rightChecked, RawOperands.fields_ofNumbers? listed,
    RawOperands.fields_ofNumbers? alsoListed]

theorem encode_injective (obtained : left.IsObtained) (alsoObtained : right.IsObtained)
    (same : left.encode = right.encode) : left = right := by
  have readLeft := decode_encode obtained.isCanonical [] 0
  have readRight := decode_encode alsoObtained.isCanonical [] 0
  rw [same, readRight] at readLeft
  cases readLeft
  rfl

theorem isObtained_of_mem_decodeFrom {cursor : Cursor} {instructions : List Instruction}
    (read : decodeFrom cursor = .ok instructions) :
    ∀ instruction ∈ instructions, instruction.IsObtained := by
  induction instructions generalizing cursor with
  | nil => exact List.forall_mem_nil _
  | cons instruction instructions ih =>
      obtain ⟨-, impossible⟩ | ⟨_, _, after, same, first, remaining⟩ := decodeFrom_eq_ok read
      · cases impossible
      · cases same
        exact List.forall_mem_cons.mpr ⟨Or.inr ⟨cursor, after, first⟩, ih remaining⟩

theorem sort_perm (body : List Instruction) : (sort body).Perm body :=
  List.mergeSort_perm body _

theorem pairwise_sort (body : List Instruction) : (sort body).Pairwise (· ≤ ·) := by
  refine List.pairwise_mergeSort ?_ ?_ body
  · intro first second third
    exact Std.TransOrd.isLE_trans
  · intro left right
    rw [Bool.or_eq_true]
    exact Std.le_total (α := Instruction)

theorem eq_sort_iff {body sorted : List Instruction} :
    sorted = sort body ↔ sorted.Perm body ∧ sorted.Pairwise (· ≤ ·) := by
  constructor
  · rintro rfl
    exact ⟨sort_perm body, pairwise_sort body⟩
  · rintro ⟨rearranged, ascending⟩
    refine List.Perm.eq_of_pairwise ?_ ascending (pairwise_sort body)
      (rearranged.trans (sort_perm body).symm)
    intro left right _ _
    exact Std.le_antisymm

theorem decodeAll_encodeAll_sort {body : List Instruction}
    (obtained : ∀ instruction ∈ body, instruction.IsObtained) :
    decodeAll (encodeAll (sort body)) = .ok (sort body) := by
  apply decodeAll_encodeAll
  intro instruction member
  exact (obtained instruction ((sort_perm body).mem_iff.mp member)).isCanonical

/-- Instructions are in a total order, in which only equal ones stand level. They go by the bytes of their
opcodes, then one after the other by the numbers that they were built from: count, registers and index of an
invoke with explicit registers, count, first register and index of one with a range. A body has one sorted
form, whether it is sorted before it is written and read back or after. -/
theorem order_follows_arguments :
    (∀ first second third : Instruction,
      (first ≤ second ∨ second ≤ first) ∧
        (first ≤ second → second ≤ third → first ≤ third) ∧
        (first ≤ second → second ≤ first → first = second)) ∧
    (∀ left right : Instruction, left.IsObtained → right.IsObtained →
      compare right left = (compare left right).swap ∧
        (compare left right = .eq ↔ left = right) ∧
        (left.encode = right.encode ↔ left = right) ∧
        (compare left right = .eq → left.hashKey = right.hashKey)) ∧
    (∀ left right : Instruction, left.opcode ≠ right.opcode →
      compare left right = compare left.opcode.byte right.opcode.byte) ∧
    (∀ opcode numbers others raw other left right,
      RawOperands.ofNumbers? opcode.format numbers = some raw →
      RawOperands.ofNumbers? opcode.format others = some other →
      ofRaw opcode raw = .ok left → ofRaw opcode other = .ok right →
        compare left right =
          compare (opcode.format.precedence numbers) (opcode.format.precedence others)) ∧
    (∀ body : List Instruction, (∀ instruction ∈ body, instruction.IsObtained) →
      (∀ sorted, sorted = sort body ↔ sorted.Perm body ∧ sorted.Pairwise (· ≤ ·)) ∧
        decodeAll (encodeAll (sort body)) = (decodeAll (encodeAll body)).map sort) ∧
    ∀ units body, decodeAll units = .ok body →
      decodeAll (encodeAll (sort body)) = .ok (sort body) := by
  refine ⟨?_, ?_, ?_, ?_, ?_, ?_⟩
  · intro first second third
    exact ⟨Std.le_total, Std.le_trans, Std.le_antisymm⟩
  · intro left right obtained alsoObtained
    refine ⟨Std.OrientedOrd.eq_swap, Std.compare_eq_iff_eq, ⟨?_, congrArg encode⟩, ?_⟩
    · exact encode_injective obtained alsoObtained
    · intro level
      rw [Std.LawfulEqOrd.eq_of_compare level]
  · intro left right different
    exact compare_of_opcode_ne different
  · intro opcode numbers others raw other left right listed alsoListed built alsoBuilt
    exact compare_of_numbers listed alsoListed built alsoBuilt
  · intro body obtained
    have readBack : decodeAll (encodeAll body) = .ok body :=
      decodeAll_encodeAll fun instruction member => (obtained instruction member).isCanonical
    refine ⟨fun _ => eq_sort_iff, ?_⟩
    rw [decodeAll_encodeAll_sort obtained, readBack]
    rfl
  · intro units body read
    exact decodeAll_encodeAll_sort (isObtained_of_mem_decodeFrom read)

namespace Mixed

def negative : Instruction := ⟨.const4, .f11n 1 (-8), rfl⟩

def positive : Instruction := ⟨.const4, .f11n 1 7, rfl⟩

def one : Instruction := ⟨.invokeStatic, .f35c 1 15 0 0 0 0 9, rfl⟩

def two : Instruction := ⟨.invokeStatic, .f35c 2 0 1 0 0 0 2, rfl⟩

def low : Instruction := ⟨.invokeStaticRange, .f3rc 1 3 5, rfl⟩

def high : Instruction := ⟨.invokeStaticRange, .f3rc 1 9 0, rfl⟩

def body : List Instruction :=
  [high, low, two, one, positive, negative]

end Mixed

open Mixed in
theorem order_follows_arguments_mixed :
    compare negative positive = .lt ∧ compare one two = .lt ∧ compare low high = .lt ∧
      compare high positive = .gt ∧ sort body = body.reverse ∧
      decodeAll (encodeAll (sort body)) = (decodeAll (encodeAll body)).map sort := by
  obtain ⟨-, -, opcodes, arguments, bodies, -⟩ := order_follows_arguments
  have obtained : ∀ instruction ∈ body, instruction.IsObtained := by
    simp only [body, List.forall_mem_cons, List.not_mem_nil, IsEmpty.forall_iff, implies_true, and_true]
    exact ⟨.inl ⟨.invokeStaticRange, .f3rc 1 0 9, rfl⟩, .inl ⟨.invokeStaticRange, .f3rc 1 5 3, rfl⟩,
      .inl ⟨.invokeStatic, .f35c 2 [0, 1], rfl⟩, .inl ⟨.invokeStatic, .f35c 9 [15], rfl⟩,
      .inl ⟨.const4, .f11n 1 7, rfl⟩, .inl ⟨.const4, .f11n 1 (-8), rfl⟩⟩
  obtain ⟨unique, readBack⟩ := bodies body obtained
  refine ⟨?_, ?_, ?_, ?_, ?_, readBack⟩
  · exact arguments .const4 [1, -8] [1, 7] _ _ _ _ rfl rfl rfl rfl
  · exact arguments .invokeStatic [9, 15] [2, 0, 1] _ _ _ _ rfl rfl rfl rfl
  · exact arguments .invokeStaticRange [1, 5, 3] [1, 0, 9] _ _ _ _ rfl rfl rfl rfl
  · exact opcodes high positive (by decide)
  · exact ((unique body.reverse).mpr ⟨List.reverse_perm body, by decide⟩).symm

end Instruction

end Shrinker.Bytecode
