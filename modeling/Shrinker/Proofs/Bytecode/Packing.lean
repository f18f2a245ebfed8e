import Mathlib.Tactic.Ring
import Shrinker.Proofs.Bytecode.Ordering

/-!
Operands packed into one word. Each operand is moved to its place and or-ed in. A signed operand that is
widened with its sign has ones above its place: where it shares the word with a register, these ones cover the
register. That happens in one format; in the others the operands of one or two units can be told from the word.
-/
namespace Shrinker.Bytecode

namespace Operands

/-- The packed operands as a word. Literals are cut to their width before they are or-ed in, except in
`f11n`. -/
def word : Operands → BitVec 32
  | f10x => 0
  | f10t offset => offset.toBitVec.signExtend 32
  | f11n register literal => register.setWidth 32 <<< 4 ||| literal.signExtend 32
  | f11x register => register.toBitVec.setWidth 32
  | f12x first second => first.setWidth 32 <<< 4 ||| second.setWidth 32
  | f20t offset => offset.toBitVec.signExtend 32
  | f21c register index => register.toBitVec.setWidth 32 <<< 16 ||| index.toBitVec.setWidth 32
  | f21s register literal => register.toBitVec.setWidth 32 <<< 16 ||| literal.toBitVec.setWidth 32
  | f21t register offset => register.toBitVec.setWidth 32 <<< 16 ||| offset.toBitVec.setWidth 32
  | f22b first second literal =>
      first.toBitVec.setWidth 32 <<< 16 ||| second.toBitVec.setWidth 32 <<< 8 |||
        literal.toBitVec.setWidth 32
  | f22c first second index =>
      first.setWidth 32 <<< 20 ||| second.setWidth 32 <<< 16 ||| index.toBitVec.setWidth 32
  | f22s first second literal =>
      first.setWidth 32 <<< 20 ||| second.setWidth 32 <<< 16 ||| literal.toBitVec.setWidth 32
  | f22t first second offset =>
      first.setWidth 32 <<< 20 ||| second.setWidth 32 <<< 16 ||| offset.toBitVec.setWidth 32
  | f23x first second third =>
      first.toBitVec.setWidth 32 <<< 16 ||| second.toBitVec.setWidth 32 <<< 8 |||
        third.toBitVec.setWidth 32
  | f35c count c d e f g index =>
      (count.setWidth 32 <<< 20 ||| c.setWidth 32 <<< 16 ||| d.setWidth 32 <<< 12 |||
        e.setWidth 32 <<< 8 ||| f.setWidth 32 <<< 4 ||| g.setWidth 32) ^^^
          index.toBitVec.setWidth 32 <<< 8
  | f3rc count first index =>
      (count.toBitVec.setWidth 32 <<< 16 ||| first.toBitVec.setWidth 32) ^^^
        index.toBitVec.setWidth 32 <<< 8

section Lanes

variable {width upperWidth lowerWidth place upperPlace : Nat}

theorem toNat_setWidth_word (field : BitVec width) (room : width ≤ 32) :
    (field.setWidth 32).toNat = field.toNat := by
  rw [BitVec.toNat_setWidth, Nat.mod_eq_of_lt]
  exact lt_of_lt_of_le field.isLt (Nat.pow_le_pow_right (by decide) room)

theorem toNat_lane (field : BitVec width) {low : BitVec 32} (below : low.toNat < 2 ^ place)
    (room : width + place ≤ 32) :
    (field.setWidth 32 <<< place ||| low).toNat = field.toNat * 2 ^ place + low.toNat ∧
      (field.setWidth 32 <<< place ||| low).toNat < 2 ^ (width + place) := by
  have bound : field.toNat * 2 ^ place + low.toNat < 2 ^ (width + place) := by
    have whole : (field.toNat + 1) * 2 ^ place ≤ 2 ^ width * 2 ^ place :=
      Nat.mul_le_mul_right _ field.isLt
    rw [Nat.pow_add]
    rw [Nat.add_mul, Nat.one_mul] at whole
    omega
  have small : field.toNat * 2 ^ place < 2 ^ 32 :=
    lt_of_lt_of_le (by omega) (Nat.pow_le_pow_right (by decide) room)
  have sum : (field.setWidth 32 <<< place ||| low).toNat = field.toNat * 2 ^ place + low.toNat := by
    rw [BitVec.toNat_or, BitVec.toNat_shiftLeft, toNat_setWidth_word field (by omega), Nat.shiftLeft_eq,
      Nat.mod_eq_of_lt small, ← Nat.shiftLeft_eq, Nat.shiftLeft_add_eq_or_of_lt below]
  exact ⟨sum, sum ▸ bound⟩

theorem toInt_of_toNat_lt {bits : BitVec 32} (small : bits.toNat < 2 ^ 31) :
    bits.toInt = bits.toNat :=
  BitVec.toInt_eq_toNat_of_lt (by omega)

theorem toInt_one_lane (field : BitVec width) (room : width ≤ 31) :
    (field.setWidth 32).toInt = field.toNat := by
  have same := toNat_setWidth_word field (by omega)
  have bound : field.toNat < 2 ^ 31 :=
    lt_of_lt_of_le field.isLt (Nat.pow_le_pow_right (by decide) room)
  rw [toInt_of_toNat_lt (same ▸ bound), same]

theorem toInt_two_lanes (upper : BitVec upperWidth) (lower : BitVec lowerWidth)
    (apart : lowerWidth ≤ place) (room : upperWidth + place ≤ 31) :
    (upper.setWidth 32 <<< place ||| lower.setWidth 32).toInt =
      upper.toNat * 2 ^ place + lower.toNat := by
  have low := toNat_setWidth_word lower (by omega)
  have below : (lower.setWidth 32).toNat < 2 ^ place :=
    low ▸ lt_of_lt_of_le lower.isLt (Nat.pow_le_pow_right (by decide) apart)
  obtain ⟨sum, bound⟩ := toNat_lane upper below (by omega)
  have small := lt_of_lt_of_le bound (Nat.pow_le_pow_right (by decide) room)
  rw [toInt_of_toNat_lt small, sum, low]
  push_cast
  rfl

theorem toInt_three_lanes (upper : BitVec upperWidth) (field : BitVec width)
    (lower : BitVec lowerWidth) (apart : lowerWidth ≤ place) (above : width + place ≤ upperPlace)
    (room : upperWidth + upperPlace ≤ 31) :
    (upper.setWidth 32 <<< upperPlace ||| field.setWidth 32 <<< place ||| lower.setWidth 32).toInt =
      upper.toNat * 2 ^ upperPlace + field.toNat * 2 ^ place + lower.toNat := by
  have low := toNat_setWidth_word lower (by omega)
  have below : (lower.setWidth 32).toNat < 2 ^ place :=
    low ▸ lt_of_lt_of_le lower.isLt (Nat.pow_le_pow_right (by decide) apart)
  obtain ⟨inner, innerBound⟩ := toNat_lane field below (by omega)
  have next := lt_of_lt_of_le innerBound (Nat.pow_le_pow_right (by decide) above)
  obtain ⟨sum, bound⟩ := toNat_lane upper next (by omega)
  have small := lt_of_lt_of_le bound (Nat.pow_le_pow_right (by decide) room)
  rw [BitVec.or_assoc, toInt_of_toNat_lt small, sum, inner, low]
  push_cast
  ring

end Lanes

/-- The sign of a negative literal covers whatever is or-ed in above it. -/
theorem shiftLeft_or_signExtend (register : BitVec 32) {literal : Nibble}
    (negative : literal.toInt < 0) :
    register <<< 4 ||| literal.signExtend 32 = literal.signExtend 32 := by
  have sign : literal.msb = true := by
    rw [BitVec.msb_eq_toInt]
    exact decide_eq_true negative
  apply BitVec.eq_of_getLsbD_eq
  intro i bound
  rw [BitVec.getLsbD_or, BitVec.getLsbD_shiftLeft, BitVec.getLsbD_signExtend]
  by_cases inside : i < 4
  · simp [inside]
  · simp [inside, bound, sign]

theorem toInt_signed_lanes (register literal : Nibble) :
    (register.setWidth 32 <<< 4 ||| literal.signExtend 32).toInt =
      if literal.toInt < 0 then literal.toInt else register.toNat * 16 + literal.toInt := by
  split
  · rename_i negative
    rw [shiftLeft_or_signExtend _ negative, BitVec.toInt_signExtend_of_le (by decide)]
  · rename_i positive
    have sign : literal.msb = false := by
      rw [BitVec.msb_eq_toInt]
      exact decide_eq_false positive
    rw [BitVec.signExtend_eq_setWidth_of_msb_false sign, toInt_two_lanes register literal le_rfl (by decide),
      BitVec.toInt_eq_toNat_of_msb sign]
    rfl

theorem toNat_named_lanes (count c d e f g : Nibble) :
    (count.setWidth 32 <<< 20 ||| c.setWidth 32 <<< 16 ||| d.setWidth 32 <<< 12 |||
        e.setWidth 32 <<< 8 ||| f.setWidth 32 <<< 4 ||| g.setWidth 32).toNat =
      count.toNat * 1048576 + c.toNat * 65536 + d.toNat * 4096 + e.toNat * 256 + f.toNat * 16 +
        g.toNat := by
  have last := toNat_setWidth_word g (by decide)
  have below : (g.setWidth 32).toNat < 2 ^ 4 := last ▸ g.isLt
  obtain ⟨fourth, fourthBound⟩ := toNat_lane f below (by decide)
  obtain ⟨third, thirdBound⟩ := toNat_lane e fourthBound (by decide)
  obtain ⟨second, secondBound⟩ := toNat_lane d thirdBound (by decide)
  obtain ⟨first, firstBound⟩ := toNat_lane c secondBound (by decide)
  obtain ⟨whole, -⟩ := toNat_lane count firstBound (by decide)
  simp only [BitVec.or_assoc]
  simp only [Nat.reduceAdd] at whole first second third
  rw [whole, first, second, third, fourth, last]
  omega

theorem toInt_mixed {bits : BitVec 32} {number : Nat} (index : UInt16) (same : bits.toNat = number)
    (small : number < 2 ^ 31) :
    (bits ^^^ index.toBitVec.setWidth 32 <<< 8).toInt = (number ^^^ index.toNat * 256 : Nat) := by
  have bound := index.toNat_lt
  have moved : (index.toBitVec.setWidth 32 <<< 8).toNat = index.toNat * 256 := by
    rw [BitVec.toNat_shiftLeft, toNat_setWidth_word _ (by decide), Nat.shiftLeft_eq,
      UInt16.toNat_toBitVec, Nat.mod_eq_of_lt (by omega)]
  have mixed : (bits ^^^ index.toBitVec.setWidth 32 <<< 8).toNat = number ^^^ index.toNat * 256 := by
    rw [BitVec.toNat_xor, same, moved]
  have fits : number ^^^ index.toNat * 256 < 2 ^ 31 := Nat.xor_lt_two_pow small (by omega)
  rw [toInt_of_toNat_lt (mixed ▸ fits), mixed]

theorem toInt_word (operands : Operands) : operands.word.toInt = operands.packed := by
  cases operands with
  | f10x => rfl
  | f10t offset | f20t offset => exact BitVec.toInt_signExtend_of_le (by decide)
  | f11n register literal => exact toInt_signed_lanes register literal
  | f11x register => exact toInt_one_lane _ (by decide)
  | f12x first second => exact toInt_two_lanes _ _ le_rfl (by decide)
  | f21c register index => exact toInt_two_lanes _ _ le_rfl (by decide)
  | f21s register literal => exact toInt_two_lanes _ _ le_rfl (by decide)
  | f21t register offset => exact toInt_two_lanes _ _ le_rfl (by decide)
  | f22b first second literal => exact toInt_three_lanes _ _ _ le_rfl le_rfl (by decide)
  | f22c first second index => exact toInt_three_lanes _ _ _ le_rfl le_rfl (by decide)
  | f22s first second literal => exact toInt_three_lanes _ _ _ le_rfl le_rfl (by decide)
  | f22t first second offset => exact toInt_three_lanes _ _ _ le_rfl le_rfl (by decide)
  | f23x first second third => exact toInt_three_lanes _ _ _ le_rfl le_rfl (by decide)
  | f35c count c d e f g index =>
      have bound := count.isLt
      have first := c.isLt
      have second := d.isLt
      have third := e.isLt
      have fourth := f.isLt
      have last := g.isLt
      exact toInt_mixed index (toNat_named_lanes count c d e f g) (by omega)
  | f3rc count first index =>
      have low := toNat_setWidth_word first.toBitVec (by decide)
      have below : (first.toBitVec.setWidth 32).toNat < 2 ^ 16 := low ▸ first.toBitVec.isLt
      obtain ⟨sum, -⟩ := toNat_lane count.toBitVec below (by decide)
      rw [low] at sum
      have countBound := count.toNat_lt
      have firstBound := first.toNat_lt
      exact toInt_mixed index sum (by omega)

theorem packed_eq_iff_word {left right : Operands} :
    left.packed = right.packed ↔ left.word = right.word := by
  rw [← toInt_word, ← toInt_word, BitVec.toInt_inj]

theorem hash_eq_iff {left right : Operands} (same : left.format = right.format) :
    left.hash = right.hash ↔ left.packed = right.packed := by
  rw [packed_eq_iff_word, hash, hash, same, ← toInt_word, ← toInt_word, ← Int32.toBitVec_inj,
    Int32.toBitVec_xor, Int32.toBitVec_xor, Int32.toBitVec_ofInt, Int32.toBitVec_ofInt,
    BitVec.ofInt_toInt, BitVec.ofInt_toInt, BitVec.xor_left_inj]

end Operands

/-- The fields of operands with this packed number, for the formats of one or two units in which no sign
covers a register. -/
def Format.spread : Format → Int → List Int
  | .f10t, packed | .f11x, packed | .f20t, packed => [packed]
  | .f12x, packed => [packed / 16, packed % 16]
  | .f21c, packed => [packed / 65536, packed % 65536]
  | .f21s, packed | .f21t, packed => [packed / 65536, packed.bmod 65536]
  | .f22b, packed => [packed / 65536, packed / 256 % 256, packed.bmod 256]
  | .f22c, packed => [packed / 1048576, packed / 65536 % 16, packed % 65536]
  | .f22s, packed | .f22t, packed =>
      [packed / 1048576, packed / 65536 % 16, packed.bmod 65536]
  | .f23x, packed => [packed / 65536, packed / 256 % 256, packed % 256]
  | _, _ => []

namespace Operands

theorem toInt_eq_bmod_byte (literal : Int8) :
    literal.toInt = (literal.toUInt8.toNat : Int).bmod 256 :=
  BitVec.toInt_eq_toNat_bmod literal.toBitVec

theorem toInt_eq_bmod_word (literal : Int16) :
    literal.toInt = (literal.toUInt16.toNat : Int).bmod 65536 :=
  BitVec.toInt_eq_toNat_bmod literal.toBitVec

theorem spread_packed {operands : Operands} (short : operands.format.size ≤ 2)
    (uncovered : operands.format ≠ .f11n) : operands.format.spread operands.packed = operands.fields := by
  cases operands with
  | f10x | f10t | f11x | f20t => rfl
  | f11n => exact absurd rfl uncovered
  | f12x first second =>
      have bound := second.isLt
      simp only [format, Format.spread, packed, fields, List.cons.injEq, and_true]
      omega
  | f21c register index =>
      have bound := index.toNat_lt
      simp only [format, Format.spread, packed, fields, List.cons.injEq, and_true]
      omega
  | f21s register signed | f21t register signed =>
      have bound := signed.toUInt16.toNat_lt
      simp only [format, Format.spread, packed, fields, toInt_eq_bmod_word, Int.bmod, List.cons.injEq,
        and_true]
      omega
  | f22b first second literal =>
      have bound := second.toNat_lt
      have literalBound := literal.toUInt8.toNat_lt
      simp only [format, Format.spread, packed, fields, toInt_eq_bmod_byte, Int.bmod, List.cons.injEq,
        and_true]
      omega
  | f22c first second index =>
      have bound := second.isLt
      have indexBound := index.toNat_lt
      simp only [format, Format.spread, packed, fields, List.cons.injEq, and_true]
      omega
  | f22s first second signed | f22t first second signed =>
      have bound := second.isLt
      have signedBound := signed.toUInt16.toNat_lt
      simp only [format, Format.spread, packed, fields, toInt_eq_bmod_word, Int.bmod, List.cons.injEq,
        and_true]
      omega
  | f23x first second third =>
      have bound := second.toNat_lt
      have thirdBound := third.toNat_lt
      simp only [format, Format.spread, packed, fields, List.cons.injEq, and_true]
      omega
  | f35c | f3rc => exact absurd short (by simp [format, Format.size])

theorem packed_f11n_eq_iff {first second literal other : Nibble} :
    (f11n first literal).packed = (f11n second other).packed ↔
      literal = other ∧ (first = second ∨ literal.toInt < 0) := by
  have bound := literal.toInt_lt
  have otherBound := other.toInt_lt
  rw [← BitVec.toInt_inj, ← BitVec.toNat_inj]
  simp only [packed]
  split <;> split <;> omega

/-- Operands of one or two units are told apart by their packed number, and by their hash, unless both are a
register and the same negative literal in one unit: the sign of the literal covers the register there. -/
theorem packed_apart_unless_covered {left right : Operands} (same : left.format = right.format)
    (short : left.format.size ≤ 2) :
    left.packed = left.word.toInt ∧
      (left.packed = right.packed ↔
        left = right ∨ ∃ first second literal, literal.toInt < 0 ∧
          left = .f11n first literal ∧ right = .f11n second literal) ∧
      (left.hash = right.hash ↔ left.packed = right.packed) := by
  refine ⟨left.toInt_word.symm, ⟨?_, ?_⟩, hash_eq_iff same⟩
  · intro equal
    by_cases covered : left.format = .f11n
    · cases left with
      | f11n first literal =>
          cases right with
          | f11n second other =>
              obtain ⟨rfl, rfl | negative⟩ := packed_f11n_eq_iff.mp equal
              · exact Or.inl rfl
              · exact Or.inr ⟨first, second, literal, negative, rfl, rfl⟩
          | _ => cases same
      | _ => cases covered
    · have fields := spread_packed short covered
      rw [equal, same, spread_packed (same ▸ short) (same ▸ covered)] at fields
      exact Or.inl (eq_of_fields same fields.symm)
  · rintro (rfl | ⟨first, second, literal, negative, rfl, rfl⟩)
    · rfl
    · exact packed_f11n_eq_iff.mpr ⟨rfl, Or.inr negative⟩

/-- The registers 0 and 1 with the literal -1. -/
theorem sign_covers_register :
    ∃ left right, (RawOperands.f11n 0 (-1)).check = .ok left ∧
      (RawOperands.f11n 1 (-1)).check = .ok right ∧ left ≠ right ∧ left.packed = right.packed ∧
        left.hash = right.hash :=
  ⟨.f11n 0 (-1), .f11n 1 (-1), rfl, rfl, by decide, by decide, by decide⟩

/-- A negative literal in two units leaves the registers alone; in one unit it covers the register. -/
theorem packed_apart_unless_covered_literals :
    (f22b 1 2 (-1)).packed ≠ (f22b 7 9 (-1)).packed ∧ (f22b 1 2 (-1)).hash ≠ (f22b 7 9 (-1)).hash ∧
      (f11n 3 (-8)).packed = (f11n 4 (-8)).packed ∧ (f11n 3 (-8)).hash = (f11n 4 (-8)).hash := by
  obtain ⟨-, wide, wideHash⟩ :=
    @packed_apart_unless_covered (f22b 1 2 (-1)) (f22b 7 9 (-1)) rfl (by decide)
  obtain ⟨-, narrow, narrowHash⟩ :=
    @packed_apart_unless_covered (f11n 3 (-8)) (f11n 4 (-8)) rfl (by decide)
  have apart : (f22b 1 2 (-1)).packed ≠ (f22b 7 9 (-1)).packed := by
    intro equal
    rcases wide.mp equal with same | ⟨_, _, _, -, impossible, -⟩
    · exact absurd same (by decide)
    · cases impossible
  have covered : (f11n 3 (-8)).packed = (f11n 4 (-8)).packed :=
    narrow.mpr (Or.inr ⟨3, 4, -8, by decide, rfl, rfl⟩)
  exact ⟨apart, mt wideHash.mp apart, covered, narrowHash.mpr covered⟩

end Operands

end Shrinker.Bytecode
