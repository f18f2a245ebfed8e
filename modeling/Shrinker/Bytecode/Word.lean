namespace Shrinker.Bytecode

/-- Half a byte: a small register number, or a signed literal from -8 to 7. -/
abbrev Nibble := BitVec 4

abbrev CodeUnit := UInt16

namespace Nibble

def pair (high low : Nibble) : UInt8 :=
  .ofBitVec (high ++ low)

def highOf (byte : UInt8) : Nibble :=
  byte.toBitVec.extractLsb' 4 4

def lowOf (byte : UInt8) : Nibble :=
  byte.toBitVec.extractLsb' 0 4

theorem toNat_pair (high low : Nibble) :
    (pair high low).toNat = high.toNat * 16 + low.toNat := by
  have bound := low.isLt
  simp only [pair, UInt8.toNat_ofBitVec, BitVec.toNat_append]
  rw [Nat.shiftLeft_eq, Nat.mul_comm, ← Nat.two_pow_add_eq_or_of_lt (by omega) high.toNat]

theorem toNat_highOf (byte : UInt8) : (highOf byte).toNat = byte.toNat / 16 := by
  have bound := byte.toNat_lt
  simp [highOf, BitVec.extractLsb'_toNat, Nat.shiftRight_eq_div_pow]
  omega

theorem toNat_lowOf (byte : UInt8) : (lowOf byte).toNat = byte.toNat % 16 := by
  simp [lowOf, BitVec.extractLsb'_toNat]

@[simp] theorem highOf_pair (high low : Nibble) : highOf (pair high low) = high := by
  apply BitVec.eq_of_toNat_eq
  rw [toNat_highOf, toNat_pair]
  have bound := low.isLt
  omega

@[simp] theorem lowOf_pair (high low : Nibble) : lowOf (pair high low) = low := by
  apply BitVec.eq_of_toNat_eq
  rw [toNat_lowOf, toNat_pair]
  have bound := low.isLt
  omega

@[simp] theorem pair_highOf_lowOf (byte : UInt8) : pair (highOf byte) (lowOf byte) = byte := by
  apply UInt8.toNat_inj.mp
  rw [toNat_pair, toNat_highOf, toNat_lowOf]
  omega

end Nibble

namespace CodeUnit

def ofBytes (high low : UInt8) : CodeUnit :=
  .ofBitVec (high.toBitVec ++ low.toBitVec)

def high (unit : CodeUnit) : UInt8 :=
  .ofBitVec (unit.toBitVec.extractLsb' 8 8)

def low (unit : CodeUnit) : UInt8 :=
  .ofBitVec (unit.toBitVec.extractLsb' 0 8)

theorem toNat_ofBytes (high low : UInt8) :
    (ofBytes high low).toNat = high.toNat * 256 + low.toNat := by
  have bound := low.toNat_lt
  simp only [ofBytes, UInt16.toNat_ofBitVec, BitVec.toNat_append, UInt8.toNat_toBitVec]
  rw [Nat.shiftLeft_eq, Nat.mul_comm, ← Nat.two_pow_add_eq_or_of_lt (by omega) high.toNat]

theorem toNat_high (unit : CodeUnit) : (high unit).toNat = unit.toNat / 256 := by
  have bound := unit.toNat_lt
  simp [high, BitVec.extractLsb'_toNat, Nat.shiftRight_eq_div_pow]
  omega

theorem toNat_low (unit : CodeUnit) : (low unit).toNat = unit.toNat % 256 := by
  simp [low, BitVec.extractLsb'_toNat]

@[simp] theorem high_ofBytes (h l : UInt8) : high (ofBytes h l) = h := by
  apply UInt8.toNat_inj.mp
  rw [toNat_high, toNat_ofBytes]
  have bound := l.toNat_lt
  omega

@[simp] theorem low_ofBytes (h l : UInt8) : low (ofBytes h l) = l := by
  apply UInt8.toNat_inj.mp
  rw [toNat_low, toNat_ofBytes]
  have bound := l.toNat_lt
  omega

@[simp] theorem ofBytes_high_low (unit : CodeUnit) : ofBytes (high unit) (low unit) = unit := by
  apply UInt16.toNat_inj.mp
  rw [toNat_ofBytes, toNat_high, toNat_low]
  omega

def toBytes (units : List CodeUnit) : List UInt8 :=
  units.flatMap fun unit => [low unit, high unit]

/-- Reads the units back; there is none for a lone last byte. -/
def ofByteStream? : List UInt8 → Option (List CodeUnit)
  | [] => some []
  | [_] => none
  | l :: h :: rest => (ofByteStream? rest).map (ofBytes h l :: ·)

@[simp] theorem ofByteStream?_toBytes (units : List CodeUnit) :
    ofByteStream? (toBytes units) = some units := by
  induction units with
  | nil => rfl
  | cons unit units ih =>
      simp only [toBytes, List.flatMap_cons, List.cons_append, List.nil_append] at ih ⊢
      simp [ofByteStream?, ih]

end CodeUnit

end Shrinker.Bytecode
