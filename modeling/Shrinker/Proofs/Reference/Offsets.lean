import Mathlib.Data.List.Basic
import Shrinker.Proofs.Reference.Reading

namespace Shrinker.Reference.Descriptor

theorem takeValueType?_bracket (rest : List Char) :
    takeValueType? ('[' :: rest) =
      (takeValueType? rest).map fun taken => ('[' :: taken.1, taken.2) := by
  rw [takeValueType?, if_pos rfl]

theorem takeValueType?_brackets (dimensions : Nat) (rest : List Char) :
    takeValueType? (List.replicate dimensions '[' ++ rest) =
      (takeValueType? rest).map fun taken =>
        (List.replicate dimensions '[' ++ taken.1, taken.2) := by
  induction dimensions with
  | zero => simp
  | succ dimensions ih =>
      rw [List.replicate_succ, List.cons_append, takeValueType?_bracket, ih, Option.map_map]
      rfl

theorem exists_eq_brackets (text : List Char) :
    ∃ dimensions rest, text = List.replicate dimensions '[' ++ rest ∧
      rest.head? ≠ some '[' := by
  induction text with
  | nil => exact ⟨0, [], rfl, nofun⟩
  | cons c text ih =>
      by_cases bracket : c = '['
      · obtain ⟨dimensions, rest, rfl, unbracketed⟩ := ih
        exact ⟨dimensions + 1, rest, by rw [bracket, List.replicate_succ, List.cons_append],
          unbracketed⟩
      · exact ⟨0, c :: text, rfl, by simpa using bracket⟩

namespace Offsets

def bytes (text : String) : List UInt8 :=
  text.toUTF8.data.toList

def encode (text : List Char) : List UInt8 :=
  text.flatMap String.utf8EncodeChar

def byte (c : Char) : UInt8 :=
  UInt8.ofNat c.toNat

section Bytes

variable {c mark : Char} {text left right : List Char}

theorem bytes_ofList (text : List Char) : bytes (.ofList text) = encode text := by
  simp [bytes, List.utf8Encode, encode]

theorem encode_cons (c : Char) (text : List Char) :
    encode (c :: text) = String.utf8EncodeChar c ++ encode text :=
  List.flatMap_cons

theorem encode_append (left right : List Char) :
    encode (left ++ right) = encode left ++ encode right :=
  List.flatMap_append

theorem encode_eq_nil_iff : encode text = [] ↔ text = [] := by
  cases text with
  | nil => exact iff_of_true rfl rfl
  | cons c text => simp [encode_cons, String.utf8EncodeChar_ne_nil]

theorem utf8EncodeChar_mark (ascii : mark.toNat < 128) :
    String.utf8EncodeChar mark = [byte mark] :=
  if_pos (Nat.le_of_lt_succ ascii)

theorem toNat_byte (ascii : mark.toNat < 128) : (byte mark).toNat = mark.toNat := by
  simp only [byte, UInt8.toNat_ofNat']
  omega

theorem toNat_of_mem_utf8EncodeChar {unit : UInt8} (member : unit ∈ String.utf8EncodeChar c) :
    unit.toNat = c.toNat ∨ 128 ≤ unit.toNat := by
  unfold String.utf8EncodeChar at member
  dsimp only at member
  split at member
  · rename_i small
    cases List.mem_singleton.mp member
    left
    simp only [UInt8.toNat_ofNat', Char.toNat_val] at small ⊢
    omega
  · right
    split at member
    · simp only [List.mem_cons, List.not_mem_nil, or_false] at member
      rcases member with rfl | rfl <;> simp only [UInt8.toNat_ofNat'] <;> omega
    · split at member
      · simp only [List.mem_cons, List.not_mem_nil, or_false] at member
        rcases member with rfl | rfl | rfl <;> simp only [UInt8.toNat_ofNat'] <;> omega
      · simp only [List.mem_cons, List.not_mem_nil, or_false] at member
        rcases member with rfl | rfl | rfl | rfl <;> simp only [UInt8.toNat_ofNat'] <;> omega

theorem byte_mem_utf8EncodeChar_iff (ascii : mark.toNat < 128) :
    byte mark ∈ String.utf8EncodeChar c ↔ c = mark := by
  constructor
  · intro member
    rcases toNat_of_mem_utf8EncodeChar member with same | large
    · rw [toNat_byte ascii] at same
      exact (Char.toNat_inj.mp same).symm
    · rw [toNat_byte ascii] at large
      omega
  · rintro rfl
    rw [utf8EncodeChar_mark ascii]
    exact List.mem_singleton_self _

theorem byte_mem_encode_iff (ascii : mark.toNat < 128) : byte mark ∈ encode text ↔ mark ∈ text := by
  simp [encode, byte_mem_utf8EncodeChar_iff ascii]

theorem length_encode_cons (ascii : mark.toNat < 128) (text : List Char) :
    (encode (mark :: text)).length = (encode text).length + 1 := by
  rw [encode_cons, utf8EncodeChar_mark ascii, List.singleton_append, List.length_cons]

theorem exists_encode_cons (c : Char) (text : List Char) :
    ∃ first tail, encode (c :: text) = first :: tail :=
  List.exists_cons_of_ne_nil (mt encode_eq_nil_iff.mp (List.cons_ne_nil c text))

theorem eq_byte_iff_of_encode {first : UInt8} {tail : List UInt8} (ascii : mark.toNat < 128)
    (spelled : encode (c :: text) = first :: tail) : first = byte mark ↔ c = mark := by
  obtain ⟨_, rest, own⟩ := List.exists_cons_of_ne_nil (String.utf8EncodeChar_ne_nil (c := c))
  rw [encode_cons, own, List.cons_append] at spelled
  cases spelled
  constructor
  · rintro rfl
    apply (byte_mem_utf8EncodeChar_iff ascii).mp
    rw [own]
    exact List.mem_cons_self
  · rintro rfl
    rw [utf8EncodeChar_mark ascii] at own
    exact (List.cons.inj own).1.symm

theorem ascii_of_mem_basicLetters {letter : Char} (listed : letter ∈ basicLetters) :
    letter.toNat < 128 := by
  simp only [basicLetters, List.mem_cons, List.not_mem_nil, or_false] at listed
  rcases listed with rfl | rfl | rfl | rfl | rfl | rfl | rfl | rfl <;> decide

theorem mem_basicLetters_iff_of_encode {first : UInt8} {tail : List UInt8}
    (spelled : encode (c :: text) = first :: tail) :
    first ∈ basicLetters.map byte ↔ c ∈ basicLetters := by
  constructor
  · intro member
    obtain ⟨letter, listed, rfl⟩ := List.mem_map.mp member
    have same := (eq_byte_iff_of_encode (ascii_of_mem_basicLetters listed) spelled).mp rfl
    rw [same]
    exact listed
  · intro listed
    have same := (eq_byte_iff_of_encode (ascii_of_mem_basicLetters listed) spelled).mpr rfl
    exact List.mem_map.mpr ⟨c, listed, same.symm⟩

/-- The offset of the first mark is the size of what stands before it. -/
theorem idxOf?_encode (ascii : mark.toNat < 128) (text : List Char) :
    (encode text).idxOf? (byte mark) =
      if text.dropWhile (· != mark) = [] then none
      else some (encode (text.takeWhile (· != mark))).length := by
  split
  · rename_i empty
    refine List.idxOf?_eq_none_iff.mpr (mt (byte_mem_encode_iff ascii).mp ?_)
    intro member
    simpa using List.dropWhile_eq_nil_iff.mp empty mark member
  · rename_i found
    obtain ⟨first, after, dropped⟩ := List.exists_cons_of_ne_nil found
    have unmarked := mark_not_mem_takeWhile mark text
    have before : (encode (text.takeWhile (· != mark))).findIdx? (· == byte mark) = none :=
      List.idxOf?_eq_none_iff.mpr (mt (byte_mem_encode_iff ascii).mp unmarked)
    nth_rewrite 1 [takeWhile_append_of_dropWhile dropped]
    rw [encode_append, encode_cons, utf8EncodeChar_mark ascii, List.idxOf?,
      List.findIdx?_append, before]
    simp [List.findIdx?_cons]

end Bytes

def classSize? (bytes : List UInt8) : Option Nat :=
  (bytes.idxOf? (byte ';')).bind fun place => if place = 1 then none else some (place + 1)

/-- How many bytes the type at the front of a text has, in which no bracket is left. Inside an array it
may not be `V`. -/
def elementSize? (inArray : Bool) (bytes : List UInt8) : Option Nat :=
  match bytes.head? with
  | none => none
  | some first =>
      if first ∈ basicLetters.map byte then
        some 1
      else if first = byte 'V' then
        if inArray then none else some 1
      else if first = byte 'L' then
        classSize? bytes
      else
        none

def typeSize? (bytes : List UInt8) : Option Nat :=
  let dimensions := (bytes.takeWhile (· == byte '[')).length
  (elementSize? (dimensions != 0) (bytes.drop dimensions)).map (dimensions + ·)

def isType (bytes : List UInt8) : Bool :=
  typeSize? bytes == some bytes.length

theorem typeSize?_pos {bytes : List UInt8} {size : Nat} (sized : typeSize? bytes = some size) :
    0 < size := by
  obtain ⟨elementSize, found, rfl⟩ := Option.map_eq_some_iff.mp sized
  suffices 0 < elementSize by omega
  unfold elementSize? at found
  split at found
  · cases found
  · split at found
    · cases found
      exact Nat.one_pos
    · split at found
      · split at found
        · cases found
        · cases found
          exact Nat.one_pos
      · split at found
        · obtain ⟨place, -, behind⟩ := Option.bind_eq_some_iff.mp found
          split at behind
          · cases behind
          · cases behind
            exact Nat.succ_pos place
        · cases found

def parameters? (bytes : List UInt8) : Option (List (List UInt8)) :=
  if bytes = [] then
    some []
  else
    match _sized : typeSize? bytes with
    | none => none
    | some size =>
        if bytes.take size = [byte 'V'] then
          none
        else
          (parameters? (bytes.drop size)).map (bytes.take size :: ·)
termination_by bytes.length
decreasing_by
  have positive := typeSize?_pos _sized
  have nonempty := List.length_pos_iff.mpr ‹_›
  rw [List.length_drop]
  omega

def splitOpened? (bytes : List UInt8) : Option (List (List UInt8) × List UInt8) :=
  (bytes.idxOf? (byte ')')).bind fun close =>
    if isType (bytes.drop (close + 1)) then
      (parameters? (bytes.take close)).map fun types => (types, bytes.drop (close + 1))
    else
      none

def split? : List UInt8 → Option (List (List UInt8) × List UInt8)
  | [] => none
  | first :: rest => if first = byte '(' then splitOpened? rest else none

def takeType? (text : List Char) : Option (List Char × List Char) :=
  if text.head? = some 'V' then some (['V'], text.tail) else takeValueType? text

section Agreement

variable {mark : Char} {text rest : List Char}

theorem classSize?_encode (rest : List Char) :
    classSize? (encode ('L' :: rest)) =
      (takeValueType? ('L' :: rest)).map fun taken => (encode taken.1).length := by
  have named : ('L' :: rest).takeWhile (· != ';') = 'L' :: rest.takeWhile (· != ';') := rfl
  have dropped : ('L' :: rest).dropWhile (· != ';') = rest.dropWhile (· != ';') := rfl
  have noBracket : ¬ 'L' = '[' := by decide
  have notBasic : ¬ 'L' ∈ basicLetters := by decide
  rw [classSize?, idxOf?_encode (by decide), named, dropped, length_encode_cons (by decide),
    takeValueType?, if_neg noBracket, if_neg notBasic, if_pos rfl]
  cases marked : rest.dropWhile (· != ';') with
  | nil => rfl
  | cons semicolon after =>
      rw [if_neg (List.cons_ne_nil semicolon after), Option.bind_some]
      dsimp only
      by_cases unnamed : rest.takeWhile (· != ';') = []
      · rw [if_pos unnamed, if_pos (by rw [unnamed]; rfl), Option.map_none]
      · have size : (encode (rest.takeWhile (· != ';'))).length + 1 ≠ 1 := by
          simpa [encode_eq_nil_iff] using unnamed
        rw [if_neg size, if_neg unnamed, Option.map_some, eq_mark_of_dropWhile marked, List.cons_append,
          length_encode_cons (by decide), encode_append, List.length_append,
          length_encode_cons (by decide)]
        rfl

theorem takeValueType?_void (rest : List Char) : takeValueType? ('V' :: rest) = none := by
  have noBracket : ¬ 'V' = '[' := by decide
  have notBasic : ¬ 'V' ∈ basicLetters := by decide
  have notClass : ¬ 'V' = 'L' := by decide
  rw [takeValueType?, if_neg noBracket, if_neg notBasic, if_neg notClass]

theorem takeType?_of_ne_void (value : text.head? ≠ some 'V') :
    takeType? text = takeValueType? text :=
  if_neg value

theorem elementSize?_encode (inArray : Bool) (unbracketed : text.head? ≠ some '[') :
    elementSize? inArray (encode text) =
      (if inArray then takeValueType? text else takeType? text).map fun taken =>
        (encode taken.1).length := by
  cases text with
  | nil => cases inArray <;> rfl
  | cons c rest =>
      obtain ⟨first, tail, spelled⟩ := exists_encode_cons c rest
      have isBasic := mem_basicLetters_iff_of_encode spelled
      have isVoid : first = byte 'V' ↔ c = 'V' := eq_byte_iff_of_encode (by decide) spelled
      have isClass : first = byte 'L' ↔ c = 'L' := eq_byte_iff_of_encode (by decide) spelled
      have isHead : (encode (c :: rest)).head? = some first := by rw [spelled, List.head?_cons]
      simp only [elementSize?, isHead, isBasic, isVoid, isClass]
      by_cases void : c = 'V'
      · subst void
        have notBasic : 'V' ∉ basicLetters := by decide
        have size : (encode ['V']).length = 1 := length_encode_cons (by decide) []
        rw [if_neg notBasic, if_pos rfl, takeValueType?_void, takeType?, if_pos List.head?_cons]
        cases inArray with
        | true => rfl
        | false => exact congrArg some size.symm
      · have value : (c :: rest).head? ≠ some 'V' := by simpa using void
        rw [takeType?_of_ne_void value, ite_self, if_neg void]
        by_cases object : c = 'L'
        · subst object
          have notBasic : 'L' ∉ basicLetters := by decide
          rw [if_neg notBasic, if_pos rfl, classSize?_encode]
        · have bracketless : c ≠ '[' := by simpa using unbracketed
          rw [if_neg object, takeValueType?, if_neg bracketless, if_neg object]
          by_cases basic : c ∈ basicLetters
          · have size : (encode [c]).length = 1 :=
              length_encode_cons (ascii_of_mem_basicLetters basic) []
            rw [if_pos basic, if_pos basic, Option.map_some, size]
          · rw [if_neg basic, if_neg basic, Option.map_none]

theorem encode_replicate (ascii : mark.toNat < 128) (count : Nat) :
    encode (List.replicate count mark) = List.replicate count (byte mark) := by
  simp [encode, List.flatMap_replicate, utf8EncodeChar_mark ascii]

theorem typeSize?_brackets (dimensions : Nat) (unbracketed : rest.head? ≠ some '[') :
    typeSize? (encode (List.replicate dimensions '[' ++ rest)) =
      (elementSize? (dimensions != 0) (encode rest)).map (dimensions + ·) := by
  have bytes : encode (List.replicate dimensions '[' ++ rest) =
      List.replicate dimensions (byte '[') ++ encode rest := by
    rw [encode_append, encode_replicate (by decide)]
  have stop : (encode rest).takeWhile (· == byte '[') = [] := by
    cases rest with
    | nil => rfl
    | cons c rest =>
        have bracketless : c ≠ '[' := by simpa using unbracketed
        obtain ⟨first, tail, spelled⟩ := exists_encode_cons c rest
        have other := mt (eq_byte_iff_of_encode (by decide) spelled).mp bracketless
        rw [spelled]
        simpa using other
  have counted : ((List.replicate dimensions (byte '[') ++ encode rest).takeWhile
      (· == byte '[')).length = dimensions := by
    rw [List.takeWhile_append_of_pos (by simp), stop]
    simp
  rw [typeSize?, bytes, counted, List.drop_left' List.length_replicate]

theorem typeSize?_encode (text : List Char) :
    typeSize? (encode text) = (takeType? text).map fun taken => (encode taken.1).length := by
  obtain ⟨dimensions, rest, rfl, unbracketed⟩ := exists_eq_brackets text
  rw [typeSize?_brackets dimensions unbracketed, elementSize?_encode _ unbracketed]
  cases dimensions with
  | zero => simp [Function.comp_def]
  | succ dimensions =>
      have array : (List.replicate (dimensions + 1) '[' ++ rest).head? ≠ some 'V' := by
        simp [List.replicate_succ]
      rw [takeType?_of_ne_void array, takeValueType?_brackets, Option.map_map, Option.map_map]
      refine congrArg (Option.map · (takeValueType? rest)) (funext fun taken => ?_)
      simp [encode_append, encode_replicate]

theorem append_takeType? {type after : List Char} (taken : takeType? text = some (type, after)) :
    type ++ after = text := by
  unfold takeType? at taken
  split at taken
  · rename_i void
    cases taken
    exact List.cons_head?_tail void
  · exact append_takeValueType? taken

theorem isTypeChars_iff_takeType? :
    isTypeChars text ↔ ∃ type, takeType? text = some (type, []) := by
  by_cases void : text.head? = some 'V'
  · obtain ⟨rest, rfl⟩ : ∃ rest, text = 'V' :: rest := ⟨text.tail, (List.cons_head?_tail void).symm⟩
    simp [isTypeChars, isValueType, takeValueType?_void, takeType?]
  · have other : text ≠ ['V'] := by
      rintro rfl
      exact void rfl
    rw [takeType?_of_ne_void void, isTypeChars, isValueType]
    cases takeValueType? text with
    | none => simp [other]
    | some taken => simp [other, Prod.ext_iff]

theorem isType_encode (text : List Char) : isType (encode text) = isTypeChars text := by
  rw [Bool.eq_iff_iff, isTypeChars_iff_takeType?, isType, beq_iff_eq, typeSize?_encode,
    Option.map_eq_some_iff]
  constructor
  · rintro ⟨⟨type, after⟩, taken, size⟩
    dsimp only at size
    rw [← append_takeType? taken, encode_append, List.length_append] at size
    have nothing : encode after = [] := List.eq_nil_of_length_eq_zero (by omega)
    exact ⟨type, encode_eq_nil_iff.mp nothing ▸ taken⟩
  · rintro ⟨type, taken⟩
    have whole := append_takeType? taken
    rw [List.append_nil] at whole
    exact ⟨(type, []), taken, by rw [whole]⟩

theorem parameters?_eq_bind {bytes : List UInt8} (nonempty : bytes ≠ []) :
    parameters? bytes = (typeSize? bytes).bind fun size =>
      if bytes.take size = [byte 'V'] then none
      else (parameters? (bytes.drop size)).map (bytes.take size :: ·) := by
  rw [parameters?, if_neg nonempty]
  split
  · rename_i unsized
    rw [unsized, Option.bind_none]
  · rename_i size sized
    rw [sized, Option.bind_some]

theorem parameters?_encode (text : List Char) :
    parameters? (encode text) = (valueTypes? text).map (·.map encode) := by
  fun_induction valueTypes? text with
  | case1 =>
      rw [parameters?, if_pos (encode_eq_nil_iff.mpr rfl)]
      rfl
  | case2 text nonempty missing =>
      rw [parameters?_eq_bind (mt encode_eq_nil_iff.mp nonempty), typeSize?_encode, takeType?]
      split
      · rename_i void
        have size : (encode ['V']).length = 1 := length_encode_cons (by decide) []
        have bytes : encode text = byte 'V' :: encode text.tail := by
          rw [← List.cons_head?_tail void, encode_cons, utf8EncodeChar_mark (by decide)]
          rfl
        rw [Option.map_some, Option.bind_some, size, bytes, List.take_succ_cons, List.take_zero,
          if_pos rfl, Option.map_none]
      · rw [missing]
        rfl
  | case3 text nonempty type after taken ih =>
      have whole := append_takeValueType? taken
      have value : text.head? ≠ some 'V' := by
        intro void
        rw [← List.cons_head?_tail void, takeValueType?_void] at taken
        cases taken
      have bytes : encode text = encode type ++ encode after := by rw [← whole, encode_append]
      have notVoid : encode type ≠ [byte 'V'] := by
        intro void
        cases type with
        | nil => cases void
        | cons c rest =>
            cases (eq_byte_iff_of_encode (by decide) void).mp rfl
            exact value (whole ▸ rfl)
      rw [parameters?_eq_bind (mt encode_eq_nil_iff.mp nonempty), typeSize?_encode,
        takeType?_of_ne_void value, taken, Option.map_some, Option.bind_some, bytes,
        List.take_left, List.drop_left, if_neg notVoid, ih, Option.map_map, Option.map_map]
      rfl

theorem splitOpened?_encode (text : List Char) :
    splitOpened? (encode text) =
      (splitMethodChars? ('(' :: text)).map fun parts => (parts.1.map encode, encode parts.2) := by
  rw [splitOpened?, idxOf?_encode (by decide), splitMethodChars?]
  cases dropped : text.dropWhile (· != ')') with
  | nil => rfl
  | cons closing result =>
      have bytes : encode text =
          encode (text.takeWhile (· != ')')) ++ byte ')' :: encode result := by
        nth_rewrite 1 [takeWhile_append_of_dropWhile dropped]
        rw [encode_append, encode_cons, utf8EncodeChar_mark (by decide), List.singleton_append]
      have behind : (encode text).drop ((encode (text.takeWhile (· != ')'))).length + 1) =
          encode result := by
        rw [bytes, ← List.drop_drop, List.drop_left, List.drop_one, List.tail_cons]
      have before : (encode text).take (encode (text.takeWhile (· != ')'))).length =
          encode (text.takeWhile (· != ')')) := by
        rw [bytes, List.take_left]
      rw [if_neg (List.cons_ne_nil closing result), Option.bind_some, behind, before,
        isType_encode, parameters?_encode]
      dsimp only
      split
      · rw [Option.map_map, Option.map_map]
        rfl
      · rfl

theorem splitMethodChars?_of_ne {c : Char} (unopened : c ≠ '(') (rest : List Char) :
    splitMethodChars? (c :: rest) = none := by
  unfold splitMethodChars?
  split
  · rename_i same
    cases same
    exact absurd rfl unopened
  · rfl

theorem split?_encode (text : List Char) :
    split? (encode text) =
      (splitMethodChars? text).map fun parts => (parts.1.map encode, encode parts.2) := by
  cases text with
  | nil => rfl
  | cons c rest =>
      by_cases opened : c = '('
      · subst opened
        rw [encode_cons, utf8EncodeChar_mark (by decide), List.singleton_append, split?,
          if_pos rfl, splitOpened?_encode]
      · obtain ⟨first, tail, spelled⟩ := exists_encode_cons c rest
        have other : first ≠ byte '(' := mt (eq_byte_iff_of_encode (by decide) spelled).mp opened
        rw [spelled, split?, if_neg other, splitMethodChars?_of_ne opened, Option.map_none]

end Agreement

end Offsets

end Shrinker.Reference.Descriptor
