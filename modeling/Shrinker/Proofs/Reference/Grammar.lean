import Shrinker.Proofs.Reference.Offsets

namespace Shrinker.Reference.Descriptor

/-- A basic type or a class, the types that arrays are made of. -/
inductive IsElement : List Char → Prop
  | basic {letter : Char} (listed : letter ∈ "ZBSCIJFD".toList) : IsElement [letter]
  | object {name : List Char} (nonempty : name ≠ []) (unbroken : ';' ∉ name) :
      IsElement ('L' :: name ++ [';'])

/-- The type of a value, with as many brackets in front as the array has dimensions. -/
def IsValue (text : List Char) : Prop :=
  ∃ dimensions element, IsElement element ∧ text = List.replicate dimensions '[' ++ element

def IsTypeText (text : String) : Prop :=
  text = "V" ∨ IsValue text.toList

section Types

variable {text type after element : List Char}

theorem IsElement.takeValueType?_append (isElement : IsElement element) (after : List Char) :
    takeValueType? (element ++ after) = some (element, after) := by
  cases isElement with
  | @basic letter listed =>
      have noBracket : letter ≠ '[' := by
        rintro rfl
        exact absurd listed (by decide)
      have isBasic : letter ∈ basicLetters := listed
      rw [List.singleton_append, takeValueType?, if_neg noBracket, if_pos isBasic]
  | @object name nonempty unbroken =>
      have text : 'L' :: name ++ [';'] ++ after = 'L' :: (name ++ ';' :: after) := by simp
      rw [text, takeValueType?, if_neg (by decide), if_neg (by decide), if_pos rfl,
        takeWhile_append_mark unbroken, dropWhile_append_mark unbroken]
      dsimp only
      rw [if_neg nonempty]

theorem IsValue.takeValueType?_append (isValue : IsValue type) (after : List Char) :
    takeValueType? (type ++ after) = some (type, after) := by
  obtain ⟨dimensions, element, isElement, rfl⟩ := isValue
  rw [List.append_assoc, takeValueType?_brackets, isElement.takeValueType?_append]
  rfl

theorem IsValue.array (isValue : IsValue type) : IsValue ('[' :: type) := by
  obtain ⟨dimensions, element, isElement, rfl⟩ := isValue
  exact ⟨dimensions + 1, element, isElement, by rw [List.replicate_succ, List.cons_append]⟩

theorem IsElement.isValue (isElement : IsElement element) : IsValue element :=
  ⟨0, element, isElement, rfl⟩

theorem isValue_of_takeValueType? (taken : takeValueType? text = some (type, after)) :
    IsValue type := by
  induction text generalizing type with
  | nil => cases taken
  | cons c rest ih =>
      rw [takeValueType?] at taken
      split at taken
      · obtain ⟨⟨element, _⟩, inner, same⟩ := Option.map_eq_some_iff.mp taken
        cases same
        exact (ih inner).array
      · split at taken
        · rename_i listed
          cases taken
          exact (IsElement.basic listed).isValue
        · split at taken
          · split at taken
            · rename_i semicolon tail dropped
              split at taken
              · cases taken
              · rename_i nonempty
                cases taken
                cases eq_mark_of_dropWhile dropped
                exact (IsElement.object nonempty (mark_not_mem_takeWhile ';' rest)).isValue
            · cases taken
          · cases taken

theorem isValueType_iff : isValueType text ↔ IsValue text := by
  unfold isValueType
  constructor
  · intro accepted
    split at accepted
    · rename_i type after taken
      have whole := append_takeValueType? taken
      rw [List.isEmpty_iff.mp accepted, List.append_nil] at whole
      exact whole ▸ isValue_of_takeValueType? taken
    · cases accepted
  · intro isValue
    have taken := isValue.takeValueType?_append []
    rw [List.append_nil] at taken
    rw [taken]
    rfl

theorem isTypeChars_iff : isTypeChars text ↔ text = ['V'] ∨ IsValue text := by
  rw [isTypeChars, Bool.or_eq_true, beq_iff_eq, isValueType_iff]

theorem isType_iff {text : String} : isType text ↔ IsTypeText text := by
  rw [isType, isTypeChars_iff, IsTypeText]
  refine or_congr_left ?_
  rw [← String.toList_inj]
  rfl

theorem not_isValue_void : ¬IsValue ['V'] := by
  intro isValue
  have taken := isValue.takeValueType?_append []
  exact absurd taken (by decide)

end Types

/-- The parameter types and the result type that a method descriptor is made of. -/
structure IsSplit (text : String) (parameters : List String) (result : String) : Prop where
  whole : text = "(" ++ String.join parameters ++ ")" ++ result
  parameters : ∀ parameter ∈ parameters,
    IsTypeText parameter ∧ parameter ≠ "V" ∧ ')' ∉ parameter.toList
  result : IsTypeText result

section Methods

variable {text result : List Char} {types parameters : List (List Char)}

theorem valueTypes?_flatten (values : ∀ type ∈ types, IsValue type) :
    valueTypes? types.flatten = some types := by
  induction types with
  | nil => rw [List.flatten_nil, valueTypes?, if_pos rfl]
  | cons type types ih =>
      obtain ⟨isValue, others⟩ := List.forall_mem_cons.mp values
      have taken := isValue.takeValueType?_append types.flatten
      have nonempty : type ++ types.flatten ≠ [] := by
        intro empty
        rw [empty] at taken
        cases taken
      rw [List.flatten_cons, valueTypes?, if_neg nonempty]
      split
      · rename_i missing
        rw [taken] at missing
        cases missing
      · rename_i first after found
        rw [taken] at found
        cases found
        rw [ih others]
        rfl

theorem isValue_of_valueTypes? (split : valueTypes? text = some types) :
    ∀ type ∈ types, IsValue type := by
  fun_induction valueTypes? text generalizing types with
  | case1 =>
      cases split
      exact List.forall_mem_nil _
  | case2 => cases split
  | case3 text nonempty type after taken ih =>
      obtain ⟨rest, others, rfl⟩ := Option.map_eq_some_iff.mp split
      exact List.forall_mem_cons.mpr ⟨isValue_of_takeValueType? taken, ih others⟩

theorem valueTypes?_eq_some_iff :
    valueTypes? text = some types ↔ types.flatten = text ∧ ∀ type ∈ types, IsValue type := by
  constructor
  · intro split
    exact ⟨flatten_valueTypes? split, isValue_of_valueTypes? split⟩
  · rintro ⟨rfl, values⟩
    exact valueTypes?_flatten values

theorem splitMethodChars?_eq_some_iff :
    splitMethodChars? text = some (parameters, result) ↔
      text = '(' :: parameters.flatten ++ ')' :: result ∧ ')' ∉ parameters.flatten ∧
        (∀ parameter ∈ parameters, IsValue parameter) ∧ isTypeChars result := by
  constructor
  · intro accepted
    refine ⟨eq_of_splitMethodChars? accepted, ?_⟩
    unfold splitMethodChars? at accepted
    split at accepted
    · rename_i rest
      split at accepted
      · split at accepted
        · rename_i typed
          obtain ⟨types, parsed, same⟩ := Option.map_eq_some_iff.mp accepted
          cases same
          obtain ⟨flattened, values⟩ := valueTypes?_eq_some_iff.mp parsed
          refine ⟨?_, values, typed⟩
          rw [flattened]
          exact mark_not_mem_takeWhile ')' rest
        · cases accepted
      · cases accepted
    · cases accepted
  · rintro ⟨rfl, unclosed, values, typed⟩
    rw [List.cons_append, splitMethodChars?, takeWhile_append_mark unclosed,
      dropWhile_append_mark unclosed]
    dsimp only
    rw [if_pos typed, valueTypes?_flatten values]
    rfl

theorem isTypeText_and_ne_void {text : String} :
    IsTypeText text ∧ text ≠ "V" ↔ IsValue text.toList := by
  constructor
  · rintro ⟨rfl | isValue, other⟩
    · exact absurd rfl other
    · exact isValue
  · intro isValue
    refine ⟨Or.inr isValue, ?_⟩
    rintro rfl
    exact not_isValue_void isValue

theorem splitMethod?_eq_some {text result : String} {parameters : List String} :
    splitMethod? text = some (parameters, result) ↔
      splitMethodChars? text.toList = some (parameters.map String.toList, result.toList) := by
  constructor
  · intro found
    obtain ⟨⟨parameterChars, resultChars⟩, split, same⟩ := Option.map_eq_some_iff.mp found
    cases same
    simpa [Function.comp_def] using split
  · intro split
    simp [splitMethod?, split, Function.comp_def]

theorem splitMethod?_eq_some_iff {text result : String} {parameters : List String} :
    splitMethod? text = some (parameters, result) ↔ IsSplit text parameters result := by
  have whole : text.toList = '(' :: (parameters.map String.toList).flatten ++ ')' :: result.toList ↔
      text = "(" ++ String.join parameters ++ ")" ++ result := by
    rw [← String.toList_inj]
    simp [List.flatMap_def]
  rw [splitMethod?_eq_some, splitMethodChars?_eq_some_iff, whole]
  have typed : isTypeChars result.toList ↔ IsTypeText result := isType_iff
  rw [typed]
  constructor
  · rintro ⟨same, unclosed, values, typed⟩
    refine ⟨same, ?_, typed⟩
    intro parameter member
    have listed := List.mem_map_of_mem (f := String.toList) member
    refine and_assoc.mp ⟨isTypeText_and_ne_void.mpr (values _ listed), ?_⟩
    exact fun inside => unclosed (List.mem_flatten.mpr ⟨_, listed, inside⟩)
  · rintro ⟨same, parts, typed⟩
    refine ⟨same, ?_, ?_, typed⟩
    · intro inside
      obtain ⟨_, listed, inside⟩ := List.mem_flatten.mp inside
      obtain ⟨parameter, member, rfl⟩ := List.mem_map.mp listed
      exact (parts parameter member).2.2 inside
    · intro _ listed
      obtain ⟨parameter, member, rfl⟩ := List.mem_map.mp listed
      exact isTypeText_and_ne_void.mp (and_assoc.mpr (parts parameter member)).1

end Methods

/-- Exactly the texts of the grammar are accepted, and a method descriptor is split in the only way there
is. Looking for the marks among the bytes of a text and cutting at their offsets gives the same pieces. -/
theorem descriptors_accepted_exactly (text : String) :
    (isType text ↔ IsTypeText text) ∧
      (isMethod text ↔ ∃ parameters result, IsSplit text parameters result) ∧
      (∀ parameters result, splitMethod? text = some (parameters, result) ↔
        IsSplit text parameters result) ∧
      (∀ parameters result, IsSplit text parameters result →
        ∀ otherParameters otherResult, IsSplit text otherParameters otherResult →
          parameters = otherParameters ∧ result = otherResult) ∧
      Offsets.isType (Offsets.bytes text) = isType text ∧
      Offsets.split? (Offsets.bytes text) = (splitMethod? text).map fun parts =>
        (parts.1.map Offsets.bytes, Offsets.bytes parts.2) := by
  have bytes : Offsets.bytes text = Offsets.encode text.toList := by
    rw [← Offsets.bytes_ofList, String.ofList_toList]
  refine ⟨isType_iff, ?_, fun _ _ => splitMethod?_eq_some_iff, ?_, ?_, ?_⟩
  · rw [isMethod, Option.isSome_iff_exists]
    constructor
    · rintro ⟨⟨parameters, result⟩, split⟩
      exact ⟨parameters, result, splitMethod?_eq_some_iff.mp split⟩
    · rintro ⟨parameters, result, isSplit⟩
      exact ⟨(parameters, result), splitMethod?_eq_some_iff.mpr isSplit⟩
  · intro parameters result isSplit otherParameters otherResult otherSplit
    have split := splitMethod?_eq_some_iff.mpr isSplit
    rw [splitMethod?_eq_some_iff.mpr otherSplit] at split
    cases split
    exact ⟨rfl, rfl⟩
  · rw [bytes, Offsets.isType_encode, isType]
  · rw [bytes, Offsets.split?_encode, splitMethod?, Option.map_map]
    refine congrArg (Option.map · _) (funext fun parts => ?_)
    simp [Function.comp_def, Offsets.bytes_ofList]

end Shrinker.Reference.Descriptor
