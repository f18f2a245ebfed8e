/-!
Descriptors, the texts of types. A type is a basic type (one letter), a class (`L`, a name, `;`) or an
array (`[` and its element type); `V` stands for no value and is no element. A method descriptor holds
the parameter types in parentheses and the result type behind.
-/
namespace Shrinker.Reference.Descriptor

def basicLetters : List Char :=
  ['Z', 'B', 'S', 'C', 'I', 'J', 'F', 'D']

def takeValueType? : List Char → Option (List Char × List Char)
  | [] => none
  | c :: rest =>
      if c = '[' then
        (takeValueType? rest).map fun (element, after) => ('[' :: element, after)
      else if c ∈ basicLetters then
        some ([c], rest)
      else if c = 'L' then
        match rest.takeWhile (· != ';'), rest.dropWhile (· != ';') with
        | name, semicolon :: after =>
            if name = [] then none else some ('L' :: name ++ [semicolon], after)
        | _, [] => none
      else
        none

def isValueType (text : List Char) : Bool :=
  match takeValueType? text with
  | some (_, after) => after.isEmpty
  | none => false

def isTypeChars (text : List Char) : Bool :=
  text == ['V'] || isValueType text

def isType (text : String) : Bool :=
  isTypeChars text.toList

theorem append_takeValueType? {text type after : List Char}
    (taken : takeValueType? text = some (type, after)) : type ++ after = text := by
  induction text generalizing type after with
  | nil => simp [takeValueType?] at taken
  | cons c rest ih =>
      rw [takeValueType?] at taken
      split at taken
      · rename_i bracket
        obtain ⟨⟨element, tail⟩, inner, same⟩ := Option.map_eq_some_iff.mp taken
        cases same
        simp [bracket, ih inner]
      · split at taken
        · cases taken
          rfl
        · split at taken
          · rename_i isClass
            split at taken
            · rename_i semicolon tail dropped
              split at taken
              · cases taken
              · cases taken
                simp only [List.cons_append, List.append_assoc, List.nil_append, isClass]
                rw [← dropped, List.takeWhile_append_dropWhile]
            · cases taken
          · cases taken

theorem takeValueType?_shorter {text type after : List Char}
    (taken : takeValueType? text = some (type, after)) : after.length < text.length := by
  have whole := append_takeValueType? taken
  have nonempty : type ≠ [] := by
    rintro rfl
    cases text with
    | nil => simp [takeValueType?] at taken
    | cons c rest =>
        rw [takeValueType?] at taken
        split at taken
        · obtain ⟨_, _, same⟩ := Option.map_eq_some_iff.mp taken
          cases same
        · split at taken
          · cases taken
          · split at taken
            · split at taken
              · split at taken <;> cases taken
              · cases taken
            · cases taken
  have positive := List.length_pos_iff.mpr nonempty
  rw [← whole, List.length_append]
  omega

def valueTypes? (text : List Char) : Option (List (List Char)) :=
  if text = [] then
    some []
  else
    match _taken : takeValueType? text with
    | none => none
    | some (type, after) => (valueTypes? after).map (type :: ·)
termination_by text.length
decreasing_by exact takeValueType?_shorter _taken

/-- The parameter types and the result type of a method descriptor. The first closing parenthesis ends
the parameters. -/
def splitMethodChars? : List Char → Option (List (List Char) × List Char)
  | '(' :: rest =>
      match rest.takeWhile (· != ')'), rest.dropWhile (· != ')') with
      | parameters, _ :: result =>
          if isTypeChars result then
            (valueTypes? parameters).map fun types => (types, result)
          else
            none
      | _, [] => none
  | _ => none

def splitMethod? (text : String) : Option (List String × String) :=
  (splitMethodChars? text.toList).map fun (parameters, result) =>
    (parameters.map String.ofList, String.ofList result)

def isMethod (text : String) : Bool :=
  (splitMethod? text).isSome

end Shrinker.Reference.Descriptor
