import Mathlib.Data.List.TakeWhile
import Mathlib.Tactic.NthRewrite
import Shrinker.Proofs.Reference.Canonical

namespace Shrinker.Reference

section Marks

variable {mark first : Char} {text after : List Char}

theorem eq_mark_of_dropWhile (dropped : text.dropWhile (· != mark) = first :: after) :
    first = mark := by
  have stops := List.head?_dropWhile_not (· != mark) text
  rw [dropped] at stops
  simpa using stops

theorem takeWhile_append_of_dropWhile (dropped : text.dropWhile (· != mark) = first :: after) :
    text = text.takeWhile (· != mark) ++ mark :: after := by
  cases eq_mark_of_dropWhile dropped
  rw [← dropped, List.takeWhile_append_dropWhile]

theorem mark_not_mem_takeWhile (mark : Char) (text : List Char) :
    mark ∉ text.takeWhile (· != mark) := by
  intro member
  simpa using List.mem_takeWhile_imp member

theorem ne_mark_of_mem (unmarked : mark ∉ text) : ∀ c ∈ text, (c != mark) = true := by
  intro c member
  simpa using ne_of_mem_of_not_mem member unmarked

theorem takeWhile_append_mark (unmarked : mark ∉ text) (after : List Char) :
    (text ++ mark :: after).takeWhile (· != mark) = text := by
  simp [List.takeWhile_append_of_pos (ne_mark_of_mem unmarked)]

theorem dropWhile_append_mark (unmarked : mark ∉ text) (after : List Char) :
    (text ++ mark :: after).dropWhile (· != mark) = mark :: after := by
  simp [List.dropWhile_append_of_pos (ne_mark_of_mem unmarked)]

end Marks

namespace Descriptor

theorem flatten_valueTypes? {text : List Char} {types : List (List Char)}
    (split : valueTypes? text = some types) : types.flatten = text := by
  fun_induction valueTypes? text generalizing types with
  | case1 =>
      cases split
      rfl
  | case2 => cases split
  | case3 text nonempty type after taken ih =>
      obtain ⟨rest, others, rfl⟩ := Option.map_eq_some_iff.mp split
      rw [List.flatten_cons, ih others, append_takeValueType? taken]

theorem eq_of_splitMethodChars? {text result : List Char} {parameters : List (List Char)}
    (split : splitMethodChars? text = some (parameters, result)) :
    text = '(' :: parameters.flatten ++ ')' :: result := by
  unfold splitMethodChars? at split
  split at split
  · rename_i rest
    split at split
    · rename_i closing after dropped
      split at split
      · obtain ⟨types, parsed, same⟩ := Option.map_eq_some_iff.mp split
        cases same
        rw [flatten_valueTypes? parsed, List.cons_append, ← takeWhile_append_of_dropWhile dropped]
      · cases split
    · cases split
  · cases split

end Descriptor

namespace Interner

theorem eq_of_splitArrow? {text holder member : List Char}
    (split : splitArrow? text = some (holder, member)) : text = holder ++ '-' :: '>' :: member := by
  fun_induction splitArrow? text generalizing holder with
  | case1 => cases split
  | case2 =>
      cases split
      rfl
  | case3 first rest _ ih =>
      obtain ⟨⟨before, after⟩, later, same⟩ := Option.map_eq_some_iff.mp split
      cases same
      rw [ih later, List.cons_append]

theorem text_of_describedProto? {descriptor : String} {spelling : ProtoSpelling}
    (described : describedProto? descriptor = some spelling) : spelling.text = descriptor := by
  obtain ⟨⟨parameters, result⟩, split, rfl⟩ := Option.map_eq_some_iff.mp described
  obtain ⟨⟨parameterChars, resultChars⟩, chars, same⟩ := Option.map_eq_some_iff.mp split
  cases same
  apply String.toList_inj.mp
  rw [Descriptor.eq_of_splitMethodChars? chars]
  simp [ProtoSpelling.text, List.flatMap_map, List.flatMap_id']

theorem eq_of_readMethod? {text holder name descriptor : String}
    (read : readMethod? text = some (holder, name, descriptor)) :
    text = holder ++ "->" ++ name ++ descriptor := by
  obtain ⟨⟨holderChars, member⟩, split, rest⟩ := Option.bind_eq_some_iff.mp read
  dsimp only at rest
  split at rest
  · cases rest
    apply String.toList_inj.mp
    rw [eq_of_splitArrow? split]
    simp
  · cases rest

theorem eq_of_readField? {text holder name type : String}
    (read : readField? text = some (holder, name, type)) :
    text = holder ++ "->" ++ name ++ ":" ++ type := by
  obtain ⟨⟨holderChars, member⟩, split, rest⟩ := Option.bind_eq_some_iff.mp read
  dsimp only at rest
  split at rest
  · cases rest
  · rename_i colon typeChars dropped
    split at rest
    · cases rest
      apply String.toList_inj.mp
      rw [eq_of_splitArrow? split]
      nth_rewrite 1 [takeWhile_append_of_dropWhile dropped]
      simp
    · cases rest

def methodSpelling? (text : String) : Option Spelling :=
  (readMethod? text).bind fun (holder, name, descriptor) =>
    (describedProto? descriptor).map (.method holder name)

def fieldSpelling? (text : String) : Option Spelling :=
  (readField? text).map fun (holder, name, type) => .field holder name type

theorem text_of_methodSpelling? {text : String} {spelling : Spelling}
    (read : methodSpelling? text = some spelling) : spelling.text = text := by
  obtain ⟨⟨holder, name, descriptor⟩, parts, rest⟩ := Option.bind_eq_some_iff.mp read
  obtain ⟨proto, described, rfl⟩ := Option.map_eq_some_iff.mp rest
  rw [eq_of_readMethod? parts, Spelling.text, text_of_describedProto? described]

theorem text_of_fieldSpelling? {text : String} {spelling : Spelling}
    (read : fieldSpelling? text = some spelling) : spelling.text = text := by
  obtain ⟨⟨holder, name, type⟩, parts, rfl⟩ := Option.map_eq_some_iff.mp read
  rw [eq_of_readField? parts, Spelling.text]

/-- Reading adds the reference with the spelling, whatever references there are, and adds nothing where
there is no spelling. -/
structure Reads {ι : Type} (read? : Interner → Option (ι × Interner)) (item : ι → Item)
    (spelling? : Option Spelling) : Prop where
  added : ∀ interner spelling, spelling? = some spelling →
    ∃ id grown, read? interner = some (id, grown) ∧ interner.Grows grown ∧
      grown.spell? (item id) = some spelling
  refused : ∀ interner, spelling? = none → read? interner = none

theorem Reads.isSome {ι : Type} {read? : Interner → Option (ι × Interner)} {item : ι → Item}
    {spelling? : Option Spelling} (reads : Reads read? item spelling?) (interner : Interner) :
    (read? interner).isSome = spelling?.isSome := by
  cases spelled : spelling? with
  | none => rw [reads.refused interner spelled, Option.isSome_none, Option.isSome_none]
  | some spelling =>
      obtain ⟨id, grown, found, -⟩ := reads.added interner spelling spelled
      rw [found, Option.isSome_some, Option.isSome_some]

theorem spell?_internFieldParts (interner : Interner) (holder name type : String) :
    (interner.internFieldParts holder name type).2.spell?
      (.field (interner.internFieldParts holder name type).1) =
        some (.field holder name type) := by
  let first := interner.internType holder
  let second := first.2.internSymbol name
  let third := second.2.internType type
  have last : second.2.Grows third.2 := grows_internType second.2 type
  have later : first.2.Grows third.2 := (grows_internSymbol first.2 name).trans last
  exact spell?_internField (spellField?_of_parts
    (later.spellType? (spellType?_internType interner holder))
    (last.spellSymbol? (spellSymbol?_internSymbol first.2 name))
    (spellType?_internType second.2 type))

theorem exists_spelled_internDescriptor? (interner : Interner) {descriptor : String}
    {spelling : ProtoSpelling} (described : describedProto? descriptor = some spelling) :
    ∃ proto grown, interner.internDescriptor? descriptor = some (proto, grown) ∧
      grown.spellProtoId? proto = some spelling := by
  obtain ⟨⟨parameters, result⟩, split, rfl⟩ := Option.map_eq_some_iff.mp described
  refine ⟨_, _, Option.map_eq_some_iff.mpr ⟨_, split, rfl⟩, ?_⟩
  let first := interner.internTypes parameters
  have last : first.2.Grows (first.2.internType result).2 := grows_internType first.2 result
  exact spellProtoId?_internProto (spellProto?_of_parts
    (last.spellTypes? (spellTypes?_internTypes interner parameters))
    (spellType?_internType first.2 result))

theorem reads_internMethodParts? (holder name descriptor : String) :
    Reads (·.internMethodParts? holder name descriptor) .method
      ((describedProto? descriptor).map (.method holder name)) where
  added interner spelling read := by
    obtain ⟨parts, described, rfl⟩ := Option.map_eq_some_iff.mp read
    obtain ⟨proto, middle, found, spelled⟩ := exists_spelled_internDescriptor? interner described
    let second := middle.internType holder
    let third := second.2.internSymbol name
    have last : second.2.Grows third.2 := grows_internSymbol second.2 name
    have later : middle.Grows third.2 := (grows_internType middle holder).trans last
    have added : interner.internMethodParts? holder name descriptor =
        some (third.2.internMethod ⟨second.1, third.1, proto⟩) := by
      rw [internMethodParts?, found]
      rfl
    refine ⟨_, _, added, .of_internMethodParts? added, ?_⟩
    exact spell?_internMethod (spellMethod?_of_parts
      (last.spellType? (spellType?_internType middle holder))
      (spellSymbol?_internSymbol second.2 name) (later.spellProtoId? spelled))
  refused interner read := by
    rw [internMethodParts?, internDescriptor?_eq_none (Option.map_eq_none_iff.mp read)]
    rfl

theorem reads_parseMethod? (text : String) :
    Reads (·.parseMethod? text) .method (methodSpelling? text) := by
  cases read : readMethod? text with
  | none =>
      simp only [parseMethod?_eq, methodSpelling?, read, Option.bind_none]
      exact ⟨nofun, fun _ _ => rfl⟩
  | some parts =>
      simp only [parseMethod?_eq, methodSpelling?, read, Option.bind_some]
      exact reads_internMethodParts? parts.1 parts.2.1 parts.2.2

theorem reads_parseField? (text : String) :
    Reads (·.parseField? text) .field (fieldSpelling? text) := by
  cases read : readField? text with
  | none =>
      simp only [parseField?_eq, fieldSpelling?, read, Option.map_none]
      exact ⟨nofun, fun _ _ => rfl⟩
  | some parts =>
      simp only [parseField?_eq, fieldSpelling?, read, Option.map_some]
      refine ⟨?_, nofun⟩
      rintro interner spelling ⟨⟩
      exact ⟨_, _, rfl, grows_internFieldParts interner parts.1 parts.2.1 parts.2.2,
        spell?_internFieldParts interner parts.1 parts.2.1 parts.2.2⟩

end Interner

end Shrinker.Reference
