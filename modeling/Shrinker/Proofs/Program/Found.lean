import Shrinker.Proofs.Program.Reshape

namespace Shrinker.Program

open Reference Collection

structure MethodHit.Declared (program : Program) (hit : MethodHit) : Prop where
  holder : hit.holder ∈ program.classes
  definition : hit.definition ∈ hit.holder.methods

structure FieldHit.Declared (program : Program) (hit : FieldHit) : Prop where
  holder : hit.holder ∈ program.classes
  definition : hit.definition ∈ hit.holder.fields

section Methods

variable {program : Program} {type : TypeId} {method : MethodId} {hit : MethodHit}

theorem methodDefinition?_eq_some :
    program.methodDefinition? method = some hit ↔
      program.definition? (program.interner.method method).holder = some hit.holder ∧
        hit.holder.method? method = some hit.definition := by
  unfold methodDefinition?
  constructor
  · intro found
    obtain ⟨holder, defined, continued⟩ := Option.bind_eq_some_iff.mp found
    obtain ⟨definition, declared, same⟩ := Option.bind_eq_some_iff.mp continued
    cases same
    exact ⟨defined, declared⟩
  · intro found
    obtain ⟨defined, declared⟩ := found
    simp [defined, declared]

theorem declared_of_methodDefinition? (found : program.methodDefinition? method = some hit) :
    hit.Declared program ∧ hit.definition.method = method := by
  obtain ⟨defined, declared⟩ := methodDefinition?_eq_some.mp found
  exact ⟨⟨(mem_of_definition? defined).1, List.mem_of_find?_eq_some declared⟩,
    by simpa using List.find?_some declared⟩

theorem mem_of_withSignature? {signature : Signature} {holder : ClassDef}
    {methods : List MethodDef} (found : program.withSignature? signature holder methods = some hit) :
    hit.holder = holder ∧ hit.definition ∈ methods := by
  obtain ⟨definition, first, rfl⟩ := Option.map_eq_some_iff.mp found
  exact ⟨rfl, List.mem_of_find?_eq_some first⟩

theorem declared_of_lookupSignature? {select : ClassDef → List MethodDef} {signature : Signature}
    (selects : ∀ holder, select holder ⊆ holder.methods)
    (found : program.lookupSignature? select type signature = some hit) :
    hit.Declared program := by
  have searched {holder : ClassDef} (listed : holder ∈ program.searchOrder type)
      {methods : List MethodDef} (own : methods ⊆ holder.methods)
      (here : program.withSignature? signature holder methods = some hit) :
      hit.Declared program := by
    obtain ⟨rfl, declared⟩ := mem_of_withSignature? here
    exact ⟨mem_classes_of_mem_searchOrder listed, own declared⟩
  unfold lookupSignature? at found
  rcases Option.or_eq_some_iff.mp found with onWalk | ⟨-, above⟩
  · obtain ⟨holder, listed, here⟩ := List.exists_of_findSome?_eq_some onWalk
    exact searched (List.mem_append_left _ listed) (selects holder) here
  · obtain ⟨holder, listed, here⟩ := List.exists_of_findSome?_eq_some above
    exact searched (List.mem_append_right _ listed) (List.subset_append_right _ _) here

theorem declared_of_dispatchMethod? (found : program.dispatchMethod? type method = some hit) :
    hit.Declared program :=
  declared_of_lookupSignature? (fun _ => List.subset_append_right _ _) found

theorem declared_of_resolveMethod? (found : program.resolveMethod? method = some hit) :
    hit.Declared program :=
  declared_of_lookupSignature? (fun _ => List.Subset.refl _) found

end Methods

theorem declared_of_resolveField? {program : Program} {field : FieldId} {hit : FieldHit}
    (found : program.resolveField? field = some hit) : hit.Declared program := by
  obtain ⟨above, -, within⟩ := List.exists_of_findSome?_eq_some found
  obtain ⟨holder, listed, here⟩ := List.exists_of_findSome?_eq_some within
  obtain ⟨definition, first, rfl⟩ := Option.map_eq_some_iff.mp here
  obtain ⟨type, -, defined⟩ := List.mem_filterMap.mp listed
  exact ⟨(mem_of_definition? defined).1, List.mem_of_find?_eq_some first⟩

end Shrinker.Program
