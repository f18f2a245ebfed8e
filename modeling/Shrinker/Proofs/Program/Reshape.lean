import Shrinker.Proofs.Program.Distinct

namespace Shrinker.Program

open Reference Collection

def reshape (program : Program) (change : ClassDef → ClassDef) : Program where
  interner := program.interner
  classes := program.classes.map change
  hierarchy := program.hierarchy

theorem reshape_congr {program : Program} {left right : ClassDef → ClassDef}
    (agree : ∀ definition ∈ program.classes, left definition = right definition) :
    program.reshape left = program.reshape right :=
  ext_of_classes rfl (List.map_congr_left agree) rfl

theorem reshape_id (program : Program) : program.reshape (fun definition => definition) = program :=
  ext_of_classes rfl (List.map_id' _) rfl

theorem reshape_reshape (program : Program) (first second : ClassDef → ClassDef) :
    (program.reshape first).reshape second =
      program.reshape fun definition => second (first definition) :=
  ext_of_classes rfl List.map_map rfl

theorem IsDistinct.replace_eq {program : Program} (distinct : program.IsDistinct)
    {definition changed : ClassDef} (found : program.definition? changed.type = some definition) :
    program.replace changed =
      program.reshape fun other => if other.type = changed.type then changed else other := by
  obtain ⟨place, indexed, stands⟩ := Option.bind_eq_some_iff.mp found
  refine ext_of_classes rfl ?_ rfl
  change program.replaced changed = program.classes.map _
  rw [Store.replaced, indexed]
  apply List.ext_getElem?
  intro position
  rw [List.getElem?_set, List.getElem?_map]
  by_cases here : place = position
  · subst here
    obtain ⟨bound, -⟩ := List.getElem?_eq_some_iff.mp stands
    rw [if_pos rfl, if_pos bound, stands, Option.map_some, if_pos (mem_of_definition? found).2]
  · rw [if_neg here]
    cases there : program.classes[position]? with
    | none => rfl
    | some other =>
        have apart : other.type ≠ changed.type := by
          intro same
          have alike := distinct.lookup_index_eq_some.mpr ⟨other, there, same⟩
          rw [indexed] at alike
          exact here (Option.some.inj alike)
        simp [apart]

theorem interner_mapClass (program : Program) (type : TypeId) (change : ClassDef → ClassDef) :
    (program.mapClass type change).interner = program.interner := by
  unfold mapClass
  split <;> rfl

theorem IsDistinct.mapClass_eq {program : Program} (distinct : program.IsDistinct) {type : TypeId}
    {definition : ClassDef} {change : ClassDef → ClassDef}
    (found : program.definition? type = some definition)
    (kept : (change definition).type = type) :
    program.mapClass type change =
      program.reshape fun other => if other.type = type then change definition else other := by
  have replaced := distinct.replace_eq (kept.symm ▸ found)
  rw [kept] at replaced
  rw [mapClass, found]
  exact replaced

/-- The change leaves the place of a class in the hierarchy alone. -/
structure KeepsEdges (change : ClassDef → ClassDef) : Prop where
  type : ∀ definition, (change definition).type = definition.type
  super? : ∀ definition, (change definition).super? = definition.super?
  interfaces : ∀ definition, (change definition).interfaces = definition.interfaces

section Searches

variable {program : Program} {change : ClassDef → ClassDef}

theorem KeepsEdges.definedTypes_reshape (keeps : KeepsEdges change) :
    (program.reshape change).definedTypes = program.definedTypes := by
  simp only [definedTypes, reshape, List.map_map]
  exact List.map_congr_left fun definition _ => keeps.type definition

theorem KeepsEdges.definition?_reshape (keeps : KeepsEdges change) (type : TypeId) :
    (program.reshape change).definition? type = (program.definition? type).map change := by
  simp only [definition?_eq_find?, reshape, ← List.map_reverse, List.find?_map]
  congr 2
  funext definition
  simp [keeps.type definition]

theorem KeepsEdges.isDistinct_reshape (keeps : KeepsEdges change) (distinct : program.IsDistinct)
    (methods : ∀ definition,
      ((change definition).methods.map (·.method)).Perm (definition.methods.map (·.method)))
    (fields : ∀ definition,
      (change definition).fields.map (·.field) = definition.fields.map (·.field)) :
    (program.reshape change).IsDistinct := by
  refine ⟨?_, ?_, ?_⟩
  · rw [keeps.definedTypes_reshape]
    exact distinct.types
  · intro changed member
    obtain ⟨definition, old, rfl⟩ := List.mem_map.mp member
    exact (methods definition).nodup_iff.mpr (distinct.methods definition old)
  · intro changed member
    obtain ⟨definition, old, rfl⟩ := List.mem_map.mp member
    rw [fields definition]
    exact distinct.fields definition old

theorem KeepsEdges.filterMap_definition?_reshape (keeps : KeepsEdges change)
    (types : List TypeId) :
    types.filterMap (program.reshape change).definition? =
      (types.filterMap program.definition?).map change := by
  rw [List.map_filterMap]
  congr 1
  funext type
  exact keeps.definition?_reshape type

theorem KeepsEdges.superWalk_reshape (keeps : KeepsEdges change) (type : TypeId) :
    (program.reshape change).superWalk type = (program.superWalk type).map change := by
  unfold superWalk
  rw [keeps.definedTypes_reshape, keeps.filterMap_definition?_reshape]
  congr 4
  funext above
  rw [keeps.definition?_reshape]
  cases program.definition? above with
  | none => rfl
  | some definition =>
      simp only [Option.map_some, Option.bind_some, keeps.super?]

theorem KeepsEdges.interfacesOf_reshape (keeps : KeepsEdges change) (type : TypeId) :
    (program.reshape change).interfacesOf type = program.interfacesOf type := by
  unfold interfacesOf
  rw [keeps.definition?_reshape]
  cases program.definition? type with
  | none => rfl
  | some definition =>
      simp only [Option.map_some, Option.getD_some, keeps.interfaces]

theorem KeepsEdges.inheritedInterfaces_reshape (keeps : KeepsEdges change)
    (walk : List ClassDef) :
    (program.reshape change).inheritedInterfaces (walk.map change) =
      (program.inheritedInterfaces walk).map change := by
  unfold inheritedInterfaces
  simp only [keeps.interfacesOf_reshape, keeps.definedTypes_reshape,
    keeps.filterMap_definition?_reshape, List.flatMap_map, keeps.interfaces]

def searchOrder (program : Program) (type : TypeId) : List ClassDef :=
  program.superWalk type ++ program.inheritedInterfaces (program.superWalk type)

theorem KeepsEdges.searchOrder_reshape (keeps : KeepsEdges change) (type : TypeId) :
    (program.reshape change).searchOrder type = (program.searchOrder type).map change := by
  simp only [searchOrder, keeps.superWalk_reshape, keeps.inheritedInterfaces_reshape,
    List.map_append]

def dispatchIn? (program : Program) (signature : Signature) (holder : ClassDef) :
    Option MethodHit :=
  program.withSignature? signature holder holder.virtualMethods

theorem dispatchMethod?_eq (program : Program) (type : TypeId) (method : MethodId) :
    program.dispatchMethod? type method =
      (program.searchOrder type).findSome?
        (program.dispatchIn? (program.interner.signature method)) := by
  rw [searchOrder, List.findSome?_append]
  rfl

theorem holder_of_dispatchIn? {signature : Signature} {holder : ClassDef} {hit : MethodHit}
    (found : program.dispatchIn? signature holder = some hit) : hit.holder = holder := by
  obtain ⟨definition, -, rfl⟩ := Option.map_eq_some_iff.mp found
  rfl

theorem mem_classes_of_mem_searchOrder {type : TypeId} {definition : ClassDef}
    (searched : definition ∈ program.searchOrder type) : definition ∈ program.classes := by
  simp only [searchOrder, superWalk, inheritedInterfaces, List.mem_append,
    List.mem_filterMap] at searched
  rcases searched with ⟨_, -, found⟩ | ⟨_, -, found⟩
  · exact (mem_of_definition? found).1
  · exact (mem_of_definition? found).1

end Searches

end Shrinker.Program
