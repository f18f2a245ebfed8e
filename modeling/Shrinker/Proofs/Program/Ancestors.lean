import Shrinker.Proofs.Collection.Search
import Shrinker.Proofs.Program.Subtypes

namespace Shrinker.Program

open Reference Collection DepthFirst

/-- The class so many steps up the line of superclasses, where the line goes so far. -/
def ancestor? (program : Program) (type : TypeId) : Nat → Option ClassDef
  | 0 => program.definition? type
  | distance + 1 => do
      let definition ← program.definition? type
      let parent ← definition.super?
      program.ancestor? parent distance

/-- The classes of the line name the interface, or what they name has it above. -/
def Inherits (program : Program) (type interface : TypeId) : Prop :=
  ∃ distance holder, program.ancestor? type distance = some holder ∧
    ∃ named ∈ holder.interfaces, Reaches program.interfacesOf named interface

def superOf (program : Program) (type : TypeId) : List TypeId :=
  ((program.definition? type).bind (·.super?)).toList

section Line

variable {program : Program} {type parent : TypeId} {holder : ClassDef} {distance : Nat}

theorem mem_superOf : parent ∈ program.superOf type ↔
    ∃ definition, program.definition? type = some definition ∧ definition.super? = some parent := by
  rw [superOf, Option.mem_toList, Option.bind_eq_some_iff]

theorem ancestor?_succ : program.ancestor? type (distance + 1) = some holder ↔
    ∃ parent ∈ program.superOf type, program.ancestor? parent distance = some holder := by
  simp only [ancestor?, bind, Option.bind_eq_some_iff, mem_superOf]
  constructor
  · rintro ⟨definition, found, parent, named, higher⟩
    exact ⟨parent, ⟨definition, found, named⟩, higher⟩
  · rintro ⟨parent, ⟨definition, found, named⟩, higher⟩
    exact ⟨definition, found, parent, named, higher⟩

theorem ancestor?_of_super (named : (program.definition? type).bind (·.super?) = some parent)
    (distance : Nat) :
    program.ancestor? type (distance + 1) = program.ancestor? parent distance := by
  obtain ⟨definition, found, named⟩ := Option.bind_eq_some_iff.mp named
  simp only [ancestor?, bind, found, named, Option.bind_some]

theorem ancestor?_of_top (last : (program.definition? type).bind (·.super?) = none)
    (distance : Nat) : program.ancestor? type (distance + 1) = none := by
  rw [ancestor?]
  refine Option.bind_eq_none_iff.mpr fun definition found => ?_
  rw [bind, Option.bind_eq_none_iff.mp last definition found]
  rfl

theorem definition?_of_ancestor? (above : program.ancestor? type distance = some holder) :
    program.definition? holder.type = some holder := by
  induction distance generalizing type with
  | zero => exact (mem_of_definition? above).2 ▸ above
  | succ distance ih =>
      obtain ⟨parent, -, higher⟩ := ancestor?_succ.mp above
      exact ih higher

theorem reaches_of_ancestor? (above : program.ancestor? type distance = some holder) :
    Reaches program.superOf type holder.type := by
  induction distance generalizing type with
  | zero => exact (mem_of_definition? above).2 ▸ .refl _
  | succ distance ih =>
      obtain ⟨parent, edge, higher⟩ := ancestor?_succ.mp above
      exact (Reaches.single edge).trans (ih higher)

theorem superOf_subset_parents (type : TypeId) : program.superOf type ⊆ program.parents type := by
  intro parent edge
  obtain ⟨definition, found, named⟩ := mem_superOf.mp edge
  exact mem_parents.mpr ⟨definition, found, Or.inl named⟩

theorem mem_interfacesOf {interface : TypeId} : interface ∈ program.interfacesOf type ↔
    ∃ definition, program.definition? type = some definition ∧ interface ∈ definition.interfaces := by
  unfold interfacesOf
  cases program.definition? type <;> simp

theorem interfacesOf_subset_parents (type : TypeId) :
    program.interfacesOf type ⊆ program.parents type := by
  intro interface edge
  obtain ⟨definition, found, named⟩ := mem_interfacesOf.mp edge
  exact mem_parents.mpr ⟨definition, found, Or.inr named⟩

theorem sources_interfacesOf (lower upper : TypeId) (edge : upper ∈ program.interfacesOf lower) :
    lower ∈ program.definedTypes :=
  mem_definedTypes_of_mem_parents (interfacesOf_subset_parents lower edge)

theorem isSubtype_of_ancestor? (above : program.ancestor? type distance = some holder) :
    program.isSubtype type holder.type :=
  isSubtype_iff_reaches.mpr ((reaches_of_ancestor? above).mono superOf_subset_parents)

theorem Inherits.isSubtype {interface : TypeId} (inherits : program.Inherits type interface) :
    program.isSubtype type interface := by
  obtain ⟨distance, holder, above, named, listed, path⟩ := inherits
  have edge : named ∈ program.parents holder.type :=
    mem_parents.mpr ⟨holder, definition?_of_ancestor? above, Or.inr listed⟩
  have line := isSubtype_iff_reaches.mp (isSubtype_of_ancestor? above)
  exact isSubtype_iff_reaches.mpr ((line.tail edge).trans (path.mono interfacesOf_subset_parents))

end Line

section Walk

variable {program : Program} {type : TypeId} {holder : ClassDef} {distance : Nat}

theorem superWalk_eq (program : Program) (type : TypeId) :
    program.superWalk type =
      (visit program.superOf program.definedTypes [type]).filterMap program.definition? :=
  rfl

theorem exists_cons_of_walk {domain : List TypeId} (defined : domain ⊆ program.definedTypes)
    (walked : ((visit program.superOf domain [type]).filterMap program.definition?)[distance]? =
      some holder) :
    ∃ definition, program.definition? type = some definition ∧
      (definition :: (visit program.superOf (without domain type)
        (program.superOf type)).filterMap program.definition?)[distance]? = some holder := by
  by_cases inside : type ∈ domain
  · obtain ⟨definition, found⟩ := mem_definedTypes_iff.mp (defined inside)
    rw [visit, if_pos inside, List.append_nil, List.filterMap_cons, found] at walked
    exact ⟨definition, found, walked⟩
  · rw [visit, if_neg inside, visit] at walked
    cases walked

theorem ancestor?_of_walk {domain : List TypeId} (defined : domain ⊆ program.definedTypes)
    (walked : ((visit program.superOf domain [type]).filterMap program.definition?)[distance]? =
      some holder) : program.ancestor? type distance = some holder := by
  induction distance generalizing type domain with
  | zero =>
      obtain ⟨definition, found, here⟩ := exists_cons_of_walk defined walked
      exact found.trans here
  | succ distance ih =>
      obtain ⟨definition, found, higher⟩ := exists_cons_of_walk defined walked
      rw [List.getElem?_cons_succ] at higher
      cases named : definition.super? with
      | none =>
          have top : program.superOf type = [] := by simp [superOf, found, named]
          rw [top, visit] at higher
          cases higher
      | some parent =>
          have only : program.superOf type = [parent] := by simp [superOf, found, named]
          rw [only] at higher
          have fewer : without domain type ⊆ program.definedTypes :=
            fun other listed => defined (mem_without.mp listed).1
          exact ancestor?_succ.mpr ⟨parent, by simp [only], ih fewer higher⟩

theorem ancestor?_of_superWalk (walked : (program.superWalk type)[distance]? = some holder) :
    program.ancestor? type distance = some holder :=
  ancestor?_of_walk (List.Subset.refl _) walked

theorem mem_superWalk_of_ancestor? (above : program.ancestor? type distance = some holder) :
    holder ∈ program.superWalk type := by
  have sources : ∀ lower upper, upper ∈ program.superOf lower → lower ∈ program.definedTypes :=
    fun lower upper edge => mem_definedTypes_of_mem_parents (superOf_subset_parents lower edge)
  have found := definition?_of_ancestor? above
  have visited : holder.type ∈ visit program.superOf program.definedTypes [type] :=
    (mem_visit_iff sources).mpr ⟨mem_definedTypes_iff.mpr ⟨holder, found⟩, type,
      List.mem_singleton.mpr rfl, reaches_of_ancestor? above⟩
  exact List.mem_filterMap.mpr ⟨holder.type, visited, found⟩

theorem exists_superWalk_of_ancestor? (above : program.ancestor? type distance = some holder) :
    ∃ position ≤ distance, (program.superWalk type)[position]? = some holder := by
  obtain ⟨position, walked⟩ := List.mem_iff_getElem?.mp (mem_superWalk_of_ancestor? above)
  by_cases early : position ≤ distance
  · exact ⟨position, early, walked⟩
  · -- the walk is long enough to have a class at this distance, and the line has only one there
    have bound : distance < (program.superWalk type).length := by
      have := (List.getElem?_eq_some_iff.mp walked).1
      omega
    have here := List.getElem?_eq_getElem bound
    have same := (ancestor?_of_superWalk here).symm.trans above
    exact ⟨distance, le_refl distance, here.trans same⟩

variable {β : Type} {probe : ClassDef → Option β}

theorem findSome?_superWalk_eq_none :
    (program.superWalk type).findSome? probe = none ↔
      ∀ distance holder, program.ancestor? type distance = some holder → probe holder = none := by
  rw [List.findSome?_eq_none_iff]
  constructor
  · intro barren distance holder above
    exact barren holder (mem_superWalk_of_ancestor? above)
  · intro barren holder walked
    obtain ⟨distance, position⟩ := List.mem_iff_getElem?.mp walked
    exact barren distance holder (ancestor?_of_superWalk position)

theorem exists_nearest_of_findSome?_superWalk {answer : β}
    (found : (program.superWalk type).findSome? probe = some answer) :
    ∃ distance holder, program.ancestor? type distance = some holder ∧
      probe holder = some answer ∧ ∀ nearer < distance, ∀ other,
        program.ancestor? type nearer = some other → probe other = none := by
  obtain ⟨before, holder, after, walk, here, barren⟩ := List.findSome?_eq_some_iff.mp found
  refine ⟨before.length, holder, ancestor?_of_superWalk (by simp [walk]), here, ?_⟩
  intro nearer closer other above
  obtain ⟨position, early, walked⟩ := exists_superWalk_of_ancestor? above
  rw [walk, List.getElem?_append_left (by omega)] at walked
  exact barren other (List.mem_of_getElem? walked)

end Walk

section Interfaces

variable {program : Program} {type : TypeId} {holder : ClassDef}

def interfacesBackwards (program : Program) (type : TypeId) : List TypeId :=
  (program.interfacesOf type).reverse

theorem sources_interfacesBackwards (lower upper : TypeId)
    (edge : upper ∈ program.interfacesBackwards lower) : lower ∈ program.definedTypes :=
  sources_interfacesOf lower upper (List.mem_reverse.mp edge)

theorem reaches_interfacesBackwards {lower upper : TypeId} :
    Reaches program.interfacesBackwards lower upper ↔ Reaches program.interfacesOf lower upper :=
  ⟨Reaches.mono fun _ => List.reverse_subset.mpr (List.Subset.refl _),
    Reaches.mono fun _ => List.subset_reverse.mpr (List.Subset.refl _)⟩

theorem mem_flatMap_interfaces_superWalk {interface : TypeId} :
    interface ∈ ((program.superWalk type).flatMap (·.interfaces)).reverse ↔
      ∃ distance holder, program.ancestor? type distance = some holder ∧
        interface ∈ holder.interfaces := by
  rw [List.mem_reverse, List.mem_flatMap]
  constructor
  · rintro ⟨holder, walked, named⟩
    obtain ⟨distance, position⟩ := List.mem_iff_getElem?.mp walked
    exact ⟨distance, holder, ancestor?_of_superWalk position, named⟩
  · rintro ⟨distance, holder, above, named⟩
    exact ⟨holder, mem_superWalk_of_ancestor? above, named⟩

theorem inheritedInterfaces_eq (program : Program) (walk : List ClassDef) :
    program.inheritedInterfaces walk =
      (visit program.interfacesBackwards program.definedTypes
        (walk.flatMap (·.interfaces)).reverse).filterMap program.definition? :=
  rfl

theorem mem_visit_interfaces {interface : TypeId} :
    interface ∈ visit program.interfacesBackwards program.definedTypes
        ((program.superWalk type).flatMap (·.interfaces)).reverse ↔
      interface ∈ program.definedTypes ∧ program.Inherits type interface := by
  rw [mem_visit_iff sources_interfacesBackwards]
  refine and_congr_right fun _ => ?_
  simp only [mem_flatMap_interfaces_superWalk, reaches_interfacesBackwards, Inherits]
  constructor
  · rintro ⟨named, ⟨distance, holder, above, listed⟩, path⟩
    exact ⟨distance, holder, above, named, listed, path⟩
  · rintro ⟨distance, holder, above, named, listed, path⟩
    exact ⟨named, ⟨distance, holder, above, listed⟩, path⟩

theorem mem_inheritedInterfaces :
    holder ∈ program.inheritedInterfaces (program.superWalk type) ↔
      program.definition? holder.type = some holder ∧ program.Inherits type holder.type := by
  rw [inheritedInterfaces_eq, List.mem_filterMap]
  constructor
  · rintro ⟨interface, visited, found⟩
    obtain ⟨-, inherits⟩ := mem_visit_interfaces.mp visited
    obtain rfl := (mem_of_definition? found).2
    exact ⟨found, inherits⟩
  · rintro ⟨found, inherits⟩
    refine ⟨holder.type, mem_visit_interfaces.mpr ⟨?_, inherits⟩, found⟩
    exact mem_definedTypes_iff.mpr ⟨holder, found⟩

end Interfaces

end Shrinker.Program
