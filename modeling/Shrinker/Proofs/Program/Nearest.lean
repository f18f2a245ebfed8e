import Shrinker.Proofs.Program.Ancestors

namespace Shrinker.Program

open Reference Collection DepthFirst

def HasMatch (program : Program) (signature : Signature) (methods : List MethodDef) : Prop :=
  ∃ definition ∈ methods, program.interner.signature definition.method = signature

def IsFirstMatch (program : Program) (signature : Signature) (methods : List MethodDef)
    (definition : MethodDef) : Prop :=
  ∃ before after, methods = before ++ definition :: after ∧
    program.interner.signature definition.method = signature ∧ ¬program.HasMatch signature before

section Matches

variable {program : Program} {signature : Signature} {holder : ClassDef} {methods : List MethodDef}

theorem withSignature?_eq_none :
    program.withSignature? signature holder methods = none ↔
      ¬program.HasMatch signature methods := by
  rw [withSignature?, Option.map_eq_none_iff, List.find?_eq_none]
  simp [HasMatch]

theorem withSignature?_eq_some {hit : MethodHit} :
    program.withSignature? signature holder methods = some hit ↔
      hit.holder = holder ∧ program.IsFirstMatch signature methods hit.definition := by
  rw [withSignature?, Option.map_eq_some_iff]
  simp only [List.find?_eq_some_iff_append, beq_iff_eq, IsFirstMatch, HasMatch]
  constructor
  · rintro ⟨definition, ⟨same, before, after, split, others⟩, rfl⟩
    exact ⟨rfl, before, after, split, same, by simpa using others⟩
  · rintro ⟨rfl, before, after, split, same, others⟩
    exact ⟨hit.definition, ⟨same, before, after, split, by simpa using others⟩, rfl⟩

end Matches

/-- Nothing in the line of superclasses, of the methods that `select` admits. -/
def IsMissedByLine (program : Program) (select : ClassDef → List MethodDef) (type : TypeId)
    (signature : Signature) : Prop :=
  ∀ distance holder, program.ancestor? type distance = some holder →
    ¬program.HasMatch signature (select holder)

inductive Finds (program : Program) (select : ClassDef → List MethodDef) (type : TypeId)
    (signature : Signature) : Option MethodHit → Prop
  | nearest {distance : Nat} {hit : MethodHit}
      (above : program.ancestor? type distance = some hit.holder)
      (first : program.IsFirstMatch signature (select hit.holder) hit.definition)
      (others : ∀ nearer < distance, ∀ other, program.ancestor? type nearer = some other →
        ¬program.HasMatch signature (select other)) : Finds program select type signature (some hit)
  | inherited {hit : MethodHit} (missed : program.IsMissedByLine select type signature)
      (found : program.definition? hit.holder.type = some hit.holder)
      (inherits : program.Inherits type hit.holder.type)
      (first : program.IsFirstMatch signature hit.holder.virtualMethods hit.definition) :
      Finds program select type signature (some hit)
  | nowhere (missed : program.IsMissedByLine select type signature)
      (others : ∀ interface holder, program.Inherits type interface →
        program.definition? interface = some holder →
          ¬program.HasMatch signature holder.virtualMethods) :
      Finds program select type signature none

def methodIn? (program : Program) (select : ClassDef → List MethodDef) (signature : Signature)
    (type : TypeId) : Option MethodHit :=
  (program.definition? type).bind fun holder => program.withSignature? signature holder (select holder)

/-- The loops of a lookup end: the one up the line, and where it has no answer the one through the
interfaces, which takes those named last first. -/
inductive Ends (program : Program) (select : ClassDef → List MethodDef) (type : TypeId)
    (signature : Signature) : Option MethodHit → Prop
  | inLine {hit : MethodHit} :
      Search program.superOf (program.methodIn? select signature) [] [type] (some hit) →
        Ends program select type signature (some hit)
  | amongInterfaces {outcome : Option MethodHit} :
      Search program.superOf (program.methodIn? select signature) [] [type] none →
        Search program.interfacesBackwards (program.methodIn? (·.virtualMethods) signature) []
          ((program.superWalk type).flatMap (·.interfaces)).reverse outcome →
        Ends program select type signature outcome

structure IsLookup (program : Program) (select : ClassDef → List MethodDef) (type : TypeId)
    (signature : Signature) (outcome : Option MethodHit) : Prop where
  ends : Ends program select type signature outcome
  finds : Finds program select type signature outcome
  sound : ∀ hit, outcome = some hit →
    program.interner.signature hit.definition.method = signature ∧
      program.isSubtype type hit.holder.type

section Lookup

variable {program : Program} {select : ClassDef → List MethodDef} {type : TypeId}
  {signature : Signature}

def inLine? (program : Program) (select : ClassDef → List MethodDef) (type : TypeId)
    (signature : Signature) : Option MethodHit :=
  (program.superWalk type).findSome? fun holder =>
    program.withSignature? signature holder (select holder)

def amongInterfaces? (program : Program) (type : TypeId) (signature : Signature) :
    Option MethodHit :=
  (program.inheritedInterfaces (program.superWalk type)).findSome? fun holder =>
    program.withSignature? signature holder holder.virtualMethods

theorem lookupSignature?_eq :
    program.lookupSignature? select type signature =
      (program.inLine? select type signature).or (program.amongInterfaces? type signature) :=
  rfl

theorem findSome?_filterMap_definition? {β : Type} (probe : ClassDef → Option β)
    (types : List TypeId) :
    (types.filterMap program.definition?).findSome? probe =
      types.findSome? fun type => (program.definition? type).bind probe := by
  rw [← List.head?_filterMap, List.filterMap_filterMap, List.head?_filterMap]

theorem methodIn?_of_undefined (undefined : type ∉ program.definedTypes) :
    program.methodIn? select signature type = none := by
  rw [methodIn?, definition?_eq_none.mpr undefined, Option.bind_none]

theorem search_inLine? :
    Search program.superOf (program.methodIn? select signature) [] [type]
      (program.inLine? select type signature) := by
  rw [inLine?, superWalk_eq, findSome?_filterMap_definition?]
  refine search_visit (fun met undefined => ⟨methodIn?_of_undefined undefined, ?_⟩) [type]
  rw [superOf, definition?_eq_none.mpr undefined]
  rfl

theorem search_amongInterfaces? :
    Search program.interfacesBackwards (program.methodIn? (·.virtualMethods) signature) []
      ((program.superWalk type).flatMap (·.interfaces)).reverse
      (program.amongInterfaces? type signature) := by
  rw [amongInterfaces?, inheritedInterfaces_eq, findSome?_filterMap_definition?]
  refine search_visit (fun met undefined => ⟨methodIn?_of_undefined undefined, ?_⟩) _
  rw [interfacesBackwards, interfacesOf, definition?_eq_none.mpr undefined]
  rfl

theorem ends_lookupSignature? :
    Ends program select type signature (program.lookupSignature? select type signature) := by
  have line : Search program.superOf (program.methodIn? select signature) [] [type]
      (program.inLine? select type signature) := search_inLine?
  rw [lookupSignature?_eq]
  cases outcome : program.inLine? select type signature with
  | some hit => exact .inLine (outcome ▸ line)
  | none => exact .amongInterfaces (outcome ▸ line) search_amongInterfaces?

theorem isMissedByLine_iff :
    program.IsMissedByLine select type signature ↔ program.inLine? select type signature = none := by
  simp only [inLine?, findSome?_superWalk_eq_none, withSignature?_eq_none, IsMissedByLine]

theorem finds_of_inLine? {hit : MethodHit}
    (found : program.inLine? select type signature = some hit) :
    Finds program select type signature (some hit) := by
  obtain ⟨distance, holder, above, here, others⟩ := exists_nearest_of_findSome?_superWalk found
  obtain ⟨rfl, first⟩ := withSignature?_eq_some.mp here
  refine .nearest above first fun nearer closer other below => ?_
  exact withSignature?_eq_none.mp (others nearer closer other below)

theorem finds_of_isMissedByLine (missed : program.IsMissedByLine select type signature) :
    Finds program select type signature (program.amongInterfaces? type signature) := by
  cases outcome : program.amongInterfaces? type signature with
  | some hit =>
      obtain ⟨holder, listed, here⟩ := List.exists_of_findSome?_eq_some outcome
      obtain ⟨rfl, first⟩ := withSignature?_eq_some.mp here
      obtain ⟨found, inherits⟩ := mem_inheritedInterfaces.mp listed
      exact .inherited missed found inherits first
  | none =>
      refine .nowhere missed fun interface holder inherits found => ?_
      obtain rfl := (mem_of_definition? found).2
      have listed := mem_inheritedInterfaces.mpr ⟨found, inherits⟩
      exact withSignature?_eq_none.mp (List.findSome?_eq_none_iff.mp outcome holder listed)

theorem finds_lookupSignature? :
    Finds program select type signature (program.lookupSignature? select type signature) := by
  rw [lookupSignature?_eq]
  cases outcome : program.inLine? select type signature with
  | some hit => exact finds_of_inLine? outcome
  | none => exact finds_of_isMissedByLine (isMissedByLine_iff.mpr outcome)

theorem Finds.sound {hit : MethodHit} (finds : Finds program select type signature (some hit)) :
    program.interner.signature hit.definition.method = signature ∧
      program.isSubtype type hit.holder.type := by
  cases finds with
  | nearest above first others =>
      obtain ⟨_, _, -, same, -⟩ := first
      exact ⟨same, isSubtype_of_ancestor? above⟩
  | inherited missed found inherits first =>
      obtain ⟨_, _, -, same, -⟩ := first
      exact ⟨same, inherits.isSubtype⟩

theorem isLookup_lookupSignature? :
    IsLookup program select type signature (program.lookupSignature? select type signature) where
  ends := ends_lookupSignature?
  finds := finds_lookupSignature?
  sound _ found := Finds.sound (found ▸ finds_lookupSignature?)

end Lookup

/-- Both ways to look a method up end, with the first match of the nearest class in the line of
superclasses, or else with the first match of an inherited interface, or else with nothing. Resolution
admits all methods of the classes in the line, dispatch the virtual ones. -/
theorem lookups_nearest_first (program : Program) (type : TypeId) (method : MethodId) :
    IsLookup program (·.methods) type (program.interner.signature method)
        (program.lookupMethod? type method) ∧
      IsLookup program (·.virtualMethods) type (program.interner.signature method)
        (program.dispatchMethod? type method) :=
  ⟨isLookup_lookupSignature?, isLookup_lookupSignature?⟩

end Shrinker.Program
