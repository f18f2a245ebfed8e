import Shrinker.Proofs.Program.Nearest

/-!
Defaults that dispatch finds in interfaces. The search goes by the order in which interfaces are named and
not by how specific they are, so it may stop at a default that another inherited interface overrides. That
takes a name given aside: something above the overriding interface is named by a class, or by an interface
that the overriding one does not lead to.
-/
namespace Shrinker.Program

open Reference Collection DepthFirst

def IsSubinterface (program : Program) (lower upper : TypeId) : Prop :=
  lower ≠ upper ∧ Reaches program.interfacesOf lower upper

/-- An inherited interface below the other one, with a method of the signature: the default in the other
one is overridden. -/
structure IsRival (program : Program) (type : TypeId) (signature : Signature)
    (interface rival : TypeId) : Prop where
  inherits : program.Inherits type rival
  below : program.IsSubinterface rival interface
  declares : ∃ holder, program.definition? rival = some holder ∧
    program.HasMatch signature holder.virtualMethods

def IsNamedAside (program : Program) (type rival named : TypeId) : Prop :=
  (∃ distance holder, program.ancestor? type distance = some holder ∧ named ∈ holder.interfaces) ∨
    ∃ aside, program.Inherits type aside ∧ ¬Reaches program.interfacesOf rival aside ∧
      named ∈ program.interfacesOf aside

section Defaults

variable {program : Program} {type : TypeId} {method : MethodId} {signature : Signature}
  {hit : MethodHit}

theorem dispatchMethod?_of_isMissedByLine
    (missed : program.IsMissedByLine (·.virtualMethods) type (program.interner.signature method)) :
    program.dispatchMethod? type method =
      program.amongInterfaces? type (program.interner.signature method) := by
  rw [dispatchMethod?, lookupSignature?_eq, isMissedByLine_iff.mp missed, Option.none_or]

theorem exists_split_of_amongInterfaces? (found : program.amongInterfaces? type signature = some hit) :
    ∃ before after,
      program.inheritedInterfaces (program.superWalk type) = before ++ hit.holder :: after ∧
        (∀ passed ∈ before, ¬program.HasMatch signature passed.virtualMethods) ∧
        program.HasMatch signature hit.holder.virtualMethods := by
  obtain ⟨before, holder, after, split, here, others⟩ := List.findSome?_eq_some_iff.mp found
  obtain ⟨rfl, first⟩ := withSignature?_eq_some.mp here
  refine ⟨before, after, split, fun passed listed => ?_, ?_⟩
  · exact withSignature?_eq_none.mp (others passed listed)
  · obtain ⟨earlier, later, methods, same, -⟩ := first
    exact ⟨hit.definition, methods ▸ by simp, same⟩

theorem IsRival.mem_after {before after : List ClassDef} {rival : TypeId}
    (isRival : program.IsRival type signature hit.holder.type rival)
    (split : program.inheritedInterfaces (program.superWalk type) = before ++ hit.holder :: after)
    (passed : ∀ holder ∈ before, ¬program.HasMatch signature holder.virtualMethods) :
    ∃ holder ∈ after, holder.type = rival ∧ program.HasMatch signature holder.virtualMethods := by
  obtain ⟨holder, found, offers⟩ := isRival.declares
  obtain rfl := (mem_of_definition? found).2
  have listed := mem_inheritedInterfaces.mpr ⟨found, isRival.inherits⟩
  rw [split, List.mem_append, List.mem_cons] at listed
  rcases listed with early | rfl | late
  · exact absurd offers (passed holder early)
  · exact absurd rfl isRival.below.1
  · exact ⟨holder, late, rfl, offers⟩

theorem isRival_of_mem_after {before after : List ClassDef} {holder : ClassDef}
    (split : program.inheritedInterfaces (program.superWalk type) = before ++ hit.holder :: after)
    (late : holder ∈ after) (offers : program.HasMatch signature holder.virtualMethods)
    (below : program.IsSubinterface holder.type hit.holder.type) :
    program.IsRival type signature hit.holder.type holder.type := by
  have listed : holder ∈ program.inheritedInterfaces (program.superWalk type) := by
    rw [split]
    exact List.mem_append_right _ (List.mem_cons_of_mem _ late)
  obtain ⟨found, inherits⟩ := mem_inheritedInterfaces.mp listed
  exact ⟨inherits, below, holder, found, offers⟩

theorem IsRival.exists_isNamedAside {rival : TypeId}
    (isRival : program.IsRival type signature hit.holder.type rival)
    (found : program.amongInterfaces? type signature = some hit) :
    ∃ named, program.IsSubinterface rival named ∧ program.IsNamedAside type rival named := by
  obtain ⟨before, after, split, passed, -⟩ := exists_split_of_amongInterfaces? found
  rw [inheritedInterfaces_eq] at split
  obtain ⟨earlier, later, visited, passedTypes, rest⟩ := List.filterMap_eq_append_iff.mp split
  obtain ⟨skipped, met, last, rfl, undefined, here, -⟩ := List.filterMap_eq_cons_iff.mp rest
  obtain rfl := (mem_of_definition? here).2
  -- the rival has a match, so that it is not among what the search has passed
  have late : rival ∉ earlier ++ skipped := by
    intro listed
    obtain ⟨holder, defined, offers⟩ := isRival.declares
    rcases List.mem_append.mp listed with early | idle
    · have inBefore : holder ∈ before :=
        passedTypes ▸ List.mem_filterMap.mpr ⟨rival, early, defined⟩
      exact passed holder inBefore offers
    · rw [undefined rival idle] at defined
      cases defined
  obtain ⟨different, path⟩ := isRival.below
  rw [← List.append_assoc] at visited
  obtain ⟨named, apart, leads, origin⟩ := exists_aside_of_visit visited late different
    (reaches_interfacesBackwards.mpr path)
  refine ⟨named, ⟨apart, reaches_interfacesBackwards.mp leads⟩, ?_⟩
  rcases origin with listed | ⟨aside, searched, unrelated, edge⟩
  · exact Or.inl (mem_flatMap_interfaces_superWalk.mp listed)
  · refine Or.inr ⟨aside, (mem_visit_interfaces.mp searched).2, ?_, List.mem_reverse.mp edge⟩
    exact fun back => unrelated (reaches_interfacesBackwards.mpr back)

end Defaults

/-- Where the line of superclasses has no method, dispatch takes the first inherited interface with one in
the order of the search. That interface has a rival exactly if one comes later in the search, and only if
something above the rival is named aside. -/
theorem default_overridden_only_if_named_aside {program : Program} {type : TypeId}
    {method : MethodId} {hit : MethodHit} (found : program.dispatchMethod? type method = some hit)
    (missed : program.IsMissedByLine (·.virtualMethods) type (program.interner.signature method)) :
    program.Inherits type hit.holder.type ∧
      (∃ before after,
        program.inheritedInterfaces (program.superWalk type) = before ++ hit.holder :: after ∧
        (∀ passed ∈ before,
          ¬program.HasMatch (program.interner.signature method) passed.virtualMethods) ∧
        ((∃ rival, program.IsRival type (program.interner.signature method) hit.holder.type rival) ↔
          ∃ later ∈ after,
            program.HasMatch (program.interner.signature method) later.virtualMethods ∧
              program.IsSubinterface later.type hit.holder.type)) ∧
      ∀ rival, program.IsRival type (program.interner.signature method) hit.holder.type rival →
        ∃ named, program.IsSubinterface rival named ∧ program.IsNamedAside type rival named := by
  rw [dispatchMethod?_of_isMissedByLine missed] at found
  obtain ⟨before, after, split, passed, -⟩ := exists_split_of_amongInterfaces? found
  refine ⟨?_, ⟨before, after, split, passed, ?_, ?_⟩, fun rival isRival => ?_⟩
  · exact (mem_inheritedInterfaces.mp (split ▸ by simp)).2
  · rintro ⟨rival, isRival⟩
    obtain ⟨later, listed, rfl, offers⟩ := isRival.mem_after split passed
    exact ⟨later, listed, offers, isRival.below⟩
  · rintro ⟨later, listed, offers, below⟩
    exact ⟨later.type, isRival_of_mem_after split listed offers below⟩
  · exact isRival.exists_isNamedAside found

namespace Overridden

/-- The references `LI;->run()V` and `LJ;->run()V`, and the types `LB;` and `LT;`. -/
def interner : Interner :=
  let (upper, interner) := Interner.standard.internType "LI;"
  let (lower, interner) := interner.internType "LJ;"
  let (_, interner) := interner.internType "LB;"
  let (_, interner) := interner.internType "LT;"
  let (run, interner) := interner.internSymbol "run"
  let (proto, interner) := interner.internProto ⟨[], .void⟩
  let (_, interner) := interner.internMethod ⟨upper, run, proto⟩
  (interner.internMethod ⟨lower, run, proto⟩).2

def upperRun : MethodDef :=
  { method := ⟨1⟩, access := { isPublic := true } }

def lowerRun : MethodDef :=
  { method := ⟨2⟩, access := { isPublic := true } }

def upper : ClassDef where
  type := ⟨5⟩
  origin := .program
  access := { isPublic := true, isInterface := true, isAbstract := true }
  virtualMethods := [upperRun]

def lower : ClassDef where
  type := ⟨6⟩
  origin := .program
  access := { isPublic := true, isInterface := true, isAbstract := true }
  interfaces := [⟨5⟩]
  virtualMethods := [lowerRun]

def base : ClassDef :=
  { type := ⟨7⟩, origin := .program, super? := some .object, interfaces := [⟨5⟩] }

/-- Has the lower interface of its own and the upper one from its superclass as well. -/
def derived : ClassDef :=
  { type := ⟨8⟩, origin := .program, super? := some ⟨7⟩, interfaces := [⟨6⟩] }

def program : Program where
  interner := interner
  classes := [upper, lower, base, derived]
  hierarchy := [upper, lower, base, derived].foldl Hierarchy.addClass { root := .object }

theorem isAcyclic : program.IsAcyclic := by
  let rank (type : TypeId) : Nat := if type = .object then 0 else if type = ⟨5⟩ then 1 else type.index
  refine isAcyclic_of_rank rank ?_
  intro below above edge
  obtain ⟨definition, found, named⟩ := mem_parents.mp edge
  obtain ⟨member, rfl⟩ := mem_of_definition? found
  simp only [program, List.mem_cons, List.not_mem_nil, or_false] at member
  rcases member with rfl | rfl | rfl | rfl
  · simp [upper] at named
  · obtain rfl : above = ⟨5⟩ := by simpa [lower] using named
    decide
  · obtain rfl | rfl : .object = above ∨ above = ⟨5⟩ := by simpa [base] using named
    · decide
    · decide
  · obtain rfl | rfl : ⟨7⟩ = above ∨ above = ⟨6⟩ := by simpa [derived] using named
    · decide
    · decide

theorem dispatch : program.dispatchMethod? ⟨8⟩ ⟨1⟩ = some ⟨upper, upperRun⟩ := by
  cbv

theorem isMissedByLine :
    program.IsMissedByLine (·.virtualMethods) ⟨8⟩ (program.interner.signature ⟨1⟩) :=
  isMissedByLine_iff.mpr (by cbv)

theorem isRival :
    program.IsRival ⟨8⟩ (program.interner.signature ⟨1⟩) upper.type lower.type where
  inherits := ⟨0, derived, rfl, lower.type, by decide, .refl _⟩
  below := ⟨by decide, .single (by decide)⟩
  declares := ⟨lower, rfl, lowerRun, by decide, by decide +kernel⟩

end Overridden

open Overridden in
/-- The superclass names the upper interface, which lies above the lower one. -/
theorem default_overridden_only_if_named_aside_base :
    program.dispatchMethod? ⟨8⟩ ⟨1⟩ = some ⟨upper, upperRun⟩ ∧
      program.IsMissedByLine (·.virtualMethods) ⟨8⟩ (program.interner.signature ⟨1⟩) ∧
      program.Inherits ⟨8⟩ upper.type ∧
      ∃ named, program.IsSubinterface lower.type named ∧
        program.IsNamedAside ⟨8⟩ lower.type named := by
  obtain ⟨inherits, -, aside⟩ := default_overridden_only_if_named_aside dispatch isMissedByLine
  exact ⟨dispatch, isMissedByLine, inherits, aside lower.type isRival⟩

open Overridden in
/-- Dispatch finds the default of the upper interface though the class has it from the lower one too, which
overrides it; and so it is the overridden default that a trace keeps. -/
theorem overridden_default_found :
    program.IsAcyclic ∧ program.dispatchMethod? ⟨8⟩ ⟨1⟩ = some ⟨upper, upperRun⟩ ∧
      program.IsMissedByLine (·.virtualMethods) ⟨8⟩ (program.interner.signature ⟨1⟩) ∧
      program.IsRival ⟨8⟩ (program.interner.signature ⟨1⟩) upper.type lower.type ∧
      Liveness.Trace.overrideActions program ⟨8⟩ ⟨1⟩ =
        [.markMethod upperRun.method .override] := by
  refine ⟨isAcyclic, dispatch, isMissedByLine, isRival, ?_⟩
  cbv

end Shrinker.Program
