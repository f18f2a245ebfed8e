import Mathlib
import Shrinker.Liveness.Trace
import Shrinker.Proofs.Program.Additions

/-!
Two views of subtypes. One goes up from a class by its declarations, the other goes down the hierarchy.
The way down also takes the edges from the root that no class declares, and so it comes upon more: the two
views agree exactly if all that hangs below the root is declared below it.
-/
namespace Shrinker.Program

open Reference Collection DepthFirst

section Views

variable {program : Program} {lower upper parent child : TypeId}

theorem mem_definedTypes_of_mem_parents (edge : upper ∈ program.parents lower) :
    lower ∈ program.definedTypes := by
  obtain ⟨definition, found, -⟩ := mem_parents.mp edge
  exact mem_definedTypes_iff.mpr ⟨definition, found⟩

theorem isSubtype_iff_reaches : program.isSubtype lower upper ↔ Reaches program.parents lower upper := by
  have sources : ∀ lower upper, upper ∈ program.parents lower → lower ∈ program.definedTypes :=
    fun _ _ => mem_definedTypes_of_mem_parents
  simp only [isSubtype, Bool.or_eq_true, beq_iff_eq, List.any_eq_true, decide_eq_true_eq,
    mem_visit_iff sources, List.mem_singleton, exists_eq_left]
  constructor
  · rintro (rfl | ⟨type, ⟨-, path⟩, edge⟩)
    · exact .refl lower
    · exact path.tail edge
  · intro path
    rcases Relation.ReflTransGen.cases_tail path with same | ⟨type, path, edge⟩
    · exact Or.inl same.symm
    · exact Or.inr ⟨type, ⟨sources _ _ edge, path⟩, edge⟩

theorem IsAssembled.mem_directSubtypes (assembled : program.IsAssembled) :
    child ∈ program.hierarchy.directSubtypes parent ↔
      parent ∈ program.parents child ∨ parent = .object ∧ program.HangsBelowRoot child := by
  rw [Hierarchy.directSubtypes, List.mem_append, assembled.mem_subclasses,
    assembled.mem_implementors, mem_parents]
  simp only [and_or_left, exists_or]
  exact or_right_comm

theorem IsAssembled.reaches_directSubtypes_of_isSubtype (assembled : program.IsAssembled)
    (below : program.isSubtype lower upper) :
    Reaches program.hierarchy.directSubtypes upper lower := by
  refine (isSubtype_iff_reaches.mp below).turn ?_
  intro child parent edge
  exact assembled.mem_directSubtypes.mpr (Or.inl edge)

/-- The way down is made of declared edges, or it passes the root and leaves it to a type that hangs
there. -/
theorem IsAssembled.reaches_directSubtypes_iff (assembled : program.IsAssembled) :
    Reaches program.hierarchy.directSubtypes upper lower ↔
      program.isSubtype lower upper ∨ program.isSubtype .object upper ∧
        ∃ top, program.HangsBelowRoot top ∧ program.isSubtype lower top := by
  constructor
  · intro path
    induction path with
    | refl => exact Or.inl (isSubtype_iff_reaches.mpr (.refl upper))
    | @tail middle lower _ edge ih =>
        rcases assembled.mem_directSubtypes.mp edge with declared | ⟨rfl, hangs⟩
        · have extended {top : TypeId} (below : program.isSubtype middle top) :
              program.isSubtype lower top :=
            isSubtype_iff_reaches.mpr
              ((Reaches.single declared).trans (isSubtype_iff_reaches.mp below))
          rcases ih with below | ⟨passes, top, hangs, below⟩
          · exact Or.inl (extended below)
          · exact Or.inr ⟨passes, top, hangs, extended below⟩
        · have passes : program.isSubtype .object upper := ih.elim id And.left
          exact Or.inr ⟨passes, lower, hangs, isSubtype_iff_reaches.mpr (.refl lower)⟩
  · rintro (below | ⟨passes, top, hangs, below⟩)
    · exact assembled.reaches_directSubtypes_of_isSubtype below
    · have edge : top ∈ program.hierarchy.directSubtypes .object :=
        assembled.mem_directSubtypes.mpr (Or.inr ⟨rfl, hangs⟩)
      exact ((assembled.reaches_directSubtypes_of_isSubtype passes).tail edge).trans
        (assembled.reaches_directSubtypes_of_isSubtype below)

theorem IsAssembled.reaches_from_root (assembled : program.IsAssembled) (acyclic : program.IsAcyclic)
    {definition : ClassDef} (member : definition ∈ program.classes) :
    Reaches program.hierarchy.directSubtypes .object definition.type := by
  have defined : definition.type ∈ program.definedTypes := List.mem_map_of_mem member
  have path := assembled.reaches_of_walkEnds (acyclic.walkEnds definition.type)
    (Or.inr (Or.inl defined))
  exact path.mono fun _ => List.subset_append_left _ _

end Views

/-- Going down the hierarchy of an assembled program leads to the declared subtypes, and from the root and
what is declared above it also to all subtypes of what hangs below the root. So the two views agree exactly
if nothing hangs below the root that is not declared there. Without cycles the way down from the root leads
to every class. -/
theorem subtype_views_agree_iff {program : Program} (assembled : program.IsAssembled) :
    (∀ upper lower, Reaches program.hierarchy.directSubtypes upper lower ↔
      program.isSubtype lower upper ∨ program.isSubtype .object upper ∧
        ∃ top, program.HangsBelowRoot top ∧ program.isSubtype lower top) ∧
    ((∀ upper lower, program.isSubtype lower upper ↔
        Reaches program.hierarchy.directSubtypes upper lower) ↔
      ∀ top, program.HangsBelowRoot top → program.isSubtype top .object) ∧
    (program.IsAcyclic → ∀ definition ∈ program.classes,
      Reaches program.hierarchy.directSubtypes .object definition.type) := by
  refine ⟨fun _ _ => assembled.reaches_directSubtypes_iff, ⟨?_, ?_⟩, ?_⟩
  · intro agree top hangs
    rw [agree]
    exact .single (assembled.mem_directSubtypes.mpr (Or.inr ⟨rfl, hangs⟩))
  · intro declared upper lower
    rw [assembled.reaches_directSubtypes_iff]
    refine (or_iff_left_of_imp ?_).symm
    rintro ⟨passes, top, hangs, below⟩
    have path := (isSubtype_iff_reaches.mp below).trans (isSubtype_iff_reaches.mp (declared top hangs))
    exact isSubtype_iff_reaches.mpr (path.trans (isSubtype_iff_reaches.mp passes))
  · intro acyclic definition member
    exact assembled.reaches_from_root acyclic member

namespace Rootless

/-- The references `Ljava/lang/Object;->hash()V`, `LA;->hash()V` and `LB;->hash()V`, and `LX;`. -/
def interner : Interner :=
  let (alone, interner) := Interner.standard.internType "LA;"
  let (orphan, interner) := interner.internType "LB;"
  let (_, interner) := interner.internType "LX;"
  let (hash, interner) := interner.internSymbol "hash"
  let (proto, interner) := interner.internProto ⟨[], .void⟩
  let (_, interner) := interner.internMethod ⟨.object, hash, proto⟩
  let (_, interner) := interner.internMethod ⟨alone, hash, proto⟩
  (interner.internMethod ⟨orphan, hash, proto⟩).2

def root : ClassDef where
  type := .object
  origin := .library
  virtualMethods := [{ method := ⟨1⟩, access := { isPublic := true } }]

def alone : ClassDef where
  type := ⟨5⟩
  origin := .program
  virtualMethods := [{ method := ⟨2⟩, access := { isPublic := true } }]

def orphan : ClassDef where
  type := ⟨6⟩
  origin := .program
  super? := some ⟨7⟩
  virtualMethods := [{ method := ⟨3⟩, access := { isPublic := true } }]

def program : Program where
  interner := interner
  classes := [root, alone, orphan]
  hierarchy := ((Hierarchy.addClass { root := .object } root).addClass alone).addClass orphan

theorem isAssembled : program.IsAssembled :=
  isAssembled_assemble interner [root, alone, orphan]

theorem isAcyclic : program.IsAcyclic := by
  refine isAcyclic_of_rank (fun type => if type = ⟨6⟩ then 1 else 0) ?_
  intro lower upper edge
  obtain ⟨definition, found, above⟩ := mem_parents.mp edge
  obtain ⟨member, rfl⟩ := mem_of_definition? found
  simp only [program, List.mem_cons, List.not_mem_nil, or_false] at member
  rcases member with rfl | rfl | rfl
  · simp [root] at above
  · simp [alone] at above
  · have only : upper = ⟨7⟩ := by simpa [orphan, eq_comm] using above
    subst only
    decide

end Rootless

open Rootless in
/-- Both classes are found on the way down from the root, but neither is a subtype of it. So a call of a
method of the root is not followed to the methods that override it there. -/
theorem hanging_classes_not_subtypes :
    program.IsAssembled ∧ program.IsAcyclic ∧
      ∀ definition ∈ [alone, orphan], definition ∈ program.classes ∧
        Reaches program.hierarchy.directSubtypes .object definition.type ∧
        program.isSubtype definition.type .object = false ∧
        (program.dispatchMethod? definition.type ⟨1⟩).map (·.holder) = some definition ∧
        Liveness.Trace.overrideActions program definition.type ⟨1⟩ = [] := by
  refine ⟨isAssembled, isAcyclic, ?_⟩
  intro definition listed
  rcases List.mem_pair.mp listed with rfl | rfl
  · exact ⟨by decide, .single (by decide), by cbv, by cbv, by cbv⟩
  · have above : Reaches program.hierarchy.directSubtypes .object ⟨7⟩ := .single (by decide)
    exact ⟨by decide, above.tail (by decide), by cbv, by cbv, by cbv⟩

open Rootless in
theorem subtype_views_agree_iff_rootless :
    program.IsAssembled ∧
      (Reaches program.hierarchy.directSubtypes .object orphan.type ↔
        program.isSubtype orphan.type .object ∨ program.isSubtype .object .object ∧
          ∃ top, program.HangsBelowRoot top ∧ program.isSubtype orphan.type top) ∧
      program.HangsBelowRoot ⟨7⟩ ∧
      (∀ definition ∈ program.classes,
        Reaches program.hierarchy.directSubtypes .object definition.type) ∧
      ¬∀ upper lower, program.isSubtype lower upper ↔
        Reaches program.hierarchy.directSubtypes upper lower := by
  obtain ⟨reaches, agree, everywhere⟩ := subtype_views_agree_iff isAssembled
  have hangs : program.HangsBelowRoot ⟨7⟩ := by
    refine ⟨by decide, Or.inr ⟨by decide, orphan, by decide, rfl⟩⟩
  refine ⟨isAssembled, reaches _ _, hangs, everywhere isAcyclic, ?_⟩
  rw [agree]
  intro declared
  have below := declared ⟨7⟩ hangs
  have apart : program.isSubtype ⟨7⟩ .object = false := by
    cbv
  rw [apart] at below
  cases below

end Shrinker.Program
