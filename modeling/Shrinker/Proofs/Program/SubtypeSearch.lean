import Mathlib.Algebra.BigOperators.Group.Finset.Basic
import Shrinker.Proofs.Program.Subtypes

namespace Shrinker.Program

open Reference Collection DepthFirst

/-- The class is defined and names the other type as its superclass or as one of its interfaces. -/
def Declares (program : Program) (lower upper : TypeId) : Prop :=
  ∃ definition, program.definition? lower = some definition ∧
    (definition.super? = some upper ∨ upper ∈ definition.interfaces)

def declarations (program : Program) : Nat :=
  ∑ type ∈ program.definedTypes.toFinset, (program.parents type).length

/-- Where the search stands: the types that it has seen and those that wait, the next one first. -/
structure Climb where
  seen : List TypeId
  pending : List TypeId
  deriving DecidableEq, Repr

namespace Climb

def start (type : TypeId) : Climb :=
  ⟨[], [type]⟩

/-- One turn of the loop, to the next state or to the answer. The goal is looked for before the types that
were seen, and what a class names last is looked at first. -/
def turn (program : Program) (goal : TypeId) (climb : Climb) : Climb ⊕ Bool :=
  match climb.pending with
  | [] => .inr false
  | top :: rest =>
      if top = goal then
        .inr true
      else if top ∈ climb.seen then
        .inl ⟨climb.seen, rest⟩
      else
        .inl ⟨top :: climb.seen, (program.parents top).reverse ++ rest⟩

def run (program : Program) (goal : TypeId) : Nat → Climb → Option Bool
  | 0, _ => none
  | turns + 1, climb =>
      match climb.turn program goal with
      | .inl next => run program goal turns next
      | .inr answer => some answer

section Turns

variable {program : Program} {goal sub : TypeId} {climb next : Climb} {answer : Bool}

theorem turn_eq_inr (ended : climb.turn program goal = .inr answer) :
    climb.pending = [] ∧ answer = false ∨ goal ∈ climb.pending ∧ answer = true := by
  unfold turn at ended
  split at ended
  · rename_i nothing
    cases ended
    exact Or.inl ⟨nothing, rfl⟩
  · rename_i top rest waiting
    split at ended
    · rename_i found
      cases ended
      rw [waiting, found]
      exact Or.inr ⟨List.mem_cons_self, rfl⟩
    · split at ended <;> cases ended

theorem turn_eq_inl (continued : climb.turn program goal = .inl next) :
    ∃ top rest, climb.pending = top :: rest ∧ top ≠ goal ∧
      (top ∈ climb.seen ∧ next = ⟨climb.seen, rest⟩ ∨
        top ∉ climb.seen ∧
          next = ⟨top :: climb.seen, (program.parents top).reverse ++ rest⟩) := by
  unfold turn at continued
  split at continued
  · cases continued
  · rename_i top rest waiting
    split at continued
    · cases continued
    · rename_i other
      refine ⟨top, rest, waiting, other, ?_⟩
      split at continued
      · rename_i again
        cases continued
        exact Or.inl ⟨again, rfl⟩
      · rename_i fresh
        cases continued
        exact Or.inr ⟨fresh, rfl⟩

/-- The types that wait, and those that classes not yet seen would add. -/
def work (program : Program) (climb : Climb) : Nat :=
  climb.pending.length +
    ∑ type ∈ program.definedTypes.toFinset \ climb.seen.toFinset, (program.parents type).length

theorem work_start (program : Program) (type : TypeId) :
    (start type).work program = program.declarations + 1 := by
  simp only [work, start, declarations, List.length_singleton, List.toFinset_nil, Finset.sdiff_empty]
  omega

theorem parents_of_undefined {type : TypeId} (undefined : type ∉ program.definedTypes) :
    program.parents type = [] := by
  rw [parents, definition?_eq_none.mpr undefined]
  rfl

theorem sum_parents_sdiff_cons (program : Program) {seen : List TypeId} {top : TypeId} (fresh : top ∉ seen) :
    (program.parents top).length +
        ∑ type ∈ program.definedTypes.toFinset \ (top :: seen).toFinset,
          (program.parents type).length =
      ∑ type ∈ program.definedTypes.toFinset \ seen.toFinset, (program.parents type).length := by
  rw [List.toFinset_cons, Finset.sdiff_insert]
  by_cases defined : top ∈ program.definedTypes
  · have present : top ∈ program.definedTypes.toFinset \ seen.toFinset := by simp [defined, fresh]
    exact Finset.add_sum_erase _ (fun type => (program.parents type).length) present
  · have absent : top ∉ program.definedTypes.toFinset \ seen.toFinset := by simp [defined]
    rw [Finset.erase_eq_of_notMem absent, parents_of_undefined defined, List.length_nil, Nat.zero_add]

theorem work_turn (continued : climb.turn program goal = .inl next) :
    next.work program < climb.work program := by
  obtain ⟨top, rest, waiting, -, ⟨again, rfl⟩ | ⟨fresh, rfl⟩⟩ := turn_eq_inl continued
  · simp only [work, waiting, List.length_cons]
    omega
  · have moved := sum_parents_sdiff_cons program fresh
    simp only [work, waiting, List.length_cons, List.length_append, List.length_reverse]
    omega

theorem exists_run {turns : Nat} (enough : climb.work program < turns) :
    ∃ answer, climb.run program goal turns = some answer := by
  induction turns generalizing climb with
  | zero => exact absurd enough (Nat.not_lt_zero _)
  | succ turns ih =>
      rw [run]
      split
      · rename_i next continued
        have less := work_turn continued
        exact ih (by omega)
      · rename_i answer ended
        exact ⟨answer, rfl⟩

/-- What holds between two turns. A path upwards from the start leaves the types that were seen only through
one that waits. -/
structure IsUnderway (program : Program) (sub goal : TypeId) (climb : Climb) : Prop where
  unseen : goal ∉ climb.seen
  above : ∀ type ∈ climb.pending, Reaches program.parents sub type
  begun : sub ∈ climb.seen ∨ sub ∈ climb.pending
  frontier : ∀ type ∈ climb.seen, ∀ parent ∈ program.parents type,
    parent ∈ climb.seen ∨ parent ∈ climb.pending

theorem isUnderway_start (program : Program) (sub goal : TypeId) :
    IsUnderway program sub goal (start sub) where
  unseen := List.not_mem_nil
  above := by
    intro type waiting
    rw [List.mem_singleton.mp waiting]
    exact .refl sub
  begun := Or.inr List.mem_cons_self
  frontier := List.forall_mem_nil _

theorem IsUnderway.turn (underway : IsUnderway program sub goal climb)
    (continued : climb.turn program goal = .inl next) : IsUnderway program sub goal next := by
  obtain ⟨unseen, above, begun, frontier⟩ := underway
  obtain ⟨top, rest, waiting, other, step⟩ := turn_eq_inl continued
  rw [waiting] at above begun frontier
  rcases step with ⟨again, rfl⟩ | ⟨fresh, rfl⟩
  · -- the type that stops waiting is one of those seen
    have kept {type : TypeId} (known : type ∈ climb.seen ∨ type ∈ top :: rest) :
        type ∈ climb.seen ∨ type ∈ rest := by
      grind
    exact ⟨unseen, (List.forall_mem_cons.mp above).2, kept begun,
      fun type seen parent edge => kept (frontier type seen parent edge)⟩
  · obtain ⟨path, others⟩ := List.forall_mem_cons.mp above
    have kept {type : TypeId} (known : type ∈ climb.seen ∨ type ∈ top :: rest) :
        type ∈ top :: climb.seen ∨ type ∈ (program.parents top).reverse ++ rest := by
      grind
    refine ⟨List.not_mem_cons_of_ne_of_not_mem other.symm unseen, ?_, kept begun, ?_⟩
    · intro type listed
      rcases List.mem_append.mp listed with edge | later
      · exact path.tail (List.mem_reverse.mp edge)
      · exact others type later
    · intro type seen parent edge
      rcases List.mem_cons.mp seen with rfl | before
      · exact Or.inr (List.mem_append_left _ (List.mem_reverse.mpr edge))
      · exact kept (frontier type before parent edge)

theorem IsUnderway.mem_seen (underway : IsUnderway program sub goal climb)
    (nothing : climb.pending = []) {type : TypeId} (path : Reaches program.parents sub type) :
    type ∈ climb.seen := by
  have closed {type : TypeId} (known : type ∈ climb.seen ∨ type ∈ climb.pending) :
      type ∈ climb.seen := by
    rw [nothing] at known
    exact known.resolve_right List.not_mem_nil
  induction path with
  | refl => exact closed underway.begun
  | tail _ edge ih => exact closed (underway.frontier _ ih _ edge)

theorem IsUnderway.answer_iff (underway : IsUnderway program sub goal climb)
    (ended : climb.turn program goal = .inr answer) :
    answer = true ↔ Reaches program.parents sub goal := by
  obtain ⟨nothing, rfl⟩ | ⟨found, rfl⟩ := turn_eq_inr ended
  · refine iff_of_false Bool.false_ne_true ?_
    intro path
    exact underway.unseen (underway.mem_seen nothing path)
  · exact iff_of_true rfl (underway.above goal found)

theorem IsUnderway.run_iff {turns : Nat} (underway : IsUnderway program sub goal climb)
    (ended : climb.run program goal turns = some answer) :
    answer = true ↔ Reaches program.parents sub goal := by
  induction turns generalizing climb with
  | zero => cases ended
  | succ turns ih =>
      rw [run] at ended
      split at ended
      · rename_i next continued
        exact ih (underway.turn continued) ended
      · rename_i last stopped
        cases ended
        exact underway.answer_iff stopped

theorem run_start {turns : Nat} (enough : program.declarations + 2 ≤ turns) :
    (start sub).run program goal turns = some (program.isSubtype sub goal) := by
  have bound : (start sub).work program < turns := by
    rw [work_start]
    omega
  obtain ⟨answer, ended⟩ := exists_run bound
  rw [ended, Option.some_inj, Bool.eq_iff_iff, (isUnderway_start program sub goal).run_iff ended,
    isSubtype_iff_reaches]

end Turns

end Climb

section Additions

variable {program : Program} {sub sup : TypeId}

theorem definition?_attempt {lower : TypeId} {known : ClassDef}
    (found : program.definition? lower = some known) (definition : ClassDef) :
    (program.attempt definition).definition? lower = some known := by
  by_cases fits : program.Fits definition
  · have other : definition.type ≠ lower := by
      rintro rfl
      exact fits.undefined (mem_definedTypes_iff.mpr ⟨known, found⟩)
    rw [attempt_of_fits fits, definition?_push, if_neg other]
    exact found
  · rw [attempt_of_not_fits fits]
    exact found

theorem parents_subset_attempt (program : Program) (definition : ClassDef) (type : TypeId) :
    program.parents type ⊆ (program.attempt definition).parents type := by
  intro parent edge
  obtain ⟨lower, found, named⟩ := mem_parents.mp edge
  exact mem_parents.mpr ⟨lower, definition?_attempt found definition, named⟩

theorem isSubtype_foldl_attempt (below : program.isSubtype sub sup) (calls : List ClassDef) :
    (calls.foldl attempt program).isSubtype sub sup := by
  induction calls generalizing program with
  | nil => exact below
  | cons definition calls ih =>
      apply ih
      exact isSubtype_iff_reaches.mpr
        ((isSubtype_iff_reaches.mp below).mono (parents_subset_attempt program definition))

end Additions

theorem isSubtype_iff_declares {program : Program} {sub sup : TypeId} :
    program.isSubtype sub sup ↔ Relation.ReflTransGen program.Declares sub sup := by
  have same : (fun lower upper => upper ∈ program.parents lower) = program.Declares := by
    funext lower upper
    exact propext mem_parents
  rw [isSubtype_iff_reaches, Reaches, same]

/-- Subtypes are the reflexive and transitive closure of what the classes declare, whether or not the
declarations run in a circle or name types without definition. The search for a supertype ends, and classes
that are added later do not take a supertype away. -/
theorem isSubtype_closes_declarations (program : Program) :
    (∀ sub sup turns, program.declarations + 2 ≤ turns →
        (Climb.start sub).run program sup turns = some (program.isSubtype sub sup)) ∧
      (∀ sub sup, program.isSubtype sub sup ↔ Relation.ReflTransGen program.Declares sub sup) ∧
      (∀ type, program.isSubtype type type) ∧
      (∀ lower middle upper, program.isSubtype lower middle → program.isSubtype middle upper →
        program.isSubtype lower upper) ∧
      ∀ (calls : List ClassDef) sub sup, program.isSubtype sub sup →
        (calls.foldl attempt program).isSubtype sub sup := by
  refine ⟨?_, ?_, ?_, ?_, ?_⟩
  · intro sub sup turns enough
    exact Climb.run_start enough
  · intro sub sup
    exact isSubtype_iff_declares
  · intro type
    exact isSubtype_iff_reaches.mpr (.refl type)
  · intro lower middle upper first second
    exact isSubtype_iff_reaches.mpr
      ((isSubtype_iff_reaches.mp first).trans (isSubtype_iff_reaches.mp second))
  · intro calls sub sup below
    exact isSubtype_foldl_attempt below calls

namespace Looped

/-- Two classes that name each other as superclass, and an interface each that is not defined. -/
def first : ClassDef where
  type := ⟨5⟩
  origin := .program
  super? := some ⟨6⟩
  interfaces := [⟨8⟩]

def second : ClassDef where
  type := ⟨6⟩
  origin := .program
  super? := some ⟨5⟩
  interfaces := [⟨7⟩]

def program : Program :=
  assemble .standard [first, second]

def third : ClassDef where
  type := ⟨7⟩
  origin := .library
  interfaces := [⟨9⟩]

end Looped

/-- On the circle the search ends without the type that nothing declares. The undefined interface is found
from both classes, and still after it was defined and the first class was refused a second time. -/
theorem isSubtype_closes_declarations_looped :
    (Climb.start ⟨5⟩).run Looped.program ⟨9⟩ 6 = some (Looped.program.isSubtype ⟨5⟩ ⟨9⟩) ∧
      Looped.program.isSubtype ⟨5⟩ ⟨9⟩ = false ∧
      Relation.ReflTransGen Looped.program.Declares ⟨5⟩ ⟨7⟩ ∧
      ([Looped.third, Looped.first].foldl attempt Looped.program).isSubtype ⟨5⟩ ⟨7⟩ ∧
      ([Looped.third, Looped.first].foldl attempt Looped.program).isSubtype ⟨5⟩ ⟨9⟩ := by
  obtain ⟨ends, closes, -, transitive, grows⟩ := isSubtype_closes_declarations Looped.program
  have search := ends ⟨5⟩ ⟨9⟩ 6 (by decide)
  have fruitless : (Climb.start ⟨5⟩).run Looped.program ⟨9⟩ 6 = some false := by decide
  have upward : Looped.program.isSubtype ⟨5⟩ ⟨6⟩ :=
    (closes ⟨5⟩ ⟨6⟩).mpr (.single ⟨Looped.first, rfl, Or.inl rfl⟩)
  have sideways : Looped.program.isSubtype ⟨6⟩ ⟨7⟩ :=
    (closes ⟨6⟩ ⟨7⟩).mpr (.single ⟨Looped.second, rfl, Or.inr List.mem_cons_self⟩)
  have below := transitive ⟨5⟩ ⟨6⟩ ⟨7⟩ upward sideways
  have later := grows [Looped.third, Looped.first] ⟨5⟩ ⟨7⟩ below
  refine ⟨search, ?_, (closes ⟨5⟩ ⟨7⟩).mp below, later, ?_⟩
  · exact Option.some_inj.mp (search.symm.trans fruitless)
  · obtain ⟨-, closes, -, transitive, -⟩ :=
      isSubtype_closes_declarations ([Looped.third, Looped.first].foldl attempt Looped.program)
    refine transitive ⟨5⟩ ⟨7⟩ ⟨9⟩ later ?_
    exact (closes ⟨7⟩ ⟨9⟩).mpr (.single ⟨Looped.third, rfl, Or.inr List.mem_cons_self⟩)

end Shrinker.Program
