import Mathlib.Data.Fintype.Order
import Shrinker.Proofs.Collection.DepthFirst
import Shrinker.Proofs.Program.Distinct

namespace Shrinker.Program

open Reference Collection DepthFirst

/-- Classes were added one after the other; references may have been added at any time. -/
inductive IsAssembled : Program → Prop where
  | empty (interner : Interner) : IsAssembled (empty interner)
  | refer {program : Program} (interner : Interner) :
      IsAssembled program → IsAssembled { program with interner }
  | add {program added : Program} {definition : ClassDef} :
      IsAssembled program → program.addClass definition = .ok added → IsAssembled added

theorem IsAssembled.isDistinct {program : Program} (assembled : program.IsAssembled) :
    program.IsDistinct := by
  induction assembled with
  | empty interner => exact .empty interner
  | refer interner _ ih => exact ⟨ih.types, ih.methods, ih.fields⟩
  | add _ success ih =>
      obtain ⟨fits, rfl⟩ := addClass_eq_ok.mp success
      exact ih.push fits

/-- The type hangs below the root though no class says so: it is a class without superclass, or a
superclass without definition. -/
def Hangs (root : TypeId) (classes : List ClassDef) (type : TypeId) : Prop :=
  type ≠ root ∧
    ((∃ definition ∈ classes, definition.type = type ∧ definition.super? = none) ∨
      type ∉ classes.map (·.type) ∧ ∃ definition ∈ classes, definition.super? = some type)

section Hanging

variable {root type above : TypeId} {classes : List ClassDef} {definition : ClassDef}

theorem hangs_append_of_top (top : definition.super? = none) :
    Hangs root (classes ++ [definition]) type ↔
      Hangs root classes type ∨ type = definition.type ∧ type ≠ root := by
  simp only [Hangs, List.mem_append, List.mem_singleton, List.map_append, List.map_cons,
    List.map_nil]
  grind

theorem hangs_append_of_super (named : definition.super? = some above)
    (undefined : definition.type ∉ classes.map (·.type)) :
    Hangs root (classes ++ [definition]) type ↔
      type ≠ definition.type ∧ (Hangs root classes type ∨
        type = above ∧ type ≠ root ∧ type ∉ classes.map (·.type)) := by
  simp only [Hangs, List.mem_append, List.mem_singleton, List.map_append, List.map_cons,
    List.map_nil]
  grind

end Hanging

namespace Hierarchy

structure Describes (hierarchy : Hierarchy) (classes : List ClassDef) : Prop where
  defined : ∀ type, type ∈ hierarchy.defined ↔ type ∈ classes.map (·.type)
  extending : ∀ parent child, (parent, child) ∈ hierarchy.extending ↔
    (∃ definition ∈ classes, definition.type = child ∧ definition.super? = some parent) ∨
      parent = hierarchy.root ∧ Hangs hierarchy.root classes child
  implementing : ∀ parent child, (parent, child) ∈ hierarchy.implementing ↔
    ∃ definition ∈ classes, definition.type = child ∧ parent ∈ definition.interfaces
  interfaces : ∀ type, type ∈ hierarchy.interfaces ↔
    ∃ definition ∈ classes, definition.type = type ∧ definition.isInterface

section Members

variable {hierarchy : Hierarchy} {definition : ClassDef} {edge : TypeId × TypeId}
  {parent child : TypeId}

theorem mem_targets {edges : List (TypeId × TypeId)} :
    child ∈ targets edges parent ↔ (parent, child) ∈ edges := by
  simp only [targets, List.mem_filterMap]
  constructor
  · rintro ⟨⟨start, target⟩, listed, found⟩
    split at found
    · rename_i same
      cases found
      exact same ▸ listed
    · cases found
  · intro listed
    exact ⟨(parent, child), listed, if_pos rfl⟩

theorem mem_extend :
    edge ∈ (hierarchy.extend parent child).extending ↔
      edge ∈ hierarchy.extending ∨ edge = (parent, child) := by
  unfold extend
  split
  · rename_i known
    refine (or_iff_left_of_imp ?_).symm
    rintro rfl
    exact known
  · simp

theorem exists_extend (hierarchy : Hierarchy) (parent child : TypeId) :
    ∃ extending, hierarchy.extend parent child = { hierarchy with extending } := by
  unfold extend
  split
  · exact ⟨hierarchy.extending, rfl⟩
  · exact ⟨_, rfl⟩

theorem root_extend : (hierarchy.extend parent child).root = hierarchy.root := by
  obtain ⟨_, same⟩ := hierarchy.exists_extend parent child
  rw [same]

theorem exists_addSuper (hierarchy : Hierarchy) (definition : ClassDef) :
    ∃ extending, hierarchy.addSuper definition = { hierarchy with extending } := by
  unfold addSuper
  split
  · rename_i above _
    dsimp only
    split
    · exact exists_extend ..
    · obtain ⟨linked, same⟩ := hierarchy.exists_extend above definition.type
      rw [same]
      exact exists_extend ..
  · split
    · exact ⟨hierarchy.extending, rfl⟩
    · exact exists_extend ..

theorem exists_detach (hierarchy : Hierarchy) (definition : ClassDef) :
    ∃ extending, hierarchy.detach definition = { hierarchy with extending } := by
  unfold detach
  split
  · split
    · exact ⟨hierarchy.extending, rfl⟩
    · exact ⟨_, rfl⟩
  · exact ⟨hierarchy.extending, rfl⟩

theorem exists_addClass (hierarchy : Hierarchy) (definition : ClassDef) :
    ∃ extending, hierarchy.addClass definition =
      ({ hierarchy with defined := definition.type :: hierarchy.defined, extending } :
        Hierarchy).addInterfaces definition := by
  unfold addClass
  obtain ⟨linked, same⟩ := exists_addSuper
    { hierarchy with defined := definition.type :: hierarchy.defined } definition
  obtain ⟨kept, again⟩ := exists_detach
    { hierarchy with defined := definition.type :: hierarchy.defined, extending := linked } definition
  refine ⟨kept, ?_⟩
  dsimp only
  rw [same, again]

theorem mem_extending_of_top (top : definition.super? = none) :
    edge ∈ (hierarchy.addClass definition).extending ↔
      edge ∈ hierarchy.extending ∨
        edge = (hierarchy.root, definition.type) ∧ definition.type ≠ hierarchy.root := by
  simp only [addClass, addInterfaces, detach, addSuper, top]
  split
  · rename_i same
    simp [same]
  · rename_i other
    rw [mem_extend, and_iff_left other]

theorem mem_extending_of_super {above : TypeId} (named : definition.super? = some above) :
    edge ∈ (hierarchy.addClass definition).extending ↔
      edge = (above, definition.type) ∨
        (edge ∈ hierarchy.extending ∨ edge = (hierarchy.root, above) ∧ above ≠ hierarchy.root ∧
          above ≠ definition.type ∧ above ∉ hierarchy.defined) ∧
        (above = hierarchy.root ∨ edge ≠ (hierarchy.root, definition.type)) := by
  simp only [addClass, addInterfaces, detach, addSuper, named]
  grind [mem_extend, root_extend]

theorem mem_insert_ascending {type other : TypeId} {types : List TypeId} :
    other ∈ Ascending.insert TypeId.index type types ↔ other = type ∨ other ∈ types := by
  apply Ascending.mem_insert
  intro left right same
  cases left
  cases right
  exact congrArg TypeId.mk same

end Members

section Descriptions

variable {hierarchy : Hierarchy} {classes : List ClassDef} {definition : ClassDef}

theorem root_addClass (hierarchy : Hierarchy) (definition : ClassDef) :
    (hierarchy.addClass definition).root = hierarchy.root := by
  obtain ⟨_, same⟩ := hierarchy.exists_addClass definition
  rw [same]
  rfl

theorem Describes.mem_extending (describes : hierarchy.Describes classes)
    (undefined : definition.type ∉ classes.map (·.type)) (parent child : TypeId) :
    (parent, child) ∈ (hierarchy.addClass definition).extending ↔
      (∃ other ∈ classes ++ [definition], other.type = child ∧ other.super? = some parent) ∨
        parent = hierarchy.root ∧ Hangs hierarchy.root (classes ++ [definition]) child := by
  have split : (∃ other ∈ classes ++ [definition], other.type = child ∧ other.super? = some parent) ↔
      (∃ other ∈ classes, other.type = child ∧ other.super? = some parent) ∨
        definition.type = child ∧ definition.super? = some parent := by
    simp only [List.mem_append, List.mem_singleton, or_and_right, exists_or, exists_eq_left]
  have declared (other : ClassDef) (listed : other ∈ classes) : other.type ≠ definition.type := by
    intro same
    exact undefined (List.mem_map.mpr ⟨other, listed, same⟩)
  rw [split]
  cases named : definition.super? with
  | none =>
      rw [mem_extending_of_top named, describes.extending, hangs_append_of_top named]
      grind
  | some above =>
      rw [mem_extending_of_super named, describes.extending, hangs_append_of_super named undefined,
        describes.defined]
      grind [Hangs]

theorem Describes.addClass (describes : hierarchy.Describes classes)
    (undefined : definition.type ∉ classes.map (·.type)) :
    (hierarchy.addClass definition).Describes (classes ++ [definition]) := by
  have extending := describes.mem_extending undefined
  rw [← hierarchy.root_addClass definition] at extending
  obtain ⟨edges, same⟩ := hierarchy.exists_addClass definition
  refine ⟨?_, extending, ?_, ?_⟩
  · intro type
    rw [same]
    simp only [addInterfaces, List.mem_cons, describes.defined, List.map_append, List.mem_append,
      List.map_cons, List.map_nil, List.not_mem_nil, or_false]
    exact or_comm
  · intro parent child
    rw [same]
    simp only [addInterfaces, List.mem_append, describes.implementing, List.mem_map, Prod.mk.injEq,
      List.mem_singleton, or_and_right, exists_or, exists_eq_left]
    grind
  · intro type
    rw [same]
    simp only [addInterfaces, List.mem_append, List.mem_singleton, or_and_right, exists_or,
      exists_eq_left]
    split
    · rename_i isInterface
      rw [mem_insert_ascending, describes.interfaces, and_iff_left isInterface]
      grind
    · rename_i ordinary
      rw [describes.interfaces]
      grind

end Descriptions

end Hierarchy

theorem IsAssembled.root_eq {program : Program} (assembled : program.IsAssembled) :
    program.hierarchy.root = .object := by
  induction assembled with
  | empty interner => rfl
  | refer interner _ ih => exact ih
  | add _ success ih =>
      obtain ⟨-, rfl⟩ := addClass_eq_ok.mp success
      exact (Hierarchy.root_addClass _ _).trans ih

theorem IsAssembled.describes {program : Program} (assembled : program.IsAssembled) :
    program.hierarchy.Describes program.classes := by
  induction assembled with
  | empty interner => constructor <;> simp [Program.empty, Hangs]
  | refer interner _ ih => exact ih
  | add _ success ih =>
      obtain ⟨fits, rfl⟩ := addClass_eq_ok.mp success
      exact ih.addClass fits.undefined

def HangsBelowRoot (program : Program) : TypeId → Prop :=
  Hangs .object program.classes

/-- The walk up the superclasses comes to an end: at the root, at a class without superclass or at a type
without definition. -/
inductive WalkEnds (program : Program) : TypeId → Prop where
  | root : WalkEnds program .object
  | undefined {type : TypeId} : program.definition? type = none → WalkEnds program type
  | topmost {type : TypeId} {definition : ClassDef} :
      program.definition? type = some definition → definition.super? = none →
        WalkEnds program type
  | under {type parent : TypeId} {definition : ClassDef} :
      program.definition? type = some definition → definition.super? = some parent →
        WalkEnds program parent → WalkEnds program type

section Ways

variable {program : Program} {type parent child : TypeId}

theorem IsAssembled.mem_subclasses (assembled : program.IsAssembled) :
    child ∈ program.hierarchy.subclasses parent ↔
      (∃ definition, program.definition? child = some definition ∧
        definition.super? = some parent) ∨
      parent = .object ∧ program.HangsBelowRoot child := by
  simp only [Hierarchy.subclasses, Hierarchy.mem_targets, assembled.describes.extending,
    assembled.root_eq, assembled.isDistinct.definition?_eq_some, and_assoc, HangsBelowRoot]

theorem IsAssembled.mem_implementors (assembled : program.IsAssembled) :
    child ∈ program.hierarchy.implementors parent ↔
      ∃ definition, program.definition? child = some definition ∧
        parent ∈ definition.interfaces := by
  simp only [Hierarchy.implementors, Hierarchy.mem_targets, assembled.describes.implementing,
    assembled.isDistinct.definition?_eq_some, and_assoc]

/-- Where the walk up ends there is a way down from the root, provided that the type occurs at all. -/
theorem IsAssembled.reaches_of_walkEnds (assembled : program.IsAssembled)
    (ends : program.WalkEnds type)
    (occurs : type = .object ∨ type ∈ program.definedTypes ∨
      ∃ definition ∈ program.classes, definition.super? = some type) :
    Reaches program.hierarchy.subclasses .object type := by
  induction ends with
  | root => exact .refl _
  | @undefined type missing =>
      by_cases same : type = .object
      · exact same ▸ .refl _
      · have undefined : type ∉ program.definedTypes := definition?_eq_none.mp missing
        have named := (occurs.resolve_left same).resolve_left undefined
        have hangs : program.HangsBelowRoot type := ⟨same, Or.inr ⟨undefined, named⟩⟩
        exact .single (assembled.mem_subclasses.mpr (Or.inr ⟨rfl, hangs⟩))
  | @topmost type definition found top =>
      by_cases same : type = .object
      · exact same ▸ .refl _
      · obtain ⟨member, typed⟩ := mem_of_definition? found
        have hangs : program.HangsBelowRoot type :=
          ⟨same, Or.inl ⟨definition, member, typed, top⟩⟩
        exact .single (assembled.mem_subclasses.mpr (Or.inr ⟨rfl, hangs⟩))
  | @under type parent definition found named _ ih =>
      have above := ih (Or.inr (Or.inr ⟨definition, (mem_of_definition? found).1, named⟩))
      exact above.tail (assembled.mem_subclasses.mpr (Or.inl ⟨definition, found, named⟩))

/-- No type is declared, step by step, above itself. -/
def IsAcyclic (program : Program) : Prop :=
  ∀ type, ¬Relation.TransGen (fun lower upper => upper ∈ program.parents lower) type type

theorem mem_parents {lower upper : TypeId} :
    upper ∈ program.parents lower ↔ ∃ definition, program.definition? lower = some definition ∧
      (definition.super? = some upper ∨ upper ∈ definition.interfaces) := by
  unfold Program.parents ClassDef.parents
  cases program.definition? lower with
  | none => simp
  | some definition => simp [Option.mem_toList]

theorem isAcyclic_of_rank (rank : TypeId → Nat)
    (rises : ∀ lower upper, upper ∈ program.parents lower → rank upper < rank lower) :
    program.IsAcyclic := by
  intro type cycle
  have falls : ∀ upper, Relation.TransGen (fun lower upper => upper ∈ program.parents lower) type upper →
      rank upper < rank type := by
    intro upper path
    induction path with
    | single edge => exact rises _ _ edge
    | tail _ edge ih => exact (rises _ _ edge).trans ih
  exact (falls type cycle).false

theorem IsAcyclic.walkEnds (acyclic : program.IsAcyclic) (type : TypeId) : program.WalkEnds type := by
  let Above (upper lower : { type // type ∈ program.definedTypes }) : Prop :=
    Relation.TransGen (fun lower upper => upper ∈ program.parents lower) lower.1 upper.1
  have finite : Finite { type // type ∈ program.definedTypes } := List.finite_toSet program.definedTypes
  have trans : IsTrans _ Above := ⟨fun _ _ _ upper lower => lower.trans upper⟩
  have irrefl : Std.Irrefl Above := ⟨fun type => acyclic type.1⟩
  have wellFounded : WellFounded Above := Finite.wellFounded_of_trans_of_irrefl Above
  by_cases defined : type ∈ program.definedTypes
  · generalize same : (⟨type, defined⟩ : { type // type ∈ program.definedTypes }) = start
    induction start using wellFounded.induction generalizing type with
    | _ start ih =>
        subst same
        obtain ⟨definition, found⟩ := mem_definedTypes_iff.mp defined
        cases named : definition.super? with
        | none => exact .topmost found named
        | some parent =>
            refine .under found named ?_
            by_cases parentDefined : parent ∈ program.definedTypes
            · refine ih ⟨parent, parentDefined⟩ ?_ parent parentDefined rfl
              exact .single (mem_parents.mpr ⟨definition, found, Or.inl named⟩)
            · exact .undefined (definition?_eq_none.mpr parentDefined)
  · exact .undefined (definition?_eq_none.mpr defined)

end Ways

end Shrinker.Program
