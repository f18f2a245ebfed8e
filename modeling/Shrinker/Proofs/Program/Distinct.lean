import Mathlib.Data.List.Induction
import Shrinker.Program.Lookup
import Shrinker.Proofs.Collection.Keyed

namespace Shrinker.Program

open Reference Collection

/-- No type is defined twice, and no class has two methods or two fields with the same reference. -/
structure IsDistinct (program : Program) : Prop where
  types : program.definedTypes.Nodup
  methods : ∀ definition ∈ program.classes, (definition.methods.map (·.method)).Nodup
  fields : ∀ definition ∈ program.classes, (definition.fields.map (·.field)).Nodup

theorem firstRepeated?_eq_none {α : Type} [DecidableEq α] {seen entries : List α} :
    firstRepeated? seen entries = none ↔ entries.Nodup ∧ ∀ entry ∈ entries, entry ∉ seen := by
  induction entries generalizing seen with
  | nil => simp [firstRepeated?]
  | cons entry entries ih =>
      unfold firstRepeated?
      split
      · rename_i known
        simp [known]
      · rename_i fresh
        rw [ih]
        simp only [List.mem_cons, List.nodup_cons]
        constructor
        · intro tail
          obtain ⟨nodup, unseen⟩ := tail
          refine ⟨⟨fun again => unseen entry again (Or.inl rfl), nodup⟩, ?_⟩
          rintro other (rfl | later)
          · exact fresh
          · exact fun known => unseen other later (Or.inr known)
        · intro whole
          obtain ⟨⟨once, nodup⟩, unseen⟩ := whole
          refine ⟨nodup, fun other later known => ?_⟩
          rcases known with rfl | known
          · exact once later
          · exact unseen other (Or.inr later) known

theorem firstRepeated?_nil_eq_none {α : Type} [DecidableEq α] {entries : List α} :
    firstRepeated? [] entries = none ↔ entries.Nodup := by
  rw [firstRepeated?_eq_none]
  exact and_iff_left fun _ _ => List.not_mem_nil

theorem ext_of_store {left right : Program} (store : left.toStore = right.toStore)
    (interner : left.interner = right.interner) : left = right := by
  cases left
  cases right
  cases store
  cases interner
  rfl

theorem ext_of_classes {left right : Program} (interner : left.interner = right.interner)
    (classes : left.classes = right.classes) (hierarchy : left.hierarchy = right.hierarchy) :
    left = right := by
  have index : left.index = right.index := by
    rw [left.indexed, right.indexed, classes]
  refine ext_of_store ?_ interner
  cases left
  cases right
  exact Store.mk.injEq .. ▸ ⟨classes, index, hierarchy⟩

section Index

variable {program : Program} {type : TypeId} {definition : ClassDef}

theorem lookup_index_eq_none :
    program.index.lookup type = none ↔ type ∉ program.definedTypes := by
  have types : type ∈ program.definedTypes ↔ ∃ place, (type, place) ∈ program.index := by
    rw [program.indexed, places, ← List.zipIdx_map_fst 0 program.definedTypes, List.mem_map]
    simp [definedTypes]
  rw [List.lookup_eq_none_iff, types]
  grind

/-- Where the index leads, the class stands that was the last of its type to be added. -/
theorem lookup_places_bind (classes more : List ClassDef) (type : TypeId) :
    ((places classes).lookup type).bind ((classes ++ more)[·]?) =
      classes.reverse.find? (·.type == type) := by
  induction classes using List.reverseRecOn generalizing more with
  | nil => rfl
  | append_singleton classes definition ih =>
      rw [places_append, List.lookup_cons, List.reverse_append, List.reverse_singleton,
        List.singleton_append, List.find?_cons, List.append_assoc, BEq.comm]
      split
      · simp
      · exact ih ([definition] ++ more)

theorem definition?_eq_find? (program : Program) (type : TypeId) :
    program.definition? type = program.classes.reverse.find? (·.type == type) := by
  have found := lookup_places_bind program.classes [] type
  rw [← program.indexed, List.append_nil] at found
  exact found

theorem mem_of_definition? (found : program.definition? type = some definition) :
    definition ∈ program.classes ∧ definition.type = type := by
  rw [definition?_eq_find?] at found
  exact ⟨List.mem_reverse.mp (List.mem_of_find?_eq_some found), by simpa using List.find?_some found⟩

theorem mem_definedTypes_iff : type ∈ program.definedTypes ↔ ∃ definition,
    program.definition? type = some definition := by
  rw [← Option.isSome_iff_exists, definition?_eq_find?, List.find?_isSome, definedTypes, List.mem_map]
  simp

theorem definition?_eq_none : program.definition? type = none ↔ type ∉ program.definedTypes := by
  rw [mem_definedTypes_iff, not_exists, Option.eq_none_iff_forall_ne_some]

end Index

section Additions

variable {program added : Program} {definition : ClassDef}

/-- The class can be added: its type is new, and its members are told apart by their references. -/
structure Fits (program : Program) (definition : ClassDef) : Prop where
  undefined : definition.type ∉ program.definedTypes
  methods : (definition.methods.map (·.method)).Nodup
  fields : (definition.fields.map (·.field)).Nodup

@[reducible] def push (program : Program) (definition : ClassDef) : Program where
  interner := program.interner
  classes := program.classes ++ [definition]
  index := (definition.type, program.classes.length) :: program.index
  hierarchy := program.hierarchy.addClass definition
  indexed := by rw [places_append, program.indexed]

theorem definition?_push (program : Program) (definition : ClassDef) (type : TypeId) :
    (program.push definition).definition? type =
      if definition.type = type then some definition else program.definition? type := by
  rw [definition?_eq_find?, definition?_eq_find?, List.reverse_append, List.reverse_singleton,
    List.singleton_append]
  split
  · rename_i same
    exact List.find?_cons_of_pos (beq_iff_eq.mpr same)
  · rename_i other
    exact List.find?_cons_of_neg (mt beq_iff_eq.mp other)

theorem takes_iff_fits : program.Takes definition ↔ program.Fits definition := by
  unfold Store.Takes
  rw [lookup_index_eq_none, firstRepeated?_nil_eq_none, firstRepeated?_nil_eq_none]
  exact ⟨fun ⟨undefined, methods, fields⟩ => ⟨undefined, methods, fields⟩,
    fun fits => ⟨fits.undefined, fits.methods, fits.fields⟩⟩

theorem add_cases (program : Program) (definition : ClassDef) :
    program.Fits definition ∧ program.add definition = (.ok (), program.push definition) ∨
      ¬program.Fits definition ∧ ∃ error, program.add definition = (.error error, program) := by
  rw [← takes_iff_fits]
  rcases program.toStore.add_cases program.interner definition with ⟨takes, run⟩ | ⟨refuses, error, run⟩
  · refine Or.inl ⟨takes, Prod.ext (congrArg Prod.fst run :) ?_⟩
    exact ext_of_store (congrArg Prod.snd run :) rfl
  · refine Or.inr ⟨refuses, error, Prod.ext (congrArg Prod.fst run :) ?_⟩
    exact ext_of_store (congrArg Prod.snd run :) rfl

theorem addClass_eq_ok : program.addClass definition = .ok added ↔
    program.Fits definition ∧ added = program.push definition := by
  unfold addClass
  rcases program.add_cases definition with ⟨fits, outcome⟩ | ⟨unfit, error, outcome⟩
  · simp [outcome, Except.map, fits, eq_comm]
  · simp [outcome, Except.map, unfit]

end Additions

theorem IsDistinct.empty (interner : Interner) : (empty interner).IsDistinct where
  types := List.nodup_nil
  methods := by simp [Program.empty]
  fields := by simp [Program.empty]

theorem IsDistinct.push {program : Program} {definition : ClassDef} (distinct : program.IsDistinct)
    (fits : program.Fits definition) : (program.push definition).IsDistinct := by
  refine ⟨?_, ?_, ?_⟩
  · simp only [definedTypes, List.map_append, List.map_cons, List.map_nil]
    refine List.nodup_append.mpr ⟨distinct.types, by simp, ?_⟩
    intro type defined other member same
    cases List.mem_singleton.mp member
    exact fits.undefined (same ▸ defined)
  · intro other member
    rcases List.mem_append.mp member with old | new
    · exact distinct.methods other old
    · cases List.mem_singleton.mp new
      exact fits.methods
  · intro other member
    rcases List.mem_append.mp member with old | new
    · exact distinct.fields other old
    · cases List.mem_singleton.mp new
      exact fits.fields

theorem IsDistinct.eq_of_type {program : Program} (distinct : program.IsDistinct)
    {left right : ClassDef} (leftMember : left ∈ program.classes)
    (rightMember : right ∈ program.classes) (same : left.type = right.type) : left = right :=
  List.inj_on_of_nodup_map distinct.types leftMember rightMember same

theorem IsDistinct.eq_of_method {program : Program} (distinct : program.IsDistinct)
    {holder : ClassDef} (member : holder ∈ program.classes) {left right : MethodDef}
    (leftMember : left ∈ holder.methods) (rightMember : right ∈ holder.methods)
    (same : left.method = right.method) : left = right :=
  List.inj_on_of_nodup_map (distinct.methods holder member) leftMember rightMember same

theorem IsDistinct.definition?_eq_some {program : Program} (distinct : program.IsDistinct)
    {type : TypeId} {definition : ClassDef} :
    program.definition? type = some definition ↔
      definition ∈ program.classes ∧ definition.type = type := by
  have reversed : (program.classes.reverse.map (·.type)).Nodup := by
    rw [List.map_reverse, List.nodup_reverse]
    exact distinct.types
  rw [definition?_eq_find?, Keyed.find?_eq_some_iff reversed, List.mem_reverse]

theorem IsDistinct.lookup_index_eq_some {program : Program} (distinct : program.IsDistinct)
    {type : TypeId} {place : Nat} :
    program.index.lookup type = some place ↔ ∃ definition,
      program.classes[place]? = some definition ∧ definition.type = type := by
  have listed : (∃ definition, program.classes[place]? = some definition ∧ definition.type = type) ↔
      program.definedTypes[place]? = some type := by
    rw [definedTypes, List.getElem?_map, Option.map_eq_some_iff]
  rw [listed]
  constructor
  · intro found
    rw [program.indexed] at found
    exact type_of_lookup_places found
  · intro stands
    cases found : program.index.lookup type with
    | none => exact absurd (List.mem_of_getElem? stands) (lookup_index_eq_none.mp found)
    | some other =>
        rw [program.indexed] at found
        have alike := type_of_lookup_places found
        obtain ⟨bound, -⟩ := List.getElem?_eq_some_iff.mp stands
        exact congrArg some ((List.getElem?_inj bound distinct.types).mp (stands.trans alike.symm)).symm

end Shrinker.Program
