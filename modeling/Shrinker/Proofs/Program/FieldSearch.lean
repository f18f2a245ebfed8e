import Shrinker.Proofs.Program.Nearest

namespace Shrinker.Program

open Reference Collection DepthFirst

/-- No type is declared, interface by interface, above itself. -/
def HasAcyclicInterfaces (program : Program) : Prop :=
  ∀ type, ¬Relation.TransGen (fun lower upper => upper ∈ program.interfacesOf lower) type type

def IsNamesake (program : Program) (target : FieldRef) (definition : FieldDef) : Prop :=
  (program.interner.field definition.field).name = target.name ∧
    (program.interner.field definition.field).type = target.type

instance (program : Program) (target : FieldRef) : DecidablePred (program.IsNamesake target) :=
  fun _ => inferInstanceAs (Decidable (_ ∧ _))

/-- The recursion into a type ends with the outcome: its own fields first, then its interfaces in the
order of their declaration. -/
inductive RecursionWithin (program : Program) (target : FieldRef) :
    TypeId → Option FieldHit → Prop
  | undefined {type : TypeId} (missing : program.definition? type = none) :
      RecursionWithin program target type none
  | own {type : TypeId} {holder : ClassDef} {definition : FieldDef}
      (found : program.definition? type = some holder)
      (first : holder.fields.find? (program.IsNamesake target ·) = some definition) :
      RecursionWithin program target type (some ⟨holder, definition⟩)
  | above {type interface : TypeId} {holder : ClassDef} {before after : List TypeId} {hit : FieldHit}
      (found : program.definition? type = some holder)
      (lacks : holder.fields.find? (program.IsNamesake target ·) = none)
      (split : holder.interfaces = before ++ interface :: after)
      (earlier : ∀ other ∈ before, RecursionWithin program target other none)
      (here : RecursionWithin program target interface (some hit)) :
      RecursionWithin program target type (some hit)
  | nowhere {type : TypeId} {holder : ClassDef} (found : program.definition? type = some holder)
      (lacks : holder.fields.find? (program.IsNamesake target ·) = none)
      (others : ∀ interface ∈ holder.interfaces, RecursionWithin program target interface none) :
      RecursionWithin program target type none

/-- A type and its interfaces first, then the same from its superclass. -/
inductive Recursion (program : Program) (target : FieldRef) : TypeId → Option FieldHit → Prop
  | within {type : TypeId} {hit : FieldHit}
      (here : program.RecursionWithin target type (some hit)) :
      Recursion program target type (some hit)
  | above {type parent : TypeId} {outcome : Option FieldHit}
      (lacks : program.RecursionWithin target type none)
      (named : (program.definition? type).bind (·.super?) = some parent)
      (higher : Recursion program target parent outcome) : Recursion program target type outcome
  | nowhere {type : TypeId} (lacks : program.RecursionWithin target type none)
      (last : (program.definition? type).bind (·.super?) = none) :
      Recursion program target type none

def fieldIn? (program : Program) (target : FieldRef) (type : TypeId) : Option FieldHit :=
  (program.definition? type).bind (program.matchingField? target)

def fieldWithin? (program : Program) (target : FieldRef) (type : TypeId) : Option FieldHit :=
  (program.withInterfaces type).findSome? (program.matchingField? target)

section Interfaces

variable {program : Program} {target : FieldRef} {type : TypeId} {holder : ClassDef}

theorem matchingField?_eq (program : Program) (target : FieldRef) (holder : ClassDef) :
    program.matchingField? target holder =
      (holder.fields.find? (program.IsNamesake target ·)).map (⟨holder, ·⟩) := by
  rw [matchingField?]
  congr 2
  funext definition
  rw [Bool.eq_iff_iff, decide_eq_true_iff, Bool.and_eq_true, beq_iff_eq, beq_iff_eq, IsNamesake]

theorem fieldWithin?_eq (target : FieldRef) (type : TypeId) :
    program.fieldWithin? target type =
      (visit program.interfacesOf program.definedTypes [type]).findSome?
        (program.fieldIn? target) :=
  findSome?_filterMap_definition? _ _

theorem fieldWithin?_of_undefined (undefined : program.definition? type = none) :
    program.fieldWithin? target type = none := by
  rw [fieldWithin?_eq, visit, if_neg (definition?_eq_none.mp undefined), visit]
  rfl

theorem HasAcyclicInterfaces.not_reaches (acyclic : program.HasAcyclicInterfaces)
    {interface : TypeId} (edge : interface ∈ program.interfacesOf type) :
    ¬Reaches program.interfacesOf interface type :=
  fun back => acyclic type (Relation.TransGen.head' edge back)

theorem IsAcyclic.hasAcyclicInterfaces (acyclic : program.IsAcyclic) :
    program.HasAcyclicInterfaces := by
  intro type cycle
  refine acyclic type (Relation.TransGen.mono ?_ type type cycle)
  exact fun lower upper edge => interfacesOf_subset_parents lower edge

theorem HasAcyclicInterfaces.fieldWithin?_of_defined (acyclic : program.HasAcyclicInterfaces)
    (found : program.definition? type = some holder) :
    program.fieldWithin? target type = (program.matchingField? target holder).or
      (holder.interfaces.findSome? (program.fieldWithin? target)) := by
  have inside : type ∈ program.definedTypes := mem_definedTypes_iff.mpr ⟨holder, found⟩
  have interfaces : program.interfacesOf type = holder.interfaces := by
    rw [interfacesOf, found]
    rfl
  rw [fieldWithin?_eq, findSome?_visit_singleton sources_interfacesOf inside
    fun interface => acyclic.not_reaches, interfaces, fieldIn?, found, Option.bind_some]
  simp only [← fieldWithin?_eq]

theorem HasAcyclicInterfaces.eq_of_recursionWithin (acyclic : program.HasAcyclicInterfaces)
    {outcome : Option FieldHit} (ends : program.RecursionWithin target type outcome) :
    outcome = program.fieldWithin? target type := by
  induction ends with
  | undefined missing => rw [fieldWithin?_of_undefined missing]
  | own found first =>
      rw [acyclic.fieldWithin?_of_defined found, matchingField?_eq, first]
      rfl
  | @above _ interface _ before after hit found lacks split _ _ earlier here =>
      have inherited := List.findSome?_eq_some_iff.mpr
        ⟨before, interface, after, split, here.symm, fun other member => (earlier other member).symm⟩
      rw [acyclic.fieldWithin?_of_defined found, matchingField?_eq, lacks, inherited]
      rfl
  | nowhere found lacks _ others =>
      have inherited := List.findSome?_eq_none_iff.mpr
        fun interface named => (others interface named).symm
      rw [acyclic.fieldWithin?_of_defined found, matchingField?_eq, lacks, inherited]
      rfl

theorem HasAcyclicInterfaces.recursionWithin (acyclic : program.HasAcyclicInterfaces)
    (target : FieldRef) (type : TypeId) :
    program.RecursionWithin target type (program.fieldWithin? target type) := by
  induction size : (visit program.interfacesOf program.definedTypes [type]).length
    using Nat.strong_induction_on generalizing type with
  | _ bound ih =>
      cases found : program.definition? type with
      | none =>
          rw [fieldWithin?_of_undefined found]
          exact .undefined found
      | some holder =>
          have deeper (interface : TypeId) (named : interface ∈ holder.interfaces) :
              program.RecursionWithin target interface (program.fieldWithin? target interface) := by
            have edge := mem_interfacesOf.mpr ⟨holder, found, named⟩
            have smaller := length_visit_lt sources_interfacesOf edge (acyclic.not_reaches edge)
            exact ih _ (size ▸ smaller) interface rfl
          rw [acyclic.fieldWithin?_of_defined found, matchingField?_eq]
          cases own : holder.fields.find? (program.IsNamesake target ·) with
          | some definition => exact .own found own
          | none =>
              rw [Option.map_none, Option.none_or]
              cases inherited : holder.interfaces.findSome? (program.fieldWithin? target) with
              | none =>
                  refine .nowhere found own fun interface named => ?_
                  exact List.findSome?_eq_none_iff.mp inherited interface named ▸
                    deeper interface named
              | some hit =>
                  obtain ⟨before, interface, after, split, here, earlier⟩ :=
                    List.findSome?_eq_some_iff.mp inherited
                  refine .above found own split (fun other member => ?_) ?_
                  · exact earlier other member ▸ deeper other (by simp [split, member])
                  · exact here ▸ deeper interface (by simp [split])

theorem HasAcyclicInterfaces.recursionWithin_iff (acyclic : program.HasAcyclicInterfaces)
    {outcome : Option FieldHit} :
    program.RecursionWithin target type outcome ↔ program.fieldWithin? target type = outcome := by
  constructor
  · intro ends
    exact (acyclic.eq_of_recursionWithin ends).symm
  · rintro rfl
    exact acyclic.recursionWithin target type

end Interfaces

section Line

variable {program : Program} {target : FieldRef} {type parent : TypeId} {holder : ClassDef}
  {distance : Nat}

theorem resolveField?_eq (program : Program) (field : FieldId) :
    program.resolveField? field =
      (program.superWalk (program.interner.field field).holder).findSome? fun above =>
        program.fieldWithin? (program.interner.field field) above.type :=
  rfl

/-- Neither the classes of the line nor what they inherit have the field. -/
def IsBarren (program : Program) (target : FieldRef) (type : TypeId) : Prop :=
  ∀ distance holder, program.ancestor? type distance = some holder →
    program.fieldWithin? target holder.type = none

theorem IsBarren.here (barren : program.IsBarren target type) :
    program.fieldWithin? target type = none := by
  cases found : program.definition? type with
  | none => exact fieldWithin?_of_undefined found
  | some holder => exact (mem_of_definition? found).2 ▸ barren 0 holder found

theorem IsBarren.above (barren : program.IsBarren target type)
    (named : (program.definition? type).bind (·.super?) = some parent) :
    program.IsBarren target parent := by
  intro distance other higher
  exact barren (distance + 1) other ((ancestor?_of_super named distance).trans higher)

theorem HasAcyclicInterfaces.recursion_of_nearest (acyclic : program.HasAcyclicInterfaces)
    {hit : FieldHit} (above : program.ancestor? type distance = some holder)
    (here : program.fieldWithin? target holder.type = some hit)
    (others : ∀ nearer < distance, ∀ other, program.ancestor? type nearer = some other →
      program.fieldWithin? target other.type = none) :
    program.Recursion target type (some hit) := by
  induction distance generalizing type with
  | zero =>
      rw [(mem_of_definition? above).2] at here
      exact .within (acyclic.recursionWithin_iff.mpr here)
  | succ distance ih =>
      obtain ⟨parent, edge, higher⟩ := ancestor?_succ.mp above
      have named := Option.mem_toList.mp edge
      obtain ⟨definition, found, -⟩ := mem_superOf.mp edge
      have missing : program.fieldWithin? target type = none :=
        (mem_of_definition? found).2 ▸ others 0 (Nat.succ_pos distance) definition found
      refine .above (acyclic.recursionWithin_iff.mpr missing) named (ih higher ?_)
      intro nearer closer other below
      exact others (nearer + 1) (by omega) other ((ancestor?_of_super named nearer).trans below)

theorem HasAcyclicInterfaces.recursion_of_end (acyclic : program.HasAcyclicInterfaces)
    (barren : program.IsBarren target type) (ends : program.ancestor? type distance = none) :
    program.Recursion target type none := by
  have lacks := acyclic.recursionWithin_iff.mpr barren.here
  induction distance generalizing type with
  | zero =>
      have undefined : program.definition? type = none := ends
      exact .nowhere lacks (by rw [undefined, Option.bind_none])
  | succ distance ih =>
      cases named : (program.definition? type).bind (·.super?) with
      | none => exact .nowhere lacks named
      | some parent =>
          have higher := barren.above named
          refine .above lacks named (ih higher ?_ (acyclic.recursionWithin_iff.mpr higher.here))
          exact (ancestor?_of_super named distance).symm.trans ends

theorem HasAcyclicInterfaces.recursion_unique (acyclic : program.HasAcyclicInterfaces)
    {left right : Option FieldHit} (one : program.Recursion target type left)
    (other : program.Recursion target type right) : left = right := by
  have agree {type : TypeId} {left right : Option FieldHit}
      (one : program.RecursionWithin target type left)
      (other : program.RecursionWithin target type right) : left = right :=
    (acyclic.recursionWithin_iff.mp one).symm.trans (acyclic.recursionWithin_iff.mp other)
  induction one with
  | within here =>
      cases other with
      | within again => exact agree here again
      | above lacks => cases agree here lacks
      | nowhere lacks => cases agree here lacks
  | above lacks named _ ih =>
      cases other with
      | within here => cases agree lacks here
      | above _ again higher =>
          cases named.symm.trans again
          exact ih higher
      | nowhere _ last => cases named.symm.trans last
  | nowhere lacks last =>
      cases other with
      | within here => cases agree lacks here
      | above _ named _ => cases last.symm.trans named
      | nowhere => rfl

theorem HasAcyclicInterfaces.exists_end_of_recursion (acyclic : program.HasAcyclicInterfaces)
    {outcome : Option FieldHit} (ends : program.Recursion target type outcome)
    (barren : program.IsBarren target type) : ∃ distance, program.ancestor? type distance = none := by
  induction ends with
  | within here => cases barren.here.symm.trans (acyclic.recursionWithin_iff.mp here)
  | above _ named _ ih =>
      obtain ⟨distance, last⟩ := ih (barren.above named)
      exact ⟨distance + 1, (ancestor?_of_super named distance).trans last⟩
  | nowhere _ last => exact ⟨1, ancestor?_of_top last 0⟩

theorem HasAcyclicInterfaces.recursion_iff (acyclic : program.HasAcyclicInterfaces)
    (field : FieldId) :
    (∀ outcome, program.Recursion (program.interner.field field)
        (program.interner.field field).holder outcome ↔ program.resolveField? field = outcome) ∨
      (∀ distance,
        (program.ancestor? (program.interner.field field).holder distance).isSome) ∧
      program.resolveField? field = none ∧
      ∀ outcome, ¬program.Recursion (program.interner.field field)
        (program.interner.field field).holder outcome := by
  have settled {hit? : Option FieldHit} (ends : program.Recursion (program.interner.field field)
      (program.interner.field field).holder hit?) (outcome : Option FieldHit) :
      program.Recursion (program.interner.field field)
        (program.interner.field field).holder outcome ↔ hit? = outcome :=
    ⟨acyclic.recursion_unique ends, fun same => same ▸ ends⟩
  rw [resolveField?_eq]
  cases result : (program.superWalk (program.interner.field field).holder).findSome? fun above =>
    program.fieldWithin? (program.interner.field field) above.type with
  | some hit =>
      obtain ⟨distance, holder, above, here, others⟩ := exists_nearest_of_findSome?_superWalk result
      exact Or.inl (settled (acyclic.recursion_of_nearest above here others))
  | none =>
      have barren := findSome?_superWalk_eq_none.mp result
      by_cases ends : ∃ distance,
          program.ancestor? (program.interner.field field).holder distance = none
      · obtain ⟨distance, last⟩ := ends
        exact Or.inl (settled (acyclic.recursion_of_end barren last))
      · refine Or.inr ⟨fun distance => ?_, rfl, fun outcome recursion => ends ?_⟩
        · exact Option.isSome_iff_ne_none.mpr fun last => ends ⟨distance, last⟩
        · exact acyclic.exists_end_of_recursion recursion barren

end Line

/-- The loops of the search end: for each type the one through its interfaces, and the one up the line that
asks each class for what this one finds. -/
def FieldSearchEnds (program : Program) (target : FieldRef) (outcome : Option FieldHit) : Prop :=
  ∃ within : TypeId → Option FieldHit,
    (∀ type, Search program.interfacesOf (program.fieldIn? target) [] [type] (within type)) ∧
      Search program.superOf within [] [target.holder] outcome

def DeclaresField (program : Program) (target : FieldRef) (holder : ClassDef) : Prop :=
  ∃ definition ∈ holder.fields, program.IsNamesake target definition

section Loops

variable {program : Program} {target : FieldRef}

theorem search_fieldWithin? (type : TypeId) :
    Search program.interfacesOf (program.fieldIn? target) [] [type]
      (program.fieldWithin? target type) := by
  rw [fieldWithin?_eq]
  refine search_visit (fun met undefined => ?_) [type]
  rw [fieldIn?, interfacesOf, definition?_eq_none.mpr undefined]
  exact ⟨rfl, rfl⟩

theorem search_superWalk (type : TypeId) :
    Search program.superOf (program.fieldWithin? target) [] [type]
      ((program.superWalk type).findSome? fun above => program.fieldWithin? target above.type) := by
  have asked (met : TypeId) :
      ((program.definition? met).bind fun above => program.fieldWithin? target above.type) =
        program.fieldWithin? target met := by
    cases found : program.definition? met with
    | none => rw [fieldWithin?_of_undefined found, Option.bind_none]
    | some definition => rw [Option.bind_some, (mem_of_definition? found).2]
  rw [superWalk_eq, findSome?_filterMap_definition?]
  simp only [asked]
  refine search_visit (fun met undefined => ?_) [type]
  have missing := definition?_eq_none.mpr undefined
  refine ⟨fieldWithin?_of_undefined missing, ?_⟩
  rw [superOf, missing]
  rfl

theorem matchingField?_eq_none {holder : ClassDef} :
    program.matchingField? target holder = none ↔ ¬program.DeclaresField target holder := by
  rw [matchingField?_eq, Option.map_eq_none_iff, List.find?_eq_none]
  simp [DeclaresField]

theorem fieldWithin?_eq_none {type : TypeId} :
    program.fieldWithin? target type = none ↔
      ∀ above holder, Reaches program.interfacesOf type above →
        program.definition? above = some holder → ¬program.DeclaresField target holder := by
  rw [fieldWithin?_eq, findSome?_visit_eq_none_iff sources_interfacesOf]
  simp only [List.mem_singleton, forall_eq, fieldIn?, Option.bind_eq_none_iff,
    matchingField?_eq_none]
  constructor
  · intro barren above holder path found
    exact barren above (mem_definedTypes_iff.mpr ⟨holder, found⟩) path holder found
  · intro barren above _ path holder found
    exact barren above holder path found

theorem resolveField?_eq_none {field : FieldId} :
    program.resolveField? field = none ↔
      ∀ distance holder,
        program.ancestor? (program.interner.field field).holder distance = some holder →
          ∀ above definition, Reaches program.interfacesOf holder.type above →
            program.definition? above = some definition →
              ¬program.DeclaresField (program.interner.field field) definition := by
  rw [resolveField?_eq, findSome?_superWalk_eq_none]
  simp only [fieldWithin?_eq_none]

end Loops

/-- The search for a field ends. Without cycles among interfaces it finds what recursion finds, unless the
recursion runs round a cycle of superclasses, where there is nothing to find. With or without cycles it
finds nothing exactly if no class of the line, and nothing that these inherit, declares such a field. -/
theorem resolveField_as_recursion (program : Program) (field : FieldId) :
    FieldSearchEnds program (program.interner.field field) (program.resolveField? field) ∧
      (program.HasAcyclicInterfaces →
        (∀ outcome, program.Recursion (program.interner.field field)
            (program.interner.field field).holder outcome ↔ program.resolveField? field = outcome) ∨
          (∀ distance,
            (program.ancestor? (program.interner.field field).holder distance).isSome) ∧
          program.resolveField? field = none ∧
          ∀ outcome, ¬program.Recursion (program.interner.field field)
            (program.interner.field field).holder outcome) ∧
      (program.resolveField? field = none ↔
        ∀ distance holder,
          program.ancestor? (program.interner.field field).holder distance = some holder →
            ∀ above definition, Reaches program.interfacesOf holder.type above →
              program.definition? above = some definition →
                ¬program.DeclaresField (program.interner.field field) definition) := by
  refine ⟨⟨program.fieldWithin? (program.interner.field field), search_fieldWithin?, ?_⟩, ?_,
    resolveField?_eq_none⟩
  · exact search_superWalk _
  · exact fun acyclic => acyclic.recursion_iff field

namespace Diamond

/-- The types `LD;`, `LA;`, `LB;`, `LC;` and `LT;` with a field `count` in all but `LA;`. -/
def interner : Interner :=
  let (shared, interner) := Interner.standard.internType "LD;"
  let (_, interner) := interner.internType "LA;"
  let (second, interner) := interner.internType "LB;"
  let (base, interner) := interner.internType "LC;"
  let (derived, interner) := interner.internType "LT;"
  let (count, interner) := interner.internSymbol "count"
  let (_, interner) := interner.internField ⟨shared, count, .bool⟩
  let (_, interner) := interner.internField ⟨second, count, .bool⟩
  let (_, interner) := interner.internField ⟨base, count, .bool⟩
  (interner.internField ⟨derived, count, .bool⟩).2

def sharedCount : FieldDef :=
  { field := ⟨1⟩, access := { isPublic := true, isStatic := true } }

def shared : ClassDef where
  type := ⟨5⟩
  origin := .program
  access := { isPublic := true, isInterface := true, isAbstract := true }
  fields := [sharedCount]

def first : ClassDef where
  type := ⟨6⟩
  origin := .program
  access := { isPublic := true, isInterface := true, isAbstract := true }
  interfaces := [⟨5⟩]

def second : ClassDef where
  type := ⟨7⟩
  origin := .program
  access := { isPublic := true, isInterface := true, isAbstract := true }
  interfaces := [⟨5⟩]
  fields := [{ field := ⟨2⟩, access := { isPublic := true, isStatic := true } }]

def base : ClassDef where
  type := ⟨8⟩
  origin := .program
  super? := some .object
  fields := [{ field := ⟨3⟩, access := { isPublic := true } }]

def derived : ClassDef :=
  { type := ⟨9⟩, origin := .program, super? := some ⟨8⟩, interfaces := [⟨6⟩, ⟨7⟩] }

def program : Program where
  interner := interner
  classes := [shared, first, second, base, derived]
  hierarchy := [shared, first, second, base, derived].foldl Hierarchy.addClass { root := .object }

theorem isAcyclic : program.IsAcyclic := by
  refine isAcyclic_of_rank TypeId.index ?_
  intro below above edge
  obtain ⟨definition, found, named⟩ := mem_parents.mp edge
  obtain ⟨member, rfl⟩ := mem_of_definition? found
  simp only [program, List.mem_cons, List.not_mem_nil, or_false] at member
  rcases member with rfl | rfl | rfl | rfl | rfl
  · simp [shared] at named
  · obtain rfl : above = ⟨5⟩ := by simpa [first] using named
    decide
  · obtain rfl : above = ⟨5⟩ := by simpa [second] using named
    decide
  · obtain rfl : .object = above := by simpa [base] using named
    decide
  · obtain rfl | rfl | rfl : ⟨8⟩ = above ∨ above = ⟨6⟩ ∨ above = ⟨7⟩ := by
      simpa [derived] using named
    · decide
    · decide
    · decide

theorem resolveField : program.resolveField? ⟨4⟩ = some ⟨shared, sharedCount⟩ := by
  cbv

end Diamond

open Diamond in
/-- The field above the first interface comes before that of the second one and of the superclass. -/
theorem resolveField_as_recursion_diamond :
    program.HasAcyclicInterfaces ∧ program.resolveField? ⟨4⟩ = some ⟨shared, sharedCount⟩ ∧
      program.Recursion (program.interner.field ⟨4⟩) (program.interner.field ⟨4⟩).holder
        (some ⟨shared, sharedCount⟩) := by
  have acyclic := isAcyclic.hasAcyclicInterfaces
  refine ⟨acyclic, resolveField, ?_⟩
  obtain ⟨-, recursion, -⟩ := resolveField_as_recursion program ⟨4⟩
  rcases recursion acyclic with same | ⟨-, missing, -⟩
  · exact (same _).mpr resolveField
  · exact absurd (missing.symm.trans resolveField) nofun

end Shrinker.Program
