import Shrinker.Proofs.Lens.Bodies

namespace Shrinker.Lens

open Bytecode Reference Program Liveness

inductive Request where
  | method (source target : MethodId) (change : Change)
  | field (source target : FieldId) (change : Change)
  deriving DecidableEq, Repr

namespace Level

def record (level : Level) (interner : Interner) : Request → Except RecordError Level
  | .method source target change => level.recordMethod interner source target change
  | .field source target change => level.recordField interner source target change

def attempt (interner : Interner) (level : Level) (request : Request) : Level :=
  (level.record interner request).toOption.getD level

def written (interner : Interner) (name : String) (requests : List Request) : Level :=
  requests.foldl (attempt interner) { name }

end Level

/-- Levels have been written and published, each on a lens that was there before. -/
inductive IsPublished (interner : Interner) : Lens → Prop where
  | identity : IsPublished interner .identity
  | publish {lens : Lens} (older : IsPublished interner lens) (name : String)
      (requests : List Request) :
      IsPublished interner (lens.publish (.written interner name requests))

/-- No entry leads from or to an initializer. -/
def Level.SparesInitializers (interner : Interner) (level : Level) : Prop :=
  ∀ entry ∈ level.methods,
    interner.isInitializer entry.1 = false ∧ interner.isInitializer entry.2.target = false

section Levels

variable {interner : Interner} {level : Level}

theorem Level.SparesInitializers.attempt (spares : level.SparesInitializers interner)
    (request : Request) : (level.attempt interner request).SparesInitializers interner := by
  unfold Level.attempt
  cases recorded : level.record interner request with
  | error cause => exact spares
  | ok extended =>
      cases request with
      | method source target change =>
          obtain ⟨ordinarySource, ordinaryTarget, methods, accepted, rfl⟩ :=
            Level.recordMethod_eq_ok.mp recorded
          obtain ⟨-, -, rfl⟩ := Entries.record_eq_ok.mp accepted
          intro entry listed
          rcases List.mem_append.mp listed with old | new
          · exact spares entry old
          · cases List.mem_singleton.mp new
            exact ⟨ordinarySource, ordinaryTarget⟩
      | field source target change =>
          obtain ⟨fields, -, rfl⟩ := Level.recordField_eq_ok.mp recorded
          exact spares

theorem Level.SparesInitializers.foldl_attempt (spares : level.SparesInitializers interner)
    (requests : List Request) :
    (requests.foldl (Level.attempt interner) level).SparesInitializers interner := by
  induction requests generalizing level with
  | nil => exact spares
  | cons request requests ih => exact ih (spares.attempt request)

theorem Level.sparesInitializers_written (interner : Interner) (name : String)
    (requests : List Request) :
    (Level.written interner name requests).SparesInitializers interner := by
  apply Level.SparesInitializers.foldl_attempt
  intro entry listed
  cases listed

theorem IsPublished.sparesInitializers {lens : Lens} (published : lens.IsPublished interner) :
    ∀ level ∈ lens.levels, level.SparesInitializers interner := by
  induction published with
  | identity =>
      intro level listed
      cases listed
  | publish older name requests ih =>
      intro level listed
      rcases List.mem_append.mp listed with old | new
      · exact ih level old
      · cases List.mem_singleton.mp new
        exact Level.sparesInitializers_written interner name requests

end Levels

section Lookups

variable {α : Type} [DecidableEq α] {tables : List (Entries α)} {lookup : Lookup α}

theorem Lookup.settle_of_unknown (unknown : ∀ table ∈ tables, table.lookup lookup.target = none) :
    settle tables lookup = lookup := by
  rw [settle, sweep_of_unknown unknown]
  exact if_neg (Nat.lt_irrefl _)

theorem Lookup.left_sublist (tables : List (Entries α)) (lookup : Lookup α) :
    (sweep tables lookup).2.Sublist tables := by
  induction tables generalizing lookup with
  | nil => exact .slnil
  | cons table tables ih =>
      rw [sweep]
      split
      · exact (ih _).cons table
      · exact (ih _).cons_cons table

theorem Lookup.through_keeps (property : α → Prop) (start : property lookup.target)
    (kept : ∀ table ∈ tables, ∀ entry ∈ table, property entry.2.target) :
    property (through tables lookup).target := by
  by_cases moved : (through tables lookup).target = lookup.target
  · rw [moved]
    exact start
  · obtain ⟨table, member, source, entry, listed, -, same⟩ := exists_move moved
    rw [← same]
    exact kept table member _ listed

/-- What holds of the reference looked up and of all that the tables lead to holds of the reference
reached, however often the tables are gone through. -/
theorem Lookup.settle_keeps (property : α → Prop) (start : property lookup.target)
    (kept : ∀ table ∈ tables, ∀ entry ∈ table, property entry.2.target) :
    property (settle tables lookup).target := by
  induction tables, lookup using settle.induct with
  | case1 tables lookup progressed ih =>
      rw [settle, if_pos progressed]
      refine ih ?_ fun table left => kept table ((left_sublist tables lookup).subset left)
      rw [fst_sweep]
      exact through_keeps property start kept
  | case2 tables lookup idle =>
      rw [settle, if_neg idle, fst_sweep]
      exact through_keeps property start kept

end Lookups

section Initializers

variable {interner : Interner} {lens : Lens} {method : MethodId}

theorem lookupMethod_of_isInitializer
    (spares : ∀ level ∈ lens.levels, level.SparesInitializers interner)
    (initializer : interner.isInitializer method) : lens.lookupMethod method = .start method := by
  apply Lookup.settle_of_unknown
  intro table member
  obtain ⟨level, listed, rfl⟩ := List.mem_map.mp member
  rw [List.lookup_eq_none_iff]
  intro entry recorded
  simp only [Lookup.start, bne_iff_ne]
  rintro rfl
  rw [(spares level listed entry recorded).1] at initializer
  cases initializer

theorem not_isInitializer_lookupMethod
    (spares : ∀ level ∈ lens.levels, level.SparesInitializers interner)
    (ordinary : interner.isInitializer method = false) :
    interner.isInitializer (lens.lookupMethod method).target = false := by
  refine Lookup.settle_keeps (fun reached => interner.isInitializer reached = false) ordinary ?_
  intro table member entry recorded
  obtain ⟨level, listed, rfl⟩ := List.mem_map.mp member
  exact (spares level listed entry recorded).2

theorem applyInstruction_eq_invoke_iff
    (spares : ∀ level ∈ lens.levels, level.SparesInitializers interner)
    (initializer : interner.isInitializer method) (kind : InvokeKind)
    (instruction : StackInstruction) :
    lens.applyInstruction instruction = .invoke kind method ↔ instruction = .invoke kind method := by
  cases instruction with
  | invoke ownKind called =>
      cases ordinary : interner.isInitializer called with
      | true =>
          rw [applyInstruction, lookupMethod_of_isInitializer spares ordinary,
            Lookup.invokeKind_start]
          rfl
      | false =>
          have apart (other : MethodId) (otherOrdinary : interner.isInitializer other = false) :
              other ≠ method := by
            rintro rfl
            rw [otherOrdinary] at initializer
            cases initializer
          have reached := not_isInitializer_lookupMethod spares ordinary
          simp [applyInstruction, apart _ reached, apart _ ordinary]
  | _ => simp [applyInstruction]

end Initializers

def readings : Code → List (Option StackInstruction)
  | .stack instructions => instructions.map some
  | .register body => body.instructions.map (symbolic? body.references)

theorem readings_applyCode {lens : Lens} {code changed : Code}
    (applied : lens.applyCode code = .ok changed) :
    readings changed = (readings code).map (Option.map lens.applyInstruction) := by
  cases code with
  | stack instructions =>
      rw [applyCode_stack] at applied
      cases applied
      simp only [readings, List.map_map]
      rfl
  | register body =>
      obtain ⟨final, rfl, seen⟩ := applyCode_register_eq_ok lens body applied
      simp only [readings, List.map_map]
      exact seen.map_eq fun _ _ call => call.symbolic? seen.types seen.fields seen.methods

def CallsAt (code : Code) (place : Nat) (kind : InvokeKind) (method : MethodId) : Prop :=
  (readings code)[place]? = some (some (.invoke kind method))

theorem callsAt_applyCode_iff {interner : Interner} {lens : Lens}
    (spares : ∀ level ∈ lens.levels, level.SparesInitializers interner) {code changed : Code}
    (applied : lens.applyCode code = .ok changed) (place : Nat) (kind : InvokeKind)
    {method : MethodId} (initializer : interner.isInitializer method) :
    CallsAt changed place kind method ↔ CallsAt code place kind method := by
  rw [CallsAt, CallsAt, readings_applyCode applied, List.getElem?_map]
  rcases (readings code)[place]? with _ | _ | instruction
  · simp
  · simp
  · simpa using applyInstruction_eq_invoke_iff spares initializer kind instruction

/-- Through a published lens an initializer is itself, with nothing done to it, and no other method is an
initializer. A body that is rewritten calls initializers where it did, each in the same way. -/
theorem published_spares_initializers {interner : Interner} {lens : Lens}
    (published : lens.IsPublished interner) :
    (∀ method, interner.isInitializer method → lens.lookupMethod method = ⟨method, .empty⟩) ∧
      (∀ method, interner.isInitializer method = false →
        interner.isInitializer (lens.lookupMethod method).target = false) ∧
      ∀ code changed, lens.applyCode code = .ok changed →
        ∀ place kind method, interner.isInitializer method →
          (CallsAt changed place kind method ↔ CallsAt code place kind method) := by
  have spares := published.sparesInitializers
  refine ⟨fun method => lookupMethod_of_isInitializer spares,
    fun method => not_isInitializer_lookupMethod spares, ?_⟩
  intro code changed applied place kind method initializer
  exact callsAt_applyCode_iff spares applied place kind initializer

namespace Guarded

/-- The references `LA;-><init>()V` and `LA;->run()V`. -/
def interner : Interner :=
  let (holder, interner) := Interner.standard.internType "LA;"
  let (proto, interner) := interner.internProto ⟨[], .void⟩
  let (run, interner) := interner.internSymbol "run"
  let (_, interner) := interner.internMethod ⟨holder, .constructor, proto⟩
  (interner.internMethod ⟨holder, run, proto⟩).2

def requests : List Request :=
  [.method ⟨1⟩ ⟨1⟩ .publicized, .method ⟨2⟩ ⟨1⟩ .retargeted, .method ⟨2⟩ ⟨2⟩ .publicized]

def lens : Lens :=
  identity.publish (.written interner "publicizer" requests)

def body : Code :=
  .stack [.invoke .direct ⟨1⟩, .invoke .direct ⟨2⟩]

def rewritten : Code :=
  .stack [.invoke .direct ⟨1⟩, .invoke .virtual ⟨2⟩]

end Guarded

open Guarded in
/-- Of two calls without dispatch the one of the constructor stays as it is. -/
theorem published_spares_initializers_guarded :
    lens.IsPublished interner ∧ lens.applyCode body = .ok rewritten ∧
      interner.isInitializer ⟨1⟩ ∧ lens.lookupMethod ⟨1⟩ = ⟨⟨1⟩, .empty⟩ ∧
      interner.isInitializer (lens.lookupMethod ⟨2⟩).target = false ∧
      (CallsAt rewritten 0 .direct ⟨1⟩ ↔ CallsAt body 0 .direct ⟨1⟩) := by
  have published : lens.IsPublished interner := .publish .identity "publicizer" requests
  have applied : lens.applyCode body = .ok rewritten := by
    decide +kernel
  have initializer : interner.isInitializer ⟨1⟩ = true := by
    decide
  have ordinary : interner.isInitializer ⟨2⟩ = false := by
    decide
  obtain ⟨same, apart, calls⟩ := published_spares_initializers published
  exact ⟨published, applied, initializer, same _ initializer, apart _ ordinary,
    calls body rewritten applied 0 .direct ⟨1⟩ initializer⟩

end Shrinker.Lens
