import Shrinker.Program.Hierarchy

namespace Shrinker

open Reference Program

namespace Program

/-- Where the class of each type stands. The class that was added last comes first. -/
def places (classes : List ClassDef) : List (TypeId × Nat) :=
  (classes.map (·.type)).zipIdx.reverse

theorem places_append (classes : List ClassDef) (definition : ClassDef) :
    places (classes ++ [definition]) = (definition.type, classes.length) :: places classes := by
  simp [places, List.zipIdx_append]

theorem type_of_lookup_places {classes : List ClassDef} {type : TypeId} {place : Nat}
    (found : (places classes).lookup type = some place) :
    (classes.map (·.type))[place]? = some type := by
  obtain ⟨before, after, split, -⟩ := List.lookup_eq_some_iff.mp found
  have listed : (type, place) ∈ (classes.map (·.type)).zipIdx := by
    rw [← List.mem_reverse, ← places, split]
    exact List.mem_append_right before List.mem_cons_self
  exact List.mem_zipIdx_iff_getElem?.mp listed

/-- What additions change. In the middle of one the index is ahead of the classes. -/
structure Store where
  classes : List ClassDef
  index : List (TypeId × Nat)
  hierarchy : Hierarchy

end Program

structure Program extends Program.Store where
  interner : Interner
  index := Program.places classes
  indexed : index = Program.places classes := by rfl

namespace Program

inductive AddError where
  | duplicateClass (type : String)
  | duplicateMember (holder member : String)
  deriving DecidableEq, Repr

def AddError.message : AddError → String
  | duplicateClass type => s!"Duplicate class definition {type}"
  | duplicateMember holder member => s!"Duplicate member {member} in {holder}"

def empty (interner : Interner) : Program where
  interner := interner
  classes := []
  hierarchy := { root := .object }

def definition? (program : Program) (type : TypeId) : Option ClassDef := do
  program.classes[← program.index.lookup type]?

def definedTypes (program : Program) : List TypeId :=
  program.classes.map (·.type)

def programClasses (program : Program) : List ClassDef :=
  program.classes.filter (·.isProgram)

def isInterface (program : Program) (type : TypeId) : Bool :=
  (program.definition? type).any (·.isInterface)

def firstRepeated? {α : Type} [DecidableEq α] (seen : List α) : List α → Option α
  | [] => none
  | entry :: rest => if entry ∈ seen then some entry else firstRepeated? (entry :: seen) rest

/-- Adds a class in place. All that can be refused is looked at before anything changes. -/
def Store.add (interner : Interner) (definition : ClassDef) :
    ExceptT AddError (StateM Store) Unit := do
  let holder := interner.typeText definition.type
  if ((← get).index.lookup definition.type).isSome then
    throw (.duplicateClass holder)
  if let some method := firstRepeated? [] (definition.methods.map (·.method)) then
    throw (.duplicateMember holder (interner.methodText method))
  if let some field := firstRepeated? [] (definition.fields.map (·.field)) then
    throw (.duplicateMember holder (interner.fieldText field))
  modify fun store => { store with hierarchy := store.hierarchy.addClass definition }
  modify fun store =>
    { store with index := (definition.type, store.classes.length) :: store.index }
  modify fun store => { store with classes := store.classes ++ [definition] }

def Store.Takes (store : Store) (definition : ClassDef) : Prop :=
  store.index.lookup definition.type = none ∧
    firstRepeated? [] (definition.methods.map (·.method)) = none ∧
    firstRepeated? [] (definition.fields.map (·.field)) = none

theorem Store.add_cases (store : Store) (interner : Interner) (definition : ClassDef) :
    store.Takes definition ∧
        (add interner definition).run.run store =
          (.ok (),
            { classes := store.classes ++ [definition]
              index := (definition.type, store.classes.length) :: store.index
              hierarchy := store.hierarchy.addClass definition }) ∨
      ¬store.Takes definition ∧
        ∃ error, (add interner definition).run.run store = (.error error, store) := by
  have read (next : Store → ExceptT AddError (StateM Store) Unit) :
      (get >>= next).run.run store = (next store).run.run store := rfl
  unfold Takes add
  dsimp only
  rw [read]
  cases store.index.lookup definition.type with
  | some place => exact Or.inr ⟨by simp, .duplicateClass _, rfl⟩
  | none =>
      cases firstRepeated? [] (definition.methods.map (·.method)) with
      | some method => exact Or.inr ⟨by simp, .duplicateMember _ _, rfl⟩
      | none =>
          cases firstRepeated? [] (definition.fields.map (·.field)) with
          | some field => exact Or.inr ⟨by simp, .duplicateMember _ _, rfl⟩
          | none => exact Or.inl ⟨⟨rfl, rfl, rfl⟩, rfl⟩

theorem Store.index_add {store : Store} (indexed : store.index = places store.classes)
    (interner : Interner) (definition : ClassDef) :
    ((add interner definition).run.run store).2.index =
      places ((add interner definition).run.run store).2.classes := by
  rcases store.add_cases interner definition with ⟨-, taken⟩ | ⟨-, error, refused⟩
  · rw [taken, places_append, ← indexed]
  · rw [refused]
    exact indexed

/-- Adds a class, and gives the program as it is afterwards whether or not the class was refused. -/
def add (program : Program) (definition : ClassDef) : Except AddError Unit × Program :=
  let outcome := (Store.add program.interner definition).run.run program.toStore
  (outcome.1,
    { toStore := outcome.2
      interner := program.interner
      indexed := Store.index_add program.indexed program.interner definition })

def addClass (program : Program) (definition : ClassDef) : Except AddError Program :=
  let outcome := program.add definition
  outcome.1.map fun _ => outcome.2

def Store.replaced (store : Store) (changed : ClassDef) : List ClassDef :=
  match store.index.lookup changed.type with
  | some place => store.classes.set place changed
  | none => store.classes

theorem Store.places_replaced {store : Store} (indexed : store.index = places store.classes)
    (changed : ClassDef) : places (store.replaced changed) = places store.classes := by
  unfold replaced
  split
  · rename_i place found
    rw [indexed] at found
    obtain ⟨_, same⟩ := List.getElem?_eq_some_iff.mp (type_of_lookup_places found)
    rw [places, List.map_set, ← same, List.set_getElem_self]
    rfl
  · rfl

def replace (program : Program) (changed : ClassDef) : Program :=
  { program with
    classes := program.replaced changed
    indexed := program.indexed.trans (Store.places_replaced program.indexed changed).symm }

/-- Changes the class of a type in its place. A change has to keep the type. -/
def mapClass (program : Program) (type : TypeId) (change : ClassDef → ClassDef) : Program :=
  match program.definition? type with
  | some definition => program.replace (change definition)
  | none => program

end Program

end Shrinker
