import Shrinker.Proofs.Reference.Within

namespace Shrinker.Reference

namespace Interner

def readMethod? (text : String) : Option (String × String × String) := do
  let (holder, member) ← splitArrow? text.toList
  let name := member.takeWhile (· != '(')
  if Descriptor.isTypeChars holder && !name.isEmpty then
    some (.ofList holder, .ofList name, .ofList (member.dropWhile (· != '(')))
  else
    none

def readField? (text : String) : Option (String × String × String) := do
  let (holder, member) ← splitArrow? text.toList
  let name := member.takeWhile (· != ':')
  match member.dropWhile (· != ':') with
  | [] => none
  | _ :: type =>
      if Descriptor.isTypeChars holder && !name.isEmpty && Descriptor.isTypeChars type then
        some (.ofList holder, .ofList name, .ofList type)
      else
        none

theorem parseMethod?_eq (interner : Interner) (text : String) :
    interner.parseMethod? text = (readMethod? text).bind fun (holder, name, descriptor) =>
      interner.internMethodParts? holder name descriptor := by
  unfold parseMethod? readMethod?
  cases splitArrow? text.toList with
  | none => rfl
  | some parts =>
      simp only [bind, Option.bind_some]
      split <;> rfl

theorem parseField?_eq (interner : Interner) (text : String) :
    interner.parseField? text = (readField? text).map fun (holder, name, type) =>
      interner.internFieldParts holder name type := by
  unfold parseField? readField?
  cases splitArrow? text.toList with
  | none => rfl
  | some parts =>
      simp only [bind, Option.bind_some]
      cases parts.2.dropWhile (· != ':') with
      | nil => rfl
      | cons colon type =>
          dsimp only
          split <;> rfl

/-- A reference to be added, by the numbers of its parts or by texts. -/
inductive Request where
  | symbol (text : String)
  | type (descriptor : String)
  | proto (entry : Proto)
  | method (entry : MethodRef)
  | field (entry : FieldRef)
  | descriptor (text : String)
  | methodParts (holder name descriptor : String)
  | fieldParts (holder name type : String)
  | methodText (text : String)
  | fieldText (text : String)

namespace Request

def IsKnown (interner : Interner) : Request → Prop
  | proto entry => entry.IsKnown interner
  | method entry => entry.IsKnown interner
  | field entry => entry.IsKnown interner
  | _ => True

/-- The reference that is asked for, written out; none where the texts describe none. -/
def spelling? (interner : Interner) : Request → Option Spelling
  | symbol text => some (.symbol text)
  | type text => some (.type text)
  | proto entry => (interner.spellProto? entry).map .proto
  | method entry => interner.spellMethod? entry
  | field entry => interner.spellField? entry
  | descriptor text => (describedProto? text).map .proto
  | methodParts holder name parts => (describedProto? parts).map (.method holder name)
  | fieldParts holder name text => some (.field holder name text)
  | methodText text =>
      (readMethod? text).bind fun (holder, name, parts) =>
        (describedProto? parts).map (.method holder name)
  | fieldText text =>
      (readField? text).map fun (holder, name, text) => .field holder name text

def attempt? (interner : Interner) : Request → Option (Item × Interner)
  | symbol text => some ((interner.internSymbol text).map .symbol id)
  | type text => some ((interner.internType text).map .type id)
  | proto entry => some ((interner.internProto entry).map .proto id)
  | method entry => some ((interner.internMethod entry).map .method id)
  | field entry => some ((interner.internField entry).map .field id)
  | descriptor text => (interner.internDescriptor? text).map (·.map .proto id)
  | methodParts holder name parts =>
      (interner.internMethodParts? holder name parts).map (·.map .method id)
  | fieldParts holder name text =>
      some ((interner.internFieldParts holder name text).map .field id)
  | methodText text => (interner.parseMethod? text).map (·.map .method id)
  | fieldText text => (interner.parseField? text).map (·.map .field id)

end Request

inductive Meets (interner : Interner) : Option (Item × Interner) → Option Spelling → Prop
  | added {step : Item × Interner} {spelling : Spelling}
      (adds : Adds spell? spelling interner step) : Meets interner (some step) (some spelling)
  | refused : Meets interner none none

section Requests

variable {interner : Interner}

theorem Adds.map {ι σ : Type} {spells? : Interner → ι → Option σ} {spelling : σ}
    {step : ι × Interner} (adds : Adds spells? spelling interner step) {item : ι → Item}
    {whole : σ → Spelling}
    (spells : ∀ (grown : Interner) id, grown.spell? (item id) = (spells? grown id).map whole) :
    Adds spell? (whole spelling) interner (step.map item id) := by
  refine ⟨adds.grows, adds.within, ?_⟩
  exact (spells step.2 step.1).trans (congrArg (Option.map whole) adds.spelled)

theorem meets_internDescriptor? (within : interner.IsWithin) (descriptor : String) :
    Meets interner ((interner.internDescriptor? descriptor).map (·.map .proto id))
      ((describedProto? descriptor).map .proto) := by
  cases described : describedProto? descriptor with
  | none =>
      rw [internDescriptor?_eq_none described]
      exact .refused
  | some spelling =>
      obtain ⟨step, found, adds⟩ := exists_internDescriptor? within described
      rw [found]
      exact .added (adds.map fun _ _ => rfl)

theorem meets_internMethodParts? (within : interner.IsWithin) (holder name descriptor : String) :
    Meets interner
      ((interner.internMethodParts? holder name descriptor).map (·.map .method id))
      ((describedProto? descriptor).map (.method holder name)) := by
  cases described : describedProto? descriptor with
  | none =>
      rw [internMethodParts?, internDescriptor?_eq_none described]
      exact .refused
  | some spelling =>
      obtain ⟨step, found, adds⟩ := exists_internMethodParts? within described
      rw [found]
      exact .added adds

theorem meets_attempt? (within : interner.IsWithin) {request : Request}
    (known : request.IsKnown interner) :
    Meets interner (request.attempt? interner) (request.spelling? interner) := by
  cases request with
  | symbol text => exact .added ((adds_internSymbol within text).map fun _ _ => rfl)
  | type text => exact .added ((adds_internType within text).map fun _ _ => rfl)
  | proto entry =>
      obtain ⟨spelling, spelled⟩ := within.exists_spellProto? known
      rw [Request.spelling?, spelled]
      exact .added ((adds_internProto within spelled).map fun _ _ => rfl)
  | method entry =>
      obtain ⟨_, _, _, spelled⟩ := within.exists_spellMethod? known
      rw [Request.spelling?, spelled]
      exact .added (adds_internMethod within spelled)
  | field entry =>
      obtain ⟨_, _, _, spelled⟩ := within.exists_spellField? known
      rw [Request.spelling?, spelled]
      exact .added (adds_internField within spelled)
  | descriptor text => exact meets_internDescriptor? within text
  | methodParts holder name text => exact meets_internMethodParts? within holder name text
  | fieldParts holder name type => exact .added (adds_internFieldParts within holder name type)
  | methodText text =>
      rw [Request.attempt?, Request.spelling?, parseMethod?_eq]
      cases readMethod? text with
      | none => exact .refused
      | some read => exact meets_internMethodParts? within read.1 read.2.1 read.2.2
  | fieldText text =>
      rw [Request.attempt?, Request.spelling?, parseField?_eq]
      cases readField? text with
      | none => exact .refused
      | some read => exact .added (adds_internFieldParts within read.1 read.2.1 read.2.2)

end Requests

/-- Work on one interner that may be refused on the way. What it added until then stays. -/
abbrev InPlace := OptionT (StateM Interner)

namespace InPlace

variable {α : Type}

def add (step : Interner → α × Interner) : InPlace α :=
  fun interner => ((step interner).map some id)

def require (value? : Option α) : InPlace α :=
  OptionT.mk (pure value?)

def descriptor (text : String) : InPlace ProtoId := do
  let (parameterTexts, resultText) ← require (Descriptor.splitMethod? text)
  let parameters ← add (internTypes · parameterTexts)
  let result ← add (internType · resultText)
  add (internProto · ⟨parameters, result⟩)

def methodParts (holderText nameText descriptorText : String) : InPlace MethodId := do
  let proto ← descriptor descriptorText
  let holder ← add (internType · holderText)
  let name ← add (internSymbol · nameText)
  add (internMethod · ⟨holder, name, proto⟩)

def fieldParts (holderText nameText typeText : String) : InPlace FieldId := do
  let holder ← add (internType · holderText)
  let name ← add (internSymbol · nameText)
  let type ← add (internType · typeText)
  add (internField · ⟨holder, name, type⟩)

def perform : Request → InPlace Item
  | .symbol text => .symbol <$> add (internSymbol · text)
  | .type text => .type <$> add (internType · text)
  | .proto entry => .proto <$> add (internProto · entry)
  | .method entry => .method <$> add (internMethod · entry)
  | .field entry => .field <$> add (internField · entry)
  | .descriptor text => .proto <$> descriptor text
  | .methodParts holder name text => .method <$> methodParts holder name text
  | .fieldParts holder name type => .field <$> fieldParts holder name type
  | .methodText text => do
      let (holder, name, text) ← require (readMethod? text)
      .method <$> methodParts holder name text
  | .fieldText text => do
      let (holder, name, type) ← require (readField? text)
      .field <$> fieldParts holder name type

def settle (interner : Interner) : Option (α × Interner) → Option α × Interner
  | some (value, grown) => (some value, grown)
  | none => (none, interner)

theorem run_bind {β : Type} (work : InPlace α) (next : α → InPlace β) (interner : Interner) :
    (work >>= next).run.run interner =
      (work.run.run interner).1.elim (none, (work.run.run interner).2)
        fun value => (next value).run.run (work.run.run interner).2 := by
  rw [OptionT.run_bind, Option.elimM, StateT.run_bind]
  rcases work.run.run interner with ⟨_ | value, grown⟩ <;> rfl

theorem run_map {β : Type} (change : α → β) (work : InPlace α) (interner : Interner) :
    (change <$> work).run.run interner = (work.run.run interner).map (Option.map change) id := by
  rw [map_eq_pure_bind, run_bind]
  rcases work.run.run interner with ⟨_ | value, grown⟩ <;> rfl

theorem settle_map {β : Type} (change : α → β) (interner : Interner)
    (outcome : Option (α × Interner)) :
    (settle interner outcome).map (Option.map change) id =
      settle interner (outcome.map (·.map change id)) := by
  cases outcome <;> rfl

theorem run_descriptor (text : String) (interner : Interner) :
    (descriptor text).run.run interner = settle interner (interner.internDescriptor? text) := by
  unfold descriptor internDescriptor?
  cases Descriptor.splitMethod? text <;> rfl

theorem run_methodParts (holder name text : String) (interner : Interner) :
    (methodParts holder name text).run.run interner =
      settle interner (interner.internMethodParts? holder name text) := by
  rw [methodParts, run_bind, run_descriptor, internMethodParts?]
  cases interner.internDescriptor? text <;> rfl

/-- Whatever can refuse a request comes before the first addition. -/
theorem run_perform (request : Request) (interner : Interner) :
    (perform request).run.run interner = settle interner (request.attempt? interner) := by
  cases request with
  | symbol text => rfl
  | type text => rfl
  | proto entry => rfl
  | method entry => rfl
  | field entry => rfl
  | fieldParts holder name type => rfl
  | descriptor text => rw [perform, run_map, run_descriptor, settle_map, Request.attempt?]
  | methodParts holder name text =>
      rw [perform, run_map, run_methodParts, settle_map, Request.attempt?]
  | methodText text =>
      -- both the text and the descriptor in it may be refused, and neither after an addition
      rw [perform, run_bind, Request.attempt?, parseMethod?_eq]
      cases readMethod? text with
      | none => rfl
      | some read =>
          change (Item.method <$> methodParts read.1 read.2.1 read.2.2).run.run interner = _
          rw [run_map, run_methodParts, settle_map]
          rfl
  | fieldText text =>
      rw [perform, run_bind, Request.attempt?, parseField?_eq]
      cases readField? text <;> rfl

end InPlace

def Request.run (request : Request) (interner : Interner) : Option Item × Interner :=
  (InPlace.perform request).run.run interner

/-- The interner after requests made one after the other, refused ones among them. -/
inductive Leads (interner : Interner) : Interner → Prop
  | refl : Leads interner interner
  | step {middle : Interner} (before : Leads interner middle) (request : Request)
      (known : request.IsKnown middle) : Leads interner (request.run middle).2

section Runs

variable {interner later : Interner}

theorem IsWithin.run (within : interner.IsWithin) {request : Request}
    (known : request.IsKnown interner) :
    (request.run interner).2.IsWithin ∧ interner.Grows (request.run interner).2 := by
  have meets := meets_attempt? within known
  rw [Request.run, InPlace.run_perform]
  generalize request.attempt? interner = attempt, request.spelling? interner = spelling
    at meets ⊢
  cases meets with
  | added adds => exact ⟨adds.within, adds.grows⟩
  | refused => exact ⟨within, .refl interner⟩

theorem IsWithin.leads (within : interner.IsWithin) (leads : interner.Leads later) :
    later.IsWithin ∧ interner.Grows later := by
  induction leads with
  | refl => exact ⟨within, .refl interner⟩
  | step before request known ih =>
      obtain ⟨stepWithin, stepGrows⟩ := ih.1.run known
      exact ⟨stepWithin, ih.2.trans stepGrows⟩

theorem isWithin_standard : standard.IsWithin where
  types := by decide
  protos proto member := by
    have entries : standard.protos.entries = [⟨[], .bool⟩] := by decide
    cases List.mem_singleton.mp (entries ▸ member)
    exact ⟨by decide, by decide⟩
  methods method member := by
    have entries : standard.methods.entries = [⟨.classObject, ⟨8⟩, ⟨0⟩⟩] := by decide
    cases List.mem_singleton.mp (entries ▸ member)
    exact ⟨by decide, by decide, by decide⟩
  fields field member := by
    have entries : standard.fields.entries = [⟨.kotlinAssertions, .enabled, .bool⟩] := by decide
    cases List.mem_singleton.mp (entries ▸ member)
    exact ⟨by decide, by decide, by decide⟩

end Runs

end Interner

/-- No entry stands twice, and the map has exactly the numbers under which the entries stand. -/
def Table.IsNumbering {α : Type} [DecidableEq α] (table : Table α) : Prop :=
  table.entries.Nodup ∧
    ∀ entry number, table.find? entry = some number ↔ table.get? number = some entry

theorem Table.isNumbering {α : Type} [DecidableEq α] (table : Table α) : table.IsNumbering :=
  ⟨table.nodup, fun _ _ => find?_eq_some_iff⟩

namespace Interner

/-- Numbers stand for references: each number can be read back, and two of them never for the same. -/
structure IsCanonical (interner : Interner) : Prop where
  symbols : interner.symbols.IsNumbering
  types : interner.types.IsNumbering
  protos : interner.protos.IsNumbering
  methods : interner.methods.IsNumbering
  fields : interner.fields.IsNumbering
  within : interner.IsWithin
  spelled : ∀ item : Item, item.IsKnown interner →
    ∃ spelling, interner.spell? item = some spelling ∧ interner.text item = spelling.text
  unique : ∀ left right : Item, left.IsKnown interner → right.IsKnown interner →
    (interner.spell? left = interner.spell? right ↔ left = right)

theorem IsWithin.isCanonical {interner : Interner} (within : interner.IsWithin) :
    interner.IsCanonical where
  symbols := interner.symbols.isNumbering
  types := interner.types.isNumbering
  protos := interner.protos.isNumbering
  methods := interner.methods.isNumbering
  fields := interner.fields.isNumbering
  within := within
  spelled item known := by
    obtain ⟨spelling, spelled⟩ := within.exists_spell? known
    exact ⟨spelling, spelled, text_of_spell? spelled⟩
  unique left right known _ := by
    constructor
    · intro same
      obtain ⟨spelling, spelled⟩ := within.exists_spell? known
      exact spell?_inj spelled (same ▸ spelled)
    · exact congrArg interner.spell?

/-- Adding references in any order, by numbers or by texts, keeps the tables canonical. What was there
stays and is shown as before; a request is met by the reference that it spells, and one that is refused
changes nothing. -/
theorem leads_isCanonical {interner later : Interner} (reached : standard.Leads interner)
    (continued : interner.Leads later) :
    interner.IsCanonical ∧ interner.Grows later ∧
      (∀ item : Item, item.IsKnown interner → item.IsKnown later ∧
        later.spell? item = interner.spell? item ∧ later.text item = interner.text item) ∧
      ∀ request : Request, request.IsKnown interner →
        (∀ item after, request.attempt? interner = some (item, after) →
          request.run interner = (some item, after) ∧ item.IsKnown after ∧
            after.spell? item = request.spelling? interner) ∧
        (request.attempt? interner = none →
          request.run interner = (none, interner) ∧ request.spelling? interner = none) := by
  have within := (isWithin_standard.leads reached).1
  have grows := (within.leads continued).2
  refine ⟨within.isCanonical, grows, ?_, ?_⟩
  · intro item known
    obtain ⟨spelling, spelled⟩ := within.exists_spell? known
    have kept := grows.spell? spelled
    refine ⟨isKnown_of_spell? kept, kept.trans spelled.symm, ?_⟩
    rw [text_of_spell? kept, text_of_spell? spelled]
  · intro request known
    have meets := meets_attempt? within known
    have outcome : request.run interner = _ := InPlace.run_perform request interner
    generalize request.attempt? interner = attempt, request.spelling? interner = spelling
      at meets outcome ⊢
    cases meets with
    | added adds =>
        refine ⟨?_, nofun⟩
        intro item after same
        cases same
        exact ⟨outcome, isKnown_of_spell? adds.spelled, adds.spelled⟩
    | refused => exact ⟨nofun, fun _ => ⟨outcome, rfl⟩⟩

namespace Shared

def start : Interner :=
  ((Request.methodText "LA;->run(I)V").run standard).2

def finish : Interner :=
  ((Request.fieldText "LA;->run:I").run start).2

end Shared

open Shared in
/-- A method and a field that share all their parts but the prototype. The prototype asked for by its
numbers is the one that came with the method, and a method text without a prototype is refused. -/
theorem leads_isCanonical_shared :
    start.text (.method ⟨1⟩) = "LA;->run(I)V" ∧ finish.text (.method ⟨1⟩) = "LA;->run(I)V" ∧
      (Request.proto ⟨[⟨5⟩], .void⟩).run start = (some (.proto ⟨1⟩), start) ∧
      start.spell? (.proto ⟨1⟩) = some (.proto ⟨["I"], "V"⟩) ∧
      (Request.methodText "LA;->run").run start = (none, start) := by
  obtain ⟨-, -, stays, requests⟩ := leads_isCanonical
    (.step .refl (.methodText "LA;->run(I)V") trivial)
    (.step .refl (.fieldText "LA;->run:I") trivial)
  have shown : start.text (.method ⟨1⟩) = "LA;->run(I)V" := by decide +kernel
  have known : (Request.proto ⟨[⟨5⟩], .void⟩).IsKnown start := ⟨by decide +kernel, by decide +kernel⟩
  have numbered : start.protos.find? ⟨[⟨5⟩], .void⟩ = some 1 := by decide +kernel
  have met : (Request.proto ⟨[⟨5⟩], .void⟩).attempt? start = some (.proto ⟨1⟩, start) := by
    have listed := List.mem_of_getElem? (Table.get?_of_find? numbered)
    rw [Request.attempt?, internProto, Table.intern, numbered, Table.insert_eq_self listed]
    rfl
  have refused : (Request.methodText "LA;->run").attempt? start = none := by decide +kernel
  obtain ⟨run, -, spelled⟩ := (requests _ known).1 _ _ met
  refine ⟨shown, ?_, run, ?_, ((requests (.methodText "LA;->run") trivial).2 refused).1⟩
  · have present : 1 < start.methods.size := by decide +kernel
    exact (stays (.method ⟨1⟩) present).2.2.trans shown
  · rw [spelled]
    decide +kernel

end Interner

end Shrinker.Reference
