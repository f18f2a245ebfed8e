import Shrinker.Proofs.Reference.Growth

namespace Shrinker.Reference

structure ProtoSpelling where
  parameters : List String
  result : String
  deriving DecidableEq, Repr

/-- A reference of any kind with no numbers in it. -/
inductive Spelling where
  | symbol (text : String)
  | type (descriptor : String)
  | proto (proto : ProtoSpelling)
  | method (holder name : String) (proto : ProtoSpelling)
  | field (holder name type : String)
  deriving DecidableEq, Repr

def ProtoSpelling.text (proto : ProtoSpelling) : String :=
  "(" ++ String.join proto.parameters ++ ")" ++ proto.result

def Spelling.text : Spelling → String
  | symbol text => text
  | type descriptor => descriptor
  | proto spelling => spelling.text
  | method holder name spelling => holder ++ "->" ++ name ++ spelling.text
  | field holder name descriptor => holder ++ "->" ++ name ++ ":" ++ descriptor

inductive Item where
  | symbol (symbol : Symbol)
  | type (type : TypeId)
  | proto (proto : ProtoId)
  | method (method : MethodId)
  | field (field : FieldId)
  deriving DecidableEq, Repr

theorem Table.get?_of_prefix {α : Type} {table grown : Table α} {number : Nat} {entry : α}
    (grows : table.entries <+: grown.entries) (present : table.get? number = some entry) :
    grown.get? number = some entry := by
  obtain ⟨added, same⟩ := grows
  have bound : number < table.entries.length := (List.getElem?_eq_some_iff.mp present).1
  rw [get?, ← same, List.getElem?_append_left bound]
  exact present

theorem Table.lt_size_iff {α : Type} {table : Table α} {number : Nat} :
    number < table.size ↔ ∃ entry, table.get? number = some entry := by
  constructor
  · intro bound
    exact ⟨_, List.getElem?_eq_getElem bound⟩
  · rintro ⟨entry, present⟩
    exact (List.getElem?_eq_some_iff.mp present).1

namespace Interner

def spellSymbol? (interner : Interner) (symbol : Symbol) : Option String :=
  interner.symbols.get? symbol.index

def spellType? (interner : Interner) (type : TypeId) : Option String := do
  let symbol ← interner.types.get? type.index
  interner.spellSymbol? symbol

def spellTypes? (interner : Interner) : List TypeId → Option (List String)
  | [] => some []
  | type :: types => do
      let descriptor ← interner.spellType? type
      let descriptors ← interner.spellTypes? types
      return descriptor :: descriptors

def spellProto? (interner : Interner) (proto : Proto) : Option ProtoSpelling := do
  let parameters ← interner.spellTypes? proto.parameters
  let result ← interner.spellType? proto.result
  return ⟨parameters, result⟩

def spellProtoId? (interner : Interner) (id : ProtoId) : Option ProtoSpelling := do
  let proto ← interner.protos.get? id.index
  interner.spellProto? proto

def spellMethod? (interner : Interner) (method : MethodRef) : Option Spelling := do
  let holder ← interner.spellType? method.holder
  let name ← interner.spellSymbol? method.name
  let proto ← interner.spellProtoId? method.proto
  return .method holder name proto

def spellField? (interner : Interner) (field : FieldRef) : Option Spelling := do
  let holder ← interner.spellType? field.holder
  let name ← interner.spellSymbol? field.name
  let type ← interner.spellType? field.type
  return .field holder name type

def spell? (interner : Interner) : Item → Option Spelling
  | .symbol symbol => (interner.spellSymbol? symbol).map .symbol
  | .type type => (interner.spellType? type).map .type
  | .proto proto => (interner.spellProtoId? proto).map .proto
  | .method method => (interner.methods.get? method.index).bind interner.spellMethod?
  | .field field => (interner.fields.get? field.index).bind interner.spellField?

def text (interner : Interner) : Item → String
  | .symbol symbol => interner.symbolText symbol
  | .type type => interner.typeText type
  | .proto proto => interner.protoText proto
  | .method method => interner.methodText method
  | .field field => interner.fieldText field

section Parts

variable {interner : Interner}

theorem spellType?_eq_some {type : TypeId} {descriptor : String} :
    interner.spellType? type = some descriptor ↔
      ∃ symbol, interner.types.get? type.index = some symbol ∧
        interner.spellSymbol? symbol = some descriptor :=
  Option.bind_eq_some_iff

theorem spellTypes?_cons_eq_some {type : TypeId} {types : List TypeId} {descriptors : List String} :
    interner.spellTypes? (type :: types) = some descriptors ↔
      ∃ first rest, interner.spellType? type = some first ∧
        interner.spellTypes? types = some rest ∧ descriptors = first :: rest := by
  simp only [spellTypes?, bind, Option.bind_eq_some_iff, pure, Option.some.injEq]
  grind

theorem spellProto?_eq_some {proto : Proto} {spelling : ProtoSpelling} :
    interner.spellProto? proto = some spelling ↔
      interner.spellTypes? proto.parameters = some spelling.parameters ∧
        interner.spellType? proto.result = some spelling.result := by
  obtain ⟨parameters, result⟩ := spelling
  simp only [spellProto?, bind, Option.bind_eq_some_iff, pure, Option.some.injEq,
    ProtoSpelling.mk.injEq]
  grind

theorem spellProto?_of_parts {parameters : List TypeId} {result : TypeId}
    {descriptors : List String} {descriptor : String}
    (spelled : interner.spellTypes? parameters = some descriptors)
    (resultSpelled : interner.spellType? result = some descriptor) :
    interner.spellProto? ⟨parameters, result⟩ = some ⟨descriptors, descriptor⟩ :=
  spellProto?_eq_some.mpr ⟨spelled, resultSpelled⟩

theorem spellProtoId?_eq_some {id : ProtoId} {spelling : ProtoSpelling} :
    interner.spellProtoId? id = some spelling ↔
      ∃ proto, interner.protos.get? id.index = some proto ∧
        interner.spellProto? proto = some spelling :=
  Option.bind_eq_some_iff

theorem spellMethod?_eq_some {method : MethodRef} {spelling : Spelling} :
    interner.spellMethod? method = some spelling ↔
      ∃ holder name proto, interner.spellType? method.holder = some holder ∧
        interner.spellSymbol? method.name = some name ∧
        interner.spellProtoId? method.proto = some proto ∧
        spelling = .method holder name proto := by
  simp only [spellMethod?, bind, Option.bind_eq_some_iff, pure, Option.some.injEq]
  grind

theorem spellMethod?_of_parts {holder : TypeId} {name : Symbol} {proto : ProtoId}
    {holderText nameText : String} {spelling : ProtoSpelling}
    (holderSpelled : interner.spellType? holder = some holderText)
    (nameSpelled : interner.spellSymbol? name = some nameText)
    (protoSpelled : interner.spellProtoId? proto = some spelling) :
    interner.spellMethod? ⟨holder, name, proto⟩ = some (.method holderText nameText spelling) :=
  spellMethod?_eq_some.mpr ⟨_, _, _, holderSpelled, nameSpelled, protoSpelled, rfl⟩

theorem spellField?_eq_some {field : FieldRef} {spelling : Spelling} :
    interner.spellField? field = some spelling ↔
      ∃ holder name type, interner.spellType? field.holder = some holder ∧
        interner.spellSymbol? field.name = some name ∧
        interner.spellType? field.type = some type ∧
        spelling = .field holder name type := by
  simp only [spellField?, bind, Option.bind_eq_some_iff, pure, Option.some.injEq]
  grind

theorem spellField?_of_parts {holder type : TypeId} {name : Symbol}
    {holderText nameText typeText : String}
    (holderSpelled : interner.spellType? holder = some holderText)
    (nameSpelled : interner.spellSymbol? name = some nameText)
    (typeSpelled : interner.spellType? type = some typeText) :
    interner.spellField? ⟨holder, name, type⟩ = some (.field holderText nameText typeText) :=
  spellField?_eq_some.mpr ⟨_, _, _, holderSpelled, nameSpelled, typeSpelled, rfl⟩

/-- The kinds of references one by one: what is spelled, and what it is found through. -/
inductive Spells (interner : Interner) : Item → Spelling → Prop
  | symbol {symbol : Symbol} {text : String} (spelled : interner.spellSymbol? symbol = some text) :
      Spells interner (.symbol symbol) (.symbol text)
  | type {type : TypeId} {descriptor : String}
      (spelled : interner.spellType? type = some descriptor) :
      Spells interner (.type type) (.type descriptor)
  | proto {id : ProtoId} {proto : ProtoSpelling}
      (spelled : interner.spellProtoId? id = some proto) :
      Spells interner (.proto id) (.proto proto)
  | method {id : MethodId} {entry : MethodRef} {holder name : String} {proto : ProtoSpelling}
      (present : interner.methods.get? id.index = some entry)
      (parts : interner.spellMethod? entry = some (.method holder name proto)) :
      Spells interner (.method id) (.method holder name proto)
  | field {id : FieldId} {entry : FieldRef} {holder name type : String}
      (present : interner.fields.get? id.index = some entry)
      (parts : interner.spellField? entry = some (.field holder name type)) :
      Spells interner (.field id) (.field holder name type)

theorem spell?_eq_some {item : Item} {spelling : Spelling} :
    interner.spell? item = some spelling ↔ Spells interner item spelling := by
  constructor
  · intro spelled
    cases item with
    | symbol symbol =>
        obtain ⟨text, found, rfl⟩ := Option.map_eq_some_iff.mp spelled
        exact .symbol found
    | type type =>
        obtain ⟨descriptor, found, rfl⟩ := Option.map_eq_some_iff.mp spelled
        exact .type found
    | proto id =>
        obtain ⟨proto, found, rfl⟩ := Option.map_eq_some_iff.mp spelled
        exact .proto found
    | method id =>
        obtain ⟨entry, present, parts⟩ := Option.bind_eq_some_iff.mp spelled
        obtain ⟨_, _, _, -, -, -, rfl⟩ := spellMethod?_eq_some.mp parts
        exact .method present parts
    | field id =>
        obtain ⟨entry, present, parts⟩ := Option.bind_eq_some_iff.mp spelled
        obtain ⟨_, _, _, -, -, -, rfl⟩ := spellField?_eq_some.mp parts
        exact .field present parts
  · intro spells
    cases spells with
    | symbol found => exact Option.map_eq_some_iff.mpr ⟨_, found, rfl⟩
    | type found => exact Option.map_eq_some_iff.mpr ⟨_, found, rfl⟩
    | proto found => exact Option.map_eq_some_iff.mpr ⟨_, found, rfl⟩
    | method present parts => exact Option.bind_eq_some_iff.mpr ⟨_, present, parts⟩
    | field present parts => exact Option.bind_eq_some_iff.mpr ⟨_, present, parts⟩

end Parts

section Growth

variable {interner grown : Interner}

theorem Grows.spellSymbol? (grows : interner.Grows grown) {symbol : Symbol} {text : String}
    (spelled : interner.spellSymbol? symbol = some text) : grown.spellSymbol? symbol = some text :=
  Table.get?_of_prefix grows.symbols spelled

theorem Grows.spellType? (grows : interner.Grows grown) {type : TypeId} {descriptor : String}
    (spelled : interner.spellType? type = some descriptor) :
    grown.spellType? type = some descriptor := by
  obtain ⟨symbol, present, text⟩ := spellType?_eq_some.mp spelled
  exact spellType?_eq_some.mpr
    ⟨symbol, Table.get?_of_prefix grows.types present, grows.spellSymbol? text⟩

theorem Grows.spellTypes? (grows : interner.Grows grown) {types : List TypeId}
    {descriptors : List String} (spelled : interner.spellTypes? types = some descriptors) :
    grown.spellTypes? types = some descriptors := by
  induction types generalizing descriptors with
  | nil => exact spelled
  | cons type types ih =>
      obtain ⟨first, rest, here, others, rfl⟩ := spellTypes?_cons_eq_some.mp spelled
      exact spellTypes?_cons_eq_some.mpr ⟨first, rest, grows.spellType? here, ih others, rfl⟩

theorem Grows.spellProto? (grows : interner.Grows grown) {proto : Proto} {spelling : ProtoSpelling}
    (spelled : interner.spellProto? proto = some spelling) :
    grown.spellProto? proto = some spelling := by
  obtain ⟨parameters, result⟩ := spellProto?_eq_some.mp spelled
  exact spellProto?_eq_some.mpr ⟨grows.spellTypes? parameters, grows.spellType? result⟩

theorem Grows.spellProtoId? (grows : interner.Grows grown) {id : ProtoId}
    {spelling : ProtoSpelling} (spelled : interner.spellProtoId? id = some spelling) :
    grown.spellProtoId? id = some spelling := by
  obtain ⟨proto, present, parts⟩ := spellProtoId?_eq_some.mp spelled
  exact spellProtoId?_eq_some.mpr
    ⟨proto, Table.get?_of_prefix grows.protos present, grows.spellProto? parts⟩

theorem Grows.spellMethod? (grows : interner.Grows grown) {method : MethodRef}
    {spelling : Spelling} (spelled : interner.spellMethod? method = some spelling) :
    grown.spellMethod? method = some spelling := by
  obtain ⟨_, _, _, holder, name, proto, same⟩ := spellMethod?_eq_some.mp spelled
  exact spellMethod?_eq_some.mpr ⟨_, _, _, grows.spellType? holder, grows.spellSymbol? name,
    grows.spellProtoId? proto, same⟩

theorem Grows.spellField? (grows : interner.Grows grown) {field : FieldRef} {spelling : Spelling}
    (spelled : interner.spellField? field = some spelling) :
    grown.spellField? field = some spelling := by
  obtain ⟨_, _, _, holder, name, type, same⟩ := spellField?_eq_some.mp spelled
  exact spellField?_eq_some.mpr ⟨_, _, _, grows.spellType? holder, grows.spellSymbol? name,
    grows.spellType? type, same⟩

theorem Grows.spell? (grows : interner.Grows grown) {item : Item} {spelling : Spelling}
    (spelled : interner.spell? item = some spelling) : grown.spell? item = some spelling := by
  apply spell?_eq_some.mpr
  cases spell?_eq_some.mp spelled with
  | symbol found => exact .symbol (grows.spellSymbol? found)
  | type found => exact .type (grows.spellType? found)
  | proto found => exact .proto (grows.spellProtoId? found)
  | method present parts =>
      exact .method (Table.get?_of_prefix grows.methods present) (grows.spellMethod? parts)
  | field present parts =>
      exact .field (Table.get?_of_prefix grows.fields present) (grows.spellField? parts)

end Growth

section Uniqueness

variable {interner : Interner}

theorem spellSymbol?_inj {left right : Symbol} {text : String}
    (atLeft : interner.spellSymbol? left = some text)
    (atRight : interner.spellSymbol? right = some text) : left = right :=
  congrArg Symbol.mk (Table.get?_inj atLeft atRight)

theorem spellType?_inj {left right : TypeId} {descriptor : String}
    (atLeft : interner.spellType? left = some descriptor)
    (atRight : interner.spellType? right = some descriptor) : left = right := by
  obtain ⟨symbol, present, spelled⟩ := spellType?_eq_some.mp atLeft
  obtain ⟨other, alsoPresent, alsoSpelled⟩ := spellType?_eq_some.mp atRight
  cases spellSymbol?_inj spelled alsoSpelled
  exact congrArg TypeId.mk (Table.get?_inj present alsoPresent)

theorem spellTypes?_inj {left right : List TypeId} {descriptors : List String}
    (atLeft : interner.spellTypes? left = some descriptors)
    (atRight : interner.spellTypes? right = some descriptors) : left = right := by
  induction left generalizing right descriptors with
  | nil =>
      cases atLeft
      cases right with
      | nil => rfl
      | cons type types =>
          obtain ⟨_, _, -, -, same⟩ := spellTypes?_cons_eq_some.mp atRight
          cases same
  | cons type types ih =>
      obtain ⟨first, rest, here, others, rfl⟩ := spellTypes?_cons_eq_some.mp atLeft
      cases right with
      | nil => cases atRight
      | cons other more =>
          obtain ⟨_, _, there, moreSpelled, same⟩ := spellTypes?_cons_eq_some.mp atRight
          cases same
          rw [spellType?_inj here there, ih others moreSpelled]

theorem spellProto?_inj {left right : Proto} {spelling : ProtoSpelling}
    (atLeft : interner.spellProto? left = some spelling)
    (atRight : interner.spellProto? right = some spelling) : left = right := by
  obtain ⟨parameters, result⟩ := spellProto?_eq_some.mp atLeft
  obtain ⟨sameParameters, sameResult⟩ := spellProto?_eq_some.mp atRight
  cases left
  cases right
  cases spellTypes?_inj parameters sameParameters
  cases spellType?_inj result sameResult
  rfl

theorem spellProtoId?_inj {left right : ProtoId} {spelling : ProtoSpelling}
    (atLeft : interner.spellProtoId? left = some spelling)
    (atRight : interner.spellProtoId? right = some spelling) : left = right := by
  obtain ⟨proto, present, spelled⟩ := spellProtoId?_eq_some.mp atLeft
  obtain ⟨other, alsoPresent, alsoSpelled⟩ := spellProtoId?_eq_some.mp atRight
  cases spellProto?_inj spelled alsoSpelled
  exact congrArg ProtoId.mk (Table.get?_inj present alsoPresent)

theorem spellMethod?_inj {left right : MethodRef} {spelling : Spelling}
    (atLeft : interner.spellMethod? left = some spelling)
    (atRight : interner.spellMethod? right = some spelling) : left = right := by
  obtain ⟨_, _, _, holder, name, proto, rfl⟩ := spellMethod?_eq_some.mp atLeft
  obtain ⟨_, _, _, sameHolder, sameName, sameProto, same⟩ := spellMethod?_eq_some.mp atRight
  cases same
  cases left
  cases right
  cases spellType?_inj holder sameHolder
  cases spellSymbol?_inj name sameName
  cases spellProtoId?_inj proto sameProto
  rfl

theorem spellField?_inj {left right : FieldRef} {spelling : Spelling}
    (atLeft : interner.spellField? left = some spelling)
    (atRight : interner.spellField? right = some spelling) : left = right := by
  obtain ⟨_, _, _, holder, name, type, rfl⟩ := spellField?_eq_some.mp atLeft
  obtain ⟨_, _, _, sameHolder, sameName, sameType, same⟩ := spellField?_eq_some.mp atRight
  cases same
  cases left
  cases right
  cases spellType?_inj holder sameHolder
  cases spellSymbol?_inj name sameName
  cases spellType?_inj type sameType
  rfl

theorem spell?_inj {left right : Item} {spelling : Spelling}
    (atLeft : interner.spell? left = some spelling)
    (atRight : interner.spell? right = some spelling) : left = right := by
  cases spell?_eq_some.mp atLeft with
  | symbol found =>
      cases spell?_eq_some.mp atRight with
      | symbol alsoFound => rw [spellSymbol?_inj found alsoFound]
  | type found =>
      cases spell?_eq_some.mp atRight with
      | type alsoFound => rw [spellType?_inj found alsoFound]
  | proto found =>
      cases spell?_eq_some.mp atRight with
      | proto alsoFound => rw [spellProtoId?_inj found alsoFound]
  | method present parts =>
      cases spell?_eq_some.mp atRight with
      | method alsoPresent alsoParts =>
          cases spellMethod?_inj parts alsoParts
          exact congrArg (Item.method ∘ MethodId.mk) (Table.get?_inj present alsoPresent)
  | field present parts =>
      cases spell?_eq_some.mp atRight with
      | field alsoPresent alsoParts =>
          cases spellField?_inj parts alsoParts
          exact congrArg (Item.field ∘ FieldId.mk) (Table.get?_inj present alsoPresent)

end Uniqueness

section Texts

variable {interner : Interner}

theorem symbolText_of_spell? {symbol : Symbol} {text : String}
    (spelled : interner.spellSymbol? symbol = some text) : interner.symbolText symbol = text := by
  rw [symbolText, ← spellSymbol?, spelled, Option.getD_some]

theorem typeText_of_spell? {type : TypeId} {descriptor : String}
    (spelled : interner.spellType? type = some descriptor) :
    interner.typeText type = descriptor := by
  obtain ⟨symbol, present, text⟩ := spellType?_eq_some.mp spelled
  rw [typeText, present, Option.getD_some, symbolText_of_spell? text]

theorem map_typeText_of_spell? {types : List TypeId} {descriptors : List String}
    (spelled : interner.spellTypes? types = some descriptors) :
    types.map interner.typeText = descriptors := by
  induction types generalizing descriptors with
  | nil =>
      cases spelled
      rfl
  | cons type types ih =>
      obtain ⟨first, rest, here, others, rfl⟩ := spellTypes?_cons_eq_some.mp spelled
      rw [List.map_cons, typeText_of_spell? here, ih others]

theorem protoText_of_spell? {id : ProtoId} {spelling : ProtoSpelling}
    (spelled : interner.spellProtoId? id = some spelling) :
    interner.protoText id = spelling.text := by
  obtain ⟨entry, present, parts⟩ := spellProtoId?_eq_some.mp spelled
  obtain ⟨parameters, result⟩ := spellProto?_eq_some.mp parts
  simp only [protoText, proto, present, Option.getD_some, map_typeText_of_spell? parameters,
    typeText_of_spell? result, ProtoSpelling.text]

theorem text_of_spell? {item : Item} {spelling : Spelling}
    (spelled : interner.spell? item = some spelling) : interner.text item = spelling.text := by
  cases spell?_eq_some.mp spelled with
  | symbol found => exact symbolText_of_spell? found
  | type found => exact typeText_of_spell? found
  | proto found => exact protoText_of_spell? found
  | method present parts =>
      obtain ⟨_, _, _, holder, name, proto, same⟩ := spellMethod?_eq_some.mp parts
      cases same
      simp only [text, methodText, method, present, Option.getD_some, typeText_of_spell? holder,
        symbolText_of_spell? name, protoText_of_spell? proto, Spelling.text]
  | field present parts =>
      obtain ⟨_, _, _, holder, name, type, same⟩ := spellField?_eq_some.mp parts
      cases same
      simp only [text, fieldText, field, present, Option.getD_some, typeText_of_spell? holder,
        symbolText_of_spell? name, typeText_of_spell? type, Spelling.text]

end Texts

section Additions

variable {interner : Interner}

theorem spellSymbol?_internSymbol (interner : Interner) (text : String) :
    (interner.internSymbol text).2.spellSymbol? (interner.internSymbol text).1 = some text :=
  Table.get?_intern interner.symbols text

theorem spellType?_internType (interner : Interner) (descriptor : String) :
    (interner.internType descriptor).2.spellType? (interner.internType descriptor).1 =
      some descriptor :=
  spellType?_eq_some.mpr ⟨_, Table.get?_intern interner.types _,
    spellSymbol?_internSymbol interner descriptor⟩

theorem spellTypes?_internTypes (interner : Interner) (descriptors : List String) :
    (interner.internTypes descriptors).2.spellTypes? (interner.internTypes descriptors).1 =
      some descriptors := by
  induction descriptors generalizing interner with
  | nil => rfl
  | cons descriptor descriptors ih =>
      have later := grows_internTypes (interner.internType descriptor).2 descriptors
      exact spellTypes?_cons_eq_some.mpr
        ⟨_, _, later.spellType? (spellType?_internType interner descriptor), ih _, rfl⟩

theorem spellProtoId?_internProto {proto : Proto} {spelling : ProtoSpelling}
    (spelled : interner.spellProto? proto = some spelling) :
    (interner.internProto proto).2.spellProtoId? (interner.internProto proto).1 = some spelling :=
  spellProtoId?_eq_some.mpr ⟨proto, Table.get?_intern interner.protos proto,
    (grows_internProto interner proto).spellProto? spelled⟩

theorem spell?_internMethod {method : MethodRef} {spelling : Spelling}
    (spelled : interner.spellMethod? method = some spelling) :
    (interner.internMethod method).2.spell? (.method (interner.internMethod method).1) =
      some spelling :=
  Option.bind_eq_some_iff.mpr ⟨method, Table.get?_intern interner.methods method,
    (grows_internMethod interner method).spellMethod? spelled⟩

theorem spell?_internField {field : FieldRef} {spelling : Spelling}
    (spelled : interner.spellField? field = some spelling) :
    (interner.internField field).2.spell? (.field (interner.internField field).1) =
      some spelling :=
  Option.bind_eq_some_iff.mpr ⟨field, Table.get?_intern interner.fields field,
    (grows_internField interner field).spellField? spelled⟩

end Additions

end Interner

end Shrinker.Reference
