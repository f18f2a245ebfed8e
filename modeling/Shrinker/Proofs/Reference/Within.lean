import Shrinker.Proofs.Reference.Spelling

namespace Shrinker.Reference

structure Proto.IsKnown (proto : Proto) (interner : Interner) : Prop where
  parameters : ∀ type ∈ proto.parameters, type.index < interner.types.size
  result : proto.result.index < interner.types.size

structure MethodRef.IsKnown (method : MethodRef) (interner : Interner) : Prop where
  holder : method.holder.index < interner.types.size
  name : method.name.index < interner.symbols.size
  proto : method.proto.index < interner.protos.size

structure FieldRef.IsKnown (field : FieldRef) (interner : Interner) : Prop where
  holder : field.holder.index < interner.types.size
  name : field.name.index < interner.symbols.size
  type : field.type.index < interner.types.size

def Item.IsKnown (interner : Interner) : Item → Prop
  | symbol id => id.index < interner.symbols.size
  | type id => id.index < interner.types.size
  | proto id => id.index < interner.protos.size
  | method id => id.index < interner.methods.size
  | field id => id.index < interner.fields.size

namespace Interner

/-- Numbers inside the tables stay within the tables. -/
structure IsWithin (interner : Interner) : Prop where
  types : ∀ symbol ∈ interner.types.entries, symbol.index < interner.symbols.size
  protos : ∀ proto ∈ interner.protos.entries, proto.IsKnown interner
  methods : ∀ method ∈ interner.methods.entries, method.IsKnown interner
  fields : ∀ field ∈ interner.fields.entries, field.IsKnown interner

section Spelled

variable {interner : Interner}

theorem lt_size_of_spellSymbol? {symbol : Symbol} {text : String}
    (spelled : interner.spellSymbol? symbol = some text) :
    symbol.index < interner.symbols.size :=
  Table.lt_size_iff.mpr ⟨text, spelled⟩

theorem lt_size_of_spellType? {type : TypeId} {descriptor : String}
    (spelled : interner.spellType? type = some descriptor) :
    type.index < interner.types.size := by
  obtain ⟨symbol, present, -⟩ := spellType?_eq_some.mp spelled
  exact Table.lt_size_iff.mpr ⟨symbol, present⟩

theorem lt_size_of_spellTypes? {types : List TypeId} {descriptors : List String}
    (spelled : interner.spellTypes? types = some descriptors) :
    ∀ type ∈ types, type.index < interner.types.size := by
  induction types generalizing descriptors with
  | nil => nofun
  | cons type types ih =>
      obtain ⟨_, _, here, others, -⟩ := spellTypes?_cons_eq_some.mp spelled
      exact List.forall_mem_cons.mpr ⟨lt_size_of_spellType? here, ih others⟩

theorem isKnown_of_spellProto? {proto : Proto} {spelling : ProtoSpelling}
    (spelled : interner.spellProto? proto = some spelling) : proto.IsKnown interner := by
  obtain ⟨parameters, result⟩ := spellProto?_eq_some.mp spelled
  exact ⟨lt_size_of_spellTypes? parameters, lt_size_of_spellType? result⟩

theorem lt_size_of_spellProtoId? {id : ProtoId} {spelling : ProtoSpelling}
    (spelled : interner.spellProtoId? id = some spelling) : id.index < interner.protos.size := by
  obtain ⟨proto, present, -⟩ := spellProtoId?_eq_some.mp spelled
  exact Table.lt_size_iff.mpr ⟨proto, present⟩

theorem isKnown_of_spellMethod? {method : MethodRef} {spelling : Spelling}
    (spelled : interner.spellMethod? method = some spelling) : method.IsKnown interner := by
  obtain ⟨_, _, _, holder, name, proto, -⟩ := spellMethod?_eq_some.mp spelled
  exact ⟨lt_size_of_spellType? holder, lt_size_of_spellSymbol? name,
    lt_size_of_spellProtoId? proto⟩

theorem isKnown_of_spellField? {field : FieldRef} {spelling : Spelling}
    (spelled : interner.spellField? field = some spelling) : field.IsKnown interner := by
  obtain ⟨_, _, _, holder, name, type, -⟩ := spellField?_eq_some.mp spelled
  exact ⟨lt_size_of_spellType? holder, lt_size_of_spellSymbol? name, lt_size_of_spellType? type⟩

theorem isKnown_of_spell? {item : Item} {spelling : Spelling}
    (spelled : interner.spell? item = some spelling) : item.IsKnown interner := by
  cases spell?_eq_some.mp spelled with
  | symbol found => exact lt_size_of_spellSymbol? found
  | type found => exact lt_size_of_spellType? found
  | proto found => exact lt_size_of_spellProtoId? found
  | method present parts => exact Table.lt_size_iff.mpr ⟨_, present⟩
  | field present parts => exact Table.lt_size_iff.mpr ⟨_, present⟩

end Spelled

namespace IsWithin

variable {interner grown : Interner}

theorem exists_spellType? (within : interner.IsWithin) {type : TypeId}
    (known : type.index < interner.types.size) :
    ∃ descriptor, interner.spellType? type = some descriptor := by
  obtain ⟨symbol, present⟩ := Table.lt_size_iff.mp known
  obtain ⟨text, spelled⟩ := Table.lt_size_iff.mp
    (within.types symbol (List.mem_of_getElem? present))
  exact ⟨text, spellType?_eq_some.mpr ⟨symbol, present, spelled⟩⟩

theorem exists_spellTypes? (within : interner.IsWithin) {types : List TypeId}
    (known : ∀ type ∈ types, type.index < interner.types.size) :
    ∃ descriptors, interner.spellTypes? types = some descriptors := by
  induction types with
  | nil => exact ⟨[], rfl⟩
  | cons type types ih =>
      obtain ⟨here, others⟩ := List.forall_mem_cons.mp known
      obtain ⟨first, spelled⟩ := within.exists_spellType? here
      obtain ⟨rest, remaining⟩ := ih others
      exact ⟨first :: rest, spellTypes?_cons_eq_some.mpr ⟨first, rest, spelled, remaining, rfl⟩⟩

theorem exists_spellProto? (within : interner.IsWithin) {proto : Proto}
    (known : proto.IsKnown interner) :
    ∃ spelling, interner.spellProto? proto = some spelling := by
  obtain ⟨parameters, spelled⟩ := within.exists_spellTypes? known.parameters
  obtain ⟨result, alsoSpelled⟩ := within.exists_spellType? known.result
  exact ⟨⟨parameters, result⟩, spellProto?_eq_some.mpr ⟨spelled, alsoSpelled⟩⟩

theorem exists_spellProtoId? (within : interner.IsWithin) {id : ProtoId}
    (known : id.index < interner.protos.size) :
    ∃ spelling, interner.spellProtoId? id = some spelling := by
  obtain ⟨proto, present⟩ := Table.lt_size_iff.mp known
  obtain ⟨spelling, spelled⟩ := within.exists_spellProto?
    (within.protos proto (List.mem_of_getElem? present))
  exact ⟨spelling, spellProtoId?_eq_some.mpr ⟨proto, present, spelled⟩⟩

theorem exists_spellMethod? (within : interner.IsWithin) {method : MethodRef}
    (known : method.IsKnown interner) :
    ∃ holder name proto, interner.spellMethod? method = some (.method holder name proto) := by
  obtain ⟨holder, holderSpelled⟩ := within.exists_spellType? known.holder
  obtain ⟨name, nameSpelled⟩ := Table.lt_size_iff.mp known.name
  obtain ⟨proto, protoSpelled⟩ := within.exists_spellProtoId? known.proto
  exact ⟨holder, name, proto, spellMethod?_of_parts holderSpelled nameSpelled protoSpelled⟩

theorem exists_spellField? (within : interner.IsWithin) {field : FieldRef}
    (known : field.IsKnown interner) :
    ∃ holder name type, interner.spellField? field = some (.field holder name type) := by
  obtain ⟨holder, holderSpelled⟩ := within.exists_spellType? known.holder
  obtain ⟨name, nameSpelled⟩ := Table.lt_size_iff.mp known.name
  obtain ⟨type, typeSpelled⟩ := within.exists_spellType? known.type
  exact ⟨holder, name, type, spellField?_of_parts holderSpelled nameSpelled typeSpelled⟩

theorem exists_spell? (within : interner.IsWithin) {item : Item} (known : item.IsKnown interner) :
    ∃ spelling, interner.spell? item = some spelling := by
  cases item with
  | symbol symbol =>
      obtain ⟨text, spelled⟩ := Table.lt_size_iff.mp known
      exact ⟨_, spell?_eq_some.mpr (.symbol spelled)⟩
  | type type =>
      obtain ⟨descriptor, spelled⟩ := within.exists_spellType? known
      exact ⟨_, spell?_eq_some.mpr (.type spelled)⟩
  | proto id =>
      obtain ⟨spelling, spelled⟩ := within.exists_spellProtoId? known
      exact ⟨_, spell?_eq_some.mpr (.proto spelled)⟩
  | method id =>
      obtain ⟨method, present⟩ := Table.lt_size_iff.mp known
      obtain ⟨_, _, _, spelled⟩ := within.exists_spellMethod?
        (within.methods method (List.mem_of_getElem? present))
      exact ⟨_, spell?_eq_some.mpr (.method present spelled)⟩
  | field id =>
      obtain ⟨field, present⟩ := Table.lt_size_iff.mp known
      obtain ⟨_, _, _, spelled⟩ := within.exists_spellField?
        (within.fields field (List.mem_of_getElem? present))
      exact ⟨_, spell?_eq_some.mpr (.field present spelled)⟩

theorem grow (within : interner.IsWithin) (grows : interner.Grows grown)
    (types : ∀ symbol ∈ grown.types.entries,
      symbol ∈ interner.types.entries ∨ symbol.index < grown.symbols.size)
    (protos : ∀ proto ∈ grown.protos.entries,
      proto ∈ interner.protos.entries ∨ proto.IsKnown grown)
    (methods : ∀ method ∈ grown.methods.entries,
      method ∈ interner.methods.entries ∨ method.IsKnown grown)
    (fields : ∀ field ∈ grown.fields.entries,
      field ∈ interner.fields.entries ∨ field.IsKnown grown) : grown.IsWithin where
  types symbol member := by
    rcases types symbol member with old | new
    · exact Nat.lt_of_lt_of_le (within.types symbol old) grows.symbols.length_le
    · exact new
  protos proto member := by
    rcases protos proto member with old | new
    · obtain ⟨spelling, spelled⟩ := within.exists_spellProto? (within.protos proto old)
      exact isKnown_of_spellProto? (grows.spellProto? spelled)
    · exact new
  methods method member := by
    rcases methods method member with old | new
    · obtain ⟨_, _, _, spelled⟩ := within.exists_spellMethod? (within.methods method old)
      exact isKnown_of_spellMethod? (grows.spellMethod? spelled)
    · exact new
  fields field member := by
    rcases fields field member with old | new
    · obtain ⟨_, _, _, spelled⟩ := within.exists_spellField? (within.fields field old)
      exact isKnown_of_spellField? (grows.spellField? spelled)
    · exact new

end IsWithin

/-- The references grow, stay within the tables, and the one that is returned has the spelling. -/
structure Adds {ι σ : Type} (spells? : Interner → ι → Option σ) (spelling : σ)
    (interner : Interner) (step : ι × Interner) : Prop where
  grows : interner.Grows step.2
  within : step.2.IsWithin
  spelled : spells? step.2 step.1 = some spelling

section Additions

variable {interner : Interner}

theorem adds_internSymbol (within : interner.IsWithin) (text : String) :
    Adds spellSymbol? text interner (interner.internSymbol text) where
  grows := grows_internSymbol interner text
  within := within.grow (grows_internSymbol interner text) (fun _ => .inl) (fun _ => .inl)
    (fun _ => .inl) (fun _ => .inl)
  spelled := spellSymbol?_internSymbol interner text

theorem adds_internType (within : interner.IsWithin) (descriptor : String) :
    Adds spellType? descriptor interner (interner.internType descriptor) := by
  have grows := grows_internType interner descriptor
  refine ⟨grows, within.grow grows ?_ (fun _ => .inl) (fun _ => .inl) (fun _ => .inl), ?_⟩
  · intro symbol member
    refine (Table.mem_entries_insert.mp member).imp_right ?_
    rintro rfl
    exact lt_size_of_spellSymbol? (spellSymbol?_internSymbol interner descriptor)
  · exact spellType?_internType interner descriptor

theorem adds_internTypes (within : interner.IsWithin) (descriptors : List String) :
    Adds spellTypes? descriptors interner (interner.internTypes descriptors) := by
  induction descriptors generalizing interner with
  | nil => exact ⟨.refl interner, within, rfl⟩
  | cons descriptor descriptors ih =>
      have first := adds_internType within descriptor
      have rest := ih first.within
      refine ⟨first.grows.trans rest.grows, rest.within, ?_⟩
      exact spellTypes?_internTypes interner (descriptor :: descriptors)

theorem adds_internProto (within : interner.IsWithin) {proto : Proto} {spelling : ProtoSpelling}
    (spelled : interner.spellProto? proto = some spelling) :
    Adds spellProtoId? spelling interner (interner.internProto proto) := by
  have grows := grows_internProto interner proto
  refine ⟨grows, within.grow grows (fun _ => .inl) ?_ (fun _ => .inl) (fun _ => .inl), ?_⟩
  · intro entry member
    refine (Table.mem_entries_insert.mp member).imp_right ?_
    rintro rfl
    exact isKnown_of_spellProto? (grows.spellProto? spelled)
  · exact spellProtoId?_internProto spelled

theorem adds_internMethod (within : interner.IsWithin) {method : MethodRef} {spelling : Spelling}
    (spelled : interner.spellMethod? method = some spelling) :
    Adds spell? spelling interner ((interner.internMethod method).map .method id) := by
  have grows := grows_internMethod interner method
  refine ⟨grows, within.grow grows (fun _ => .inl) (fun _ => .inl) ?_ (fun _ => .inl), ?_⟩
  · intro entry member
    refine (Table.mem_entries_insert.mp member).imp_right ?_
    rintro rfl
    exact isKnown_of_spellMethod? (grows.spellMethod? spelled)
  · exact spell?_internMethod spelled

theorem adds_internField (within : interner.IsWithin) {field : FieldRef} {spelling : Spelling}
    (spelled : interner.spellField? field = some spelling) :
    Adds spell? spelling interner ((interner.internField field).map .field id) := by
  have grows := grows_internField interner field
  refine ⟨grows, within.grow grows (fun _ => .inl) (fun _ => .inl) (fun _ => .inl) ?_, ?_⟩
  · intro entry member
    refine (Table.mem_entries_insert.mp member).imp_right ?_
    rintro rfl
    exact isKnown_of_spellField? (grows.spellField? spelled)
  · exact spell?_internField spelled

theorem adds_internFieldParts (within : interner.IsWithin) (holder name type : String) :
    Adds spell? (.field holder name type) interner
      ((interner.internFieldParts holder name type).map .field id) := by
  have first := adds_internType within holder
  have second := adds_internSymbol first.within name
  have third := adds_internType second.within type
  have last := adds_internField third.within (spellField?_of_parts
    ((second.grows.trans third.grows).spellType? first.spelled)
    (third.grows.spellSymbol? second.spelled) third.spelled)
  exact ⟨((first.grows.trans second.grows).trans third.grows).trans last.grows, last.within,
    last.spelled⟩

def describedProto? (descriptor : String) : Option ProtoSpelling :=
  (Descriptor.splitMethod? descriptor).map fun (parameters, result) => ⟨parameters, result⟩

theorem internDescriptor?_eq_none {descriptor : String}
    (undescribed : describedProto? descriptor = none) :
    interner.internDescriptor? descriptor = none :=
  Option.map_eq_none_iff.mpr (Option.map_eq_none_iff.mp undescribed)

theorem exists_internDescriptor? (within : interner.IsWithin) {descriptor : String}
    {spelling : ProtoSpelling} (described : describedProto? descriptor = some spelling) :
    ∃ step, interner.internDescriptor? descriptor = some step ∧
      Adds spellProtoId? spelling interner step := by
  obtain ⟨⟨parameters, result⟩, split, rfl⟩ := Option.map_eq_some_iff.mp described
  refine ⟨_, Option.map_eq_some_iff.mpr ⟨_, split, rfl⟩, ?_⟩
  have first := adds_internTypes within parameters
  have second := adds_internType first.within result
  have last := adds_internProto second.within (spellProto?_of_parts
    (second.grows.spellTypes? first.spelled) second.spelled)
  exact ⟨(first.grows.trans second.grows).trans last.grows, last.within, last.spelled⟩

theorem exists_internMethodParts? (within : interner.IsWithin) {holder name descriptor : String}
    {spelling : ProtoSpelling} (described : describedProto? descriptor = some spelling) :
    ∃ step, interner.internMethodParts? holder name descriptor = some step ∧
      Adds spell? (.method holder name spelling) interner (step.map .method id) := by
  obtain ⟨⟨proto, middle⟩, found, first⟩ := exists_internDescriptor? within described
  refine ⟨_, Option.map_eq_some_iff.mpr ⟨_, found, rfl⟩, ?_⟩
  have second := adds_internType first.within holder
  have third := adds_internSymbol second.within name
  have last := adds_internMethod third.within (spellMethod?_of_parts
    (third.grows.spellType? second.spelled) third.spelled
    ((second.grows.trans third.grows).spellProtoId? first.spelled))
  exact ⟨((first.grows.trans second.grows).trans third.grows).trans last.grows, last.within,
    last.spelled⟩

end Additions

end Interner

end Shrinker.Reference
