import Shrinker.Proofs.Reference.Reading

namespace Shrinker.Reference

theorem Table.intern_of_get? {α : Type} [DecidableEq α] {table : Table α} {number : Nat} {entry : α}
    (present : table.get? number = some entry) : table.intern entry = (number, table) := by
  rw [intern, find?_eq_some_iff.mpr present, insert_eq_self (List.mem_of_getElem? present)]
  rfl

namespace Interner

section Known

variable {interner : Interner}

theorem internSymbol_of_spell? {symbol : Symbol} {text : String}
    (spelled : interner.spellSymbol? symbol = some text) :
    interner.internSymbol text = (symbol, interner) := by
  rw [internSymbol, Table.intern_of_get? spelled]

theorem internType_of_spell? {type : TypeId} {descriptor : String}
    (spelled : interner.spellType? type = some descriptor) :
    interner.internType descriptor = (type, interner) := by
  obtain ⟨symbol, present, text⟩ := spellType?_eq_some.mp spelled
  rw [internType, internSymbol_of_spell? text]
  dsimp only
  rw [Table.intern_of_get? present]

theorem internTypes_of_spell? {types : List TypeId} {descriptors : List String}
    (spelled : interner.spellTypes? types = some descriptors) :
    interner.internTypes descriptors = (types, interner) := by
  induction types generalizing descriptors with
  | nil =>
      cases spelled
      rfl
  | cons type types ih =>
      obtain ⟨first, rest, here, others, rfl⟩ := spellTypes?_cons_eq_some.mp spelled
      rw [internTypes, internType_of_spell? here]
      dsimp only
      rw [ih others]

theorem internDescriptor?_of_spell? {descriptor : String} {proto : ProtoId}
    {spelling : ProtoSpelling} (described : describedProto? descriptor = some spelling)
    (spelled : interner.spellProtoId? proto = some spelling) :
    interner.internDescriptor? descriptor = some (proto, interner) := by
  obtain ⟨⟨parameters, result⟩, split, rfl⟩ := Option.map_eq_some_iff.mp described
  obtain ⟨entry, present, parts⟩ := spellProtoId?_eq_some.mp spelled
  obtain ⟨parametersSpelled, resultSpelled⟩ := spellProto?_eq_some.mp parts
  rw [internDescriptor?, split, Option.map_some]
  dsimp only
  rw [internTypes_of_spell? parametersSpelled]
  dsimp only
  rw [internType_of_spell? resultSpelled]
  dsimp only
  rw [internProto, Table.intern_of_get? present]

theorem internMethodParts?_of_spell? {holder name descriptor : String} {method : MethodId}
    {proto : ProtoSpelling} (described : describedProto? descriptor = some proto)
    (spelled : interner.spell? (.method method) = some (.method holder name proto)) :
    interner.internMethodParts? holder name descriptor = some (method, interner) := by
  obtain ⟨entry, present, parts⟩ := Option.bind_eq_some_iff.mp spelled
  obtain ⟨_, _, _, holderSpelled, nameSpelled, protoSpelled, same⟩ := spellMethod?_eq_some.mp parts
  cases same
  rw [internMethodParts?, internDescriptor?_of_spell? described protoSpelled, Option.map_some]
  dsimp only
  rw [internType_of_spell? holderSpelled]
  dsimp only
  rw [internSymbol_of_spell? nameSpelled]
  dsimp only
  rw [internMethod, Table.intern_of_get? present]

theorem internFieldParts_of_spell? {holder name type : String} {field : FieldId}
    (spelled : interner.spell? (.field field) = some (.field holder name type)) :
    interner.internFieldParts holder name type = (field, interner) := by
  obtain ⟨entry, present, parts⟩ := Option.bind_eq_some_iff.mp spelled
  obtain ⟨_, _, _, holderSpelled, nameSpelled, typeSpelled, same⟩ := spellField?_eq_some.mp parts
  cases same
  rw [internFieldParts, internType_of_spell? holderSpelled]
  dsimp only
  rw [internSymbol_of_spell? nameSpelled]
  dsimp only
  rw [internType_of_spell? typeSpelled]
  dsimp only
  rw [internField, Table.intern_of_get? present]

theorem parseMethod?_of_spell? {text : String} {method : MethodId} {spelling : Spelling}
    (read : methodSpelling? text = some spelling)
    (spelled : interner.spell? (.method method) = some spelling) :
    interner.parseMethod? text = some (method, interner) := by
  obtain ⟨⟨holder, name, descriptor⟩, parts, rest⟩ := Option.bind_eq_some_iff.mp read
  obtain ⟨proto, described, rfl⟩ := Option.map_eq_some_iff.mp rest
  rw [parseMethod?_eq, parts, Option.bind_some]
  exact internMethodParts?_of_spell? described spelled

theorem parseField?_of_spell? {text : String} {field : FieldId} {spelling : Spelling}
    (read : fieldSpelling? text = some spelling)
    (spelled : interner.spell? (.field field) = some spelling) :
    interner.parseField? text = some (field, interner) := by
  obtain ⟨⟨holder, name, type⟩, parts, rfl⟩ := Option.map_eq_some_iff.mp read
  rw [parseField?_eq, parts, Option.map_some]
  exact congrArg some (internFieldParts_of_spell? spelled)

end Known

section Later

variable {interner later : Interner}

theorem Grows.of_attempt? {request : Request} {item : Item}
    (met : request.attempt? interner = some (item, later)) : interner.Grows later := by
  cases request with
  | symbol text =>
      cases met
      exact grows_internSymbol interner text
  | type text =>
      cases met
      exact grows_internType interner text
  | proto entry =>
      cases met
      exact grows_internProto interner entry
  | method entry =>
      cases met
      exact grows_internMethod interner entry
  | field entry =>
      cases met
      exact grows_internField interner entry
  | fieldParts holder name type =>
      cases met
      exact grows_internFieldParts interner holder name type
  | descriptor text =>
      obtain ⟨⟨proto, grown⟩, added, same⟩ := Option.map_eq_some_iff.mp met
      cases same
      exact .of_internDescriptor? added
  | methodParts holder name text =>
      obtain ⟨⟨method, grown⟩, added, same⟩ := Option.map_eq_some_iff.mp met
      cases same
      exact .of_internMethodParts? added
  | methodText text =>
      obtain ⟨⟨method, grown⟩, added, same⟩ := Option.map_eq_some_iff.mp met
      cases same
      exact .of_parseMethod? added
  | fieldText text =>
      obtain ⟨⟨field, grown⟩, added, same⟩ := Option.map_eq_some_iff.mp met
      cases same
      exact .of_parseField? added

theorem Leads.grows (leads : interner.Leads later) : interner.Grows later := by
  induction leads with
  | refl => exact .refl interner
  | @step middle before request known ih =>
      refine ih.trans ?_
      rw [Request.run, InPlace.run_perform]
      cases met : request.attempt? middle with
      | none => exact .refl middle
      | some step => exact .of_attempt? met

end Later

/-- Reading and showing are inverse: what was read from a text is shown as the text from then on, the text
is read as the same reference, and no other text is. -/
structure ReadsBack {ι : Type} (parse? : Interner → String → Option (ι × Interner))
    (render : Interner → ι → String) : Prop where
  rendered : ∀ interner text member grown later, parse? interner text = some (member, grown) →
    grown.Leads later → render later member = text
  again : ∀ interner text member grown later, parse? interner text = some (member, grown) →
    grown.Leads later → parse? later (render later member) = some (member, later)
  apart : ∀ interner text member grown later other after,
    parse? interner text = some (member, grown) → grown.Leads later →
      parse? later other = some (member, after) → other = text

section Inverse

variable {ι : Type} {parse? : Interner → String → Option (ι × Interner)} {item : ι → Item}
  {spelling? : String → Option Spelling} {interner grown : Interner} {text : String} {member : ι}

theorem exists_spelled_of_read (reads : ∀ text, Reads (parse? · text) item (spelling? text))
    (read : parse? interner text = some (member, grown)) :
    ∃ spelling, spelling? text = some spelling ∧ interner.Grows grown ∧
      grown.spell? (item member) = some spelling := by
  cases spelled : spelling? text with
  | none =>
      rw [(reads text).refused interner spelled] at read
      cases read
  | some spelling =>
      obtain ⟨_, _, found, grows, written⟩ := (reads text).added interner spelling spelled
      rw [read] at found
      cases found
      exact ⟨spelling, rfl, grows, written⟩

theorem readsBack_of_reads (reads : ∀ text, Reads (parse? · text) item (spelling? text))
    (lossless : ∀ text spelling, spelling? text = some spelling → spelling.text = text)
    (known : ∀ interner text member spelling, spelling? text = some spelling →
      interner.spell? (item member) = some spelling →
        parse? interner text = some (member, interner)) :
    ReadsBack parse? fun interner member => interner.text (item member) := by
  constructor
  · intro interner text member grown later read leads
    obtain ⟨spelling, described, -, spelled⟩ := exists_spelled_of_read reads read
    rw [text_of_spell? (leads.grows.spell? spelled), lossless text spelling described]
  · intro interner text member grown later read leads
    obtain ⟨spelling, described, -, spelled⟩ := exists_spelled_of_read reads read
    have kept := leads.grows.spell? spelled
    rw [text_of_spell? kept, lossless text spelling described]
    exact known later text member spelling described kept
  · intro interner text member grown later other after read leads readOther
    obtain ⟨spelling, described, -, spelled⟩ := exists_spelled_of_read reads read
    obtain ⟨spellingOther, describedOther, grows, spelledOther⟩ :=
      exists_spelled_of_read reads readOther
    have same := (leads.grows.trans grows).spell? spelled
    rw [spelledOther] at same
    cases same
    rw [← lossless other _ describedOther, lossless text _ described]

end Inverse

/-- Methods and fields are shown as they were read, and read as they are shown. -/
theorem members_read_back :
    ReadsBack parseMethod? methodText ∧ ReadsBack parseField? fieldText :=
  ⟨readsBack_of_reads reads_parseMethod? (fun _ _ => text_of_methodSpelling?)
      fun _ _ _ _ => parseMethod?_of_spell?,
    readsBack_of_reads reads_parseField? (fun _ _ => text_of_fieldSpelling?)
      fun _ _ _ _ => parseField?_of_spell?⟩

/-- A method whose name has an arrow and a colon in it, looked at after a field was read. -/
theorem members_read_back_odd_name :
    ∃ method grown, standard.parseMethod? "LA;->a->b:c(I)V" = some (method, grown) ∧
      ((Request.fieldText "LA;->a->b(c:I").run grown).2.methodText method = "LA;->a->b:c(I)V" ∧
      ((Request.fieldText "LA;->a->b(c:I").run grown).2.parseMethod? "LA;->a->b:c(I)V" =
        some (method, ((Request.fieldText "LA;->a->b(c:I").run grown).2) := by
  have readable : (standard.parseMethod? "LA;->a->b:c(I)V").isSome := by
    rw [(reads_parseMethod? "LA;->a->b:c(I)V").isSome]
    cbv
  obtain ⟨⟨method, grown⟩, read⟩ := Option.isSome_iff_exists.mp readable
  have leads : grown.Leads ((Request.fieldText "LA;->a->b(c:I").run grown).2 :=
    .step .refl (.fieldText "LA;->a->b(c:I") trivial
  have rendered := members_read_back.1.rendered _ _ _ _ _ read leads
  have again := members_read_back.1.again _ _ _ _ _ read leads
  rw [rendered] at again
  exact ⟨method, grown, read, rendered, again⟩

end Interner

end Shrinker.Reference
