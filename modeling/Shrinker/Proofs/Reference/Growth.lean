import Shrinker.Liveness.Roots

namespace Shrinker.Reference.Interner

/-- All that one interner holds the other holds under the same number. -/
structure Grows (interner grown : Interner) : Prop where
  symbols : interner.symbols.entries <+: grown.symbols.entries
  types : interner.types.entries <+: grown.types.entries
  protos : interner.protos.entries <+: grown.protos.entries
  methods : interner.methods.entries <+: grown.methods.entries
  fields : interner.fields.entries <+: grown.fields.entries

section Additions

variable {interner middle grown : Interner}

theorem Grows.refl (interner : Interner) : Grows interner interner :=
  ⟨List.prefix_refl _, List.prefix_refl _, List.prefix_refl _, List.prefix_refl _,
    List.prefix_refl _⟩

theorem Grows.trans (first : Grows interner middle) (second : Grows middle grown) :
    Grows interner grown where
  symbols := first.symbols.trans second.symbols
  types := first.types.trans second.types
  protos := first.protos.trans second.protos
  methods := first.methods.trans second.methods
  fields := first.fields.trans second.fields

theorem grows_internSymbol (interner : Interner) (text : String) :
    Grows interner (interner.internSymbol text).2 :=
  { Grows.refl interner with symbols := Table.entries_insert .. }

theorem grows_internType (interner : Interner) (descriptor : String) :
    Grows interner (interner.internType descriptor).2 :=
  (grows_internSymbol interner descriptor).trans
    { Grows.refl (interner.internSymbol descriptor).2 with types := Table.entries_insert .. }

theorem grows_internTypes (interner : Interner) (descriptors : List String) :
    Grows interner (interner.internTypes descriptors).2 := by
  induction descriptors generalizing interner with
  | nil => exact .refl interner
  | cons descriptor descriptors ih => exact (grows_internType interner descriptor).trans (ih _)

theorem grows_internProto (interner : Interner) (proto : Proto) :
    Grows interner (interner.internProto proto).2 :=
  { Grows.refl interner with protos := Table.entries_insert .. }

theorem grows_internMethod (interner : Interner) (method : MethodRef) :
    Grows interner (interner.internMethod method).2 :=
  { Grows.refl interner with methods := Table.entries_insert .. }

theorem grows_internField (interner : Interner) (field : FieldRef) :
    Grows interner (interner.internField field).2 :=
  { Grows.refl interner with fields := Table.entries_insert .. }

theorem Grows.of_internDescriptor? {descriptor : String} {proto : ProtoId}
    (added : interner.internDescriptor? descriptor = some (proto, grown)) :
    Grows interner grown := by
  obtain ⟨⟨parameters, result⟩, -, same⟩ := Option.map_eq_some_iff.mp added
  cases same
  exact ((grows_internTypes interner parameters).trans (grows_internType _ result)).trans
    (grows_internProto _ _)

theorem Grows.of_internMethodParts? {holder name descriptor : String} {method : MethodId}
    (added : interner.internMethodParts? holder name descriptor = some (method, grown)) :
    Grows interner grown := by
  obtain ⟨⟨proto, described⟩, found, same⟩ := Option.map_eq_some_iff.mp added
  cases same
  exact (((Grows.of_internDescriptor? found).trans (grows_internType _ holder)).trans
    (grows_internSymbol _ name)).trans (grows_internMethod _ _)

theorem grows_internFieldParts (interner : Interner) (holder name type : String) :
    Grows interner (interner.internFieldParts holder name type).2 :=
  (((grows_internType interner holder).trans (grows_internSymbol _ name)).trans
    (grows_internType _ type)).trans (grows_internField _ _)

theorem Grows.of_parseMethod? {text : String} {method : MethodId}
    (added : interner.parseMethod? text = some (method, grown)) : Grows interner grown := by
  obtain ⟨⟨holder, member⟩, -, parsed⟩ := Option.bind_eq_some_iff.mp added
  dsimp only at parsed
  split at parsed
  · exact .of_internMethodParts? parsed
  · cases parsed

theorem Grows.of_parseField? {text : String} {field : FieldId}
    (added : interner.parseField? text = some (field, grown)) : Grows interner grown := by
  obtain ⟨⟨holder, member⟩, -, parsed⟩ := Option.bind_eq_some_iff.mp added
  dsimp only at parsed
  split at parsed
  · cases parsed
  · split at parsed
    · cases parsed
      exact grows_internFieldParts ..
    · cases parsed

end Additions

end Shrinker.Reference.Interner

namespace Shrinker.Options

open Reference Interner

variable {α β : Type}

/-- The work adds references, be it that it fails. -/
def Interning.Grows (work : Interning α) : Prop :=
  ∀ interner, Interner.Grows interner (work.run.run interner).2

theorem Interning.grows_pure (value : α) : Grows (pure value) :=
  fun interner => .refl interner

theorem Interning.Grows.bind {work : Interning α} {next : α → Interning β} (first : Grows work)
    (rest : ∀ value, Grows (next value)) : Grows (work >>= next) := by
  intro interner
  change Interner.Grows interner (ExceptT.bindCont next (work.run.run interner).1
    (work.run.run interner).2).2
  have start := first interner
  generalize work.run.run interner = outcome at start
  obtain ⟨result, middle⟩ := outcome
  cases result with
  | ok value => exact start.trans (rest value middle)
  | error cause => exact start

theorem Interning.grows_get_bind {next : Interner → Interning α}
    (seen : ∀ interner, Interner.Grows interner ((next interner).run.run interner).2) :
    Grows (get >>= next) :=
  seen

theorem Interning.Grows.mapM {work : α → Interning β} (each : ∀ entry, Grows (work entry))
    (entries : List α) : Grows (entries.mapM work) := by
  induction entries with
  | nil => exact grows_pure []
  | cons entry entries ih =>
      rw [List.mapM_cons]
      refine (each entry).bind fun result => ih.bind fun results => ?_
      exact grows_pure (result :: results)

theorem Interning.grows_internMember {parse? : Interner → String → Option (α × Interner)}
    (parses : ∀ {interner text member grown}, parse? interner text = some (member, grown) →
      Interner.Grows interner grown)
    (text : String) : Grows (internMember parse? text) := by
  unfold internMember
  apply grows_get_bind
  intro interner
  split
  · rename_i member grown parsed
    exact parses parsed
  · exact .refl interner

theorem intern_eq (handler : AssertionHandler) :
    handler.intern = internMember (fun interner _ =>
      interner.internMethodParts? handler.holder handler.name handler.descriptor)
      handler.text := by
  unfold AssertionHandler.intern internMember
  apply bind_congr
  intro interner
  dsimp only
  cases interner.internMethodParts? handler.holder handler.name handler.descriptor <;> rfl

theorem Interning.grows_intern (handler : AssertionHandler) : Grows handler.intern := by
  rw [intern_eq]
  exact grows_internMember (fun added => .of_internMethodParts? added) handler.text

theorem Interning.grows_internHandlers (options : Options) : Grows options.internHandlers :=
  Grows.mapM grows_intern options.assertionHandlers

open Liveness in
theorem Interning.grows_ofKeep (keep : Keep) : Grows (Roots.ofKeep keep) := by
  have methods (texts : List String) :
      Grows (texts.mapM (internMember parseMethod?)) :=
    Grows.mapM (grows_internMember fun added => .of_parseMethod? added) texts
  have fields (texts : List String) :
      Grows (texts.mapM (internMember parseField?)) :=
    Grows.mapM (grows_internMember fun added => .of_parseField? added) texts
  have classes : Grows (modifyGet fun (interner : Interner) => interner.internTypes keep.classes) :=
    fun interner => grows_internTypes interner keep.classes
  unfold Roots.ofKeep
  refine classes.bind fun _ => (methods _).bind fun _ => (fields _).bind fun _ =>
    (methods _).bind fun _ => grows_pure _

end Shrinker.Options
