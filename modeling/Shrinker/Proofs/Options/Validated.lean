import Shrinker.Proofs.Collection.Success
import Shrinker.Proofs.Reference.Reading

namespace Shrinker.Options

open Reference Interner Liveness

theorem isSome_describedProto? (descriptor : List Char) :
    (describedProto? (.ofList descriptor)).isSome =
      (Descriptor.splitMethodChars? descriptor).isSome := by
  simp [describedProto?, Descriptor.splitMethod?]

theorem head?_bne_mark (mark : Char) {text : List Char} (nonempty : text ≠ []) :
    (text.head? != some mark) = !(text.takeWhile (· != mark)).isEmpty := by
  obtain ⟨first, rest, rfl⟩ := List.exists_cons_of_ne_nil nonempty
  by_cases marked : first = mark
  · simp [marked]
  · simp [marked, bne]

theorem isMethodText_eq (text : String) : isMethodText text = (methodSpelling? text).isSome := by
  unfold isMethodText methodSpelling? readMethod?
  cases splitArrow? text.toList with
  | none => rfl
  | some parts =>
      obtain ⟨holder, member⟩ := parts
      by_cases nonempty : member = []
      · simp [nonempty, Descriptor.splitMethodChars?]
      · simp only [bind, Option.bind_some, head?_bne_mark '(' nonempty,
          ← isSome_describedProto?]
        cases Descriptor.isTypeChars holder <;>
          cases (member.takeWhile (· != '(')).isEmpty <;> simp

theorem isFieldText_eq (text : String) : isFieldText text = (fieldSpelling? text).isSome := by
  unfold isFieldText fieldSpelling? readField?
  cases splitArrow? text.toList with
  | none => rfl
  | some parts =>
      obtain ⟨holder, member⟩ := parts
      simp only [bind, Option.bind_some]
      cases dropped : member.dropWhile (· != ':') with
      | nil => rfl
      | cons colon type =>
          have nonempty : member ≠ [] := by
            rintro rfl
            cases dropped
          simp only [head?_bne_mark ':' nonempty]
          cases Descriptor.isTypeChars holder <;> cases Descriptor.isTypeChars type <;>
            cases (member.takeWhile (· != ':')).isEmpty <;> rfl

theorem checkMembers_eq_ok {passes : String → Bool} {texts : List String} :
    checkMembers passes texts = .ok () ↔ ∀ text ∈ texts, passes text := by
  unfold checkMembers
  cases found : texts.find? (!passes ·) with
  | none => simpa using found
  | some text =>
      have failed := List.find?_some found
      have member := List.mem_of_find?_eq_some found
      simp only [reduceCtorEq, false_iff]
      intro all
      simp [all text member] at failed

theorem AssertionHandler.isMethod_of_check {handler : AssertionHandler}
    (passes : handler.check = .ok ()) : Descriptor.isMethod handler.descriptor := by
  unfold check at passes
  split at passes
  · cases passes
  · split at passes
    · cases passes
    · rename_i sound
      simp only [Bool.or_eq_true, Bool.not_eq_true', not_or, Bool.not_eq_false] at sound
      exact sound.2

theorem validate_eq_ok {options : Options} :
    options.validate = .ok () ↔
      (∀ handler ∈ options.assertionHandlers, handler.check = .ok ()) ∧
        (∀ text ∈ options.keep.classes, Descriptor.isType text) ∧
        (∀ text ∈ options.keep.methods, isMethodText text) ∧
        (∀ text ∈ options.keep.pinnedNames, isMethodText text) ∧
        (∀ text ∈ options.keep.fields, isFieldText text) := by
  unfold validate
  simp only [Collection.Success.bind_eq_ok, Unique.exists_iff, PUnit.default_eq_unit,
    Collection.Success.forM_eq_ok, checkMembers_eq_ok]

section Entries

variable {α ι : Type} {spelling? : α → Option Spelling} {item : ι → Item}
  {interner grown : Interner} {entries : List α} {ids : List ι}

/-- One by one, the references have the spellings of the entries. -/
def AreSpelled (spelling? : α → Option Spelling) (item : ι → Item) (interner : Interner)
    (entries : List α) (ids : List ι) : Prop :=
  List.Forall₂ (fun entry id => ∃ spelling, spelling? entry = some spelling ∧
    interner.spell? (item id) = some spelling) entries ids

theorem AreSpelled.grow (spelled : AreSpelled spelling? item interner entries ids)
    (grows : interner.Grows grown) : AreSpelled spelling? item grown entries ids := by
  refine List.Forall₂.imp ?_ spelled
  rintro entry id ⟨spelling, read, written⟩
  exact ⟨spelling, read, grows.spell? written⟩

theorem AreSpelled.map_text {shown : α → String}
    (spelled : AreSpelled spelling? item interner entries ids)
    (lossless : ∀ entry spelling, spelling? entry = some spelling → spelling.text = shown entry) :
    ids.map (fun id => interner.text (item id)) = entries.map shown := by
  induction spelled with
  | nil => rfl
  | cons here _ ih =>
      obtain ⟨spelling, read, written⟩ := here
      rw [List.map_cons, List.map_cons, ih, text_of_spell? written, lossless _ _ read]

theorem Interning.run_bind_of_ok {β : Type} {work : Interning ι} {next : ι → Interning β} {id : ι}
    (ran : work.run.run interner = (.ok id, grown)) :
    (work >>= next).run.run interner = (next id).run.run grown := by
  change ExceptT.bindCont next (work.run.run interner).1 (work.run.run interner).2 = _
  rw [ran]
  rfl

def Interning.Gives (work : Interning ι) (item : ι → Item) (spelling : Spelling) : Prop :=
  ∀ interner, ∃ id grown, work.run.run interner = (.ok id, grown) ∧ interner.Grows grown ∧
    grown.spell? (item id) = some spelling

theorem Interning.gives_internMember {parse? : Interner → String → Option (ι × Interner)}
    {text : String} {read? : Option Spelling} {spelling : Spelling}
    (reads : Reads (parse? · text) item read?) (read : read? = some spelling) :
    (internMember parse? text).Gives item spelling := by
  intro interner
  obtain ⟨id, grown, parsed, grows, spelled⟩ := reads.added interner spelling read
  refine ⟨id, grown, ?_, grows, spelled⟩
  have seen : (get : Interning Interner).run.run interner = (.ok interner, interner) := rfl
  rw [internMember, run_bind_of_ok seen, parsed]
  rfl

theorem Interning.exists_mapM {work : α → Interning ι}
    (gives : ∀ entry ∈ entries, ∃ spelling, spelling? entry = some spelling ∧
      (work entry).Gives item spelling) (interner : Interner) :
    ∃ ids grown, (entries.mapM work).run.run interner = (.ok ids, grown) ∧
      interner.Grows grown ∧ AreSpelled spelling? item grown entries ids := by
  induction entries generalizing interner with
  | nil => exact ⟨[], interner, rfl, .refl interner, .nil⟩
  | cons entry entries ih =>
      obtain ⟨⟨spelling, read, here⟩, others⟩ := List.forall_mem_cons.mp gives
      obtain ⟨id, middle, ran, first, spelled⟩ := here interner
      obtain ⟨ids, grown, ranOthers, later, spelledOthers⟩ := ih others middle
      refine ⟨id :: ids, grown, ?_, first.trans later, .cons ?_ spelledOthers⟩
      · rw [List.mapM_cons, run_bind_of_ok ran, run_bind_of_ok ranOthers]
        rfl
      · exact ⟨spelling, read, later.spell? spelled⟩

theorem Interning.exists_mapM_internMember {parse? : Interner → String → Option (ι × Interner)}
    {read? : String → Option Spelling} {texts : List String}
    (reads : ∀ text, Reads (parse? · text) item (read? text))
    (valid : ∀ text ∈ texts, (read? text).isSome) (interner : Interner) :
    ∃ ids grown, (texts.mapM (internMember parse?)).run.run interner = (.ok ids, grown) ∧
      interner.Grows grown ∧ AreSpelled read? item grown texts ids := by
  refine exists_mapM (fun text member => ?_) interner
  obtain ⟨spelling, read⟩ := Option.isSome_iff_exists.mp (valid text member)
  exact ⟨spelling, read, gives_internMember (reads text) read⟩

end Entries

theorem foldl_addNew {α : Type} [DecidableEq α] (known entries : List α) :
    entries.foldl Roots.addNew known = known ++ (entries.filter (· ∉ known)).eraseDups := by
  induction entries generalizing known with
  | nil => simp
  | cons entry entries ih =>
      rw [List.foldl_cons, ih, Roots.addNew]
      by_cases old : entry ∈ known
      · simp [old]
      · rw [if_neg old, List.filter_cons_of_pos (by simpa using old), List.eraseDups_cons,
          List.filter_filter, List.append_assoc, List.singleton_append]
        simp [Bool.and_comm, beq_eq_decide]

theorem eraseDups_map {α β : Type} [DecidableEq α] [DecidableEq β] {shown : α → β}
    {entries : List α}
    (apart : ∀ left ∈ entries, ∀ right ∈ entries, shown left = shown right → left = right) :
    (entries.map shown).eraseDups = entries.eraseDups.map shown := by
  -- the tail is filtered before it is taken up, so the induction is on the length
  induction size : entries.length using Nat.strong_induction_on generalizing entries with
  | _ bound ih =>
      cases entries with
      | nil => rfl
      | cons entry entries =>
          have same : (entries.map shown).filter (fun other => !other == shown entry) =
              (entries.filter fun other => !other == entry).map shown := by
            rw [List.filter_map]
            congr 1
            refine List.filter_congr fun other member => ?_
            have distinct : shown other = shown entry ↔ other = entry :=
              ⟨apart other (by simp [member]) entry (by simp), congrArg shown⟩
            simp [distinct]
          have shorter : (entries.filter fun other => !other == entry).length < bound := by
            rw [← size, List.length_cons]
            exact Nat.lt_succ_of_le (List.length_filter_le _ _)
          rw [List.map_cons, List.eraseDups_cons, List.eraseDups_cons, List.map_cons, same]
          rw [ih _ shorter (fun left leftMem right rightMem => ?_) rfl]
          exact apart left (by simp_all) right (by simp_all)

section Roots

variable {ι : Type} {spelling? : String → Option Spelling} {item : ι → Item} {interner : Interner}
  {texts : List String} {ids : List ι}

theorem AreSpelled.exists_of_mem (spelled : AreSpelled spelling? item interner texts ids) {id : ι}
    (member : id ∈ ids) : ∃ text spelling, spelling? text = some spelling ∧
      interner.spell? (item id) = some spelling := by
  induction spelled with
  | nil => cases member
  | cons here _ ih =>
      rcases List.mem_cons.mp member with rfl | later
      · exact ⟨_, here⟩
      · exact ih later

theorem AreSpelled.inj (spelled : AreSpelled spelling? item interner texts ids)
    (lossless : ∀ text spelling, spelling? text = some spelling → spelling.text = text)
    (injective : Function.Injective item) {left right : ι} (leftMem : left ∈ ids)
    (rightMem : right ∈ ids) (same : interner.text (item left) = interner.text (item right)) :
    left = right := by
  obtain ⟨text, spelling, read, written⟩ := spelled.exists_of_mem leftMem
  obtain ⟨other, otherSpelling, otherRead, otherWritten⟩ := spelled.exists_of_mem rightMem
  have texts : text = other :=
    calc text = spelling.text := (lossless text spelling read).symm
      _ = interner.text (item left) := (text_of_spell? written).symm
      _ = interner.text (item right) := same
      _ = otherSpelling.text := text_of_spell? otherWritten
      _ = other := lossless other otherSpelling otherRead
  cases texts
  cases read.symm.trans otherRead
  exact injective (spell?_inj written otherWritten)

theorem AreSpelled.map_text_foldl_addNew [DecidableEq ι]
    (spelled : AreSpelled spelling? item interner texts ids)
    (lossless : ∀ text spelling, spelling? text = some spelling → spelling.text = text)
    (injective : Function.Injective item) :
    (ids.foldl Roots.addNew []).map (fun id => interner.text (item id)) = texts.eraseDups := by
  have apart (left : ι) (leftMem : left ∈ ids) (right : ι) (rightMem : right ∈ ids) :=
    spelled.inj lossless injective leftMem rightMem
  have shown : ids.map (fun id => interner.text (item id)) = texts :=
    (spelled.map_text lossless).trans texts.map_id
  rw [foldl_addNew, List.nil_append, List.filter_eq_self.mpr (by simp), ← eraseDups_map apart,
    shown]

theorem areSpelled_internTypes (interner : Interner) (descriptors : List String) :
    AreSpelled (some ∘ .type) .type (interner.internTypes descriptors).2 descriptors
      (interner.internTypes descriptors).1 := by
  have spelled := spellTypes?_internTypes interner descriptors
  generalize (interner.internTypes descriptors).1 = types,
    (interner.internTypes descriptors).2 = grown at spelled
  induction types generalizing descriptors with
  | nil =>
      cases spelled
      exact .nil
  | cons type types ih =>
      obtain ⟨first, rest, here, others, rfl⟩ := spellTypes?_cons_eq_some.mp spelled
      exact .cons ⟨_, rfl, spell?_eq_some.mpr (.type here)⟩ (ih rest others)

end Roots

/-- Written out, the roots are the texts that are to be kept, each at its first place. -/
structure Keep.IsReadAs (keep : Keep) (roots : Roots) (interner : Interner) : Prop where
  classes : roots.classes.map interner.typeText = keep.classes.eraseDups
  methods : roots.methods.map interner.methodText = keep.methods.eraseDups
  fields : roots.fields.map interner.fieldText = keep.fields.eraseDups
  pinnedNames : roots.pinnedNames.map interner.methodText = keep.pinnedNames.eraseDups

theorem exists_ofKeep {keep : Keep} (methods : ∀ text ∈ keep.methods, isMethodText text)
    (pinnedNames : ∀ text ∈ keep.pinnedNames, isMethodText text)
    (fields : ∀ text ∈ keep.fields, isFieldText text) (interner : Interner) :
    ∃ roots grown, (Roots.ofKeep keep).run.run interner = (.ok roots, grown) ∧
      keep.IsReadAs roots grown := by
  simp only [isMethodText_eq, isFieldText_eq] at methods pinnedNames fields
  -- each reading adds to the references of the one before, and what was read keeps its spelling
  let start := interner.internTypes keep.classes
  have begun : (modifyGet fun (interner : Interner) => interner.internTypes keep.classes :
      Interning (List TypeId)).run.run interner = (.ok start.1, start.2) := rfl
  obtain ⟨methodIds, second, ranMethods, first, methodsSpelled⟩ :=
    Interning.exists_mapM_internMember reads_parseMethod? methods start.2
  obtain ⟨fieldIds, third, ranFields, next, fieldsSpelled⟩ :=
    Interning.exists_mapM_internMember reads_parseField? fields second
  obtain ⟨pinnedIds, grown, ranPinned, last, pinnedSpelled⟩ :=
    Interning.exists_mapM_internMember reads_parseMethod? pinnedNames third
  let roots : Roots := {
    classes := start.1.foldl Roots.addNew []
    methods := methodIds.foldl Roots.addNew []
    fields := fieldIds.foldl Roots.addNew []
    pinnedNames := pinnedIds.foldl Roots.addNew [] }
  refine ⟨roots, grown, ?_, ?_⟩
  · rw [Roots.ofKeep, Interning.run_bind_of_ok begun, Interning.run_bind_of_ok ranMethods,
      Interning.run_bind_of_ok ranFields, Interning.run_bind_of_ok ranPinned]
    rfl
  · have classesSpelled := areSpelled_internTypes interner keep.classes
    have lossless (text : String) (spelling : Spelling) (read : (some ∘ .type) text = some spelling) :
        spelling.text = text := by
      cases read
      rfl
    exact {
      classes := (classesSpelled.grow ((first.trans next).trans last)).map_text_foldl_addNew
        lossless (fun _ _ => Item.type.inj)
      methods := (methodsSpelled.grow (next.trans last)).map_text_foldl_addNew
        (fun _ _ => text_of_methodSpelling?) (fun _ _ => Item.method.inj)
      fields := (fieldsSpelled.grow last).map_text_foldl_addNew
        (fun _ _ => text_of_fieldSpelling?) (fun _ _ => Item.field.inj)
      pinnedNames := pinnedSpelled.map_text_foldl_addNew
        (fun _ _ => text_of_methodSpelling?) (fun _ _ => Item.method.inj) }

def AssertionHandler.spelling? (handler : AssertionHandler) : Option Spelling :=
  (describedProto? handler.descriptor).map (.method handler.holder handler.name)

theorem AssertionHandler.text_of_spelling? {handler : AssertionHandler} {spelling : Spelling}
    (read : handler.spelling? = some spelling) : spelling.text = handler.text := by
  obtain ⟨proto, described, rfl⟩ := Option.map_eq_some_iff.mp read
  rw [Spelling.text, text_of_describedProto? described, text]

theorem exists_internHandlers {options : Options}
    (valid : ∀ handler ∈ options.assertionHandlers, handler.check = .ok ()) (interner : Interner) :
    ∃ handlers grown, options.internHandlers.run.run interner = (.ok handlers, grown) ∧
      handlers.map grown.methodText = options.assertionHandlers.map AssertionHandler.text := by
  have gives (handler : AssertionHandler) (member : handler ∈ options.assertionHandlers) :
      ∃ spelling, handler.spelling? = some spelling ∧ handler.intern.Gives .method spelling := by
    have described : handler.spelling?.isSome := by
      simpa [AssertionHandler.spelling?, describedProto?, Descriptor.isMethod] using
        AssertionHandler.isMethod_of_check (valid handler member)
    obtain ⟨spelling, read⟩ := Option.isSome_iff_exists.mp described
    refine ⟨spelling, read, ?_⟩
    rw [intern_eq]
    exact Interning.gives_internMember (reads_internMethodParts? ..) read
  obtain ⟨handlers, grown, ran, -, spelled⟩ := Interning.exists_mapM gives interner
  exact ⟨handlers, grown, ran, spelled.map_text fun _ _ => AssertionHandler.text_of_spelling?⟩

/-- Validation accepts a member text exactly if it can be read, whatever references there are. So valid
options become references without a failure, and these are written as the options are. -/
theorem valid_options_read_back :
    (∀ interner text, isMethodText text = (parseMethod? interner text).isSome) ∧
      (∀ interner text, isFieldText text = (parseField? interner text).isSome) ∧
      ∀ options : Options, options.validate = .ok () → ∀ interner,
        (∃ roots grown, (Roots.ofKeep options.keep).run.run interner = (.ok roots, grown) ∧
          options.keep.IsReadAs roots grown) ∧
        ∃ handlers grown, options.internHandlers.run.run interner = (.ok handlers, grown) ∧
          handlers.map grown.methodText = options.assertionHandlers.map fun handler =>
            handler.holder ++ "->" ++ handler.name ++ handler.descriptor := by
  refine ⟨fun interner text => ?_, fun interner text => ?_, fun options valid interner => ?_⟩
  · rw [isMethodText_eq, (reads_parseMethod? text).isSome interner]
  · rw [isFieldText_eq, (reads_parseField? text).isSome interner]
  · obtain ⟨handlers, -, methods, pinnedNames, fields⟩ := validate_eq_ok.mp valid
    exact ⟨exists_ofKeep methods pinnedNames fields interner,
      exists_internHandlers handlers interner⟩

namespace Unusual

/-- A second arrow, a colon and a parenthesis are parts of names. -/
def options : Options where
  assertionHandlers := [⟨"LH;", "fail", "(LX;)V"⟩]
  keep := {
    classes := ["LB;", "LA;", "LB;"]
    methods := ["LA;->a->b:c(I[J)V", "LA;->run()V", "LA;->a->b:c(I[J)V"]
    fields := ["LA;->x(:[Z"] }

theorem valid : options.validate = .ok () := by
  decide +kernel

end Unusual

open Unusual in
theorem valid_options_read_back_unusual :
    options.validate = .ok () ∧
      (∃ roots grown, (Roots.ofKeep options.keep).run.run .standard = (.ok roots, grown) ∧
        roots.methods.map grown.methodText = ["LA;->a->b:c(I[J)V", "LA;->run()V"] ∧
        roots.fields.map grown.fieldText = ["LA;->x(:[Z"]) ∧
      ∃ handlers grown, options.internHandlers.run.run .standard = (.ok handlers, grown) ∧
        handlers.map grown.methodText = ["LH;->fail(LX;)V"] := by
  obtain ⟨-, -, reads⟩ := valid_options_read_back
  obtain ⟨⟨roots, grown, ran, read⟩, handlers⟩ := reads options valid .standard
  refine ⟨valid, ⟨roots, grown, ran, ?_, ?_⟩, handlers⟩
  · exact read.methods
  · exact read.fields

end Shrinker.Options
