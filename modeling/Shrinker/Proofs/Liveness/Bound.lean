import Mathlib.Tactic.Ring
import Shrinker.Proofs.Liveness.Progress
import Shrinker.Proofs.Liveness.Uses
import Shrinker.Proofs.Program.Found

namespace Shrinker.Liveness

open Bytecode Reference Program

namespace Vocabulary

/-- Everything mentioned on the right is mentioned on the left. -/
structure Covers (vocabulary mentioned : Vocabulary) : Prop where
  types : mentioned.types ⊆ vocabulary.types
  methods : mentioned.methods ⊆ vocabulary.methods
  fields : mentioned.fields ⊆ vocabulary.fields

def reasons : List Reason :=
  [.keepRule, .classInitializer, .override] ++ InvokeKind.all.map .invoke

def contexts (vocabulary : Vocabulary) : List (Option MethodId) :=
  none :: vocabulary.methods.map some

def actions (vocabulary : Vocabulary) : List Action :=
  vocabulary.types.map .markClass ++ vocabulary.types.map .markInstantiated ++
    vocabulary.methods.flatMap (fun method => reasons.map (.markMethod method)) ++
    vocabulary.fields.map .markField ++
    vocabulary.methods.flatMap (fun method => vocabulary.contexts.flatMap fun context =>
      InvokeKind.all.map (.traceInvoke · method context)) ++
    vocabulary.fields.flatMap fun field => vocabulary.contexts.flatMap fun context =>
      [.traceStaticRead field context, .traceStaticWrite field context,
        .traceInstanceRead field context, .traceInstanceWrite field context]

theorem length_actions (vocabulary : Vocabulary) :
    vocabulary.actions.length = vocabulary.actionCount := by
  simp only [actions, contexts, actionCount, reasons, InvokeKind.all, List.length_append,
    List.length_map, List.length_flatMap, List.length_cons, List.length_nil, List.map_const',
    List.sum_replicate_nat]
  ring

theorem mem_reasons (reason : Reason) : reason ∈ reasons := by
  cases reason with
  | invoke kind => cases kind <;> decide
  | _ => decide

theorem mem_contexts {vocabulary : Vocabulary} {context : Option MethodId}
    (known : context.toList ⊆ vocabulary.methods) : context ∈ vocabulary.contexts := by
  cases context with
  | none => exact List.mem_cons_self
  | some method =>
      have listed : method ∈ vocabulary.methods := known (by simp)
      exact List.mem_cons_of_mem _ (List.mem_map_of_mem listed)

theorem mem_actions {vocabulary : Vocabulary} {action : Action}
    (covers : vocabulary.Covers action.vocabulary) : action ∈ vocabulary.actions := by
  obtain ⟨types, methods, fields⟩ := covers
  simp only [actions, List.mem_append, List.mem_map, List.mem_flatMap]
  cases action with
  | markClass type => simpa [Action.vocabulary] using types
  | markInstantiated type => simpa [Action.vocabulary] using types
  | markMethod method reason => simpa [Action.vocabulary, mem_reasons] using methods
  | markField field => simpa [Action.vocabulary] using fields
  | traceInvoke kind method context =>
      obtain ⟨called, within⟩ := List.cons_subset.mp methods
      have kinds : kind ∈ InvokeKind.all := by cases kind <;> decide
      exact Or.inl (Or.inr ⟨method, called, context, mem_contexts within, kind, kinds, rfl⟩)
  | traceStaticRead field context | traceStaticWrite field context
  | traceInstanceRead field context | traceInstanceWrite field context =>
      have named : field ∈ vocabulary.fields := fields List.mem_cons_self
      exact Or.inr ⟨field, named, context, mem_contexts methods, by simp⟩

theorem Covers.refl (vocabulary : Vocabulary) : vocabulary.Covers vocabulary :=
  ⟨List.Subset.refl _, List.Subset.refl _, List.Subset.refl _⟩

theorem Covers.trans {first second third : Vocabulary} (covers : first.Covers second)
    (further : second.Covers third) : first.Covers third :=
  ⟨List.Subset.trans further.types covers.types, List.Subset.trans further.methods covers.methods,
    List.Subset.trans further.fields covers.fields⟩

theorem covers_join_left (left right : Vocabulary) : (left.join right).Covers left :=
  ⟨List.subset_append_left _ _, List.subset_append_left _ _, List.subset_append_left _ _⟩

theorem covers_join_right (left right : Vocabulary) : (left.join right).Covers right :=
  ⟨List.subset_append_right _ _, List.subset_append_right _ _, List.subset_append_right _ _⟩

theorem covers_foldl_join (parts : List Vocabulary) (start : Vocabulary) :
    (parts.foldl join start).Covers start := by
  induction parts generalizing start with
  | nil => exact Covers.refl start
  | cons part parts ih => exact (ih (start.join part)).trans (covers_join_left start part)

theorem covers_foldl_join_of_mem {parts : List Vocabulary} {part : Vocabulary}
    (member : part ∈ parts) (start : Vocabulary) : (parts.foldl join start).Covers part := by
  induction parts generalizing start with
  | nil => cases member
  | cons first parts ih =>
      rcases List.mem_cons.mp member with rfl | later
      · exact (covers_foldl_join parts (start.join part)).trans (covers_join_right start part)
      · exact ih later (start.join first)

end Vocabulary

namespace Trace

/-- The vocabulary has all that the program, the handlers and the roots mention. -/
structure Knows (program : Program) (handlers : List MethodId) (roots : Roots)
    (words : Vocabulary) : Prop where
  roots : words.Covers ⟨roots.classes, roots.methods, roots.fields⟩
  classes : ∀ definition ∈ program.classes, words.Covers (classVocabulary definition)
  handlers : handlers ⊆ words.methods
  holders : ∀ field ∈ words.fields, (program.interner.field field).holder ∈ words.types

variable {program : Program} {handlers : List MethodId} {roots : Roots} {words : Vocabulary}

section Mentioned

variable {σ : Type} {analyses : List (Analysis σ)}

theorem covers_with_types (mentioned : Vocabulary) (more : List TypeId) :
    ({ mentioned with types := mentioned.types ++ more } : Vocabulary).Covers mentioned :=
  ⟨List.subset_append_left _ _, List.Subset.refl _, List.Subset.refl _⟩

theorem knows_vocabulary_nil : Knows program [] roots (vocabulary program analyses roots) := by
  refine ⟨?_, ?_, List.nil_subset _, ?_⟩
  · exact (covers_with_types _ _).trans (Vocabulary.covers_foldl_join _ _)
  · intro definition member
    refine (covers_with_types _ _).trans (Vocabulary.covers_foldl_join_of_mem ?_ _)
    exact List.mem_append_left _ (List.mem_map_of_mem member)
  · intro field mentioned
    exact List.mem_append_right _ (List.mem_map_of_mem mentioned)

theorem covers_vocabulary {analysis : Analysis σ} (member : analysis ∈ analyses) :
    (vocabulary program analyses roots).Covers analysis.vocabulary := by
  refine (covers_with_types _ _).trans (Vocabulary.covers_foldl_join_of_mem ?_ _)
  exact List.mem_append_right _ (List.mem_map_of_mem member)

theorem knows_vocabulary :
    Knows program handlers roots
      (vocabulary program ([Assertions.analysis handlers] : List (Analysis σ)) roots) := by
  have own : (vocabulary program [Assertions.analysis handlers] roots).Covers
      (Assertions.analysis handlers : Analysis σ).vocabulary :=
    covers_vocabulary List.mem_cons_self
  exact { knows_vocabulary_nil with handlers := own.methods }

end Mentioned

section Coverage

theorem covers_classVocabulary {definition : ClassDef} {method : MethodDef}
    (member : method ∈ definition.methods) :
    (classVocabulary definition).Covers (methodVocabulary method) :=
  Vocabulary.covers_foldl_join_of_mem (List.mem_map_of_mem member) _

theorem Knows.parents (knows : Knows program handlers roots words) {definition : ClassDef}
    (member : definition ∈ program.classes) :
    definition.type ∈ words.types ∧ definition.parents ⊆ words.types := by
  have own := (knows.classes definition member).trans (Vocabulary.covers_foldl_join _ _)
  exact List.cons_subset.mp own.types

theorem Knows.method (knows : Knows program handlers roots words) {hit : MethodHit}
    (declared : hit.Declared program) : hit.definition.method ∈ words.methods := by
  have own := (knows.classes hit.holder declared.holder).trans
    (covers_classVocabulary declared.definition)
  exact (own.trans (Vocabulary.covers_join_left _ _)).methods List.mem_cons_self

theorem Knows.code (knows : Knows program handlers roots words) {hit : MethodHit}
    (declared : hit.Declared program) {code : Code} (body : hit.definition.code = some code) :
    words.Covers (codeVocabulary code) := by
  have own := (knows.classes hit.holder declared.holder).trans
    (covers_classVocabulary declared.definition)
  have inner := own.trans (Vocabulary.covers_join_right _ _)
  rw [body] at inner
  exact inner

theorem Knows.field (knows : Knows program handlers roots words) {hit : FieldHit}
    (declared : hit.Declared program) : hit.definition.field ∈ words.fields := by
  have own := (knows.classes hit.holder declared.holder).trans (Vocabulary.covers_foldl_join _ _)
  exact own.fields (List.mem_map_of_mem declared.definition)

theorem covers_symbolic? {code : RegisterCode} {instruction : Instruction}
    {symbol : StackInstruction} (read : symbolic? code.references instruction = some symbol) :
    (codeVocabulary (.register code)).Covers (instructionVocabulary symbol) := by
  obtain ⟨index, -, pointed⟩ := Option.bind_eq_some_iff.mp read
  cases opcode : instruction.opcode with
  | newInstance | constClass =>
      simp only [opcode] at pointed
      obtain ⟨type, found, rfl⟩ := Option.map_eq_some_iff.mp pointed
      exact ⟨List.cons_subset.mpr ⟨List.mem_of_getElem? found, List.nil_subset _⟩,
        List.nil_subset _, List.nil_subset _⟩
  | sget | sgetBoolean | sput | sputBoolean | iget | igetBoolean | iput | iputBoolean =>
      simp only [opcode] at pointed
      obtain ⟨field, found, rfl⟩ := Option.map_eq_some_iff.mp pointed
      exact ⟨List.nil_subset _, List.nil_subset _,
        List.cons_subset.mpr ⟨List.mem_of_getElem? found, List.nil_subset _⟩⟩
  | invokeVirtual | invokeVirtualRange | invokeSuper | invokeSuperRange | invokeDirect
  | invokeDirectRange | invokeStatic | invokeStaticRange | invokeInterface
  | invokeInterfaceRange =>
      simp only [opcode] at pointed
      obtain ⟨method, found, rfl⟩ := Option.map_eq_some_iff.mp pointed
      exact ⟨List.nil_subset _,
        List.cons_subset.mpr ⟨List.mem_of_getElem? found, List.nil_subset _⟩, List.nil_subset _⟩
  | _ =>
      simp only [opcode] at pointed
      cases pointed

theorem covers_uses {code : Code} {instruction : StackInstruction}
    (member : instruction ∈ uses code) :
    (codeVocabulary code).Covers (instructionVocabulary instruction) := by
  cases code with
  | stack instructions =>
      exact Vocabulary.covers_foldl_join_of_mem (List.mem_map_of_mem member) _
  | register code =>
      obtain ⟨source, -, read⟩ := List.mem_filterMap.mp member
      exact covers_symbolic? read

theorem covers_stackAction? {context : MethodId} {instruction : StackInstruction} {action : Action}
    (covers : words.Covers (instructionVocabulary instruction)) (within : context ∈ words.methods)
    (issued : stackAction? context instruction = some action) :
    words.Covers action.vocabulary := by
  obtain ⟨types, methods, fields⟩ := covers
  cases instruction with
  | invoke kind method =>
      cases issued
      have both : [method, context] ⊆ words.methods :=
        List.cons_subset.mpr ⟨methods List.mem_cons_self, by simpa using within⟩
      exact ⟨types, both, fields⟩
  | staticGet field | staticPut field | instanceGet field | instancePut field =>
      cases issued
      exact ⟨types, by simpa [Action.vocabulary] using within, fields⟩
  | new type | constClass type =>
      cases issued
      exact ⟨types, methods, fields⟩
  | _ => cases issued

theorem covers_type {type : TypeId} (known : type ∈ words.types) :
    words.Covers { types := [type] } :=
  ⟨by simpa using known, List.nil_subset _, List.nil_subset _⟩

theorem covers_method {method : MethodId} (known : method ∈ words.methods) :
    words.Covers { methods := [method] } :=
  ⟨List.nil_subset _, by simpa using known, List.nil_subset _⟩

theorem covers_field {field : FieldId} (known : field ∈ words.fields) :
    words.Covers { fields := [field] } :=
  ⟨List.nil_subset _, List.nil_subset _, by simpa using known⟩

theorem declared_of_calledMethod? {kind : InvokeKind} {method : MethodId} {hit : MethodHit}
    (found : calledMethod? program kind method = some hit) : hit.Declared program := by
  cases kind with
  | direct => exact (declared_of_methodDefinition? found).1
  | _ => exact declared_of_resolveMethod? found

theorem Knows.fieldActions (knows : Knows program handlers roots words) {field : FieldId}
    {action : Action} (needed : action ∈ fieldActions program field) :
    words.Covers action.vocabulary := by
  obtain ⟨hit, found, rfl⟩ := mem_fieldActions.mp needed
  exact covers_field (knows.field (declared_of_resolveField? found))

theorem Knows.classActions (knows : Knows program handlers roots words) {type : TypeId}
    {action : Action} (needed : action ∈ classActions program type) :
    words.Covers action.vocabulary := by
  obtain ⟨definition, defined, consequence⟩ := mem_classActions.mp needed
  have member := (mem_of_definition? defined).1
  rcases consequence with ⟨parent, above, rfl⟩ | ⟨-, initializer, found, rfl⟩
  · exact covers_type ((knows.parents member).2 above)
  · have declared : (⟨definition, initializer⟩ : MethodHit).Declared program :=
      ⟨member, List.mem_append_left _ (List.mem_of_find?_eq_some found)⟩
    exact covers_method (knows.method declared)

theorem Knows.methodNeeds (knows : Knows program handlers roots words) {method : MethodId}
    (mentioned : method ∈ words.methods) {action : Action}
    (needed : action ∈ methodNeeds program method) : words.Covers action.vocabulary := by
  obtain ⟨hit, found, consequence⟩ := mem_methodNeeds.mp needed
  have declared := (declared_of_methodDefinition? found).1
  rcases consequence with rfl | ⟨actions, read, issued⟩
  · exact covers_type (knows.parents declared.holder).1
  · obtain ⟨-, code, body, instruction, used, symbol⟩ := (mem_methodBody read).mp issued
    exact covers_stackAction? ((knows.code declared body).trans (covers_uses used)) mentioned symbol

theorem Knows.needs (knows : Knows program handlers roots words) {cause action : Action}
    (covers : words.Covers cause.vocabulary) (needed : action ∈ needs program handlers cause) :
    words.Covers action.vocabulary := by
  cases cause with
  | markClass type => exact knows.classActions needed
  | markInstantiated type =>
      cases List.mem_singleton.mp needed
      exact covers
  | markMethod method reason =>
      exact knows.methodNeeds (covers.methods List.mem_cons_self) needed
  | markField field =>
      cases List.mem_singleton.mp needed
      exact covers_type (knows.holders field (covers.fields List.mem_cons_self))
  | traceInvoke kind method context =>
      obtain ⟨hit, found, rfl⟩ := mem_invokeActions.mp needed
      exact covers_method (knows.method (declared_of_calledMethod? found))
  | traceStaticRead field context =>
      rcases List.mem_append.mp needed with resolved | asked
      · exact knows.fieldActions resolved
      · obtain ⟨-, handler, listed, rfl⟩ := mem_statusActions.mp asked
        exact ⟨List.nil_subset _,
          List.cons_subset.mpr ⟨knows.handlers listed, covers.methods⟩, List.nil_subset _⟩
  | traceStaticWrite field context | traceInstanceRead field context
  | traceInstanceWrite field context => exact knows.fieldActions needed

/-- Nothing that is derived mentions anything new. -/
theorem Knows.derived (knows : Knows program handlers roots words) {action : Action}
    (derived : Derived program handlers (rootActions program roots) action) :
    words.Covers action.vocabulary := by
  induction derived with
  | start first =>
      rcases mem_rootActions.mp first with ⟨type, kept, rfl⟩ | ⟨method, kept, -, rfl⟩ |
        ⟨field, kept, rfl⟩
      · exact covers_type (knows.roots.types kept)
      · exact covers_method (knows.roots.methods kept)
      · exact covers_field (knows.roots.fields kept)
  | need _ needed ih => exact knows.needs ih needed
  | override _ _ _ overrides =>
      obtain ⟨-, hit, found, rfl⟩ := mem_overrideActions.mp overrides
      exact covers_method (knows.method (declared_of_dispatchMethod? found))

end Coverage

variable {σ : Type}

/-- Accepted actions are all different, so no more are accepted than there are over these words. -/
theorem length_le_actionCount {worklist : Worklist} {taken : List Action}
    (accounts : worklist.Accounts taken)
    (covers : ∀ action ∈ worklist.seen, words.Covers action.vocabulary) :
    taken.length + worklist.queue.length ≤ words.actionCount := by
  rw [← accounts.length_seen, ← Vocabulary.length_actions]
  exact accounts.nodup.length_le_of_subset fun action seen =>
    Vocabulary.mem_actions (covers action seen)

theorem Tracks.length_le {taken : List Action} {state : TraceState σ}
    (tracks : Tracks program handlers (rootActions program roots) taken state) :
    taken.length + state.worklist.queue.length ≤
      (vocabulary program ([Assertions.analysis handlers] : List (Analysis σ)) roots).actionCount :=
  length_le_actionCount tracks.accounts fun _ seen =>
    knows_vocabulary.derived (tracks.derived_of_mem_seen seen)

theorem queue_eq_nil_of_run {data : σ} {final : TraceState σ}
    (done : run program [Assertions.analysis handlers]
      (vocabulary program ([Assertions.analysis handlers] : List (Analysis σ)) roots).actionCount
      (enqueueAll { data } (rootActions program roots)) = .ok final) :
    final.worklist.queue = [] := by
  obtain ⟨taken, tracks, outcome⟩ := (Tracks.initial program handlers _ data).run done
  rcases outcome with empty | long
  · exact empty
  · have bounded := tracks.length_le
    rw [List.length_nil, Nat.zero_add] at long
    exact List.eq_nil_of_length_eq_zero (by omega)

/-- A trace that ends has taken all that is derived, and nothing else. -/
theorem run_complete {data : σ} {final : TraceState σ}
    (done : run program [Assertions.analysis handlers]
      (vocabulary program ([Assertions.analysis handlers] : List (Analysis σ)) roots).actionCount
      (enqueueAll { data } (rootActions program roots)) = .ok final) :
    ∃ taken, Tracks program handlers (rootActions program roots) taken final ∧
      ∀ action, action ∈ taken ↔ Derived program handlers (rootActions program roots) action := by
  obtain ⟨taken, tracks, -⟩ := (Tracks.initial program handlers _ data).run done
  exact ⟨taken, tracks, tracks.mem_taken_iff (queue_eq_nil_of_run done)⟩

end Trace

end Shrinker.Liveness
