import Shrinker.Proofs.Liveness.Bound

namespace Shrinker.Liveness

open Bytecode Reference Program

variable {σ : Type}

/-- All that the analysis asks for is mentioned in the program, in what it is told of or in its own
vocabulary. -/
structure Analysis.IsModest (analysis : Analysis σ) (program : Program) : Prop where
  methodLive : ∀ words live worklist hit data response, Trace.Knows program [] {} words →
    words.Covers analysis.vocabulary → hit.Declared program →
      analysis.methodLive ⟨program, live, worklist⟩ hit data = .ok response →
        ∀ action ∈ response.actions, words.Covers action.vocabulary
  staticRead : ∀ words live worklist field context data response, Trace.Knows program [] {} words →
    words.Covers analysis.vocabulary → words.Covers { fields := [field], methods := context.toList } →
      analysis.staticRead ⟨program, live, worklist⟩ field (program.resolveField? field) context data =
          .ok response →
        ∀ action ∈ response.actions, words.Covers action.vocabulary

theorem Assertions.isModest_analysis (handlers : List MethodId) (program : Program) :
    (Assertions.analysis handlers : Analysis σ).IsModest program where
  methodLive words live worklist hit data response _ _ _ told action asked := by
    cases told
    cases asked
  staticRead words live worklist field context data response _ own known told action asked := by
    cases told
    obtain ⟨-, handler, listed, rfl⟩ := Trace.mem_statusActions.mp asked
    exact ⟨List.nil_subset _, List.cons_subset.mpr ⟨own.methods listed, known.methods⟩,
      List.nil_subset _⟩

namespace Trace

structure Extends (words : Vocabulary) (state next : TraceState σ) : Prop where
  asked : ∃ actions, next.worklist = state.worklist.enqueueAll actions ∧
    ∀ action ∈ actions, words.Covers action.vocabulary
  processed : next.processed = state.processed

section Steps

variable {program : Program} {analyses : List (Analysis σ)} {roots : Roots} {words : Vocabulary}
  {state middle next : TraceState σ} {action : Action} {actions : List Action}

theorem Knows.rootless (knows : Knows program [] roots words) : Knows program [] {} words :=
  { knows with roots := ⟨List.nil_subset _, List.nil_subset _, List.nil_subset _⟩ }

theorem Extends.refl (state : TraceState σ) : Extends words state state :=
  ⟨⟨[], rfl, List.forall_mem_nil _⟩, rfl⟩

theorem Extends.trans (first : Extends words state middle) (second : Extends words middle next) :
    Extends words state next := by
  obtain ⟨⟨early, worklist, earlyCovered⟩, processed⟩ := first
  obtain ⟨⟨late, further, lateCovered⟩, same⟩ := second
  refine ⟨⟨early ++ late, ?_, List.forall_mem_append.mpr ⟨earlyCovered, lateCovered⟩⟩,
    same.trans processed⟩
  rw [further, worklist, Worklist.enqueueAll_append]

theorem Extends.enqueueAll (covers : ∀ action ∈ actions, words.Covers action.vocabulary)
    (worklist : middle.worklist = state.worklist) (processed : middle.processed = state.processed) :
    Extends words state (enqueueAll middle actions) :=
  ⟨⟨actions, congrArg (·.enqueueAll actions) worklist, covers⟩, processed⟩

theorem Extends.notify {hook : Analysis σ → Snapshot → σ → Except Error (Response σ)}
    (covers : ∀ analysis ∈ analyses, ∀ live worklist data response,
      hook analysis ⟨program, live, worklist⟩ data = .ok response →
        ∀ action ∈ response.actions, words.Covers action.vocabulary)
    (told : notify program hook analyses state = .ok next) : Extends words state next := by
  induction analyses generalizing state with
  | nil =>
      cases told
      exact .refl _
  | cons analysis analyses ih =>
      obtain ⟨first, others⟩ := List.forall_mem_cons.mp covers
      unfold Trace.notify at told
      split at told
      · cases told
      · rename_i response answered
        have asked := first _ _ _ _ answered
        have later := ih others told
        refine Extends.trans ?_ later
        exact ⟨⟨response.actions, rfl, asked⟩, rfl⟩

theorem Extends.markMethod (modest : ∀ analysis ∈ analyses, analysis.IsModest program)
    (knows : Knows program [] {} words)
    (own : ∀ analysis ∈ analyses, words.Covers analysis.vocabulary) {method : MethodId}
    (mentioned : method ∈ words.methods)
    (done : markMethod program analyses method state = .ok next) : Extends words state next := by
  have needed : ∀ action ∈ methodNeeds program method, words.Covers action.vocabulary :=
    fun _ => knows.methodNeeds mentioned
  have holder {hit : MethodHit} (found : program.methodDefinition? method = some hit) :
      Extends words state (Trace.enqueueAll { state with live := state.live.addMethod method }
        [.markClass hit.holder.type]) := by
    refine .enqueueAll (List.forall_mem_singleton.mpr (needed _ ?_)) rfl rfl
    exact mem_methodNeeds.mpr ⟨hit, found, Or.inl rfl⟩
  cases marked_of_markMethod done with
  | kept settled => exact .refl state
  | library found fresh outside => exact holder found
  | @told hit actions _ found fresh inside read notified =>
      have body : ∀ action ∈ actions, words.Covers action.vocabulary := fun action listed =>
        needed action (mem_methodNeeds.mpr ⟨hit, found, Or.inr ⟨actions, read, listed⟩⟩)
      refine ((holder found).trans (.enqueueAll body rfl rfl)).trans (.notify ?_ notified)
      intro analysis member live worklist data response
      exact (modest analysis member).methodLive words live worklist hit data response knows
        (own analysis member) (declared_of_methodDefinition? found).1

theorem Knows.overrideActions (knows : Knows program [] {} words) {type : TypeId} {target : MethodId}
    (listed : action ∈ overrideActions program type target) : words.Covers action.vocabulary := by
  obtain ⟨-, hit, found, rfl⟩ := mem_overrideActions.mp listed
  exact covers_method (knows.method (declared_of_dispatchMethod? found))

theorem Extends.process (modest : ∀ analysis ∈ analyses, analysis.IsModest program)
    (knows : Knows program [] {} words)
    (own : ∀ analysis ∈ analyses, words.Covers analysis.vocabulary)
    (covers : words.Covers action.vocabulary)
    (done : process program analyses action state = .ok next) : Extends words state next := by
  have needed : ∀ other ∈ needs program [] action, words.Covers other.vocabulary :=
    fun _ => knows.needs covers
  cases action with
  | markClass type =>
      cases done
      unfold Trace.markClass
      split
      · exact .refl state
      · exact .enqueueAll needed rfl rfl
  | markInstantiated type =>
      cases done
      unfold Trace.markInstantiated
      split
      · exact .refl state
      · refine .enqueueAll (List.forall_mem_cons.mpr ⟨covers, ?_⟩) rfl rfl
        intro action listed
        obtain ⟨target, -, overrides⟩ := List.mem_flatMap.mp listed
        exact knows.overrideActions overrides
  | markMethod method reason =>
      exact .markMethod modest knows own (covers.methods List.mem_cons_self) done
  | markField field =>
      cases done
      unfold Trace.markField
      split
      · exact .refl state
      · exact .enqueueAll needed rfl rfl
  | traceInvoke kind method context =>
      cases done
      have called : Extends words state
          (Trace.enqueueAll state (invokeActions program kind method)) :=
        .enqueueAll needed rfl rfl
      unfold Trace.traceInvoke
      dsimp only
      split
      · refine called.trans (.enqueueAll ?_ rfl rfl)
        intro action listed
        obtain ⟨type, -, overrides⟩ := List.mem_flatMap.mp listed
        exact knows.overrideActions overrides
      · exact called
  | traceStaticRead field context =>
      have resolved : Extends words state (Trace.enqueueAll state (fieldActions program field)) :=
        .enqueueAll (fun _ => knows.fieldActions) rfl rfl
      refine resolved.trans (.notify ?_ done)
      intro analysis member live worklist data response
      exact (modest analysis member).staticRead words live worklist field context data response knows
        (own analysis member) covers
  | traceStaticWrite field context | traceInstanceRead field context
  | traceInstanceWrite field context =>
      cases done
      exact .enqueueAll needed rfl rfl

end Steps

/-- The actions taken one after the other from a first state, with no bound on their number. -/
inductive Takes (program : Program) (analyses : List (Analysis σ)) (first : TraceState σ) :
    List Action → TraceState σ → Prop
  | start : Takes program analyses first [] first
  | take {taken : List Action} {state next : TraceState σ} {action : Action} {worklist : Worklist}
      (before : Takes program analyses first taken state)
      (polled : state.worklist.poll = some (action, worklist))
      (done : process program analyses action { state with worklist } = .ok next) :
      Takes program analyses first (taken ++ [action])
        { next with processed := next.processed + 1 }

/-- The loop stops here with this result: nothing is pending, or the next action fails. -/
inductive Stops (program : Program) (analyses : List (Analysis σ)) (state : TraceState σ) :
    Except Error TraceResult → Prop
  | finished (empty : state.worklist.queue = []) :
      Stops program analyses state (.ok ⟨state.live, state.reported, state.processed⟩)
  | failed {action : Action} {worklist : Worklist} {failure : Failure σ}
      (polled : state.worklist.poll = some (action, worklist))
      (cause : process program analyses action { state with worklist } = .error failure) :
      Stops program analyses state (.error failure.error)

def result : Except (Failure σ) (TraceState σ) → Except Error TraceResult
  | .error failure => .error failure.error
  | .ok state => .ok ⟨state.live, state.reported, state.processed⟩

section Loop

variable {program : Program} {analyses : List (Analysis σ)} {roots : Roots} {data : σ}
  {taken : List Action} {first state : TraceState σ}

theorem Takes.run (takes : Takes program analyses first taken state) (steps : Nat) :
    ∃ all final, Takes program analyses first all final ∧
      (Stops program analyses final (result (run program analyses steps state)) ∨
        run program analyses steps state = .ok final ∧ all.length = taken.length + steps) := by
  induction steps generalizing taken state with
  | zero => exact ⟨taken, state, takes, Or.inr ⟨rfl, rfl⟩⟩
  | succ steps ih =>
      unfold Trace.run
      cases polled : state.worklist.poll with
      | none => exact ⟨taken, state, takes, Or.inl (.finished (Worklist.poll_eq_none.mp polled))⟩
      | some next =>
          obtain ⟨action, worklist⟩ := next
          dsimp only
          cases done : process program analyses action { state with worklist } with
          | error failure => exact ⟨taken, state, takes, Or.inl (.failed polled done)⟩
          | ok next =>
              obtain ⟨all, final, reached, outcome⟩ := ih (takes.take polled done)
              refine ⟨all, final, reached, outcome.imp id (And.imp id ?_)⟩
              intro length
              rw [length, List.length_append, List.length_singleton]
              omega

theorem trace_fst (program : Program) (analyses : List (Analysis σ)) (data : σ) (roots : Roots) :
    ((⟨program, analyses, .idle, data⟩ : Tracer σ).trace roots).1 =
      result (run program analyses (vocabulary program analyses roots).actionCount
        (enqueueAll { data } (rootActions program roots))) := by
  unfold Tracer.trace
  dsimp only
  split <;> rename_i outcome <;> rw [outcome] <;> rfl

structure Keeps (words : Vocabulary) (taken : List Action) (state : TraceState σ) : Prop where
  accounts : state.worklist.Accounts taken
  covers : ∀ action ∈ state.worklist.seen, words.Covers action.vocabulary
  processed : state.processed = taken.length

theorem Keeps.start :
    Keeps (vocabulary program analyses roots) []
      (enqueueAll { data } (rootActions program roots)) := by
  refine ⟨Worklist.Accounts.empty.enqueueAll _, ?_, rfl⟩
  intro action seen
  rcases Worklist.mem_seen_enqueueAll.mp seen with old | root
  · cases old
  · exact knows_vocabulary_nil.derived (.start root)

section Modest

variable {action : Action} {worklist : Worklist} {next : TraceState σ}
  (modest : ∀ analysis ∈ analyses, analysis.IsModest program)
include modest

theorem Keeps.asks (keeps : Keeps (vocabulary program analyses roots) taken state)
    (polled : state.worklist.poll = some (action, worklist))
    (done : process program analyses action { state with worklist } = .ok next) :
    Extends (vocabulary program analyses roots) { state with worklist } next := by
  obtain ⟨rest, pending, -⟩ := Worklist.poll_eq_some.mp polled
  have seen : action ∈ state.worklist.seen :=
    keeps.accounts.mem_seen.mpr (Or.inr (pending ▸ List.mem_cons_self))
  exact .process modest knows_vocabulary_nil.rootless (fun _ => covers_vocabulary)
    (keeps.covers action seen) done

theorem Keeps.take (keeps : Keeps (vocabulary program analyses roots) taken state)
    (polled : state.worklist.poll = some (action, worklist))
    (done : process program analyses action { state with worklist } = .ok next) :
    Keeps (vocabulary program analyses roots) (taken ++ [action])
      { next with processed := next.processed + 1 } := by
  obtain ⟨⟨actions, asked, covered⟩, processed⟩ := keeps.asks modest polled done
  obtain ⟨rest, pending, rfl⟩ := Worklist.poll_eq_some.mp polled
  refine ⟨?_, ?_, ?_⟩
  · rw [asked]
    exact (keeps.accounts.poll pending).2.enqueueAll actions
  · intro other seen
    rw [asked] at seen
    rcases Worklist.mem_seen_enqueueAll.mp seen with old | new
    · exact keeps.covers other old
    · exact covered other new
  · rw [List.length_append, List.length_singleton, ← keeps.processed]
    exact congrArg (· + 1) processed

theorem Takes.keeps
    (takes : Takes program analyses (enqueueAll { data } (rootActions program roots)) taken state) :
    Keeps (vocabulary program analyses roots) taken state := by
  induction takes with
  | start => exact .start
  | take before polled done ih => exact ih.take modest polled done

/-- The steps that a trace allows itself are enough. -/
theorem exists_takes_stops (data : σ) (roots : Roots) :
    ∃ taken final,
      Takes program analyses (enqueueAll { data } (rootActions program roots)) taken final ∧
      Stops program analyses final
        ((⟨program, analyses, .idle, data⟩ : Tracer σ).trace roots).1 := by
  have begun : Takes program analyses (enqueueAll { data } (rootActions program roots)) []
      (enqueueAll { data } (rootActions program roots)) := .start
  obtain ⟨taken, final, takes, outcome⟩ :=
    begun.run (vocabulary program analyses roots).actionCount
  refine ⟨taken, final, takes, ?_⟩
  rw [trace_fst]
  rcases outcome with stops | ⟨done, length⟩
  · exact stops
  · -- as many actions were taken as there are, so none can be pending
    have keeps := takes.keeps modest
    have bounded := length_le_actionCount keeps.accounts keeps.covers
    rw [List.length_nil, Nat.zero_add] at length
    rw [done]
    exact .finished (List.eq_nil_of_length_eq_zero (by omega))

end Modest

end Loop

end Trace

end Shrinker.Liveness
