import Shrinker.Proofs.Liveness.Bound

namespace Shrinker.Liveness

open Bytecode Reference Program

namespace Trace

variable {σ : Type}

/-- One of the pending actions is picked. The others and the instantiated types come in any order. -/
inductive Picks (state : TraceState σ) (action : Action) : TraceState σ → Prop where
  | pick {rest : List Action} {instantiated : List TypeId} :
      state.worklist.queue.Perm (action :: rest) → state.live.instantiated.Perm instantiated →
        Picks state action
          { state with
            worklist := { state.worklist with queue := rest }
            live := { state.live with instantiated } }

inductive Reached (program : Program) (handlers : List MethodId) (roots : Roots) (data : σ) :
    TraceState σ → Prop where
  | start : Reached program handlers roots data (enqueueAll { data } (rootActions program roots))
  | step {state picked next : TraceState σ} {action : Action} :
      Reached program handlers roots data state → Picks state action picked →
        process program [Assertions.analysis handlers] action picked = .ok next →
          Reached program handlers roots data { next with processed := next.processed + 1 }

def Succeeds (program : Program) (handlers : List MethodId) (roots : Roots) (data : σ)
    (result : TraceResult) : Prop :=
  ∃ final, Reached program handlers roots data final ∧ final.worklist.queue = [] ∧
    result = ⟨final.live, final.reported, final.processed⟩

def Fails (program : Program) (handlers : List MethodId) (roots : Roots) (data : σ) : Prop :=
  ∃ state action picked failure, Reached program handlers roots data state ∧
    Picks state action picked ∧
    process program [Assertions.analysis handlers] action picked = .error failure

/-- The same members are kept, named in another order. -/
structure Reorders (roots other : Roots) : Prop where
  classes : other.classes.Perm roots.classes
  methods : other.methods.Perm roots.methods
  fields : other.fields.Perm roots.fields

/-- The same members are live, the same methods reported and as many actions taken. -/
structure Agrees (left right : TraceResult) : Prop where
  classes : ∀ type, type ∈ left.live.classes ↔ type ∈ right.live.classes
  instantiated : ∀ type, type ∈ left.live.instantiated ↔ type ∈ right.live.instantiated
  methods : ∀ method, method ∈ left.live.methods ↔ method ∈ right.live.methods
  fields : ∀ field, field ∈ left.live.fields ↔ field ∈ right.live.fields
  reported : ∀ method, method ∈ left.reported ↔ method ∈ right.reported
  processed : left.processed = right.processed

theorem Reorders.mem_rootActions {program : Program} {roots other : Roots}
    (reorders : Reorders roots other) {action : Action} :
    action ∈ rootActions program other ↔ action ∈ rootActions program roots := by
  rw [Trace.mem_rootActions, Trace.mem_rootActions]
  simp only [reorders.classes.mem_iff, reorders.methods.mem_iff, reorders.fields.mem_iff]

def IsReportable (program : Program) (method : MethodId) : Prop :=
  ∃ hit, program.methodDefinition? method = some hit ∧ hit.holder.isProgram ∧
    Assertions.enablesAssertions program.interner hit

def Reports (program : Program) (state : TraceState σ) : Prop :=
  ∀ method, method ∈ state.reported ↔ method ∈ state.live.methods ∧ IsReportable program method

section Actions

variable {program : Program} {handlers : List MethodId} {action : Action} {method : MethodId}
  {state next : TraceState σ}

theorem markMethod_reports
    (done : markMethod program [Assertions.analysis handlers] method state = .ok next) :
    next = state ∨ ∃ hit, program.methodDefinition? method = some hit ∧
      next.processed = state.processed ∧ next.live.methods = state.live.methods ++ [method] ∧
      next.reported =
        if hit.holder.isProgram ∧ Assertions.enablesAssertions program.interner hit then
          Roots.addNew state.reported method
        else
          state.reported := by
  cases marked_of_markMethod done with
  | kept settled => exact Or.inl rfl
  | library found fresh outside =>
      exact Or.inr ⟨_, found, rfl, rfl, (if_neg fun both => outside both.1).symm⟩
  | @told hit actions _ found fresh inside read notified =>
      cases notified
      refine Or.inr ⟨hit, found, rfl, rfl, ?_⟩
      dsimp only [Assertions.analysis]
      rw [(declared_of_methodDefinition? found).2]
      by_cases enables : Assertions.enablesAssertions program.interner hit
      · rw [if_pos enables, if_pos ⟨inside, enables⟩]
        rfl
      · rw [if_neg enables, if_neg fun both => enables both.2]
        rfl

theorem Reports.markMethod (reports : Reports program state)
    (done : markMethod program [Assertions.analysis handlers] method state = .ok next) :
    Reports program next ∧ next.processed = state.processed := by
  rcases markMethod_reports done with rfl | ⟨hit, found, processed, methods, reported⟩
  · exact ⟨reports, rfl⟩
  · refine ⟨?_, processed⟩
    have reportable : IsReportable program method ↔
        hit.holder.isProgram ∧ Assertions.enablesAssertions program.interner hit := by
      simp only [IsReportable, found, Option.some.injEq, exists_eq_left']
    intro other
    rw [reported, methods, List.mem_append, List.mem_singleton, or_and_right, ← reports other]
    split
    · rename_i enables
      rw [Roots.mem_addNew]
      refine or_congr_right (and_iff_left_of_imp ?_).symm
      rintro rfl
      exact reportable.mpr enables
    · rename_i unable
      refine (or_iff_left ?_).symm
      rintro ⟨rfl, applies⟩
      exact unable (reportable.mp applies)

theorem reported_traceStaticRead {field : FieldId} {context : Option MethodId}
    (told : traceStaticRead program [Assertions.analysis handlers] field context state = .ok next) :
    next.reported = state.reported := by
  rw [traceStaticRead, notify_staticRead] at told
  cases told
  rfl

theorem Reports.process (reports : Reports program state)
    (done : process program [Assertions.analysis handlers] action state = .ok next) :
    Reports program next ∧ next.processed = state.processed := by
  by_cases marks : ∃ method reason, action = .markMethod method reason
  · obtain ⟨method, reason, rfl⟩ := marks
    exact reports.markMethod done
  · obtain ⟨methods, processed, reported⟩ :=
      process_keeps (fun reported _ => reported) reported_traceStaticRead marks done
    refine ⟨?_, processed⟩
    intro method
    rw [reported, methods]
    exact reports method

/-- Only a method whose body cannot be read stops a trace. -/
theorem process_eq_error {failure : Failure σ}
    (failed : process program [Assertions.analysis handlers] action state = .error failure) :
    ∃ method reason hit cause, action = .markMethod method reason ∧
      program.methodDefinition? method = some hit ∧ methodBody method hit = .error cause := by
  cases action with
  | markMethod method reason =>
      simp only [process, markMethod] at failed
      split at failed
      · cases failed
      · rename_i hit found
        split at failed
        · cases failed
        · split at failed
          · rename_i isProgram
            split at failed
            · rename_i cause unread
              refine ⟨method, reason, hit, cause, rfl, found, ?_⟩
              rw [methodBody, if_pos isProgram]
              exact unread
            · cases failed
          · cases failed
  | traceStaticRead field context =>
      simp only [process, traceStaticRead, notify_staticRead] at failed
      cases failed
  | _ => cases failed

end Actions

/-- The invariant of a trace, with what it counts and reports. -/
structure Follows (program : Program) (handlers : List MethodId) (start taken : List Action)
    (state : TraceState σ) : Prop where
  tracks : Tracks program handlers start taken state
  processed : state.processed = taken.length
  reports : Reports program state

section Invariant

variable {program : Program} {handlers : List MethodId} {roots other : Roots} {data : σ}
  {start taken all : List Action} {action : Action} {state picked next final : TraceState σ}

theorem Tracks.pick (tracks : Tracks program handlers start taken state)
    (picks : Picks state action picked) : Polled program handlers start taken action picked := by
  cases picks with
  | @pick rest instantiated pending order =>
      let reordered : TraceState σ :=
        { state with
          worklist := { state.worklist with queue := action :: rest }
          live := { state.live with instantiated } }
      have same : Tracks program handlers start taken reordered := by
        refine ⟨⟨tracks.accounts.nodup, ?_⟩, tracks.derived, tracks.seen, ?_, tracks.readable,
          tracks.targets⟩
        · exact tracks.accounts.perm.trans (pending.append_left taken)
        · refine ⟨tracks.marks.classes, ?_, tracks.marks.methods, tracks.marks.fields⟩
          intro type
          rw [← tracks.marks.instantiated, order.mem_iff]
      exact same.poll rfl

theorem Follows.step (follows : Follows program handlers start taken state)
    (picks : Picks state action picked)
    (done : process program [Assertions.analysis handlers] action picked = .ok next) :
    Follows program handlers start (taken ++ [action])
      { next with processed := next.processed + 1 } := by
  have advanced := (follows.tracks.pick picks).process done
  have kept : Reports program picked ∧ picked.processed = state.processed := by
    cases picks with
    | pick => exact ⟨follows.reports, rfl⟩
  obtain ⟨reports, counted⟩ := kept.1.process done
  refine ⟨advanced.count (next.processed + 1), ?_, reports⟩
  change next.processed + 1 = _
  rw [counted, kept.2, follows.processed, List.length_append, List.length_singleton]

theorem Follows.initial (reorders : Reorders roots other) :
    Follows program handlers (rootActions program roots) []
      (enqueueAll { data } (rootActions program other)) := by
  have tracks := Tracks.initial program handlers (rootActions program other) data
  refine ⟨⟨tracks.accounts, by nofun, ?_, tracks.marks, tracks.readable, tracks.targets⟩, rfl, ?_⟩
  · intro action
    rw [tracks.seen, reorders.mem_rootActions]
  · intro method
    simp [enqueueAll]

theorem Reached.follows (reached : Reached program handlers other data state)
    (reorders : Reorders roots other) :
    ∃ taken, Follows program handlers (rootActions program roots) taken state := by
  induction reached with
  | start => exact ⟨[], .initial reorders⟩
  | step _ picks done ih =>
      obtain ⟨taken, follows⟩ := ih
      exact ⟨_, follows.step picks done⟩

/-- Two traces that are complete have taken the same actions, so they agree. -/
theorem Follows.agrees (left : Follows program handlers start taken state)
    (leftDone : state.worklist.queue = []) (right : Follows program handlers start all final)
    (rightDone : final.worklist.queue = []) :
    Agrees ⟨state.live, state.reported, state.processed⟩
      ⟨final.live, final.reported, final.processed⟩ := by
  have same (action : Action) : action ∈ taken ↔ action ∈ all := by
    rw [left.tracks.mem_taken_iff leftDone, right.tracks.mem_taken_iff rightDone]
  have methods (method : MethodId) : method ∈ state.live.methods ↔ method ∈ final.live.methods := by
    rw [left.tracks.marks.methods, right.tracks.marks.methods]
    simp only [same]
  have once {all : List Action} {state : TraceState σ}
      (tracks : Tracks program handlers start all state) (finished : state.worklist.queue = []) :
      all.Nodup := by
    have perm := tracks.accounts.perm
    rw [finished, List.append_nil] at perm
    exact perm.nodup_iff.mp tracks.accounts.nodup
  have perm : taken.Perm all :=
    (List.perm_ext_iff_of_nodup (once left.tracks leftDone) (once right.tracks rightDone)).mpr same
  refine ⟨?_, ?_, methods, ?_, ?_, ?_⟩
  · intro type
    rw [left.tracks.marks.classes, right.tracks.marks.classes, same]
  · intro type
    rw [left.tracks.marks.instantiated, right.tracks.marks.instantiated, same]
  · intro field
    rw [left.tracks.marks.fields, right.tracks.marks.fields, same]
  · intro method
    rw [left.reports, right.reports, methods]
  · rw [left.processed, right.processed, perm.length_eq]

theorem Follows.exists_process_eq_ok (left : Follows program handlers start taken state)
    (finished : state.worklist.queue = []) (right : Follows program handlers start all final)
    (picks : Picks final action picked) :
    ∃ next, process program [Assertions.analysis handlers] action picked = .ok next := by
  cases outcome : process program [Assertions.analysis handlers] action picked with
  | ok next => exact ⟨next, rfl⟩
  | error failure =>
      obtain ⟨method, reason, hit, cause, rfl, found, unread⟩ := process_eq_error outcome
      have derived : Derived program handlers start (.markMethod method reason) :=
        (right.tracks.pick picks).derived _ (List.mem_append_right _ (List.mem_singleton_self _))
      have taken := (left.tracks.mem_taken_iff finished _).mpr derived
      have live : method ∈ state.live.methods :=
        (left.tracks.marks.methods method).mpr ⟨by simp [found], reason, taken⟩
      obtain ⟨actions, read⟩ := left.tracks.readable method live hit found
      rw [unread] at read
      cases read

theorem Reached.run (reached : Reached program handlers roots data state) (steps : Nat) :
    match run program [Assertions.analysis handlers] steps state with
    | .ok final => Reached program handlers roots data final
    | .error _ => Fails program handlers roots data := by
  induction steps generalizing state with
  | zero => exact reached
  | succ steps ih =>
      unfold Trace.run Worklist.poll
      cases pending : state.worklist.queue with
      | nil => exact reached
      | cons oldest rest =>
          have picks : Picks state oldest
              { state with worklist := { state.worklist with queue := rest } } :=
            .pick (List.Perm.of_eq pending) (List.Perm.refl _)
          dsimp only
          cases outcome : process program [Assertions.analysis handlers] oldest
            { state with worklist := { state.worklist with queue := rest } } with
          | error failure => exact ⟨state, oldest, _, failure, reached, picks, outcome⟩
          | ok next => exact ih (reached.step picks outcome)

theorem Reached.processed_le (reached : Reached program handlers other data state)
    (reorders : Reorders roots other) :
    state.processed ≤
      (vocabulary program ([Assertions.analysis handlers] : List (Analysis σ)) roots).actionCount := by
  obtain ⟨taken, follows⟩ := reached.follows reorders
  have bounded := follows.tracks.length_le
  rw [follows.processed]
  omega

end Invariant

section Complete

variable {program : Program} {handlers : List MethodId} {roots left right : Roots} {data : σ}
  {result final : TraceResult}

theorem Reorders.refl (roots : Roots) : Reorders roots roots :=
  ⟨List.Perm.refl _, List.Perm.refl _, List.Perm.refl _⟩

theorem Succeeds.agrees (first : Succeeds program handlers left data result)
    (leftReorders : Reorders roots left) (second : Succeeds program handlers right data final)
    (rightReorders : Reorders roots right) : Agrees result final := by
  obtain ⟨state, reached, finished, rfl⟩ := first
  obtain ⟨last, lastReached, lastFinished, rfl⟩ := second
  obtain ⟨taken, follows⟩ := reached.follows leftReorders
  obtain ⟨all, lastFollows⟩ := lastReached.follows rightReorders
  exact follows.agrees finished lastFollows lastFinished

theorem Succeeds.not_fails (succeeds : Succeeds program handlers left data result)
    (leftReorders : Reorders roots left) (rightReorders : Reorders roots right) :
    ¬Fails program handlers right data := by
  rintro ⟨state, action, picked, failure, reached, picks, failed⟩
  obtain ⟨last, lastReached, finished, -⟩ := succeeds
  obtain ⟨taken, follows⟩ := reached.follows rightReorders
  obtain ⟨all, lastFollows⟩ := lastReached.follows leftReorders
  obtain ⟨next, done⟩ := lastFollows.exists_process_eq_ok finished follows picks
  rw [failed] at done
  cases done

theorem succeeds_or_fails_of_trace (program : Program) (handlers : List MethodId) (data : σ)
    (roots : Roots) :
    match (Tracer.trace { program, analyses := [Assertions.analysis handlers], data } roots).1 with
    | .ok result => Succeeds program handlers roots data result
    | .error _ => Fails program handlers roots data := by
  have begun : Reached program handlers roots data _ := .start
  have ran := begun.run
    (vocabulary program ([Assertions.analysis handlers] : List (Analysis σ)) roots).actionCount
  unfold Tracer.trace
  dsimp only
  split at ran
  · rename_i final outcome
    rw [outcome]
    exact ⟨final, ran, queue_eq_nil_of_run outcome, rfl⟩
  · rename_i failure outcome
    rw [outcome]
    exact ran

end Complete

end Trace

open Trace in
/-- If the tracer succeeds, then so does every complete trace of the program, and all of them agree; if it
fails, then every complete trace does. No trace goes on forever. -/
theorem trace_confluent {σ : Type} (program : Program) (handlers : List MethodId) (data : σ)
    (roots : Roots) :
    (match (Tracer.trace { program, analyses := [Assertions.analysis handlers], data } roots).1 with
      | .ok result =>
          Succeeds program handlers roots data result ∧
            ∀ other, Reorders roots other → ¬Fails program handlers other data ∧
              ∀ final, Succeeds program handlers other data final → Agrees result final
      | .error _ =>
          Fails program handlers roots data ∧
            ∀ other, Reorders roots other → ∀ final, ¬Succeeds program handlers other data final) ∧
    ∀ other, Reorders roots other → ∀ state, Reached program handlers other data state →
      state.processed ≤
        (vocabulary program ([Assertions.analysis handlers] : List (Analysis σ)) roots).actionCount := by
  refine ⟨?_, fun other reorders state reached => reached.processed_le reorders⟩
  have ran := succeeds_or_fails_of_trace program handlers data roots
  split at ran
  · refine ⟨ran, fun other reorders => ⟨ran.not_fails (.refl roots) reorders, ?_⟩⟩
    intro final succeeds
    exact ran.agrees (.refl roots) succeeds reorders
  · refine ⟨ran, ?_⟩
    intro other reorders final succeeds
    exact succeeds.not_fails reorders (.refl roots) ran

end Shrinker.Liveness
