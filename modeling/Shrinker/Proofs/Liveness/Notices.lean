import Shrinker.Proofs.Liveness.Fixpoint
import Shrinker.Proofs.Liveness.Turns

namespace Shrinker.Liveness

open Bytecode Reference Program

variable {σ : Type}

/-- An analysis, by its place in the list, was told that a method is live. -/
structure Notice where
  place : Nat
  hit : MethodHit

def Response.withRecord (notices : List Notice) (response : Response σ) :
    Response (σ × List Notice) :=
  ⟨(response.data, notices), response.actions, response.reported⟩

/-- The analysis as it is, with a record beside its data. -/
def Analysis.recorded (place : Nat) (analysis : Analysis σ) : Analysis (σ × List Notice) where
  name := analysis.name
  vocabulary := analysis.vocabulary
  methodLive snapshot hit data :=
    (analysis.methodLive snapshot hit data.1).map (·.withRecord (data.2 ++ [⟨place, hit⟩]))
  staticRead snapshot field found context data :=
    (analysis.staticRead snapshot field found context data.1).map (·.withRecord data.2)

def recordAll : Nat → List (Analysis σ) → List (Analysis (σ × List Notice))
  | _, [] => []
  | place, analysis :: analyses => analysis.recorded place :: recordAll (place + 1) analyses

def toldTo (place : Nat) (notices : List Notice) : List MethodHit :=
  notices.filterMap fun notice => if notice.place = place then some notice.hit else none

def TraceState.withoutRecord (state : TraceState (σ × List Notice)) : TraceState σ :=
  ⟨state.live, state.worklist, state.targets, state.reported, state.processed, state.data.1⟩

def withoutRecord :
    Except (Failure (σ × List Notice)) (TraceState (σ × List Notice)) →
      Except (Failure σ) (TraceState σ)
  | .error failure => .error ⟨failure.error, failure.data.1⟩
  | .ok state => .ok state.withoutRecord

namespace Trace

section Plain

variable {program : Program} {analyses : List (Analysis σ)} {place : Nat}
  {state : TraceState (σ × List Notice)}

theorem withoutRecord_notify
    {hook : Analysis (σ × List Notice) → Snapshot → σ × List Notice →
      Except Error (Response (σ × List Notice))}
    {plain : Analysis σ → Snapshot → σ → Except Error (Response σ)}
    (same : ∀ place analysis snapshot data, ∃ notices,
      hook (analysis.recorded place) snapshot data =
        (plain analysis snapshot data.1).map (·.withRecord notices)) :
    withoutRecord (notify program hook (recordAll place analyses) state) =
      notify program plain analyses state.withoutRecord := by
  induction analyses generalizing place state with
  | nil => rfl
  | cons analysis analyses ih =>
      obtain ⟨notices, told⟩ := same place analysis ⟨program, state.live, state.worklist⟩ state.data
      have unrecorded :
          plain analysis ⟨program, state.live, state.worklist⟩ state.data.1 =
            plain analysis
              ⟨program, state.withoutRecord.live, state.withoutRecord.worklist⟩
              state.withoutRecord.data :=
        rfl
      rw [recordAll, notify, notify, told, unrecorded]
      cases plain analysis
          ⟨program, state.withoutRecord.live, state.withoutRecord.worklist⟩
          state.withoutRecord.data with
      | error cause => rfl
      | ok response => exact ih

theorem withoutRecord_markMethod (method : MethodId) :
    withoutRecord (markMethod program (recordAll place analyses) method state) =
      markMethod program analyses method state.withoutRecord := by
  unfold markMethod
  cases program.methodDefinition? method with
  | none => rfl
  | some hit =>
      dsimp only
      rw [apply_ite withoutRecord, apply_ite withoutRecord]
      refine if_congr Iff.rfl rfl (if_congr Iff.rfl ?_ rfl)
      cases (hit.definition.code.map (bodyActions method)).getD (.ok []) with
      | error cause => rfl
      | ok actions => exact withoutRecord_notify fun place analysis snapshot data => ⟨_, rfl⟩

theorem withoutRecord_process (action : Action) :
    withoutRecord (process program (recordAll place analyses) action state) =
      process program analyses action state.withoutRecord := by
  cases action with
  | markClass type => exact congrArg Except.ok (apply_ite TraceState.withoutRecord ..)
  | markInstantiated type => exact congrArg Except.ok (apply_ite TraceState.withoutRecord ..)
  | markMethod method reason => exact withoutRecord_markMethod method
  | markField field => exact congrArg Except.ok (apply_ite TraceState.withoutRecord ..)
  | traceInvoke kind method context =>
      exact congrArg Except.ok (apply_ite TraceState.withoutRecord ..)
  | traceStaticRead field context =>
      exact withoutRecord_notify fun place analysis snapshot data => ⟨_, rfl⟩
  | traceStaticWrite field context | traceInstanceRead field context
  | traceInstanceWrite field context => rfl

theorem withoutRecord_run (steps : Nat) :
    withoutRecord (run program (recordAll place analyses) steps state) =
      run program analyses steps state.withoutRecord := by
  induction steps generalizing state with
  | zero => rfl
  | succ steps ih =>
      have polling : state.withoutRecord.worklist.poll = state.worklist.poll := rfl
      rw [run, run, polling]
      cases state.worklist.poll with
      | none => rfl
      | some polled =>
          obtain ⟨action, worklist⟩ := polled
          have taking : withoutRecord
              (process program (recordAll place analyses) action { state with worklist }) =
                process program analyses action { state.withoutRecord with worklist } :=
            withoutRecord_process action
          dsimp only
          rw [← taking]
          cases process program (recordAll place analyses) action { state with worklist } with
          | error failure => rfl
          | ok next => exact ih

theorem map_vocabulary_recordAll :
    (recordAll place analyses).map (·.vocabulary) = analyses.map (·.vocabulary) := by
  induction analyses generalizing place with
  | nil => rfl
  | cons analysis analyses ih => exact congrArg (analysis.vocabulary :: ·) ih

variable (program analyses) in
theorem trace_recordAll (data : σ) (roots : Roots) :
    let recorded := (⟨program, recordAll 0 analyses, .idle, (data, [])⟩ : Tracer _).trace roots
    let traced := (⟨program, analyses, .idle, data⟩ : Tracer σ).trace roots
    recorded.1 = traced.1 ∧ recorded.2.data.1 = traced.2.data := by
  have words : vocabulary program (recordAll 0 analyses) roots = vocabulary program analyses roots := by
    unfold vocabulary
    rw [map_vocabulary_recordAll]
  have ran : withoutRecord (run program (recordAll 0 analyses)
      (vocabulary program analyses roots).actionCount
      (enqueueAll { data := (data, []) } (rootActions program roots))) =
        run program analyses (vocabulary program analyses roots).actionCount
          (enqueueAll { data } (rootActions program roots)) :=
    withoutRecord_run _
  unfold Tracer.trace
  dsimp only
  rw [words, ← ran]
  cases run program (recordAll 0 analyses) (vocabulary program analyses roots).actionCount
    (enqueueAll { data := (data, []) } (rootActions program roots)) <;> exact ⟨rfl, rfl⟩

end Plain

def announced? (program : Program) (method : MethodId) : Option MethodHit :=
  (program.methodDefinition? method).filter (·.holder.isProgram)

/-- Each analysis has been told of the live methods of the program, in the order in which they were
found. -/
structure Announces (program : Program) (count : Nat) (state : TraceState (σ × List Notice)) :
    Prop where
  distinct : state.live.methods.Nodup
  told : ∀ place < count,
    toldTo place state.data.2 = state.live.methods.filterMap (announced? program)

section Records

variable {program : Program} {analyses : List (Analysis σ)} {place : Nat}
  {state next : TraceState (σ × List Notice)} {action : Action} {method : MethodId} {hit : MethodHit}

theorem map_withRecord_eq_ok {answer : Except Error (Response σ)} {notices : List Notice}
    {response : Response (σ × List Notice)}
    (answered : answer.map (·.withRecord notices) = .ok response) : response.data.2 = notices := by
  cases answer with
  | error cause => cases answered
  | ok plain =>
      cases answered
      rfl

theorem toldTo_append_one (place start : Nat) (notices : List Notice) (hit : MethodHit) :
    toldTo place (notices ++ [⟨start, hit⟩]) =
      toldTo place notices ++ if start = place then [hit] else [] := by
  unfold toldTo
  rw [List.filterMap_append]
  split <;> simp [*]

theorem toldTo_notify (place : Nat) {start : Nat}
    (told : notify program (fun analysis snapshot data => analysis.methodLive snapshot hit data)
      (recordAll start analyses) state = .ok next) :
    toldTo place next.data.2 = toldTo place state.data.2 ++
      if start ≤ place ∧ place < start + analyses.length then [hit] else [] := by
  induction analyses generalizing start state with
  | nil =>
      cases told
      rw [if_neg (by simp), List.append_nil]
  | cons analysis analyses ih =>
      rw [recordAll, notify] at told
      split at told
      · cases told
      · rename_i response answered
        have recorded := map_withRecord_eq_ok answered
        refine (ih told).trans ?_
        dsimp only
        rw [recorded, toldTo_append_one, List.append_assoc, List.length_cons]
        congr 1
        by_cases here : start = place
        · rw [if_pos here, if_neg (by omega), if_pos (by omega), List.append_nil]
        · rw [if_neg here, List.nil_append]
          exact if_congr (by omega) rfl rfl

theorem notices_notify {start : Nat} {field : FieldId} {found : Option FieldHit}
    {context : Option MethodId}
    (told : notify program
      (fun analysis snapshot data => analysis.staticRead snapshot field found context data)
      (recordAll start analyses) state = .ok next) :
    next.data.2 = state.data.2 := by
  induction analyses generalizing start state with
  | nil =>
      cases told
      rfl
  | cons analysis analyses ih =>
      rw [recordAll, notify] at told
      split at told
      · cases told
      · rename_i response answered
        exact (ih told).trans (map_withRecord_eq_ok answered)

theorem notices_traceStaticRead {field : FieldId} {context : Option MethodId}
    (told : traceStaticRead program (recordAll 0 analyses) field context state = .ok next) :
    next.data.2 = state.data.2 :=
  (notices_notify told :)

theorem markMethod_tells
    (done : markMethod program (recordAll 0 analyses) method state = .ok next) :
    next = state ∨ method ∉ state.live.methods ∧
      next.live.methods = state.live.methods ++ [method] ∧
      ∀ place < analyses.length, toldTo place next.data.2 =
        toldTo place state.data.2 ++ (announced? program method).toList := by
  cases marked_of_markMethod done with
  | kept settled => exact Or.inl rfl
  | library found fresh outside =>
      refine Or.inr ⟨fresh, rfl, ?_⟩
      intro place bound
      rw [announced?, found, Option.filter_some, if_neg outside, Option.toList_none, List.append_nil]
      rfl
  | told found fresh inside read notified =>
      refine Or.inr ⟨fresh, congrArg (·.methods) (notify_keeps notified).1, ?_⟩
      intro place bound
      rw [toldTo_notify place notified, if_pos (by omega), announced?, found,
        Option.filter_some, if_pos inside]
      rfl

theorem Announces.process (announces : Announces program analyses.length state)
    (done : process program (recordAll 0 analyses) action state = .ok next) :
    Announces program analyses.length next := by
  by_cases marks : ∃ method reason, action = .markMethod method reason
  · obtain ⟨method, reason, rfl⟩ := marks
    rcases markMethod_tells done with rfl | ⟨fresh, methods, told⟩
    · exact announces
    · refine ⟨?_, ?_⟩
      · rw [methods, List.nodup_append_comm]
        exact List.nodup_cons.mpr ⟨fresh, announces.distinct⟩
      · intro place bound
        rw [told place bound, methods, announces.told place bound, List.filterMap_append]
        congr 1
  · obtain ⟨methods, -, notices⟩ :=
      process_keeps (fun _ data => data.2) notices_traceStaticRead marks done
    refine ⟨?_, ?_⟩
    · rw [methods]
      exact announces.distinct
    · rw [methods, notices]
      exact announces.told

theorem Announces.run {steps : Nat} (announces : Announces program analyses.length state)
    (done : run program (recordAll 0 analyses) steps state = .ok next) :
    Announces program analyses.length next := by
  induction steps generalizing state with
  | zero =>
      cases done
      exact announces
  | succ steps ih =>
      unfold Trace.run at done
      split at done
      · cases done
        exact announces
      · rename_i action worklist polled
        split at done
        · cases done
        · rename_i taken processed
          have before : Announces program analyses.length { state with worklist } :=
            ⟨announces.distinct, announces.told⟩
          have after := before.process processed
          have counted : Announces program analyses.length
              { taken with processed := taken.processed + 1 } :=
            ⟨after.distinct, after.told⟩
          exact ih counted done

theorem announced?_eq_some :
    announced? program method = some hit ↔
      program.methodDefinition? method = some hit ∧ hit.holder.isProgram :=
  Option.filter_eq_some_iff

theorem nodup_announced {methods : List MethodId} (distinct : methods.Nodup) :
    (methods.filterMap (announced? program)).Nodup := by
  refine distinct.filterMap ?_
  intro left right hit atLeft atRight
  have named := (declared_of_methodDefinition? (announced?_eq_some.mp atLeft).1).2
  have alsoNamed := (declared_of_methodDefinition? (announced?_eq_some.mp atRight).1).2
  exact named.symm.trans alsoNamed

end Records

section Complete

variable (program : Program) (analyses : List (Analysis σ)) (data : σ) (roots : Roots)

theorem trace_tells_once {result : TraceResult} {place : Nat}
    (done : ((⟨program, recordAll 0 analyses, .idle, (data, [])⟩ : Tracer _).trace roots).1 =
      .ok result)
    (bound : place < analyses.length) :
    (toldTo place ((⟨program, recordAll 0 analyses, .idle, (data, [])⟩ :
        Tracer _).trace roots).2.data.2).Nodup ∧
      ∀ hit, hit ∈ toldTo place ((⟨program, recordAll 0 analyses, .idle, (data, [])⟩ :
          Tracer _).trace roots).2.data.2 ↔
        ∃ method ∈ result.live.methods, program.methodDefinition? method = some hit ∧
          hit.holder.isProgram := by
  unfold Tracer.trace at done ⊢
  dsimp only at done ⊢
  split at done
  · cases done
  · rename_i state ran
    cases done
    have first : Announces program analyses.length
        (enqueueAll { data := (data, []) } (rootActions program roots)) :=
      ⟨List.nodup_nil, fun _ _ => rfl⟩
    obtain ⟨distinct, told⟩ := first.run ran
    dsimp only
    rw [told place bound]
    refine ⟨nodup_announced distinct, ?_⟩
    intro hit
    simp only [List.mem_filterMap, announced?_eq_some]

end Complete

end Trace

open Trace in
/-- With the assertion analysis among any others that keep to their vocabulary, a trace ends: the loop
takes no action twice, whatever is asked for on the way, and goes on until nothing is pending or an action
fails. On success all that was accepted has been taken, and each analysis was told once of each live
method of the program. -/
theorem trace_takes_each_action_once (program : Program) (handlers : List MethodId)
    (before after : List (Analysis σ)) (data : σ) (roots : Roots)
    (modest : ∀ analysis ∈ before ++ after, analysis.IsModest program) :
    let analyses := before ++ Assertions.analysis handlers :: after
    let first := enqueueAll { data } (rootActions program roots)
    let traced := (⟨program, analyses, .idle, data⟩ : Tracer σ).trace roots
    let recorded := (⟨program, recordAll 0 analyses, .idle, (data, [])⟩ : Tracer _).trace roots
    (∀ taken state, Takes program analyses first taken state →
      state.worklist.IsOrderly taken ∧
      taken.length ≤ (vocabulary program analyses roots).actionCount ∧
      ∀ action worklist, state.worklist.poll = some (action, worklist) →
        (∀ asked, (worklist.enqueueAll asked).IsOrderly (taken ++ [action])) ∧
        ∀ next, process program analyses action { state with worklist } = .ok next →
          ∃ asked, next.worklist = worklist.enqueueAll asked) ∧
    (∃ taken final, Takes program analyses first taken final ∧
      Stops program analyses final traced.1 ∧
      ∀ result, traced.1 = .ok result →
        result.processed = taken.length ∧ result.processed = final.worklist.accepted) ∧
    (recorded.1 = traced.1 ∧ recorded.2.data.1 = traced.2.data) ∧
    ∀ result, traced.1 = .ok result → ∀ place < analyses.length,
      (toldTo place recorded.2.data.2).Nodup ∧
      ∀ hit, hit ∈ toldTo place recorded.2.data.2 ↔
        ∃ method ∈ result.live.methods, program.methodDefinition? method = some hit ∧
          hit.holder.isProgram := by
  intro analyses first traced recorded
  have allModest : ∀ analysis ∈ analyses, analysis.IsModest program := by
    intro analysis member
    rcases List.mem_append.mp member with early | late
    · exact modest analysis (List.mem_append_left _ early)
    · rcases List.mem_cons.mp late with rfl | later
      · exact Assertions.isModest_analysis handlers program
      · exact modest analysis (List.mem_append_right _ later)
  refine ⟨?_, ?_, trace_recordAll program analyses data roots, ?_⟩
  · intro taken state takes
    have keeps := takes.keeps allModest
    refine ⟨keeps.accounts.isOrderly, ?_, ?_⟩
    · have bounded := length_le_actionCount keeps.accounts keeps.covers
      omega
    · intro action worklist polled
      refine ⟨?_, ?_⟩
      · intro asked
        obtain ⟨rest, pending, rfl⟩ := Worklist.poll_eq_some.mp polled
        exact ((keeps.accounts.poll pending).2.enqueueAll asked).isOrderly
      · intro next done
        obtain ⟨⟨asked, worklist, -⟩, -⟩ := keeps.asks allModest polled done
        exact ⟨asked, worklist⟩
  · obtain ⟨taken, final, takes, stops⟩ := exists_takes_stops allModest data roots
    refine ⟨taken, final, takes, stops, ?_⟩
    intro result done
    have keeps := takes.keeps allModest
    rw [done] at stops
    cases stops with
    | finished empty =>
        refine ⟨keeps.processed, ?_⟩
        rw [Worklist.accepted, keeps.accounts.length_seen, empty]
        exact keeps.processed
  · intro result done place bound
    have same := (trace_recordAll program analyses data roots).1
    exact trace_tells_once program analyses data roots (same.trans done) bound

namespace Circular

def recurse : MethodDef where
  method := ⟨3⟩
  access := { isPublic := true, isStatic := true }
  code := some (.stack [.invoke .static ⟨3⟩, .new ⟨6⟩, .invoke .virtual ⟨2⟩])

def upper : ClassDef :=
  { type := ⟨5⟩, origin := .program, super? := some ⟨6⟩, directMethods := [recurse] }

def lower : ClassDef :=
  { type := ⟨6⟩, origin := .library, super? := some ⟨5⟩, virtualMethods := [Sample.lowerRun] }

def program : Program where
  interner := Sample.interner
  classes := [upper, lower]
  hierarchy := (Hierarchy.addClass { root := .object } upper).addClass lower

def silent : Analysis Unit :=
  { name := "silent" }

theorem isModest_silent : silent.IsModest program where
  methodLive words live worklist hit data response _ _ _ told action asked := by
    cases told
    cases asked
  staticRead words live worklist field context data response _ _ _ told action asked := by
    cases told
    cases asked

end Circular

open Circular in
/-- Two classes that extend each other: both methods are live, and the second analysis is told once of the
one that belongs to the program. -/
theorem trace_takes_each_action_once_circular :
    let traced := (⟨program, [Assertions.analysis [], silent], .idle, ()⟩ : Tracer Unit).trace
      { methods := [⟨3⟩] }
    let recorded := (⟨program, recordAll 0 [Assertions.analysis [], silent], .idle, ((), [])⟩ :
      Tracer _).trace { methods := [⟨3⟩] }
    ∃ result, traced.1 = .ok result ∧ result.live.methods = [⟨3⟩, ⟨2⟩] ∧ result.processed = 9 ∧
      (toldTo 1 recorded.2.data.2).Nodup ∧
      ∀ hit, hit ∈ toldTo 1 recorded.2.data.2 ↔ hit = ⟨upper, recurse⟩ := by
  have done : ((⟨program, [Assertions.analysis [], silent], .idle, ()⟩ : Tracer Unit).trace
      { methods := [⟨3⟩] }).1 =
        .ok ⟨{ classes := [⟨5⟩, ⟨6⟩], instantiated := [⟨6⟩], methods := [⟨3⟩, ⟨2⟩] }, [], 9⟩ := by
    cbv
  have ours : program.methodDefinition? ⟨3⟩ = some ⟨upper, recurse⟩ := by cbv
  have others : program.methodDefinition? ⟨2⟩ = some ⟨lower, Sample.lowerRun⟩ := by cbv
  have modest : ∀ analysis ∈ [] ++ [silent], analysis.IsModest program := by
    intro analysis member
    cases List.mem_singleton.mp member
    exact isModest_silent
  obtain ⟨-, -, -, notices⟩ :=
    trace_takes_each_action_once program [] [] [silent] () { methods := [⟨3⟩] } modest
  obtain ⟨once, told⟩ := notices _ done 1 (by decide)
  refine ⟨_, done, rfl, rfl, once, ?_⟩
  intro hit
  refine (told hit).trans ?_
  constructor
  · rintro ⟨method, live, found, isProgram⟩
    rcases List.mem_cons.mp live with rfl | last
    · rw [ours] at found
      exact (Option.some.inj found).symm
    · cases List.mem_singleton.mp last
      rw [others] at found
      cases found
      cases isProgram
  · rintro rfl
    exact ⟨⟨3⟩, List.mem_cons_self, ours, rfl⟩

end Shrinker.Liveness
