import Shrinker.Proofs.Liveness.Consequence
import Shrinker.Proofs.Liveness.Worklist

/-!
The invariant of a trace. At every point the actions accepted are the roots and the consequences of the
actions taken, and the members marked are those that the actions taken name.
-/
namespace Shrinker.Liveness.Trace

open Bytecode Reference Program

/-- The live members are those that the actions taken mark. -/
structure Marks (program : Program) (taken : List Action) (live : LiveSet) : Prop where
  classes : ∀ type, type ∈ live.classes ↔ .markClass type ∈ taken
  instantiated : ∀ type, type ∈ live.instantiated ↔ .markInstantiated type ∈ taken
  methods : ∀ method, method ∈ live.methods ↔
    (program.methodDefinition? method).isSome ∧ ∃ reason, .markMethod method reason ∈ taken
  fields : ∀ field, field ∈ live.fields ↔ .markField field ∈ taken

def Readable (program : Program) (live : LiveSet) : Prop :=
  ∀ method ∈ live.methods, ∀ hit, program.methodDefinition? method = some hit →
    ∃ actions, methodBody method hit = .ok actions

/-- A trace from the actions `start` on its way, with those taken so far. -/
structure Tracks {σ : Type} (program : Program) (handlers : List MethodId) (start taken : List Action)
    (state : TraceState σ) : Prop where
  accounts : state.worklist.Accounts taken
  derived : ∀ action ∈ taken, Derived program handlers start action
  seen : ∀ action, action ∈ state.worklist.seen ↔
    action ∈ start ∨ Consequence program handlers (· ∈ taken) action
  marks : Marks program taken state.live
  readable : Readable program state.live
  targets : ∀ target, target ∈ state.targets ↔ IsTarget (· ∈ taken) target

/-- The same while `action` is being taken. -/
structure Polled {σ : Type} (program : Program) (handlers : List MethodId) (start taken : List Action)
    (action : Action) (state : TraceState σ) : Prop where
  fresh : action ∉ taken
  accounts : state.worklist.Accounts (taken ++ [action])
  derived : ∀ other ∈ taken ++ [action], Derived program handlers start other
  seen : ∀ other, other ∈ state.worklist.seen ↔
    other ∈ start ∨ Consequence program handlers (· ∈ taken) other
  marks : Marks program taken state.live
  readable : Readable program state.live
  targets : ∀ target, target ∈ state.targets ↔ IsTarget (· ∈ taken) target

section Steps

variable {σ : Type} {program : Program} {handlers : List MethodId} {start taken rest : List Action}
  {action : Action} {state next : TraceState σ}

theorem Tracks.derived_of_mem_seen (tracks : Tracks program handlers start taken state)
    (seen : action ∈ state.worklist.seen) : Derived program handlers start action := by
  rcases (tracks.seen action).mp seen with first | consequence
  · exact .start first
  · exact .of_consequence tracks.derived consequence

theorem Tracks.poll (tracks : Tracks program handlers start taken state)
    (pending : state.worklist.queue = action :: rest) :
    Polled program handlers start taken action
      { state with worklist := { state.worklist with queue := rest } } := by
  obtain ⟨fresh, accounts⟩ := tracks.accounts.poll pending
  refine ⟨fresh, accounts, ?_, tracks.seen, tracks.marks, tracks.readable, tracks.targets⟩
  intro other member
  rcases List.mem_append.mp member with old | new
  · exact tracks.derived other old
  · cases List.mem_singleton.mp new
    refine tracks.derived_of_mem_seen (tracks.accounts.mem_seen.mpr (Or.inr ?_))
    rw [pending]
    exact List.mem_cons_self

/-- An action is taken properly if exactly its consequences are asked for, as far as they are new. -/
theorem Polled.advance (polled : Polled program handlers start taken action state)
    {issued : List Action} (worklist : next.worklist = state.worklist.enqueueAll issued)
    (sound : ∀ other ∈ issued,
      other ∈ needs program handlers action ∨ Crosses program taken action other)
    (complete : ∀ other,
      other ∈ needs program handlers action ∨ Crosses program taken action other →
        other ∈ issued ∨ Consequence program handlers (· ∈ taken) other)
    (marks : Marks program (taken ++ [action]) next.live)
    (readable : Readable program next.live)
    (targets : ∀ target, target ∈ next.targets ↔ IsTarget (· ∈ taken ++ [action]) target) :
    Tracks program handlers start (taken ++ [action]) next := by
  refine ⟨?_, polled.derived, ?_, marks, readable, targets⟩
  · rw [worklist]
    exact polled.accounts.enqueueAll issued
  · intro other
    rw [worklist, Worklist.mem_seen_enqueueAll, polled.seen, consequence_append]
    constructor
    · intro seen
      rcases seen with (first | old) | new
      · exact Or.inl first
      · exact Or.inr (Or.inl old)
      · exact Or.inr (Or.inr (sound other new))
    · intro due
      rcases due with first | old | new
      · exact Or.inl (Or.inl first)
      · exact Or.inl (Or.inr old)
      · rcases complete other new with asked | old
        · exact Or.inr asked
        · exact Or.inl (Or.inr old)

theorem Marks.addClass {live : LiveSet} (marks : Marks program taken live) (type : TypeId) :
    Marks program (taken ++ [.markClass type]) (live.addClass type) := by
  constructor <;>
    simp [LiveSet.addClass, marks.classes, marks.instantiated, marks.methods, marks.fields]

theorem Marks.addInstance {live : LiveSet} (marks : Marks program taken live) (type : TypeId) :
    Marks program (taken ++ [.markInstantiated type]) (live.addInstance type) := by
  constructor <;>
    simp [LiveSet.addInstance, marks.classes, marks.instantiated, marks.methods, marks.fields]

theorem Marks.addField {live : LiveSet} (marks : Marks program taken live) (field : FieldId) :
    Marks program (taken ++ [.markField field]) (live.addField field) := by
  constructor <;>
    simp [LiveSet.addField, marks.classes, marks.instantiated, marks.methods, marks.fields]

theorem Marks.addMethod {live : LiveSet} (marks : Marks program taken live) {method : MethodId}
    (defined : (program.methodDefinition? method).isSome) (reason : Reason) :
    Marks program (taken ++ [.markMethod method reason]) (live.addMethod method) := by
  constructor
  case methods =>
    intro other
    simp only [LiveSet.addMethod, List.mem_append, List.mem_singleton, marks.methods]
    constructor
    · intro member
      rcases member with ⟨known, earlier, marked⟩ | rfl
      · exact ⟨known, earlier, Or.inl marked⟩
      · exact ⟨defined, reason, Or.inr rfl⟩
    · intro named
      obtain ⟨known, earlier, marked | same⟩ := named
      · exact Or.inl ⟨known, earlier, marked⟩
      · cases same
        exact Or.inr rfl
  all_goals simp [LiveSet.addMethod, marks.classes, marks.instantiated, marks.fields]

theorem Marks.keepMethod {live : LiveSet} (marks : Marks program taken live) {method : MethodId}
    (settled : (program.methodDefinition? method).isSome → method ∈ live.methods)
    (reason : Reason) : Marks program (taken ++ [.markMethod method reason]) live := by
  constructor
  case methods =>
    intro other
    constructor
    · intro member
      obtain ⟨known, earlier, marked⟩ := (marks.methods other).mp member
      exact ⟨known, earlier, List.mem_append_left _ marked⟩
    · intro named
      obtain ⟨known, earlier, marked⟩ := named
      rcases List.mem_append.mp marked with old | new
      · exact (marks.methods other).mpr ⟨known, earlier, old⟩
      · cases List.mem_singleton.mp new
        exact settled known
  all_goals simp [marks.classes, marks.instantiated, marks.fields]

def isMark : Action → Bool
  | .markClass _ | .markInstantiated _ | .markMethod _ _ | .markField _ => true
  | _ => false

theorem Marks.use {live : LiveSet} (marks : Marks program taken live)
    (use : isMark action = false) : Marks program (taken ++ [action]) live := by
  cases action with
  | markClass | markInstantiated | markMethod | markField => cases use
  | _ => constructor <;> simp [marks.classes, marks.instantiated, marks.methods, marks.fields]

theorem Polled.sameTargets (polled : Polled program handlers start taken action state)
    (plain : ∀ kind target context, action ≠ .traceInvoke kind target context) (target : MethodId) :
    target ∈ state.targets ↔ IsTarget (· ∈ taken ++ [action]) target := by
  rw [isTarget_append, polled.targets]
  refine (or_iff_left ?_).symm
  intro called
  obtain ⟨kind, context, -, same⟩ := called
  exact plain kind target context same

theorem Polled.alone (polled : Polled program handlers start taken action state)
    (crossless : ∀ other, ¬ Crosses program taken action other)
    (plain : ∀ kind target context, action ≠ .traceInvoke kind target context)
    (worklist : next.worklist = state.worklist.enqueueAll (needs program handlers action))
    (marks : Marks program (taken ++ [action]) next.live)
    (readable : Readable program next.live) (targets : next.targets = state.targets) :
    Tracks program handlers start (taken ++ [action]) next := by
  refine polled.advance worklist (fun other => Or.inl) ?_ marks readable ?_
  · intro other asked
    rcases asked with needed | crosses
    · exact Or.inl needed
    · exact absurd crosses (crossless other)
  · rw [targets]
    exact polled.sameTargets plain

theorem Polled.markClass {type : TypeId}
    (polled : Polled program handlers start taken (.markClass type) state) :
    Tracks program handlers start (taken ++ [.markClass type]) (markClass program type state) := by
  have unmarked : state.live.hasClass type = false := by
    simpa [LiveSet.hasClass, polled.marks.classes] using polled.fresh
  rw [Trace.markClass, unmarked]
  exact polled.alone (by nofun) (by nofun) rfl (polled.marks.addClass type) polled.readable rfl

theorem Polled.markField {field : FieldId}
    (polled : Polled program handlers start taken (.markField field) state) :
    Tracks program handlers start (taken ++ [.markField field])
      (markField program field state) := by
  have unmarked : state.live.hasField field = false := by
    simpa [LiveSet.hasField, polled.marks.fields] using polled.fresh
  rw [Trace.markField, unmarked]
  exact polled.alone (by nofun) (by nofun) rfl (polled.marks.addField field) polled.readable rfl

theorem Polled.markInstantiated {type : TypeId}
    (polled : Polled program handlers start taken (.markInstantiated type) state) :
    Tracks program handlers start (taken ++ [.markInstantiated type])
      (markInstantiated program type state) := by
  have unmarked : state.live.hasInstance type = false := by
    simpa [LiveSet.hasInstance, polled.marks.instantiated] using polled.fresh
  rw [Trace.markInstantiated, unmarked]
  refine polled.advance rfl ?_ ?_ (polled.marks.addInstance type) polled.readable ?_
  · intro other issued
    rcases List.mem_cons.mp issued with rfl | overriding
    · exact Or.inl (List.mem_singleton_self _)
    · obtain ⟨target, known, overrides⟩ := List.mem_flatMap.mp overriding
      exact Or.inr (.instantiated ((polled.targets target).mp known) overrides)
  · intro other asked
    rcases asked with needed | crosses
    · cases List.mem_singleton.mp needed
      exact Or.inl List.mem_cons_self
    · cases crosses with
      | instantiated target overrides =>
          have known := (polled.targets _).mpr target
          exact Or.inl (List.mem_cons_of_mem _ (List.mem_flatMap.mpr ⟨_, known, overrides⟩))
  · exact polled.sameTargets (by nofun)

theorem Polled.use (polled : Polled program handlers start taken action state)
    (use : isMark action = false)
    (plain : ∀ kind target context, action ≠ .traceInvoke kind target context)
    (worklist : next.worklist = state.worklist.enqueueAll (needs program handlers action))
    (live : next.live = state.live) (targets : next.targets = state.targets) :
    Tracks program handlers start (taken ++ [action]) next := by
  refine polled.alone ?_ plain worklist ?_ ?_ targets
  · intro other crosses
    cases crosses with
    | instantiated => cases use
    | called => exact absurd rfl (plain _ _ _)
  · rw [live]
    exact polled.marks.use use
  · rw [live]
    exact polled.readable

theorem Polled.traceInvoke {kind : InvokeKind} {method : MethodId} {context : Option MethodId}
    (polled : Polled program handlers start taken (.traceInvoke kind method context) state) :
    Tracks program handlers start (taken ++ [.traceInvoke kind method context])
      (traceInvoke program kind method state) := by
  unfold Trace.traceInvoke
  dsimp only
  split
  · rename_i first
    obtain ⟨dispatched, -⟩ := Bool.and_eq_true_iff.mp first
    refine polled.advance (Worklist.enqueueAll_append ..).symm ?_ ?_ (polled.marks.use rfl)
      polled.readable ?_
    · intro other issued
      rcases List.mem_append.mp issued with needed | overriding
      · exact Or.inl needed
      · obtain ⟨type, live, overrides⟩ := List.mem_flatMap.mp overriding
        exact Or.inr (.called dispatched ((polled.marks.instantiated type).mp live) overrides)
    · intro other asked
      rcases asked with needed | crosses
      · exact Or.inl (List.mem_append_left _ needed)
      · cases crosses with
        | called _ instantiated overrides =>
            have live := (polled.marks.instantiated _).mpr instantiated
            exact Or.inl (List.mem_append_right _ (List.mem_flatMap.mpr ⟨_, live, overrides⟩))
    · intro target
      rw [isTarget_append, ← polled.targets]
      refine List.mem_append.trans (or_congr_right ?_)
      rw [List.mem_singleton]
      constructor
      · intro same
        exact ⟨kind, context, dispatched, by rw [same]⟩
      · intro called
        obtain ⟨_, _, -, same⟩ := called
        cases same
        rfl
  · -- either dispatch has been followed for another call of the method, or the call needs none
    rename_i settled
    have known (dispatched : isDispatched kind) : IsTarget (· ∈ taken) method := by
      refine (polled.targets method).mp ?_
      simpa [dispatched] using settled
    refine polled.advance rfl (fun other => Or.inl) ?_ (polled.marks.use rfl)
      polled.readable ?_
    · intro other asked
      rcases asked with needed | crosses
      · exact Or.inl needed
      · cases crosses with
        | called dispatched instantiated overrides =>
            exact Or.inr (.override instantiated (known dispatched) overrides)
    · intro target
      rw [isTarget_append]
      change target ∈ state.targets ↔ _
      rw [polled.targets]
      refine (or_iff_left_of_imp ?_).symm
      intro called
      obtain ⟨_, _, dispatched, same⟩ := called
      cases same
      exact known dispatched

/-- What marking a method does: nothing if it is live or unknown, and else it becomes live. The body of a
method of the program is followed, and the analyses are told. -/
inductive Marked (program : Program) (analyses : List (Analysis σ)) (method : MethodId)
    (state : TraceState σ) : TraceState σ → Prop
  | kept (settled : (program.methodDefinition? method).isSome → method ∈ state.live.methods) :
      Marked program analyses method state state
  | library {hit : MethodHit} (found : program.methodDefinition? method = some hit)
      (fresh : method ∉ state.live.methods) (outside : ¬ hit.holder.isProgram) :
      Marked program analyses method state
        (enqueueAll { state with live := state.live.addMethod method }
          [.markClass hit.holder.type])
  | told {hit : MethodHit} {actions : List Action} {next : TraceState σ}
      (found : program.methodDefinition? method = some hit)
      (fresh : method ∉ state.live.methods) (inside : hit.holder.isProgram)
      (read : methodBody method hit = .ok actions)
      (notified : notify program
        (fun analysis snapshot data => analysis.methodLive snapshot hit data) analyses
        (enqueueAll (enqueueAll { state with live := state.live.addMethod method }
          [.markClass hit.holder.type]) actions) = .ok next) :
      Marked program analyses method state next

theorem marked_of_markMethod {analyses : List (Analysis σ)} {method : MethodId}
    (done : markMethod program analyses method state = .ok next) :
    Marked program analyses method state next := by
  unfold markMethod at done
  split at done
  · rename_i unknown
    cases done
    exact .kept (by simp [unknown])
  · rename_i hit found
    split at done
    · rename_i marked
      cases done
      exact .kept fun _ => by simpa [LiveSet.hasMethod] using marked
    · rename_i unmarked
      have fresh : method ∉ state.live.methods := by simpa [LiveSet.hasMethod] using unmarked
      dsimp only at done
      split at done
      · rename_i inside
        split at done
        · cases done
        · rename_i actions body
          exact .told found fresh inside (by rw [methodBody, if_pos inside, body]) done
      · rename_i outside
        cases done
        exact .library found fresh outside

theorem notify_keeps {hook : Analysis σ → Snapshot → σ → Except Error (Response σ)}
    {analyses : List (Analysis σ)} (told : notify program hook analyses state = .ok next) :
    next.live = state.live ∧ next.processed = state.processed := by
  induction analyses generalizing state with
  | nil =>
      cases told
      exact ⟨rfl, rfl⟩
  | cons analysis analyses ih =>
      rw [notify] at told
      split at told
      · cases told
      · obtain ⟨live, processed⟩ := ih told
        exact ⟨live, processed⟩

/-- Only marking a method makes a method live. What a static read keeps of the reports and the data of
the analyses, all other actions keep. -/
theorem process_keeps {α : Type} {analyses : List (Analysis σ)} (view : List MethodId → σ → α)
    (kept : ∀ {field context state next},
      traceStaticRead program analyses field context state = .ok next →
        view next.reported next.data = view state.reported state.data)
    (plain : ¬∃ method reason, action = .markMethod method reason)
    (done : process program analyses action state = .ok next) :
    next.live.methods = state.live.methods ∧ next.processed = state.processed ∧
      view next.reported next.data = view state.reported state.data := by
  cases action with
  | markMethod method reason => exact absurd ⟨method, reason, rfl⟩ plain
  | traceStaticRead field context =>
      obtain ⟨live, processed⟩ := notify_keeps done
      exact ⟨congrArg (·.methods) live, processed, kept done⟩
  | markClass type =>
      cases done
      unfold markClass
      split <;> exact ⟨rfl, rfl, rfl⟩
  | markInstantiated type =>
      cases done
      unfold markInstantiated
      split <;> exact ⟨rfl, rfl, rfl⟩
  | markField field =>
      cases done
      unfold markField
      split <;> exact ⟨rfl, rfl, rfl⟩
  | traceInvoke kind method context =>
      cases done
      unfold traceInvoke
      dsimp only
      split <;> exact ⟨rfl, rfl, rfl⟩
  | traceStaticWrite field context | traceInstanceRead field context
  | traceInstanceWrite field context =>
      cases done
      exact ⟨rfl, rfl, rfl⟩

variable (program handlers) in
theorem notify_methodLive (hit : MethodHit) (state : TraceState σ) :
    ∃ reported, notify program
        (fun analysis snapshot data => analysis.methodLive snapshot hit data)
        [Assertions.analysis handlers] state = .ok { state with reported } :=
  ⟨_, rfl⟩

variable (program handlers) in
theorem notify_staticRead (field : FieldId) (context : Option MethodId) (state : TraceState σ) :
    notify program
        (fun analysis snapshot data =>
          analysis.staticRead snapshot field (program.resolveField? field) context data)
        [Assertions.analysis handlers] state =
      .ok (enqueueAll state (statusActions program handlers field context)) :=
  rfl

theorem Polled.keepMethod {method : MethodId} {reason : Reason}
    (polled : Polled program handlers start taken (.markMethod method reason) state)
    (settled : (program.methodDefinition? method).isSome → method ∈ state.live.methods) :
    Tracks program handlers start (taken ++ [.markMethod method reason]) state := by
  have nothing : state.worklist = state.worklist.enqueueAll [] := rfl
  refine polled.advance nothing (by simp) ?_ (polled.marks.keepMethod settled reason)
    polled.readable (polled.sameTargets (by nofun))
  intro other asked
  rcases asked with needed | crosses
  · right
    simp only [needs, methodNeeds] at needed
    cases found : program.methodDefinition? method with
    | none =>
        rw [found] at needed
        cases needed
    | some hit =>
        have defined : (program.methodDefinition? method).isSome := by simp [found]
        obtain ⟨-, earlier, marked⟩ := (polled.marks.methods method).mp (settled defined)
        exact .need marked needed
  · cases crosses

theorem Polled.newMethod {method : MethodId} {reason : Reason} {hit : MethodHit}
    {actions : List Action}
    (polled : Polled program handlers start taken (.markMethod method reason) state)
    (found : program.methodDefinition? method = some hit)
    (read : methodBody method hit = .ok actions)
    (worklist : next.worklist =
      state.worklist.enqueueAll (.markClass hit.holder.type :: actions))
    (live : next.live = state.live.addMethod method) (targets : next.targets = state.targets) :
    Tracks program handlers start (taken ++ [.markMethod method reason]) next := by
  have needed : needs program handlers (.markMethod method reason) =
      .markClass hit.holder.type :: actions := by
    simp only [needs, methodNeeds, found, read]
  rw [← needed] at worklist
  refine polled.alone (by nofun) (by nofun) worklist ?_ ?_ targets
  · rw [live]
    exact polled.marks.addMethod (by simp [found]) reason
  · rw [live]
    intro other member source defined
    rcases List.mem_append.mp member with old | new
    · exact polled.readable other old source defined
    · cases List.mem_singleton.mp new
      rw [found] at defined
      cases defined
      exact ⟨actions, read⟩

theorem Polled.markMethod {method : MethodId} {reason : Reason}
    (polled : Polled program handlers start taken (.markMethod method reason) state)
    (done : markMethod program [Assertions.analysis handlers] method state = .ok next) :
    Tracks program handlers start (taken ++ [.markMethod method reason]) next := by
  cases marked_of_markMethod done with
  | kept settled => exact polled.keepMethod settled
  | library found fresh outside => exact polled.newMethod found (if_neg outside) rfl rfl rfl
  | @told hit actions _ found fresh inside read notified =>
      obtain ⟨reported, same⟩ := notify_methodLive program handlers hit
        (enqueueAll (enqueueAll { state with live := state.live.addMethod method }
          [.markClass hit.holder.type]) actions)
      rw [same] at notified
      cases notified
      exact polled.newMethod found read rfl rfl rfl

theorem Polled.process (polled : Polled program handlers start taken action state)
    (done : process program [Assertions.analysis handlers] action state = .ok next) :
    Tracks program handlers start (taken ++ [action]) next := by
  cases action with
  | markClass type =>
      cases done
      exact polled.markClass
  | markInstantiated type =>
      cases done
      exact polled.markInstantiated
  | markMethod method reason => exact polled.markMethod done
  | markField field =>
      cases done
      exact polled.markField
  | traceInvoke kind method context =>
      cases done
      exact polled.traceInvoke
  | traceStaticRead field context =>
      simp only [Trace.process, traceStaticRead, notify_staticRead] at done
      cases done
      exact polled.use rfl (by nofun) (Worklist.enqueueAll_append ..).symm rfl rfl
  | traceStaticWrite field context | traceInstanceRead field context
  | traceInstanceWrite field context =>
      cases done
      exact polled.use rfl (by nofun) rfl rfl rfl

end Steps

section Runs

variable {σ : Type} {program : Program} {handlers : List MethodId} {start taken : List Action}
  {state final : TraceState σ}

theorem Tracks.count (tracks : Tracks program handlers start taken state) (processed : Nat) :
    Tracks program handlers start taken { state with processed } :=
  ⟨tracks.accounts, tracks.derived, tracks.seen, tracks.marks, tracks.readable, tracks.targets⟩

/-- A run keeps the invariant, and stops early only when nothing is pending. -/
theorem Tracks.run {steps : Nat} (tracks : Tracks program handlers start taken state)
    (done : run program [Assertions.analysis handlers] steps state = .ok final) :
    ∃ all, Tracks program handlers start all final ∧
      (final.worklist.queue = [] ∨ all.length = taken.length + steps) := by
  induction steps generalizing taken state with
  | zero =>
      cases done
      exact ⟨taken, tracks, Or.inr rfl⟩
  | succ steps ih =>
      unfold Trace.run Worklist.poll at done
      cases pending : state.worklist.queue with
      | nil =>
          simp only [pending] at done
          cases done
          exact ⟨taken, tracks, Or.inl pending⟩
      | cons action rest =>
          simp only [pending] at done
          split at done
          · cases done
          · rename_i next processed
            have advanced := (tracks.poll pending).process processed
            obtain ⟨all, reached, outcome⟩ := ih (advanced.count (next.processed + 1)) done
            refine ⟨all, reached, outcome.imp id ?_⟩
            intro length
            rw [length, List.length_append, List.length_singleton]
            omega

theorem Tracks.initial (program : Program) (handlers : List MethodId) (start : List Action)
    (data : σ) : Tracks program handlers start [] (enqueueAll { data } start) := by
  refine ⟨Worklist.Accounts.empty.enqueueAll start, by nofun, ?_, ?_, ?_, ?_⟩
  · intro action
    rw [enqueueAll, Worklist.mem_seen_enqueueAll]
    constructor
    · intro seen
      rcases seen with old | first
      · cases old
      · exact Or.inl first
    · intro due
      rcases due with first | consequence
      · exact Or.inr first
      · cases consequence with
        | need cause => cases cause
        | override instantiated => cases instantiated
  · constructor <;> simp [enqueueAll]
  · intro method member
    cases member
  · intro target
    simp [enqueueAll, IsTarget]

/-- When nothing is pending, all that is derived has been taken, and nothing else. -/
theorem Tracks.mem_taken_iff (tracks : Tracks program handlers start taken state)
    (finished : state.worklist.queue = []) (action : Action) :
    action ∈ taken ↔ Derived program handlers start action := by
  have all (other : Action) : other ∈ state.worklist.seen ↔ other ∈ taken := by
    rw [tracks.accounts.mem_seen, finished]
    simp
  refine ⟨tracks.derived action, Derived.least ?_ ?_⟩
  · intro first listed
    exact (all first).mp ((tracks.seen first).mpr (Or.inl listed))
  · intro next consequence
    exact (all next).mp ((tracks.seen next).mpr (Or.inr consequence))

end Runs

end Shrinker.Liveness.Trace
