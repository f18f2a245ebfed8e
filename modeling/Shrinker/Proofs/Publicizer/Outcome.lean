import Shrinker.Proofs.Collection.DepthFirst
import Shrinker.Proofs.Program.Reshape
import Shrinker.Proofs.Publicizer.Decision

namespace Shrinker.Publicizer

open Reference Program Collection Success

/-- A class whose members are opened up, in view of the slots that are claimed. -/
def openClass (publicizer : Publicizer) (interner : Interner) (claimed : List Slot)
    (definition : ClassDef) : ClassDef :=
  let settled := publicizer.settle interner definition claimed
  let isOpened (method : MethodDef) : Bool := ⟨definition.type, method.method⟩ ∈ claimed
  { definition with
    access := definition.access.promote
    fields := definition.fields.map fun field => { field with access := field.access.promote }
    directMethods := (definition.directMethods.map settled).filter (! isOpened ·)
    virtualMethods := definition.virtualMethods.map settled ++
      (definition.directMethods.map settled).filter isOpened }

def Stats.countClass (stats : Stats) (publicizer : Publicizer) (interner : Interner)
    (claimed : List Slot) (definition : ClassDef) : Stats :=
  let counted := (definition.methods.map (publicizer.decision interner definition claimed)).foldl
    Stats.count stats
  { counted with
    promotedClasses := counted.promotedClasses + 1
    promotedFields := counted.promotedFields + definition.fields.length }

def classSlots (publicizer : Publicizer) (interner : Interner) (definition : ClassDef) :
    List Slot :=
  publicizer.slots interner definition definition.methods

def State.afterClass (state : State) (publicizer : Publicizer) (interner : Interner)
    (definition : ClassDef) : State :=
  let candidates := publicizer.classSlots interner definition
  let claimed := claim interner state.pool candidates
  { pool := grow interner state.pool candidates
    level := record state.level claimed
    stats := state.stats.countClass publicizer interner claimed definition }

section Classes

variable {publicizer : Publicizer} {interner : Interner} {holder definition : ClassDef}
  {left right : List MethodDef} {state : State}

theorem publicizeMethods_cons_eq_ok {method : MethodDef} {methods changed : List MethodDef}
    {opened : List MethodId} {finish : State} :
    publicizer.publicizeMethods interner holder (method :: methods) state =
        .ok (changed, opened, finish) ↔
      ∃ first next rest openedRest,
        applyVerdict interner method state (publicizer.verdict interner holder state.pool method) =
          .ok (first, next) ∧
        publicizer.publicizeMethods interner holder methods next =
          .ok (rest, openedRest, finish) ∧
        changed = first :: rest ∧
        opened = if publicizer.verdict interner holder state.pool method = .publicize then
          method.method :: openedRest else openedRest := by
  rw [publicizeMethods, bind_eq_ok]
  constructor
  · intro done
    obtain ⟨⟨first, next⟩, applied, continued⟩ := done
    obtain ⟨⟨rest, openedRest, last⟩, restDone, assembled⟩ := bind_eq_ok.mp continued
    cases assembled
    exact ⟨first, next, rest, openedRest, applied, restDone, rfl, rfl⟩
  · intro done
    obtain ⟨first, next, rest, openedRest, applied, restDone, rfl, rfl⟩ := done
    exact ⟨(first, next), applied, bind_eq_ok.mpr ⟨(rest, openedRest, finish), restDone, rfl⟩⟩

theorem publicizeMethods_append {changed : List MethodDef} {opened : List MethodId}
    {finish : State}
    (done : publicizer.publicizeMethods interner holder (left ++ right) state =
      .ok (changed, opened, finish)) :
    ∃ changedLeft openedLeft middle changedRight openedRight,
      publicizer.publicizeMethods interner holder left state =
        .ok (changedLeft, openedLeft, middle) ∧
      publicizer.publicizeMethods interner holder right middle =
        .ok (changedRight, openedRight, finish) ∧
      changed = changedLeft ++ changedRight ∧ opened = openedLeft ++ openedRight ∧
      changedLeft.length = left.length := by
  induction left generalizing state changed opened with
  | nil => exact ⟨[], [], state, changed, opened, rfl, done, rfl, rfl, rfl⟩
  | cons method methods ih =>
      obtain ⟨first, next, rest, openedRest, applied, restDone, rfl, rfl⟩ :=
        publicizeMethods_cons_eq_ok.mp done
      obtain ⟨changedLeft, openedLeft, middle, changedRight, openedRight, leftDone, rightDone, rfl,
        rfl, width⟩ := ih restDone
      refine ⟨first :: changedLeft, _, middle, changedRight, openedRight,
        publicizeMethods_cons_eq_ok.mpr
          ⟨first, next, changedLeft, openedLeft, applied, leftDone, rfl, rfl⟩,
        rightDone, rfl, ?_, by simp [width]⟩
      split <;> rfl

theorem mem_map_method_claim {pool : SignaturePool} {method : MethodId} :
    method ∈ (claim interner pool (publicizer.classSlots interner definition)).map (·.method) ↔
      (⟨definition.type, method⟩ : Slot) ∈
        claim interner pool (publicizer.classSlots interner definition) := by
  constructor
  · intro present
    obtain ⟨slot, claimed, rfl⟩ := List.mem_map.mp present
    obtain ⟨found, -, -, rfl⟩ := mem_slots.mp ((claim_sublist _ _ _).subset claimed)
    exact claimed
  · intro claimed
    exact List.mem_map.mpr ⟨_, claimed, rfl⟩

theorem publicizeClass_eq (distinct : (definition.methods.map (·.method)).Nodup)
    (recorded : state.IsRecorded interner) :
    publicizer.publicizeClass interner definition state =
      .ok (publicizer.openClass interner
          (claim interner state.pool (publicizer.classSlots interner definition)) definition,
        state.afterClass publicizer interner definition) := by
  have all : publicizer.publicizeMethods interner definition
      (definition.directMethods ++ definition.virtualMethods) state = _ :=
    publicizeMethods_eq distinct recorded
  obtain ⟨direct, openedDirect, middle, virtual, openedVirtual, directDone, virtualDone, sameMethods,
    sameOpened, width⟩ := publicizeMethods_append all
  rw [List.map_append] at sameMethods
  obtain ⟨rfl, rfl⟩ := List.append_inj sameMethods (by simp [width])
  simp only [publicizeClass, directDone, virtualDone, ok_bind, ← sameOpened]
  change Except.ok (ClassDef.virtualize _
    ((claim interner state.pool (publicizer.classSlots interner definition)).map (·.method)), _) = _
  simp only [ClassDef.virtualize, mem_map_method_claim, decide_not]
  rfl

end Classes

section Classes

variable {publicizer : Publicizer} {interner : Interner} {definition : ClassDef}
  {left right : List Slot}

theorem settle_congr (agree : ∀ method, (⟨definition.type, method⟩ : Slot) ∈ left ↔
      (⟨definition.type, method⟩ : Slot) ∈ right) :
    publicizer.settle interner definition left = publicizer.settle interner definition right := by
  funext method
  exact congrArg (carryOut method) (decision_congr (agree method.method))

theorem openClass_congr (agree : ∀ method, (⟨definition.type, method⟩ : Slot) ∈ left ↔
      (⟨definition.type, method⟩ : Slot) ∈ right) :
    publicizer.openClass interner left definition =
      publicizer.openClass interner right definition := by
  simp only [openClass, settle_congr agree, agree]

theorem countClass_congr (stats : Stats)
    (agree : ∀ method, (⟨definition.type, method⟩ : Slot) ∈ left ↔
      (⟨definition.type, method⟩ : Slot) ∈ right) :
    stats.countClass publicizer interner left definition =
      stats.countClass publicizer interner right definition := by
  have same : publicizer.decision interner definition left =
      publicizer.decision interner definition right := by
    funext method
    exact decision_congr (agree method.method)
  simp only [Stats.countClass, same]

theorem methods_openClass_perm (publicizer : Publicizer) (interner : Interner)
    (claimed : List Slot) (definition : ClassDef) :
    (publicizer.openClass interner claimed definition).methods.Perm
      (definition.methods.map (publicizer.settle interner definition claimed)) := by
  simp only [ClassDef.methods, openClass, List.map_append]
  refine List.perm_append_comm.trans ?_
  rw [List.append_assoc]
  refine (List.Perm.append_left _ (List.filter_append_perm _ _)).trans ?_
  exact List.perm_append_comm

end Classes

def works (publicizer : Publicizer) (definition : ClassDef) : Bool :=
  publicizer.isLiveClass definition.type && definition.isProgram

def workClass? (publicizer : Publicizer) (program : Program) (type : TypeId) : Option ClassDef :=
  (program.definition? type).filter publicizer.works

/-- The slots of all candidates of some types, in the order of their visits. -/
def typeSlots (publicizer : Publicizer) (program : Program) (types : List TypeId) : List Slot :=
  (types.filterMap (publicizer.workClass? program)).flatMap
    (publicizer.classSlots program.interner)

/-- What a class becomes once some types have been visited. -/
def openVisited (publicizer : Publicizer) (interner : Interner) (types : List TypeId)
    (claimed : List Slot) (definition : ClassDef) : ClassDef :=
  if definition.type ∈ types ∧ publicizer.works definition then
    publicizer.openClass interner claimed definition
  else
    definition

def afterTypes (publicizer : Publicizer) (program : Program) (pool : SignaturePool)
    (types : List TypeId) : Program :=
  program.reshape (publicizer.openVisited program.interner types
    (claim program.interner pool (publicizer.typeSlots program types)))

def Stats.countTypes (stats : Stats) (publicizer : Publicizer) (program : Program)
    (claimed : List Slot) (types : List TypeId) : Stats :=
  (types.filterMap (publicizer.workClass? program)).foldl
    (fun stats definition => stats.countClass publicizer program.interner claimed definition)
    stats

def State.afterTypes (state : State) (publicizer : Publicizer) (program : Program)
    (types : List TypeId) : State :=
  let candidates := publicizer.typeSlots program types
  let claimed := claim program.interner state.pool candidates
  { pool := grow program.interner state.pool candidates
    level := record state.level claimed
    stats := state.stats.countTypes publicizer program claimed types }

section Changes

variable (publicizer : Publicizer) (interner : Interner) (types : List TypeId)
  (claimed : List Slot)

theorem keepsEdges_openVisited : KeepsEdges (publicizer.openVisited interner types claimed) := by
  constructor
  all_goals
    intro definition
    unfold openVisited
    split <;> rfl

theorem map_method_openVisited_perm (definition : ClassDef) :
    ((publicizer.openVisited interner types claimed definition).methods.map (·.method)).Perm
      (definition.methods.map (·.method)) := by
  unfold openVisited
  split
  · refine ((methods_openClass_perm publicizer interner claimed definition).map _).trans ?_
    rw [List.map_map]
    exact List.Perm.of_eq (List.map_congr_left fun method _ => method_settle ..)
  · exact List.Perm.refl _

theorem map_field_openVisited (definition : ClassDef) :
    (publicizer.openVisited interner types claimed definition).fields.map (·.field) =
      definition.fields.map (·.field) := by
  unfold openVisited
  split
  · simp [openClass]
  · rfl

theorem isDistinct_afterTypes {program : Program} (distinct : program.IsDistinct)
    (pool : SignaturePool) : (publicizer.afterTypes program pool types).IsDistinct :=
  (keepsEdges_openVisited ..).isDistinct_reshape distinct (map_method_openVisited_perm _ _ _ _)
    (map_field_openVisited _ _ _ _)

end Changes

section Programs

variable {publicizer : Publicizer} {program : Program} {type : TypeId} {types : List TypeId}
  {state : State} {pool : SignaturePool}

theorem workClass?_eq_some {definition : ClassDef} :
    publicizer.workClass? program type = some definition ↔
      program.definition? type = some definition ∧ publicizer.works definition :=
  Option.filter_eq_some_iff

theorem type_mem_of_mem_typeSlots {slot : Slot} (member : slot ∈ publicizer.typeSlots program types) :
    slot.type ∈ types := by
  obtain ⟨definition, visited, own⟩ := List.mem_flatMap.mp member
  obtain ⟨type, listed, found⟩ := List.mem_filterMap.mp visited
  obtain ⟨method, -, -, rfl⟩ := mem_slots.mp own
  rw [(mem_of_definition? (workClass?_eq_some.mp found).1).2]
  exact listed

theorem typeSlots_cons :
    publicizer.typeSlots program (type :: types) =
      publicizer.typeSlots program [type] ++ publicizer.typeSlots program types := by
  simp only [typeSlots, List.filterMap_cons, List.filterMap_nil]
  split <;> simp

theorem workClass?_afterTypes (unvisited : type ∉ types) :
    publicizer.workClass? (publicizer.afterTypes program pool types) type =
      publicizer.workClass? program type := by
  unfold workClass? afterTypes
  rw [(keepsEdges_openVisited ..).definition?_reshape]
  cases found : program.definition? type with
  | none => rfl
  | some definition =>
      have same : definition.type ∉ types := by
        rw [(mem_of_definition? found).2]
        exact unvisited
      simp [openVisited, same]

theorem State.IsRecorded.afterTypes (recorded : state.IsRecorded program.interner) :
    (state.afterTypes publicizer program types).IsRecorded program.interner := by
  intro entry member
  rw [State.afterTypes, mem_entries_grow]
  rcases List.mem_append.mp member with old | new
  · exact Or.inl (recorded entry old)
  · obtain ⟨slot, claimed, rfl⟩ := List.mem_map.mp new
    exact Or.inr ⟨slot, (claim_sublist _ _ _).subset claimed, rfl⟩

theorem afterTypes_of_idle (distinct : program.IsDistinct)
    (idle : types.filterMap (publicizer.workClass? program) = []) :
    publicizer.afterTypes program pool types = program := by
  refine (reshape_congr ?_).trans (reshape_id program)
  intro definition member
  refine if_neg ?_
  intro working
  obtain ⟨visited, worked⟩ := working
  have found : publicizer.workClass? program definition.type = some definition :=
    workClass?_eq_some.mpr ⟨distinct.definition?_eq_some.mpr ⟨member, rfl⟩, worked⟩
  have missed := List.filterMap_eq_nil_iff.mp idle definition.type visited
  rw [found] at missed
  cases missed

theorem State.afterTypes_of_idle (idle : types.filterMap (publicizer.workClass? program) = []) :
    state.afterTypes publicizer program types = state := by
  simp [State.afterTypes, Stats.countTypes, typeSlots, idle, claim, grow, record]

theorem afterTypes_singleton (distinct : program.IsDistinct) {definition : ClassDef}
    (found : publicizer.workClass? program type = some definition) :
    publicizer.afterTypes program pool [type] =
      program.mapClass type fun _ => publicizer.openClass program.interner
        (claim program.interner pool (publicizer.classSlots program.interner definition))
        definition := by
  obtain ⟨defined, worked⟩ := workClass?_eq_some.mp found
  obtain ⟨listed, rfl⟩ := mem_of_definition? defined
  rw [distinct.mapClass_eq defined rfl]
  refine reshape_congr ?_
  intro other member
  by_cases same : other.type = definition.type
  · cases distinct.eq_of_type member listed same
    rw [if_pos rfl, openVisited, if_pos ⟨List.mem_singleton_self _, worked⟩]
    simp [typeSlots, found]
  · rw [if_neg same]
    exact if_neg fun visited => same (List.mem_singleton.mp visited.1)

theorem publicizeType_eq (distinct : program.IsDistinct)
    (recorded : state.IsRecorded program.interner) :
    publicizer.publicizeType type program state =
      .ok (publicizer.afterTypes program state.pool [type],
        state.afterTypes publicizer program [type]) := by
  unfold publicizeType
  cases defined : program.definition? type with
  | none =>
      have idle : [type].filterMap (publicizer.workClass? program) = [] := by
        simp [workClass?, defined]
      rw [afterTypes_of_idle distinct idle, State.afterTypes_of_idle idle]
  | some definition =>
      obtain ⟨member, named⟩ := mem_of_definition? defined
      have works_iff : (publicizer.isLiveClass type && definition.isProgram) =
          publicizer.works definition := by
        rw [works, named]
      simp only [works_iff]
      split
      · rename_i worked
        have found := workClass?_eq_some.mpr ⟨defined, worked⟩
        rw [publicizeClass_eq (distinct.methods definition member) recorded, ok_bind,
          afterTypes_singleton distinct found]
        simp [State.afterTypes, State.afterClass, Stats.countTypes, typeSlots, found, pure,
          Except.pure]
      · rename_i idle
        have none : [type].filterMap (publicizer.workClass? program) = [] := by
          simp [workClass?, defined, idle]
        rw [afterTypes_of_idle distinct none, State.afterTypes_of_idle none]

theorem filterMap_workClass?_afterTypes (once : type ∉ types) :
    types.filterMap (publicizer.workClass? (publicizer.afterTypes program pool [type])) =
      types.filterMap (publicizer.workClass? program) := by
  apply List.filterMap_congr
  intro other later
  apply workClass?_afterTypes
  intro same
  exact once (List.mem_singleton.mp same ▸ later)

theorem typeSlots_afterTypes (once : type ∉ types) :
    publicizer.typeSlots (publicizer.afterTypes program pool [type]) types =
      publicizer.typeSlots program types := by
  simp only [typeSlots, filterMap_workClass?_afterTypes once]
  rfl

theorem mem_claim_head (once : type ∉ types) (method : MethodId) :
    (⟨type, method⟩ : Slot) ∈
        claim program.interner pool (publicizer.typeSlots program (type :: types)) ↔
      (⟨type, method⟩ : Slot) ∈
        claim program.interner pool (publicizer.typeSlots program [type]) := by
  rw [typeSlots_cons, claim_append, List.mem_append]
  refine or_iff_left ?_
  intro later
  exact once (type_mem_of_mem_typeSlots ((claim_sublist _ _ _).subset later))

theorem mem_claim_tail (once : type ∉ types) {other : TypeId} (later : other ∈ types)
    (method : MethodId) :
    (⟨other, method⟩ : Slot) ∈
        claim program.interner pool (publicizer.typeSlots program (type :: types)) ↔
      (⟨other, method⟩ : Slot) ∈ claim program.interner
        (grow program.interner pool (publicizer.typeSlots program [type]))
        (publicizer.typeSlots program types) := by
  rw [typeSlots_cons, claim_append, List.mem_append]
  refine or_iff_right ?_
  intro first
  have visited := type_mem_of_mem_typeSlots ((claim_sublist _ _ _).subset first)
  exact once (List.mem_singleton.mp visited ▸ later)

theorem afterTypes_cons (once : type ∉ types) :
    publicizer.afterTypes program pool (type :: types) =
      publicizer.afterTypes (publicizer.afterTypes program pool [type])
        (grow program.interner pool (publicizer.typeSlots program [type])) types := by
  refine Eq.trans ?_ (reshape_reshape program _ _).symm
  refine reshape_congr ?_
  intro definition _
  rw [typeSlots_afterTypes once]
  by_cases first : definition.type = type
  · -- the class has its turn in the first visit and is let alone afterwards
    subst first
    have alone (changed : ClassDef) (kept : changed.type = definition.type) (claimed : List Slot) :
        publicizer.openVisited program.interner types claimed changed = changed :=
      if_neg fun visited => once (kept ▸ visited.1)
    refine Eq.trans ?_ (alone _ ((keepsEdges_openVisited ..).type definition) _).symm
    simp only [openVisited, List.mem_cons, true_or, true_and,
      openClass_congr (mem_claim_head once)]
  · have untouched (claimed : List Slot) :
        publicizer.openVisited program.interner [type] claimed definition = definition :=
      if_neg fun visited => first (List.mem_singleton.mp visited.1)
    rw [untouched]
    by_cases later : definition.type ∈ types
    · simp only [openVisited, List.mem_cons, first, false_or, later, true_and,
        openClass_congr (mem_claim_tail once later)]
      rfl
    · simp only [openVisited, List.mem_cons, first, false_or, later, false_and, if_false]

theorem countTypes_congr {left right : List Slot} (stats : Stats)
    (agree : ∀ type ∈ types, ∀ method, (⟨type, method⟩ : Slot) ∈ left ↔
      (⟨type, method⟩ : Slot) ∈ right) :
    stats.countTypes publicizer program left types =
      stats.countTypes publicizer program right types := by
  apply List.foldl_ext
  intro counted definition worked
  apply countClass_congr
  obtain ⟨type, listed, found⟩ := List.mem_filterMap.mp worked
  rw [(mem_of_definition? (workClass?_eq_some.mp found).1).2]
  exact agree type listed

theorem countTypes_cons (claimed : List Slot) (stats : Stats) :
    stats.countTypes publicizer program claimed (type :: types) =
      (stats.countTypes publicizer program claimed [type]).countTypes publicizer program claimed
        types := by
  rw [Stats.countTypes, ← List.singleton_append, List.filterMap_append, List.foldl_append]
  rfl

theorem State.afterTypes_cons (once : type ∉ types) :
    state.afterTypes publicizer program (type :: types) =
      (state.afterTypes publicizer program [type]).afterTypes publicizer
        (publicizer.afterTypes program state.pool [type]) types := by
  have head : state.stats.countTypes publicizer program
        (claim program.interner state.pool (publicizer.typeSlots program (type :: types))) [type] =
      (state.afterTypes publicizer program [type]).stats := by
    apply countTypes_congr
    intro first visited
    rw [List.mem_singleton.mp visited]
    exact mem_claim_head once
  have stats : state.stats.countTypes publicizer program
        (claim program.interner state.pool (publicizer.typeSlots program (type :: types)))
        (type :: types) =
      (state.afterTypes publicizer program [type]).stats.countTypes publicizer program
        (claim program.interner
          (grow program.interner state.pool (publicizer.typeSlots program [type]))
          (publicizer.typeSlots program types)) types := by
    rw [countTypes_cons, head]
    exact countTypes_congr _ fun other later => mem_claim_tail once later
  have tokens : (publicizer.afterTypes program state.pool [type]).interner = program.interner := rfl
  have counts (stats : Stats) (claimed : List Slot) :
      stats.countTypes publicizer (publicizer.afterTypes program state.pool [type]) claimed types =
        stats.countTypes publicizer program claimed types := by
    rw [Stats.countTypes, filterMap_workClass?_afterTypes once]
    rfl
  rw [State.afterTypes, stats]
  simp only [State.afterTypes, tokens, counts, typeSlots_afterTypes once, record_record,
    ← claim_append, ← grow_append, ← typeSlots_cons]

theorem publicizeTypes_eq (distinct : program.IsDistinct)
    (recorded : state.IsRecorded program.interner) (once : types.Nodup) :
    publicizer.publicizeTypes types program state =
      .ok (publicizer.afterTypes program state.pool types,
        state.afterTypes publicizer program types) := by
  induction types generalizing program state with
  | nil =>
      rw [afterTypes_of_idle distinct List.filterMap_nil,
        State.afterTypes_of_idle List.filterMap_nil]
      rfl
  | cons type types ih =>
      obtain ⟨unvisited, others⟩ := List.nodup_cons.mp once
      rw [publicizeTypes, publicizeType_eq distinct recorded, ok_bind,
        afterTypes_cons unvisited, State.afterTypes_cons unvisited]
      exact ih (isDistinct_afterTypes publicizer [type] distinct state.pool) recorded.afterTypes
        others

def openedSlots (publicizer : Publicizer) (program : Program) : List Slot :=
  claim program.interner (publicizer.collectSignatures program)
    (publicizer.typeSlots program (visitOrder program.hierarchy))

/-- What the pass makes of a class. -/
def finalClass (publicizer : Publicizer) (program : Program) : ClassDef → ClassDef :=
  publicizer.openVisited program.interner (visitOrder program.hierarchy)
    (publicizer.openedSlots program)

theorem nodup_visitOrder (hierarchy : Hierarchy) : (visitOrder hierarchy).Nodup :=
  DepthFirst.nodup_visit ..

/-- On a program with sound holders the pass succeeds, and this is what it gives. -/
theorem run_eq (distinct : program.IsDistinct) (checked : checkHolders program = .ok ())
    (previous : Lens) :
    publicizer.run program previous = .ok
      { program := program.reshape (publicizer.finalClass program)
        lens := previous.publish
          (record { name := "publicizer" } (publicizer.openedSlots program))
        stats :=
          ({ scannedMethods := publicizer.scannedMethods program
             collectedSignatures := (publicizer.collectSignatures program).size } :
            Stats).countTypes publicizer program (publicizer.openedSlots program)
              (visitOrder program.hierarchy) } := by
  rw [run, checked, ok_bind]
  dsimp only
  rw [publicizeTypes_eq distinct ?_ (nodup_visitOrder _)]
  · rfl
  · intro entry member
    cases member

theorem checked_of_run {previous : Lens} {outcome : Outcome}
    (success : publicizer.run program previous = .ok outcome) :
    checkHolders program = .ok () :=
  (bind_eq_ok.mp success).choose_spec.1

theorem program_of_run (distinct : program.IsDistinct) {previous : Lens} {outcome : Outcome}
    (success : publicizer.run program previous = .ok outcome) :
    outcome.program = program.reshape (publicizer.finalClass program) := by
  rw [run_eq distinct (checked_of_run success) previous] at success
  cases success
  rfl

theorem lens_of_run (distinct : program.IsDistinct) {previous : Lens} {outcome : Outcome}
    (success : publicizer.run program previous = .ok outcome) :
    outcome.lens = previous.publish
      (record { name := "publicizer" } (publicizer.openedSlots program)) := by
  rw [run_eq distinct (checked_of_run success) previous] at success
  cases success
  rfl

end Programs

section Failure

variable (publicizer : Publicizer) {interner : Interner} {program : Program} {state : State}

theorem exists_publicizeMethods (recorded : state.IsRecorded interner) (holder : ClassDef)
    (definitions : List MethodDef) :
    ∃ changed opened next,
      publicizer.publicizeMethods interner holder definitions state =
        .ok (changed, opened, next) ∧
      next.IsRecorded interner := by
  induction definitions generalizing state with
  | nil => exact ⟨[], [], state, rfl, recorded⟩
  | cons definition definitions ih =>
      obtain ⟨rest, opened, next, done, stillRecorded⟩ :=
        ih (recorded.after ⟨holder.type, definition.method⟩
          (publicizer.verdict interner holder state.pool definition))
      exact ⟨_, _, next, publicizeMethods_cons_eq_ok.mpr
        ⟨_, _, rest, opened, applyVerdict_verdict recorded, done, rfl, rfl⟩, stillRecorded⟩

theorem exists_publicizeClass (recorded : state.IsRecorded interner) (definition : ClassDef) :
    ∃ changed next, publicizer.publicizeClass interner definition state = .ok (changed, next) ∧
      next.IsRecorded interner := by
  obtain ⟨direct, openedDirect, middle, directDone, halfway⟩ :=
    exists_publicizeMethods publicizer recorded definition definition.directMethods
  obtain ⟨virtual, openedVirtual, next, virtualDone, stillRecorded⟩ :=
    exists_publicizeMethods publicizer halfway definition definition.virtualMethods
  simp only [publicizeClass, directDone, virtualDone, ok_bind]
  exact ⟨_, _, rfl, stillRecorded⟩

theorem exists_publicizeType (recorded : state.IsRecorded program.interner) (type : TypeId) :
    ∃ changed next, publicizer.publicizeType type program state = .ok (changed, next) ∧
      next.IsRecorded changed.interner := by
  unfold publicizeType
  split
  · exact ⟨program, state, rfl, recorded⟩
  · rename_i definition _
    split
    · obtain ⟨changed, next, done, stillRecorded⟩ :=
        exists_publicizeClass publicizer recorded definition
      rw [done, ok_bind]
      refine ⟨_, _, rfl, ?_⟩
      rw [interner_mapClass]
      exact stillRecorded
    · exact ⟨program, state, rfl, recorded⟩

/-- No walk fails, whatever the program, the types and the order of their visits: what is recorded is in
the pool, and what is in the pool is not recorded again. -/
theorem exists_publicizeTypes (recorded : state.IsRecorded program.interner)
    (types : List TypeId) :
    ∃ result, publicizer.publicizeTypes types program state = .ok result := by
  induction types generalizing program state with
  | nil => exact ⟨(program, state), rfl⟩
  | cons type types ih =>
      obtain ⟨changed, next, done, stillRecorded⟩ := exists_publicizeType publicizer recorded type
      rw [publicizeTypes, done, ok_bind]
      exact ih stillRecorded

theorem exists_publicizeTypes_of_unwritten (program : Program) (types : List TypeId)
    (pool : SignaturePool) (stats : Stats) :
    ∃ result, publicizer.publicizeTypes types program ⟨pool, { name := "publicizer" }, stats⟩ =
      .ok result := by
  apply exists_publicizeTypes
  intro entry member
  cases member

theorem run_eq_error_iff {previous : Lens} {error : Error} :
    publicizer.run program previous = .error error ↔ checkHolders program = .error error := by
  unfold run
  cases checkHolders program with
  | error cause =>
      constructor
      · intro failed
        cases failed
        rfl
      · intro failed
        cases failed
        rfl
  | ok _ =>
      rw [ok_bind]
      dsimp only
      obtain ⟨result, done⟩ := publicizer.exists_publicizeTypes_of_unwritten program
        (visitOrder program.hierarchy) (publicizer.collectSignatures program)
        { scannedMethods := publicizer.scannedMethods program
          collectedSignatures := (publicizer.collectSignatures program).size }
      rw [done]
      constructor <;> nofun

end Failure

end Shrinker.Publicizer
