import Shrinker.Proofs.Collection.Success
import Shrinker.Proofs.Publicizer.Claim

namespace Shrinker.Publicizer

open Reference Program Collection Success

def isCandidate (publicizer : Publicizer) (interner : Interner) (holder : ClassDef)
    (definition : MethodDef) : Bool :=
  publicizer.verdict interner holder .empty definition == .publicize

/-- The verdict on a method in view of all slots that are claimed. -/
def decision (publicizer : Publicizer) (interner : Interner) (holder : ClassDef)
    (claimed : List Slot) (definition : MethodDef) : Verdict :=
  if publicizer.isCandidate interner holder definition then
    if ⟨holder.type, definition.method⟩ ∈ claimed then .publicize else .skipCollision
  else
    publicizer.verdict interner holder .empty definition

def carryOut (definition : MethodDef) : Verdict → MethodDef
  | .promote => { definition with access := promoteAccess definition.access }
  | .publicize => definition.publicize
  | _ => definition

def Stats.count (stats : Stats) : Verdict → Stats
  | .leave => stats
  | .promote => { stats with promotedMethods := stats.promotedMethods + 1 }
  | .skipPinned => { stats with skippedPinned := stats.skippedPinned + 1 }
  | .skipCollision => { stats with skippedCollisions := stats.skippedCollisions + 1 }
  | .publicize => { stats with publicizedMethods := stats.publicizedMethods + 1 }

def settle (publicizer : Publicizer) (interner : Interner) (holder : ClassDef)
    (claimed : List Slot) (definition : MethodDef) : MethodDef :=
  carryOut definition (publicizer.decision interner holder claimed definition)

def slots (publicizer : Publicizer) (interner : Interner) (holder : ClassDef)
    (definitions : List MethodDef) : List Slot :=
  (definitions.filter (publicizer.isCandidate interner holder)).map fun definition =>
    ⟨holder.type, definition.method⟩

@[simp] theorem method_carryOut (definition : MethodDef) (verdict : Verdict) :
    (carryOut definition verdict).method = definition.method := by
  cases verdict <;> rfl

theorem code_carryOut (definition : MethodDef) (verdict : Verdict) :
    (carryOut definition verdict).code = definition.code := by
  cases verdict <;> rfl

@[simp] theorem method_settle (publicizer : Publicizer) (interner : Interner) (holder : ClassDef)
    (claimed : List Slot) (definition : MethodDef) :
    (publicizer.settle interner holder claimed definition).method = definition.method :=
  method_carryOut definition _

section Decisions

variable {publicizer : Publicizer} {interner : Interner} {holder : ClassDef} {pool : SignaturePool}
  {definition : MethodDef}

theorem verdict_of_candidate (candidate : publicizer.isCandidate interner holder definition) :
    publicizer.verdict interner holder pool definition =
      if interner.signature definition.method ∈ pool.entries then .skipCollision
      else .publicize := by
  unfold isCandidate verdict at candidate
  unfold verdict
  grind

theorem verdict_of_not_candidate
    (other : publicizer.isCandidate interner holder definition = false) :
    publicizer.verdict interner holder pool definition =
      publicizer.verdict interner holder .empty definition := by
  unfold isCandidate verdict at other
  unfold verdict
  grind [Table.empty]

theorem isCandidate_iff :
    publicizer.isCandidate interner holder definition ↔
      publicizer.isLiveMethod definition.method ∧ definition.access.isPrivate ∧
        definition.access.isPublic = false ∧ definition.access.isStatic = false ∧
        definition.access.isSynthetic = false ∧ holder.isInterface = false ∧
        interner.isInitializer definition.method = false ∧
        publicizer.keep.pinsAgainstShrinking definition.method = false := by
  unfold isCandidate verdict Interner.isInitializer
  grind [Table.empty]

theorem decision_congr {left right : List Slot}
    (agree : (⟨holder.type, definition.method⟩ : Slot) ∈ left ↔
      (⟨holder.type, definition.method⟩ : Slot) ∈ right) :
    publicizer.decision interner holder left definition =
      publicizer.decision interner holder right definition := by
  simp only [decision, agree]

theorem decision_eq_publicize {claimed : List Slot} :
    publicizer.decision interner holder claimed definition = .publicize ↔
      publicizer.isCandidate interner holder definition ∧
        (⟨holder.type, definition.method⟩ : Slot) ∈ claimed := by
  unfold decision
  grind [isCandidate]

theorem shared_of_decision_eq_promote {claimed : List Slot}
    (promoted : publicizer.decision interner holder claimed definition = .promote) :
    (!definition.access.isPrivate || definition.access.isStatic) = true := by
  unfold decision verdict at promoted
  grind

end Decisions

def record (level : Lens.Level) (claimed : List Slot) : Lens.Level :=
  { level with
    methods := level.methods ++
      claimed.map fun slot => (slot.method, ⟨slot.method, .publicized⟩) }

/-- The signatures of all recorded methods are in use. -/
def State.IsRecorded (interner : Interner) (state : State) : Prop :=
  ∀ entry ∈ state.level.methods, interner.signature entry.1 ∈ state.pool.entries

theorem recordMethod_eq {interner : Interner} {state : State} {method : MethodId}
    (recorded : state.IsRecorded interner) (ordinary : interner.isInitializer method = false)
    (free : interner.signature method ∉ state.pool.entries) (type : TypeId) :
    state.level.recordMethod interner method method .publicized =
      .ok (record state.level [⟨type, method⟩]) := by
  have unknown : state.level.methods.lookup method = none := by
    rw [List.lookup_eq_none_iff]
    intro entry member
    simp only [bne_iff_ne]
    rintro rfl
    exact free (recorded entry member)
  simp [Lens.Level.recordMethod, Lens.Entries.record, ordinary, unknown, record]

def State.after (state : State) (interner : Interner) (slot : Slot) (verdict : Verdict) : State :=
  match verdict with
  | .publicize =>
      { pool := state.pool.insert (interner.signature slot.method)
        level := record state.level [slot]
        stats := state.stats.count .publicize }
  | other => { state with stats := state.stats.count other }

theorem State.after_of_ne {state : State} {interner : Interner} {slot : Slot} {verdict : Verdict}
    (unopened : verdict ≠ .publicize) :
    state.after interner slot verdict = { state with stats := state.stats.count verdict } := by
  cases verdict with
  | publicize => exact absurd rfl unopened
  | _ => rfl

@[simp] theorem State.stats_after (state : State) (interner : Interner) (slot : Slot)
    (verdict : Verdict) :
    (state.after interner slot verdict).stats = state.stats.count verdict := by
  cases verdict <;> rfl

theorem applyVerdict_eq {interner : Interner} {definition : MethodDef} {state : State}
    {verdict : Verdict} (type : TypeId)
    (possible : verdict = .publicize →
      state.level.recordMethod interner definition.method definition.method .publicized =
        .ok (record state.level [⟨type, definition.method⟩])) :
    applyVerdict interner definition state verdict =
      .ok (carryOut definition verdict,
        state.after interner ⟨type, definition.method⟩ verdict) := by
  cases verdict with
  | publicize =>
      simp only [applyVerdict, possible rfl]
      rfl
  | _ => rfl

theorem State.IsRecorded.after {interner : Interner} {state : State}
    (recorded : state.IsRecorded interner) (slot : Slot) (verdict : Verdict) :
    (state.after interner slot verdict).IsRecorded interner := by
  cases verdict with
  | publicize =>
      intro entry member
      rcases List.mem_append.mp member with old | new
      · exact Table.mem_entries_insert.mpr (Or.inl (recorded entry old))
      · cases List.mem_singleton.mp new
        exact Table.mem_entries_insert.mpr (Or.inr rfl)
  | _ => exact recorded

section Methods

variable {publicizer : Publicizer} {interner : Interner} {holder : ClassDef}
  {definition : MethodDef} {definitions : List MethodDef} {state : State}

theorem slots_cons :
    publicizer.slots interner holder (definition :: definitions) =
      if publicizer.isCandidate interner holder definition then
        ⟨holder.type, definition.method⟩ :: publicizer.slots interner holder definitions
      else
        publicizer.slots interner holder definitions := by
  unfold slots
  rw [List.filter_cons]
  split <;> rfl

theorem mem_slots {slot : Slot} :
    slot ∈ publicizer.slots interner holder definitions ↔
      ∃ definition ∈ definitions, publicizer.isCandidate interner holder definition ∧
        slot = ⟨holder.type, definition.method⟩ := by
  simp only [slots, List.mem_map, List.mem_filter]
  constructor
  · intro listed
    obtain ⟨definition, ⟨member, candidate⟩, rfl⟩ := listed
    exact ⟨definition, member, candidate, rfl⟩
  · intro listed
    obtain ⟨definition, member, candidate, rfl⟩ := listed
    exact ⟨definition, ⟨member, candidate⟩, rfl⟩

theorem verdict_ne_publicize (other : publicizer.isCandidate interner holder definition = false)
    (pool : SignaturePool) : publicizer.verdict interner holder pool definition ≠ .publicize := by
  rw [verdict_of_not_candidate other]
  simpa [isCandidate] using other

theorem claim_slots_cons :
    claim interner state.pool (publicizer.slots interner holder (definition :: definitions)) =
      (if publicizer.verdict interner holder state.pool definition = .publicize then
        [⟨holder.type, definition.method⟩] else []) ++
      claim interner
        (state.after interner ⟨holder.type, definition.method⟩
          (publicizer.verdict interner holder state.pool definition)).pool
        (publicizer.slots interner holder definitions) := by
  rw [slots_cons]
  split
  · rename_i candidate
    rw [verdict_of_candidate candidate, claim]
    split <;> rfl
  · rename_i other
    have unopened := verdict_ne_publicize (by simpa using other) state.pool
    rw [if_neg unopened, State.after_of_ne unopened]
    rfl

theorem grow_slots_cons :
    grow interner state.pool (publicizer.slots interner holder (definition :: definitions)) =
      grow interner
        (state.after interner ⟨holder.type, definition.method⟩
          (publicizer.verdict interner holder state.pool definition)).pool
        (publicizer.slots interner holder definitions) := by
  rw [slots_cons]
  split
  · rename_i candidate
    rw [verdict_of_candidate candidate, grow_cons]
    split
    · rename_i taken
      rw [Table.insert_eq_self taken]
      rfl
    · rfl
  · rename_i other
    rw [State.after_of_ne (verdict_ne_publicize (by simpa using other) state.pool)]

theorem level_after :
    (state.after interner ⟨holder.type, definition.method⟩
        (publicizer.verdict interner holder state.pool definition)).level =
      record state.level
        (if publicizer.verdict interner holder state.pool definition = .publicize then
          [⟨holder.type, definition.method⟩] else []) := by
  split
  · rename_i opened
    rw [opened]
    rfl
  · rename_i unopened
    rw [State.after_of_ne unopened]
    simp [record]

/-- The claims of a whole list decide on its head as the pool does at its turn. -/
theorem verdict_eq_decision :
    publicizer.verdict interner holder state.pool definition =
      publicizer.decision interner holder
        (claim interner state.pool (publicizer.slots interner holder (definition :: definitions)))
        definition := by
  unfold decision
  split
  · rename_i candidate
    rw [verdict_of_candidate candidate, slots_cons, if_pos candidate, claim]
    split
    · rename_i taken
      rw [if_neg]
      exact fun claimed => signature_notMem_of_mem_claim claimed taken
    · rw [if_pos (by simp)]
  · rename_i other
    exact verdict_of_not_candidate (by simpa using other)

theorem decision_tail (distinct : definition.method ∉ definitions.map (·.method))
    {later : MethodDef} (member : later ∈ definitions) :
    publicizer.decision interner holder
        (claim interner state.pool (publicizer.slots interner holder (definition :: definitions)))
        later =
      publicizer.decision interner holder
        (claim interner
          (state.after interner ⟨holder.type, definition.method⟩
            (publicizer.verdict interner holder state.pool definition)).pool
          (publicizer.slots interner holder definitions))
        later := by
  apply decision_congr
  have different : later.method ≠ definition.method := by
    intro same
    exact distinct (List.mem_map.mpr ⟨later, member, same⟩)
  rw [claim_slots_cons, List.mem_append]
  split <;> simp [different]

end Methods

def State.afterAll (state : State) (publicizer : Publicizer) (interner : Interner)
    (holder : ClassDef) (definitions : List MethodDef) : State :=
  let candidates := publicizer.slots interner holder definitions
  let claimed := claim interner state.pool candidates
  { pool := grow interner state.pool candidates
    level := record state.level claimed
    stats := (definitions.map (publicizer.decision interner holder claimed)).foldl Stats.count
      state.stats }

theorem record_record (level : Lens.Level) (left right : List Slot) :
    record (record level left) right = record level (left ++ right) := by
  simp only [record, List.map_append, List.append_assoc]

section Methods

variable {publicizer : Publicizer} {interner : Interner} {holder : ClassDef}
  {definition : MethodDef} {definitions : List MethodDef} {state : State}

theorem State.afterAll_cons (distinct : definition.method ∉ definitions.map (·.method)) :
    state.afterAll publicizer interner holder (definition :: definitions) =
      (state.after interner ⟨holder.type, definition.method⟩
        (publicizer.verdict interner holder state.pool definition)).afterAll publicizer interner
          holder definitions := by
  have tail : definitions.map (publicizer.decision interner holder (claim interner state.pool
      (publicizer.slots interner holder (definition :: definitions)))) = definitions.map _ :=
    List.map_congr_left fun later member => decision_tail distinct member
  simp only [State.afterAll, grow_slots_cons, level_after, record_record, ← claim_slots_cons,
    State.stats_after, List.map_cons, List.foldl_cons, ← verdict_eq_decision, tail]

theorem applyVerdict_verdict (recorded : state.IsRecorded interner) :
    applyVerdict interner definition state
        (publicizer.verdict interner holder state.pool definition) =
      .ok (carryOut definition (publicizer.verdict interner holder state.pool definition),
        state.after interner ⟨holder.type, definition.method⟩
          (publicizer.verdict interner holder state.pool definition)) := by
  apply applyVerdict_eq
  intro opened
  have candidate : publicizer.isCandidate interner holder definition := by
    apply Classical.byContradiction
    intro other
    exact verdict_ne_publicize (by simpa using other) state.pool opened
  rw [verdict_of_candidate candidate] at opened
  split at opened
  · cases opened
  · rename_i free
    exact recordMethod_eq recorded (isCandidate_iff.mp candidate).2.2.2.2.2.2.1 free holder.type

theorem publicizeMethods_eq (distinct : (definitions.map (·.method)).Nodup)
    (recorded : state.IsRecorded interner) :
    publicizer.publicizeMethods interner holder definitions state =
      .ok (definitions.map (publicizer.settle interner holder
          (claim interner state.pool (publicizer.slots interner holder definitions))),
        (claim interner state.pool (publicizer.slots interner holder definitions)).map (·.method),
        state.afterAll publicizer interner holder definitions) := by
  induction definitions generalizing state with
  | nil => simp [publicizeMethods, slots, claim, State.afterAll, grow, record]
  | cons definition definitions ih =>
      obtain ⟨once, others⟩ := List.nodup_cons.mp distinct
      have rest := ih others (recorded.after ⟨holder.type, definition.method⟩
        (publicizer.verdict interner holder state.pool definition))
      have settled : definitions.map (publicizer.settle interner holder (claim interner state.pool
          (publicizer.slots interner holder (definition :: definitions)))) = definitions.map _ :=
        List.map_congr_left fun later member =>
          congrArg (carryOut later) (decision_tail once member)
      have head : publicizer.settle interner holder (claim interner state.pool
          (publicizer.slots interner holder (definition :: definitions))) definition =
          carryOut definition (publicizer.verdict interner holder state.pool definition) :=
        congrArg (carryOut definition) verdict_eq_decision.symm
      rw [publicizeMethods]
      simp only [applyVerdict_verdict recorded, ok_bind, rest, State.afterAll_cons once,
        List.map_cons, settled, head]
      rw [claim_slots_cons]
      split <;> rfl

end Methods

end Shrinker.Publicizer
