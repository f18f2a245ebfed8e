import Mathlib.Data.List.Nodup
import Shrinker.Proofs.Lens.Initializers

namespace Shrinker.Lens

open Reference

section Sound

variable {α : Type}

def Entries.Records (entries : Entries α) (source : α) : Prop :=
  ∃ entry, (source, entry) ∈ entries

/-- A move would go to a reference that is moved on, or start at one that another reference is moved to. -/
def Entries.Chains (entries : Entries α) (source target : α) : Prop :=
  source ≠ target ∧
    ((∃ entry, (target, entry) ∈ entries ∧ entry.target ≠ target) ∨
      ∃ other entry, (other, entry) ∈ entries ∧ entry.target = source ∧ other ≠ source)

/-- Each reference has one entry, and what a reference is moved to is not moved itself. -/
structure Entries.IsSound (entries : Entries α) : Prop where
  distinct : (entries.map Prod.fst).Nodup
  once : ∀ first ∈ entries, ∀ second ∈ entries, first.2.target ≠ first.1 →
    second.2.target ≠ second.1 → first.2.target ≠ second.1

variable {entries others : Entries α} {source target : α} {change : Change}

theorem Entries.records_iff : entries.Records source ↔ source ∈ entries.map Prod.fst := by
  simp [Records]

theorem Entries.isSound_nil : Entries.IsSound ([] : Entries α) where
  distinct := .nil
  once := by nofun

theorem Entries.IsSound.perm (sound : entries.IsSound) (same : entries.Perm others) :
    others.IsSound where
  distinct := (same.map Prod.fst).nodup_iff.mp sound.distinct
  once first firstMember second secondMember :=
    sound.once first (same.mem_iff.mpr firstMember) second (same.mem_iff.mpr secondMember)

theorem Entries.IsSound.of_append (sound : (entries ++ others).IsSound) : entries.IsSound where
  distinct := by
    have distinct := sound.distinct
    rw [List.map_append] at distinct
    exact distinct.of_append_left
  once first firstMember second secondMember :=
    sound.once first (List.mem_append_left _ firstMember) second
      (List.mem_append_left _ secondMember)

theorem Entries.IsSound.not_records
    (sound : Entries.IsSound (entries ++ [(source, ⟨target, change⟩)])) :
    ¬entries.Records source := by
  intro recorded
  have distinct := sound.distinct
  rw [List.map_append, List.nodup_append] at distinct
  exact distinct.2.2 source (records_iff.mp recorded) source List.mem_cons_self rfl

theorem Entries.IsSound.not_chains
    (sound : Entries.IsSound (entries ++ [(source, ⟨target, change⟩)])) :
    ¬entries.Chains source target := by
  intro chained
  have added : (source, ⟨target, change⟩) ∈ entries ++ [(source, ⟨target, change⟩)] := by
    simp
  obtain ⟨moving, ⟨entry, listed, onward⟩ | ⟨other, entry, listed, arrived, apart⟩⟩ := chained
  · exact sound.once _ added _ (List.mem_append_left _ listed) (Ne.symm moving) onward rfl
  · have arriving : entry.target ≠ other := arrived ▸ Ne.symm apart
    exact sound.once _ (List.mem_append_left _ listed) _ added arriving (Ne.symm moving) arrived

theorem Entries.IsSound.append (sound : entries.IsSound) (unrecorded : ¬entries.Records source)
    (unchained : ¬entries.Chains source target) :
    Entries.IsSound (entries ++ [(source, ⟨target, change⟩)]) := by
  constructor
  · rw [List.map_append, List.nodup_append]
    refine ⟨sound.distinct, List.nodup_singleton _, ?_⟩
    intro known listed added new
    rw [List.mem_singleton.mp new]
    intro same
    rw [same] at listed
    exact unrecorded (records_iff.mpr listed)
  · intro first firstMember second secondMember firstMoves secondMoves arrived
    rcases List.mem_append.mp firstMember with firstOld | firstNew
    · rcases List.mem_append.mp secondMember with secondOld | secondNew
      · exact sound.once first firstOld second secondOld firstMoves secondMoves arrived
      · -- an older entry moves to the new source
        cases List.mem_singleton.mp secondNew
        have apart : first.1 ≠ source := fun same => firstMoves (arrived.trans same.symm)
        exact unchained ⟨Ne.symm secondMoves, .inr ⟨first.1, first.2, firstOld, arrived, apart⟩⟩
    · cases List.mem_singleton.mp firstNew
      rcases List.mem_append.mp secondMember with secondOld | secondNew
      · -- the new entry moves to a source that moves on
        subst arrived
        exact unchained ⟨Ne.symm firstMoves, .inl ⟨second.2, secondOld, secondMoves⟩⟩
      · cases List.mem_singleton.mp secondNew
        exact firstMoves arrived

theorem Entries.IsSound.append_iff (sound : entries.IsSound) :
    Entries.IsSound (entries ++ [(source, ⟨target, change⟩)]) ↔
      ¬entries.Records source ∧ ¬entries.Chains source target := by
  constructor
  · intro extended
    exact ⟨extended.not_records, extended.not_chains⟩
  · intro free
    exact sound.append free.1 free.2

variable [DecidableEq α]

theorem Entries.IsSound.lookup_eq_some_iff (sound : entries.IsSound) {entry : Entry α} :
    entries.lookup source = some entry ↔ (source, entry) ∈ entries := by
  constructor
  · exact mem_of_lookup
  · intro listed
    obtain ⟨before, after, rfl⟩ := List.append_of_mem listed
    refine List.lookup_eq_some_iff.mpr ⟨before, after, rfl, ?_⟩
    intro other earlier
    have distinct := sound.distinct
    rw [List.map_append, List.nodup_append] at distinct
    have apart := distinct.2.2 other.1 (List.mem_map_of_mem earlier) source List.mem_cons_self
    exact bne_iff_ne.mpr (Ne.symm apart)

theorem Entries.IsSound.lookup_eq_of_perm (sound : entries.IsSound) (same : entries.Perm others)
    (reference : α) : entries.lookup reference = others.lookup reference := by
  apply Option.ext
  intro entry
  rw [sound.lookup_eq_some_iff, (sound.perm same).lookup_eq_some_iff, same.mem_iff]

theorem Entries.isMoveTarget_iff :
    entries.isMoveTarget source ↔
      ∃ other entry, (other, entry) ∈ entries ∧ entry.target = source ∧ other ≠ source := by
  simp [isMoveTarget]

theorem Entries.IsSound.moves_iff (sound : entries.IsSound) :
    entries.moves target ↔ ∃ entry, (target, entry) ∈ entries ∧ entry.target ≠ target := by
  simp only [moves, Option.any_eq_true, sound.lookup_eq_some_iff, bne_iff_ne]

theorem Entries.isMoveTarget_append {entry : Entry α} (reference : α) :
    Entries.isMoveTarget (entries ++ [(source, entry)]) reference =
      (entries.isMoveTarget reference || (entry.target == reference && source != reference)) := by
  simp [isMoveTarget]

theorem Entries.IsSound.record_cases (sound : entries.IsSound) (source target : α) (change : Change) :
    (entries.Records source ∧ entries.record source target change = .error .duplicate) ∨
      (¬entries.Records source ∧ entries.Chains source target ∧
        entries.record source target change = .error .chained) ∨
      (¬entries.Records source ∧ ¬entries.Chains source target ∧
        entries.record source target change = .ok (entries ++ [(source, ⟨target, change⟩)])) := by
  have known : (entries.lookup source).isSome ↔ entries.Records source := by
    simp only [Option.isSome_iff_exists, sound.lookup_eq_some_iff, Records]
  have chained : (source != target && (entries.moves target || entries.isMoveTarget source)) ↔
      entries.Chains source target := by
    simp only [Bool.and_eq_true, bne_iff_ne, Bool.or_eq_true, sound.moves_iff, isMoveTarget_iff,
      Chains]
  unfold record
  by_cases recorded : entries.Records source
  · exact .inl ⟨recorded, if_pos (known.mpr recorded)⟩
  · rw [if_neg (mt known.mp recorded)]
    by_cases chains : entries.Chains source target
    · exact .inr (.inl ⟨recorded, chains, if_pos (chained.mpr chains)⟩)
    · exact .inr (.inr ⟨recorded, chains, if_neg (mt chained.mp chains)⟩)

theorem Entries.IsSound.record_eq_ok_iff {extended : Entries α} (sound : entries.IsSound) :
    entries.record source target change = .ok extended ↔
      Entries.IsSound (entries ++ [(source, ⟨target, change⟩)]) ∧
        extended = entries ++ [(source, ⟨target, change⟩)] := by
  rw [sound.append_iff]
  rcases sound.record_cases source target change with
    ⟨recorded, answer⟩ | ⟨-, chains, answer⟩ | ⟨unrecorded, unchained, answer⟩
  · simp [answer, recorded]
  · simp [answer, chains]
  · simp [answer, unrecorded, unchained, eq_comm]

end Sound

/-- A table being written, with the targets of its moves. -/
structure Ledger (α : Type) where
  entries : Entries α := []
  targets : List α := []
  deriving DecidableEq, Repr

namespace Ledger

variable {α : Type} [DecidableEq α]

def append (ledger : Ledger α) (source : α) (entry : Entry α) : Ledger α :=
  { ledger with entries := ledger.entries ++ [(source, entry)] }

/-- The targets are written down before the entry is. -/
def insert (ledger : Ledger α) (source target : α) (change : Change) :
    Except Entries.Rejection Unit × Ledger α :=
  if (ledger.entries.lookup source).isSome then
    (.error .duplicate, ledger)
  else if source = target then
    (.ok (), ledger.append source ⟨target, change⟩)
  else if ledger.entries.moves target || ledger.targets.contains source then
    (.error .chained, ledger)
  else
    (.ok (), { ledger with targets := target :: ledger.targets }.append source ⟨target, change⟩)

/-- The entries are sound, and the targets noted are those of their moves. -/
structure IsKept (ledger : Ledger α) : Prop where
  sound : ledger.entries.IsSound
  targets : ∀ reference, ledger.targets.contains reference = ledger.entries.isMoveTarget reference

variable {ledger : Ledger α} {source target : α} {change : Change}

theorem insert_of_error {rejection : Entries.Rejection} (kept : ledger.IsKept)
    (refused : ledger.entries.record source target change = .error rejection) :
    ledger.insert source target change = (.error rejection, ledger) := by
  unfold Entries.record at refused
  unfold insert
  split at refused
  · rename_i known
    cases refused
    exact if_pos known
  · rename_i unknown
    split at refused
    · rename_i chained
      cases refused
      obtain ⟨moving, conflict⟩ := Bool.and_eq_true_iff.mp chained
      rw [if_neg unknown, if_neg (bne_iff_ne.mp moving), kept.targets, if_pos conflict]
    · cases refused

theorem insert_of_ok {extended : Entries α} (kept : ledger.IsKept)
    (accepted : ledger.entries.record source target change = .ok extended) :
    ledger.insert source target change =
      (.ok (), ⟨extended, if source = target then ledger.targets else target :: ledger.targets⟩) := by
  obtain ⟨unknown, free, rfl⟩ := Entries.record_eq_ok.mp accepted
  unfold insert
  rw [unknown]
  by_cases stays : source = target
  · rw [if_pos stays, if_pos stays]
    rfl
  · obtain ⟨noMove, noTarget⟩ := free stays
    rw [if_neg stays, if_neg stays, kept.targets, noMove, noTarget]
    rfl

theorem IsKept.insert (kept : ledger.IsKept) (source target : α) (change : Change) :
    (ledger.insert source target change).2.IsKept := by
  rcases kept.sound.record_cases source target change with
    ⟨-, refused⟩ | ⟨-, -, refused⟩ | ⟨unrecorded, unchained, accepted⟩
  · rw [insert_of_error kept refused]
    exact kept
  · rw [insert_of_error kept refused]
    exact kept
  · rw [insert_of_ok kept accepted]
    refine ⟨kept.sound.append unrecorded unchained, ?_⟩
    intro reference
    rw [Entries.isMoveTarget_append, ← kept.targets]
    by_cases stays : source = target
    · subst stays
      simp
    · rw [if_neg stays, List.contains_cons, Bool.or_comm]
      by_cases arrived : target = reference
      · subst arrived
        simp [stays]
      · rw [beq_false_of_ne arrived, beq_false_of_ne (Ne.symm arrived)]
        rfl

theorem isKept_empty : IsKept ({} : Ledger α) where
  sound := Entries.isSound_nil
  targets _ := rfl

end Ledger

structure Call where
  interner : Interner
  request : Request

structure Builder where
  name : String
  methods : Ledger MethodId := {}
  fields : Ledger FieldId := {}
  deriving DecidableEq, Repr

namespace Builder

def level (builder : Builder) : Level :=
  ⟨builder.name, builder.methods.entries, builder.fields.entries⟩

def record (builder : Builder) (call : Call) : Except RecordError Unit × Builder :=
  match call.request with
  | .method source target change =>
      match [source, target].find? call.interner.isInitializer with
      | some member =>
          (.error (.protectedMember builder.name (call.interner.methodText member)), builder)
      | none =>
          let (answer, methods) := builder.methods.insert source target change
          (answer.mapError (builder.level.rejected (call.interner.methodText source)
            (call.interner.methodText target)), { builder with methods })
  | .field source target change =>
      let (answer, fields) := builder.fields.insert source target change
      (answer.mapError (builder.level.rejected (call.interner.fieldText source)
        (call.interner.fieldText target)), { builder with fields })

def after (builder : Builder) (calls : List Call) : Builder :=
  calls.foldl (fun builder call => (builder.record call).2) builder

def answers (builder : Builder) : List Call → List (Except RecordError Unit)
  | [] => []
  | call :: calls => (builder.record call).1 :: (builder.record call).2.answers calls

def TakesAll (builder : Builder) (calls : List Call) : Prop :=
  ∀ answer ∈ builder.answers calls, answer = .ok ()

structure IsKept (builder : Builder) : Prop where
  methods : builder.methods.IsKept
  fields : builder.fields.IsKept

variable {builder : Builder} {call : Call}

/-- A call is answered as the level would answer it. If it is refused the builder stays as it is, down to
the targets it keeps at hand. -/
theorem IsKept.record_cases (kept : builder.IsKept) (call : Call) :
    (∃ cause, builder.level.record call.interner call.request = .error cause ∧
        builder.record call = (.error cause, builder)) ∨
      ∃ extended, builder.level.record call.interner call.request = .ok extended ∧
        (builder.record call).1 = .ok () ∧ (builder.record call).2.level = extended := by
  obtain ⟨interner, request⟩ := call
  cases request with
  | method source target change =>
      simp only [record, Level.record, Level.recordMethod, level]
      cases [source, target].find? interner.isInitializer with
      | some member => exact .inl ⟨_, rfl, rfl⟩
      | none =>
          dsimp only
          cases recorded : builder.methods.entries.record source target change with
          | error rejection =>
              rw [Ledger.insert_of_error kept.methods recorded]
              exact .inl ⟨_, rfl, rfl⟩
          | ok extended =>
              rw [Ledger.insert_of_ok kept.methods recorded]
              exact .inr ⟨_, rfl, rfl, rfl⟩
  | field source target change =>
      simp only [record, Level.record, Level.recordField, level]
      cases recorded : builder.fields.entries.record source target change with
      | error rejection =>
          rw [Ledger.insert_of_error kept.fields recorded]
          exact .inl ⟨_, rfl, rfl⟩
      | ok extended =>
          rw [Ledger.insert_of_ok kept.fields recorded]
          exact .inr ⟨_, rfl, rfl, rfl⟩

theorem IsKept.record (kept : builder.IsKept) (call : Call) : (builder.record call).2.IsKept := by
  obtain ⟨interner, request⟩ := call
  cases request with
  | method source target change =>
      simp only [Builder.record]
      split
      · exact kept
      · exact ⟨kept.methods.insert source target change, kept.fields⟩
  | field source target change =>
      exact ⟨kept.methods, kept.fields.insert source target change⟩

theorem IsKept.after (kept : builder.IsKept) (calls : List Call) : (builder.after calls).IsKept := by
  induction calls generalizing builder with
  | nil => exact kept
  | cons call calls ih => exact ih (kept.record call)

theorem isKept_start (name : String) : IsKept { name } :=
  ⟨Ledger.isKept_empty, Ledger.isKept_empty⟩

theorem IsKept.level_after (kept : builder.IsKept) (calls : List Call) :
    (builder.after calls).level =
      calls.foldl (fun level call => level.attempt call.interner call.request) builder.level := by
  induction calls generalizing builder with
  | nil => rfl
  | cons call calls ih =>
      have step : (builder.record call).2.level =
          builder.level.attempt call.interner call.request := by
        rcases kept.record_cases call with ⟨cause, refused, unchanged⟩ | ⟨extended, accepted, -, reached⟩
        · rw [unchanged, Level.attempt, refused]
          rfl
        · rw [reached, Level.attempt, accepted]
          rfl
      rw [List.foldl_cons, ← step]
      exact ih (kept.record call)

end Builder

/-- An entry for a source that has one is refused as such; a chain is refused where there is none, and
nothing else is refused. -/
structure Decides {α : Type} (entries : Entries α) (pass : String) (text : α → String)
    (source target : α) (answer : Except RecordError Unit) : Prop where
  duplicate : answer = .error (.duplicateEntry pass (text source)) ↔ entries.Records source
  chained : answer = .error (.chainedEntry pass (text source) (text target)) ↔
    ¬entries.Records source ∧ entries.Chains source target
  taken : answer = .ok () ↔ ¬entries.Records source ∧ ¬entries.Chains source target

theorem Ledger.IsKept.decides {α : Type} [DecidableEq α] {ledger : Ledger α} (kept : ledger.IsKept)
    (level : Level) (text : α → String) (source target : α) (change : Change) :
    Decides ledger.entries level.name text source target
      ((ledger.insert source target change).1.mapError
        (level.rejected (text source) (text target))) := by
  rcases kept.sound.record_cases source target change with
    ⟨recorded, refused⟩ | ⟨unrecorded, chains, refused⟩ | ⟨unrecorded, unchained, accepted⟩
  · rw [insert_of_error kept refused]
    constructor <;> simp [Except.mapError, Level.rejected, recorded]
  · rw [insert_of_error kept refused]
    constructor <;> simp [Except.mapError, Level.rejected, unrecorded, chains]
  · rw [insert_of_ok kept accepted]
    constructor <;> simp [Except.mapError, unrecorded, unchained]

namespace Builder

/-- Refusals change nothing and come for one of two reasons. The moves written never chain. -/
structure IsExact (builder : Builder) : Prop where
  answered : ∀ call, (builder.record call).1 =
    (builder.level.record call.interner call.request).map fun _ => ()
  unchanged : ∀ call cause, (builder.record call).1 = .error cause → (builder.record call).2 = builder
  methods : ∀ interner source target change, interner.isInitializer source = false →
    interner.isInitializer target = false →
    Decides builder.level.methods builder.name interner.methodText source target
      (builder.record ⟨interner, .method source target change⟩).1
  fields : ∀ interner source target change,
    Decides builder.level.fields builder.name interner.fieldText source target
      (builder.record ⟨interner, .field source target change⟩).1
  methodMoves : builder.level.methods.IsSound
  fieldMoves : builder.level.fields.IsSound

theorem IsKept.isExact {builder : Builder} (kept : builder.IsKept) : builder.IsExact where
  answered call := by
    rcases kept.record_cases call with ⟨cause, refused, unchanged⟩ | ⟨extended, accepted, answer, -⟩
    · rw [refused, unchanged]
      rfl
    · rw [accepted, answer]
      rfl
  unchanged call cause answer := by
    rcases kept.record_cases call with ⟨cause, -, unchanged⟩ | ⟨extended, -, taken, -⟩
    · rw [unchanged]
    · rw [taken] at answer
      cases answer
  methods interner source target change ordinarySource ordinaryTarget := by
    have ordinary : [source, target].find? interner.isInitializer = none := by
      simp [ordinarySource, ordinaryTarget]
    simp only [Builder.record, ordinary]
    exact kept.methods.decides builder.level interner.methodText source target change
  fields interner source target change :=
    kept.fields.decides builder.level interner.fieldText source target change
  methodMoves := kept.methods.sound
  fieldMoves := kept.fields.sound

end Builder

namespace Call

def methods (call : Call) : Entries MethodId :=
  match call.request with
  | .method source target change => [(source, ⟨target, change⟩)]
  | .field .. => []

def fields (call : Call) : Entries FieldId :=
  match call.request with
  | .method .. => []
  | .field source target change => [(source, ⟨target, change⟩)]

def IsOrdinary (call : Call) : Prop :=
  ∀ entry ∈ call.methods, call.interner.isInitializer entry.1 = false ∧
    call.interner.isInitializer entry.2.target = false

end Call

theorem Level.record_eq_ok_iff {level extended : Level} (methods : level.methods.IsSound)
    (fields : level.fields.IsSound) (call : Call) :
    level.record call.interner call.request = .ok extended ↔
      call.IsOrdinary ∧ Entries.IsSound (level.methods ++ call.methods) ∧
        Entries.IsSound (level.fields ++ call.fields) ∧
        extended = ⟨level.name, level.methods ++ call.methods, level.fields ++ call.fields⟩ := by
  obtain ⟨interner, request⟩ := call
  cases request with
  | method source target change =>
      simp only [record, recordMethod_eq_ok, methods.record_eq_ok_iff, Call.IsOrdinary, Call.methods,
        Call.fields, List.forall_mem_singleton, List.append_nil, fields, true_and, and_assoc,
        exists_and_left, exists_eq_left]
  | field source target change =>
      simp only [record, recordField_eq_ok, fields.record_eq_ok_iff, Call.IsOrdinary, Call.methods,
        Call.fields, List.not_mem_nil, false_imp_iff, implies_true, List.append_nil, methods,
        true_and, and_assoc, exists_and_left, exists_eq_left]

namespace Builder

variable {builder : Builder}

theorem takesAll_cons (call : Call) (calls : List Call) :
    builder.TakesAll (call :: calls) ↔
      (builder.record call).1 = .ok () ∧ (builder.record call).2.TakesAll calls :=
  List.forall_mem_cons

/-- All calls are taken exactly if none is about an initializer and the entries are sound together with
those that are there. This does not depend on the order of the calls. -/
theorem IsKept.takesAll_iff (kept : builder.IsKept) (calls : List Call) :
    builder.TakesAll calls ↔
      (∀ call ∈ calls, call.IsOrdinary) ∧
        Entries.IsSound (builder.level.methods ++ calls.flatMap Call.methods) ∧
        Entries.IsSound (builder.level.fields ++ calls.flatMap Call.fields) := by
  induction calls generalizing builder with
  | nil =>
      have methods : builder.level.methods.IsSound := kept.methods.sound
      have fields : builder.level.fields.IsSound := kept.fields.sound
      simp [TakesAll, answers, methods, fields]
  | cons call calls ih =>
      rw [takesAll_cons, List.forall_mem_cons, List.flatMap_cons, List.flatMap_cons,
        ← List.append_assoc, ← List.append_assoc]
      rcases kept.record_cases call with ⟨cause, refused, answer⟩ | ⟨extended, accepted, answer, reached⟩
      · constructor
        · intro taken
          rw [answer] at taken
          cases taken.1
        · intro sound
          obtain ⟨⟨ordinary, -⟩, methods, fields⟩ := sound
          have accepted := (Level.record_eq_ok_iff kept.isExact.methodMoves kept.isExact.fieldMoves
            call).mpr ⟨ordinary, methods.of_append, fields.of_append, rfl⟩
          rw [refused] at accepted
          cases accepted
      · obtain ⟨ordinary, -, -, rfl⟩ := (Level.record_eq_ok_iff kept.isExact.methodMoves
          kept.isExact.fieldMoves call).mp accepted
        rw [ih (kept.record call), reached]
        simp only [answer, ordinary, true_and]

theorem IsKept.level_after_of_takesAll (kept : builder.IsKept) {calls : List Call}
    (taken : builder.TakesAll calls) :
    (builder.after calls).level =
      ⟨builder.name, builder.level.methods ++ calls.flatMap Call.methods,
        builder.level.fields ++ calls.flatMap Call.fields⟩ := by
  induction calls generalizing builder with
  | nil => simp [Builder.after, level]
  | cons call calls ih =>
      obtain ⟨first, others⟩ := (takesAll_cons call calls).mp taken
      rcases kept.record_cases call with ⟨cause, -, answer⟩ | ⟨extended, accepted, -, reached⟩
      · rw [answer] at first
        cases first
      · obtain ⟨-, -, -, rfl⟩ := (Level.record_eq_ok_iff kept.isExact.methodMoves
          kept.isExact.fieldMoves call).mp accepted
        have named : (builder.record call).2.name = builder.name := congrArg Level.name reached
        rw [List.flatMap_cons, List.flatMap_cons, ← List.append_assoc, ← List.append_assoc]
        refine (ih (kept.record call) others).trans ?_
        rw [reached, named]

theorem IsKept.takesAll_of_perm (kept : builder.IsKept) {calls others : List Call}
    (same : calls.Perm others) (taken : builder.TakesAll calls) : builder.TakesAll others := by
  obtain ⟨ordinary, methods, fields⟩ := (kept.takesAll_iff calls).mp taken
  refine (kept.takesAll_iff others).mpr ⟨?_, ?_, ?_⟩
  · intro call member
    exact ordinary call (same.mem_iff.mpr member)
  · exact methods.perm ((same.flatMap_right Call.methods).append_left _)
  · exact fields.perm ((same.flatMap_right Call.fields).append_left _)

end Builder

section Agreement

variable {α : Type} [DecidableEq α]

def Entries.SaysSame (table other : Entries α) : Prop :=
  ∀ reference, table.lookup reference = other.lookup reference

theorem Lookup.sweep_congr {tables others : List (Entries α)}
    (same : List.Forall₂ Entries.SaysSame tables others) (lookup : Lookup α) :
    (sweep tables lookup).1 = (sweep others lookup).1 ∧
      List.Forall₂ Entries.SaysSame (sweep tables lookup).2 (sweep others lookup).2 := by
  induction same generalizing lookup with
  | nil => exact ⟨rfl, .nil⟩
  | cons alike _ ih =>
      rw [sweep, sweep, ← alike]
      split
      · exact ih _
      · exact ⟨(ih lookup).1, .cons alike (ih lookup).2⟩

theorem Lookup.settle_congr {tables others : List (Entries α)}
    (same : List.Forall₂ Entries.SaysSame tables others) (lookup : Lookup α) :
    settle tables lookup = settle others lookup := by
  induction tables, lookup using settle.induct generalizing others with
  | case1 tables lookup progressed ih =>
      obtain ⟨reached, left⟩ := sweep_congr same lookup
      have otherProgressed := progressed
      rw [left.length_eq, same.length_eq] at otherProgressed
      rw [settle, if_pos progressed, ih left, settle.eq_1 others, if_pos otherProgressed, reached]
  | case2 tables lookup idle =>
      obtain ⟨reached, left⟩ := sweep_congr same lookup
      have otherIdle := idle
      rw [left.length_eq, same.length_eq] at otherIdle
      rw [settle, if_neg idle, settle.eq_1 others, if_neg otherIdle, reached]

end Agreement

/-- Two levels have the same entries, perhaps in another order, and no lens on which they are published
shows a difference. -/
structure Level.Agrees (level other : Level) : Prop where
  name : level.name = other.name
  methods : level.methods.Perm other.methods
  fields : level.fields.Perm other.fields
  method : level.methods.SaysSame other.methods
  field : level.fields.SaysSame other.fields
  publishedMethod : ∀ (lens : Lens) method,
    (lens.publish level).lookupMethod method = (lens.publish other).lookupMethod method
  publishedField : ∀ (lens : Lens) field,
    (lens.publish level).lookupField field = (lens.publish other).lookupField field

theorem Level.agrees_of_perm {level other : Level} (name : level.name = other.name)
    (methods : level.methods.Perm other.methods) (fields : level.fields.Perm other.fields)
    (soundMethods : level.methods.IsSound) (soundFields : level.fields.IsSound) :
    level.Agrees other := by
  have method := soundMethods.lookup_eq_of_perm methods
  have field := soundFields.lookup_eq_of_perm fields
  refine ⟨name, methods, fields, method, field, ?_, ?_⟩
  · intro lens reference
    apply Lookup.settle_congr
    simp only [publish, List.map_append]
    refine List.rel_append ?_ (.cons method .nil)
    exact List.forall₂_same.mpr fun _ _ _ => rfl
  · intro lens reference
    apply Lookup.settle_congr
    simp only [publish, List.map_append]
    refine List.rel_append ?_ (.cons field .nil)
    exact List.forall₂_same.mpr fun _ _ _ => rfl

theorem Builder.IsKept.agrees_of_perm {builder : Builder} (kept : builder.IsKept)
    {calls others : List Call} (same : calls.Perm others) (taken : builder.TakesAll calls) :
    (builder.after calls).level.Agrees (builder.after others).level := by
  have exact := (kept.after calls).isExact
  have written := kept.level_after_of_takesAll taken
  have otherWritten := kept.level_after_of_takesAll (kept.takesAll_of_perm same taken)
  apply Level.agrees_of_perm _ _ _ exact.methodMoves exact.fieldMoves
  · rw [written, otherWritten]
  · rw [written, otherWritten]
    exact (same.flatMap_right Call.methods).append_left _
  · rw [written, otherWritten]
    exact (same.flatMap_right Call.fields).append_left _

/-- Whatever was asked of a builder before, it holds what the level itself has taken, refuses for the two
reasons only and is not changed by that. If it takes all of some calls it takes them in any order, and
the level is the same. -/
theorem builder_exact_in_any_order (name : String) (earlier : List Call) :
    (Builder.after { name } earlier).level =
        earlier.foldl (fun level call => level.attempt call.interner call.request) { name } ∧
      (Builder.after { name } earlier).IsExact ∧
      ∀ calls others, calls.Perm others →
        ((Builder.after { name } earlier).TakesAll calls ↔
          (Builder.after { name } earlier).TakesAll others) ∧
        ((Builder.after { name } earlier).TakesAll calls →
          ((Builder.after { name } earlier).after calls).level.Agrees
            ((Builder.after { name } earlier).after others).level) := by
  have start := Builder.isKept_start name
  have kept := start.after earlier
  refine ⟨start.level_after earlier, kept.isExact, ?_⟩
  intro calls others same
  exact ⟨⟨kept.takesAll_of_perm same, kept.takesAll_of_perm same.symm⟩, kept.agrees_of_perm same⟩

open Moves in
example :
    Builder.answers { name := "renamer" }
        [⟨interner, .method ⟨1⟩ ⟨2⟩ .renamed⟩, ⟨interner, .method ⟨2⟩ ⟨2⟩ .publicized⟩,
          ⟨interner, .method ⟨2⟩ ⟨3⟩ .retargeted⟩, ⟨interner, .method ⟨3⟩ ⟨1⟩ .renamed⟩] =
      [.ok (), .ok (), .error (.duplicateEntry "renamer" "LA;->b()V"),
        .error (.chainedEntry "renamer" "LA;->c()V" "LA;->a()V")] := by
  rfl

end Shrinker.Lens
