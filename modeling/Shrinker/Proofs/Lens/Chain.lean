import Shrinker.Lens.Record

namespace Shrinker.Lens

open Reference

namespace ChangeSet

def union (left right : ChangeSet) : ChangeSet where
  renamed := left.renamed || right.renamed
  publicized := left.publicized || right.publicized
  retargeted := left.retargeted || right.retargeted

@[simp] theorem union_empty (changes : ChangeSet) : changes.union .empty = changes := by
  simp [union, empty]

@[simp] theorem empty_union (changes : ChangeSet) : empty.union changes = changes := by
  simp [union, empty]

theorem union_insert_empty (changes : ChangeSet) (change : Change) :
    changes.union (empty.insert change) = changes.insert change := by
  cases change <;> simp [union, insert, empty]

end ChangeSet

section Tables

variable {α : Type} [DecidableEq α]

def Entries.consult (entries : Entries α) (reference : α) : Lookup α :=
  match entries.lookup reference with
  | some entry => ⟨entry.target, ChangeSet.empty.insert entry.change⟩
  | none => .start reference

def Lookup.andThen (lookup : Lookup α) (next : α → Lookup α) : Lookup α :=
  ⟨(next lookup.target).target, lookup.changes.union (next lookup.target).changes⟩

/-- Consults each table once, the oldest first, on the reference that those before it have led to. -/
def Lookup.through (tables : List (Entries α)) (lookup : Lookup α) : Lookup α :=
  tables.foldl (fun reached table => reached.andThen table.consult) lookup

theorem Lookup.andThen_consult_of_known {table : Entries α} {lookup : Lookup α} {entry : Entry α}
    (known : table.lookup lookup.target = some entry) :
    lookup.andThen table.consult = lookup.follow entry := by
  simp only [andThen, Entries.consult, known, follow, ChangeSet.union_insert_empty]

theorem Lookup.andThen_consult_of_unknown {table : Entries α} {lookup : Lookup α}
    (unknown : table.lookup lookup.target = none) : lookup.andThen table.consult = lookup := by
  simp only [andThen, Entries.consult, unknown, start, ChangeSet.union_empty]

theorem Lookup.through_cons (table : Entries α) (tables : List (Entries α)) (lookup : Lookup α) :
    through (table :: tables) lookup = through tables (lookup.andThen table.consult) := rfl

theorem Lookup.fst_sweep (tables : List (Entries α)) (lookup : Lookup α) :
    (sweep tables lookup).1 = through tables lookup := by
  induction tables generalizing lookup with
  | nil => rfl
  | cons table tables ih =>
      rw [sweep, through_cons]
      split
      · rename_i entry known
        rw [andThen_consult_of_known known]
        exact ih _
      · rename_i unknown
        rw [andThen_consult_of_unknown unknown]
        exact ih _

/-- Moves nothing to a reference that the older table knows. -/
def Entries.Spares (newer older : Entries α) : Prop :=
  ∀ source entry, (source, entry) ∈ newer → entry.target ≠ source →
    older.lookup entry.target = none

def Entries.IsUnchained (entries : Entries α) : Prop :=
  ∀ source entry, (source, entry) ∈ entries → entry.target ≠ source →
    ∀ next, entries.lookup entry.target = some next → next.target = entry.target

theorem Entries.mem_of_lookup {entries : Entries α} {reference : α} {entry : Entry α}
    (known : entries.lookup reference = some entry) : (reference, entry) ∈ entries := by
  obtain ⟨before, after, rfl, -⟩ := List.lookup_eq_some_iff.mp known
  simp

variable {tables : List (Entries α)} {lookup : Lookup α}

theorem Lookup.exists_move (moved : (through tables lookup).target ≠ lookup.target) :
    ∃ table ∈ tables, ∃ source entry, (source, entry) ∈ table ∧ entry.target ≠ source ∧
      entry.target = (through tables lookup).target := by
  induction tables generalizing lookup with
  | nil => exact absurd rfl moved
  | cons table tables ih =>
      rw [through_cons] at moved ⊢
      by_cases later : (through tables (lookup.andThen table.consult)).target =
          (lookup.andThen table.consult).target
      · -- the first table made the last move
        rw [later] at moved ⊢
        cases known : table.lookup lookup.target with
        | none =>
            rw [andThen_consult_of_unknown known] at moved
            exact absurd rfl moved
        | some entry =>
            rw [andThen_consult_of_known known] at moved ⊢
            exact ⟨table, List.mem_cons_self, lookup.target, entry, Entries.mem_of_lookup known,
              moved, rfl⟩
      · obtain ⟨other, member, move⟩ := ih later
        exact ⟨other, List.mem_cons_of_mem _ member, move⟩

/-- An older table that does not know the reference where the newer ones start does not know the one where
they end. -/
theorem Lookup.unknown_after {older : Entries α} (fresh : ∀ newer ∈ tables, newer.Spares older)
    (unknown : older.lookup lookup.target = none) :
    older.lookup (through tables lookup).target = none := by
  by_cases moved : (through tables lookup).target = lookup.target
  · rw [moved]
    exact unknown
  · obtain ⟨newer, member, source, entry, listed, moving, same⟩ := exists_move moved
    rw [← same]
    exact fresh newer member source entry listed moving

theorem Lookup.unknown_of_left (fresh : tables.Pairwise fun older newer => newer.Spares older)
    {table : Entries α} (left : table ∈ (sweep tables lookup).2) :
    table.lookup (through tables lookup).target = none := by
  induction tables generalizing lookup with
  | nil => cases left
  | cons first tables ih =>
      obtain ⟨spared, others⟩ := List.pairwise_cons.mp fresh
      rw [sweep] at left
      rw [through_cons]
      split at left
      · rename_i entry known
        rw [andThen_consult_of_known known]
        exact ih others left
      · rename_i unknown
        rw [andThen_consult_of_unknown unknown]
        rcases List.mem_cons.mp left with rfl | later
        · exact unknown_after spared unknown
        · exact ih others later

theorem Lookup.sweep_of_unknown (unknown : ∀ table ∈ tables, table.lookup lookup.target = none) :
    sweep tables lookup = (lookup, tables) := by
  induction tables with
  | nil => rfl
  | cons table tables ih =>
      obtain ⟨here, others⟩ := List.forall_mem_cons.mp unknown
      rw [sweep, here]
      dsimp only
      rw [ih others]

theorem Lookup.settle_eq_through (fresh : tables.Pairwise fun older newer => newer.Spares older)
    (lookup : Lookup α) : settle tables lookup = through tables lookup := by
  have idle : settle (sweep tables lookup).2 (through tables lookup) = through tables lookup := by
    have nothing : sweep (sweep tables lookup).2 (through tables lookup) =
        (through tables lookup, (sweep tables lookup).2) :=
      sweep_of_unknown fun _ => unknown_of_left fresh
    rw [settle, nothing, if_neg (Nat.lt_irrefl _)]
  rw [settle, fst_sweep, idle]
  exact ite_self _

theorem Lookup.target_of_known_after
    (fresh : tables.Pairwise fun older newer => newer.Spares older)
    (unchained : ∀ table ∈ tables, table.IsUnchained) {table : Entries α} (member : table ∈ tables)
    {next : Entry α} (known : table.lookup (through tables lookup).target = some next) :
    next.target = (through tables lookup).target := by
  induction tables generalizing lookup with
  | nil => cases member
  | cons first tables ih =>
      obtain ⟨spared, others⟩ := List.pairwise_cons.mp fresh
      obtain ⟨once, rest⟩ := List.forall_mem_cons.mp unchained
      rw [through_cons] at known ⊢
      rcases List.mem_cons.mp member with rfl | later
      · cases started : table.lookup lookup.target with
        | none =>
            rw [andThen_consult_of_unknown started] at known
            rw [unknown_after spared started] at known
            cases known
        | some entry =>
            rw [andThen_consult_of_known started] at known ⊢
            by_cases moved : (through tables (lookup.follow entry)).target = entry.target
            · rw [moved] at known ⊢
              by_cases moving : entry.target = lookup.target
              · rw [moving, started] at known
                cases known
                rfl
              · exact once lookup.target entry (Entries.mem_of_lookup started) moving next known
            · -- a newer table made the last move, to a reference that this one does not know
              obtain ⟨newer, listed, source, last, move, moving, same⟩ := exists_move moved
              rw [← same, spared newer listed source last move moving] at known
              cases known
      · exact ih others rest later known

theorem Lookup.target_through_of_fixed
    (fixed : ∀ table ∈ tables, ∀ next, table.lookup lookup.target = some next →
      next.target = lookup.target) :
    (through tables lookup).target = lookup.target := by
  induction tables generalizing lookup with
  | nil => rfl
  | cons table tables ih =>
      obtain ⟨here, others⟩ := List.forall_mem_cons.mp fixed
      have same : (lookup.andThen table.consult).target = lookup.target := by
        cases known : table.lookup lookup.target with
        | none => rw [andThen_consult_of_unknown known]
        | some entry =>
            rw [andThen_consult_of_known known]
            exact here entry known
      rw [through_cons, ← same]
      apply ih
      rw [same]
      exact others

theorem Lookup.target_settle_settle
    (fresh : tables.Pairwise fun older newer => newer.Spares older)
    (unchained : ∀ table ∈ tables, table.IsUnchained) (reference : α) :
    (settle tables (.start (settle tables (.start reference)).target)).target =
      (settle tables (.start reference)).target := by
  simp only [settle_eq_through fresh]
  apply target_through_of_fixed
  intro table member next known
  exact target_of_known_after fresh unchained member known

theorem Lookup.settle_append {newest : Entries α}
    (fresh : (tables ++ [newest]).Pairwise fun older newer => newer.Spares older)
    (lookup : Lookup α) :
    settle (tables ++ [newest]) lookup = (settle tables lookup).andThen newest.consult := by
  rw [settle_eq_through fresh, settle_eq_through (List.pairwise_append.mp fresh).1]
  simp only [through, List.foldl_append, List.foldl_cons, List.foldl_nil]

end Tables

section Records

variable {α : Type} [DecidableEq α] {entries extended : Entries α} {source target : α}
  {change : Change}

theorem Entries.moves_eq_false {reference : α} :
    entries.moves reference = false ↔
      ∀ next, entries.lookup reference = some next → next.target = reference := by
  unfold moves
  cases entries.lookup reference with
  | none => simp
  | some entry => simp

theorem Entries.isMoveTarget_eq_false {reference : α} :
    entries.isMoveTarget reference = false ↔
      ∀ other entry, (other, entry) ∈ entries → entry.target = reference → other = reference := by
  simp [isMoveTarget]

theorem Entries.record_eq_ok :
    entries.record source target change = .ok extended ↔
      entries.lookup source = none ∧
        (source ≠ target → entries.moves target = false ∧ entries.isMoveTarget source = false) ∧
        extended = entries ++ [(source, ⟨target, change⟩)] := by
  unfold record
  split
  · rename_i known
    obtain ⟨entry, found⟩ := Option.isSome_iff_exists.mp known
    simp [found]
  · rename_i unknown
    have free := Option.not_isSome_iff_eq_none.mp unknown
    split
    · rename_i chained
      simp only [Bool.and_eq_true, bne_iff_ne, Bool.or_eq_true] at chained
      obtain ⟨moving, conflict⟩ := chained
      constructor
      · nofun
      · intro accepted
        obtain ⟨noMove, noTarget⟩ := accepted.2.1 moving
        simp [noMove, noTarget] at conflict
    · rename_i accepted
      simp only [Bool.and_eq_true, bne_iff_ne, Bool.or_eq_true, not_and, not_or,
        Bool.not_eq_true] at accepted
      simp only [Except.ok.injEq, free, true_and]
      constructor
      · intro same
        exact ⟨accepted, same.symm⟩
      · intro recorded
        exact recorded.2.symm

theorem Entries.lookup_append_of_ne {reference : α} {entry : Entry α} (other : reference ≠ source) :
    (entries ++ [(source, entry)]).lookup reference = entries.lookup reference := by
  have unequal : (reference == source) = false := beq_false_of_ne other
  rw [List.lookup_append, List.lookup_cons, unequal]
  exact Option.or_none

theorem Entries.IsUnchained.record (unchained : entries.IsUnchained)
    (recorded : entries.record source target change = .ok extended) : extended.IsUnchained := by
  obtain ⟨unknown, accepted, rfl⟩ := record_eq_ok.mp recorded
  intro other entry listed moving next known
  rcases List.mem_append.mp listed with old | new
  · by_cases arrived : entry.target = source
    · -- an older entry moves to the new source, which therefore stays in place
      rw [arrived, List.lookup_append, unknown, Option.none_or, List.lookup_cons_self] at known
      cases known
      by_cases stays : source = target
      · exact stays.symm.trans arrived.symm
      · have origin := isMoveTarget_eq_false.mp (accepted stays).2 other entry old arrived
        exact absurd (arrived.trans origin.symm) moving
    · rw [lookup_append_of_ne arrived] at known
      exact unchained other entry old moving next known
  · cases List.mem_singleton.mp new
    rw [lookup_append_of_ne moving] at known
    exact moves_eq_false.mp (accepted (Ne.symm moving)).1 next known

end Records

namespace Level

variable {level extended : Level} {interner : Interner} {change : Change}

theorem recordMethod_eq_ok {source target : MethodId} :
    level.recordMethod interner source target change = .ok extended ↔
      interner.isInitializer source = false ∧ interner.isInitializer target = false ∧
        ∃ methods, level.methods.record source target change = .ok methods ∧
          extended = { level with methods } := by
  unfold recordMethod
  cases initialSource : interner.isInitializer source with
  | true => simp [initialSource]
  | false =>
      cases initialTarget : interner.isInitializer target with
      | true => simp [initialSource, initialTarget]
      | false =>
          cases level.methods.record source target change with
          | error rejection => simp [initialSource, initialTarget]
          | ok methods => simp [initialSource, initialTarget, eq_comm]

theorem recordField_eq_ok {source target : FieldId} :
    level.recordField interner source target change = .ok extended ↔
      ∃ fields, level.fields.record source target change = .ok fields ∧
        extended = { level with fields } := by
  unfold recordField
  cases level.fields.record source target change with
  | error rejection => simp
  | ok fields => simp [eq_comm]

/-- Made by recording entries one after the other. -/
inductive Built : Level → Prop where
  | start (name : String) : Built { name }
  | method {level extended : Level} {interner : Interner} {source target : MethodId}
      {change : Change} :
      Built level → level.recordMethod interner source target change = .ok extended →
        Built extended
  | field {level extended : Level} {interner : Interner} {source target : FieldId}
      {change : Change} :
      Built level → level.recordField interner source target change = .ok extended →
        Built extended

theorem Built.isUnchained (built : level.Built) :
    level.methods.IsUnchained ∧ level.fields.IsUnchained := by
  induction built with
  | start name => exact ⟨by nofun, by nofun⟩
  | method _ recorded ih =>
      obtain ⟨-, -, methods, accepted, rfl⟩ := recordMethod_eq_ok.mp recorded
      exact ⟨ih.1.record accepted, ih.2⟩
  | field _ recorded ih =>
      obtain ⟨fields, accepted, rfl⟩ := recordField_eq_ok.mp recorded
      exact ⟨ih.1, ih.2.record accepted⟩

structure Spares (newer older : Level) : Prop where
  methods : newer.methods.Spares older.methods
  fields : newer.fields.Spares older.fields

end Level

/-- No level moves a reference to one that an older level has an entry for. -/
def IsFresh (lens : Lens) : Prop :=
  lens.levels.Pairwise fun older newer => newer.Spares older

section Levels

variable {lens older : Lens} {newest : Level}

theorem IsFresh.methods (fresh : lens.IsFresh) :
    (lens.levels.map Level.methods).Pairwise fun older newer => newer.Spares older :=
  List.pairwise_map.mpr (fresh.imp fun spares => spares.methods)

theorem IsFresh.fields (fresh : lens.IsFresh) :
    (lens.levels.map Level.fields).Pairwise fun older newer => newer.Spares older :=
  List.pairwise_map.mpr (fresh.imp fun spares => spares.fields)

theorem lookupMethod_publish (fresh : (older.publish newest).IsFresh) (method : MethodId) :
    (older.publish newest).lookupMethod method =
      (older.lookupMethod method).andThen newest.methods.consult := by
  have tables := fresh.methods
  rw [publish, List.map_append] at tables
  rw [lookupMethod, publish, List.map_append]
  exact Lookup.settle_append tables _

theorem lookupField_publish (fresh : (older.publish newest).IsFresh) (field : FieldId) :
    (older.publish newest).lookupField field =
      (older.lookupField field).andThen newest.fields.consult := by
  have tables := fresh.fields
  rw [publish, List.map_append] at tables
  rw [lookupField, publish, List.map_append]
  exact Lookup.settle_append tables _

@[simp] theorem lookupMethod_identity (method : MethodId) :
    identity.lookupMethod method = .start method :=
  Lookup.settle_eq_through List.Pairwise.nil _

@[simp] theorem lookupField_identity (field : FieldId) :
    identity.lookupField field = .start field :=
  Lookup.settle_eq_through List.Pairwise.nil _

theorem lookupMethod_single (level : Level) (method : MethodId) :
    (identity.publish level).lookupMethod method = level.methods.consult method := by
  have fresh : (identity.publish level).IsFresh := List.pairwise_singleton _ _
  rw [lookupMethod_publish fresh, lookupMethod_identity]
  simp [Lookup.andThen, Lookup.start]

end Levels

/-- In a chain of recorded levels without return a lookup consults each level once, the oldest first; so a
new level acts on what the lens before it has reached, and a reference that was reached stays. -/
theorem lookup_folds_fresh_levels {lens : Lens} (built : ∀ level ∈ lens.levels, level.Built)
    (fresh : lens.IsFresh) :
    (∀ method, lens.lookupMethod method =
        .through (lens.levels.map Level.methods) (.start method)) ∧
      (∀ field, lens.lookupField field =
        .through (lens.levels.map Level.fields) (.start field)) ∧
      (∀ (older : Lens) (newest : Level), lens = older.publish newest →
        (∀ method, lens.lookupMethod method =
          (older.lookupMethod method).andThen newest.methods.consult) ∧
        ∀ field, lens.lookupField field =
          (older.lookupField field).andThen newest.fields.consult) ∧
      (∀ method, lens.resolveMethod (lens.resolveMethod method) = lens.resolveMethod method) ∧
      ∀ field, lens.resolveField (lens.resolveField field) = lens.resolveField field := by
  refine ⟨fun method => ?_, fun field => ?_, ?_, fun method => ?_, fun field => ?_⟩
  · exact Lookup.settle_eq_through fresh.methods _
  · exact Lookup.settle_eq_through fresh.fields _
  · rintro older newest rfl
    exact ⟨lookupMethod_publish fresh, lookupField_publish fresh⟩
  · refine Lookup.target_settle_settle fresh.methods ?_ method
    intro table member
    obtain ⟨level, listed, rfl⟩ := List.mem_map.mp member
    exact (built level listed).isUnchained.1
  · refine Lookup.target_settle_settle fresh.fields ?_ field
    intro table member
    obtain ⟨level, listed, rfl⟩ := List.mem_map.mp member
    exact (built level listed).isUnchained.2

namespace Moves

/-- The references `LA;->a()V`, `LA;->b()V` and `LA;->c()V`. -/
def interner : Interner :=
  let (holder, interner) := Interner.standard.internType "LA;"
  let (proto, interner) := interner.internProto ⟨[], .void⟩
  let (first, interner) := interner.internSymbol "a"
  let (second, interner) := interner.internSymbol "b"
  let (third, interner) := interner.internSymbol "c"
  let (_, interner) := interner.internMethod ⟨holder, first, proto⟩
  let (_, interner) := interner.internMethod ⟨holder, second, proto⟩
  (interner.internMethod ⟨holder, third, proto⟩).2

def renamed : Level where
  name := "renamer"
  methods := [(⟨1⟩, ⟨⟨2⟩, .renamed⟩), (⟨2⟩, ⟨⟨2⟩, .publicized⟩)]

def retargeted : Level where
  name := "retargeter"
  methods := [(⟨2⟩, ⟨⟨3⟩, .retargeted⟩)]

def chain : Lens :=
  ⟨[renamed, retargeted]⟩

theorem built_renamed : renamed.Built := by
  have moved : Level.recordMethod { name := "renamer" } interner ⟨1⟩ ⟨2⟩ .renamed =
      .ok { name := "renamer", methods := [(⟨1⟩, ⟨⟨2⟩, .renamed⟩)] } := rfl
  have stayed : Level.recordMethod { name := "renamer", methods := [(⟨1⟩, ⟨⟨2⟩, .renamed⟩)] }
      interner ⟨2⟩ ⟨2⟩ .publicized = .ok renamed := rfl
  exact .method (.method (.start "renamer") moved) stayed

theorem built_retargeted : retargeted.Built := by
  have moved : Level.recordMethod { name := "retargeter" } interner ⟨2⟩ ⟨3⟩ .retargeted =
      .ok retargeted := rfl
  exact .method (.start "retargeter") moved

end Moves

open Moves in
/-- The entry of the second method in the older level does not count for the first one. -/
theorem lookup_folds_fresh_levels_moves :
    (∀ level ∈ chain.levels, level.Built) ∧ chain.IsFresh ∧
      chain.lookupMethod ⟨1⟩ = ⟨⟨3⟩, { renamed := true, retargeted := true }⟩ ∧
      chain.resolveMethod (chain.resolveMethod ⟨1⟩) = chain.resolveMethod ⟨1⟩ := by
  have built : ∀ level ∈ chain.levels, level.Built := by
    simp [chain, built_renamed, built_retargeted]
  have fresh : chain.IsFresh := by
    refine List.pairwise_pair.mpr ⟨?_, by nofun⟩
    intro source entry listed _
    cases List.mem_singleton.mp listed
    rfl
  obtain ⟨fold, -, -, resolved, -⟩ := lookup_folds_fresh_levels built fresh
  exact ⟨built, fresh, (fold ⟨1⟩).trans rfl, resolved ⟨1⟩⟩

end Shrinker.Lens
