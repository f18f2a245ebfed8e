import Mathlib.Data.List.Nodup
import Mathlib.Data.List.Perm.Subperm
import Shrinker.Proofs.Lens.Initializers

/-!
Lookups in arbitrary chains. Nothing is assumed of the levels here: they may move a reference back and
forth, and an entry may leave a reference where it is. Each pass over the levels but the last uses one of
them up, so there is at most one pass more than there are levels. The levels used are told apart by their
places, since two of them may hold the same entries.
-/
namespace Shrinker.Lens

open Reference

/-- A lookup under way, with the entries applied so far. Each stands with the place of its level. -/
structure Walk (α : Type) where
  lookup : Lookup α
  applied : List (Nat × Entry α)
  deriving DecidableEq, Repr

namespace Walk

variable {α : Type} [DecidableEq α]

def start (reference : α) : Walk α :=
  ⟨.start reference, []⟩

def places (walk : Walk α) : List Nat :=
  walk.applied.map Prod.fst

def visit (walk : Walk α) (level : Entries α × Nat) : Walk α :=
  if level.2 ∈ walk.places then
    walk
  else
    match level.1.lookup walk.lookup.target with
    | some entry => ⟨walk.lookup.follow entry, walk.applied ++ [(level.2, entry)]⟩
    | none => walk

def pass (tables : List (Entries α)) (walk : Walk α) : Walk α :=
  tables.zipIdx.foldl visit walk

end Walk

/-- Passes are made until one of them applies nothing; that last one counts as well. -/
inductive Passes {α : Type} [DecidableEq α] (tables : List (Entries α)) :
    Walk α → Nat → Walk α → Prop where
  | last {walk : Walk α} : walk.pass tables = walk → Passes tables walk 1 walk
  | next {walk final : Walk α} {count : Nat} :
      walk.pass tables ≠ walk → Passes tables (walk.pass tables) count final →
        Passes tables walk (count + 1) final

/-- The sweeps of a lookup, counted with the last one, which finds nothing to do. -/
inductive Sweeps {α : Type} [DecidableEq α] :
    List (Entries α) → Lookup α → Nat → Lookup α → Prop where
  | last {tables : List (Entries α)} {lookup : Lookup α} :
      ¬(Lookup.sweep tables lookup).2.length < tables.length →
        Sweeps tables lookup 1 (Lookup.sweep tables lookup).1
  | next {tables : List (Entries α)} {lookup reached : Lookup α} {count : Nat} :
      (Lookup.sweep tables lookup).2.length < tables.length →
        Sweeps (Lookup.sweep tables lookup).2 (Lookup.sweep tables lookup).1 count reached →
        Sweeps tables lookup (count + 1) reached

inductive Leads {α : Type} [DecidableEq α] (tables : List (Entries α)) (reference : α) :
    List (Nat × Entry α) → α → Prop where
  | start : Leads tables reference [] reference
  | step {steps : List (Nat × Entry α)} {reached : α} {place : Nat} {table : Entries α}
      {entry : Entry α} :
      Leads tables reference steps reached → tables[place]? = some table →
        table.lookup reached = some entry →
        Leads tables reference (steps ++ [(place, entry)]) entry.target

/-- What is found for a reference, after how many passes and by which entries. -/
structure Resolution {α : Type} [DecidableEq α] (tables : List (Entries α)) (reference : α)
    (found : Lookup α) (passes : Nat) (applied : List (Nat × Entry α)) : Prop where
  sweeps : Sweeps tables (.start reference) passes found
  ends : ∀ count final, Passes tables (.start reference) count final ↔
    count = passes ∧ final = ⟨found, applied⟩
  once : (applied.map Prod.fst).Nodup
  leads : Leads tables reference applied found.target
  changes : ∀ change, found.changes.contains change ↔ ∃ step ∈ applied, step.2.change = change
  settled : ∀ place table, tables[place]? = some table → place ∉ applied.map Prod.fst →
    table.lookup found.target = none

section Visits

variable {α : Type} [DecidableEq α] {walk : Walk α} {level : Entries α × Nat}

theorem Walk.visit_of_used (used : level.2 ∈ walk.places) : walk.visit level = walk :=
  if_pos used

theorem Walk.visit_of_unknown (unknown : level.1.lookup walk.lookup.target = none) :
    walk.visit level = walk := by
  unfold visit
  rw [unknown]
  exact ite_self _

theorem Walk.visit_of_known {entry : Entry α} (unused : level.2 ∉ walk.places)
    (known : level.1.lookup walk.lookup.target = some entry) :
    walk.visit level = ⟨walk.lookup.follow entry, walk.applied ++ [(level.2, entry)]⟩ := by
  unfold visit
  rw [if_neg unused, known]

theorem Walk.places_visit_of_known {entry : Entry α} (unused : level.2 ∉ walk.places)
    (known : level.1.lookup walk.lookup.target = some entry) :
    (walk.visit level).places = walk.places ++ [level.2] := by
  rw [visit_of_known unused known, places, List.map_append]
  rfl

theorem Walk.visit_cases (walk : Walk α) (level : Entries α × Nat) :
    (walk.visit level = walk ∧
        (level.2 ∉ walk.places → level.1.lookup walk.lookup.target = none)) ∨
      ∃ entry, level.2 ∉ walk.places ∧ level.1.lookup walk.lookup.target = some entry ∧
        walk.visit level = ⟨walk.lookup.follow entry, walk.applied ++ [(level.2, entry)]⟩ := by
  by_cases used : level.2 ∈ walk.places
  · exact .inl ⟨visit_of_used used, fun unused => absurd used unused⟩
  · cases known : level.1.lookup walk.lookup.target with
    | none => exact .inl ⟨visit_of_unknown known, fun _ => rfl⟩
    | some entry => exact .inr ⟨entry, used, rfl, visit_of_known used known⟩

variable {levels : List (Entries α × Nat)}

theorem Walk.applied_foldl_visit (levels : List (Entries α × Nat)) (walk : Walk α) :
    ∃ added, (levels.foldl visit walk).applied = walk.applied ++ added ∧
      (added.map Prod.fst).Sublist (levels.map Prod.snd) ∧
      (added = [] → levels.foldl visit walk = walk) := by
  induction levels generalizing walk with
  | nil => exact ⟨[], (List.append_nil _).symm, .slnil, fun _ => rfl⟩
  | cons level levels ih =>
      rw [List.foldl_cons]
      obtain ⟨added, grown, within, idle⟩ := ih (walk.visit level)
      rcases walk.visit_cases level with ⟨same, -⟩ | ⟨entry, -, -, followed⟩
      · rw [same] at grown idle ⊢
        exact ⟨added, grown, within.cons _, idle⟩
      · refine ⟨(level.2, entry) :: added, ?_, within.cons_cons _, by nofun⟩
        rw [grown, followed, List.append_assoc]
        rfl

theorem Walk.foldl_visit_eq_self_iff :
    levels.foldl visit walk = walk ↔
      ∀ level ∈ levels, level.2 ∉ walk.places → level.1.lookup walk.lookup.target = none := by
  induction levels with
  | nil => simp
  | cons level levels ih =>
      rw [List.foldl_cons, List.forall_mem_cons]
      rcases walk.visit_cases level with ⟨same, unknown⟩ | ⟨entry, unused, known, followed⟩
      · rw [same, ih]
        exact (and_iff_right unknown).symm
      · -- the entry applied here is never given up
        constructor
        · intro same
          obtain ⟨added, grown, -, -⟩ := applied_foldl_visit levels (walk.visit level)
          rw [same, followed] at grown
          have longer := congrArg List.length grown
          simp only [List.length_append, List.length_singleton] at longer
          omega
        · intro unknown
          rw [unknown.1 unused] at known
          cases known

end Visits

section Left

variable {α : Type} [DecidableEq α]

def Walk.left (walk : Walk α) (levels : List (Entries α × Nat)) : List (Entries α × Nat) :=
  levels.filter fun level => level.2 ∉ walk.places

theorem Walk.mem_places_foldl_visit (levels : List (Entries α × Nat)) (walk : Walk α) {place : Nat} :
    place ∈ walk.places → place ∈ (levels.foldl visit walk).places := by
  intro used
  obtain ⟨added, grown, -, -⟩ := applied_foldl_visit levels walk
  rw [places, grown, List.map_append]
  exact List.mem_append_left _ used

theorem Walk.notMem_places_foldl_visit {levels : List (Entries α × Nat)} {walk : Walk α} {place : Nat}
    (unused : place ∉ walk.places) (outside : place ∉ levels.map Prod.snd) :
    place ∉ (levels.foldl visit walk).places := by
  obtain ⟨added, grown, within, -⟩ := applied_foldl_visit levels walk
  rw [places, grown, List.map_append, List.mem_append, not_or]
  exact ⟨unused, fun later => outside (within.subset later)⟩

theorem Walk.sweep_left {levels : List (Entries α × Nat)} (distinct : (levels.map Prod.snd).Nodup)
    (walk : Walk α) :
    Lookup.sweep ((walk.left levels).map Prod.fst) walk.lookup =
      ((levels.foldl visit walk).lookup,
        ((levels.foldl visit walk).left levels).map Prod.fst) := by
  induction levels generalizing walk with
  | nil => rfl
  | cons level levels ih =>
      rw [List.map_cons, List.nodup_cons] at distinct
      obtain ⟨outside, distinct⟩ := distinct
      rw [List.foldl_cons]
      by_cases used : level.2 ∈ walk.places
      · have still := mem_places_foldl_visit levels walk used
        rw [visit_of_used used]
        simp only [left, List.filter_cons, used, still, not_true_eq_false, decide_false,
          Bool.false_eq_true, if_false]
        exact ih distinct walk
      · have first : walk.left (level :: levels) = level :: walk.left levels := by
          simp [left, used]
        rw [first, List.map_cons, Lookup.sweep]
        cases known : level.1.lookup walk.lookup.target with
        | none =>
            have still := notMem_places_foldl_visit used outside
            have after : (levels.foldl visit walk).left (level :: levels) =
                level :: (levels.foldl visit walk).left levels := by
              simp [left, still]
            rw [visit_of_unknown known, after]
            dsimp only
            rw [ih distinct walk]
            rfl
        | some entry =>
            -- the level applied is not one of the others, so that these are left as before
            have others : (walk.visit level).left levels = walk.left levels := by
              apply List.filter_congr
              intro other member
              have apart : other.2 ≠ level.2 := by
                intro same
                exact outside (same ▸ List.mem_map_of_mem member)
              simp [places_visit_of_known used known, apart]
            have gone : level.2 ∈ (levels.foldl visit (walk.visit level)).places := by
              apply mem_places_foldl_visit
              simp [places_visit_of_known used known]
            have after : (levels.foldl visit (walk.visit level)).left (level :: levels) =
                (levels.foldl visit (walk.visit level)).left levels := by
              simp [left, gone]
            rw [after, ← ih distinct, others, visit_of_known used known]

theorem Lookup.left_shorter_iff {tables : List (Entries α)} {lookup : Lookup α} :
    (sweep tables lookup).2.length < tables.length ↔
      ∃ table ∈ tables, table.lookup lookup.target ≠ none := by
  constructor
  · intro shorter
    by_contra idle
    push Not at idle
    rw [sweep_of_unknown idle] at shorter
    exact Nat.lt_irrefl _ shorter
  · intro known
    induction tables with
    | nil =>
        obtain ⟨table, member, -⟩ := known
        cases member
    | cons first tables ih =>
        rw [sweep]
        cases here : first.lookup lookup.target with
        | some entry => exact Nat.lt_succ_of_le (left_sublist tables _).length_le
        | none =>
            obtain ⟨table, member, knows⟩ := known
            rcases List.mem_cons.mp member with rfl | later
            · exact absurd here knows
            · exact Nat.succ_lt_succ (ih ⟨table, later, knows⟩)

end Left

section Runs

variable {α : Type} [DecidableEq α] {tables : List (Entries α)} {walk final : Walk α} {count : Nat}

theorem Sweeps.settle_eq {lookup reached : Lookup α} (sweeps : Sweeps tables lookup count reached) :
    Lookup.settle tables lookup = reached := by
  induction sweeps with
  | last idle => rw [Lookup.settle, if_neg idle]
  | next progressed _ ih => rw [Lookup.settle, if_pos progressed, ih]

theorem Walk.pass_eq_self_iff :
    walk.pass tables = walk ↔
      ∀ table ∈ (walk.left tables.zipIdx).map Prod.fst, table.lookup walk.lookup.target = none := by
  rw [pass, foldl_visit_eq_self_iff, List.forall_mem_map]
  simp only [left, List.mem_filter, decide_eq_true_eq, and_imp]

theorem Walk.sweep_eq_pass (tables : List (Entries α)) (walk : Walk α) :
    Lookup.sweep ((walk.left tables.zipIdx).map Prod.fst) walk.lookup =
      ((walk.pass tables).lookup, ((walk.pass tables).left tables.zipIdx).map Prod.fst) := by
  apply sweep_left
  rw [List.zipIdx_map_snd]
  exact List.nodup_range'

theorem Passes.sweeps (passes : Passes tables walk count final) :
    Sweeps ((walk.left tables.zipIdx).map Prod.fst) walk.lookup count final.lookup := by
  induction passes with
  | last idle =>
      rename_i walk
      have nothing := Lookup.sweep_of_unknown (Walk.pass_eq_self_iff.mp idle)
      have last : Sweeps ((walk.left tables.zipIdx).map Prod.fst) walk.lookup 1
          (Lookup.sweep ((walk.left tables.zipIdx).map Prod.fst) walk.lookup).1 := by
        apply Sweeps.last
        rw [nothing]
        exact Nat.lt_irrefl _
      rwa [nothing] at last
  | next progressed _ ih =>
      apply Sweeps.next
      · rw [Lookup.left_shorter_iff]
        rw [ne_eq, Walk.pass_eq_self_iff] at progressed
        push Not at progressed
        exact progressed
      · rw [Walk.sweep_eq_pass]
        exact ih

theorem Passes.unique {otherCount : Nat} {other : Walk α} (passes : Passes tables walk count final)
    (others : Passes tables walk otherCount other) : otherCount = count ∧ other = final := by
  induction passes generalizing otherCount with
  | last idle =>
      cases others with
      | last _ => exact ⟨rfl, rfl⟩
      | next progressed _ => exact absurd idle progressed
  | next progressed _ ih =>
      cases others with
      | last idle => exact absurd idle progressed
      | next _ later =>
          obtain ⟨rfl, rfl⟩ := ih later
          exact ⟨rfl, rfl⟩

/-- The entries applied have led where the lookup stands, with the changes it has collected. -/
structure Walk.IsTrace (tables : List (Entries α)) (reference : α) (walk : Walk α) : Prop where
  once : walk.places.Nodup
  leads : Leads tables reference walk.applied walk.lookup.target
  changes : ∀ change, walk.lookup.changes.contains change ↔
    ∃ step ∈ walk.applied, step.2.change = change

variable {reference : α}

theorem Walk.isTrace_start (tables : List (Entries α)) (reference : α) :
    (Walk.start reference).IsTrace tables reference where
  once := .nil
  leads := .start
  changes change := by
    cases change <;> simp [Walk.start, Lookup.start, ChangeSet.empty, ChangeSet.contains]

theorem ChangeSet.contains_insert (changes : ChangeSet) (added change : Change) :
    (changes.insert added).contains change ↔ changes.contains change ∨ added = change := by
  cases added <;> cases change <;> simp [insert, contains]

theorem Walk.IsTrace.visit (trace : walk.IsTrace tables reference) {level : Entries α × Nat}
    (listed : tables[level.2]? = some level.1) : (walk.visit level).IsTrace tables reference := by
  rcases walk.visit_cases level with ⟨same, -⟩ | ⟨entry, unused, known, followed⟩
  · rw [same]
    exact trace
  · rw [followed]
    refine ⟨?_, trace.leads.step listed known, ?_⟩
    · rw [← followed, places_visit_of_known unused known]
      rw [← List.concat_eq_append]
      exact trace.once.concat unused
    · intro change
      simp only [Lookup.follow, ChangeSet.contains_insert, trace.changes, List.mem_append,
        List.mem_singleton, or_and_right, exists_or, exists_eq_left]

theorem Walk.IsTrace.pass (trace : walk.IsTrace tables reference) :
    (walk.pass tables).IsTrace tables reference := by
  apply List.foldlRecOn _ _ trace
  intro walk trace level member
  exact trace.visit (List.mem_zipIdx_iff_getElem?.mp member)

theorem Walk.IsTrace.passes (trace : walk.IsTrace tables reference)
    (passes : Passes tables walk count final) : final.IsTrace tables reference := by
  induction passes with
  | last _ => exact trace
  | next _ _ ih => exact ih trace.pass

theorem Leads.place_lt {steps : List (Nat × Entry α)} {reached : α}
    (leads : Leads tables reference steps reached) : ∀ step ∈ steps, step.1 < tables.length := by
  induction leads with
  | start => nofun
  | step _ listed _ ih =>
      intro step member
      rcases List.mem_append.mp member with old | new
      · exact ih step old
      · cases List.mem_singleton.mp new
        exact (List.getElem?_eq_some_iff.mp listed).1

theorem Walk.IsTrace.length_le (trace : walk.IsTrace tables reference) :
    walk.applied.length ≤ tables.length := by
  have within : walk.places ⊆ List.range tables.length := by
    intro place member
    obtain ⟨step, listed, rfl⟩ := List.mem_map.mp member
    exact List.mem_range.mpr (trace.leads.place_lt step listed)
  have bounded := (trace.once.subperm within).length_le
  rwa [places, List.length_map, List.length_range] at bounded

theorem Walk.length_lt_of_pass (progressed : walk.pass tables ≠ walk) :
    walk.applied.length < (walk.pass tables).applied.length := by
  obtain ⟨added, grown, -, idle⟩ := applied_foldl_visit tables.zipIdx walk
  cases added with
  | nil => exact absurd (idle rfl) progressed
  | cons step added =>
      rw [pass, grown, List.length_append, List.length_cons]
      omega

/-- Each pass but the last applies a level, and there are only so many. -/
theorem Walk.IsTrace.exists_passes (trace : walk.IsTrace tables reference) {spare : Nat}
    (enough : tables.length ≤ walk.applied.length + spare) :
    ∃ count final, count ≤ spare + 1 ∧ Passes tables walk count final := by
  induction spare generalizing walk with
  | zero =>
      refine ⟨1, walk, Nat.le_refl _, .last ?_⟩
      by_contra progressed
      have longer := length_lt_of_pass progressed
      have bounded := trace.pass.length_le
      omega
  | succ spare ih =>
      by_cases idle : walk.pass tables = walk
      · exact ⟨1, walk, by omega, .last idle⟩
      · have longer := length_lt_of_pass idle
        obtain ⟨count, final, bounded, passes⟩ := ih trace.pass (by omega)
        exact ⟨count + 1, final, by omega, .next idle passes⟩

theorem Passes.settled (passes : Passes tables walk count final) : final.pass tables = final := by
  induction passes with
  | last idle => exact idle
  | next _ _ ih => exact ih

theorem exists_resolution (tables : List (Entries α)) (reference : α) :
    ∃ passes ≤ tables.length + 1, ∃ applied,
      Resolution tables reference (Lookup.settle tables (.start reference)) passes applied := by
  have trace := Walk.isTrace_start tables reference
  obtain ⟨count, final, bounded, passes⟩ := trace.exists_passes (Nat.le_add_left _ _)
  have all : (Walk.start reference).left tables.zipIdx = tables.zipIdx := by
    simp [Walk.left, Walk.places, Walk.start]
  have sweeps := passes.sweeps
  rw [all, List.zipIdx_map_fst] at sweeps
  rw [show Lookup.settle tables (.start reference) = final.lookup from sweeps.settle_eq]
  have finished := trace.passes passes
  refine ⟨count, bounded, final.applied, sweeps, ?_, finished.once, finished.leads,
    finished.changes, ?_⟩
  · intro otherCount other
    constructor
    · exact passes.unique
    · intro same
      rw [same.1, same.2]
      exact passes
  · intro place table listed unused
    exact Walk.foldl_visit_eq_self_iff.mp passes.settled (table, place)
      (List.mem_zipIdx_iff_getElem?.mpr listed) unused

end Runs

/-- Whatever the entries of its levels, a lens finds what has become of a reference after at most one pass
more than it has levels. Entries of different levels lead there one by one, their changes are those
reported, and no other level has an entry for what is found. -/
theorem lookup_settles (lens : Lens) :
    (∀ method, ∃ passes ≤ lens.depth + 1, ∃ applied,
        Resolution (lens.levels.map Level.methods) method (lens.lookupMethod method) passes
          applied) ∧
      ∀ field, ∃ passes ≤ lens.depth + 1, ∃ applied,
        Resolution (lens.levels.map Level.fields) field (lens.lookupField field) passes applied := by
  constructor
  · intro method
    rw [depth, ← List.length_map]
    exact exists_resolution _ method
  · intro field
    rw [depth, ← List.length_map]
    exact exists_resolution _ field

/-- Two levels that swap a pair of references are both used, and all three passes are needed for the
reference that the newer one knows. -/
example :
    Passes [[((1 : Nat), ⟨2, .renamed⟩)], [(2, ⟨1, .renamed⟩)]] (.start 2) 3
      ⟨⟨2, { renamed := true }⟩, [(1, ⟨1, .renamed⟩), (0, ⟨2, .renamed⟩)]⟩ :=
  .next (by decide) (.next (by decide) (.last (by decide)))

end Shrinker.Lens
