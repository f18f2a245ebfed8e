import Shrinker.Proofs.Publicizer.Dispatch
import Shrinker.Proofs.Publicizer.Workers

namespace Shrinker.Publicizer

open Reference Program Collection Success

/-- States that differ in the order of their pools at most. -/
structure State.Alike (left right : State) : Prop where
  pool : ∀ signature, signature ∈ left.pool.entries ↔ signature ∈ right.pool.entries
  level : left.level = right.level
  stats : left.stats = right.stats

section Alike

variable {publicizer : Publicizer} {interner : Interner} {holder : ClassDef}
  {left right next : State}

theorem verdict_congr {left right : SignaturePool} {definition : MethodDef}
    (same : ∀ signature, signature ∈ left.entries ↔ signature ∈ right.entries) :
    publicizer.verdict interner holder left definition =
      publicizer.verdict interner holder right definition := by
  simp only [verdict, same]

theorem State.Alike.applyVerdict {definition changed : MethodDef} {verdict : Verdict}
    (alike : left.Alike right)
    (done : applyVerdict interner definition left verdict = .ok (changed, next)) :
    ∃ other, applyVerdict interner definition right verdict = .ok (changed, other) ∧
      next.Alike other := by
  obtain ⟨leftPool, level, stats⟩ := left
  obtain ⟨rightPool, rightLevel, rightStats⟩ := right
  obtain ⟨pool, rfl, rfl⟩ := alike
  cases verdict with
  | publicize =>
      simp only [Publicizer.applyVerdict] at done ⊢
      split at done
      · cases done
      · cases done
        refine ⟨_, rfl, ?_, rfl, rfl⟩
        intro signature
        rw [Table.mem_entries_insert, Table.mem_entries_insert, pool]
  | leave | promote | skipPinned | skipCollision =>
      cases done
      exact ⟨_, rfl, pool, rfl, rfl⟩

theorem State.Alike.publicizeMethods {definitions changed : List MethodDef}
    {opened : List MethodId} (alike : left.Alike right)
    (done : publicizer.publicizeMethods interner holder definitions left =
      .ok (changed, opened, next)) :
    ∃ other, publicizer.publicizeMethods interner holder definitions right =
        .ok (changed, opened, other) ∧ next.Alike other := by
  induction definitions generalizing left right changed opened with
  | nil =>
      cases done
      exact ⟨right, rfl, alike⟩
  | cons definition definitions ih =>
      obtain ⟨first, middle, rest, openedRest, applied, restDone, rfl, rfl⟩ :=
        publicizeMethods_cons_eq_ok.mp done
      obtain ⟨otherMiddle, otherApplied, middleAlike⟩ := alike.applyVerdict applied
      obtain ⟨other, otherDone, nextAlike⟩ := ih middleAlike restDone
      rw [verdict_congr alike.pool] at otherApplied ⊢
      exact ⟨other, publicizeMethods_cons_eq_ok.mpr
        ⟨first, otherMiddle, rest, openedRest, otherApplied, otherDone, rfl, rfl⟩, nextAlike⟩

theorem State.Alike.publicizeClass {changed : ClassDef} (alike : left.Alike right)
    (done : publicizer.publicizeClass interner holder left = .ok (changed, next)) :
    ∃ other, publicizer.publicizeClass interner holder right = .ok (changed, other) ∧
      next.Alike other := by
  unfold Publicizer.publicizeClass at done ⊢
  obtain ⟨⟨direct, openedDirect, middle⟩, directDone, continued⟩ := bind_eq_ok.mp done
  obtain ⟨⟨virtual, openedVirtual, last⟩, virtualDone, assembled⟩ := bind_eq_ok.mp continued
  obtain ⟨otherMiddle, otherDirect, middleAlike⟩ := alike.publicizeMethods directDone
  obtain ⟨otherLast, otherVirtual, lastAlike⟩ := middleAlike.publicizeMethods virtualDone
  cases assembled
  simp only [otherDirect, otherVirtual, ok_bind]
  refine ⟨_, rfl, lastAlike.pool, lastAlike.level, ?_⟩
  simp only [lastAlike.stats]

theorem State.Alike.publicizeType {type : TypeId} {program changed : Program}
    (alike : left.Alike right)
    (done : publicizer.publicizeType type program left = .ok (changed, next)) :
    ∃ other, publicizer.publicizeType type program right = .ok (changed, other) ∧
      next.Alike other := by
  unfold Publicizer.publicizeType at done ⊢
  split at done
  · cases done
    exact ⟨right, rfl, alike⟩
  · split at done
    · obtain ⟨⟨definition, last⟩, classDone, assembled⟩ := bind_eq_ok.mp done
      obtain ⟨other, otherDone, lastAlike⟩ := alike.publicizeClass classDone
      cases assembled
      rename_i working
      rw [if_pos working, otherDone, ok_bind]
      exact ⟨other, rfl, lastAlike⟩
    · cases done
      rename_i idle
      rw [if_neg idle]
      exact ⟨right, rfl, alike⟩

theorem State.Alike.publicizeTypes {types : List TypeId} {program changed : Program}
    (alike : left.Alike right)
    (done : publicizer.publicizeTypes types program left = .ok (changed, next)) :
    ∃ other, publicizer.publicizeTypes types program right = .ok (changed, other) ∧
      next.Alike other := by
  induction types generalizing program left right with
  | nil =>
      cases done
      exact ⟨right, rfl, alike⟩
  | cons type types ih =>
      obtain ⟨⟨middle, visited⟩, first, rest⟩ := bind_eq_ok.mp done
      obtain ⟨otherVisited, otherFirst, visitedAlike⟩ := alike.publicizeType first
      obtain ⟨other, otherRest, nextAlike⟩ := ih visitedAlike rest
      exact ⟨other, bind_eq_ok.mpr ⟨_, otherFirst, otherRest⟩, nextAlike⟩

end Alike

def runWith (publicizer : Publicizer) (program : Program) (previous : Lens) (pool : SignaturePool)
    (scanned : Nat) : Except Error Outcome := do
  checkHolders program
  let start : State :=
    { pool
      level := { name := "publicizer" }
      stats := { scannedMethods := scanned, collectedSignatures := pool.size } }
  let (changed, finish) ←
    publicizer.publicizeTypes (visitOrder program.hierarchy) program start
  return ⟨changed, previous.publish finish.level, finish.stats⟩

/-- The number of workers for some threads: not more than there are classes, and one at least. -/
def crewSize (threads classes : Nat) : Nat :=
  max (min threads classes) 1

def runInParallel (publicizer : Publicizer) (program : Program) (previous : Lens) (threads : Nat)
    (schedule : List Nat) : Except Error Outcome :=
  let workers := crewSize threads (publicizer.liveClasses program).length
  let crew := publicizer.collect program workers schedule
  publicizer.runWith program previous crew.shared.pool crew.shared.scanned

section Pools

variable {publicizer : Publicizer} {program : Program}

theorem run_eq_runWith (previous : Lens) :
    publicizer.run program previous =
      publicizer.runWith program previous (publicizer.collectSignatures program)
        (publicizer.scannedMethods program) :=
  rfl

theorem size_congr {left right : SignaturePool}
    (same : ∀ signature, signature ∈ left.entries ↔ signature ∈ right.entries) :
    left.size = right.size :=
  ((List.perm_ext_iff_of_nodup left.nodup right.nodup).mpr same).length_eq

theorem runWith_congr (previous : Lens) (scanned : Nat) {left right : SignaturePool}
    (same : ∀ signature, signature ∈ left.entries ↔ signature ∈ right.entries) :
    publicizer.runWith program previous left scanned =
      publicizer.runWith program previous right scanned := by
  unfold runWith
  cases checkHolders program with
  | error cause => rfl
  | ok _ =>
      rw [ok_bind, ok_bind]
      -- the walk cannot fail, so that it is enough to follow it where it succeeds
      obtain ⟨⟨changed, finish⟩, done⟩ := publicizer.exists_publicizeTypes_of_unwritten program
        (visitOrder program.hierarchy) left
        { scannedMethods := scanned, collectedSignatures := left.size }
      have alike : State.Alike
          ⟨left, { name := "publicizer" },
            { scannedMethods := scanned, collectedSignatures := left.size }⟩
          ⟨right, { name := "publicizer" },
            { scannedMethods := scanned, collectedSignatures := right.size }⟩ :=
        ⟨same, rfl, by rw [size_congr same]⟩
      obtain ⟨other, otherDone, finishAlike⟩ := alike.publicizeTypes done
      simp only [done, otherDone, ok_bind, finishAlike.level, finishAlike.stats]

theorem runWith_collect {workers : Nat} {schedule : List Nat} (manned : 0 < workers)
    (finished : (publicizer.collect program workers schedule).IsFinished) (previous : Lens) :
    publicizer.runWith program previous
        (publicizer.collect program workers schedule).shared.pool
        (publicizer.collect program workers schedule).shared.scanned =
      publicizer.run program previous := by
  rw [scanned_collect manned finished, run_eq_runWith]
  exact runWith_congr previous _ (mem_pool_collect manned finished)

end Pools

/-- Any schedule can be carried to its end. When all workers have finished, however many they are and in
whatever order they had their turns, every live class has been scanned once, the pool has the signatures
in use and all methods are counted. So the outcome of the pass depends neither on the number of threads nor
on the schedule. -/
theorem collection_independent_of_schedule (publicizer : Publicizer) (program : Program)
    (previous : Lens) :
    (∀ workers schedule,
      ∃ rest, (publicizer.collect program workers (schedule ++ rest)).IsFinished) ∧
    (∀ workers schedule, 0 < workers →
      (publicizer.collect program workers schedule).IsFinished →
      publicizer.HasCollected program (publicizer.collect program workers schedule)) ∧
    (∀ threads schedule,
      (publicizer.collect program (crewSize threads (publicizer.liveClasses program).length)
        schedule).IsFinished →
      publicizer.runInParallel program previous threads schedule =
        publicizer.run program previous) := by
  refine ⟨exists_isFinished_collect publicizer program, ?_, ?_⟩
  · intro workers schedule manned finished
    exact hasCollected_collect manned finished
  · intro threads schedule finished
    exact runWith_collect (Nat.le_max_right _ _) finished previous

namespace Rivals

def openUpper : ClassDef :=
  { type := ⟨5⟩, origin := .program, super? := some .object, virtualMethods := [sharedRun] }

/-- Each worker takes a class before the other has scanned its own, and the worker with the private method
is the first to finish. -/
def turns : List Nat :=
  [0, 1, 1, 0, 1, 0, 1, 1, 0, 0, 0]

end Rivals

open Rivals in
theorem collection_independent_of_schedule_rivals :
    (publicizer.collect (programOf openUpper lower) 2 turns).IsFinished ∧
      publicizer.HasCollected (programOf openUpper lower)
        (publicizer.collect (programOf openUpper lower) 2 turns) ∧
      publicizer.runInParallel (programOf openUpper lower) .identity 8 turns =
        publicizer.run (programOf openUpper lower) .identity := by
  have finished : (publicizer.collect (programOf openUpper lower) 2 turns).IsFinished := by
    decide
  obtain ⟨-, collected, same⟩ :=
    collection_independent_of_schedule publicizer (programOf openUpper lower) .identity
  exact ⟨finished, collected 2 turns (by decide) finished, same 8 turns finished⟩

end Shrinker.Publicizer
