import Mathlib.Algebra.Order.BigOperators.Group.List
import Mathlib.Algebra.Order.Ring.Nat
import Mathlib.Data.List.Perm.Basic
import Shrinker.Proofs.Publicizer.Collision

/-!
Signatures collected by several workers at once. A worker takes the next class by a counter that all share,
scans its methods, puts signatures in use into a pool that all share, and in the end adds the number of
methods it has scanned to a common sum. In whatever order the workers have their turns, every class is
scanned once, and pool and sum come out as if one worker had done it all.
-/
namespace Shrinker.Publicizer

open Reference Program

/-- What a worker is about to do, with the number of methods that it has scanned. -/
inductive Worker where
  | ready (scanned : Nat)
  | scanning (index : Nat) (rest : List MethodDef) (scanned : Nat)
  | inserting (signature : Signature) (index : Nat) (rest : List MethodDef) (scanned : Nat)
  | reporting (scanned : Nat)
  | finished
  deriving DecidableEq, Repr

/-- What the workers share: counter, pool and sum, and a record of the classes taken and of the methods
scanned, each with the number of its class. -/
structure Shared where
  next : Nat := 0
  pool : SignaturePool := .empty
  scanned : Nat := 0
  taken : List Nat := []
  seen : List (Nat × MethodDef) := []

/-- One step of a worker. Each of them touches what is shared at most once. -/
def advance (publicizer : Publicizer) (interner : Interner) (classes : List ClassDef)
    (shared : Shared) : Worker → Worker × Shared
  | .ready scanned =>
      match classes[shared.next]? with
      | some holder =>
          (.scanning shared.next holder.methods scanned,
            { shared with next := shared.next + 1, taken := shared.taken ++ [shared.next] })
      | none => (.reporting scanned, { shared with next := shared.next + 1 })
  | .scanning _ [] scanned => (.ready scanned, shared)
  | .scanning index (definition :: rest) scanned =>
      let noted := { shared with seen := shared.seen ++ [(index, definition)] }
      if publicizer.usesSignature definition then
        (.inserting (interner.signature definition.method) index rest (scanned + 1), noted)
      else
        (.scanning index rest (scanned + 1), noted)
  | .inserting signature index rest scanned =>
      (.scanning index rest scanned, { shared with pool := shared.pool.insert signature })
  | .reporting scanned => (.finished, { shared with scanned := shared.scanned + scanned })
  | .finished => (.finished, shared)

structure Crew where
  workers : List Worker
  shared : Shared

namespace Crew

def start (workers : Nat) : Crew :=
  ⟨List.replicate workers (.ready 0), {}⟩

/-- Gives the worker with a number its turn. Nothing happens if there is none or if it has finished. -/
def step (publicizer : Publicizer) (interner : Interner) (classes : List ClassDef) (crew : Crew)
    (turn : Nat) : Crew :=
  match crew.workers[turn]? with
  | none => crew
  | some worker =>
      let (worker, shared) := publicizer.advance interner classes crew.shared worker
      ⟨crew.workers.set turn worker, shared⟩

def run (publicizer : Publicizer) (interner : Interner) (classes : List ClassDef) (crew : Crew)
    (schedule : List Nat) : Crew :=
  schedule.foldl (step publicizer interner classes) crew

def IsFinished (crew : Crew) : Prop :=
  ∀ worker ∈ crew.workers, worker = .finished

instance (crew : Crew) : Decidable crew.IsFinished :=
  inferInstanceAs (Decidable (∀ worker ∈ crew.workers, worker = .finished))

end Crew

section Steps

variable {publicizer : Publicizer} {interner : Interner} {classes : List ClassDef} {crew : Crew}

theorem Crew.step_eq_or (turn : Nat) :
    crew.step publicizer interner classes turn = crew ∨
      ∃ worker others, crew.workers.Perm (worker :: others) ∧
        (crew.step publicizer interner classes turn).workers.Perm
          ((publicizer.advance interner classes crew.shared worker).1 :: others) ∧
        (crew.step publicizer interner classes turn).shared =
          (publicizer.advance interner classes crew.shared worker).2 := by
  unfold Crew.step
  split
  · exact Or.inl rfl
  · rename_i worker found
    obtain ⟨bound, rfl⟩ := List.getElem?_eq_some_iff.mp found
    exact Or.inr ⟨_, _, (List.getElem_cons_eraseIdx_perm bound).symm,
      List.set_perm_cons_eraseIdx bound _, rfl⟩

end Steps

def label (index : Nat) (definitions : List MethodDef) : List (Nat × MethodDef) :=
  definitions.map fun definition => (index, definition)

def labelled (classes : List ClassDef) : List (Nat × MethodDef) :=
  classes.zipIdx.flatMap fun numbered => label numbered.2 numbered.1.methods

def usedSignatures (publicizer : Publicizer) (interner : Interner) (seen : List (Nat × MethodDef)) :
    List Signature :=
  ((seen.map (·.2)).filter publicizer.usesSignature).map fun definition =>
    interner.signature definition.method

namespace Worker

def pending : Worker → List (Nat × MethodDef)
  | .scanning index rest _ | .inserting _ index rest _ => label index rest
  | _ => []

def held : Worker → List Signature
  | .inserting signature .. => [signature]
  | _ => []

def unreported : Worker → Nat
  | .ready scanned | .scanning _ _ scanned | .inserting _ _ _ scanned | .reporting scanned => scanned
  | .finished => 0

def isDone : Worker → Bool
  | .reporting _ | .finished => true
  | _ => false

end Worker

/-- The classes taken are the first ones. Their methods have been scanned or wait with one worker, as do
the signatures in use of the methods that have been scanned, and the number of these methods. -/
structure IsSound (publicizer : Publicizer) (interner : Interner) (classes : List ClassDef)
    (workers : List Worker) (shared : Shared) : Prop where
  taken : shared.taken = List.range (min shared.next classes.length)
  seen : (shared.seen ++ workers.flatMap Worker.pending).Perm (labelled (classes.take shared.next))
  pool : ∀ signature, signature ∈ shared.pool.entries ∨ signature ∈ workers.flatMap Worker.held ↔
    signature ∈ publicizer.usedSignatures interner shared.seen
  scanned : shared.scanned + (workers.map Worker.unreported).sum = shared.seen.length
  ended : workers.any Worker.isDone → classes.length ≤ shared.next

section Invariant

variable {publicizer : Publicizer} {interner : Interner} {classes : List ClassDef}
  {workers others : List Worker} {worker : Worker} {shared : Shared}

theorem labelled_take_succ {holder : ClassDef} {next : Nat} (found : classes[next]? = some holder) :
    labelled (classes.take (next + 1)) =
      labelled (classes.take next) ++ label next holder.methods := by
  have bound : next < classes.length := (List.getElem?_eq_some_iff.mp found).1
  have width : (classes.take next).length = next := by
    simp only [List.length_take, Nat.min_eq_left (Nat.le_of_lt bound)]
  simp [labelled, List.take_add_one, found, List.zipIdx_append, width]

theorem usedSignatures_append (seen : List (Nat × MethodDef)) (index : Nat)
    (definition : MethodDef) :
    publicizer.usedSignatures interner (seen ++ [(index, definition)]) =
      publicizer.usedSignatures interner seen ++
        if publicizer.usesSignature definition then [interner.signature definition.method]
        else [] := by
  unfold usedSignatures
  rw [List.map_append, List.filter_append, List.map_append]
  congr 1
  split <;> simp_all

theorem IsSound.perm (sound : publicizer.IsSound interner classes workers shared)
    (same : workers.Perm others) : publicizer.IsSound interner classes others shared where
  taken := sound.taken
  seen := ((same.flatMap_right _).append_left _).symm.trans sound.seen
  pool signature := by
    rw [← (same.flatMap_right Worker.held).mem_iff]
    exact sound.pool signature
  scanned := by
    rw [← (same.map Worker.unreported).sum_eq]
    exact sound.scanned
  ended done := sound.ended (same.any_eq.trans done)

theorem isSound_start (count : Nat) :
    publicizer.IsSound interner classes (Crew.start count).workers (Crew.start count).shared where
  taken := by simp [Crew.start]
  seen := by simp [Crew.start, labelled, Worker.pending]
  pool signature := by
    simp [Crew.start, Worker.held, usedSignatures, Table.empty]
  scanned := by simp [Crew.start, Worker.unreported]
  ended done := by simp [Crew.start, Worker.isDone] at done

theorem IsSound.ready {scanned : Nat}
    (sound : publicizer.IsSound interner classes (.ready scanned :: others) shared) :
    publicizer.IsSound interner classes
      ((publicizer.advance interner classes shared (.ready scanned)).1 :: others)
      (publicizer.advance interner classes shared (.ready scanned)).2 := by
  obtain ⟨taken, seen, pool, count, ended⟩ := sound
  simp only [Publicizer.advance]
  split
  · rename_i holder found
    have bound : shared.next < classes.length := (List.getElem?_eq_some_iff.mp found).1
    -- the methods of the class that was taken wait with the worker
    refine ⟨?_, ?_, pool, count, fun done => Nat.le_succ_of_le (ended done)⟩
    · rw [taken, Nat.min_eq_left (Nat.le_of_lt bound), Nat.min_eq_left bound, List.range_succ]
    · rw [labelled_take_succ found]
      refine List.Perm.trans ?_ (seen.append_right _)
      rw [List.append_assoc]
      exact List.Perm.append_left _ List.perm_append_comm
  · rename_i missing
    have past : classes.length ≤ shared.next := List.getElem?_eq_none_iff.mp missing
    refine ⟨?_, ?_, pool, count, fun _ => Nat.le_succ_of_le past⟩
    · rw [taken, Nat.min_eq_right past, Nat.min_eq_right (Nat.le_succ_of_le past)]
    · rw [List.take_of_length_le (Nat.le_succ_of_le past)]
      rwa [List.take_of_length_le past] at seen

theorem IsSound.scanning {index scanned : Nat} {definition : MethodDef} {rest : List MethodDef}
    (sound : publicizer.IsSound interner classes
      (.scanning index (definition :: rest) scanned :: others) shared) :
    publicizer.IsSound interner classes
      ((publicizer.advance interner classes shared
        (.scanning index (definition :: rest) scanned)).1 :: others)
      (publicizer.advance interner classes shared
        (.scanning index (definition :: rest) scanned)).2 := by
  obtain ⟨taken, seen, pool, count, ended⟩ := sound
  have noted : ((shared.seen ++ [(index, definition)]) ++
      (label index rest ++ others.flatMap Worker.pending)).Perm
        (labelled (classes.take shared.next)) := by
    rw [List.append_assoc]
    exact seen
  have counted : shared.scanned + (scanned + 1 + (others.map Worker.unreported).sum) =
      (shared.seen ++ [(index, definition)]).length := by
    simp only [List.map_cons, List.sum_cons, Worker.unreported] at count
    rw [List.length_append, List.length_singleton, ← count]
    omega
  simp only [Publicizer.advance]
  split
  · rename_i uses
    refine ⟨taken, noted, ?_, counted, ended⟩
    intro signature
    rw [usedSignatures_append, if_pos uses, List.flatMap_cons, List.mem_append, List.mem_append,
      ← pool signature]
    exact or_left_comm.trans or_comm
  · rename_i unused
    refine ⟨taken, noted, ?_, counted, ended⟩
    rw [usedSignatures_append, if_neg unused, List.append_nil]
    exact pool

theorem IsSound.inserting {signature : Signature} {index scanned : Nat} {rest : List MethodDef}
    (sound : publicizer.IsSound interner classes
      (.inserting signature index rest scanned :: others) shared) :
    publicizer.IsSound interner classes (.scanning index rest scanned :: others)
      { shared with pool := shared.pool.insert signature } := by
  obtain ⟨taken, seen, pool, count, ended⟩ := sound
  refine ⟨taken, seen, ?_, count, ended⟩
  intro other
  rw [← pool other, Table.mem_entries_insert, List.flatMap_cons, List.flatMap_cons, List.mem_append,
    List.mem_append, or_assoc]
  simp [Worker.held]

theorem IsSound.reporting {scanned : Nat}
    (sound : publicizer.IsSound interner classes (.reporting scanned :: others) shared) :
    publicizer.IsSound interner classes (.finished :: others)
      { shared with scanned := shared.scanned + scanned } := by
  obtain ⟨taken, seen, pool, count, ended⟩ := sound
  refine ⟨taken, seen, pool, ?_, ended⟩
  simp only [List.map_cons, List.sum_cons, Worker.unreported] at count ⊢
  omega

theorem IsSound.advance (sound : publicizer.IsSound interner classes (worker :: others) shared) :
    publicizer.IsSound interner classes
      ((publicizer.advance interner classes shared worker).1 :: others)
      (publicizer.advance interner classes shared worker).2 := by
  cases worker with
  | ready scanned => exact sound.ready
  | scanning index rest scanned =>
      cases rest with
      | nil => exact ⟨sound.taken, sound.seen, sound.pool, sound.scanned, sound.ended⟩
      | cons definition rest => exact sound.scanning
  | inserting signature index rest scanned => exact sound.inserting
  | reporting scanned => exact sound.reporting
  | finished => exact sound

theorem IsSound.step {crew : Crew}
    (sound : publicizer.IsSound interner classes crew.workers crew.shared) (turn : Nat) :
    publicizer.IsSound interner classes (crew.step publicizer interner classes turn).workers
      (crew.step publicizer interner classes turn).shared := by
  rcases crew.step_eq_or turn with idle | ⟨worker, others, before, after, shared⟩
  · rwa [idle]
  · rw [shared]
    exact (sound.perm before).advance.perm after.symm

theorem IsSound.run {crew : Crew}
    (sound : publicizer.IsSound interner classes crew.workers crew.shared) (schedule : List Nat) :
    publicizer.IsSound interner classes (crew.run publicizer interner classes schedule).workers
      (crew.run publicizer interner classes schedule).shared := by
  induction schedule generalizing crew with
  | nil => exact sound
  | cons turn schedule ih => exact ih (sound.step turn)

end Invariant

def Worker.work : Worker → Nat
  | .ready _ => 2
  | .scanning _ rest _ => 2 * rest.length + 3
  | .inserting _ _ rest _ => 2 * rest.length + 4
  | .reporting _ => 1
  | .finished => 0

def untakenWork (classes : List ClassDef) (next : Nat) : Nat :=
  ((classes.drop next).map fun holder => 2 * holder.methods.length + 2).sum

def Crew.work (classes : List ClassDef) (crew : Crew) : Nat :=
  (crew.workers.map Worker.work).sum + untakenWork classes crew.shared.next

section Progress

variable {publicizer : Publicizer} {interner : Interner} {classes : List ClassDef}

theorem untakenWork_of_some {holder : ClassDef} {next : Nat}
    (found : classes[next]? = some holder) :
    untakenWork classes next = 2 * holder.methods.length + 2 + untakenWork classes (next + 1) := by
  obtain ⟨bound, rfl⟩ := List.getElem?_eq_some_iff.mp found
  rw [untakenWork, List.drop_eq_getElem_cons bound, List.map_cons, List.sum_cons]
  rfl

theorem untakenWork_of_none {next : Nat} (missing : classes[next]? = none) :
    untakenWork classes (next + 1) = 0 := by
  have past : classes.length ≤ next := List.getElem?_eq_none_iff.mp missing
  rw [untakenWork, List.drop_eq_nil_of_le (Nat.le_succ_of_le past)]
  rfl

variable (publicizer interner classes)

theorem work_advance (shared : Shared) {worker : Worker} (busy : worker ≠ .finished) :
    (publicizer.advance interner classes shared worker).1.work +
        untakenWork classes (publicizer.advance interner classes shared worker).2.next <
      worker.work + untakenWork classes shared.next := by
  cases worker with
  | ready scanned =>
      simp only [advance]
      split
      · rename_i holder found
        rw [untakenWork_of_some found]
        simp only [Worker.work]
        omega
      · rename_i missing
        rw [untakenWork_of_none missing]
        simp only [Worker.work]
        omega
  | scanning index rest scanned =>
      cases rest with
      | nil => simp only [advance, Worker.work, List.length_nil]; omega
      | cons definition rest =>
          simp only [advance]
          split <;> simp only [Worker.work, List.length_cons] <;> omega
  | inserting signature index rest scanned => simp only [advance, Worker.work]; omega
  | reporting scanned => simp only [advance, Worker.work]; omega
  | finished => exact absurd rfl busy

theorem Crew.exists_step_lt {crew : Crew} (busy : ¬ crew.IsFinished) :
    ∃ turn, (crew.step publicizer interner classes turn).work classes < crew.work classes := by
  simp only [Crew.IsFinished, not_forall] at busy
  obtain ⟨worker, member, busy⟩ := busy
  obtain ⟨turn, bound, rfl⟩ := List.mem_iff_getElem.mp member
  refine ⟨turn, ?_⟩
  have before := ((List.getElem_cons_eraseIdx_perm bound).map Worker.work).sum_eq
  have after := ((List.set_perm_cons_eraseIdx bound
    (publicizer.advance interner classes crew.shared crew.workers[turn]).1).map Worker.work).sum_eq
  have less := work_advance publicizer interner classes crew.shared busy
  simp only [Crew.work, Crew.step, List.getElem?_eq_getElem bound]
  rw [after, ← before]
  simp only [List.map_cons, List.sum_cons]
  omega

theorem Crew.exists_isFinished_run (crew : Crew) :
    ∃ schedule, (crew.run publicizer interner classes schedule).IsFinished := by
  -- turns go to workers with something to do, and the work left gets less
  induction size : crew.work classes using Nat.strong_induction_on generalizing crew with
  | _ size ih =>
      by_cases finished : crew.IsFinished
      · exact ⟨[], finished⟩
      · obtain ⟨turn, less⟩ := Crew.exists_step_lt publicizer interner classes finished
        obtain ⟨schedule, ended⟩ := ih _ (size ▸ less) _ rfl
        exact ⟨turn :: schedule, ended⟩

end Progress

def collect (publicizer : Publicizer) (program : Program) (workers : Nat) (schedule : List Nat) :
    Crew :=
  (Crew.start workers).run publicizer program.interner (publicizer.liveClasses program) schedule

/-- Every live class was taken once, each of its methods was scanned once, and no others. The pool has the
signatures of their live methods that are not private to an object, and all methods are counted. -/
structure HasCollected (publicizer : Publicizer) (program : Program) (crew : Crew) : Prop where
  taken : crew.shared.taken = List.range (publicizer.liveClasses program).length
  seen : crew.shared.seen.Perm (labelled (publicizer.liveClasses program))
  pool : ∀ signature, signature ∈ crew.shared.pool.entries ↔
    ∃ holder ∈ program.programClasses, publicizer.isLiveClass holder.type ∧
      ∃ definition ∈ holder.methods, publicizer.isLiveMethod definition.method ∧
        (definition.access.isPrivate = false ∨ definition.access.isStatic) ∧
        program.interner.signature definition.method = signature
  scanned : crew.shared.scanned =
    ((publicizer.liveClasses program).map fun holder => holder.methods.length).sum

section Collected

variable {publicizer : Publicizer} {interner : Interner} {program : Program}
  {classes : List ClassDef} {crew : Crew}

theorem Crew.length_step (turn : Nat) :
    (crew.step publicizer interner classes turn).workers.length = crew.workers.length := by
  rcases crew.step_eq_or turn with idle | ⟨worker, others, before, after, -⟩
  · rw [idle]
  · rw [before.length_eq, after.length_eq]
    rfl

theorem Crew.length_run (schedule : List Nat) :
    (crew.run publicizer interner classes schedule).workers.length = crew.workers.length := by
  induction schedule generalizing crew with
  | nil => rfl
  | cons turn schedule ih => exact ih.trans (Crew.length_step turn)

theorem map_snd_labelled (classes : List ClassDef) :
    (labelled classes).map (·.2) = classes.flatMap ClassDef.methods := by
  conv_rhs => rw [← List.zipIdx_map_fst 0 classes, List.flatMap_map]
  simp only [labelled, label, List.map_flatMap, List.map_map, Function.comp_def, List.map_id']

theorem length_labelled (classes : List ClassDef) :
    (labelled classes).length = (classes.map fun holder => holder.methods.length).sum := by
  rw [← List.length_map, map_snd_labelled, List.length_flatMap]

theorem mem_collectSignatures_iff {signature : Signature} :
    signature ∈ (publicizer.collectSignatures program).entries ↔
      signature ∈ publicizer.usedSignatures program.interner
        (labelled (publicizer.liveClasses program)) := by
  rw [usedSignatures, map_snd_labelled, collectSignatures, mem_entries_foldl_insert,
    List.filter_flatMap, List.map_flatMap]
  simp [Table.empty, classSignatures]

theorem Crew.IsFinished.flatMap_eq_nil {α : Type} (finished : crew.IsFinished)
    {hands : Worker → List α} (empty : hands .finished = []) : crew.workers.flatMap hands = [] := by
  rw [List.flatMap_eq_nil_iff]
  intro worker member
  rw [finished worker member, empty]

theorem IsSound.of_isFinished
    (sound : publicizer.IsSound interner classes crew.workers crew.shared)
    (finished : crew.IsFinished) (manned : 0 < crew.workers.length) :
    crew.shared.taken = List.range classes.length ∧
      crew.shared.seen.Perm (labelled classes) ∧
      (∀ signature, signature ∈ crew.shared.pool.entries ↔
        signature ∈ publicizer.usedSignatures interner (labelled classes)) ∧
      crew.shared.scanned = (labelled classes).length := by
  have noPending : crew.workers.flatMap Worker.pending = [] := finished.flatMap_eq_nil rfl
  have noneHeld : crew.workers.flatMap Worker.held = [] := finished.flatMap_eq_nil rfl
  have allReported : (crew.workers.map Worker.unreported).sum = 0 := by
    rw [List.sum_eq_zero_iff, List.forall_mem_map]
    intro worker member
    rw [finished worker member]
    rfl
  have past : classes.length ≤ crew.shared.next := by
    -- a finished worker has asked for a class and got none
    obtain ⟨worker, member⟩ := List.exists_mem_of_length_pos manned
    apply sound.ended
    rw [List.any_eq_true]
    exact ⟨worker, member, by rw [finished worker member]; rfl⟩
  obtain ⟨taken, seen, pool, scanned, -⟩ := sound
  rw [noPending, List.append_nil, List.take_of_length_le past] at seen
  refine ⟨?_, seen, ?_, ?_⟩
  · rw [taken, Nat.min_eq_right past]
  · intro signature
    have known := pool signature
    rw [noneHeld, or_iff_left List.not_mem_nil] at known
    rw [known]
    exact (((seen.map _).filter _).map _).mem_iff
  · rw [← seen.length_eq, ← scanned, allReported, Nat.add_zero]

variable {workers : Nat} {schedule : List Nat}

theorem isSound_collect :
    publicizer.IsSound program.interner (publicizer.liveClasses program)
      (publicizer.collect program workers schedule).workers
      (publicizer.collect program workers schedule).shared :=
  (isSound_start workers).run schedule

theorem length_collect :
    (publicizer.collect program workers schedule).workers.length = workers :=
  (Crew.length_run schedule).trans List.length_replicate

theorem mem_pool_collect (manned : 0 < workers)
    (finished : (publicizer.collect program workers schedule).IsFinished) (signature : Signature) :
    signature ∈ (publicizer.collect program workers schedule).shared.pool.entries ↔
      signature ∈ (publicizer.collectSignatures program).entries := by
  obtain ⟨-, -, pool, -⟩ := isSound_collect.of_isFinished finished (length_collect.symm ▸ manned)
  rw [pool, mem_collectSignatures_iff]

theorem scanned_collect (manned : 0 < workers)
    (finished : (publicizer.collect program workers schedule).IsFinished) :
    (publicizer.collect program workers schedule).shared.scanned =
      publicizer.scannedMethods program := by
  obtain ⟨-, -, -, scanned⟩ :=
    isSound_collect.of_isFinished finished (length_collect.symm ▸ manned)
  rw [scanned, length_labelled]
  rfl

theorem hasCollected_collect (manned : 0 < workers)
    (finished : (publicizer.collect program workers schedule).IsFinished) :
    publicizer.HasCollected program (publicizer.collect program workers schedule) := by
  obtain ⟨taken, seen, -, -⟩ :=
    isSound_collect.of_isFinished finished (length_collect.symm ▸ manned)
  refine ⟨taken, seen, ?_, scanned_collect manned finished⟩
  intro signature
  rw [mem_pool_collect manned finished, mem_collectSignatures]
  simp only [works, usesSignature, programClasses, List.mem_filter, Bool.and_eq_true,
    Bool.or_eq_true, Bool.not_eq_true', and_assoc, and_left_comm]

theorem exists_isFinished_collect (publicizer : Publicizer) (program : Program) (workers : Nat)
    (schedule : List Nat) :
    ∃ rest, (publicizer.collect program workers (schedule ++ rest)).IsFinished := by
  obtain ⟨rest, finished⟩ := Crew.exists_isFinished_run publicizer program.interner
    (publicizer.liveClasses program) (publicizer.collect program workers schedule)
  refine ⟨rest, ?_⟩
  rw [collect, Crew.run, List.foldl_append]
  exact finished

end Collected

end Shrinker.Publicizer
