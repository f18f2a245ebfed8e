import Shrinker.Session

namespace Shrinker.Session

open Reference Program Liveness

variable {α β : Type} {session after : Session}

theorem get_bind_run (session : Session) (next : Session → Work α) :
    (get >>= next : Work α).run session = (next session).run session := rfl

theorem set_bind_run (session stored : Session) (next : PUnit → Work α) :
    (set stored >>= next : Work α).run session = (next ⟨⟩).run stored := rfl

theorem bind_run_eq_ok {work : Work α} {next : α → Work β} {result : β} :
    (work >>= next).run session = (.ok result, after) ↔
      ∃ value middle, work.run session = (.ok value, middle) ∧
        (next value).run middle = (.ok result, after) := by
  change ExceptT.bindCont next (work.run session).1 (work.run session).2 = _ ↔ _
  obtain ⟨outcome, middle⟩ := work.run session
  cases outcome with
  | ok value =>
      constructor
      · intro done
        exact ⟨value, middle, rfl, done⟩
      · rintro ⟨_, _, same, done⟩
        cases same
        exact done
  | error error =>
      constructor
      · intro failed
        cases failed
      · rintro ⟨_, _, same, -⟩
        cases same

theorem bind_run_eq_error {work : Work α} {next : α → Work β} {error : Error} :
    (work >>= next).run session = (.error error, after) ↔
      work.run session = (.error error, after) ∨
        ∃ value middle, work.run session = (.ok value, middle) ∧
          (next value).run middle = (.error error, after) := by
  change ExceptT.bindCont next (work.run session).1 (work.run session).2 = _ ↔ _
  obtain ⟨outcome, middle⟩ := work.run session
  cases outcome with
  | ok value =>
      constructor
      · intro failed
        exact Or.inr ⟨value, middle, rfl, failed⟩
      · rintro (impossible | ⟨_, _, same, failed⟩)
        · cases impossible
        · cases same
          exact failed
  | error cause =>
      constructor
      · intro failed
        cases failed
        exact Or.inl rfl
      · rintro (same | ⟨_, _, impossible, -⟩)
        · cases same
          rfl
        · cases impossible

theorem interning_run (session : Session) (work : Options.Interning α) :
    ((interning work).run session).2 =
      { session with
        program :=
          { session.program with interner := (work.run.run session.program.interner).2 } } := by
  unfold interning
  rw [get_bind_run]
  obtain ⟨result, interner⟩ := work.run.run session.program.interner
  dsimp only
  rw [set_bind_run]
  cases result <;> rfl

theorem interning_run_eq_ok {work : Options.Interning α} {value : α}
    (done : (interning work).run session = (.ok value, after)) :
    ∃ interner, after = { session with program := { session.program with interner } } := by
  have last := interning_run session work
  rw [done] at last
  exact ⟨_, last⟩

theorem trace_run_eq_ok {roots : Roots} {result : TraceResult}
    (done : (trace roots).run session = (.ok result, after)) :
    ∃ handlers interner program, program = { session.program with interner } ∧
      (Tracer.trace { program, analyses := [Assertions.analysis handlers], data := () } roots).1 =
        .ok result ∧
      after = { session with program, traced := some result } := by
  unfold trace at done
  rw [get_bind_run] at done
  obtain ⟨handlers, middle, interned, continued⟩ := bind_run_eq_ok.mp done
  obtain ⟨interner, rfl⟩ := interning_run_eq_ok interned
  refine ⟨handlers, interner, _, rfl, ?_⟩
  rw [get_bind_run] at continued
  dsimp only at continued
  split at continued
  · cases continued
  · rename_i found traced
    rw [set_bind_run] at continued
    cases continued
    exact ⟨traced, rfl⟩

theorem publicize_run_eq_ok {keep : KeepOracle} {stats : Option Publicizer.Stats}
    (done : (publicize keep).run session = (.ok stats, after)) :
    session.options.publicize = false ∧ after = session ∨
      ∃ outcome, Publicizer.run { keep, live := session.traced.map (·.live) } session.program
          session.lens = .ok outcome ∧
        after = { session with program := outcome.program, lens := outcome.lens } := by
  unfold publicize at done
  rw [get_bind_run] at done
  split at done
  · refine Or.inr ?_
    dsimp only at done
    split at done
    · cases done
    · rename_i outcome success
      rw [set_bind_run] at done
      cases done
      exact ⟨outcome, success, rfl⟩
  · rename_i off
    cases done
    exact Or.inl ⟨by simpa using off, rfl⟩

/-- A session that was optimized: references were added, the program was traced, and unless the options
turn it off the publicizer was run on what is live. -/
theorem optimize_run_eq_ok {summary : Summary}
    (done : optimize.run session = (.ok summary, after)) :
    ∃ interner program handlers roots result, program = { session.program with interner } ∧
      (Tracer.trace { program, analyses := [Assertions.analysis handlers], data := () } roots).1 =
        .ok result ∧
      after.traced = some result ∧
      (session.options.publicize = false ∧ after.program = program ∧ after.lens = session.lens ∨
        ∃ outcome, Publicizer.run { keep := roots.oracle, live := some result.live } program
            session.lens = .ok outcome ∧
          after.program = outcome.program ∧ after.lens = outcome.lens) := by
  unfold optimize at done
  obtain ⟨roots, rooted, found, continued⟩ := bind_run_eq_ok.mp done
  rw [Session.roots, get_bind_run] at found
  obtain ⟨grown, rfl⟩ := interning_run_eq_ok found
  obtain ⟨result, tracked, traced, continued⟩ := bind_run_eq_ok.mp continued
  obtain ⟨handlers, interner, program, rfl, success, rfl⟩ := trace_run_eq_ok traced
  obtain ⟨stats, published, publicized, continued⟩ := bind_run_eq_ok.mp continued
  rw [get_bind_run] at continued
  cases continued
  refine ⟨interner, _, handlers, roots, result, rfl, success, ?_⟩
  rcases publicize_run_eq_ok publicized with ⟨off, rfl⟩ | ⟨outcome, run, rfl⟩
  · exact ⟨rfl, Or.inl ⟨off, rfl, rfl⟩⟩
  · exact ⟨rfl, Or.inr ⟨outcome, run, rfl, rfl⟩⟩

end Shrinker.Session
