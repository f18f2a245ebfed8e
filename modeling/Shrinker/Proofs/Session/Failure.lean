import Shrinker.Proofs.Publicizer.Outcome
import Shrinker.Proofs.Reference.Growth
import Shrinker.Proofs.Session.Steps

namespace Shrinker.Session

open Reference Program Liveness Options

/-- All is as it was, but for references that were added. -/
def StaysAsItWas (session after : Session) : Prop :=
  ∃ interner, session.program.interner.Grows interner ∧
    after = { session with program := { session.program with interner } }

section Steps

variable {α : Type} {session after : Session} {error : Error}

theorem staysAsItWas_of_interning {work : Interning α} (grows : work.Grows)
    {result : Except Error α} (ran : (interning work).run session = (result, after)) :
    StaysAsItWas session after := by
  have last := interning_run session work
  rw [ran] at last
  exact ⟨_, grows session.program.interner, last⟩

theorem staysAsItWas_of_roots (failed : roots.run session = (.error error, after)) :
    StaysAsItWas session after :=
  staysAsItWas_of_interning (Interning.grows_ofKeep session.options.keep) failed

theorem staysAsItWas_of_trace {given : Roots}
    (failed : (trace given).run session = (.error error, after)) :
    StaysAsItWas session after := by
  unfold trace at failed
  rw [get_bind_run] at failed
  rcases bind_run_eq_error.mp failed with unread | ⟨handlers, middle, read, continued⟩
  · exact staysAsItWas_of_interning (Interning.grows_internHandlers _) unread
  · rw [get_bind_run] at continued
    dsimp only at continued
    split at continued
    · cases continued
      exact staysAsItWas_of_interning (Interning.grows_internHandlers _) read
    · rw [set_bind_run] at continued
      cases continued

theorem checkHolders_of_publicize {keep : KeepOracle}
    (failed : (publicize keep).run session = (.error error, after)) :
    after = session ∧ Publicizer.checkHolders session.program = .error error := by
  unfold publicize at failed
  rw [get_bind_run] at failed
  split at failed
  · dsimp only at failed
    split at failed
    · rename_i cause found
      cases failed
      exact ⟨rfl, (Publicizer.run_eq_error_iff _).mp found⟩
    · rw [set_bind_run] at failed
      cases failed
  · cases failed

end Steps

/-- A step that fails leaves the session as it was. The publicizer fails exactly if a holder is undefined,
which it finds out before it changes anything: the walk itself never fails. -/
theorem failed_step_leaves_session {session after : Session} {error : Error} :
    (roots.run session = (.error error, after) → StaysAsItWas session after) ∧
    (∀ given, (trace given).run session = (.error error, after) → StaysAsItWas session after) ∧
    (∀ keep, (publicize keep).run session = (.error error, after) →
      after = session ∧ Publicizer.checkHolders session.program = .error error) ∧
    (∀ (publicizer : Publicizer) program previous,
      publicizer.run program previous = .error error ↔
        Publicizer.checkHolders program = .error error) ∧
    ∀ (publicizer : Publicizer) program types pool stats, ∃ result,
      publicizer.publicizeTypes types program ⟨pool, { name := "publicizer" }, stats⟩ =
        .ok result := by
  refine ⟨staysAsItWas_of_roots, fun _ => staysAsItWas_of_trace,
    fun _ => checkHolders_of_publicize, ?_, ?_⟩
  · intro publicizer program previous
    exact publicizer.run_eq_error_iff
  · intro publicizer program types pool stats
    exact publicizer.exists_publicizeTypes_of_unwritten program types pool stats

namespace Faulty

def strange : MethodDef where
  method := ⟨1⟩
  access := { isSynthetic := true }

def holder : ClassDef where
  type := ⟨6⟩
  origin := .program
  super? := some .object
  directMethods := [strange]

def program : Program where
  interner :=
    let (absent, interner) := Interner.standard.internType "LA;"
    let (_, interner) := interner.internType "LB;"
    let (name, interner) := interner.internSymbol "run"
    let (proto, interner) := interner.internProto ⟨[], .void⟩
    (interner.internMethod ⟨absent, name, proto⟩).2
  classes := [holder]
  hierarchy := Hierarchy.addClass { root := .object } holder

def session : Session where
  program := program
  options := { keep := { methods := ["LB;->run()V", "run"] } }

end Faulty

open Faulty in
/-- Reading the roots adds the first method and fails at the second; the publicizer fails as the holder of
its method is not defined. -/
theorem failed_step_leaves_session_faulty :
    (∃ after, roots.run session = (.error (.options (.invalidMember "run")), after) ∧
      after.program.interner.methods.size = 3 ∧ StaysAsItWas session after) ∧
    ∃ error after, (publicize ({} : Roots).oracle).run session = (.error error, after) ∧
      after = session := by
  have unread : (roots.run session).1 = .error (.options (.invalidMember "run")) := by
    decide +kernel
  have broken : ((publicize ({} : Roots).oracle).run session).1 =
      .error (.brokenProgram (.holderUndefined "LA;->run()V" "LB;")) := by
    decide +kernel
  refine ⟨⟨_, Prod.ext unread rfl, by decide +kernel,
    failed_step_leaves_session.1 (Prod.ext unread rfl)⟩, ?_⟩
  exact ⟨_, _, Prod.ext broken rfl,
    (failed_step_leaves_session.2.2.1 _ (Prod.ext broken rfl)).1⟩

end Shrinker.Session
