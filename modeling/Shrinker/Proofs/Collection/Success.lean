import Mathlib.Data.List.Forall2

namespace Shrinker.Collection.Success

variable {ε α β : Type}

@[simp] theorem ok_bind (value : α) (next : α → Except ε β) :
    (Except.ok value : Except ε α) >>= next = next value := rfl

theorem bind_eq_ok {first : Except ε α} {next : α → Except ε β} {result : β} :
    first >>= next = .ok result ↔ ∃ value, first = .ok value ∧ next value = .ok result := by
  cases first with
  | error cause =>
      constructor
      · intro succeeded
        cases succeeded
      · intro succeeded
        obtain ⟨_, impossible, _⟩ := succeeded
        cases impossible
  | ok value =>
      constructor
      · intro succeeded
        exact ⟨value, rfl, succeeded⟩
      · intro steps
        obtain ⟨_, same, succeeded⟩ := steps
        cases same
        exact succeeded

theorem map_eq_ok {first : Except ε α} {next : α → β} {result : β} :
    first.map next = .ok result ↔ ∃ value, first = .ok value ∧ next value = result := by
  cases first <;> simp [Except.map]

theorem map_eq_error {first : Except ε α} {next : α → β} {cause : ε} :
    first.map next = .error cause ↔ first = .error cause := by
  cases first <;> simp [Except.map]

theorem forM_eq_ok {check : α → Except ε Unit} {entries : List α} :
    entries.forM check = .ok () ↔ ∀ entry ∈ entries, check entry = .ok () := by
  induction entries with
  | nil => simp [pure, Except.pure]
  | cons entry entries ih =>
      rw [List.forall_mem_cons, ← ih]
      change (check entry >>= fun _ => entries.forM check) = .ok () ↔ _
      rw [bind_eq_ok]
      constructor
      · rintro ⟨⟨⟩, passed, others⟩
        exact ⟨passed, others⟩
      · rintro ⟨passed, others⟩
        exact ⟨(), passed, others⟩

theorem mapM_cons_eq_ok {work : α → Except ε β} {entry : α} {entries : List α} {results : List β} :
    (entry :: entries).mapM work = .ok results ↔
      ∃ result rest, work entry = .ok result ∧ entries.mapM work = .ok rest ∧
        results = result :: rest := by
  rw [List.mapM_cons, bind_eq_ok]
  constructor
  · intro steps
    obtain ⟨result, worked, continued⟩ := steps
    obtain ⟨rest, restWorked, assembled⟩ := bind_eq_ok.mp continued
    cases assembled
    exact ⟨result, rest, worked, restWorked, rfl⟩
  · intro steps
    obtain ⟨result, rest, worked, restWorked, rfl⟩ := steps
    exact ⟨result, worked, bind_eq_ok.mpr ⟨rest, restWorked, rfl⟩⟩

theorem exists_of_mem_mapM {work : α → Except ε β} {entries : List α} {results : List β}
    (succeeded : entries.mapM work = .ok results) {result : β} (member : result ∈ results) :
    ∃ entry ∈ entries, work entry = .ok result := by
  induction entries generalizing results with
  | nil =>
      cases succeeded
      cases member
  | cons entry entries ih =>
      obtain ⟨first, rest, worked, restWorked, rfl⟩ := mapM_cons_eq_ok.mp succeeded
      rcases List.mem_cons.mp member with rfl | later
      · exact ⟨entry, by simp, worked⟩
      · obtain ⟨source, present, sourceWorked⟩ := ih restWorked later
        exact ⟨source, by simp [present], sourceWorked⟩

theorem map_eq_of_mapM {γ : Type} {work : α → Except ε β} (seen : β → γ) (kept : α → γ)
    (keeps : ∀ entry result, work entry = .ok result → seen result = kept entry)
    {entries : List α} {results : List β} (succeeded : entries.mapM work = .ok results) :
    results.map seen = entries.map kept := by
  induction entries generalizing results with
  | nil =>
      cases succeeded
      rfl
  | cons entry entries ih =>
      obtain ⟨first, rest, worked, restWorked, rfl⟩ := mapM_cons_eq_ok.mp succeeded
      simp only [List.map_cons, keeps entry first worked, ih restWorked]

theorem mapM_eq_ok_iff_forall₂ {work : α → Except ε β} {entries : List α} {results : List β} :
    entries.mapM work = .ok results ↔
      List.Forall₂ (fun entry result => work entry = .ok result) entries results := by
  induction entries generalizing results with
  | nil =>
      rw [List.forall₂_nil_left_iff]
      constructor
      · intro done
        cases done
        rfl
      · rintro rfl
        rfl
  | cons entry entries ih =>
      rw [mapM_cons_eq_ok, List.forall₂_cons_left_iff]
      constructor
      · intro steps
        obtain ⟨result, rest, worked, restWorked, rfl⟩ := steps
        exact ⟨result, rest, worked, ih.mp restWorked, rfl⟩
      · intro related
        obtain ⟨result, rest, worked, restWorked, rfl⟩ := related
        exact ⟨result, rest, worked, ih.mpr restWorked, rfl⟩

theorem mapM_cons_eq_error {work : α → Except ε β} {entry : α} {entries : List α} {cause : ε} :
    (entry :: entries).mapM work = .error cause ↔
      work entry = .error cause ∨
        (∃ result, work entry = .ok result) ∧ entries.mapM work = .error cause := by
  rw [List.mapM_cons]
  cases work entry with
  | error first => simp [bind, Except.bind]
  | ok result => cases entries.mapM work <;> simp [bind, Except.bind, pure, Except.pure]

/-- The work on a list fails exactly if it fails on an entry. -/
theorem exists_mapM_eq_error {work : α → Except ε β} {entries : List α} :
    (∃ cause, entries.mapM work = .error cause) ↔
      ∃ entry ∈ entries, ∃ cause, work entry = .error cause := by
  induction entries with
  | nil =>
      simp only [List.not_mem_nil, false_and, exists_false, iff_false, not_exists]
      nofun
  | cons entry entries ih =>
      simp only [mapM_cons_eq_error, List.exists_mem_cons_iff, ← ih]
      cases work entry <;> simp

theorem exists_of_mapM_eq_error {work : α → Except ε β} {entries : List α} {cause : ε}
    (failed : entries.mapM work = .error cause) :
    ∃ before entry after, entries = before ++ entry :: after ∧
      (∀ earlier ∈ before, ∃ result, work earlier = .ok result) ∧ work entry = .error cause := by
  induction entries with
  | nil => cases failed
  | cons entry entries ih =>
      rcases mapM_cons_eq_error.mp failed with here | ⟨worked, later⟩
      · exact ⟨[], entry, entries, rfl, by nofun, here⟩
      · obtain ⟨before, stopped, after, rfl, earlier, cause⟩ := ih later
        exact ⟨entry :: before, stopped, after, rfl, List.forall_mem_cons.mpr ⟨worked, earlier⟩,
          cause⟩

end Shrinker.Collection.Success
