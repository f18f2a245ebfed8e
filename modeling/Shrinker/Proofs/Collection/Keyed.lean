import Mathlib.Data.List.Nodup

namespace Shrinker.Collection.Keyed

variable {α κ : Type} [DecidableEq κ] {key : α → κ} {entries : List α}

theorem find?_eq_some (distinct : (entries.map key).Nodup) {entry : α} (member : entry ∈ entries) :
    entries.find? (fun candidate => key candidate == key entry) = some entry := by
  cases found : entries.find? (fun candidate => key candidate == key entry) with
  | none =>
      have missing := List.find?_eq_none.mp found entry member
      simp at missing
  | some other =>
      have same : key other = key entry := by simpa using List.find?_some found
      rw [List.inj_on_of_nodup_map distinct (List.mem_of_find?_eq_some found) member same]

theorem find?_eq_some_iff (distinct : (entries.map key).Nodup) {sought : κ} {entry : α} :
    entries.find? (fun candidate => key candidate == sought) = some entry ↔
      entry ∈ entries ∧ key entry = sought := by
  constructor
  · intro found
    exact ⟨List.mem_of_find?_eq_some found, by simpa using List.find?_some found⟩
  · intro known
    obtain ⟨member, rfl⟩ := known
    exact find?_eq_some distinct member

end Shrinker.Collection.Keyed
