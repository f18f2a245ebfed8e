namespace Shrinker.Collection.Ascending

/-- Puts an entry in its place, unless an entry with its key is there. -/
def insert {α : Type} (key : α → Nat) (entry : α) : List α → List α
  | [] => [entry]
  | head :: tail =>
      if key entry < key head then
        entry :: head :: tail
      else if key entry = key head then
        head :: tail
      else
        head :: insert key entry tail

theorem mem_insert {α : Type} {key : α → Nat} {entry other : α} {entries : List α}
    (distinct : ∀ left right, key left = key right → left = right) :
    other ∈ insert key entry entries ↔ other = entry ∨ other ∈ entries := by
  fun_induction insert key entry entries with
  | case1 => simp
  | case2 head tail before => simp
  | case3 head tail notBefore same =>
      cases distinct entry head same
      simp
  | case4 head tail notBefore different ih =>
      rw [List.mem_cons, List.mem_cons, ih, or_left_comm]

end Shrinker.Collection.Ascending
