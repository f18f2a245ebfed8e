namespace Shrinker.Reference

/-- Distinct entries in the order in which they were first added, with the number of each. -/
structure Table (α : Type) where
  entries : List α
  numbers : List (α × Nat)
  nodup : entries.Nodup
  numbered : ∀ entry number, (entry, number) ∈ numbers ↔ entries[number]? = some entry

namespace Table

variable {α : Type}

def empty : Table α :=
  ⟨[], [], List.nodup_nil, by simp⟩

instance : Inhabited (Table α) :=
  ⟨empty⟩

def size (table : Table α) : Nat :=
  table.entries.length

def get? (table : Table α) (index : Nat) : Option α :=
  table.entries[index]?

theorem get?_inj {table : Table α} {left right : Nat} {entry : α}
    (atLeft : table.get? left = some entry) (atRight : table.get? right = some entry) :
    left = right := by
  have bound : left < table.entries.length := (List.getElem?_eq_some_iff.mp atLeft).1
  exact (List.getElem?_inj bound table.nodup).mp (atLeft.trans atRight.symm)

theorem numbered_append {entries : List α} {numbers : List (α × Nat)}
    (numbered : ∀ entry number, (entry, number) ∈ numbers ↔ entries[number]? = some entry)
    (added entry : α) (number : Nat) :
    (entry, number) ∈ (added, entries.length) :: numbers ↔
      (entries ++ [added])[number]? = some entry := by
  rw [List.mem_cons, numbered, Prod.mk.injEq]
  rcases Nat.lt_trichotomy number entries.length with inside | rfl | outside
  · rw [List.getElem?_append_left inside]
    exact or_iff_right fun last => Nat.ne_of_lt inside last.2
  · simp [eq_comm]
  · rw [List.getElem?_eq_none (Nat.le_of_lt outside),
      List.getElem?_eq_none (by rw [List.length_append, List.length_singleton]; exact outside)]
    simp [Nat.ne_of_gt outside]

variable [DecidableEq α]

def find? (table : Table α) (entry : α) : Option Nat :=
  table.numbers.lookup entry

theorem get?_of_find? {table : Table α} {entry : α} {number : Nat}
    (found : table.find? entry = some number) : table.get? number = some entry := by
  obtain ⟨before, after, split, -⟩ := List.lookup_eq_some_iff.mp found
  apply (table.numbered entry number).mp
  simp [split]

theorem find?_eq_none_iff {table : Table α} {entry : α} :
    table.find? entry = none ↔ entry ∉ table.entries := by
  constructor
  · intro missing member
    obtain ⟨number, present⟩ := List.mem_iff_getElem?.mp member
    have other := List.lookup_eq_none_iff.mp missing _ ((table.numbered entry number).mpr present)
    simp at other
  · intro fresh
    cases found : table.find? entry with
    | none => rfl
    | some number => exact absurd (List.mem_of_getElem? (get?_of_find? found)) fresh

/-- The map gives an entry the number under which the entry stands, and no other. -/
theorem find?_eq_some_iff {table : Table α} {entry : α} {number : Nat} :
    table.find? entry = some number ↔ table.get? number = some entry := by
  constructor
  · exact get?_of_find?
  · intro present
    cases found : table.find? entry with
    | none => exact absurd (List.mem_of_getElem? present) (find?_eq_none_iff.mp found)
    | some other => rw [get?_inj present (get?_of_find? found)]

def insert (table : Table α) (entry : α) : Table α where
  entries :=
    match table.find? entry with
    | some _ => table.entries
    | none => table.entries ++ [entry]
  numbers :=
    match table.find? entry with
    | some _ => table.numbers
    | none => (entry, table.entries.length) :: table.numbers
  nodup := by
    cases missing : table.find? entry with
    | some number => exact table.nodup
    | none =>
        simp only [List.nodup_append, table.nodup, true_and]
        refine ⟨by simp, ?_⟩
        intro old oldMem new newMem same
        cases List.mem_singleton.mp newMem
        exact find?_eq_none_iff.mp missing (same ▸ oldMem)
  numbered := by
    cases table.find? entry with
    | some number => exact table.numbered
    | none => exact numbered_append table.numbered entry

def intern (table : Table α) (entry : α) : Nat × Table α :=
  ((table.find? entry).getD table.size, table.insert entry)

theorem insert_eq_self {table : Table α} {entry : α} (known : entry ∈ table.entries) :
    table.insert entry = table := by
  cases found : table.find? entry with
  | none => exact absurd known (find?_eq_none_iff.mp found)
  | some number => simp only [insert, found]

theorem entries_insert_of_not_mem {table : Table α} {entry : α} (fresh : entry ∉ table.entries) :
    (table.insert entry).entries = table.entries ++ [entry] := by
  simp only [insert, find?_eq_none_iff.mpr fresh]

theorem entries_insert (table : Table α) (entry : α) :
    table.entries <+: (table.insert entry).entries := by
  by_cases known : entry ∈ table.entries
  · exact (insert_eq_self known).symm ▸ List.prefix_refl _
  · exact (entries_insert_of_not_mem known).symm ▸ List.prefix_append _ _

theorem mem_entries_insert {table : Table α} {entry other : α} :
    other ∈ (table.insert entry).entries ↔ other ∈ table.entries ∨ other = entry := by
  by_cases known : entry ∈ table.entries
  · rw [insert_eq_self known]
    constructor
    · exact Or.inl
    · rintro (old | rfl)
      · exact old
      · exact known
  · rw [entries_insert_of_not_mem known, List.mem_append, List.mem_singleton]

theorem get?_intern (table : Table α) (entry : α) :
    (table.intern entry).2.get? (table.intern entry).1 = some entry := by
  change (table.insert entry).get? ((table.find? entry).getD table.size) = some entry
  cases found : table.find? entry with
  | some number =>
      have present := get?_of_find? found
      rw [insert_eq_self (List.mem_of_getElem? present)]
      exact present
  | none =>
      rw [get?, entries_insert_of_not_mem (find?_eq_none_iff.mp found)]
      exact List.getElem?_concat_length

end Table

end Shrinker.Reference
