import Shrinker.Publicizer.Pass

namespace Shrinker.Publicizer

open Reference Program

/-- A method definition, known by the class that has it. Its reference may name another class. -/
structure Slot where
  type : TypeId
  method : MethodId
  deriving DecidableEq, Repr

theorem mem_entries_foldl_insert {signatures : List Signature} {pool : SignaturePool}
    {signature : Signature} :
    signature ∈ (signatures.foldl Table.insert pool).entries ↔
      signature ∈ pool.entries ∨ signature ∈ signatures := by
  induction signatures generalizing pool with
  | nil => simp
  | cons first signatures ih =>
      rw [List.foldl_cons, ih, Table.mem_entries_insert, List.mem_cons, or_assoc]

def grow (interner : Interner) (pool : SignaturePool) (slots : List Slot) : SignaturePool :=
  (slots.map fun slot => interner.signature slot.method).foldl Table.insert pool

theorem grow_cons (interner : Interner) (pool : SignaturePool) (slot : Slot) (slots : List Slot) :
    grow interner pool (slot :: slots) =
      grow interner (pool.insert (interner.signature slot.method)) slots := rfl

theorem grow_append (interner : Interner) (pool : SignaturePool) (left right : List Slot) :
    grow interner pool (left ++ right) = grow interner (grow interner pool left) right := by
  simp only [grow, List.map_append, List.foldl_append]

theorem mem_entries_grow {interner : Interner} {pool : SignaturePool} {slots : List Slot}
    {signature : Signature} :
    signature ∈ (grow interner pool slots).entries ↔
      signature ∈ pool.entries ∨ ∃ slot ∈ slots, interner.signature slot.method = signature := by
  rw [grow, mem_entries_foldl_insert, List.mem_map]

/-- The slots that claim their signature: it is not in the pool, and no slot before has it. -/
def claim (interner : Interner) : SignaturePool → List Slot → List Slot
  | _, [] => []
  | pool, slot :: slots =>
      if interner.signature slot.method ∈ pool.entries then
        claim interner pool slots
      else
        slot :: claim interner (pool.insert (interner.signature slot.method)) slots

section Claims

variable {interner : Interner} {pool : SignaturePool} {slots : List Slot}

theorem claim_sublist (interner : Interner) (pool : SignaturePool) (slots : List Slot) :
    (claim interner pool slots).Sublist slots := by
  fun_induction claim interner pool slots with
  | case1 => exact List.Sublist.refl []
  | case2 pool slot slots taken ih => exact ih.cons slot
  | case3 pool slot slots free ih => exact ih.cons_cons slot

theorem claim_append (interner : Interner) (pool : SignaturePool) (left right : List Slot) :
    claim interner pool (left ++ right) =
      claim interner pool left ++ claim interner (grow interner pool left) right := by
  fun_induction claim interner pool left with
  | case1 pool => rfl
  | case2 pool slot slots taken ih =>
      rw [List.cons_append, claim, if_pos taken, ih, grow_cons, Table.insert_eq_self taken]
  | case3 pool slot slots free ih =>
      rw [List.cons_append, claim, if_neg free, ih, grow_cons]
      rfl

theorem signature_notMem_of_mem_claim {slot : Slot} (claimed : slot ∈ claim interner pool slots) :
    interner.signature slot.method ∉ pool.entries := by
  fun_induction claim interner pool slots with
  | case1 => cases claimed
  | case2 pool first slots taken ih => exact ih claimed
  | case3 pool first slots free ih =>
      rcases List.mem_cons.mp claimed with rfl | later
      · exact free
      · exact fun known => ih later (Table.mem_entries_insert.mpr (Or.inl known))

theorem nodup_signature_claim (interner : Interner) (pool : SignaturePool) (slots : List Slot) :
    ((claim interner pool slots).map fun slot => interner.signature slot.method).Nodup := by
  fun_induction claim interner pool slots with
  | case1 => exact List.nodup_nil
  | case2 pool first slots taken ih => exact ih
  | case3 pool first slots free ih =>
      rw [List.map_cons, List.nodup_cons]
      refine ⟨?_, ih⟩
      intro again
      obtain ⟨slot, claimed, same⟩ := List.mem_map.mp again
      exact signature_notMem_of_mem_claim claimed (Table.mem_entries_insert.mpr (Or.inr same))

theorem mem_claim_iff {slot : Slot} :
    slot ∈ claim interner pool slots ↔
      interner.signature slot.method ∉ pool.entries ∧
        slots.find? (fun other => interner.signature other.method = interner.signature slot.method) =
          some slot := by
  fun_induction claim interner pool slots with
  | case1 pool => simp
  | case2 pool first slots taken ih =>
      rw [ih]
      refine and_congr_right fun free => ?_
      have apart : interner.signature first.method ≠ interner.signature slot.method := by
        intro same
        rw [same] at taken
        exact free taken
      rw [List.find?_cons_of_neg (by simpa using apart)]
  | case3 pool first slots free ih =>
      rw [List.mem_cons, ih, Table.mem_entries_insert, not_or]
      by_cases same : interner.signature first.method = interner.signature slot.method
      · rw [List.find?_cons_of_pos (by simpa using same), Option.some.injEq]
        constructor
        · rintro (rfl | ⟨⟨-, apart⟩, -⟩)
          · exact ⟨free, rfl⟩
          · exact absurd same.symm apart
        · rintro ⟨-, rfl⟩
          exact Or.inl rfl
      · rw [List.find?_cons_of_neg (by simpa using same)]
        constructor
        · rintro (rfl | ⟨⟨unused, -⟩, found⟩)
          · exact absurd rfl same
          · exact ⟨unused, found⟩
        · rintro ⟨unused, found⟩
          exact Or.inr ⟨⟨unused, Ne.symm same⟩, found⟩

end Claims

end Shrinker.Publicizer
