import Shrinker.Liveness.Action

namespace Shrinker.Liveness.Worklist

variable {worklist : Worklist} {taken actions rest : List Action} {action other : Action}

theorem mem_seen_enqueue :
    other ∈ (worklist.enqueue action).seen ↔ other ∈ worklist.seen ∨ other = action := by
  unfold enqueue accepts
  split
  · simp only [List.mem_cons]
    exact or_comm
  · rename_i known
    constructor
    · exact Or.inl
    · rintro (old | rfl)
      · exact old
      · simpa using known

theorem mem_seen_enqueueAll :
    other ∈ (worklist.enqueueAll actions).seen ↔ other ∈ worklist.seen ∨ other ∈ actions := by
  unfold enqueueAll
  induction actions generalizing worklist with
  | nil => simp
  | cons first actions ih =>
      rw [List.foldl_cons, ih, mem_seen_enqueue, List.mem_cons, or_assoc]

theorem enqueueAll_append (worklist : Worklist) (left right : List Action) :
    worklist.enqueueAll (left ++ right) = (worklist.enqueueAll left).enqueueAll right :=
  List.foldl_append

theorem poll_eq_none : worklist.poll = none ↔ worklist.queue = [] := by
  unfold poll
  split <;> simp_all

theorem poll_eq_some {polled : Worklist} :
    worklist.poll = some (action, polled) ↔
      ∃ rest, worklist.queue = action :: rest ∧ polled = { worklist with queue := rest } := by
  unfold poll
  cases worklist.queue with
  | nil => simp
  | cons first rest =>
      constructor
      · intro same
        cases same
        exact ⟨rest, rfl, rfl⟩
      · rintro ⟨_, same, rfl⟩
        cases same
        rfl

/-- All that was accepted has been taken or is pending, and nothing was accepted twice. -/
structure Accounts (worklist : Worklist) (taken : List Action) : Prop where
  nodup : worklist.seen.Nodup
  perm : worklist.seen.Perm (taken ++ worklist.queue)

theorem Accounts.empty : empty.Accounts [] :=
  ⟨List.nodup_nil, List.Perm.refl []⟩

theorem Accounts.enqueue (accounts : worklist.Accounts taken) (action : Action) :
    (worklist.enqueue action).Accounts taken := by
  unfold Worklist.enqueue accepts
  split
  · rename_i fresh
    have unseen : action ∉ worklist.seen := by simpa using fresh
    have moved : (action :: (taken ++ worklist.queue)).Perm
        (taken ++ (worklist.queue ++ [action])) := by
      rw [← List.append_assoc]
      exact (List.perm_append_singleton _ _).symm
    exact ⟨List.nodup_cons.mpr ⟨unseen, accounts.nodup⟩, (accounts.perm.cons action).trans moved⟩
  · exact accounts

theorem Accounts.enqueueAll (accounts : worklist.Accounts taken) (actions : List Action) :
    (worklist.enqueueAll actions).Accounts taken := by
  unfold Worklist.enqueueAll
  induction actions generalizing worklist with
  | nil => exact accounts
  | cons first actions ih => exact ih (accounts.enqueue first)

theorem Accounts.poll (accounts : worklist.Accounts taken) (pending : worklist.queue = action :: rest) :
    action ∉ taken ∧ ({ worklist with queue := rest } : Worklist).Accounts (taken ++ [action]) := by
  have perm := accounts.perm
  rw [pending] at perm
  constructor
  · have apart := perm.nodup_iff.mp accounts.nodup
    intro again
    exact (List.nodup_append.mp apart).2.2 action again action List.mem_cons_self rfl
  · refine ⟨accounts.nodup, ?_⟩
    rw [List.append_assoc]
    exact perm

theorem Accounts.mem_seen (accounts : worklist.Accounts taken) :
    other ∈ worklist.seen ↔ other ∈ taken ∨ other ∈ worklist.queue := by
  rw [accounts.perm.mem_iff, List.mem_append]

theorem Accounts.length_seen (accounts : worklist.Accounts taken) :
    worklist.seen.length = taken.length + worklist.queue.length := by
  rw [accounts.perm.length_eq, List.length_append]

/-- Nothing is pending twice, nothing was taken twice or is pending again, and what was accepted is what was
taken or is pending. -/
structure IsOrderly (worklist : Worklist) (taken : List Action) : Prop where
  pending : worklist.queue.Nodup
  once : taken.Nodup
  apart : ∀ action ∈ taken, action ∉ worklist.queue
  distinct : worklist.seen.Nodup
  mem_seen : ∀ action, action ∈ worklist.seen ↔ action ∈ taken ∨ action ∈ worklist.queue

theorem Accounts.isOrderly (accounts : worklist.Accounts taken) : worklist.IsOrderly taken := by
  obtain ⟨once, pending, apart⟩ := List.nodup_append.mp (accounts.perm.nodup_iff.mp accounts.nodup)
  refine ⟨pending, once, ?_, accounts.nodup, fun _ => accounts.mem_seen⟩
  intro action before again
  exact apart action before action again rfl

end Shrinker.Liveness.Worklist
