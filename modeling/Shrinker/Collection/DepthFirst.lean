namespace Shrinker.Collection.DepthFirst

variable {α : Type} [DecidableEq α]

def without (domain : List α) (node : α) : List α :=
  domain.filter (· != node)

@[simp] theorem mem_without {domain : List α} {node other : α} :
    other ∈ without domain node ↔ other ∈ domain ∧ other ≠ node := by
  simp [without]

theorem length_without_lt {domain : List α} {node : α} (present : node ∈ domain) :
    (without domain node).length < domain.length :=
  List.length_filter_lt_length_iff_exists.mpr ⟨node, present, by simp⟩

/-- The nodes of `domain` in the order of a depth-first visit. The front of the stack is visited first,
then what follows it in the graph, then the rest of the stack. -/
def visit (next : α → List α) (domain : List α) : List α → List α
  | [] => []
  | top :: rest =>
      if top ∈ domain then
        top :: visit next (without domain top) (next top ++ rest)
      else
        visit next domain rest
termination_by stack => (domain.length, stack.length)
decreasing_by
  · rename_i present
    exact Prod.Lex.left _ _ (length_without_lt present)
  · exact Prod.Lex.right _ (by simp)

end Shrinker.Collection.DepthFirst
