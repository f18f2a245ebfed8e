import Mathlib.Logic.Relation
import Shrinker.Collection.DepthFirst

namespace Shrinker.Collection.DepthFirst

variable {α : Type}

/-- There is a path in the graph, perhaps an empty one. -/
def Reaches (next : α → List α) : α → α → Prop :=
  Relation.ReflTransGen fun node follower => follower ∈ next node

section Paths

variable {next : α → List α} {first second third : α}

theorem Reaches.refl (node : α) : Reaches next node node :=
  Relation.ReflTransGen.refl

theorem Reaches.single (edge : second ∈ next first) : Reaches next first second :=
  Relation.ReflTransGen.single edge

theorem Reaches.trans (path : Reaches next first second) (further : Reaches next second third) :
    Reaches next first third :=
  Relation.ReflTransGen.trans path further

theorem Reaches.tail (path : Reaches next first second) (edge : third ∈ next second) :
    Reaches next first third :=
  Relation.ReflTransGen.tail path edge

theorem Reaches.mono {more : α → List α} (wider : ∀ node, next node ⊆ more node)
    (path : Reaches next first second) : Reaches more first second :=
  Relation.ReflTransGen.mono (fun node _ edge => wider node edge) first second path

theorem Reaches.turn {back : α → List α}
    (turned : ∀ node follower, follower ∈ next node → node ∈ back follower)
    (path : Reaches next first second) : Reaches back second first := by
  induction path with
  | refl => exact .refl first
  | tail _ edge ih => exact (Reaches.single (turned _ _ edge)).trans ih

end Paths

/-- The order in which recursion visits the nodes of a list: nodes seen before, the list, the order. A node
seen is skipped. Any other is followed by all that recursion visits below it, and then come the rest. -/
inductive Preorder (next : α → List α) : List α → List α → List α → Prop
  | nil {seen : List α} : Preorder next seen [] []
  | skip {seen nodes order : List α} {node : α} :
      node ∈ seen → Preorder next seen nodes order → Preorder next seen (node :: nodes) order
  | visit {seen nodes below after : List α} {node : α} :
      node ∉ seen → Preorder next (node :: seen) (next node) below →
        Preorder next (below ++ node :: seen) nodes after →
        Preorder next seen (node :: nodes) (node :: (below ++ after))

section Preorder

variable {next : α → List α} {seen known nodes left right order other : List α}

theorem Preorder.congr (preorder : Preorder next seen nodes order)
    (same : ∀ node, node ∈ seen ↔ node ∈ known) : Preorder next known nodes order := by
  induction preorder generalizing known with
  | nil => exact .nil
  | skip again _ ih => exact .skip ((same _).mp again) (ih same)
  | visit fresh _ _ ihBelow ihAfter =>
      refine .visit (mt (same _).mpr fresh) (ihBelow ?_) (ihAfter ?_)
      · intro node
        rw [List.mem_cons, List.mem_cons, same]
      · intro node
        rw [List.mem_append, List.mem_append, List.mem_cons, List.mem_cons, same]

theorem Preorder.unique (preorder : Preorder next seen nodes order)
    (another : Preorder next seen nodes other) : other = order := by
  induction preorder generalizing other with
  | nil =>
      cases another
      rfl
  | skip again _ ih =>
      cases another with
      | skip _ rest => exact ih rest
      | visit fresh _ _ => exact absurd again fresh
  | visit fresh _ _ ihBelow ihAfter =>
      cases another with
      | skip again _ => exact absurd again fresh
      | visit _ below after =>
          cases ihBelow below
          cases ihAfter after
          rfl

theorem Preorder.append (preorder : Preorder next seen (left ++ right) order) :
    ∃ first last, order = first ++ last ∧ Preorder next seen left first ∧
      Preorder next (first ++ seen) right last := by
  induction left generalizing seen order with
  | nil => exact ⟨[], order, rfl, .nil, preorder⟩
  | cons node left ih =>
      cases preorder with
      | skip again rest =>
          obtain ⟨first, last, rfl, front, back⟩ := ih rest
          exact ⟨first, last, rfl, .skip again front, back⟩
      | visit fresh below rest =>
          rename_i lower after
          obtain ⟨first, last, rfl, front, back⟩ := ih rest
          refine ⟨node :: (lower ++ first), last, by simp, .visit fresh below front, back.congr ?_⟩
          intro other
          simp only [List.mem_append, List.mem_cons]
          grind

end Preorder

variable [DecidableEq α] {next : α → List α} {domain stack : List α} {node follower : α}

theorem mem_domain_of_mem_visit (visited : node ∈ visit next domain stack) : node ∈ domain := by
  fun_induction visit next domain stack with
  | case1 => cases visited
  | case2 domain top rest present ih =>
      rcases List.mem_cons.mp visited with rfl | later
      · exact present
      · exact (mem_without.mp (ih later)).1
  | case3 domain top rest absent ih => exact ih visited

theorem nodup_visit (next : α → List α) (domain stack : List α) :
    (visit next domain stack).Nodup := by
  fun_induction visit next domain stack with
  | case1 => exact List.nodup_nil
  | case2 domain top rest present ih =>
      refine List.nodup_cons.mpr ⟨?_, ih⟩
      intro again
      exact (mem_without.mp (mem_domain_of_mem_visit again)).2 rfl
  | case3 domain top rest absent ih => exact ih

theorem mem_visit_of_mem_stack (listed : node ∈ stack) (inside : node ∈ domain) :
    node ∈ visit next domain stack := by
  fun_induction visit next domain stack with
  | case1 => cases listed
  | case2 domain top rest present ih =>
      by_cases same : node = top
      · exact List.mem_cons.mpr (Or.inl same)
      · have later : node ∈ rest := (List.mem_cons.mp listed).resolve_left same
        refine List.mem_cons_of_mem _ (ih (List.mem_append_right _ later) ?_)
        exact mem_without.mpr ⟨inside, same⟩
  | case3 domain top rest absent ih =>
      rcases List.mem_cons.mp listed with rfl | later
      · exact absurd inside absent
      · exact ih later inside

theorem mem_visit_of_mem_next (visited : node ∈ visit next domain stack)
    (edge : follower ∈ next node) (inside : follower ∈ domain) :
    follower ∈ visit next domain stack := by
  fun_induction visit next domain stack with
  | case1 => cases visited
  | case2 domain top rest present ih =>
      by_cases same : follower = top
      · exact List.mem_cons.mpr (Or.inl same)
      · have left : follower ∈ without domain top := mem_without.mpr ⟨inside, same⟩
        apply List.mem_cons_of_mem
        rcases List.mem_cons.mp visited with rfl | later
        · exact mem_visit_of_mem_stack (List.mem_append_left _ edge) left
        · exact ih later left
  | case3 domain top rest absent ih => exact ih visited inside

theorem exists_reaches_of_mem_visit (visited : node ∈ visit next domain stack) :
    ∃ start ∈ stack, Reaches next start node := by
  fun_induction visit next domain stack with
  | case1 => cases visited
  | case2 domain top rest present ih =>
      rcases List.mem_cons.mp visited with rfl | later
      · exact ⟨node, List.mem_cons_self, .refl node⟩
      · obtain ⟨start, listed, path⟩ := ih later
        rcases List.mem_append.mp listed with edge | waiting
        · exact ⟨top, List.mem_cons_self, (Reaches.single edge).trans path⟩
        · exact ⟨start, List.mem_cons_of_mem _ waiting, path⟩
  | case3 domain top rest absent ih =>
      obtain ⟨start, listed, path⟩ := ih visited
      exact ⟨start, List.mem_cons_of_mem _ listed, path⟩

/-- If no edge starts outside the domain, the nodes visited are those of the domain that can be reached. -/
theorem mem_visit_iff (sources : ∀ node follower, follower ∈ next node → node ∈ domain) :
    node ∈ visit next domain stack ↔ node ∈ domain ∧ ∃ start ∈ stack, Reaches next start node := by
  constructor
  · intro visited
    exact ⟨mem_domain_of_mem_visit visited, exists_reaches_of_mem_visit visited⟩
  · rintro ⟨inside, start, listed, path⟩
    induction path with
    | refl => exact mem_visit_of_mem_stack listed inside
    | tail _ edge ih => exact mem_visit_of_mem_next (ih (sources _ _ edge)) edge inside

/-- A visit with a stack takes nodes in the order of recursion, if its domain has all that can follow. -/
theorem preorder_visit (closed : ∀ node, next node ⊆ domain) (inside : stack ⊆ domain)
    {left seen : List α} (unseen : ∀ node, node ∈ left ↔ node ∈ domain ∧ node ∉ seen) :
    Preorder next seen stack (visit next left stack) := by
  fun_induction visit next left stack generalizing seen with
  | case1 left => exact .nil
  | case2 left top rest present ih =>
      obtain ⟨-, fresh⟩ := (unseen top).mp present
      have onward : Preorder next (top :: seen) (next top ++ rest)
          (visit next (without left top) (next top ++ rest)) := by
        apply ih (List.append_subset.mpr ⟨closed top, (List.cons_subset.mp inside).2⟩)
        intro node
        rw [mem_without, unseen, List.mem_cons, not_or, and_assoc]
        exact and_congr_right' and_comm
      obtain ⟨below, after, split, lower, beside⟩ := onward.append
      rw [split]
      exact .visit fresh lower beside
  | case3 left top rest absent ih =>
      obtain ⟨here, others⟩ := List.cons_subset.mp inside
      have again : top ∈ seen :=
        Decidable.of_not_not fun fresh => absent ((unseen top).mpr ⟨here, fresh⟩)
      exact .skip again (ih others unseen)

end Shrinker.Collection.DepthFirst
