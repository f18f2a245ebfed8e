import Mathlib.Data.List.Perm.Subperm
import Shrinker.Proofs.Collection.DepthFirst

/-!
Searches along a depth-first visit. The loop that takes nodes from a stack and remembers those it has seen
ends on every finite graph, with what comes first on the visit. Where no cycle leads back to a node, that
is also what recursion finds: a node that is passed over the second time has nothing to offer.
-/
namespace Shrinker.Collection.DepthFirst

variable {α β : Type}

/-- The runs that end of a search loop: nodes seen before, the stack, the outcome. The loop passes over a
node that it has seen, stops where `probe` has an answer, and else puts what follows the node on the stack. -/
inductive Search (next : α → List α) (probe : α → Option β) : List α → List α → Option β → Prop
  | exhausted {seen : List α} : Search next probe seen [] none
  | again {seen rest : List α} {top : α} {outcome : Option β} :
      top ∈ seen → Search next probe seen rest outcome →
        Search next probe seen (top :: rest) outcome
  | found {seen rest : List α} {top : α} {answer : β} :
      top ∉ seen → probe top = some answer → Search next probe seen (top :: rest) (some answer)
  | onward {seen rest : List α} {top : α} {outcome : Option β} :
      top ∉ seen → probe top = none → Search next probe (top :: seen) (next top ++ rest) outcome →
        Search next probe seen (top :: rest) outcome

variable [DecidableEq α] {next : α → List α} {probe : α → Option β} {domain other stack : List α}
  {node start : α}

section Loop

theorem search_of_visit (outside : ∀ node, node ∉ domain → probe node = none ∧ next node = [])
    {left seen : List α} (unseen : ∀ node, node ∈ left ↔ node ∈ domain ∧ node ∉ seen) :
    Search next probe seen stack ((visit next left stack).findSome? probe) := by
  fun_induction visit next left stack generalizing seen with
  | case1 left => exact .exhausted
  | case2 left top rest present ih =>
      obtain ⟨-, fresh⟩ := (unseen top).mp present
      rw [List.findSome?_cons]
      cases answer : probe top with
      | some value => exact .found fresh answer
      | none =>
          refine .onward fresh answer (ih fun node => ?_)
          rw [mem_without, unseen, List.mem_cons, not_or, and_assoc]
          exact and_congr_right' and_comm
  | case3 left top rest absent ih =>
      by_cases known : top ∈ seen
      · exact .again known (ih unseen)
      · have beyond : top ∉ domain := fun inside => absent ((unseen top).mpr ⟨inside, known⟩)
        obtain ⟨barren, final⟩ := outside top beyond
        refine .onward known barren ?_
        rw [final, List.nil_append]
        refine ih fun node => ?_
        rw [unseen, List.mem_cons, not_or]
        refine and_congr_right fun inside => (and_iff_right ?_).symm
        rintro rfl
        exact beyond inside

theorem search_visit (outside : ∀ node, node ∉ domain → probe node = none ∧ next node = [])
    (stack : List α) :
    Search next probe [] stack ((visit next domain stack).findSome? probe) :=
  search_of_visit outside fun _ => by simp

end Loop

section Order

theorem visit_congr
    (agree : ∀ start ∈ stack, ∀ node, Reaches next start node → (node ∈ domain ↔ node ∈ other)) :
    visit next domain stack = visit next other stack := by
  fun_induction visit next domain stack generalizing other with
  | case1 domain => rw [visit]
  | case2 domain top rest present ih =>
      have alsoPresent := (agree top List.mem_cons_self top (.refl top)).mp present
      rw [visit, if_pos alsoPresent]
      congr 1
      refine ih fun start listed node path => ?_
      have same : node ∈ domain ↔ node ∈ other := by
        rcases List.mem_append.mp listed with edge | waiting
        · exact agree top List.mem_cons_self node ((Reaches.single edge).trans path)
        · exact agree start (List.mem_cons_of_mem _ waiting) node path
      rw [mem_without, mem_without, same]
  | case3 domain top rest absent ih =>
      have same := agree top List.mem_cons_self top (.refl top)
      rw [visit, if_neg (mt same.mpr absent)]
      exact ih fun start listed => agree start (List.mem_cons_of_mem _ listed)

theorem prefix_visit_append (next : α → List α) (domain stack below : List α) :
    visit next domain stack <+: visit next domain (stack ++ below) := by
  fun_induction visit next domain stack with
  | case1 domain => exact List.nil_prefix
  | case2 domain top rest present ih =>
      rw [List.cons_append, visit, if_pos present, ← List.append_assoc]
      exact (List.prefix_cons_inj top).mpr ih
  | case3 domain top rest absent ih =>
      rw [List.cons_append, visit, if_neg absent]
      exact ih

theorem visit_append_of_outside {above : List α} (outside : ∀ node ∈ above, node ∉ domain) :
    visit next domain (above ++ stack) = visit next domain stack := by
  induction above with
  | nil => rfl
  | cons top above ih =>
      obtain ⟨absent, others⟩ := List.forall_mem_cons.mp outside
      rw [List.cons_append, visit, if_neg absent, ih others]

/-- A visit that leaves out nodes from which none of the others can be reached takes these in the same
order. -/
theorem filter_visit (kept : α → Bool)
    (closed : ∀ node, kept node = false → ∀ follower ∈ next node, kept follower = false)
    (domain stack : List α) :
    (visit next domain stack).filter kept = visit next (domain.filter kept) stack := by
  fun_induction visit next domain stack with
  | case1 domain => rw [visit, List.filter_nil]
  | case2 domain top rest present ih =>
      rw [List.filter_cons]
      cases keeps : kept top with
      | true =>
          rw [if_pos rfl, ih, visit.eq_def next (domain.filter kept) (top :: rest)]
          simp only [List.mem_filter, present, keeps, and_self, if_true]
          congr 1
          refine visit_congr fun start listed node path => ?_
          simp only [List.mem_filter, mem_without]
          exact and_right_comm
      | false =>
          have left : ∀ node ∈ next top, node ∉ domain.filter kept := by
            intro node edge inside
            simp [closed top keeps node edge] at inside
          rw [if_neg (by simp), ih, visit.eq_def next (domain.filter kept) (top :: rest)]
          simp only [List.mem_filter, keeps, Bool.false_eq_true, and_false, if_false]
          rw [← visit_append_of_outside left]
          refine visit_congr fun start listed node path => ?_
          simp only [List.mem_filter, mem_without]
          refine and_congr_left fun kept => and_iff_left ?_
          rintro rfl
          rw [keeps] at kept
          cases kept
  | case3 domain top rest absent ih =>
      rw [ih, visit.eq_def next (domain.filter kept) (top :: rest)]
      simp only [List.mem_filter, absent, false_and, if_false]

theorem exists_before_of_visit {before after : List α}
    (visited : visit next domain stack = before ++ node :: after) :
    node ∈ stack ∨ ∃ earlier ∈ before, node ∈ next earlier := by
  fun_induction visit next domain stack generalizing before with
  | case1 domain => simp at visited
  | case2 domain top rest present ih =>
      cases before with
      | nil =>
          obtain ⟨rfl, -⟩ := List.cons.inj visited
          exact Or.inl List.mem_cons_self
      | cons first before =>
          obtain ⟨rfl, others⟩ := List.cons.inj visited
          rcases ih others with listed | ⟨earlier, passed, edge⟩
          · rcases List.mem_append.mp listed with edge | waiting
            · exact Or.inr ⟨top, List.mem_cons_self, edge⟩
            · exact Or.inl (List.mem_cons_of_mem _ waiting)
          · exact Or.inr ⟨earlier, List.mem_cons_of_mem _ passed, edge⟩
  | case3 domain top rest absent ih =>
      exact (ih visited).imp_left (List.mem_cons_of_mem _)

/-- A node that is visited before one that leads to it is owed to a name given aside: something above the
later node stands in the stack, or follows a node that the later one does not lead to. -/
theorem exists_aside_of_visit {lower upper : α} {before after : List α}
    (visited : visit next domain stack = before ++ upper :: after) (late : lower ∉ before)
    (apart : lower ≠ upper) (path : Reaches next lower upper) :
    ∃ named, lower ≠ named ∧ Reaches next lower named ∧
      (named ∈ stack ∨ ∃ aside ∈ visit next domain stack,
        ¬Reaches next lower aside ∧ named ∈ next aside) := by
  classical
  -- the first node of the visit that lies above the later one
  let isAbove (node : α) : Bool := lower ≠ node ∧ Reaches next lower node
  have present : ((before ++ [upper]).find? isAbove).isSome :=
    List.find?_isSome.mpr ⟨upper, by simp, by simp [isAbove, apart, path]⟩
  obtain ⟨named, found⟩ := Option.isSome_iff_exists.mp present
  obtain ⟨above, earlier, later, split, others⟩ := List.find?_eq_some_iff_append.mp found
  obtain ⟨different, leads⟩ : lower ≠ named ∧ Reaches next lower named := by
    simpa [isAbove] using above
  have whole : visit next domain stack = earlier ++ named :: (later ++ after) := by
    rw [visited, ← List.singleton_append, ← List.append_assoc, split]
    simp
  refine ⟨named, different, leads, (exists_before_of_visit whole).imp_right ?_⟩
  rintro ⟨aside, passed, edge⟩
  refine ⟨aside, whole ▸ List.mem_append_left _ passed, ?_, edge⟩
  intro back
  have listed : aside ∈ before ++ [upper] := split ▸ List.mem_append_left _ passed
  have distinct : lower ≠ aside := by
    rintro rfl
    rcases List.mem_append.mp listed with early | last
    · exact late early
    · exact apart (List.mem_singleton.mp last)
  have notAbove := others aside passed
  simp [isAbove, distinct, back] at notAbove

end Order

section Recursion

theorem findSome?_visit_eq_none_iff
    (sources : ∀ node follower, follower ∈ next node → node ∈ domain) :
    (visit next domain stack).findSome? probe = none ↔
      ∀ start ∈ stack, ∀ node ∈ domain, Reaches next start node → probe node = none := by
  simp only [List.findSome?_eq_none_iff, mem_visit_iff sources]
  constructor
  · intro barren start listed node inside path
    exact barren node ⟨inside, start, listed, path⟩
  · rintro barren node ⟨inside, start, listed, path⟩
    exact barren start listed node inside path

omit [DecidableEq α] in
theorem findSome?_filter {kept : α → Bool} {nodes : List α}
    (barren : ∀ node ∈ nodes, kept node = false → probe node = none) :
    (nodes.filter kept).findSome? probe = nodes.findSome? probe := by
  induction nodes with
  | nil => rfl
  | cons first nodes ih =>
      obtain ⟨here, others⟩ := List.forall_mem_cons.mp barren
      rw [List.filter_cons, List.findSome?_cons, ← ih others]
      cases keeps : kept first with
      | true => rw [if_pos rfl, List.findSome?_cons]
      | false => rw [if_neg (by simp), here keeps]

theorem findSome?_visit_cons_of_barren
    (sources : ∀ node follower, follower ∈ next node → node ∈ domain)
    (barren : (visit next domain [start]).findSome? probe = none) :
    (visit next domain (start :: stack)).findSome? probe =
      (visit next domain stack).findSome? probe := by
  -- nodes that lead to an answer: nothing else leads to one of them
  let fruitful (node : α) : Bool := ((visit next domain [node]).findSome? probe).isSome
  have isBarren (node : α) : fruitful node = false ↔
      ∀ follower ∈ domain, Reaches next node follower → probe follower = none := by
    simp only [fruitful, Option.isSome_eq_false_iff, Option.isNone_iff_eq_none,
      findSome?_visit_eq_none_iff sources, List.mem_singleton, forall_eq]
  have closed : ∀ node, fruitful node = false → ∀ follower ∈ next node, fruitful follower = false := by
    intro node none follower edge
    rw [isBarren] at none ⊢
    exact fun last inside path => none last inside ((Reaches.single edge).trans path)
  have silent (nodes : List α) : ∀ node ∈ visit next domain nodes, fruitful node = false →
      probe node = none := by
    intro node visited none
    exact (isBarren node).mp none node (mem_domain_of_mem_visit visited) (.refl node)
  have skipped : start ∉ domain.filter fruitful := by
    simp only [List.mem_filter, fruitful, barren, Option.isSome_none, Bool.false_eq_true, and_false,
      not_false_eq_true]
  rw [← findSome?_filter (silent (start :: stack)), ← findSome?_filter (silent stack),
    filter_visit fruitful closed, filter_visit fruitful closed, visit, if_neg skipped]

theorem findSome?_visit (sources : ∀ node follower, follower ∈ next node → node ∈ domain)
    (stack : List α) :
    (visit next domain stack).findSome? probe =
      stack.findSome? fun start => (visit next domain [start]).findSome? probe := by
  induction stack with
  | nil => rw [visit]; rfl
  | cons start stack ih =>
      rw [List.findSome?_cons]
      cases first : (visit next domain [start]).findSome? probe with
      | none => rw [findSome?_visit_cons_of_barren sources first, ih]
      | some answer =>
          obtain ⟨more, whole⟩ := prefix_visit_append next domain [start] stack
          rw [List.singleton_append] at whole
          rw [← whole, List.findSome?_append, first, Option.some_or]

/-- The equation of the search by recursion. Without a way back to the node the nodes that follow it are
searched as if it had not been visited. -/
theorem findSome?_visit_singleton
    (sources : ∀ node follower, follower ∈ next node → node ∈ domain) (inside : node ∈ domain)
    (acyclic : ∀ follower ∈ next node, ¬Reaches next follower node) :
    (visit next domain [node]).findSome? probe =
      (probe node).or ((next node).findSome? fun follower =>
        (visit next domain [follower]).findSome? probe) := by
  have unaffected : visit next (without domain node) (next node) = visit next domain (next node) := by
    refine visit_congr fun start edge other path => ?_
    rw [mem_without]
    refine and_iff_left ?_
    rintro rfl
    exact acyclic start edge path
  rw [visit, if_pos inside, List.append_nil, unaffected, List.findSome?_cons,
    ← findSome?_visit sources]
  cases probe node <;> rfl

theorem length_visit_lt (sources : ∀ node follower, follower ∈ next node → node ∈ domain)
    {follower : α} (edge : follower ∈ next node) (acyclic : ¬Reaches next follower node) :
    (visit next domain [follower]).length < (visit next domain [node]).length := by
  have within : node :: visit next domain [follower] ⊆ visit next domain [node] := by
    intro other listed
    simp only [List.mem_cons, mem_visit_iff sources, List.not_mem_nil, or_false, exists_eq_left]
      at listed ⊢
    rcases listed with rfl | ⟨inside, path⟩
    · exact ⟨sources other follower edge, .refl other⟩
    · exact ⟨inside, (Reaches.single edge).trans path⟩
  have apart : (node :: visit next domain [follower]).Nodup := by
    refine List.nodup_cons.mpr ⟨fun visited => acyclic ?_, nodup_visit next domain [follower]⟩
    obtain ⟨start, listed, path⟩ := exists_reaches_of_mem_visit visited
    exact List.mem_singleton.mp listed ▸ path
  exact (apart.subperm within).length_le

end Recursion

end Shrinker.Collection.DepthFirst
