import Mathlib.Data.List.Sort
import Shrinker.Proofs.Program.Hierarchy

namespace Shrinker.Program

open Reference Collection

def attempt (program : Program) (definition : ClassDef) : Program :=
  (program.add definition).2

def assemble (interner : Interner) (calls : List ClassDef) : Program :=
  calls.foldl attempt (empty interner)

section Additions

variable {program : Program} {definition : ClassDef}

theorem attempt_of_fits (fits : program.Fits definition) :
    program.attempt definition = program.push definition := by
  rcases program.add_cases definition with ⟨-, added⟩ | ⟨unfit, -⟩
  · rw [attempt, added]
  · exact absurd fits unfit

theorem attempt_of_not_fits (unfit : ¬program.Fits definition) :
    program.attempt definition = program := by
  rcases program.add_cases definition with ⟨fits, -⟩ | ⟨-, error, refused⟩
  · exact absurd fits unfit
  · rw [attempt, refused]

theorem assemble_append (interner : Interner) (calls : List ClassDef) (definition : ClassDef) :
    assemble interner (calls ++ [definition]) = (assemble interner calls).attempt definition := by
  rw [assemble, List.foldl_append]
  rfl

theorem interner_assemble (interner : Interner) (calls : List ClassDef) :
    (assemble interner calls).interner = interner := by
  induction calls using List.reverseRecOn with
  | nil => rfl
  | append_singleton calls definition ih =>
      rw [assemble_append]
      exact ih

theorem toStore_assemble (interner : Interner) (calls : List ClassDef) :
    (assemble interner calls).toStore =
      calls.foldl (fun store definition => ((Store.add interner definition).run.run store).2)
        (empty interner).toStore := by
  induction calls using List.reverseRecOn with
  | nil => rfl
  | append_singleton calls definition ih =>
      rw [assemble_append, List.foldl_append, ← ih]
      change ((Store.add (assemble interner calls).interner definition).run.run _).2 = _
      rw [interner_assemble]
      rfl

theorem IsAssembled.attempt (assembled : program.IsAssembled) (definition : ClassDef) :
    (program.attempt definition).IsAssembled := by
  by_cases fits : program.Fits definition
  · rw [attempt_of_fits fits]
    exact .add assembled (addClass_eq_ok.mpr ⟨fits, rfl⟩)
  · rw [attempt_of_not_fits fits]
    exact assembled

theorem isAssembled_assemble (interner : Interner) (calls : List ClassDef) :
    (assemble interner calls).IsAssembled := by
  induction calls using List.reverseRecOn with
  | nil => exact .empty interner
  | append_singleton calls definition ih =>
      rw [assemble_append]
      exact ih.attempt definition

end Additions

namespace Hierarchy

section Targets

variable {edges : List (TypeId × TypeId)} {source parent child : TypeId}

theorem targets_append (left right : List (TypeId × TypeId)) (source : TypeId) :
    targets (left ++ right) source = targets left source ++ targets right source :=
  List.filterMap_append

theorem targets_singleton :
    targets [(parent, child)] source = if parent = source then [child] else [] := by
  by_cases same : parent = source <;> simp [targets, same]

theorem nodup_targets (nodup : edges.Nodup) : (targets edges source).Nodup := by
  refine nodup.filterMap ?_
  rintro ⟨start, target⟩ ⟨start', target'⟩ found first second
  simp only [Option.mem_def, Option.ite_none_right_eq_some, Option.some.injEq] at first second
  rw [first.1, first.2, second.1, second.2]

theorem targets_filter_of_ne (other : source ≠ parent) :
    targets (edges.filter (· != (parent, child))) source = targets edges source := by
  unfold targets
  rw [List.filterMap_filter]
  refine List.filterMap_congr fun edge _ => ?_
  grind

end Targets

section Subclasses

variable {hierarchy : Hierarchy} {definition : ClassDef} {type parent child : TypeId}

theorem subclasses_extend_of_ne (other : type ≠ parent) :
    (hierarchy.extend parent child).subclasses type = hierarchy.subclasses type := by
  unfold extend subclasses
  split
  · rfl
  · rw [targets_append, targets_singleton, if_neg (Ne.symm other), List.append_nil]

theorem subclasses_extend_of_new (new : (parent, child) ∉ hierarchy.extending) :
    (hierarchy.extend parent child).subclasses parent = hierarchy.subclasses parent ++ [child] := by
  unfold extend subclasses
  rw [if_neg new, targets_append, targets_singleton, if_pos rfl]

theorem nodup_extend (nodup : hierarchy.extending.Nodup) :
    (hierarchy.extend parent child).extending.Nodup := by
  unfold extend
  split
  · exact nodup
  · rename_i new
    exact List.nodup_append.mpr ⟨nodup, List.nodup_singleton _, by grind⟩

theorem nodup_addSuper (nodup : hierarchy.extending.Nodup) :
    (hierarchy.addSuper definition).extending.Nodup := by
  unfold addSuper
  split
  · dsimp only
    split
    · exact nodup_extend nodup
    · exact nodup_extend (nodup_extend nodup)
  · split
    · exact nodup
    · exact nodup_extend nodup

theorem nodup_detach (nodup : hierarchy.extending.Nodup) :
    (hierarchy.detach definition).extending.Nodup := by
  unfold detach
  split
  · split
    · exact nodup
    · exact nodup.filter _
  · exact nodup

theorem nodup_addClass (nodup : hierarchy.extending.Nodup) :
    (hierarchy.addClass definition).extending.Nodup := by
  have known : ({ hierarchy with defined := definition.type :: hierarchy.defined } :
      Hierarchy).extending.Nodup := nodup
  exact nodup_detach (nodup_addSuper known)

theorem subclasses_detach (other : type ≠ hierarchy.root) :
    (hierarchy.detach definition).subclasses type = hierarchy.subclasses type := by
  unfold detach
  split
  · split
    · rfl
    · exact targets_filter_of_ne other
  · rfl

theorem subclasses_addSuper (other : type ≠ hierarchy.root)
    (new : (type, definition.type) ∉ hierarchy.extending) :
    (hierarchy.addSuper definition).subclasses type = hierarchy.subclasses type ++
      if definition.super? = some type then [definition.type] else [] := by
  unfold addSuper
  cases named : definition.super? with
  | none =>
      simp only [reduceCtorEq, if_false, List.append_nil]
      split
      · rfl
      · exact subclasses_extend_of_ne other
  | some above =>
      -- the second edge, from the root to a superclass without definition, is not seen from here
      have linked : (hierarchy.extend above definition.type).subclasses type =
          hierarchy.subclasses type ++ if some above = some type then [definition.type] else [] := by
        by_cases same : above = type
        · subst same
          rw [subclasses_extend_of_new new, if_pos rfl]
        · rw [subclasses_extend_of_ne (Ne.symm same), if_neg (by simpa using same),
            List.append_nil]
      dsimp only
      split
      · exact linked
      · rw [subclasses_extend_of_ne other]
        exact linked

theorem subclasses_addClass (other : type ≠ hierarchy.root)
    (new : (type, definition.type) ∉ hierarchy.extending) :
    (hierarchy.addClass definition).subclasses type = hierarchy.subclasses type ++
      if definition.super? = some type then [definition.type] else [] := by
  let known := { hierarchy with defined := definition.type :: hierarchy.defined }
  have root : (known.addSuper definition).root = hierarchy.root := by
    obtain ⟨_, same⟩ := known.exists_addSuper definition
    rw [same]
  have detached : ((known.addSuper definition).detach definition).subclasses type =
      (known.addSuper definition).subclasses type :=
    subclasses_detach (by rwa [root])
  have added : (known.addSuper definition).subclasses type = known.subclasses type ++
      if definition.super? = some type then [definition.type] else [] :=
    subclasses_addSuper other new
  exact detached.trans added

theorem implementors_addClass :
    (hierarchy.addClass definition).implementors type = hierarchy.implementors type ++
      (definition.interfaces.filter (· = type)).map fun _ => definition.type := by
  obtain ⟨_, same⟩ := hierarchy.exists_addClass definition
  rw [same]
  refine (targets_append ..).trans (congrArg (hierarchy.implementors type ++ ·) ?_)
  induction definition.interfaces with
  | nil => rfl
  | cons interface interfaces ih =>
      rw [List.map_cons, ← List.singleton_append, targets_append, targets_singleton, ih]
      by_cases same : interface = type <;> simp [same]

end Subclasses

theorem pairwise_insert_ascending {type : TypeId} {types : List TypeId}
    (ascending : types.Pairwise fun left right => left.index < right.index) :
    (Ascending.insert TypeId.index type types).Pairwise
      fun left right => left.index < right.index := by
  fun_induction Ascending.insert TypeId.index type types with
  | case1 => exact List.pairwise_singleton ..
  | case2 head tail before =>
      refine List.pairwise_cons.mpr ⟨?_, ascending⟩
      intro other listed
      rcases List.mem_cons.mp listed with rfl | later
      · exact before
      · exact before.trans ((List.pairwise_cons.mp ascending).1 other later)
  | case3 head tail notBefore same => exact ascending
  | case4 head tail notBefore different ih =>
      obtain ⟨least, rest⟩ := List.pairwise_cons.mp ascending
      refine List.pairwise_cons.mpr ⟨?_, ih rest⟩
      intro other listed
      rcases mem_insert_ascending.mp listed with rfl | old
      · omega
      · exact least other old

theorem pairwise_interfaces_addClass {hierarchy : Hierarchy}
    (ascending : hierarchy.interfaces.Pairwise fun left right => left.index < right.index)
    (definition : ClassDef) :
    (hierarchy.addClass definition).interfaces.Pairwise
      fun left right => left.index < right.index := by
  obtain ⟨_, same⟩ := hierarchy.exists_addClass definition
  rw [same]
  unfold addInterfaces
  dsimp only
  split
  · exact pairwise_insert_ascending ascending
  · exact ascending

/-- The hierarchy is told by the classes. Only below the root does the order of the subclasses not follow
that of the classes. -/
structure IsExact (hierarchy : Hierarchy) (classes : List ClassDef) : Prop where
  subclasses : ∀ type, type ≠ hierarchy.root →
    hierarchy.subclasses type =
      (classes.filter (·.super? = some type)).map (·.type)
  nodup_root : (hierarchy.subclasses hierarchy.root).Nodup
  mem_root : ∀ type, type ∈ hierarchy.subclasses hierarchy.root ↔
    (∃ definition ∈ classes, definition.type = type ∧
      definition.super? = some hierarchy.root) ∨ Hangs hierarchy.root classes type
  implementors : ∀ type, hierarchy.implementors type =
    classes.flatMap fun definition =>
      (definition.interfaces.filter (· = type)).map fun _ => definition.type
  ascending : hierarchy.interfaces.Pairwise fun left right => left.index < right.index
  mem_interfaces : ∀ type, type ∈ hierarchy.interfaces ↔
    ∃ definition ∈ classes, definition.type = type ∧ definition.isInterface

section Exactness

variable {hierarchy other : Hierarchy} {classes : List ClassDef} {definition : ClassDef}

theorem mem_subclasses_root (describes : hierarchy.Describes classes) (type : TypeId) :
    type ∈ hierarchy.subclasses hierarchy.root ↔
      (∃ definition ∈ classes, definition.type = type ∧
        definition.super? = some hierarchy.root) ∨ Hangs hierarchy.root classes type := by
  rw [subclasses, mem_targets, describes.extending, and_iff_right rfl]

theorem notMem_extending_of_undefined (describes : hierarchy.Describes classes) {type : TypeId}
    (undefined : definition.type ∉ classes.map (·.type)) (other : type ≠ hierarchy.root) :
    (type, definition.type) ∉ hierarchy.extending := by
  rw [describes.extending]
  rintro (⟨declared, listed, same, -⟩ | ⟨isRoot, -⟩)
  · exact undefined (List.mem_map.mpr ⟨declared, listed, same⟩)
  · exact other isRoot

theorem IsExact.perm (exact : hierarchy.IsExact classes) {others : List ClassDef}
    (exactOther : other.IsExact others) (sameRoot : other.root = hierarchy.root)
    (perm : others.Perm classes) :
    (∀ type, (other.subclasses type).Perm (hierarchy.subclasses type)) ∧
      (∀ type, (other.implementors type).Perm (hierarchy.implementors type)) ∧
      other.interfaces = hierarchy.interfaces := by
  refine ⟨?_, ?_, ?_⟩
  · intro type
    by_cases isRoot : type = hierarchy.root
    -- below the root only the members are known, elsewhere also their order
    · subst isRoot
      have nodup := exactOther.nodup_root
      have members := exactOther.mem_root
      rw [sameRoot] at nodup members
      rw [List.perm_ext_iff_of_nodup nodup exact.nodup_root]
      intro type
      simp only [members, exact.mem_root, Hangs, perm.mem_iff, (perm.map ClassDef.type).mem_iff]
    · rw [exactOther.subclasses type (by rwa [sameRoot]), exact.subclasses type isRoot]
      exact (perm.filter _).map _
  · intro type
    rw [exactOther.implementors, exact.implementors]
    exact perm.flatMap_right _
  · have same (type : TypeId) : type ∈ other.interfaces ↔ type ∈ hierarchy.interfaces := by
      simp only [exactOther.mem_interfaces, exact.mem_interfaces, perm.mem_iff]
    have irrefl : Std.Irrefl fun left right : TypeId => left.index < right.index :=
      ⟨fun _ => Nat.lt_irrefl _⟩
    have antisymm : Std.Antisymm fun left right : TypeId => left.index < right.index :=
      ⟨fun _ _ before after => absurd after before.asymm⟩
    exact exactOther.ascending.eq_of_mem_iff exact.ascending same

end Exactness

end Hierarchy

section Assembled

variable {program : Program} {type : TypeId}

theorem IsAssembled.nodup_extending (assembled : program.IsAssembled) :
    program.hierarchy.extending.Nodup := by
  induction assembled with
  | empty interner => exact List.nodup_nil
  | refer interner _ ih => exact ih
  | add _ success ih =>
      obtain ⟨-, rfl⟩ := addClass_eq_ok.mp success
      exact Hierarchy.nodup_addClass ih

theorem IsAssembled.subclasses_eq (assembled : program.IsAssembled)
    (other : type ≠ program.hierarchy.root) :
    program.hierarchy.subclasses type =
      (program.classes.filter (·.super? = some type)).map (·.type) := by
  induction assembled with
  | empty interner => rfl
  | refer interner _ ih => exact ih other
  | @add program added definition before success ih =>
      obtain ⟨fits, rfl⟩ := addClass_eq_ok.mp success
      have other : type ≠ program.hierarchy.root := by
        rwa [Hierarchy.root_addClass] at other
      have new := Hierarchy.notMem_extending_of_undefined before.describes fits.undefined other
      rw [Hierarchy.subclasses_addClass other new, ih other, List.filter_append, List.map_append]
      by_cases named : definition.super? = some type <;> simp [named]

theorem IsAssembled.implementors_eq (assembled : program.IsAssembled) (type : TypeId) :
    program.hierarchy.implementors type = program.classes.flatMap fun definition =>
      (definition.interfaces.filter (· = type)).map fun _ => definition.type := by
  induction assembled with
  | empty interner => rfl
  | refer interner _ ih => exact ih
  | add _ success ih =>
      obtain ⟨-, rfl⟩ := addClass_eq_ok.mp success
      rw [Hierarchy.implementors_addClass, ih, List.flatMap_append, List.flatMap_singleton]

theorem IsAssembled.pairwise_interfaces (assembled : program.IsAssembled) :
    program.hierarchy.interfaces.Pairwise fun left right => left.index < right.index := by
  induction assembled with
  | empty interner => exact List.Pairwise.nil
  | refer interner _ ih => exact ih
  | add _ success ih =>
      obtain ⟨-, rfl⟩ := addClass_eq_ok.mp success
      exact Hierarchy.pairwise_interfaces_addClass ih _

theorem IsAssembled.isExact (assembled : program.IsAssembled) :
    program.hierarchy.IsExact program.classes where
  subclasses _ other := assembled.subclasses_eq other
  nodup_root := Hierarchy.nodup_targets assembled.nodup_extending
  mem_root := Hierarchy.mem_subclasses_root assembled.describes
  implementors := assembled.implementors_eq
  ascending := assembled.pairwise_interfaces
  mem_interfaces := assembled.describes.interfaces

end Assembled

/-- Whatever classes are added one after the other, in place, a program takes a class exactly if it fits, at
the end of its classes, and else stays what it was. The index leads from a type to the one place of its class,
and members of a class are told apart. The hierarchy is told by the classes, so that another order of the same
classes changes nothing but the order in its lists. -/
theorem assemble_exactly (interner : Interner) (calls : List ClassDef) :
    (assemble interner calls).toStore =
      calls.foldl (fun store definition => ((Store.add interner definition).run.run store).2)
        (empty interner).toStore ∧
    (∀ definition,
      (assemble interner calls).Fits definition ∧
        (assemble interner calls).add definition =
          (.ok (), assemble interner (calls ++ [definition])) ∧
        (assemble interner (calls ++ [definition])).classes =
          (assemble interner calls).classes ++ [definition] ∨
      ¬ (assemble interner calls).Fits definition ∧
        ∃ error, (assemble interner calls).add definition =
          (.error error, assemble interner calls)) ∧
    (assemble interner calls).IsDistinct ∧
    (∀ type place, (assemble interner calls).index.lookup type = some place ↔
      ∃ definition, (assemble interner calls).classes[place]? = some definition ∧
        definition.type = type) ∧
    (∀ type definition, (assemble interner calls).definition? type = some definition ↔
      definition ∈ (assemble interner calls).classes ∧ definition.type = type) ∧
    (assemble interner calls).hierarchy.root = .object ∧
    (assemble interner calls).hierarchy.IsExact (assemble interner calls).classes ∧
    ∀ others, (assemble interner others).classes.Perm (assemble interner calls).classes →
      (∀ type, ((assemble interner others).hierarchy.subclasses type).Perm
        ((assemble interner calls).hierarchy.subclasses type)) ∧
      (∀ type, ((assemble interner others).hierarchy.implementors type).Perm
        ((assemble interner calls).hierarchy.implementors type)) ∧
      (assemble interner others).hierarchy.interfaces =
        (assemble interner calls).hierarchy.interfaces := by
  have assembled := isAssembled_assemble interner calls
  refine ⟨toStore_assemble interner calls, ?_, assembled.isDistinct, ?_, ?_, assembled.root_eq,
    assembled.isExact, ?_⟩
  · intro definition
    rw [assemble_append]
    rcases (assemble interner calls).add_cases definition with ⟨fits, added⟩ | refused
    · rw [attempt, added]
      exact Or.inl ⟨fits, rfl, rfl⟩
    · exact Or.inr refused
  · intro type place
    exact assembled.isDistinct.lookup_index_eq_some
  · intro type definition
    exact assembled.isDistinct.definition?_eq_some
  · intro others perm
    have assembledOther := isAssembled_assemble interner others
    exact assembled.isExact.perm assembledOther.isExact
      (assembledOther.root_eq.trans assembled.root_eq.symm) perm

namespace Orders

/-- Below a class that may be added later. -/
def main : ClassDef where
  type := ⟨5⟩
  origin := .program
  super? := some ⟨6⟩

/-- Below a class that is never defined. -/
def middle : ClassDef where
  type := ⟨6⟩
  origin := .program
  super? := some ⟨7⟩
  interfaces := [⟨8⟩, ⟨8⟩]

def shape : ClassDef where
  type := ⟨8⟩
  origin := .library
  access := { isInterface := true }

end Orders

open Orders in
/-- The class in the middle hangs below the root until it is defined, and a second definition of it is
refused. Added from the top down, the same classes make the same hierarchy. -/
theorem assemble_exactly_rearranged :
    (assemble .standard [main, middle, middle, shape]).classes = [main, middle, shape] ∧
      (assemble .standard [shape, middle, main]).classes.Perm
        (assemble .standard [main, middle, middle, shape]).classes ∧
      (assemble .standard [main]).hierarchy.subclasses .object = [⟨6⟩] ∧
      (assemble .standard [main, middle, middle, shape]).hierarchy.subclasses .object =
        [⟨7⟩, ⟨8⟩] ∧
      (assemble .standard [shape, middle, main]).hierarchy.subclasses .object = [⟨8⟩, ⟨7⟩] ∧
      (∀ type, ((assemble .standard [shape, middle, main]).hierarchy.subclasses type).Perm
        ((assemble .standard [main, middle, middle, shape]).hierarchy.subclasses type)) := by
  have perm : (assemble .standard [shape, middle, main]).classes.Perm
      (assemble .standard [main, middle, middle, shape]).classes :=
    List.reverse_perm [main, middle, shape]
  obtain ⟨-, -, -, -, -, -, -, independent⟩ :=
    assemble_exactly .standard [main, middle, middle, shape]
  exact ⟨rfl, perm, rfl, rfl, rfl, (independent [shape, middle, main] perm).1⟩

end Shrinker.Program
