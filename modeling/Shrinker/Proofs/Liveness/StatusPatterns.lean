import Mathlib.Data.List.Chain
import Shrinker.Proofs.Liveness.StatusScan
import Shrinker.Proofs.Reference.Canonical

namespace Shrinker.Liveness.Assertions

open Bytecode Reference Program

def IsMark (piece : List StackInstruction) : Prop :=
  ∃ instruction, instruction.kind ∈ [.label, .frame, .position] ∧ piece = [instruction]

def IsProbe (piece : List StackInstruction) : Prop :=
  piece.map (·.kind) = [.load, .const, .const, .arrayStore]

/-- Markers and probes in any order, without two probes in a row. -/
def IsGap (gap : List StackInstruction) : Prop :=
  ∃ pieces : List (List StackInstruction), gap = pieces.flatten ∧
    (∀ piece ∈ pieces, IsMark piece ∨ IsProbe piece) ∧
    pieces.IsChain fun left right => ¬(IsProbe left ∧ IsProbe right)

def IsShuffle (gap : List StackInstruction) : Prop :=
  ∀ instruction ∈ gap, instruction.kind = .load ∨ instruction.kind = .store

/-- The code begins with instructions of these kinds, each behind a gap. The last one writes the field. -/
inductive Begins (Gap : List StackInstruction → Prop) (field : FieldId) :
    List StackKind → List StackInstruction → Prop
  | last {gap rest : List StackInstruction} (spaced : Gap gap) :
      Begins Gap field [.staticPut] (gap ++ .staticPut field :: rest)
  | next {gap rest : List StackInstruction} {instruction : StackInstruction}
      {kinds : List StackKind} (spaced : Gap gap) (behind : Begins Gap field kinds rest) :
      Begins Gap field (instruction.kind :: kinds) (gap ++ instruction :: rest)

section Patterns

variable {Gap : List StackInstruction → Prop} {field : FieldId} {kind : StackKind}
  {kinds pattern : List StackKind} {code gap : List StackInstruction}
  {match? : List StackKind → List StackInstruction → Option FieldId}

theorem putField?_eq_some_iff {instruction : StackInstruction} :
    instruction.putField? = some field ↔ instruction = .staticPut field := by
  cases instruction <;> simp [StackInstruction.putField?]

theorem Begins.pattern_ne_nil (begins : Begins Gap field pattern code) : pattern ≠ [] := by
  cases begins <;> exact List.cons_ne_nil _ _

def Passes (Gap : List StackInstruction → Prop)
    (match? : List StackKind → List StackInstruction → Option FieldId) (kind : StackKind) : Prop :=
  ∀ kinds code field, match? (kind :: kinds) code = some field ↔
    ∃ gap instruction rest, code = gap ++ instruction :: rest ∧ Gap gap ∧
      instruction.kind = kind ∧
      (if kinds = [] then instruction.putField? else match? kinds rest) = some field

theorem begins_iff_of_passes (nonempty : pattern ≠ [])
    (passes : ∀ kind ∈ pattern, Passes Gap match? kind) :
    match? pattern code = some field ↔ Begins Gap field pattern code := by
  induction pattern generalizing code with
  | nil => exact absurd rfl nonempty
  | cons kind kinds ih =>
      rw [passes kind List.mem_cons_self]
      have behind := fun kind member => passes kind (List.mem_cons_of_mem _ member)
      constructor
      · rintro ⟨gap, instruction, rest, rfl, spaced, rfl, found⟩
        split at found
        · rename_i last
          cases putField?_eq_some_iff.mp found
          subst last
          exact .last spaced
        · rename_i more
          exact .next spaced ((ih more behind).mp found)
      · intro begins
        cases begins with
        | last spaced => exact ⟨_, _, _, rfl, spaced, rfl, rfl⟩
        | next spaced later =>
            refine ⟨_, _, _, rfl, spaced, rfl, ?_⟩
            rw [if_neg later.pattern_ne_nil]
            exact (ih later.pattern_ne_nil behind).mpr later

end Patterns

theorem passes_optimizedField? {kind : StackKind} (solid : kind ≠ .load ∧ kind ≠ .store) :
    Passes IsShuffle optimizedField? kind := by
  intro kinds code field
  induction code with
  | nil => simp [optimizedField?]
  | cons first code ih =>
      rw [optimizedField?]
      split
      · rename_i moves
        rw [ih]
        constructor
        · rintro ⟨gap, instruction, rest, rfl, spaced, matched, found⟩
          exact ⟨first :: gap, instruction, rest, rfl, List.forall_mem_cons.mpr ⟨moves, spaced⟩,
            matched, found⟩
        · rintro ⟨gap, instruction, rest, same, spaced, matched, found⟩
          cases gap with
          | nil =>
              cases same
              rw [matched] at moves
              exact absurd moves (not_or.mpr solid)
          | cons _ gap =>
              cases same
              exact ⟨gap, instruction, rest, rfl, (List.forall_mem_cons.mp spaced).2, matched, found⟩
      · rename_i stays
        have direct : (∃ gap instruction rest, first :: code = gap ++ instruction :: rest ∧
            IsShuffle gap ∧ instruction.kind = kind ∧
            (if kinds = [] then instruction.putField? else optimizedField? kinds rest) =
              some field) ↔
            first.kind = kind ∧
              (if kinds = [] then first.putField? else optimizedField? kinds code) =
                some field := by
          constructor
          · rintro ⟨gap, instruction, rest, same, spaced, found⟩
            cases gap with
            | nil =>
                cases same
                exact found
            | cons _ gap =>
                cases same
                exact absurd (List.forall_mem_cons.mp spaced).1 stays
          · intro found
            exact ⟨[], first, code, rfl, List.forall_mem_nil _, found⟩
        rw [direct]
        split
        · rename_i matched
          rw [and_iff_right matched]
        · rename_i other
          simp [other]

/-- Gaps by what may come first: a probe only if none stands right before. -/
inductive GapFrom : Bool → List StackInstruction → Prop
  | done {mayProbe : Bool} : GapFrom mayProbe []
  | marker {mayProbe : Bool} {instruction : StackInstruction} {gap : List StackInstruction}
      (marks : instruction.isMarker) (behind : GapFrom true gap) :
      GapFrom mayProbe (instruction :: gap)
  | probe {piece gap : List StackInstruction} (probes : IsProbe piece)
      (behind : GapFrom false gap) : GapFrom true (piece ++ gap)

theorem isMarker_iff {instruction : StackInstruction} :
    instruction.isMarker ↔ instruction.kind ∈ [.label, .frame, .position] := by
  unfold StackInstruction.isMarker
  cases instruction.kind <;> decide

theorem GapFrom.exists_pieces {mayProbe : Bool} {gap : List StackInstruction}
    (spaced : GapFrom mayProbe gap) :
    ∃ pieces : List (List StackInstruction), gap = pieces.flatten ∧
      (∀ piece ∈ pieces, IsMark piece ∨ IsProbe piece) ∧
      pieces.IsChain (fun left right => ¬(IsProbe left ∧ IsProbe right)) ∧
      (mayProbe = false → ∀ piece ∈ pieces.head?, ¬IsProbe piece) := by
  induction spaced with
  | done => exact ⟨[], rfl, List.forall_mem_nil _, .nil, by simp⟩
  | @marker _ instruction _ marks _ ih =>
      obtain ⟨pieces, rfl, each, chain, -⟩ := ih
      have single : ¬IsProbe [instruction] := by simp [IsProbe]
      refine ⟨[instruction] :: pieces, rfl, ?_, ?_, ?_⟩
      · exact List.forall_mem_cons.mpr ⟨Or.inl ⟨instruction, isMarker_iff.mp marks, rfl⟩, each⟩
      · exact List.isChain_cons.mpr ⟨fun _ _ both => single both.1, chain⟩
      · intro _ piece head
        cases head
        exact single
  | @probe piece _ probes _ ih =>
      obtain ⟨pieces, rfl, each, chain, unprobed⟩ := ih
      refine ⟨piece :: pieces, rfl, List.forall_mem_cons.mpr ⟨Or.inr probes, each⟩, ?_, nofun⟩
      exact List.isChain_cons.mpr ⟨fun next head both => unprobed rfl next head both.2, chain⟩

theorem gapFrom_flatten {mayProbe : Bool} {pieces : List (List StackInstruction)}
    (each : ∀ piece ∈ pieces, IsMark piece ∨ IsProbe piece)
    (chain : pieces.IsChain fun left right => ¬(IsProbe left ∧ IsProbe right))
    (unprobed : mayProbe = false → ∀ piece ∈ pieces.head?, ¬IsProbe piece) :
    GapFrom mayProbe pieces.flatten := by
  induction pieces generalizing mayProbe with
  | nil => exact .done
  | cons piece pieces ih =>
      obtain ⟨first, others⟩ := List.forall_mem_cons.mp each
      obtain ⟨links, rest⟩ := List.isChain_cons.mp chain
      rcases first with ⟨instruction, marks, rfl⟩ | probes
      · exact .marker (isMarker_iff.mpr marks) (ih others rest nofun)
      · cases mayProbe with
        | false => exact absurd probes (unprobed rfl piece rfl)
        | true =>
            refine .probe probes (ih others rest ?_)
            exact fun _ next head second => links next head ⟨probes, second⟩

theorem isGap_iff {gap : List StackInstruction} : IsGap gap ↔ GapFrom true gap := by
  constructor
  · rintro ⟨pieces, rfl, each, chain⟩
    exact gapFrom_flatten each chain nofun
  · intro spaced
    obtain ⟨pieces, same, each, chain, -⟩ := spaced.exists_pieces
    exact ⟨pieces, same, each, chain⟩

def IsSolid (kind : StackKind) : Prop :=
  kind ∉ [.load, .label, .frame, .position]

section Compiled

variable {kind : StackKind} {kinds : List StackKind} {mayProbe : Bool} {field : FieldId}
  {gap rest code : List StackInstruction} {instruction : StackInstruction}

theorem startsWithProbe_iff :
    startsWithProbe code ↔ ∃ piece rest, code = piece ++ rest ∧ IsProbe piece := by
  rw [startsWithProbe, beq_iff_eq]
  constructor
  · intro starts
    exact ⟨code.take 4, code.drop 4, (List.take_append_drop 4 code).symm, starts⟩
  · rintro ⟨piece, rest, rfl, probes⟩
    have length : piece.length = 4 := by
      rw [← List.length_map, probes]
      rfl
    rw [← length, List.take_left, probes]
    rfl

theorem IsProbe.exists_cons {piece : List StackInstruction} (probes : IsProbe piece) :
    ∃ first others, piece = first :: others ∧ first.kind = .load ∧ others.length = 3 := by
  obtain ⟨first, others, rfl, isLoad, rest⟩ := List.map_eq_cons_iff.mp probes
  refine ⟨first, others, rfl, isLoad, ?_⟩
  rw [← List.length_map, rest]
  rfl

theorem not_isMarker_of_isSolid (solid : IsSolid instruction.kind) : ¬ instruction.isMarker := by
  intro marks
  exact solid (List.mem_cons_of_mem _ (isMarker_iff.mp marks))

theorem not_isMarker_of_load (isLoad : instruction.kind = .load) : ¬ instruction.isMarker := by
  rw [isMarker_iff, isLoad]
  decide

theorem compiledField?_of_gap (solid : IsSolid instruction.kind) (spaced : GapFrom mayProbe gap)
    (rest : List StackInstruction) :
    compiledField? (instruction.kind :: kinds) mayProbe (gap ++ instruction :: rest) =
      if kinds = [] then instruction.putField? else compiledField? kinds true rest := by
  induction spaced with
  | done => rw [List.nil_append, compiledField?, if_neg (not_isMarker_of_isSolid solid), if_pos rfl]
  | marker marks _ ih => rw [List.cons_append, compiledField?, if_pos marks, ih]
  | @probe piece gap probes _ ih =>
      have starts : startsWithProbe (piece ++ gap ++ instruction :: rest) :=
        startsWithProbe_iff.mpr ⟨piece, _, List.append_assoc .., probes⟩
      obtain ⟨first, others, rfl, isLoad, length⟩ := probes.exists_cons
      have other : first.kind ≠ instruction.kind := by
        rw [isLoad]
        rintro same
        exact solid (same ▸ by simp)
      rw [List.cons_append, List.cons_append] at starts ⊢
      rw [compiledField?, if_neg (not_isMarker_of_load isLoad), if_neg other, Bool.true_and,
        if_pos starts, List.append_assoc, ← length, List.drop_left, ih]

theorem exists_gap_of_compiledField?
    (found : compiledField? (kind :: kinds) mayProbe code = some field) :
    ∃ gap instruction rest, code = gap ++ instruction :: rest ∧ GapFrom mayProbe gap ∧
      instruction.kind = kind ∧
      (if kinds = [] then instruction.putField? else compiledField? kinds true rest) =
        some field := by
  generalize same : kind :: kinds = pattern at found
  fun_induction compiledField? pattern mayProbe code generalizing kind kinds with
  | case1 => cases found
  | case2 pattern mayProbe instruction rest marks ih =>
      obtain ⟨gap, later, tail, rfl, spaced, behind⟩ := ih same found
      exact ⟨instruction :: gap, later, tail, rfl, .marker marks spaced, behind⟩
  | case3 => cases found
  | case4 _ instruction rest =>
      cases same
      exact ⟨[], instruction, rest, rfl, .done, rfl, found⟩
  | case5 _ instruction rest _ kinds more =>
      cases same
      exact ⟨[], instruction, rest, rfl, .done, rfl, by rw [if_neg more, found]⟩
  | case6 mayProbe first _ _ kind kinds _ probed ih =>
      obtain ⟨may, starts⟩ := Bool.and_eq_true_iff.mp probed
      obtain ⟨piece, tail, whole, probes⟩ := startsWithProbe_iff.mp starts
      obtain ⟨_, others, rfl, -, length⟩ := probes.exists_cons
      rw [List.cons_append] at whole
      obtain ⟨rfl, rfl⟩ := List.cons.inj whole
      rw [List.drop_left' length] at ih found
      obtain ⟨gap, instruction, rest, rfl, spaced, behind⟩ := ih same found
      cases may
      exact ⟨first :: others ++ gap, instruction, rest, by simp, .probe probes spaced, behind⟩
  | case7 => cases found

theorem passes_compiledField? (solid : IsSolid kind) :
    Passes IsGap (compiledField? · true) kind := by
  intro kinds code field
  constructor
  · intro found
    obtain ⟨gap, instruction, rest, same, spaced, behind⟩ := exists_gap_of_compiledField? found
    exact ⟨gap, instruction, rest, same, isGap_iff.mpr spaced, behind⟩
  · rintro ⟨gap, instruction, rest, rfl, spaced, rfl, behind⟩
    exact (compiledField?_of_gap solid (isGap_iff.mp spaced) rest).trans behind

end Compiled

def BeginsCompiled (field : FieldId) : List StackInstruction → Prop :=
  Begins IsGap field [.branch, .const, .jump, .const, .staticPut]

def BeginsOptimized (field : FieldId) : List StackInstruction → Prop :=
  Begins IsShuffle field [.const, .logicalBinop, .staticPut]

theorem compiledField?_eq_some_iff {field : FieldId} {code : List StackInstruction} :
    compiledField? compiledPattern true code = some field ↔ BeginsCompiled field code := by
  have solid : ∀ kind ∈ compiledPattern, IsSolid kind := by
    unfold IsSolid
    decide
  exact begins_iff_of_passes (List.cons_ne_nil _ _) fun kind member =>
    passes_compiledField? (solid kind member)

theorem optimizedField?_eq_some_iff {field : FieldId} {code : List StackInstruction} :
    optimizedField? optimizedPattern code = some field ↔ BeginsOptimized field code := by
  have solid : ∀ kind ∈ optimizedPattern, kind ≠ .load ∧ kind ≠ .store := by decide
  exact begins_iff_of_passes (List.cons_ne_nil _ _) fun kind member =>
    passes_optimizedField? (solid kind member)

/-- The code writes the status to the field. The compiled pattern goes first. -/
def WritesStatus (field : FieldId) (code : List StackInstruction) : Prop :=
  BeginsCompiled field code ∨ (∀ other, ¬BeginsCompiled other code) ∧ BeginsOptimized field code

section Status

variable {field : FieldId} {code : List StackInstruction}

theorem statusField?_eq_some_iff : statusField? code = some field ↔ WritesStatus field code := by
  rw [statusField?, Option.or_eq_some_iff, compiledField?_eq_some_iff, optimizedField?_eq_some_iff,
    Option.eq_none_iff_forall_ne_some]
  simp only [ne_eq, compiledField?_eq_some_iff, WritesStatus]

theorem statusField?_eq_none_iff : statusField? code = none ↔ ∀ field, ¬WritesStatus field code := by
  rw [Option.eq_none_iff_forall_ne_some]
  simp only [ne_eq, statusField?_eq_some_iff]

end Status

def IsStatusCallAt (body : List StackInstruction) (place : Nat) : Prop :=
  body[place]? = some (.invoke .virtual .desiredAssertionStatus)

/-- A status that is asked for before any jump goes into the flag, and none asked for earlier goes into
any field. -/
def SetsFlag (interner : Interner) (body : List StackInstruction) : Prop :=
  ∃ place, IsStatusCallAt body place ∧
    (∀ before < place, ∀ instruction, body[before]? = some instruction →
      instruction.kind ≠ .branch ∧ instruction.kind ≠ .jump) ∧
    (∃ field, WritesStatus field (body.drop (place + 1)) ∧ IsFlag interner field) ∧
    ∀ before < place, IsStatusCallAt body before →
      ∀ field, ¬WritesStatus field (body.drop (before + 1))

section Flag

variable {interner : Interner} {instruction : StackInstruction} {rest body : List StackInstruction}

theorem isStatusCall_iff :
    isStatusCall instruction ↔ instruction = .invoke .virtual .desiredAssertionStatus :=
  beq_iff_eq

theorem isJump_iff :
    instruction.isJump ↔ ¬(instruction.kind ≠ .branch ∧ instruction.kind ≠ .jump) := by
  unfold StackInstruction.isJump
  cases instruction.kind <;> decide

theorem not_setsFlag_nil : ¬SetsFlag interner [] := by
  rintro ⟨place, called, -⟩
  cases called

theorem setsFlag_cons :
    SetsFlag interner (instruction :: rest) ↔
      (isStatusCall instruction ∧ ∃ field, WritesStatus field rest ∧ IsFlag interner field) ∨
        ¬ instruction.isJump ∧
          (isStatusCall instruction → ∀ field, ¬WritesStatus field rest) ∧
          SetsFlag interner rest := by
  unfold SetsFlag IsStatusCallAt
  rw [← Nat.or_exists_add_one]
  refine or_congr ?_ ?_
  · simp [isStatusCall_iff]
  · -- an earlier place is the front or one further on
    simp only [Nat.forall_lt_succ_left, isStatusCall_iff, isJump_iff, List.getElem?_cons_zero,
      List.getElem?_cons_succ, List.drop_succ_cons, List.drop_zero, Option.some.injEq, forall_eq',
      not_not]
    constructor
    · rintro ⟨place, called, ⟨front, behind⟩, written, unwritten, others⟩
      exact ⟨front, unwritten, place, called, behind, written, others⟩
    · rintro ⟨front, unwritten, place, called, behind, written, others⟩
      exact ⟨place, called, ⟨front, behind⟩, written, unwritten, others⟩

theorem setsDisabledField_iff : setsDisabledField interner body ↔ SetsFlag interner body := by
  induction body with
  | nil => exact iff_of_false Bool.false_ne_true not_setsFlag_nil
  | cons instruction rest ih =>
      rw [setsFlag_cons, setsDisabledField]
      split
      · rename_i field found
        obtain ⟨called, stored⟩ := Option.ite_none_right_eq_some.mp found
        have written := statusField?_eq_some_iff.mp stored
        have only : ∀ other, WritesStatus other rest → other = field := fun other also =>
          Option.some.inj ((statusField?_eq_some_iff.mpr also).symm.trans stored)
        rw [isDisabledField_iff]
        constructor
        · intro flag
          exact Or.inl ⟨called, field, written, flag⟩
        · rintro (⟨-, other, also, flag⟩ | ⟨-, unwritten, -⟩)
          · exact only other also ▸ flag
          · exact absurd written (unwritten called field)
      · rename_i missing
        have unwritten : isStatusCall instruction → ∀ field, ¬WritesStatus field rest := fun called =>
          statusField?_eq_none_iff.mp (by rwa [if_pos called] at missing)
        have notHere :
            ¬(isStatusCall instruction ∧ ∃ field, WritesStatus field rest ∧ IsFlag interner field) :=
          fun ⟨called, field, written, _⟩ => unwritten called field written
        rw [or_iff_right notHere, ← ih]
        split
        · rename_i jumps
          simp [jumps]
        · rename_i stays
          exact ⟨fun later => ⟨stays, unwritten, later⟩, fun all => all.2.2⟩

end Flag

section Names

variable {interner : Interner}

theorem isFlag_iff (reached : Interner.standard.Leads interner) {field : FieldId} :
    IsFlag interner field ↔
      ∃ holder, interner.spell? (.field field) = some (.field holder "$assertionsDisabled" "Z") := by
  obtain ⟨within, grows⟩ := Interner.isWithin_standard.leads reached
  have flagName : interner.spellSymbol? .assertionsDisabled = some "$assertionsDisabled" :=
    grows.spellSymbol? (by decide)
  have flagType : interner.spellType? .bool = some "Z" := grows.spellType? (by decide)
  constructor
  · rintro ⟨name, type⟩
    cases present : interner.fields.get? field.index with
    | none =>
        rw [Interner.field, present] at name
        exact absurd name (by decide)
    | some entry =>
        rw [Interner.field, present, Option.getD_some] at name type
        obtain ⟨holder, spelled⟩ := within.exists_spellType?
          (within.fields entry (List.mem_of_getElem? present)).holder
        refine ⟨holder, Interner.spell?_eq_some.mpr (.field present ?_)⟩
        exact Interner.spellField?_of_parts spelled (name ▸ flagName) (type ▸ flagType)
  · rintro ⟨holder, spelled⟩
    cases Interner.spell?_eq_some.mp spelled with
    | @field _ entry _ _ _ present parts =>
        obtain ⟨_, _, _, -, name, type, same⟩ := Interner.spellField?_eq_some.mp parts
        cases same
        rw [IsFlag, Interner.field, present, Option.getD_some]
        exact ⟨Interner.spellSymbol?_inj name flagName, Interner.spellType?_inj type flagType⟩

theorem eq_desiredAssertionStatus_iff (reached : Interner.standard.Leads interner)
    {method : MethodId} :
    method = .desiredAssertionStatus ↔
      interner.spell? (.method method) =
        some (.method "Ljava/lang/Class;" "desiredAssertionStatus" ⟨[], "Z"⟩) := by
  have spelled : interner.spell? (.method .desiredAssertionStatus) =
      some (.method "Ljava/lang/Class;" "desiredAssertionStatus" ⟨[], "Z"⟩) :=
    (Interner.isWithin_standard.leads reached).2.spell? (by decide)
  constructor
  · rintro rfl
    exact spelled
  · intro also
    exact Item.method.inj (Interner.spell?_inj also spelled)

end Names

/-- The matchers, and the scans by position, find a pattern exactly where the code begins with it. An
initializer sets the flag exactly if the first status that is stored, with no jump before, goes into a
boolean field of the flag's name. -/
theorem status_patterns_found_exactly (body : List StackInstruction) :
    (∀ start field,
      (compiledField? compiledPattern true (body.drop start) = some field ↔
        BeginsCompiled field (body.drop start)) ∧
      (optimizedField? optimizedPattern (body.drop start) = some field ↔
        BeginsOptimized field (body.drop start))) ∧
    (∀ start,
      scanCompiled body start 0 none = compiledField? compiledPattern true (body.drop start) ∧
      scanOptimized 0 none (body.drop start) =
        optimizedField? optimizedPattern (body.drop start)) ∧
    (∀ interner, setsDisabledField interner body ↔ SetsFlag interner body) ∧
    ∀ interner, Interner.standard.Leads interner →
      (∀ field, IsFlag interner field ↔ ∃ holder,
        interner.spell? (.field field) = some (.field holder "$assertionsDisabled" "Z")) ∧
      ∀ method, method = .desiredAssertionStatus ↔
        interner.spell? (.method method) =
          some (.method "Ljava/lang/Class;" "desiredAssertionStatus" ⟨[], "Z"⟩) := by
  refine ⟨?_, ?_, ?_, ?_⟩
  · intro start field
    exact ⟨compiledField?_eq_some_iff, optimizedField?_eq_some_iff⟩
  · intro start
    exact ⟨scanCompiled_eq (by decide), scanOptimized_eq (by decide)⟩
  · intro interner
    exact setsDisabledField_iff
  · intro interner reached
    exact ⟨fun field => isFlag_iff reached, fun method => eq_desiredAssertionStatus_iff reached⟩

namespace Probed

def interner : Interner :=
  ((Interner.Request.fieldText "LA;->$assertionsDisabled:Z").run .standard).2

/-- The compiled pattern with a probe between two labels and one right before the write. -/
def body : List StackInstruction :=
  [.constClass .object, .invoke .virtual .desiredAssertionStatus, .branch 0, .constNumber 1, .jump 1,
    .label 0, .load 0, .constNumber 3, .constNumber 1, .arrayStore, .label 2, .constNumber 0, .load 0,
    .constNumber 4, .constNumber 1, .arrayStore, .staticPut ⟨1⟩, .ret]

end Probed

open Probed in
theorem status_patterns_found_exactly_probed :
    Interner.standard.Leads interner ∧ BeginsCompiled ⟨1⟩ (body.drop 2) ∧
      SetsFlag interner body ∧ IsFlag interner ⟨1⟩ := by
  have reached : Interner.standard.Leads interner := .step .refl (.fieldText _) trivial
  obtain ⟨patterns, scans, sets, names⟩ := status_patterns_found_exactly body
  refine ⟨reached, (patterns 2 ⟨1⟩).1.mp ?_, (sets interner).mp ?_,
    ((names interner reached).1 ⟨1⟩).mpr ⟨"LA;", ?_⟩⟩
  · decide +kernel
  · decide +kernel
  · decide +kernel

end Shrinker.Liveness.Assertions
