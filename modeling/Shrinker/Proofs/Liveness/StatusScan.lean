import Mathlib.Data.List.Basic
import Shrinker.Liveness.Assertions

namespace Shrinker.Liveness.Assertions

open Bytecode Reference Program

def fieldAtEnd (pattern : List StackKind) (matched : Nat) (last : Option StackInstruction) :
    Option FieldId :=
  if matched = pattern.length then last.bind (·.putField?) else none

def skipProbe (code : List StackInstruction) (place : Nat) : Nat :=
  if startsWithProbe (code.drop place) then place + 4 else place

theorem le_skipProbe (code : List StackInstruction) (place : Nat) : place ≤ skipProbe code place := by
  unfold skipProbe
  split <;> omega

/-- Where an instruction does not fit, a probe is skipped and the instruction behind it is looked at. -/
def scanCompiled (code : List StackInstruction) (place matched : Nat)
    (last : Option StackInstruction) : Option FieldId :=
  if inside : place < code.length ∧ matched < compiledPattern.length then
    if code[place].isMarker then
      scanCompiled code (place + 1) matched (some code[place])
    else if code[place].kind = compiledPattern[matched] then
      scanCompiled code (place + 1) (matched + 1) (some code[place])
    else if landed : skipProbe code place < code.length then
      if code[skipProbe code place].isMarker then
        scanCompiled code (skipProbe code place + 1) matched (some code[skipProbe code place])
      else if code[skipProbe code place].kind = compiledPattern[matched] then
        scanCompiled code (skipProbe code place + 1) (matched + 1)
          (some code[skipProbe code place])
      else
        fieldAtEnd compiledPattern matched (some code[skipProbe code place])
    else
      fieldAtEnd compiledPattern matched (some code[place])
  else
    fieldAtEnd compiledPattern matched last
termination_by code.length - place
decreasing_by
  all_goals
    have ahead := le_skipProbe code place
    omega

def scanOptimized (matched : Nat) (last : Option StackInstruction) :
    List StackInstruction → Option FieldId
  | [] => fieldAtEnd optimizedPattern matched last
  | instruction :: rest =>
      if inside : matched < optimizedPattern.length then
        if instruction.kind = .load ∨ instruction.kind = .store then
          scanOptimized matched (some instruction) rest
        else if instruction.kind = optimizedPattern[matched] then
          scanOptimized (matched + 1) (some instruction) rest
        else
          fieldAtEnd optimizedPattern matched (some instruction)
      else
        fieldAtEnd optimizedPattern matched last

section Agreement

variable {pattern : List StackKind} {matched place : Nat} {last : Option StackInstruction}
  {instruction : StackInstruction} {code : List StackInstruction}

theorem fieldAtEnd_of_lt (short : matched < pattern.length) : fieldAtEnd pattern matched last = none :=
  if_neg (Nat.ne_of_lt short)

theorem eq_ite_of_fits (match? : List StackKind → Option FieldId) {found : Option FieldId}
    (short : matched < pattern.length)
    (complete : matched + 1 = pattern.length → found = instruction.putField?)
    (more : matched + 1 < pattern.length → found = match? (pattern.drop (matched + 1))) :
    found =
      if pattern.drop (matched + 1) = [] then instruction.putField?
      else match? (pattern.drop (matched + 1)) := by
  split
  · rename_i all
    exact complete (Nat.le_antisymm short (List.drop_eq_nil_iff.mp all))
  · rename_i some
    exact more (Nat.lt_of_not_le fun all => some (List.drop_eq_nil_iff.mpr all))

theorem scanOptimized_of_all (all : matched = optimizedPattern.length) :
    scanOptimized matched (some instruction) code = instruction.putField? := by
  subst all
  cases code <;> simp [scanOptimized, fieldAtEnd]

theorem scanOptimized_eq (short : matched < optimizedPattern.length) :
    scanOptimized matched last code = optimizedField? (optimizedPattern.drop matched) code := by
  induction code generalizing matched last with
  | nil => exact fieldAtEnd_of_lt short
  | cons instruction rest ih =>
      rw [scanOptimized, dif_pos short, List.drop_eq_getElem_cons short, optimizedField?]
      split
      · rw [ih short, List.drop_eq_getElem_cons short]
      · split
        · exact eq_ite_of_fits (optimizedField? · rest) short scanOptimized_of_all ih
        · exact fieldAtEnd_of_lt short

theorem scanCompiled_of_all (all : matched = compiledPattern.length) :
    scanCompiled code place matched (some instruction) = instruction.putField? := by
  subst all
  rw [scanCompiled, dif_neg (fun inside => Nat.lt_irrefl _ inside.2), fieldAtEnd, if_pos rfl]
  rfl

theorem compiledField?_of_misfit {kind : StackKind} {kinds : List StackKind}
    (inside : place < code.length) (unmarked : ¬code[place].isMarker)
    (other : code[place].kind ≠ kind) :
    compiledField? (kind :: kinds) true (code.drop place) =
      if startsWithProbe (code.drop place) then
        compiledField? (kind :: kinds) false (code.drop (place + 4))
      else none := by
  rw [List.drop_eq_getElem_cons inside, compiledField?, if_neg unmarked, if_neg other,
    Bool.true_and, List.drop_drop]

theorem scanCompiled_eq (short : matched < compiledPattern.length) :
    scanCompiled code place matched last =
      compiledField? (compiledPattern.drop matched) true (code.drop place) := by
  fun_induction scanCompiled code place matched last with
  | case1 place matched last inside marks ih =>
      rw [ih short, List.drop_eq_getElem_cons inside.1, List.drop_eq_getElem_cons short,
        compiledField?, if_pos marks]
  | case2 place matched last inside unmarked fits ih =>
      rw [List.drop_eq_getElem_cons inside.1, List.drop_eq_getElem_cons short, compiledField?,
        if_neg unmarked, if_pos fits]
      exact eq_ite_of_fits (compiledField? · true (code.drop (place + 1))) short
        scanCompiled_of_all ih
  | case3 place matched last inside unmarked other landed marks ih =>
      -- without a probe the scan still stands at the instruction that does not fit
      by_cases starts : startsWithProbe (code.drop place)
      · simp only [skipProbe, if_pos starts] at landed marks ih ⊢
        rw [ih short, List.drop_eq_getElem_cons short,
          compiledField?_of_misfit inside.1 unmarked other, if_pos starts,
          List.drop_eq_getElem_cons landed, compiledField?, if_pos marks]
      · simp only [skipProbe, if_neg starts] at marks
        exact absurd marks unmarked
  | case4 place matched last inside unmarked other landed marks fits ih =>
      by_cases starts : startsWithProbe (code.drop place)
      · simp only [skipProbe, if_pos starts] at landed marks fits ih ⊢
        rw [List.drop_eq_getElem_cons short,
          compiledField?_of_misfit inside.1 unmarked other, if_pos starts,
          List.drop_eq_getElem_cons landed, compiledField?, if_neg marks, if_pos fits]
        exact eq_ite_of_fits (compiledField? · true (code.drop (place + 4 + 1))) short
          scanCompiled_of_all ih
      · simp only [skipProbe, if_neg starts] at fits
        exact absurd fits other
  | case5 place matched last inside unmarked other landed marks misses =>
      rw [fieldAtEnd_of_lt short, List.drop_eq_getElem_cons short,
        compiledField?_of_misfit inside.1 unmarked other]
      by_cases starts : startsWithProbe (code.drop place)
      · simp only [skipProbe, if_pos starts] at landed marks misses
        rw [if_pos starts, List.drop_eq_getElem_cons landed, compiledField?, if_neg marks,
          if_neg misses, Bool.false_and, if_neg Bool.false_ne_true]
      · rw [if_neg starts]
  | case6 place matched last inside unmarked other past =>
      -- the code ends with the probe
      rw [fieldAtEnd_of_lt short, List.drop_eq_getElem_cons short,
        compiledField?_of_misfit inside.1 unmarked other]
      by_cases starts : startsWithProbe (code.drop place)
      · simp only [skipProbe, if_pos starts] at past
        rw [if_pos starts, List.drop_eq_nil_of_le (Nat.le_of_not_lt past), compiledField?]
      · rw [if_neg starts]
  | case7 place matched last outside =>
      have past : code.length ≤ place := Nat.le_of_not_lt fun inside => outside ⟨inside, short⟩
      rw [fieldAtEnd_of_lt short, List.drop_eq_nil_of_le past, compiledField?]

end Agreement

end Shrinker.Liveness.Assertions
