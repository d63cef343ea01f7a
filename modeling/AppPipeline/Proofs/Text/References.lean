import AppPipeline.Proofs.Text.Words

/-!
# References in texts

What a text refers to stands behind a mark (`mem_after_iff`): the outputs of steps
(`outputsIn`), secrets (`secretsIn`) and the variables of a shell (`variablesIn`).
A text without the mark refers to nothing.
-/

namespace AppPipeline.Text

/-! ## Marks -/

/-- What stands behind the mark, for each place where it stands. -/
def after (mark : List Char) : List Char → List (List Char)
  | [] => []
  | c :: s =>
    if mark.isPrefixOf (c :: s) then (c :: s).drop mark.length :: after mark s else after mark s

theorem mem_after_iff {mark : List Char} (hmark : mark ≠ []) (rest s : List Char) :
    rest ∈ after mark s ↔ mark ++ rest <:+ s := by
  induction s with
  | nil => simp [after, hmark]
  | cons c s ih =>
    have hprefix : mark ++ rest = c :: s ↔
        mark.isPrefixOf (c :: s) = true ∧ rest = (c :: s).drop mark.length := by
      rw [List.isPrefixOf_iff_prefix, List.prefix_iff_eq_append]
      constructor
      · intro h
        rw [← h, List.drop_left]
        exact ⟨rfl, rfl⟩
      · rintro ⟨h, rfl⟩
        exact h
    rw [List.suffix_cons_iff, hprefix, ← ih, after]
    split
    · next h => simp [h]
    · next h => simp [h]

/-- Without the mark nothing stands behind it. -/
theorem after_eq_nil {mark s : List Char} (hmark : mark ≠ []) (h : ¬ mark <:+: s) :
    after mark s = [] := by
  refine List.eq_nil_iff_forall_not_mem.2 fun rest hrest => h ?_
  obtain ⟨before, hbefore⟩ := (mem_after_iff hmark rest s).1 hrest
  exact ⟨before, rest, by rw [List.append_assoc, hbefore]⟩

/-! ## References -/

/-- A character of the names of steps, outputs and secrets. -/
def isReferenceChar (c : Char) : Bool := c.isAlphanum || c == '_' || c == '-'

def isVariableChar (c : Char) : Bool := c.isAlphanum || c == '_'

/-- The step and the output that a reference names behind its mark. -/
def outputAt? (rest : List Char) : Option (String × String) :=
  let id := rest.takeWhile isReferenceChar
  let more := rest.drop id.length
  if ".outputs.".toList.isPrefixOf more then
    some (String.ofList id, String.ofList ((more.drop 9).takeWhile isReferenceChar))
  else none

/-- The ids and the names of all references to outputs of steps. -/
def outputsIn (text : String) : List (String × String) :=
  (after "steps.".toList text.toList).filterMap outputAt?

/-- The names of all references to secrets. -/
def secretsIn (text : String) : List String :=
  (after "secrets.".toList text.toList).map fun rest =>
    String.ofList (rest.takeWhile isReferenceChar)

/-- The variables that the text reads, as a shell script. -/
def variablesIn (text : String) : List String :=
  ((after ['$'] text.toList).map fun rest => String.ofList (rest.takeWhile isVariableChar)).filter
    (· != "")

section

variable {text : String} {cs : List Char}

theorem outputsIn_of_spelled (h : Spelled text cs) :
    outputsIn text = (after "steps.".toList cs).filterMap outputAt? := by
  rw [outputsIn, h]

theorem secretsIn_of_spelled (h : Spelled text cs) :
    secretsIn text = (after "secrets.".toList cs).map fun rest =>
      String.ofList (rest.takeWhile isReferenceChar) := by
  rw [secretsIn, h]

theorem variablesIn_of_spelled (h : Spelled text cs) :
    variablesIn text = ((after ['$'] cs).map fun rest =>
      String.ofList (rest.takeWhile isVariableChar)).filter (· != "") := by
  rw [variablesIn, h]

end

theorem outputsIn_eq_nil {text : String} (h : ¬ Stands "steps." text) : outputsIn text = [] := by
  rw [outputsIn, after_eq_nil (by simp) h]
  rfl

theorem secretsIn_eq_nil {text : String} (h : ¬ Stands "secrets." text) : secretsIn text = [] := by
  rw [secretsIn, after_eq_nil (by simp) h]
  rfl

end AppPipeline.Text
