import Interchange.Report
/-!
Paths as sequences of steps. A step enters a field, at one of its positions or as a whole; the text of a
path joins the texts of its steps. Joining is done twice over, once by whoever reports a
position and once by whoever reports its field, and both ways give one text.
-/
namespace Interchange

structure Step where
  field : String
  position : Option Position
  deriving DecidableEq, Repr

def Step.text (step : Step) : String := step.field ++ (step.position.map Position.text).getD ""

def pathText : List Step → String
  | [] => ""
  | [step] => step.text
  | step :: rest => joinPath step.text (pathText rest)

theorem step_text_whole (field : String) : Step.text ⟨field, none⟩ = field := by
  simp [Step.text]

theorem step_text_position (field : String) (position : Position) :
    Step.text ⟨field, some position⟩ = field ++ position.text := rfl

theorem join_position (outer : String) (position : Position) (rest : String) :
    joinPath outer (position.text ++ rest) = outer ++ (position.text ++ rest) := by
  cases position <;> simp [joinPath, Position.text]

theorem join_position_alone (outer : String) (position : Position) :
    joinPath outer position.text = outer ++ position.text := by
  simpa using join_position outer position ""

theorem join_join_position (field : String) (position : Position) (inner : String) :
    joinPath field (joinPath position.text inner) = joinPath (field ++ position.text) inner := by
  by_cases bracket : inner.toList.head? = some '['
  · have opened := join_position field position inner
    simp only [joinPath, bracket, ↓reduceIte] at opened ⊢
    rw [opened, String.append_assoc]
  · have opened := join_position field position ("." ++ inner)
    simp only [joinPath, bracket, ↓reduceIte, String.append_assoc] at opened ⊢
    exact opened

theorem step_text_filled (field : String) (position : Position) :
    Step.text ⟨field, some position⟩ ≠ "" := by
  rw [step_text_position]
  intro blank
  have opened := congrArg String.toList blank
  cases position <;> simp [Position.text] at opened

theorem join_path_append (outer inner tail : String) (filled : inner ≠ "") :
    joinPath outer (inner ++ tail) = joinPath outer inner ++ tail := by
  have first : (inner ++ tail).toList.head? = inner.toList.head? := by
    cases letters : inner.toList with
    | nil => exact absurd (String.toList_inj.mp (by simpa using letters)) filled
    | cons letter rest => simp [letters]
  simp only [joinPath, first]
  split <;> simp only [String.append_assoc]

theorem path_text_cons (step : Step) (next : Step) (rest : List Step) :
    pathText (step :: next :: rest) = joinPath step.text (pathText (next :: rest)) := rfl

theorem path_text_enter (step : Step) (steps : List Step) (filled : steps ≠ []) :
    pathText (step :: steps) = joinPath step.text (pathText steps) := by
  cases steps with
  | nil => exact absurd rfl filled
  | cons next rest => rfl

theorem join_path_filled (outer inner : String) (filled : inner ≠ "") :
    joinPath outer inner ≠ "" := by
  intro blank
  simp only [joinPath] at blank
  split at blank
  · have parts : outer = "" ∧ inner = "" := by simpa using congrArg String.toList blank
    exact filled parts.2
  · simpa using congrArg String.toList blank

/-- Past a step that leaves some text, a further step only adds to a path. -/
theorem path_text_further (steps : List Step) (step next : Step) (filled : step.text ≠ "") :
    pathText (steps ++ [step]) ≠ "" ∧
      ∃ tail, tail ≠ "" ∧ pathText (steps ++ [step, next]) = pathText (steps ++ [step]) ++ tail := by
  induction steps with
  | nil =>
      refine ⟨filled, ?_⟩
      by_cases bracket : next.text.toList.head? = some '['
      · refine ⟨next.text, ?_, by simp [pathText, joinPath, bracket]⟩
        intro blank
        simp [blank] at bracket
      · refine ⟨"." ++ next.text, ?_, by simp [pathText, joinPath, bracket, String.append_assoc]⟩
        intro blank
        simpa using congrArg String.toList blank
  | cons first rest ih =>
      obtain ⟨inner, tail, tailFilled, extended⟩ := ih
      rw [List.cons_append, List.cons_append, path_text_enter first _ (by simp),
        path_text_enter first _ (by simp)]
      refine ⟨join_path_filled _ _ inner, tail, tailFilled, ?_⟩
      rw [extended, join_path_append _ _ _ inner]

theorem path_text_longer (steps : List Step) (step next : Step) (filled : step.text ≠ "") :
    pathText (steps ++ [step, next]) ≠ pathText (steps ++ [step]) := by
  obtain ⟨-, tail, tailFilled, extended⟩ := path_text_further steps step next filled
  rw [extended]
  intro same
  have letters := congrArg String.toList same
  simp only [String.toList_append, List.append_right_eq_self] at letters
  exact tailFilled (String.toList_inj.mp (by simpa using letters))

end Interchange
