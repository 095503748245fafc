import Interchange.Proofs.FailureCulprits
/-!
The two views of a failure at a field. Wrappers stand around a leaf, each with a field and perhaps a
position, and a leaf may name a field of its own. Main statement: both views exist for the same
failures, start with the same field and tell the same category; the path is that of the wrappers,
the outermost first, with the leaf's field at its end; one more wrapper only goes in front of it.
Positions are those of elements and of parts under a key, which are all that reading and writing wrap
a failure with; the views take nothing from a position but its text.
-/
namespace Interchange

/-! The text of a path, step by step. -/
section Paths

/-- What stands in front of a further part of a path: a dot, unless a bracket opens it. -/
def pathMark (behind : List Char) : String := if behind.head? = some '[' then "" else "."

/-- The steps of a path behind its first one, each after its mark. A step without a text does not
hide a bracket that comes after it. -/
def markedSteps : List Step → String
  | [] => ""
  | step :: rest =>
    pathMark ((step :: rest).flatMap (·.text.toList)) ++ step.text ++ markedSteps rest

theorem join_path_mark (outer inner : String) :
    joinPath outer inner = outer ++ (pathMark inner.toList ++ inner) := by
  rw [joinPath, pathMark]
  split
  · rw [String.empty_append]
  · rw [String.append_assoc]

/-- A bracket opens a path just if it opens the texts of the steps without their marks. -/
theorem path_text_bracket (step : Step) (rest : List Step) :
    (pathText (step :: rest)).toList.head? = some '[' ↔
      ((step :: rest).flatMap (·.text.toList)).head? = some '[' := by
  induction rest generalizing step with
  | nil => rw [pathText, List.flatMap_cons, List.flatMap_nil, List.append_nil]
  | cons next more ih =>
      rw [path_text_cons, join_path_mark, List.flatMap_cons, String.toList_append]
      cases step.text.toList with
      | cons letter others => rfl
      | nil =>
          rw [List.nil_append, List.nil_append, ← ih next, String.toList_append, pathMark]
          split
          · rfl
          · rename_i dotted
            exact iff_of_false (by simp) dotted

theorem path_text_marked (first : Step) (rest : List Step) :
    pathText (first :: rest) = first.text ++ markedSteps rest := by
  induction rest generalizing first with
  | nil => rw [pathText, markedSteps, String.append_empty]
  | cons next more ih =>
      have mark : pathMark (pathText (next :: more)).toList =
          pathMark ((next :: more).flatMap (·.text.toList)) := by
        simp only [pathMark, path_text_bracket]
      rw [path_text_cons, join_path_mark, mark, ih next, markedSteps, String.append_assoc]

end Paths

namespace Failure

/-! A failure as wrappers around a leaf. -/
section Wrappers

/-- A failure inside wrappers, the outermost first. -/
def wrapped (steps : List Step) (failure : Failure) : Failure :=
  steps.foldr (fun step source => .nested step.field step.position source) failure

def wrappers : Failure → List Step
  | .nested outer position source => ⟨outer, position⟩ :: source.wrappers
  | _ => []

def leaf : Failure → Failure
  | .nested _ _ source => source.leaf
  | bare => bare

/-- The step to the field that a failure names without any wrapper. -/
def ownStep : Failure → List Step
  | .field fault => [⟨fault.field, none⟩]
  | _ => []

theorem leaf_wrapped (failure : Failure) : failure.leaf.wrapped failure.wrappers = failure := by
  induction failure with
  | nested outer position source ih => exact congrArg (Failure.nested outer position) ih
  | _ => rfl

theorem leaf_bare (failure : Failure) (outer : String) (position : Option Position)
    (source : Failure) : failure.leaf ≠ .nested outer position source := by
  induction failure with
  | nested _ _ _ ih => exact ih
  | _ => exact Failure.noConfusion

/-- The steps of a failure's path. -/
def steps (failure : Failure) : List Step := failure.wrappers ++ failure.leaf.ownStep

theorem steps_nested (outer : String) (position : Option Position) (source : Failure) :
    (Failure.nested outer position source).steps = ⟨outer, position⟩ :: source.steps := rfl

end Wrappers

/-! One view after the other. -/
section Views
variable {failure : Failure} {locale path : String} {descriptor : Descriptor}

theorem category_some_iff : failure.fieldCategory.isSome = true ↔ failure.AtField := by
  cases failure with
  | field fault => exact iff_of_true rfl (.field fault)
  | nested outer position source => exact iff_of_true rfl (.nested outer position source)
  | _ => exact iff_of_false Bool.false_ne_true nofun

theorem located_some_iff : (failure.fieldError locale).isSome = true ↔ failure.AtField := by
  constructor
  · intro located
    cases failure with
    | field fault => exact .field fault
    | nested outer position source => exact .nested outer position source
    | _ => contradiction
  · intro atField
    obtain ⟨path, descriptor, located⟩ := at_field_located atField locale
    rw [located, Option.isSome_some]

theorem steps_filled_iff : failure.steps ≠ [] ↔ failure.AtField := by
  cases failure with
  | field fault => exact iff_of_true (List.cons_ne_nil _ _) (.field fault)
  | nested outer position source =>
      exact iff_of_true (List.cons_ne_nil _ _) (.nested outer position source)
  | _ => exact iff_of_false (fun filled => filled rfl) nofun

/-- A wrapper goes in front of the path inside it, and a wrapper around a failure that is not at a
field is a path of its own, to a value of the wrong shape. -/
theorem nested_located_cases {outer : String} {position : Option Position}
    (located : (Failure.nested outer position failure).fieldError locale = some (path, descriptor)) :
    (∃ inner, failure.fieldError locale = some (inner, descriptor) ∧
      path = joinPath (Step.text ⟨outer, position⟩) inner) ∨
    (¬ failure.AtField ∧ path = Step.text ⟨outer, position⟩ ∧
      descriptor = ⟨.incompatible, none, outer, none, locale⟩) := by
  cases inside : failure.fieldError locale with
  | some found =>
      obtain ⟨inner, deeper⟩ := found
      rw [fieldError, inside] at located
      cases located
      exact Or.inl ⟨inner, rfl, rfl⟩
  | none =>
      have apart : ¬ failure.AtField := by
        intro atField
        obtain ⟨_, _, found⟩ := at_field_located atField locale
        rw [inside] at found
        contradiction
      rw [fieldError, inside] at located
      cases located
      exact Or.inr ⟨apart, rfl, rfl⟩

theorem category_field : failure.fieldCategory.map Prod.fst = failure.steps.head?.map Step.field := by
  cases failure <;> rfl

theorem located_category (located : failure.fieldError locale = some (path, descriptor)) :
    failure.fieldCategory.map Prod.snd = some descriptor.category := by
  induction failure generalizing path with
  | field fault =>
      cases located
      rfl
  | nested outer position source ih =>
      rw [fieldCategory]
      rcases nested_located_cases located with ⟨inner, inside, -⟩ | ⟨apart, -, rfl⟩
      · rw [ih inside]
        rfl
      · have unseen := Option.not_isSome_iff_eq_none.mp (mt category_some_iff.mp apart)
        rw [unseen]
        rfl
  | _ => contradiction

theorem located_path (located : failure.fieldError locale = some (path, descriptor)) :
    path = pathText failure.steps := by
  induction failure generalizing path with
  | field fault =>
      cases located
      exact (step_text_whole fault.field).symm
  | nested outer position source ih =>
      rw [steps_nested]
      rcases nested_located_cases located with ⟨inner, inside, rfl⟩ | ⟨apart, rfl, -⟩
      · have filled : source.steps ≠ [] := by
          rw [steps_filled_iff, ← located_some_iff, inside, Option.isSome_some]
        rw [path_text_enter _ _ filled, ← ih inside]
      · rw [not_not.mp (mt steps_filled_iff.mp apart), pathText]
  | _ => contradiction

end Views

end Failure

/-- The two views of a failure at a field exist for the same failures and agree. The path is told by
the wrappers and the leaf: it starts with the outermost field and its position, and every further
step follows behind its mark. One more wrapper leaves the descriptor as it is. -/
theorem field_views_agree (failure : Failure) (locale : String) :
    ((failure.fieldError locale).isSome = true ↔ failure.fieldCategory.isSome = true) ∧
    (failure.fieldCategory.isSome = true ↔ failure.AtField) ∧
    (failure.leaf.wrapped failure.wrappers = failure ∧
      ∀ outer position source, failure.leaf ≠ .nested outer position source) ∧
    (∀ path descriptor, failure.fieldError locale = some (path, descriptor) →
      descriptor.locale = locale ∧
      ∃ first rest, failure.wrappers ++ failure.leaf.ownStep = first :: rest ∧
        failure.fieldCategory = some (first.field, descriptor.category) ∧
        path = first.text ++ markedSteps rest) ∧
    ∀ outer position path descriptor, failure.fieldError locale = some (path, descriptor) →
      (Failure.nested outer position failure).fieldCategory = some (outer, descriptor.category) ∧
      (Failure.nested outer position failure).fieldError locale =
        some (Step.text ⟨outer, position⟩ ++ pathMark path.toList ++ path, descriptor) := by
  refine ⟨?_, Failure.category_some_iff, ⟨failure.leaf_wrapped, failure.leaf_bare⟩, ?view, ?wrap⟩
  · rw [Failure.located_some_iff, Failure.category_some_iff]
  case view =>
    intro path descriptor located
    refine ⟨failure.field_error_locale locale path descriptor located, ?_⟩
    have filled : failure.steps ≠ [] := by
      rw [Failure.steps_filled_iff, ← Failure.located_some_iff, located, Option.isSome_some]
    obtain ⟨first, rest, steps⟩ := List.exists_cons_of_ne_nil filled
    obtain ⟨found, view, category⟩ := Option.map_eq_some_iff.mp (Failure.located_category located)
    have field := failure.category_field
    rw [view, steps] at field
    have spelled := Failure.located_path located
    rw [steps, path_text_marked] at spelled
    exact ⟨first, rest, steps, view.trans (congrArg some (Prod.ext (Option.some.inj field) category)),
      spelled⟩
  case wrap =>
    intro outer position path descriptor located
    constructor
    · rw [Failure.fieldCategory, Failure.located_category located]
      rfl
    · rw [Failure.nested_located located outer position, join_path_mark, String.append_assoc]

/-- A postal code that is no text, in the address of an element of a list; and the same failure inside
a keyed part, whose key looks like a path. -/
theorem zip_views_agree :
    let zip := Failure.nested "previous" (some (.index 1)) (.nested "address" none
      (.field ⟨"zip", "postal_code", some (.integer 5), .incompatible "string"⟩))
    let found : Descriptor := ⟨.incompatible, none, "postal_code", some (.integer 5), "en"⟩
    zip.fieldError "en" = some ("previous[1].address.zip", found) ∧
    (found.locale = "en" ∧
      ∃ first rest, zip.wrappers ++ zip.leaf.ownStep = first :: rest ∧
        zip.fieldCategory = some (first.field, .incompatible) ∧
        "previous[1].address.zip" = first.text ++ markedSteps rest) ∧
    (Failure.nested "owners" (some (.key "a.b")) zip).fieldCategory =
      some ("owners", .incompatible) ∧
    (Failure.nested "owners" (some (.key "a.b")) zip).fieldError "en" =
      some ("owners[\"a.b\"].previous[1].address.zip", found) := by
  intro zip found
  have located : zip.fieldError "en" = some ("previous[1].address.zip", found) := by rfl
  obtain ⟨-, -, -, view, wrap⟩ := field_views_agree zip "en"
  obtain ⟨category, further⟩ := wrap "owners" (some (.key "a.b")) _ _ located
  have front : Step.text ⟨"owners", some (.key "a.b")⟩ ++
      pathMark "previous[1].address.zip".toList ++ "previous[1].address.zip" =
        "owners[\"a.b\"].previous[1].address.zip" := by decide +kernel
  exact ⟨located, view _ _ located, category, front ▸ further⟩

end Interchange
