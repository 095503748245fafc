import Interchange.Proofs.QuotedKeys
import Interchange.Proofs.FieldPaths
/-!
Paths under plain names lead to one place each. A plain name ends at the first dot or
bracket, a position ends at its own closing bracket, and so the steps can be read off the text.
-/
namespace Interchange

/-- A name without the marks that divide a path. -/
def PlainName (name : String) : Prop :=
  name ≠ "" ∧ ∀ letter ∈ name.toList, ¬ (letter = '.' ∨ letter = '[')

instance (name : String) : Decidable (PlainName name) :=
  inferInstanceAs (Decidable (name ≠ "" ∧ ∀ letter ∈ name.toList, ¬ (letter = '.' ∨ letter = '[')))

namespace Position

theorem number_append_inj (number other : Nat) (rest others : List Char)
    (same : (toString number).toList ++ ']' :: rest = (toString other).toList ++ ']' :: others) :
    number = other ∧ rest = others := by
  rw [Nat.toString_eq_repr, Nat.toString_eq_repr, Nat.toList_repr, Nat.toList_repr] at same
  have runs (count : Nat) := Text.digits_open 10 (by decide) (by decide) count
    (show Char.isAlphanum ']' = false by decide)
  have stops (behind : List Char) : ∀ item ∈ (']' :: behind).head?, item = ']' := by simp
  obtain ⟨digits, behind⟩ :=
    Text.until_stop (runs number) (runs other) (stops rest) (stops others) same
  exact ⟨Text.digits_inj 10 (by decide) (by decide) number other digits, (List.cons.inj behind).2⟩

/-- A number never starts as a quoted key does. -/
theorem number_apart (number : Nat) (key : String) (rest others : List Char) :
    (toString number).toList ++ rest ≠ (Text.quote key).toList ++ others := by
  intro same
  rw [Nat.toString_eq_repr, Nat.toList_repr, Text.quote, Text.quoteChars, String.toList_ofList] at same
  have runs := Text.digits_open 10 (by decide) (by decide) number
    (show Char.isAlphanum '"' = false by decide)
  cases digits : Nat.toDigits 10 number with
  | nil => exact Nat.toDigits_ne_nil digits
  | cons digit more =>
      rw [digits] at same runs
      exact runs digit List.mem_cons_self (List.cons.inj same).1

theorem text_append_inj (first second : Position) (rest others : List Char)
    (same : first.text.toList ++ rest = second.text.toList ++ others) :
    first = second ∧ rest = others := by
  have brackets : "[".toList = ['['] ∧ "]".toList = [']'] := by decide
  cases first <;> cases second <;>
    simp only [text, String.toList_append, brackets, List.append_assoc, List.cons_append,
      List.nil_append, List.cons.injEq, true_and] at same
  case index.index number other =>
    obtain ⟨rfl, behind⟩ := number_append_inj number other rest others same
    exact ⟨rfl, behind⟩
  case index.key number key => exact absurd same (number_apart number key _ _)
  case key.index key number => exact absurd same.symm (number_apart number key _ _)
  case key.key key other =>
    obtain ⟨rfl, behind⟩ := Text.quote_append_inj key other _ _ same
    exact ⟨rfl, (List.cons.inj behind).2⟩

end Position

/-- The steps after a first one, as its path goes on. -/
def furtherText : List Step → List Char
  | [] => []
  | step :: rest => '.' :: (pathText (step :: rest)).toList

/-- What stands behind a field's name: its position, and the steps after it. -/
def behindName (position : Option Position) (rest : List Step) : List Char :=
  ((position.map Position.text).getD "").toList ++ furtherText rest

theorem plain_name_opens (name : String) (plain : PlainName name) (behind : List Char) :
    ∃ letter, (name.toList ++ behind).head? = some letter ∧ ¬ (letter = '.' ∨ letter = '[') := by
  obtain ⟨filled, letters⟩ := plain
  cases spelled : name.toList with
  | nil => exact absurd (String.toList_inj.mp (by simpa using spelled)) filled
  | cons letter more =>
      rw [spelled] at letters
      exact ⟨letter, rfl, letters letter List.mem_cons_self⟩

theorem path_text_name (step : Step) (rest : List Step)
    (plain : ∀ next ∈ rest, PlainName next.field) :
    (pathText (step :: rest)).toList = step.field.toList ++ behindName step.position rest := by
  induction rest generalizing step with
  | nil => simp [pathText, Step.text, behindName, furtherText]
  | cons next more ih =>
      have inner := ih next fun later member => plain later (List.mem_cons_of_mem _ member)
      obtain ⟨letter, opens, apart⟩ := plain_name_opens next.field
        (plain next List.mem_cons_self) (behindName next.position more)
      have dotted : (pathText (next :: more)).toList.head? ≠ some '[' := by
        rw [inner, opens]
        rintro same
        exact apart (Or.inr (Option.some.inj same))
      rw [path_text_cons, joinPath, if_neg dotted]
      simp [Step.text, behindName, furtherText]

theorem behind_name_stops (position : Option Position) (rest : List Step) :
    ∀ letter ∈ (behindName position rest).head?, letter = '.' ∨ letter = '[' := by
  cases position with
  | none => cases rest <;> simp [behindName, furtherText]
  | some position => cases position <;> simp [behindName, Position.text]

theorem position_no_further (position : Position) (rest behind : List Step) :
    behindName (some position) rest ≠ furtherText behind := by
  cases behind <;> cases position <;> simp [behindName, furtherText, Position.text]

theorem behind_name_inj {position other : Option Position} {rest others : List Step}
    (same : behindName position rest = behindName other others) :
    position = other ∧ furtherText rest = furtherText others := by
  cases position with
  | none =>
      cases other with
      | none => exact ⟨rfl, same⟩
      | some other => exact absurd same.symm (position_no_further other others rest)
  | some position =>
      cases other with
      | none => exact absurd same (position_no_further position rest others)
      | some other =>
          obtain ⟨rfl, further⟩ := Position.text_append_inj position other _ _ same
          exact ⟨rfl, further⟩

theorem path_text_named (step : Step) (rest : List Step)
    (plain : ∀ next ∈ step :: rest, PlainName next.field) : pathText (step :: rest) ≠ "" := by
  intro blank
  have spelled := path_text_name step rest fun next member =>
    plain next (List.mem_cons_of_mem _ member)
  obtain ⟨letter, opens, -⟩ := plain_name_opens step.field (plain step List.mem_cons_self)
    (behindName step.position rest)
  rw [← spelled, blank] at opens
  simp at opens

/-- Under plain names, the text of a path determines its steps. -/
theorem path_text_inj (first second : List Step) (plain : ∀ step ∈ first, PlainName step.field)
    (clear : ∀ step ∈ second, PlainName step.field) (same : pathText first = pathText second) :
    first = second := by
  induction first generalizing second with
  | nil =>
      cases second with
      | nil => rfl
      | cons other others => exact absurd same.symm (path_text_named other others clear)
  | cons step rest ih =>
      cases second with
      | nil => exact absurd same (path_text_named step rest plain)
      | cons other others =>
          obtain ⟨here, later⟩ := List.forall_mem_cons.mp plain
          obtain ⟨otherHere, otherLater⟩ := List.forall_mem_cons.mp clear
          have letters := congrArg String.toList same
          rw [path_text_name step rest later, path_text_name other others otherLater] at letters
          obtain ⟨names, behind⟩ := Text.until_stop here.2 otherHere.2
            (behind_name_stops _ _) (behind_name_stops _ _) letters
          obtain ⟨positions, further⟩ := behind_name_inj behind
          obtain ⟨field, position⟩ := step
          obtain ⟨otherField, otherPosition⟩ := other
          obtain rfl : field = otherField := String.toList_inj.mp names
          obtain rfl : position = otherPosition := positions
          cases rest with
          | nil =>
              cases others with
              | nil => rfl
              | cons => simp [furtherText] at further
          | cons next more =>
              cases others with
              | nil => simp [furtherText] at further
              | cons another remaining =>
                  have texts := String.toList_inj.mp (List.cons.inj further).2
                  rw [ih _ later otherLater texts]

end Interchange
