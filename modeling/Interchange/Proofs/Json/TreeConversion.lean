import Interchange.Proofs.Json.FloatFreeValues
/-!
The document of a value, for any value. Only a float that is not finite stops the conversion, and
the first one, in the order in which the parts are written, is the one that is named. What is
converted is read off the document as the value with its bytes as text.
-/
namespace Interchange

/-! The floats of a value in document order, each as often as it stands there. -/
namespace Value

def floatsStep : Value → Parts (List Binary64) → List Binary64
  | .float number, _ => [number]
  | _, .items results => results.flatten
  | _, .entries results => results.flatMap (·.2)
  | _, .none => []

def floats : Value → List Binary64 := fold floatsStep

theorem floats_array (items : List Value) : floats (.array items) = items.flatMap floats :=
  fold_array _ items

theorem floats_object (entries : List (String × Value)) :
    floats (.object entries) = entries.flatMap fun entry => floats entry.2 :=
  (fold_object _ entries).trans (List.flatMap_map _ _ _)

theorem mem_floats (number : Binary64) (value : Value) :
    number ∈ value.floats ↔ .float number = value ∨ Inside (.float number) value := by
  induction value using inside_induction with
  | step value ih =>
      cases value with
      | float other =>
          have flat := not_inside_scalar (.float number) (.float other) rfl
          simp [floats, fold, floatsStep, flat]
      | array items =>
          rw [floats_array, List.mem_flatMap, inside_array]
          simp only [reduceCtorEq, false_or]
          exact exists_congr fun item => and_congr_right fun member => ih item (.item member)
      | object entries =>
          rw [floats_object, List.mem_flatMap, inside_object]
          simp only [reduceCtorEq, false_or]
          exact exists_congr fun entry => and_congr_right fun member => ih entry.2 (.entry member)
      | _ =>
          refine iff_of_false List.not_mem_nil ?_
          rintro (same | inside)
          · contradiction
          · exact not_inside_scalar _ _ rfl inside

end Value

namespace Json

open Value (Inside Retold)

def notFinite (number : Binary64) : Bool := !number.isFinite

theorem every_finite (value : Value) :
    value.Every Finite ↔ value.floats.find? notFinite = none := by
  rw [List.find?_eq_none]
  constructor
  · intro finite number member
    have here : number.isFinite = true := finite _ ((Value.mem_floats number value).mp member)
    simp [notFinite, here]
  · intro clear part within
    cases part with
    | float number =>
        have here := clear number ((Value.mem_floats number value).mpr within)
        simpa [notFinite, Finite] using here
    | _ => trivial

namespace Tree

theorem items_stop {front : List Value} {item : Value} {number : Binary64}
    (before : ∀ part ∈ front, ofValue part = .ok (written part))
    (stopped : ofValue item = .error number) (behind : List Value) (done : List Tree) :
    ofItems done (front ++ item :: behind) = .error number := by
  induction front generalizing done with
  | nil => rw [List.nil_append, ofItems, stopped]
  | cons first rest ih =>
      obtain ⟨here, later⟩ := List.forall_mem_cons.mp before
      rw [List.cons_append, ofItems, here]
      exact ih later _

theorem entries_stop {front : List (String × Value)} {entry : String × Value} {number : Binary64}
    (before : ∀ part ∈ front, ofValue part.2 = .ok (written part.2))
    (stopped : ofValue entry.2 = .error number) (behind : List (String × Value))
    (done : List (String × Tree)) :
    ofEntries done (front ++ entry :: behind) = .error number := by
  induction front generalizing done with
  | nil => rw [List.nil_append, ofEntries, stopped]
  | cons first rest ih =>
      obtain ⟨here, later⟩ := List.forall_mem_cons.mp before
      rw [List.cons_append, ofEntries, here]
      exact ih later _

/-- The first float that is not finite is the one that stops the conversion. -/
theorem of_not_finite (value : Value) : ∀ number,
    value.floats.find? notFinite = some number → ofValue value = .error number := by
  induction value using Value.inside_induction with
  | step value ih =>
      intro number found
      cases value with
      | float other =>
          obtain ⟨beyond, rfl⟩ : notFinite other = true ∧ other = number := by
            simpa [Value.floats, Value.fold, Value.floatsStep] using found
          have here : ¬ other.isFinite = true := by simpa [notFinite] using beyond
          rw [ofValue, if_neg here]
      | array items =>
          rw [Value.floats_array, List.find?_flatMap] at found
          obtain ⟨front, item, behind, rfl, here, clear⟩ := List.findSome?_eq_some_iff.mp found
          have before : ∀ part ∈ front, ofValue part = .ok (written part) := fun part member =>
            of_finite part ((every_finite part).mpr (clear part member))
          have member : item ∈ front ++ item :: behind := by simp
          rw [ofValue, items_stop before (ih item (.item member) number here)]
      | object entries =>
          rw [Value.floats_object, List.find?_flatMap] at found
          obtain ⟨front, entry, behind, rfl, here, clear⟩ := List.findSome?_eq_some_iff.mp found
          have before : ∀ part ∈ front, ofValue part.2 = .ok (written part.2) := fun part member =>
            of_finite part.2 ((every_finite part.2).mpr (clear part member))
          have member : entry ∈ front ++ entry :: behind := by simp
          rw [ofValue, entries_stop before (ih entry.2 (.entry member) number here)]
      | _ => contradiction

end Tree

/--
A value has no document just if some float in it is not finite, and then the first such float in
document order is reported. Otherwise the document holds the value, told in the one way that
is open: bytes as text that gives them back, unsigned numbers in the signed word where they fit,
and all else, floats and the order of the keys included, as it was.
-/
theorem document_tells_value (value : Value) :
    (∀ number, Tree.ofValue value = .error number ↔
      value.floats.find? (fun number => !number.isFinite) = some number) ∧
    ((∃ number, Tree.ofValue value = .error number) ↔
      ∃ number, (.float number = value ∨ Inside (.float number) value) ∧
        number.isFinite = false) ∧
    (∀ tree, Tree.ofValue value = .ok tree →
      Retold byteText (fun _ => true) value tree.toValue ∧
      ∀ other, Retold byteText (fun _ => true) value other → other = tree.toValue) ∧
    ∀ content, (byteText content).asBinary? = some content := by
  have reported : ∀ number, Tree.ofValue value = .error number ↔
      value.floats.find? notFinite = some number := by
    intro number
    refine ⟨fun failed => ?_, Tree.of_not_finite value number⟩
    cases found : value.floats.find? notFinite with
    | none =>
        rw [Tree.of_finite value ((every_finite value).mpr found)] at failed
        contradiction
    | some other =>
        rw [Tree.of_not_finite value other found] at failed
        exact congrArg some (Except.error.inj failed)
  refine ⟨reported, ?_, fun tree converted => ?_, Value.opened_text⟩
  · simp only [reported, ← Value.mem_floats]
    rw [← Option.isSome_iff_exists, List.find?_isSome]
    simp [notFinite]
  · have finite := Tree.finite_of value tree converted
    rw [Tree.of_finite value finite] at converted
    obtain rfl := Except.ok.inj converted
    rw [Tree.written_value]
    have retold := retold_carried value
    exact ⟨retold, fun other found => Value.retold_unique value other _ found retold⟩

end Json

end Interchange
