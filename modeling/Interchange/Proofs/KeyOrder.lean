import Interchange.Proofs.AggregateFailures
import Interchange.Proofs.DistinctPaths
import Interchange.Proofs.EqualEntities
import Interchange.Proofs.FailurePlaces
/-!
Outcomes do not depend on the order of keys. Building stops at the first failing entry of a keyed
collection, so its own failures do depend on the order; behind a clean report it never fails, and
any other report comes out the same for every order.
-/
namespace Interchange

variable {Entity : Type}

/-- Failures of whole entities that tell the same. -/
inductive Failure.Matches : Failure → Failure → Prop where
  | notAMap (entity : String) (found : Value.Kind) :
      Matches (.notAMap entity found) (.notAMap entity found)
  | invalid (entity : String) {left right : Report} (matched : left.Matches right) :
      Matches (.invalid entity left) (.invalid entity right)

/-- Both end well, with related results, or both fail alike. -/
inductive EndsAlike {α : Type} (relates : α → α → Prop) :
    Except Failure α → Except Failure α → Prop where
  | ok {result other : α} (related : relates result other) :
      EndsAlike relates (.ok result) (.ok other)
  | error {failure other : Failure} (matched : failure.Matches other) :
      EndsAlike relates (.error failure) (.error other)

theorem EndsAlike.related {α : Type} {relates : α → α → Prop} {result other : α}
    (alike : EndsAlike relates (.ok result) (.ok other)) : relates result other := by
  cases alike with
  | ok related => exact related

variable [DecidableEq Entity]

/-- Behind a clean report nothing is left that building could fail at. -/
theorem Scope.built_of_clean (scope : Scope Entity) {schema : Schema Entity} {entity : Entity}
    (conforming : schema.Conforming entity) {entries : List (String × Value)}
    (clean : (scope.entityReport schema entity (.object entries)).isEmpty = true) :
    ∃ built, schema.decode scope.options entity (.object entries) = .ok built := by
  have nothing := Report.not_files_of_isEmpty _ clean
  cases ended : schema.decode scope.options entity (.object entries) with
  | ok built => exact ⟨built, rfl⟩
  | error failure =>
      obtain ⟨path, descriptor, -, mirrored⟩ :=
        failure_mirrored scope schema _ entity entries failure rfl conforming ended
      generalize descriptor.category = category at mirrored
      cases mirrored with
      | place _ _ _ files => exact absurd files (nothing _ _)
      | element _ _ _ files => exact absurd files (nothing _ _)

namespace Endpoint

variable (endpoint : Endpoint Entity) {schema : Schema Entity} {entity : Entity}
  {same : ∀ entity, schema.Carrier entity → schema.Carrier entity → Prop}

theorem built_reordered (conforming : schema.Conforming entity)
    (respects : schema.Respects same entity) {entries others : List (String × Value)}
    (keys : (Value.object entries).Every Value.DistinctKeys)
    (reordered : Value.Reordered (.object entries) (.object others)) (locale : String)
    (clean : ((endpoint.scope locale).entityReport schema entity (.object entries)).isEmpty = true)
    (cleanToo : ((endpoint.scope locale).entityReport schema entity
      (.object others)).isEmpty = true) :
    EndsAlike (same entity) (endpoint.build schema entity (.object entries) locale)
      (endpoint.build schema entity (.object others) locale) := by
  obtain ⟨built, ended⟩ := Scope.built_of_clean _ conforming clean
  obtain ⟨again, endedToo⟩ := Scope.built_of_clean _ conforming cleanToo
  have equal := Schema.decode_reordered _ entity conforming respects keys _ reordered built again
    ended endedToo
  simp only [scope] at ended endedToo
  rw [build, build, ended, endedToo]
  exact .ok equal

/-- Two values that differ in the order of keys only are validated with matching reports, and
built as equal entities or refused with matching failures. -/
theorem reordered_outcomes (conforming : schema.Conforming entity)
    (typed : schema.TypedCases entity) (respects : schema.Respects same entity)
    (indifferent : endpoint.registry.Indifferent) {value other : Value}
    (keys : value.Every Value.DistinctKeys) (reordered : Value.Reordered value other)
    (locale : String) :
    EndsAlike Report.Matches (endpoint.validate schema entity value locale).result
        (endpoint.validate schema entity other locale).result ∧
      EndsAlike (same entity) (endpoint.decode schema entity value locale).result
        (endpoint.decode schema entity other locale).result := by
  have kind := Value.reordered_kind reordered
  by_cases object : value.kind = .object
  · cases reordered with
    | scalar flat => cases value <;> contradiction
    | array => contradiction
    | @object entries middle others moved each =>
        have matched : ((endpoint.scope locale).entityReport schema entity
            (.object entries)).Matches
              ((endpoint.scope locale).entityReport schema entity (.object others)) :=
          Scope.reports_reordered indifferent _ keys entity typed _ (.object moved each)
        have empty := Report.matches_isEmpty matched
        refine ⟨.ok matched, ?_⟩
        simp only [decode, validate, Scope.validate_object, ← empty]
        split
        case isTrue clean =>
          exact endpoint.built_reordered conforming respects keys (.object moved each) locale clean
            (empty ▸ clean)
        case isFalse => exact .error (.invalid _ matched)
  · have also : other.kind ≠ .object := kind ▸ object
    simp only [decode, validate_other endpoint schema entity object,
      validate_other endpoint schema entity also, kind]
    exact ⟨.error (.notAMap _ _), .error (.notAMap _ _)⟩

end Endpoint

/-! A page of the atlas and the same page turned around: its first place comes last. -/
namespace Gazetteer

theorem conforms (entity : Gazetteer) : schema.Conforming entity := by
  apply Table.tables_conform
  intro member row declared
  cases member with
  | atlas =>
      simp only [table, List.mem_cons, List.not_mem_nil, or_false] at declared
      rcases declared with rfl | rfl
      · exact .optional .str
      · exact .keyed "places" Gazetteer.place
  | place =>
      simp only [table, List.mem_cons, List.not_mem_nil, or_false] at declared
      rcases declared with rfl | rfl
      · exact .required .str
      · exact .required .double

theorem typed_cases (entity : Gazetteer) : schema.TypedCases entity := by
  intro member _ spec declared choices shape
  cases member <;>
    simp only [table, List.map_cons, List.map_nil, List.mem_cons, List.not_mem_nil,
      or_false] at declared <;>
    rcases declared with rfl | rfl <;> cases shape

-- At most two places fit on one page.
def crowded : Validator
  | .object entries => ⟨1, if entries.length > 2 then some "crowded" else none⟩
  | _ => ⟨1, none⟩

def endpoint : Endpoint Gazetteer :=
  ⟨⟨true⟩, ⟨[(.atlas, [("places", crowded)])]⟩, [.json], .json, "en"⟩

theorem indifferent : endpoint.registry.Indifferent := by
  intro owner field check asked value other reordered
  obtain rfl : crowded = check := by
    simp only [endpoint, Registry.get?, List.lookup_cons, List.lookup_nil] at asked
    split at asked
    · simp only [Option.bind_some, List.lookup_cons, List.lookup_nil] at asked
      split at asked
      · exact Option.some.inj asked
      · contradiction
    · contradiction
  cases reordered with
  | scalar => rfl
  | array => rfl
  | object moved each => simp [crowded, moved.length_eq, each.length_eq]

def page (first second : String × Value) : Value :=
  .object [("title", .str "Alps"), ("places", .object [first, second])]

def turned (first second : String × Value) : Value :=
  .object [("places", .object [second, first]), ("title", .str "Alps")]

theorem page_turned (first second : String × Value) :
    Value.Reordered (page first second) (turned first second) := by
  have kept (entry : String × Value) : SameKey Value.Reordered entry entry :=
    .mk (Value.reordered_refl entry.2)
  have places : Value.Reordered (.object [first, second]) (.object [second, first]) :=
    .object (.swap second first []) (.cons (kept second) (.cons (kept first) .nil))
  exact .object (.swap _ _ []) (.cons (.mk places) (.cons (kept ("title", .str "Alps")) .nil))

def known : Value := .object [("name", .str "Eiger"), ("alt", .integer 3967)]

def nameless : Value := .object [("alt", .integer 4158)]

def vague : Value := .object [("name", .str "Jungfrau"), ("alt", .str "high")]

theorem turned_page :
    (schema.Conforming .atlas ∧ schema.TypedCases .atlas ∧
      schema.Respects (fun _ => Record.Same) .atlas ∧ endpoint.registry.Indifferent ∧
      (page ("a", known) ("b", known)).Every Value.DistinctKeys ∧
      (page ("a", nameless) ("b", vague)).Every Value.DistinctKeys ∧
      ∀ first second, Value.Reordered (page first second) (turned first second)) ∧
    (∃ built again,
      (endpoint.decode schema .atlas (page ("a", known) ("b", known)) "").result = .ok built ∧
      (endpoint.decode schema .atlas (turned ("a", known) ("b", known)) "").result = .ok again ∧
      built.Same again) ∧
    ∃ report other,
      (endpoint.decode schema .atlas (page ("a", nameless) ("b", vague)) "").result =
        .error (.invalid "Atlas" report) ∧
      (endpoint.decode schema .atlas (turned ("a", nameless) ("b", vague)) "").result =
        .error (.invalid "Atlas" other) ∧
      report.size = 2 ∧ report.Matches other := by
  have conforming := conforms .atlas
  have typed := typed_cases .atlas
  have respects := Table.tables_respect table .atlas
  have clean : (page ("a", known) ("b", known)).Every Value.DistinctKeys := by decide
  have flawed : (page ("a", nameless) ("b", vague)).Every Value.DistinctKeys := by decide
  refine ⟨⟨conforming, typed, respects, indifferent, clean, flawed, page_turned⟩, ?built, ?refused⟩
  case built =>
    obtain ⟨-, ends⟩ := endpoint.reordered_outcomes conforming typed respects indifferent clean
      (page_turned ("a", known) ("b", known)) ""
    exact ⟨_, _, rfl, rfl, ends.related⟩
  case refused =>
    have size : ((endpoint.scope "").entityReport schema .atlas
      (page ("a", nameless) ("b", vague))).size = 2 := by decide +kernel
    have filled : ((endpoint.scope "").entityReport schema .atlas
      (page ("a", nameless) ("b", vague))).isEmpty = false := by decide +kernel
    have filledToo : ((endpoint.scope "").entityReport schema .atlas
      (turned ("a", nameless) ("b", vague))).isEmpty = false := by decide +kernel
    have ends value := endpoint.decode_decodes (schema.conforming_relays conforming) value ""
    obtain ⟨validated, -⟩ := endpoint.reordered_outcomes conforming typed respects indifferent
      flawed (page_turned ("a", nameless) ("b", vague)) ""
    refine ⟨_, _, Endpoint.ends_reported (ends _) rfl filled,
      Endpoint.ends_reported (ends _) rfl filledToo, size, validated.related⟩

end Gazetteer

end Interchange
