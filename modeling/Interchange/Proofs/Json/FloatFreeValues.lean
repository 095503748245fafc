import Interchange.Proofs.Json.WrittenValues
import Interchange.Proofs.RetoldValues
/-!
Values without floats are told exactly by their text. Bytes come back as the text of their data
URI, while a text is a text whatever it says; numbers keep their amount and stay integers.
-/
namespace Interchange.Json

open Value (Retold)

-- What a text tells without rounding.
def FloatFree : Value → Prop
  | .float _ => False
  | _ => True

instance : DecidablePred FloatFree
  | .float _ => .isFalse id
  | .null | .bool _ | .integer _ | .unsigned _ | .str _ | .bytes _ | .array _ | .object _ =>
    .isTrue trivial

theorem float_free_legible {value : Value} (free : value.Every FloatFree) :
    value.Every Legible := by
  intro part within
  have here := free part within
  cases part with
  | float => contradiction
  | _ => trivial

theorem told_float_free {keeps : Value → Bool} {value told : Value}
    (retold : Retold byteText keeps value told) (free : FloatFree value) : FloatFree told := by
  cases retold with
  | float => contradiction
  | _ => trivial

theorem retold_carried (value : Value) :
    Retold byteText (fun _ => true) value (value.normalize.carried byteText) := by
  refine Value.retold_pass (fun value => value.normalize.carried byteText) ?_ ?_ ?_ value
  · intro value scalar
    cases value with
    | unsigned number =>
        exact Value.retold_unsigned (Value.carried byteText) (fun _ => rfl) (fun _ => rfl) number
    | array => contradiction
    | object => contradiction
    | _ => constructor
  · intro items
    simp only [Value.normalize, Value.normalize_items, Value.carried_array, List.filter_true,
      List.map_map, Function.comp_def]
  · intro entries
    simp only [Value.normalize, Value.normalize_entries, Value.carried_object, List.map_map,
      Function.comp_def]

/--
A value without floats is written as a text, and the text is read as the value: only bytes become
text, only unsigned numbers that fit the signed word change words, and no number becomes a float.
-/
theorem decode_float_free (value : Value) (free : value.Every FloatFree)
    (distinct : value.Every Value.DistinctKeys) (shallow : value.height ≤ maxDepth) :
    ∃ text back, encode value = .ok text ∧ decode text = .ok back ∧
      Retold byteText (fun _ => true) value back ∧
      (∀ other, Retold byteText (fun _ => true) value other → other = back) ∧
      back.Every FloatFree := by
  obtain ⟨written, read⟩ := decode_written value (float_free_legible free) distinct shallow
  have retold := retold_carried value
  exact ⟨_, _, written, read, retold,
    fun other found => Value.retold_unique value other _ found retold,
    Value.retold_every (fun _ => rfl) (fun _ _ => told_float_free) retold free⟩

/-- Both ends of the integers, text that looks like bytes or needs escapes, keys out of order. -/
theorem decode_float_free_record :
    let value := Value.object [("z\"\n", .array [.null, .integer (-0x8000000000000000),
        .unsigned 0xFFFFFFFFFFFFFFFF, .unsigned 7]),
      ("", .str "data:application/octet-stream;base64,AP8="),
      ("\\é🙂", .object [("k", .bytes [0, 255]), ("j", .str "\u0000/")])]
    (value.Every FloatFree ∧ value.Every Value.DistinctKeys ∧ value.height ≤ maxDepth) ∧
    ∃ text back, encode value = .ok text ∧ decode text = .ok back ∧
      Retold byteText (fun _ => true) value back ∧
      (∀ other, Retold byteText (fun _ => true) value other → other = back) ∧
      back.Every FloatFree := by
  intro value
  have free : value.Every FloatFree := by decide
  have distinct : value.Every Value.DistinctKeys := by decide
  have shallow : value.height ≤ maxDepth := by decide
  exact ⟨⟨free, distinct, shallow⟩, decode_float_free value free distinct shallow⟩

end Interchange.Json
