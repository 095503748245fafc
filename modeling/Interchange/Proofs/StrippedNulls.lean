import Interchange.Proofs.MessagePack.RoundTrip
import Interchange.Proofs.PackedBytes
import Interchange.Proofs.RetoldValues
/-!
What a binary map takes from the value that is packed into it: the nulls inside arrays, at every
depth, and nothing else. A value that was unpacked once comes back unchanged ever after.
-/
namespace Interchange

namespace Value

theorem told_present {keeps : Value → Bool} {value told : Value}
    (retold : Retold .bytes keeps value told) : told.present = value.present := by
  cases retold <;> rfl

theorem told_items_present {value told : Value} (retold : Retold .bytes present value told) :
    told.ItemsPresent := by
  cases retold with
  | array each =>
      intro part member
      obtain ⟨item, kept, retold⟩ := related_source each part member
      exact (told_present retold).trans (List.mem_filter.mp kept).2
  | _ => trivial

theorem told_distinct {keeps : Value → Bool} {value told : Value}
    (retold : Retold .bytes keeps value told) (distinct : value.DistinctKeys) :
    told.DistinctKeys := by
  cases retold with
  | object keys each =>
      rw [DistinctKeys, keys]
      exact distinct
  | _ => trivial

theorem told_sized {keeps : Value → Bool} {value told : Value}
    (retold : Retold .bytes keeps value told) (sized : MessagePack.Sized value) :
    MessagePack.Sized told := by
  cases retold with
  | str => exact sized
  | bytes => exact sized
  | @array items told each =>
      have fewer : told.length ≤ items.length :=
        each.length_eq ▸ List.length_filter_le keeps items
      exact Nat.lt_of_le_of_lt fewer sized
  | @object entries told keys each =>
      have many : told.length = entries.length := by simpa using congrArg List.length keys
      refine ⟨many ▸ sized.1, fun entry member => ?_⟩
      have named : entry.1 ∈ entries.map (·.1) := keys ▸ List.mem_map_of_mem member
      obtain ⟨source, held, same⟩ := List.mem_map.mp named
      exact same ▸ sized.2 source held
  | _ => trivial

theorem retold_whole (value : Value) : value.Every ItemsPresent →
    ∀ told, Retold .bytes present value told → Retold .bytes (fun _ => true) value told := by
  induction value using inside_induction with
  | step value ih =>
      intro full told retold
      cases retold with
      | small same => exact .small same
      | large high => exact .large high
      | @array items told each =>
          rw [List.filter_eq_self.mpr (every_here full)] at each
          refine .array ?_
          rw [List.filter_true]
          exact related_imp each fun item held part retold =>
            ih item (.item held) (every_item full held) part retold
      | @object entries told keys each =>
          refine .object keys (related_imp each fun source held part retold => ?_)
          obtain ⟨entry, declared, rfl⟩ := List.mem_map.mp held
          exact ih entry.2 (.entry declared) (every_entry full declared) part retold
      | _ => constructor

theorem whole_present (value : Value) : ∀ told, Retold .bytes (fun _ => true) value told →
    told.Every ItemsPresent → value.Every ItemsPresent := by
  induction value using inside_induction with
  | step value ih =>
      intro told retold full
      cases retold with
      | @array items told each =>
          rw [List.filter_true] at each
          refine (every_array _ _).mpr ⟨fun item member => ?_, fun item member => ?_⟩
          · obtain ⟨part, held, retold⟩ := related_source each.flip item member
            exact (told_present retold).symm.trans (every_here full part held)
          · obtain ⟨part, held, retold⟩ := related_source each.flip item member
            exact ih item (.item member) part retold (every_item full held)
      | @object entries told keys each =>
          refine (every_object _ _).mpr ⟨trivial, fun entry member => ?_⟩
          obtain ⟨source, held, retold⟩ := related_source each.flip _ (List.mem_map_of_mem member)
          obtain ⟨part, given, rfl⟩ := List.mem_map.mp held
          exact ih entry.2 (.entry member) part.2 retold (every_entry full given)
      | _ => exact (every_scalar _ _ rfl).mpr trivial

/-- Told again, what was told is the same. -/
theorem retold_again (value : Value) :
    ∀ told, Retold .bytes present value told → Retold .bytes present told told := by
  induction value using inside_induction with
  | step value ih =>
      intro told retold
      have full := told_items_present retold
      have each : ∀ part, Inside part told → Retold .bytes present part part := by
        intro part inside
        obtain ⟨source, within, retold⟩ := retold_source (fun _ => rfl) inside value retold
        exact ih source within part retold
      cases retold with
      | large high => exact .large high
      | array =>
          refine .array ?_
          rw [List.filter_eq_self.mpr full, List.forall₂_same]
          exact fun part member => each part (.item member)
      | object =>
          refine .object rfl ?_
          rw [List.forall₂_map_left_iff, List.forall₂_map_right_iff, List.forall₂_same]
          exact fun entry member => each entry.2 (.entry member)
      | _ => constructor

theorem normalize_present (value : Value) : value.normalize.present = value.present := by
  cases value with
  | unsigned number =>
      rw [normalize, ofUnsigned]
      split <;> rfl
  | _ => rfl

theorem retold_stripped (value : Value) :
    Retold .bytes present value value.normalize.stripNulls := by
  refine retold_pass (fun value => value.normalize.stripNulls) ?_ ?_ ?_ value
  · intro value scalar
    cases value with
    | unsigned number => exact retold_unsigned stripNulls (fun _ => rfl) (fun _ => rfl) number
    | array => contradiction
    | object => contradiction
    | _ => constructor
  · intro items
    have same : present ∘ normalize = present := funext normalize_present
    simp only [normalize, stripNulls, normalize_items, strip_items, List.filter_map, same,
      List.map_map, Function.comp_def]
  · intro entries
    simp only [normalize, stripNulls, normalize_entries, strip_entries, List.map_map,
      Function.comp_def]

end Value

namespace Codecs

theorem pack_image (codecs : Codecs) (value : Value) (sized : value.Every MessagePack.Sized) :
    codecs.pack value .binaryMap = (.ok (MessagePack.image value), .fresh) := by
  have written := MessagePack.encode_image value sized codecs.writer
  simp only [pack, Codec.ofFormat?, encode, written]
  rfl

theorem unpack_image (codecs : Codecs) (value : Value) (sized : value.Every MessagePack.Sized)
    (distinct : value.Every Value.DistinctKeys) (shallow : value.height ≤ MessagePack.maxDepth)
    (allowed : List ContentType) (accepted : .binaryMap ∈ allowed) :
    codecs.unpack (MessagePack.image value) .binaryMap allowed =
      .ok value.normalize.stripNulls := by
  have read := MessagePack.decode_image value sized distinct MessagePack.maxDepth
  rw [if_pos shallow] at read
  have decoded : Codec.messagePack.decode (MessagePack.image value) = .ok value.normalize :=
    congrArg (Except.mapError CodecFault.messagePack) read
  rw [codecs.unpack_listed accepted, Codec.ofFormat?]
  simp only [decoded]
  rfl

/--
A value that is packed as a binary map comes back without the nulls inside its arrays and with all
else in place, so in full exactly if its arrays hold no nulls; a second trip changes nothing.
-/
theorem unpack_pack_map (codecs : Codecs) (value : Value)
    (sized : value.Every MessagePack.Sized) (distinct : value.Every Value.DistinctKeys)
    (shallow : value.height ≤ MessagePack.maxDepth) (allowed : List ContentType)
    (accepted : .binaryMap ∈ allowed) :
    ∃ bytes kept, (codecs.pack value .binaryMap).1 = .ok bytes ∧
      codecs.unpack bytes .binaryMap allowed = .ok kept ∧
      Value.Retold .bytes Value.present value kept ∧
      (∀ other, Value.Retold .bytes Value.present value other → other = kept) ∧
      kept.Every Value.ItemsPresent ∧
      (Value.Retold .bytes (fun _ => true) value kept ↔ value.Every Value.ItemsPresent) ∧
      ∃ again, (codecs.pack kept .binaryMap).1 = .ok again ∧
        codecs.unpack again .binaryMap allowed = .ok kept := by
  have retold := Value.retold_stripped value
  have unpacked := codecs.unpack_image value sized distinct shallow allowed accepted
  generalize value.normalize.stripNulls = kept at retold unpacked
  have plain : ∀ content, (Value.bytes content).isContainer = false := fun _ => rfl
  have unique : ∀ other, Value.Retold .bytes Value.present value other → other = kept :=
    fun other found => Value.retold_unique value other kept found retold
  have full : kept.Every Value.ItemsPresent :=
    Value.retold_every plain (fun _ _ retold _ => Value.told_items_present retold) retold sized
  have whole : Value.Retold .bytes (fun _ => true) value kept ↔
      value.Every Value.ItemsPresent :=
    ⟨fun whole => Value.whole_present value kept whole full,
      fun present => Value.retold_whole value present kept retold⟩
  -- What comes back can be packed again, and is then the one retelling of itself.
  have sizedKept := Value.retold_every plain (fun _ _ => Value.told_sized) retold sized
  have distinctKept := Value.retold_every plain (fun _ _ => Value.told_distinct) retold distinct
  have shallowKept := Nat.le_trans (Value.retold_height plain value kept retold) shallow
  have settled : kept.normalize.stripNulls = kept :=
    Value.retold_unique kept _ _ (Value.retold_stripped kept)
      (Value.retold_again value kept retold)
  have again := codecs.unpack_image kept sizedKept distinctKept shallowKept allowed accepted
  rw [settled] at again
  exact ⟨_, kept, congrArg Prod.fst (codecs.pack_image value sized), unpacked, retold, unique,
    full, whole, _, congrArg Prod.fst (codecs.pack_image kept sizedKept), again⟩

/-- Nulls go from an array under a key of a map in an array, and stay under keys. -/
theorem unpack_pack_map_nested :
    let value := Value.array [.null, .object [("a", .null), ("b", .array
      [.unsigned 7, .null, .array [.null], .unsigned 0xFFFFFFFFFFFFFFFF])], .bytes [0, 255]]
    (value.Every MessagePack.Sized ∧ value.Every Value.DistinctKeys ∧
      value.height ≤ MessagePack.maxDepth ∧ .binaryMap ∈ [ContentType.json, .binaryMap]) ∧
    ∃ bytes kept, (fresh.pack value .binaryMap).1 = .ok bytes ∧
      fresh.unpack bytes .binaryMap [.json, .binaryMap] = .ok kept ∧
      Value.Retold .bytes Value.present value kept ∧
      (∀ other, Value.Retold .bytes Value.present value other → other = kept) ∧
      kept.Every Value.ItemsPresent ∧
      (Value.Retold .bytes (fun _ => true) value kept ↔ value.Every Value.ItemsPresent) ∧
      ∃ again, (fresh.pack kept .binaryMap).1 = .ok again ∧
        fresh.unpack again .binaryMap [.json, .binaryMap] = .ok kept := by
  intro value
  have sized : value.Every MessagePack.Sized := by decide
  have distinct : value.Every Value.DistinctKeys := by decide
  have shallow : value.height ≤ MessagePack.maxDepth := by decide
  exact ⟨⟨sized, distinct, shallow, by decide⟩,
    fresh.unpack_pack_map value sized distinct shallow [.json, .binaryMap] (by decide)⟩

end Codecs

end Interchange
