import Interchange.Entity.Encoding
import Interchange.Proofs.CanonicalValues
import Interchange.Proofs.DataUriRoundTrip
import Interchange.Proofs.FieldReads
/-!
Texts that carry bytes. A text is read as bytes only if it is the one that their writer makes; and that
one is what the rule of base 64 asks for: the bits of the bytes in a row, filled up with zeros, six
to a character.
-/
namespace Interchange

namespace Base64

/-! Reading undoes nothing but writing. -/
section Reading

theorem symbol_of_code {digit code : Nat} {character : Char} (known : symbol digit = .ofNat code)
    (same : code = character.toNat) : symbol digit = character := by
  rw [known, same, Char.ofNat_toNat]

theorem digit_some {character : Char} {digit : Nat} (read : digit? character = some digit) :
    digit < 64 ∧ symbol digit = character := by
  simp only [digit?, Bool.and_eq_true, decide_eq_true_eq] at read
  split at read
  · obtain rfl := Option.some.inj read
    exact ⟨by omega, symbol_of_code (by rw [symbol, if_pos (by omega)]) (by omega)⟩
  · split at read
    · obtain rfl := Option.some.inj read
      exact ⟨by omega,
        symbol_of_code (by rw [symbol, if_neg (by omega), if_pos (by omega)]) (by omega)⟩
    · split at read
      · obtain rfl := Option.some.inj read
        exact ⟨by omega, symbol_of_code
          (by rw [symbol, if_neg (by omega), if_neg (by omega), if_pos (by omega)]) (by omega)⟩
      · split at read
        · rename_i plus
          obtain rfl := Option.some.inj read
          exact ⟨by decide, plus.symm⟩
        · split at read
          · rename_i slash
            obtain rfl := Option.some.inj read
            exact ⟨by decide, slash.symm⟩
          · contradiction

theorem last_one_some {first second : Char} {bytes : List UInt8}
    (read : lastOne first second = some bytes) : [first, second, '=', '='] = encode bytes := by
  simp only [lastOne] at read
  split at read
  · rename_i a b high low
    obtain ⟨aSmall, rfl⟩ := digit_some high
    obtain ⟨bSmall, rfl⟩ := digit_some low
    obtain ⟨blank, held⟩ := Option.ite_none_right_eq_some.mp read
    obtain rfl := Option.some.inj held
    rw [encode, Utf8.byte_code _ (by omega)]
    congr 3 <;> omega
  · contradiction

theorem last_two_some {first second third : Char} {bytes : List UInt8}
    (read : lastTwo first second third = some bytes) :
    [first, second, third, '='] = encode bytes := by
  simp only [lastTwo] at read
  split at read
  · rename_i a b c high middle low
    obtain ⟨aSmall, rfl⟩ := digit_some high
    obtain ⟨bSmall, rfl⟩ := digit_some middle
    obtain ⟨cSmall, rfl⟩ := digit_some low
    obtain ⟨blank, held⟩ := Option.ite_none_right_eq_some.mp read
    obtain rfl := Option.some.inj held
    rw [encode, Utf8.byte_code _ (by omega), Utf8.byte_code _ (by omega)]
    congr 4 <;> omega
  · contradiction

theorem group_some {first second third fourth : Char} {bytes : List UInt8}
    (read : group first second third fourth = some bytes) (rest : List UInt8) :
    first :: second :: third :: fourth :: encode rest = encode (bytes ++ rest) := by
  simp only [group] at read
  split at read
  · rename_i a b c d high upper lower low
    obtain ⟨aSmall, rfl⟩ := digit_some high
    obtain ⟨bSmall, rfl⟩ := digit_some upper
    obtain ⟨cSmall, rfl⟩ := digit_some lower
    obtain ⟨dSmall, rfl⟩ := digit_some low
    obtain rfl := Option.some.inj read
    rw [List.cons_append, List.cons_append, List.cons_append, List.nil_append, encode,
      Utf8.byte_code _ (by omega), Utf8.byte_code _ (by omega), Utf8.byte_code _ (by omega)]
    congr 5 <;> omega
  · contradiction

theorem encode_of_decode {text : List Char} {bytes : List UInt8}
    (read : decode? text = some bytes) : text = encode bytes := by
  fun_induction decode? text generalizing bytes with
  | case1 =>
      obtain rfl := Option.some.inj read
      rfl
  | case3 first second rest last =>
      obtain rfl := not_ne_iff.mp last
      exact last_one_some read
  | case4 first second third rest last =>
      obtain rfl := not_ne_iff.mp last
      exact last_two_some read
  | case5 first second third fourth rest _ taken grouped ih =>
      obtain ⟨others, behind, rfl⟩ := Option.map_eq_some_iff.mp read
      rw [ih behind]
      exact group_some grouped others
  | case2 | case6 | case7 => contradiction

theorem decode_eq_some_iff (text : List Char) (bytes : List UInt8) :
    decode? text = some bytes ↔ text = encode bytes := by
  constructor
  · exact encode_of_decode
  · rintro rfl
    exact decode_encode bytes

end Reading

/-! The rule of base 64. -/
section Rule

/-- The characters, each in the place of the number that it stands for. -/
def alphabet : List Char :=
  "ABCDEFGHIJKLMNOPQRSTUVWXYZabcdefghijklmnopqrstuvwxyz0123456789+/".toList

/-- The lowest bits of a number, the highest of them first. -/
def bits (width number : Nat) : List Bool := (List.range width).reverse.map number.testBit

-- Six bits to a character. What is missing behind the last byte are zeros, and every two of
-- them are told by one more filling character.
inductive Stands : List Char → List UInt8 → Prop where
  | mk {digits : List Nat} {symbols : List Char} {filling : Nat} {bytes : List UInt8}
      (named : digits.map (alphabet[·]?) = symbols.map some) (few : filling ≤ 2)
      (filled : digits.flatMap (bits 6) =
        (bytes.flatMap fun byte => bits 8 byte.toNat) ++ List.replicate (2 * filling) false) :
      Stands (symbols ++ List.replicate filling '=') bytes

theorem bits_length (width number : Nat) : (bits width number).length = width := by simp [bits]

theorem bits_zero (width : Nat) : bits width 0 = List.replicate width false := by
  simp [bits, List.eq_replicate_iff]

theorem bits_mod (width number : Nat) : bits width (number % 2 ^ width) = bits width number := by
  refine List.map_congr_left fun place member => ?_
  have inside : place < width := by simpa using member
  simp [Nat.testBit_mod_two_pow, inside]

theorem bits_append (high low number : Nat) :
    bits (high + low) number = bits high (number / 2 ^ low) ++ bits low number := by
  rw [bits, Nat.add_comm, List.range_add]
  simp [bits, Nat.testBit_div_two_pow, Nat.add_comm, Function.comp_def]

theorem bits_joined (high front : Nat) {low back : Nat} (small : back < 2 ^ low) :
    bits (high + low) (front * 2 ^ low + back) = bits high front ++ bits low back := by
  have above : (front * 2 ^ low + back) / 2 ^ low = front := by
    rw [Nat.mul_comm, Nat.mul_add_div (Nat.two_pow_pos low), Nat.div_eq_of_lt small, Nat.add_zero]
  rw [bits_append, above, ← bits_mod low (front * 2 ^ low + back), Nat.mul_add_mod_of_lt small]

theorem bits_inj (width first second : Nat) (firstSmall : first < 2 ^ width)
    (secondSmall : second < 2 ^ width) (same : bits width first = bits width second) :
    first = second := by
  rw [bits, bits, List.map_inj_left] at same
  refine Nat.eq_of_testBit_eq fun place => ?_
  by_cases inside : place < width
  · exact same place (by simpa using inside)
  · have reach : width ≤ place := by omega
    have beyond := Nat.pow_le_pow_right (by decide : 0 < 2) reach
    rw [Nat.testBit_lt_two_pow (Nat.lt_of_lt_of_le firstSmall beyond),
      Nat.testBit_lt_two_pow (Nat.lt_of_lt_of_le secondSmall beyond)]

/-- The number whose digits are those of the front one and, of a width each, the given ones. -/
def appended (width : Nat) : Nat → List Nat → Nat :=
  List.foldl fun number digit => number * 2 ^ width + digit

theorem row_bits (width : Nat) {digits : List Nat} (small : ∀ digit ∈ digits, digit < 2 ^ width)
    (high front : Nat) :
    bits (high + width * digits.length) (appended width front digits) =
      bits high front ++ digits.flatMap (bits width) := by
  induction digits generalizing high front with
  | nil => simp [appended]
  | cons digit rest ih =>
      obtain ⟨here, later⟩ := List.forall_mem_cons.mp small
      have wider : high + width * (digit :: rest).length = high + width + width * rest.length := by
        rw [List.length_cons, Nat.mul_succ]
        omega
      have next := ih later (high + width) (front * 2 ^ width + digit)
      rw [bits_joined high front here, List.append_assoc] at next
      rw [wider, List.flatMap_cons, ← next, appended, List.foldl_cons]

theorem row_bits_zero (width : Nat) {digits : List Nat}
    (small : ∀ digit ∈ digits, digit < 2 ^ width) :
    bits (width * digits.length) (appended width 0 digits) = digits.flatMap (bits width) := by
  have row := row_bits width small 0 0
  rwa [Nat.zero_add, bits_zero, List.replicate_zero, List.nil_append] at row

theorem digits_filled (filling : Nat) {digits : List Nat} {bytes : List UInt8} {number : Nat}
    (small : ∀ digit ∈ digits, digit < 64)
    (even : 6 * digits.length = 8 * bytes.length + 2 * filling)
    (sextets : appended 6 0 digits = number * 2 ^ (2 * filling))
    (octets : appended 8 0 (bytes.map UInt8.toNat) = number) :
    digits.flatMap (bits 6) =
      (bytes.flatMap fun byte => bits 8 byte.toNat) ++ List.replicate (2 * filling) false := by
  have bounded : ∀ byte ∈ bytes.map UInt8.toNat, byte < 2 ^ 8 :=
    List.forall_mem_map.mpr fun byte member => byte.toNat_lt
  have row := row_bits_zero 8 bounded
  rw [octets, List.length_map, List.flatMap_map] at row
  have joined := bits_joined (8 * bytes.length) number (Nat.two_pow_pos (2 * filling))
  rw [← row_bits_zero 6 small, even, sextets, ← row, ← bits_zero, ← joined, Nat.add_zero]

theorem octets_two (first second : UInt8) :
    appended 8 0 ([first, second].map UInt8.toNat) = first.toNat * 256 + second.toNat := by
  simp only [appended, List.map_cons, List.map_nil, List.foldl_cons, List.foldl_nil]
  omega

theorem octets_three (first second third : UInt8) :
    appended 8 0 ([first, second, third].map UInt8.toNat) =
      first.toNat * 65536 + second.toNat * 256 + third.toNat := by
  simp only [appended, List.map_cons, List.map_nil, List.foldl_cons, List.foldl_nil]
  omega

theorem sextets_two (number : Nat) : appended 6 0 [number / 64, number % 64] = number := by
  simp only [appended, List.foldl_cons, List.foldl_nil]
  omega

theorem sextets_three (number : Nat) :
    appended 6 0 [number / 4096, number / 64 % 64, number % 64] = number := by
  simp only [appended, List.foldl_cons, List.foldl_nil]
  omega

theorem sextets_four (number : Nat) :
    appended 6 0 [number / 262144, number / 4096 % 64, number / 64 % 64, number % 64] = number := by
  simp only [appended, List.foldl_cons, List.foldl_nil]
  omega

theorem alphabet_symbol (digit : Nat) (small : digit < 64) :
    alphabet[digit]? = some (symbol digit) := by
  have every : ∀ digit < 64, alphabet[digit]? = some (symbol digit) := by decide
  exact every digit small

theorem symbols_named {digits : List Nat} (small : ∀ digit ∈ digits, digit < 64) :
    digits.map (alphabet[·]?) = (digits.map symbol).map some := by
  rw [List.map_map]
  exact List.map_congr_left fun digit member => alphabet_symbol digit (small digit member)

theorem stands_append {digits : List Nat} {text : List Char} {front back : List UInt8}
    (small : ∀ digit ∈ digits, digit < 64)
    (filled : digits.flatMap (bits 6) = front.flatMap fun byte => bits 8 byte.toNat)
    (behind : Stands text back) : Stands (digits.map symbol ++ text) (front ++ back) := by
  cases behind with
  | @mk others symbols filling _ named few row =>
      rw [← List.append_assoc]
      refine @Stands.mk (digits ++ others) _ filling _ ?_ few ?_
      · rw [List.map_append, symbols_named small, named, ← List.map_append]
      · rw [List.flatMap_append, filled, row, List.flatMap_append, List.append_assoc]

theorem stands_encode (bytes : List UInt8) : Stands (encode bytes) bytes := by
  induction bytes using encode.induct with
  | case1 => exact @Stands.mk [] [] 0 [] rfl (by decide) rfl
  | case2 first =>
      have bound := first.toNat_lt
      have small : ∀ digit ∈ [first.toNat * 16 / 64, first.toNat * 16 % 64], digit < 64 := by
        simp only [List.forall_mem_cons, List.not_mem_nil, false_implies, implies_true, and_true]
        omega
      have one : appended 8 0 ([first].map UInt8.toNat) = first.toNat := Nat.zero_add _
      exact @Stands.mk _ _ 2 [first] (symbols_named small) (by decide)
        (digits_filled 2 small rfl (sextets_two _) one)
  | case3 first second =>
      have high := first.toNat_lt
      have low := second.toNat_lt
      let number := (first.toNat * 256 + second.toNat) * 4
      have small : ∀ digit ∈ [number / 4096, number / 64 % 64, number % 64], digit < 64 := by
        simp only [List.forall_mem_cons, List.not_mem_nil, false_implies, implies_true, and_true]
        omega
      exact @Stands.mk _ _ 1 [first, second] (symbols_named small) (by decide)
        (digits_filled 1 small rfl (sextets_three _) (octets_two first second))
  | case4 first second third rest ih =>
      have high := first.toNat_lt
      have middle := second.toNat_lt
      have low := third.toNat_lt
      let number := first.toNat * 65536 + second.toNat * 256 + third.toNat
      have small : ∀ digit ∈ [number / 262144, number / 4096 % 64, number / 64 % 64, number % 64],
          digit < 64 := by
        simp only [List.forall_mem_cons, List.not_mem_nil, false_implies, implies_true, and_true]
        omega
      have whole := (sextets_four number).trans (Nat.mul_one number).symm
      have filled := digits_filled 0 small rfl whole (octets_three first second third)
      rw [encode]
      exact stands_append small (filled.trans (List.append_nil _)) ih

theorem named_small {digits : List Nat} {symbols : List Char}
    (named : digits.map (alphabet[·]?) = symbols.map some) : ∀ digit ∈ digits, digit < 64 := by
  intro digit member
  have held : alphabet[digit]? ∈ symbols.map some := named ▸ List.mem_map_of_mem member
  obtain ⟨symbol, -, found⟩ := List.mem_map.mp held
  exact (List.getElem?_eq_some_iff.mp found.symm).1

theorem row_inj {width : Nat} {first second : List Nat} (long : first.length = second.length)
    (firstSmall : ∀ digit ∈ first, digit < 2 ^ width)
    (secondSmall : ∀ digit ∈ second, digit < 2 ^ width)
    (same : first.flatMap (bits width) = second.flatMap (bits width)) : first = second := by
  induction first generalizing second with
  | nil => exact (List.length_eq_zero_iff.mp long.symm).symm
  | cons digit rest ih =>
      cases second with
      | nil => contradiction
      | cons other others =>
          obtain ⟨here, later⟩ := List.forall_mem_cons.mp firstSmall
          obtain ⟨there, behind⟩ := List.forall_mem_cons.mp secondSmall
          rw [List.flatMap_cons, List.flatMap_cons] at same
          obtain ⟨front, back⟩ := List.append_inj same (by rw [bits_length, bits_length])
          rw [bits_inj width digit other here there front, ih (Nat.succ.inj long) later behind back]

theorem filled_length {digits : List Nat} {bytes : List UInt8} {filling : Nat}
    (filled : digits.flatMap (bits 6) =
      (bytes.flatMap fun byte => bits 8 byte.toNat) ++ List.replicate (2 * filling) false) :
    digits.length * 6 = bytes.length * 8 + 2 * filling := by
  have lengths := congrArg List.length filled
  simpa only [List.length_append, List.length_replicate, List.length_flatMap, bits_length,
    List.map_const', List.sum_replicate, smul_eq_mul] using lengths

/-- The rule leaves one text only: the length tells the filling, and the bits tell the digits. -/
theorem stands_unique {first second : List Char} {bytes : List UInt8}
    (one : Stands first bytes) (two : Stands second bytes) : first = second := by
  cases one with
  | @mk digits symbols filling _ named few filled =>
      cases two with
      | @mk others letters padding _ spelled scarce padded =>
          have sizes := filled_length filled
          have lengths := filled_length padded
          obtain rfl : filling = padding := by omega
          obtain rfl := row_inj (by omega) (named_small named) (named_small spelled)
            (filled.trans padded.symm)
          rw [List.map_injective_iff.mpr (Option.some_injective Char) (named.symm.trans spelled)]

theorem stands_iff (text : List Char) (bytes : List UInt8) :
    Stands text bytes ↔ text = encode bytes := by
  constructor
  · intro stands
    exact stands_unique stands (stands_encode bytes)
  · rintro rfl
    exact stands_encode bytes

end Rule

end Base64

namespace DataUri

theorem bytes_iff (text : String) (content : List UInt8) :
    bytes? text = some content ↔ text = ofBytes content := by
  rw [bytes?, Option.ite_none_right_eq_some, List.isPrefixOf_iff_prefix, Base64.decode_eq_some_iff,
    ← String.toList_inj, of_bytes_list]
  constructor
  · rintro ⟨⟨rest, whole⟩, behind⟩
    rw [← whole, List.drop_left] at behind
    rw [← whole, behind]
  · intro same
    rw [same, List.drop_left]
    exact ⟨List.prefix_append _ _, rfl⟩

theorem bytes_iff_stands (text : String) (content : List UInt8) :
    bytes? text = some content ↔
      ∃ symbols, text = start ++ String.ofList symbols ∧ Base64.Stands symbols content := by
  simp only [bytes_iff, ofBytes, Base64.stands_iff]
  constructor
  · intro whole
    exact ⟨_, whole, rfl⟩
  · rintro ⟨symbols, whole, rfl⟩
    exact whole

end DataUri

namespace Json

/-- Text stays text: nothing in a document is read as a byte string. -/
theorem decoded_no_bytes {document : List UInt8} {value : Value}
    (decoded : decode document = .ok value) :
    value.Every fun part => ∀ content, part ≠ .bytes content := by
  refine decode_every (fun tree content same => ?_) decoded
  cases tree with
  | number number =>
      cases number with
      | natural number =>
          rw [Tree.toValue, Number.toValue, Value.ofUnsigned] at same
          split at same <;> contradiction
      | _ => contradiction
  | _ => contradiction

end Json

theorem ScalarType.bytes_from_text {stored : Value} {content : List UInt8}
    (textual : ∀ bytes, stored ≠ .bytes bytes) (read : bytes.read? stored = some content) :
    stored = .str (DataUri.ofBytes content) := by
  cases stored with
  | bytes bytes => exact absurd rfl (textual bytes)
  | str text => rw [(DataUri.bytes_iff text content).mp read]
  | _ => contradiction

section Fields
variable {Entity : Type} {schema : Schema Entity} {options : Options} {entity : Entity}
  {entries : List (String × Value)} {name : String}

theorem Schema.required_read {type : ScalarType} {result : type.Carrier}
    (read : (schema.fieldsOf options (schema.wireKeys entity) entries).read name (.required type) =
      .ok result) :
    ∃ stored, schema.stored? options entity name entries = some stored ∧
      type.read? stored = some result := by
  rw [Fields.read, Fields.demand, Schema.fields_part] at read
  cases held : schema.stored? options entity name entries with
  | none =>
      rw [held] at read
      contradiction
  | some stored =>
      rw [held, Option.map_some] at read
      simp only [Schema.part_value, Fields.scalar] at read
      refine ⟨stored, rfl, ?_⟩
      split at read
      · rename_i found known
        rw [known, Except.ok.inj read]
      · contradiction

end Fields

/-- A text is read as bytes only if it is the one that is written for them, which is the text that the
rule of base 64 asks for. So bytes that are read from a document, alone or as a field of an entity,
are written into the text that they were read from. -/
theorem data_uris_one_to_one :
    (∀ text content, DataUri.bytes? text = some content ↔ text = DataUri.ofBytes content) ∧
    (∀ text content, DataUri.bytes? text = some content ↔
      ∃ symbols, text = DataUri.start ++ String.ofList symbols ∧
        Base64.Stands symbols content) ∧
    (∀ document value, Json.decode document = .ok value →
      value.Every fun stored => ∀ content, ScalarType.bytes.read? stored = some content →
        ∃ text, stored = .str text ∧
          Json.Tree.ofValue (ScalarType.bytes.write content) = .ok (.str text)) ∧
    ∀ {Entity : Type} (schema : Schema Entity) (options : Options) (entity : Entity)
      (document : List UInt8) (value : Value) (entries : List (String × Value)) (name : String)
      (content : List UInt8), Json.decode document = .ok value →
      (Value.object entries = value ∨ (Value.object entries).Inside value) →
      (schema.fieldsOf options (schema.wireKeys entity) entries).read name (.required .bytes) =
        .ok content →
      ∃ text written, schema.stored? options entity name entries = some (.str text) ∧
        (Record.mk (schema.name entity) (schema.wireKeys entity)
          [(name, .scalar .bytes content)]).encode options = .ok written ∧
        Json.Tree.ofValue written =
          .ok (.object [(wireKey (schema.wireKeys entity) name options, .str text)]) := by
  refine ⟨DataUri.bytes_iff, DataUri.bytes_iff_stands, ?parts, ?fields⟩
  case parts =>
    intro document value decoded stored part content read
    have textual := Json.decoded_no_bytes decoded stored part
    exact ⟨_, ScalarType.bytes_from_text textual read, rfl⟩
  case fields =>
    intro Entity schema options entity document value entries name content decoded part read
    obtain ⟨stored, held, found⟩ := Schema.required_read read
    have own : stored.Inside (.object entries) := .entry (Value.mem_of_lookup _ _ _ held)
    have inside : stored.Inside value := by
      rcases part with rfl | inside
      · exact own
      · exact .deeper own inside
    have textual := Json.decoded_no_bytes decoded stored (Or.inr inside)
    rw [ScalarType.bytes_from_text textual found] at held
    exact ⟨_, _, held, rfl, rfl⟩

/-- A comment of three bytes is written in a document, and read from it as a field. -/
theorem data_uri_comment :
    let source := Value.object [("comment", .bytes [0, 1, 2])]
    let text := DataUri.ofBytes [0, 1, 2]
    let entries := [("comment", Value.str text)]
    let fields := Ledger.schema.fieldsOf ⟨true⟩ (Ledger.schema.wireKeys .movement) entries
    ∃ document, Json.encode source = .ok document ∧ Json.decode document = .ok (.object entries) ∧
      ScalarType.bytes.read? (.str text) = some [0, 1, 2] ∧
      (∃ again, Value.str text = .str again ∧
        Json.Tree.ofValue (ScalarType.bytes.write [0, 1, 2]) = .ok (.str again)) ∧
      fields.read "comment" (.required .bytes) = .ok [0, 1, 2] ∧
      ∃ again written,
        Ledger.schema.stored? ⟨true⟩ .movement "comment" entries = some (.str again) ∧
        (Record.mk (Ledger.schema.name .movement) (Ledger.schema.wireKeys .movement)
          [("comment", .scalar .bytes [0, 1, 2])]).encode ⟨true⟩ = .ok written ∧
        Json.Tree.ofValue written = .ok (.object [("comment", .str again)]) := by
  intro source text entries fields
  have legible : source.Every Json.Legible := by
    refine (Value.every_object _ _).mpr ⟨trivial, ?_⟩
    simp only [List.forall_mem_cons]
    exact ⟨(Value.every_scalar _ _ rfl).mpr trivial, by simp⟩
  have distinct : source.Every Value.DistinctKeys := by
    refine (Value.every_object _ _).mpr ⟨List.nodup_singleton _, ?_⟩
    simp only [List.forall_mem_cons]
    exact ⟨(Value.every_scalar _ _ rfl).mpr trivial, by simp⟩
  obtain ⟨written, decoded⟩ := Json.decode_written source legible distinct (by decide)
  have found : ScalarType.bytes.read? (.str text) = some [0, 1, 2] := DataUri.bytes_of_bytes _
  have stored : Ledger.schema.stored? ⟨true⟩ .movement "comment" entries = some (.str text) := rfl
  have read : fields.read "comment" (.required .bytes) = .ok [0, 1, 2] := by
    rw [Fields.read, Fields.demand, Schema.fields_part, stored, Option.map_some]
    simp only [Schema.part_value, Fields.scalar, found]
  obtain ⟨-, -, parts, inside⟩ := data_uris_one_to_one
  exact ⟨_, written, decoded, found,
    parts _ _ decoded _ (Or.inr (.entry (List.mem_singleton.mpr rfl))) [0, 1, 2] found, read,
    inside Ledger.schema ⟨true⟩ .movement _ _ entries "comment" [0, 1, 2] decoded (Or.inl rfl) read⟩

end Interchange
