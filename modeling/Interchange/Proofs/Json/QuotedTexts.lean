import Interchange.Json.Reader
import Interchange.Proofs.Json.Images
import Interchange.Proofs.Utf8RoundTrip
/-!
Every text comes back from between its quotes. The reader undoes one escape after the other and takes
all other bytes as they are; at the closing quote it holds the bytes of the text.
-/
namespace Interchange.Json.Read

/-- A byte of a text that stands for itself. -/
def Plain (byte : UInt8) : Prop := byte ≠ code '"' ∧ byte ≠ code '\\' ∧ 0x20 ≤ byte.toNat

theorem text_plain (byte : UInt8) (plain : Plain byte) (read rest : List UInt8) :
    text read (byte :: rest) = text (byte :: read) rest := by
  obtain ⟨noQuote, noSlash, printable⟩ := plain
  rw [text.eq_def]
  simp only [noQuote, noSlash, ↓reduceIte]
  rw [if_neg (Nat.not_lt.mpr printable)]

theorem text_plain_all (bytes : List UInt8) (plain : ∀ byte ∈ bytes, Plain byte)
    (read rest : List UInt8) : text read (bytes ++ rest) = text (bytes.reverse ++ read) rest := by
  induction bytes generalizing read with
  | nil => rfl
  | cons byte others ih =>
      obtain ⟨head, tail⟩ := List.forall_mem_cons.mp plain
      rw [List.cons_append, text_plain byte head, ih tail, List.reverse_cons, List.append_assoc,
        List.singleton_append]

theorem plain_of_code (amount : Nat) (low : 0x20 ≤ amount) (high : amount < 256)
    (noQuote : amount ≠ 0x22) (noSlash : amount ≠ 0x5c) : Plain (.ofNat amount) := by
  have kept := Utf8.byte_code amount high
  refine ⟨?_, ?_, by omega⟩
  · intro same
    rw [same] at kept
    exact noQuote kept.symm
  · intro same
    rw [same] at kept
    exact noSlash kept.symm

theorem char_of_toNat (character other : Char) (same : character.toNat = other.toNat) :
    character = other := by
  rw [← Char.ofNat_toNat character, same, Char.ofNat_toNat]

/-- Characters that are not escaped have plain bytes only. -/
theorem plain_char (character : Char) (noQuote : character ≠ '"') (noSlash : character ≠ '\\')
    (printable : 0x20 ≤ character.toNat) : ∀ byte ∈ Utf8.encodeChar character, Plain byte := by
  have valid := Utf8.char_code character
  have quote : character.toNat ≠ 0x22 := fun same => noQuote (char_of_toNat _ '"' same)
  have slash : character.toNat ≠ 0x5c := fun same => noSlash (char_of_toNat _ '\\' same)
  intro byte member
  simp only [Utf8.encodeChar] at member
  split at member
  · simp only [List.mem_singleton] at member
    subst member
    exact plain_of_code _ printable (by omega) quote slash
  · split at member
    · simp only [List.mem_cons, List.not_mem_nil, or_false] at member
      rcases member with rfl | rfl <;>
        exact plain_of_code _ (by omega) (by omega) (by omega) (by omega)
    · split at member
      · simp only [List.mem_cons, List.not_mem_nil, or_false] at member
        rcases member with rfl | rfl | rfl <;>
          exact plain_of_code _ (by omega) (by omega) (by omega) (by omega)
      · simp only [List.mem_cons, List.not_mem_nil, or_false] at member
        rcases member with rfl | rfl | rfl | rfl <;>
          exact plain_of_code _ (by omega) (by omega) (by omega) (by omega)

/-- The escape of a control character by its number reads as that character. -/
theorem text_control (character : Char) (control : character.toNat < 0x20)
    (read rest : List UInt8) :
    text read (Utf8.encodeChars ['\\', 'u', '0', '0', Nat.digitChar (character.toNat / 16),
      Nat.digitChar (character.toNat % 16)] ++ rest) =
      text ((Utf8.encodeChar character).reverse ++ read) rest := by
  have digits : ∀ amount < 0x20,
      Utf8.encodeChars ['\\', 'u', '0', '0', Nat.digitChar (amount / 16),
        Nat.digitChar (amount % 16)] = [0x5c, 0x75, 0x30, 0x30, code (Nat.digitChar (amount / 16)),
          code (Nat.digitChar (amount % 16))] ∧
      hexNumber? 0x30 0x30 (code (Nat.digitChar (amount / 16)))
        (code (Nat.digitChar (amount % 16))) = some amount := by decide
  obtain ⟨bytes, number⟩ := digits character.toNat control
  have scalar : unit16 character.toNat = .scalar character := by
    have low : character.toNat < 0xD800 := by omega
    simp [unit16, low, Char.ofNat_toNat]
  rw [bytes, text.eq_def]
  simp only [List.cons_append, List.nil_append, number, Option.map_some, scalar]
  rfl

theorem text_short (letter plain : UInt8) (short : shortEscape? letter = some plain)
    (named : letter ≠ code 'u') (read rest : List UInt8) :
    text read (code '\\' :: letter :: rest) = text (plain :: read) rest := by
  have slash : code '\\' ≠ code '"' := by decide
  rw [text.eq_def]
  simp only [slash, named, short, ↓reduceIte]

-- The escapes that have a letter of their own: character and letter.
def lettered : List (Char × Char) :=
  [('"', '"'), ('\\', '\\'), ('\x08', 'b'), ('\x0c', 'f'), ('\n', 'n'), ('\r', 'r'), ('\t', 't')]

theorem lettered_bytes : ∀ pair ∈ lettered, escape pair.1 = ['\\', pair.2] ∧
    Utf8.encodeChars ['\\', pair.2] = [code '\\', code pair.2] ∧
    Utf8.encodeChar pair.1 = [code pair.1] ∧ shortEscape? (code pair.2) = some (code pair.1) ∧
    code pair.2 ≠ code 'u' :=
  forall_mem_of_all _ _ (by decide)

theorem escape_other (character : Char) (other : ∀ pair ∈ lettered, character ≠ pair.1)
    (printable : 0x20 ≤ character.toNat) : escape character = [character] := by
  simp only [lettered, List.forall_mem_cons] at other
  obtain ⟨quote, slash, back, feed, line, carriage, tab, -⟩ := other
  have low : ¬character.toNat < 0x20 := by omega
  simp only [escape, quote, slash, back, feed, line, carriage, tab, low, ↓reduceIte]

theorem escape_control (character : Char) (other : ∀ pair ∈ lettered, character ≠ pair.1)
    (control : character.toNat < 0x20) :
    escape character = ['\\', 'u', '0', '0', Nat.digitChar (character.toNat / 16),
      Nat.digitChar (character.toNat % 16)] := by
  simp only [lettered, List.forall_mem_cons] at other
  obtain ⟨quote, slash, back, feed, line, carriage, tab, -⟩ := other
  simp only [escape, quote, slash, back, feed, line, carriage, tab, control, ↓reduceIte]

theorem text_escape (character : Char) (read rest : List UInt8) :
    text read (Utf8.encodeChars (escape character) ++ rest) =
      text ((Utf8.encodeChar character).reverse ++ read) rest := by
  by_cases short : ∃ pair ∈ lettered, character = pair.1
  · obtain ⟨pair, member, rfl⟩ := short
    obtain ⟨escaped, bytes, plain, reads, letter⟩ := lettered_bytes pair member
    rw [escaped, bytes, plain]
    exact text_short _ _ reads letter read rest
  · have other : ∀ pair ∈ lettered, character ≠ pair.1 := fun pair member same =>
      short ⟨pair, member, same⟩
    by_cases control : character.toNat < 0x20
    · rw [escape_control character other control]
      exact text_control character control read rest
    · have printable : 0x20 ≤ character.toNat := by omega
      have single : Utf8.encodeChars [character] = Utf8.encodeChar character := by
        simp [Utf8.encodeChars]
      rw [escape_other character other printable, single]
      exact text_plain_all _ (plain_char character (other ('"', '"') (by decide))
        (other ('\\', '\\') (by decide)) printable) read rest

theorem text_escapes (characters : List Char) (read rest : List UInt8) :
    text read (Utf8.encodeChars (characters.flatMap escape) ++ rest) =
      text ((Utf8.encodeChars characters).reverse ++ read) rest := by
  induction characters generalizing read with
  | nil => rfl
  | cons character others ih =>
      have bytes : Utf8.encodeChars (character :: others) =
          Utf8.encodeChar character ++ Utf8.encodeChars others := by
        simp [Utf8.encodeChars]
      rw [List.flatMap_cons, Utf8.encode_chars_append, List.append_assoc, text_escape, ih, bytes,
        List.reverse_append, List.append_assoc]

/-- Behind the opening quote, a text is read up to its closing quote and not beyond. -/
theorem text_quoted (content : String) (rest : List UInt8) :
    text [] (Utf8.encodeChars (content.toList.flatMap escape) ++ (code '"' :: rest)) =
      .ok (content, rest) := by
  rw [text_escapes, text.eq_def]
  simp only [↓reduceIte, finish, List.append_nil, List.reverse_reverse, Utf8.scan_encoded]
  rw [String.ofList_toList]

end Interchange.Json.Read
