import Interchange.Text.Quoted
/-!
Quoted keys never look alike. The escapes form a prefix code and none of them starts with
the quote itself, so a quoted key ends where it seems to end and gives back its characters.
-/
namespace Interchange.Text

/-- Two runs of items that do not stop, each up to an item that does, are the same run. -/
theorem until_stop {α : Type} {stop : α → Prop} {first second rest others : List α}
    (running : ∀ item ∈ first, ¬ stop item) (going : ∀ item ∈ second, ¬ stop item)
    (ends : ∀ item ∈ rest.head?, stop item) (halts : ∀ item ∈ others.head?, stop item)
    (same : first ++ rest = second ++ others) : first = second ∧ rest = others := by
  induction first generalizing second with
  | nil =>
      cases second with
      | nil => exact ⟨rfl, same⟩
      | cons item items =>
          obtain rfl : rest = item :: (items ++ others) := same
          exact absurd (ends item rfl) (going item List.mem_cons_self)
  | cons item items ih =>
      cases second with
      | nil =>
          obtain rfl : item :: (items ++ rest) = others := same
          exact absurd (halts item rfl) (running item List.mem_cons_self)
      | cons other more =>
          obtain ⟨rfl, behind⟩ := List.cons.inj same
          obtain ⟨rfl, left⟩ := ih (fun item member => running item (List.mem_cons_of_mem _ member))
            (fun item member => going item (List.mem_cons_of_mem _ member)) behind
          exact ⟨rfl, left⟩

/-! Numbers written in a base up to sixteen. -/
section Digits

theorem digit_char (digit : Nat) (small : digit < 16) :
    digit.digitChar.isAlphanum = true ∧
      ∀ other < 16, digit.digitChar = other.digitChar → digit = other := by
  revert digit
  decide

variable (base : Nat) (one : 1 < base) (sixteen : base ≤ 16)
include one sixteen

theorem digits_alphanum (number : Nat) :
    ∀ letter ∈ Nat.toDigits base number, letter.isAlphanum = true := by
  induction number using Nat.strongRecOn with
  | ind number ih =>
      rw [Nat.toDigits_eq_if one]
      split
      · rename_i small
        intro letter member
        rw [List.mem_singleton.mp member]
        exact (digit_char number (Nat.lt_of_lt_of_le small sixteen)).1
      · rename_i large
        have shrinks : number / base < number := Nat.div_lt_self (by omega) one
        have last : number % base < base := Nat.mod_lt number (by omega)
        intro letter member
        rcases List.mem_append.mp member with earlier | behind
        · exact ih (number / base) shrinks letter earlier
        · rw [List.mem_singleton.mp behind]
          exact (digit_char (number % base) (by omega)).1

omit sixteen in
/-- One digit is no number of two digits or more. -/
theorem digits_apart (digit number : Nat) (short : digit < base) (long : base ≤ number) :
    Nat.toDigits base digit ≠ Nat.toDigits base number := by
  intro same
  rw [Nat.toDigits_of_lt_base short, Nat.toDigits_of_base_le one long] at same
  have fewer := congrArg List.length same
  have some := List.length_pos_iff.mpr (Nat.toDigits_ne_nil (b := base) (n := number / base))
  simp only [List.length_append, List.length_cons, List.length_nil] at fewer
  omega

theorem digits_inj (number other : Nat)
    (same : Nat.toDigits base number = Nat.toDigits base other) : number = other := by
  induction number using Nat.strongRecOn generalizing other with
  | ind number ih =>
      rcases Nat.lt_or_ge number base with short | long
      · rcases Nat.lt_or_ge other base with small | large
        · rw [Nat.toDigits_of_lt_base short, Nat.toDigits_of_lt_base small] at same
          exact (digit_char number (by omega)).2 other (by omega) (List.cons.inj same).1
        · exact absurd same (digits_apart base one number other short large)
      · rcases Nat.lt_or_ge other base with small | large
        · exact absurd same.symm (digits_apart base one other number small long)
        · rw [Nat.toDigits_of_base_le one long, Nat.toDigits_of_base_le one large] at same
          obtain ⟨front, back⟩ := List.append_inj' same rfl
          have shrinks : number / base < number := Nat.div_lt_self (by omega) one
          have last := Nat.mod_lt number (show base > 0 by omega)
          have otherLast := Nat.mod_lt other (show base > 0 by omega)
          have quotients := ih (number / base) shrinks (other / base) front
          have digits := (digit_char (number % base) (by omega)).2 (other % base) (by omega)
            (List.cons.inj back).1
          rw [← Nat.div_add_mod number base, ← Nat.div_add_mod other base, quotients, digits]

theorem digits_open (number : Nat) {mark : Char} (other : mark.isAlphanum = false) :
    ∀ letter ∈ Nat.toDigits base number, ¬ letter = mark := by
  rintro letter member rfl
  have plain := digits_alphanum base one sixteen number letter member
  rw [other] at plain
  contradiction

end Digits

/-! Characters as they stand between quotes. -/
section Characters
variable {first second : Char} {rest others : List Char}

-- The escapes that have a letter of their own.
def letterEscapes : List (Char × Char) :=
  [('"', '"'), ('\\', '\\'), ('\n', 'n'), ('\r', 'r'), ('\t', 't'), ('\x00', '0')]

inductive Shown (character : Char) : Prop where
  | plain (written : quoteChar character = [character]) (inner : character ≠ '"')
      (bare : character ≠ '\\')
  | letter {letter : Char} (listed : (character, letter) ∈ letterEscapes)
      (written : quoteChar character = ['\\', letter])
  | code (written : quoteChar character = codePointEscape character)

theorem shown (character : Char) : Shown character := by
  by_cases listed : ∃ letter, (character, letter) ∈ letterEscapes
  · obtain ⟨letter, listed⟩ := listed
    have written : ∀ escape ∈ letterEscapes, quoteChar escape.1 = ['\\', escape.2] := by decide
    exact .letter listed (written _ listed)
  · simp only [letterEscapes, List.mem_cons, Prod.mk.injEq, List.not_mem_nil, or_false,
      exists_or, exists_and_left, exists_eq, and_true, not_or] at listed
    obtain ⟨inner, bare, line, back, tab, zero⟩ := listed
    by_cases hidden : (isMerging character || isUnprintable character) = true
    · exact .code (by simp [quoteChar, inner, bare, line, back, tab, zero, hidden])
    · exact .plain (by simp [quoteChar, inner, bare, line, back, tab, zero, hidden]) inner bare

theorem escape_append_inj
    (same : codePointEscape first ++ rest = codePointEscape second ++ others) :
    first = second ∧ rest = others := by
  simp only [codePointEscape, List.cons_append, List.append_assoc, List.cons.injEq, true_and,
    List.nil_append] at same
  have stops : ∀ behind : List Char, ∀ item ∈ ('\x7d' :: behind).head?, item = '\x7d' := by
    simp
  have runs (character : Char) := digits_open 16 (by decide) (by decide) character.toNat
    (show Char.isAlphanum '\x7d' = false by decide)
  obtain ⟨digits, behind⟩ := until_stop (runs first) (runs second) (stops rest) (stops others) same
  have numbers := digits_inj 16 (by decide) (by decide) first.toNat second.toNat digits
  exact ⟨Char.toNat_inj.mp numbers, (List.cons.inj behind).2⟩

theorem quote_char_append_inj (same : quoteChar first ++ rest = quoteChar second ++ others) :
    first = second ∧ rest = others := by
  have apart : ∀ escape ∈ letterEscapes, escape.2 ≠ 'u' := by decide
  have unlike : ∀ escape ∈ letterEscapes, ∀ other ∈ letterEscapes,
      escape.2 = other.2 → escape = other := by decide
  cases shown first with
  | plain written inner bare =>
      cases shown second with
      | plain again =>
          rw [written, again] at same
          exact List.cons.inj same
      | letter listed again =>
          rw [written, again] at same
          exact absurd (List.cons.inj same).1 bare
      | code again =>
          rw [written, again] at same
          exact absurd (List.cons.inj same).1 bare
  | letter listed written =>
      cases shown second with
      | plain again inner bare =>
          rw [written, again] at same
          exact absurd (List.cons.inj same).1.symm bare
      | letter also again =>
          rw [written, again] at same
          obtain ⟨letters, behind⟩ := List.cons.inj (List.cons.inj same).2
          exact ⟨(Prod.mk.inj (unlike _ listed _ also letters)).1, behind⟩
      | code again =>
          rw [written, again] at same
          exact absurd (List.cons.inj (List.cons.inj same).2).1 (apart _ listed)
  | code written =>
      cases shown second with
      | plain again inner bare =>
          rw [written, again] at same
          exact absurd (List.cons.inj same).1.symm bare
      | letter listed again =>
          rw [written, again] at same
          exact absurd (List.cons.inj (List.cons.inj same).2).1.symm (apart _ listed)
      | code again =>
          rw [written, again] at same
          exact escape_append_inj same

theorem quote_char_open : quoteChar first ++ rest ≠ '"' :: others := by
  intro same
  cases shown first with
  | plain written inner =>
      rw [written] at same
      exact inner (List.cons.inj same).1
  | letter listed written =>
      rw [written] at same
      exact absurd (List.cons.inj same).1 (by decide)
  | code written =>
      rw [written] at same
      exact absurd (List.cons.inj same).1 (by decide)

end Characters

/-- Behind an opening quote, the closing one ends the key. -/
theorem quoted_append_inj (first second rest others : List Char)
    (same : first.flatMap quoteChar ++ '"' :: rest = second.flatMap quoteChar ++ '"' :: others) :
    first = second ∧ rest = others := by
  induction first generalizing second with
  | nil =>
      cases second with
      | nil => exact ⟨rfl, (List.cons.inj same).2⟩
      | cons character more =>
          rw [List.flatMap_cons, List.append_assoc] at same
          exact absurd same.symm quote_char_open
  | cons character more ih =>
      cases second with
      | nil =>
          rw [List.flatMap_cons, List.append_assoc] at same
          exact absurd same quote_char_open
      | cons other further =>
          rw [List.flatMap_cons, List.flatMap_cons, List.append_assoc, List.append_assoc] at same
          obtain ⟨rfl, behind⟩ := quote_char_append_inj same
          obtain ⟨rfl, left⟩ := ih further behind
          exact ⟨rfl, left⟩

theorem quote_append_inj (first second : String) (rest others : List Char)
    (same : (quote first).toList ++ rest = (quote second).toList ++ others) :
    first = second ∧ rest = others := by
  simp only [quote, quoteChars, String.toList_ofList, List.cons_append, List.append_assoc,
    List.nil_append, List.cons.injEq, true_and] at same
  obtain ⟨letters, left⟩ := quoted_append_inj _ _ _ _ same
  exact ⟨String.toList_inj.mp letters, left⟩

end Interchange.Text
