import Interchange.Proofs.Json.FloatReads
/-!
Containers are read part by part. If a reader takes the text of every part off whatever stands behind
it, the reader of the container takes the text of the container. A document comes back with
its floats reread.
-/
namespace Interchange

theorem Entries.set_fresh {α : Type u} (key : String) (value : α) (entries : List (String × α))
    (fresh : key ∉ entries.map (·.1)) : set key value entries = entries ++ [(key, value)] := by
  induction entries with
  | nil => rfl
  | cons entry rest ih =>
      rw [List.map_cons, List.mem_cons, not_or] at fresh
      rw [set, if_neg (Ne.symm fresh.1), ih fresh.2, List.cons_append]

namespace Json

def Number.reread : Number → Number
  | .float number => .float (Json.reread number)
  | other => other

namespace Tree

-- The document with every float as it is read from its own text.
mutual
def reread : Tree → Tree
  | .number content => .number content.reread
  | .array items => .array (rereadItems items)
  | .object entries => .object (rereadEntries entries)
  | other => other
termination_by structural tree => tree
def rereadItems : List Tree → List Tree
  | [] => []
  | item :: rest => reread item :: rereadItems rest
termination_by structural items => items
def rereadEntries : List (String × Tree) → List (String × Tree)
  | [] => []
  | (key, item) :: rest => (key, reread item) :: rereadEntries rest
termination_by structural entries => entries
end

theorem reread_items (items : List Tree) : rereadItems items = items.map reread := by
  induction items with
  | nil => rfl
  | cons item rest ih => rw [rereadItems, ih, List.map_cons]

theorem reread_entries (entries : List (String × Tree)) :
    rereadEntries entries = entries.map fun entry => (entry.1, reread entry.2) := by
  induction entries with
  | nil => rfl
  | cons entry rest ih =>
      obtain ⟨key, item⟩ := entry
      rw [rereadEntries, ih, List.map_cons]

theorem reread_array (items : List Tree) : reread (.array items) = .array (items.map reread) := by
  rw [reread, reread_items]

theorem reread_object (entries : List (String × Tree)) :
    reread (.object entries) = .object (entries.map fun entry => (entry.1, reread entry.2)) := by
  rw [reread, reread_entries]

end Tree

namespace Read

theorem apart_cons (character : Char) (rest : List UInt8)
    (ends : character ∈ [',', ']', '\x7d']) : Apart (code character :: rest) := by
  intro byte head
  obtain rfl := Option.some.inj head
  have closing : ∀ character ∈ [',', ']', '\x7d'], isDigit (code character) = false ∧
      code character ≠ code '.' ∧ isExponentLetter (code character) = false :=
    forall_mem_of_all _ _ (by decide)
  exact closing character ends

/-- A read that takes the text of one document off whatever is apart from it. -/
def Takes (item : Read Tree) (content : Tree) : Prop :=
  ∀ rest, Apart rest → item (content.image ++ rest) = .ok (content.reread, rest)

/-- Bytes whose first one is no blank and no end of a container. -/
def Begins (bytes : List UInt8) : Prop :=
  ∃ byte rest, bytes = byte :: rest ∧ isBlank byte = false ∧
    byte ≠ code ']' ∧ byte ≠ code '\x7d'

theorem comma_bytes : Tree.separator false = [code ','] := by decide

variable (item : Read Tree)

section Items
variable (bound : Nat) (done : List Tree) {part : Tree} {bytes rest : List UInt8}

theorem items_last (read : item bytes = .ok (part, code ']' :: rest)) :
    items item (bound + 1) done bytes = .ok ((part :: done).reverse, rest) := by
  rw [items, bind_read _ _ read, bind_read _ _ (blanks_visible _ rfl _), bind_read get _ rfl]
  rfl

theorem items_next {byte : UInt8} (read : item bytes = .ok (part, code ',' :: byte :: rest))
    (visible : isBlank byte = false) (further : byte ≠ code ']') :
    items item (bound + 1) done bytes = items item bound (part :: done) (byte :: rest) := by
  have comma : code ',' ≠ code ']' := by decide
  rw [items, bind_read _ _ read, bind_read _ _ (blanks_visible _ rfl _), bind_read get _ rfl]
  simp only [comma, ↓reduceIte]
  rw [bind_read (set _) _ rfl, bind_read _ _ (blanks_visible byte visible _), bind_read get _ rfl]
  simp only [List.isEmpty_cons, List.head?_cons, Option.some.injEq, further, Bool.false_eq_true,
    ↓reduceIte]

end Items

theorem items_taken (others : List Tree) (bound : Nat) (first : Tree) (done : List Tree)
    (rest : List UInt8) (takes : ∀ part ∈ first :: others, Takes item part)
    (begins : ∀ part ∈ others, Begins part.image) (enough : others.length < bound) :
    items item bound done
        (first.image ++ (Tree.imageItems false others ++ (code ']' :: rest))) =
      .ok (done.reverse ++ (first :: others).map Tree.reread, rest) := by
  obtain ⟨smaller, rfl⟩ := Nat.exists_eq_succ_of_ne_zero (Nat.ne_zero_of_lt enough)
  induction others generalizing smaller first done with
  | nil =>
      have read := takes first List.mem_cons_self (code ']' :: rest) (apart_cons ']' rest (by simp))
      rw [Tree.imageItems, List.nil_append, items_last item smaller done read, List.reverse_cons]
      rfl
  | cons next more ih =>
      obtain ⟨⟨byte, behind, bytes, visible, further, -⟩, moreBegins⟩ :=
        List.forall_mem_cons.mp begins
      obtain ⟨least, rfl⟩ : ∃ least, smaller = least + 1 := ⟨smaller - 1, by simp at enough; omega⟩
      have after := ih next (first.reread :: done) (fun part member =>
        takes part (List.mem_cons_of_mem _ member)) moreBegins least (by simpa using enough)
      have read := takes first List.mem_cons_self
        (code ',' :: (next.image ++ (Tree.imageItems false more ++ (code ']' :: rest))))
        (apart_cons ',' _ (by simp))
      have split : Tree.imageItems false (next :: more) ++ (code ']' :: rest) =
          code ',' :: (next.image ++ (Tree.imageItems false more ++ (code ']' :: rest))) := by
        rw [Tree.imageItems, comma_bytes, List.append_assoc, List.append_assoc,
          List.singleton_append]
      rw [bytes, List.cons_append] at split after read
      rw [split, items_next item (least + 1) done read visible further, after, List.reverse_cons,
        List.append_assoc, List.singleton_append]
      rfl

theorem array_taken (bound : Nat) (parts : List Tree) (rest : List UInt8)
    (takes : ∀ part ∈ parts, Takes item part) (begins : ∀ part ∈ parts, Begins part.image)
    (enough : parts.length ≤ bound) :
    array bound item (Tree.imageItems true parts ++ (code ']' :: rest)) =
      .ok ((Tree.array parts).reread, rest) := by
  rw [Tree.reread_array]
  cases parts with
  | nil => rfl
  | cons first others =>
      obtain ⟨⟨byte, behind, bytes, visible, further, -⟩, othersBegin⟩ :=
        List.forall_mem_cons.mp begins
      have taken := items_taken item others bound first [] rest takes othersBegin enough
      have split : Tree.imageItems true (first :: others) ++ (code ']' :: rest) =
          first.image ++ (Tree.imageItems false others ++ (code ']' :: rest)) := by
        rw [Tree.imageItems, List.append_assoc, List.append_assoc]
        rfl
      rw [bytes, List.cons_append] at split taken
      rw [split, array, bind_read _ _ (blanks_visible byte visible _), bind_read get _ rfl]
      simp only [further, ↓reduceIte]
      rw [bind_read _ _ taken]
      rfl

theorem single_array (bound : Nat) (rest : List UInt8) :
    single bound (some item) (code '[' :: rest) = array bound item rest := by
  rw [single, bind_read _ _ (blanks_visible _ rfl _), bind_read get _ rfl]
  rfl

theorem single_object (bound : Nat) (rest : List UInt8) :
    single bound (some item) (code '\x7b' :: rest) = object bound item rest := by
  rw [single, bind_read _ _ (blanks_visible _ rfl _), bind_read get _ rfl]
  rfl

section Entries
variable (bound : Nat) (done : List (String × Tree)) {part : String × Tree}
  {bytes rest : List UInt8}

theorem colon_taken (rest : List UInt8) : colon (code ':' :: rest) = .ok ((), rest) := by
  rw [colon, bind_read _ _ (blanks_visible _ rfl _), bind_read get _ rfl]
  rfl

/-- The text of a key, its colon and its value read as that entry. -/
theorem entry_taken (key : String) (content : Tree) (takes : Takes item content)
    (apart : Apart rest) :
    entry item (Utf8.encodeChars (quoted key) ++
      (Utf8.encodeChars [':'] ++ (content.image ++ rest))) = .ok ((key, content.reread), rest) := by
  have colons : Utf8.encodeChars [':'] = [code ':'] := by decide
  rw [quoted_bytes, entry, bind_read get _ rfl]
  simp only [↓reduceIte]
  rw [text_quoted, colons, List.singleton_append, bind_read (liftM _) _ rfl,
    bind_read (set _) _ rfl, bind_read _ _ (colon_taken _), bind_read _ _ (takes rest apart)]
  rfl

theorem entries_last (read : entry item bytes = .ok (part, code '\x7d' :: rest)) :
    entries item (bound + 1) done bytes = .ok (Entries.set part.1 part.2 done, rest) := by
  rw [entries, bind_read _ _ read, bind_read _ _ (blanks_visible _ rfl _), bind_read get _ rfl]
  rfl

theorem entries_next {byte : UInt8}
    (read : entry item bytes = .ok (part, code ',' :: byte :: rest))
    (visible : isBlank byte = false) (further : byte ≠ code '\x7d') :
    entries item (bound + 1) done bytes =
      entries item bound (Entries.set part.1 part.2 done) (byte :: rest) := by
  have comma : code ',' ≠ code '\x7d' := by decide
  rw [entries, bind_read _ _ read, bind_read _ _ (blanks_visible _ rfl _), bind_read get _ rfl]
  simp only [comma, ↓reduceIte]
  rw [bind_read (set _) _ rfl, bind_read _ _ (blanks_visible byte visible _), bind_read get _ rfl]
  simp only [List.isEmpty_cons, List.head?_cons, Option.some.injEq, further, Bool.false_eq_true,
    ↓reduceIte]

end Entries

theorem entries_taken (others : List (String × Tree)) (bound : Nat) (first : String × Tree)
    (done : List (String × Tree)) (rest : List UInt8)
    (takes : ∀ part ∈ first :: others, Takes item part.2) (enough : others.length < bound)
    (distinct : ((done ++ first :: others).map (·.1)).Nodup) :
    entries item bound done (Utf8.encodeChars (quoted first.1) ++ (Utf8.encodeChars [':'] ++
        (first.2.image ++ (Tree.imageEntries false others ++ (code '\x7d' :: rest))))) =
      .ok (done ++ (first :: others).map fun entry => (entry.1, entry.2.reread), rest) := by
  obtain ⟨smaller, rfl⟩ := Nat.exists_eq_succ_of_ne_zero (Nat.ne_zero_of_lt enough)
  have fresh : first.1 ∉ done.map (·.1) := by
    rw [List.map_append, List.nodup_append] at distinct
    exact fun member => distinct.2.2 _ member _ List.mem_cons_self rfl
  induction others generalizing smaller first done with
  | nil =>
      have read := entry_taken item first.1 first.2 (takes first List.mem_cons_self)
        (apart_cons '\x7d' rest (by simp))
      rw [Tree.imageEntries, List.nil_append, entries_last item smaller done read,
        Entries.set_fresh _ _ _ fresh]
      rfl
  | cons next more ih =>
      obtain ⟨least, rfl⟩ : ∃ least, smaller = least + 1 := ⟨smaller - 1, by simp at enough; omega⟩
      have distinctNext : ((done ++ [(first.1, first.2.reread)] ++ next :: more).map (·.1)).Nodup := by
        simpa using distinct
      have nextFresh : next.1 ∉ (done ++ [(first.1, first.2.reread)]).map (·.1) := by
        rw [List.map_append, List.nodup_append] at distinctNext
        exact fun member => distinctNext.2.2 _ member _ List.mem_cons_self rfl
      have after := ih next (done ++ [(first.1, first.2.reread)]) (fun part member =>
        takes part (List.mem_cons_of_mem _ member)) distinctNext least (by simpa using enough)
        nextFresh
      have read := entry_taken item first.1 first.2 (takes first List.mem_cons_self)
        (apart_cons ',' (Utf8.encodeChars (quoted next.1) ++ (Utf8.encodeChars [':'] ++
          (next.2.image ++ (Tree.imageEntries false more ++ (code '\x7d' :: rest))))) (by simp))
      have split : Tree.imageEntries false (next :: more) ++ (code '\x7d' :: rest) =
          code ',' :: (Utf8.encodeChars (quoted next.1) ++ (Utf8.encodeChars [':'] ++
            (next.2.image ++ (Tree.imageEntries false more ++ (code '\x7d' :: rest))))) := by
        simp only [Tree.imageEntries, comma_bytes, List.append_assoc, List.cons_append,
          List.nil_append]
      have quote : code '"' ≠ code '\x7d' := by decide
      rw [quoted_bytes _ next.1] at split after read
      rw [split, entries_next item (least + 1) done read rfl quote,
        Entries.set_fresh _ _ _ fresh, after, List.append_assoc, List.singleton_append]
      rfl

theorem object_taken (bound : Nat) (parts : List (String × Tree)) (rest : List UInt8)
    (takes : ∀ part ∈ parts, Takes item part.2) (enough : parts.length ≤ bound)
    (distinct : (parts.map (·.1)).Nodup) :
    object bound item (Tree.imageEntries true parts ++ (code '\x7d' :: rest)) =
      .ok ((Tree.object parts).reread, rest) := by
  rw [Tree.reread_object]
  cases parts with
  | nil => rfl
  | cons first others =>
      have taken := entries_taken item others bound first [] rest takes enough distinct
      have split : Tree.imageEntries true (first :: others) ++ (code '\x7d' :: rest) =
          Utf8.encodeChars (quoted first.1) ++ (Utf8.encodeChars [':'] ++ (first.2.image ++
            (Tree.imageEntries false others ++ (code '\x7d' :: rest)))) := by
        simp only [Tree.imageEntries, List.append_assoc]
        rfl
      have quote : code '"' ≠ code '\x7d' := by decide
      rw [quoted_bytes] at split taken
      rw [split, object, bind_read _ _ (blanks_visible _ rfl _), bind_read get _ rfl]
      simp only [quote, ↓reduceIte]
      rw [bind_read _ _ taken]
      rfl

end Read

end Json

end Interchange
