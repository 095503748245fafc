import Interchange.Report
/-!
What a report holds, by paths and descriptors. `Files` forgets in which order entries came in:
pushing, merging and absorbing add exactly the descriptors they are given. The invariant
`WellFormed` keeps paths ascending and every list of descriptors non-empty, and
makes a look-up find all that was filed under a path.
-/
namespace Interchange.Report

abbrev Entries := List (String × List Descriptor)

def Holds (entries : Entries) (path : String) (descriptor : Descriptor) : Prop :=
  ∃ descriptors, (path, descriptors) ∈ entries ∧ descriptor ∈ descriptors

def Files (report : Report) (path : String) (descriptor : Descriptor) : Prop :=
  Holds report.entries path descriptor

def Ordered (entries : Entries) : Prop :=
  entries.Pairwise (fun earlier later => earlier.1 < later.1) ∧ ∀ entry ∈ entries, entry.2 ≠ []

def WellFormed (report : Report) : Prop := Ordered report.entries

theorem holds_cons (entry : String × List Descriptor) (rest : Entries) (path : String)
    (descriptor : Descriptor) :
    Holds (entry :: rest) path descriptor ↔
      (path = entry.1 ∧ descriptor ∈ entry.2) ∨ Holds rest path descriptor := by
  obtain ⟨name, descriptors⟩ := entry
  constructor
  · rintro ⟨found, member, inside⟩
    rcases List.mem_cons.mp member with same | later
    · obtain ⟨rfl, rfl⟩ := Prod.mk.inj same
      exact Or.inl ⟨rfl, inside⟩
    · exact Or.inr ⟨found, later, inside⟩
  · rintro (⟨same, inside⟩ | ⟨found, member, inside⟩)
    · subst same
      exact ⟨descriptors, List.mem_cons_self, inside⟩
    · exact ⟨found, List.mem_cons_of_mem _ member, inside⟩

theorem not_holds_nil (path : String) (descriptor : Descriptor) : ¬ Holds [] path descriptor := by
  simp [Holds]

theorem holds_file (path : String) (added : List Descriptor) (entries : Entries)
    (wanted : String) (descriptor : Descriptor) :
    Holds (file path added entries) wanted descriptor ↔
      Holds entries wanted descriptor ∨ (wanted = path ∧ descriptor ∈ added) := by
  induction entries with
  | nil => simp [file, holds_cons, not_holds_nil]
  | cons entry rest ih =>
      rw [file]
      by_cases same : entry.1 = path
      · simp only [same, ↓reduceIte, holds_cons, List.mem_append]
        grind
      · by_cases before : path < entry.1
        · simp only [same, before, ↓reduceIte, holds_cons]
          grind
        · simp only [same, before, ↓reduceIte, holds_cons, ih]
          grind

theorem mem_file_path (path : String) (added : List Descriptor) (entries : Entries)
    (entry : String × List Descriptor) (member : entry ∈ file path added entries) :
    entry.1 = path ∨ entry ∈ entries := by
  induction entries with
  | nil => simp [file] at member; simp [member]
  | cons first rest ih =>
      rw [file] at member
      split at member
      · rcases List.mem_cons.mp member with same | later
        · exact Or.inl (by rw [same])
        · exact Or.inr (List.mem_cons_of_mem _ later)
      · split at member
        · rcases List.mem_cons.mp member with same | later
          · exact Or.inl (by rw [same])
          · exact Or.inr later
        · rcases List.mem_cons.mp member with same | later
          · exact Or.inr (by simp [same])
          · exact (ih later).imp id (List.mem_cons_of_mem _)

theorem ordered_file (path : String) (added : List Descriptor) (entries : Entries)
    (ordered : Ordered entries) (filled : added ≠ []) : Ordered (file path added entries) := by
  obtain ⟨ascending, nonempty⟩ := ordered
  induction entries with
  | nil => simp [file, Ordered, filled]
  | cons entry rest ih =>
      obtain ⟨first, tail⟩ := List.pairwise_cons.mp ascending
      have tailFilled : ∀ later ∈ rest, later.2 ≠ [] := fun later member =>
        nonempty later (List.mem_cons_of_mem _ member)
      rw [file]
      split
      · rename_i same
        subst same
        refine ⟨List.pairwise_cons.mpr ⟨first, tail⟩, ?_⟩
        intro later member
        rcases List.mem_cons.mp member with rfl | member
        · simp [filled]
        · exact tailFilled later member
      · rename_i different
        split
        · rename_i before
          constructor
          · refine List.pairwise_cons.mpr ⟨?_, ascending⟩
            intro later member
            rcases List.mem_cons.mp member with rfl | member
            · exact before
            · exact String.lt_trans before (first later member)
          · intro later member
            rcases List.mem_cons.mp member with rfl | member
            · exact filled
            · exact nonempty later member
        · rename_i notBefore
          have behind : entry.1 < path := by
            have reach := String.not_lt.mp notBefore
            exact Std.lt_of_le_of_ne reach different
          obtain ⟨restAscending, restFilled⟩ := ih tail tailFilled
          constructor
          · refine List.pairwise_cons.mpr ⟨?_, restAscending⟩
            intro later member
            rcases mem_file_path path added rest later member with same | old
            · rw [same]
              exact behind
            · exact first later old
          · intro later member
            rcases List.mem_cons.mp member with rfl | member
            · exact nonempty _ List.mem_cons_self
            · exact restFilled later member

/-! Merging and absorbing file every entry of one report in another, absorbing under a new path. -/
section Combining
variable (rename : String → String)

def fileAll (added entries : Entries) : Entries :=
  added.foldl (fun entries entry => file (rename entry.1) entry.2 entries) entries

theorem holds_file_all (added entries : Entries) (path : String) (descriptor : Descriptor) :
    Holds (fileAll rename added entries) path descriptor ↔
      Holds entries path descriptor ∨
        ∃ inner, Holds added inner descriptor ∧ path = rename inner := by
  induction added generalizing entries with
  | nil => simp [fileAll, Holds]
  | cons entry rest ih =>
      have step := ih (file (rename entry.1) entry.2 entries)
      simp only [fileAll, List.foldl_cons] at step ⊢
      rw [step, holds_file]
      simp only [holds_cons]
      constructor
      · rintro ((old | ⟨same, inside⟩) | ⟨inner, later, same⟩)
        · exact Or.inl old
        · exact Or.inr ⟨entry.1, Or.inl ⟨rfl, inside⟩, same⟩
        · exact Or.inr ⟨inner, Or.inr later, same⟩
      · rintro (old | ⟨inner, ⟨here, inside⟩ | later, same⟩)
        · exact Or.inl (Or.inl old)
        · exact Or.inl (Or.inr ⟨here ▸ same, inside⟩)
        · exact Or.inr ⟨inner, later, same⟩

theorem ordered_file_all (added entries : Entries) (filled : ∀ entry ∈ added, entry.2 ≠ [])
    (ordered : Ordered entries) : Ordered (fileAll rename added entries) := by
  induction added generalizing entries with
  | nil => exact ordered
  | cons entry rest ih =>
      have here := ordered_file (rename entry.1) entry.2 entries ordered (filled entry (by simp))
      exact ih _ (fun later member => filled later (List.mem_cons_of_mem _ member)) here

end Combining

theorem files_empty (path : String) (descriptor : Descriptor) :
    ¬ Files empty path descriptor := by
  simp [Files, Holds, empty]

theorem files_single (path wanted : String) (descriptor filed : Descriptor) :
    Files (single path descriptor) wanted filed ↔ wanted = path ∧ filed = descriptor := by
  have filedAlone := holds_file path [descriptor] [] wanted filed
  simpa [Files, single, push, empty, not_holds_nil] using filedAlone

theorem files_merge (left right : Report) (path : String) (descriptor : Descriptor) :
    Files (left.merge right) path descriptor ↔
      Files left path descriptor ∨ Files right path descriptor := by
  have combined := holds_file_all id right.entries left.entries path descriptor
  simp only [id, exists_eq_right'] at combined
  exact combined

theorem files_absorb (outer : String) (nested report : Report) (path : String)
    (descriptor : Descriptor) :
    Files (absorb outer nested report) path descriptor ↔
      Files report path descriptor ∨
        ∃ inner, Files nested inner descriptor ∧ path = joinPath outer inner :=
  holds_file_all (joinPath outer) nested.entries report.entries path descriptor

theorem empty_wellformed : WellFormed empty := by simp [WellFormed, Ordered, empty]

theorem single_wellformed (path : String) (descriptor : Descriptor) :
    WellFormed (single path descriptor) :=
  ordered_file path [descriptor] [] empty_wellformed (by simp)

theorem merge_wellformed (left right : Report) (first : WellFormed left)
    (second : WellFormed right) : WellFormed (left.merge right) :=
  ordered_file_all id right.entries left.entries second.2 first

theorem absorb_wellformed (outer : String) (nested report : Report) (inner : WellFormed nested)
    (first : WellFormed report) : WellFormed (absorb outer nested report) :=
  ordered_file_all (joinPath outer) nested.entries report.entries inner.2 first

theorem not_files_of_isEmpty (report : Report) (clean : report.isEmpty = true) (path : String)
    (descriptor : Descriptor) : ¬ Files report path descriptor := by
  rintro ⟨descriptors, member, -⟩
  rw [isEmpty, List.isEmpty_iff] at clean
  simp [clean] at member

/-- A report with nothing in it has no entries, as no entry of it is empty. -/
theorem isEmpty_of_not_files (report : Report) (wellFormed : WellFormed report)
    (nothing : ∀ path descriptor, ¬ Files report path descriptor) : report.isEmpty = true := by
  rw [isEmpty, List.isEmpty_iff, List.eq_nil_iff_forall_not_mem]
  intro entry member
  obtain ⟨path, descriptors⟩ := entry
  have filled := wellFormed.2 _ member
  obtain ⟨descriptor, others, rfl⟩ := List.exists_cons_of_ne_nil filled
  exact nothing path descriptor ⟨_, member, List.mem_cons_self⟩

/-- Ascending paths are distinct, so a look-up sees everything under its path. -/
theorem get_of_mem (report : Report) (wellFormed : WellFormed report) (path : String)
    (descriptors : List Descriptor) (member : (path, descriptors) ∈ report.entries) :
    report.get? path = some descriptors := by
  obtain ⟨entries⟩ := report
  simp only [get?]
  have ascending := wellFormed.1
  induction entries with
  | nil => simp at member
  | cons entry rest ih =>
      obtain ⟨first, tail⟩ := List.pairwise_cons.mp ascending
      rcases List.mem_cons.mp member with rfl | later
      · simp
      · have different : path ≠ entry.1 := by
          intro same
          have before := first _ later
          rw [same] at before
          exact String.lt_irrefl _ before
        have tailFormed : WellFormed ⟨rest⟩ :=
          ⟨tail, fun later member => wellFormed.2 later (List.mem_cons_of_mem _ member)⟩
        rw [List.lookup_cons, beq_eq_false_iff_ne.mpr different]
        exact ih tailFormed later tail

theorem files_get (report : Report) (wellFormed : WellFormed report) (path : String)
    (descriptor : Descriptor) :
    Files report path descriptor ↔
      ∃ descriptors, report.get? path = some descriptors ∧ descriptor ∈ descriptors := by
  constructor
  · rintro ⟨descriptors, member, inside⟩
    exact ⟨descriptors, get_of_mem report wellFormed path descriptors member, inside⟩
  · rintro ⟨descriptors, found, inside⟩
    obtain ⟨before, after, split, _⟩ := List.lookup_eq_some_iff.mp found
    exact ⟨descriptors, by simp [split], inside⟩

end Interchange.Report
