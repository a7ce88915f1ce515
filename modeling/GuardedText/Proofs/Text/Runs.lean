import Mathlib.Data.List.DropRight
import Mathlib.Data.List.TakeWhile
import GuardedText.Text.Blank

/-!
# Runs

A run is what stands at one end of a row and has a property throughout.  The longest run
is told by two facts: all of it has the property, and what comes next, if anything does,
has not.  Trimming takes such runs of blanks away at both ends of a text.
-/

namespace GuardedText.Text

section

variable {α : Type} {property : α → Bool}

theorem takeWhile_append_eq {run rest : List α} (inside : ∀ item ∈ run, property item = true)
    (ends : ∀ item ∈ rest.head?, property item = false) :
    (run ++ rest).takeWhile property = run := by
  rw [List.takeWhile_append_of_pos inside]
  cases rest with
  | nil => simp
  | cons item rest => simp [ends item rfl]

theorem dropWhile_append_eq {run rest : List α} (inside : ∀ item ∈ run, property item = true)
    (ends : ∀ item ∈ rest.head?, property item = false) :
    (run ++ rest).dropWhile property = rest := by
  rw [List.dropWhile_append_of_pos inside]
  cases rest with
  | nil => rfl
  | cons item rest => simp [ends item rfl]

theorem run_unique {first second rest later : List α} (h : first ++ rest = second ++ later)
    (hfirst : ∀ item ∈ first, property item = true)
    (hsecond : ∀ item ∈ second, property item = true)
    (hrest : ∀ item ∈ rest.head?, property item = false)
    (hlater : ∀ item ∈ later.head?, property item = false) :
    first = second ∧ rest = later := by
  have hrun := takeWhile_append_eq hfirst hrest
  rw [h, takeWhile_append_eq hsecond hlater] at hrun
  subst hrun
  exact ⟨rfl, List.append_cancel_left h⟩

theorem head?_dropWhile_eq_false {row : List α} :
    ∀ item ∈ (row.dropWhile property).head?, property item = false := by
  intro item hitem
  have hstop := List.head?_dropWhile_not property row
  rw [Option.mem_def.mp hitem] at hstop
  exact hstop

theorem takeWhile_append_of_none (row : List α) {rest : List α}
    (h : ∀ item ∈ rest, property item = false) :
    (row ++ rest).takeWhile property = row.takeWhile property := by
  induction row with
  | nil => cases rest <;> simp_all
  | cons item row ih => simp only [List.cons_append, List.takeWhile_cons, ih]

theorem takeWhile_ne_append [DecidableEq α] {stop : α} {run : List α} (h : stop ∉ run)
    (rest : List α) : (run ++ stop :: rest).takeWhile (· != stop) = run := by
  apply takeWhile_append_eq
  · intro item hitem
    rw [bne_iff_ne]
    rintro rfl
    exact h hitem
  · rintro item ⟨⟩
    simp

end

/-! ## The ends of a text -/

theorem dropEndWhile_append_eq {property : Char → Bool} {text run : List Char}
    (inside : ∀ char ∈ run, property char = true)
    (ends : ∀ char ∈ text.getLast?, property char = false) :
    dropEndWhile property (text ++ run) = text := by
  rw [← List.head?_reverse] at ends
  rw [dropEndWhile, List.reverse_append, dropWhile_append_eq (by simpa using inside) ends,
    List.reverse_reverse]

theorem dropEndWhile_eq_self {property : Char → Bool} {text : List Char}
    (ends : ∀ char ∈ text.getLast?, property char = false) :
    dropEndWhile property text = text := by
  have hnone : ∀ char ∈ ([] : List Char), property char = true := by simp
  simpa using dropEndWhile_append_eq hnone ends

theorem exists_trim (text : List Char) :
    ∃ before after, text = before ++ (trim text ++ after) ∧
      (∀ char ∈ before, isBlank char) ∧ ∀ char ∈ after, isBlank char := by
  refine ⟨text.takeWhile isBlank, (text.dropWhile isBlank).rtakeWhile isBlank, ?_, ?_, ?_⟩
  · have hend : trim text ++ (text.dropWhile isBlank).rtakeWhile isBlank =
        text.dropWhile isBlank := List.rdropWhile_append_rtakeWhile ..
    rw [hend, List.takeWhile_append_dropWhile]
  · intro char hchar
    exact List.mem_takeWhile_imp hchar
  · intro char hchar
    exact List.mem_rtakeWhile_imp hchar

theorem trim_of_blank {text : List Char} (h : text.all isBlank) : trim text = [] := by
  have hdropped : text.dropWhile isBlank = [] := by
    rw [List.dropWhile_eq_nil_iff]
    exact List.all_eq_true.mp h
  rw [trim, hdropped]
  rfl

end GuardedText.Text
