import GuardedText.Proofs.Text.Pieces

/-!
# Slices by position

A slice of a text is asked for by two positions.  It is refused if they are out of order, behind
the end of the text or inside the UTF-8 form of a character; it is never cut short instead.
Slices that meet can be put together.
-/

namespace GuardedText

namespace Text

/-! ## Positions -/

theorem utf8ByteSize_ofList (text : List Char) :
    (String.ofList text).utf8ByteSize = byteLength text := by
  induction text with
  | nil => rfl
  | cons char rest ih =>
      rw [String.ofList_cons, String.utf8ByteSize_append, String.utf8ByteSize_singleton, ih,
        byteLength_cons]

theorem isValid_ofList_iff {source : List Char} {position : Nat} :
    String.Pos.Raw.IsValid (String.ofList source) ⟨position⟩ ↔
      ∃ before after, source = before ++ after ∧ byteLength before = position := by
  rw [String.Pos.Raw.isValid_iff_exists_append]
  constructor
  · rintro ⟨before, after, hsource, hposition⟩
    refine ⟨before.toList, after.toList, ?_, ?_⟩
    · rw [← String.toList_append, ← hsource, String.toList_ofList]
    · rw [← utf8ByteSize_ofList, String.ofList_toList, ← String.byteIdx_rawEndPos, ← hposition]
  · rintro ⟨before, after, rfl, rfl⟩
    refine ⟨String.ofList before, String.ofList after, String.ofList_append, ?_⟩
    rw [String.Pos.Raw.ext_iff, String.byteIdx_rawEndPos, utf8ByteSize_ofList]

theorem eq_of_byteLength_eq {first second rest later : List Char}
    (h : first ++ rest = second ++ later) (hlength : byteLength first = byteLength second) :
    first = second ∧ rest = later := by
  induction first generalizing second with
  | nil =>
      cases second with
      | nil => exact ⟨rfl, h⟩
      | cons char second =>
          have hpositive := byteLength_pos (List.cons_ne_nil char second)
          rw [← hlength] at hpositive
          contradiction
  | cons char first ih =>
      cases second with
      | nil =>
          have hpositive := byteLength_pos (List.cons_ne_nil char first)
          rw [hlength] at hpositive
          contradiction
      | cons other second =>
          obtain ⟨rfl, hrest⟩ := List.cons.inj h
          obtain ⟨rfl, rfl⟩ := ih hrest (Nat.add_left_cancel hlength)
          exact ⟨rfl, rfl⟩

/-! ## Checked slices -/

def splitBytes? (count : Nat) : List Char → Option (List Char × List Char)
  | [] => if count = 0 then some ([], []) else none
  | char :: rest =>
    if count = 0 then some ([], char :: rest)
    else if char.utf8Size ≤ count then
      (splitBytes? (count - char.utf8Size) rest).map fun (before, after) =>
        (char :: before, after)
    else none

def slice? (source : List Char) (start stop : Nat) : Option (List Char) :=
  if start ≤ stop then do
    let (_, behind) ← splitBytes? start source
    let (text, _) ← splitBytes? (stop - start) behind
    return text
  else none

theorem splitBytes?_append (before after : List Char) :
    splitBytes? (byteLength before) (before ++ after) = some (before, after) := by
  induction before with
  | nil => cases after <;> rfl
  | cons char before ih =>
      have hpositive := char.utf8Size_pos
      rw [List.cons_append, splitBytes?, byteLength_cons, if_neg (by omega),
        if_pos (by omega), Nat.add_sub_cancel_left, ih]
      rfl

theorem splitBytes?_sound {count : Nat} {text before after : List Char}
    (h : splitBytes? count text = some (before, after)) :
    text = before ++ after ∧ byteLength before = count := by
  induction text generalizing count before with
  | nil =>
      rw [splitBytes?] at h
      split at h
      · cases h
        exact ⟨rfl, by simp_all⟩
      · contradiction
  | cons char rest ih =>
      rw [splitBytes?] at h
      split at h
      · cases h
        exact ⟨rfl, by simp_all⟩
      · split at h
        · obtain ⟨⟨front, back⟩, hcut, hparts⟩ := Option.map_eq_some_iff.mp h
          cases hparts
          obtain ⟨rfl, hlength⟩ := ih hcut
          refine ⟨rfl, ?_⟩
          rw [byteLength_cons]
          omega
        · contradiction

theorem slice?_eq_some_iff {source text : List Char} {start stop : Nat} :
    slice? source start stop = some text ↔ IsSlice source start stop text := by
  unfold slice?
  constructor
  · intro h
    split at h
    · obtain ⟨⟨before, behind⟩, hbefore, h⟩ := Option.bind_eq_some_iff.mp h
      obtain ⟨⟨found, after⟩, hfound, h⟩ := Option.bind_eq_some_iff.mp h
      cases h
      obtain ⟨rfl, hstart⟩ := splitBytes?_sound hbefore
      obtain ⟨rfl, hlength⟩ := splitBytes?_sound hfound
      exact ⟨before, after, by simp, hstart, by omega⟩
    · contradiction
  · rintro ⟨before, after, rfl, rfl, rfl⟩
    rw [if_pos (Nat.le_add_right _ _), List.append_assoc, splitBytes?_append,
      Nat.add_sub_cancel_left]
    simp [splitBytes?_append]

/-- A slice exists exactly if its ends are in order, inside the text and at valid positions of
its UTF-8 form. -/
theorem slice?_ne_none_iff {source : List Char} {start stop : Nat} :
    slice? source start stop ≠ none ↔ start ≤ stop ∧
      stop ≤ (String.ofList source).utf8ByteSize ∧
      String.Pos.Raw.IsValid (String.ofList source) ⟨start⟩ ∧
      String.Pos.Raw.IsValid (String.ofList source) ⟨stop⟩ := by
  simp only [Option.ne_none_iff_exists', slice?_eq_some_iff, isValid_ofList_iff,
    utf8ByteSize_ofList]
  constructor
  · rintro ⟨text, before, after, rfl, rfl, rfl⟩
    refine ⟨Nat.le_add_right _ _, ?_, ⟨before, text ++ after, by simp, rfl⟩,
      ⟨before ++ text, after, by simp, by simp⟩⟩
    simp only [byteLength_append]
    omega
  · rintro ⟨horder, -, ⟨before, behind, rfl, rfl⟩, ⟨front, after, hsplit, rfl⟩⟩
    rcases List.append_eq_append_iff.mp hsplit with ⟨text, rfl, rfl⟩ | ⟨text, rfl, rfl⟩
    · exact ⟨text, before, after, by simp, rfl, by simp⟩
    · have hempty : text = [] := by
        by_contra hnonempty
        have hpositive := byteLength_pos hnonempty
        rw [byteLength_append] at horder
        omega
      subst hempty
      exact ⟨[], front, behind, by simp, by simp, by simp⟩

end Text

/-! ## Slices that meet -/

theorem IsSlice.append {source first second : List Char} {start middle stop : Nat}
    (hfirst : IsSlice source start middle first) (hsecond : IsSlice source middle stop second) :
    IsSlice source start stop (first ++ second) := by
  obtain ⟨before, behind, rfl, rfl, hmiddle⟩ := hfirst
  obtain ⟨front, after, hsource, hfront, rfl⟩ := hsecond
  rw [List.append_assoc front] at hsource
  obtain ⟨rfl, rfl⟩ := Text.eq_of_byteLength_eq hsource (by rw [Text.byteLength_append]; omega)
  refine ⟨before, after, by simp, rfl, ?_⟩
  rw [Text.byteLength_append]
  omega

theorem IsSlice.take {source first second : List Char} {start stop : Nat}
    (h : IsSlice source start stop (first ++ second)) :
    IsSlice source start (start + Text.byteLength first) first := by
  obtain ⟨before, after, hsource, hstart, -⟩ := h
  exact ⟨before, second ++ after, by simp [hsource], hstart, rfl⟩

theorem IsSlice.takeWhile (property : Char → Bool) (text : List Char) :
    IsSlice text 0 (Text.byteLength (text.takeWhile property)) (text.takeWhile property) ∧
      IsSlice text (Text.byteLength (text.takeWhile property)) (Text.byteLength text)
        (text.dropWhile property) := by
  have hall : IsSlice text 0 (Text.byteLength text)
      (text.takeWhile property ++ text.dropWhile property) := by
    rw [List.takeWhile_append_dropWhile]
    exact ⟨[], [], by simp, rfl, Nat.zero_add _⟩
  have htake := hall.take
  have hdrop := hall.drop
  rw [Nat.zero_add] at htake hdrop
  exact ⟨htake, hdrop⟩

end GuardedText
