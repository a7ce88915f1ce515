import GuardedText.Proofs.Statement.Partition
import GuardedText.Proofs.Statement.Written

/-!
# Heads by their characters

Heads are looked for among the lexemes of a line.  Here a head is told from the characters
of the line alone, at any position of it.  The two agree because an opener is made of
characters that are lexemes of their own wherever they stand, and because a keyword and the
character behind it can be read off the run of text that they belong to.
-/

namespace GuardedText.Directive

open GuardedText.Text

def keywords : List (String × Kind) :=
  [("if", .start .ifTrue), ("elif", .start .elseIf), ("elseif", .start .elseIf),
    ("else", .start .otherwise), ("endif", .finish)]

def Style.IsOpener : Style → List Char → Prop
  | .block, opener => ∃ stars, opener = '/' :: List.replicate (stars + 1) '*' ++ ['#']
  | .markup, opener => opener = "<!--#".toList

/-- The text `written` is a head, if `rest` stands behind it on its line. -/
def IsHead (style : Style) (kind : Kind) (written rest : List Char) : Prop :=
  ∃ opener keyword, written = opener ++ keyword.toList ∧ style.IsOpener opener ∧
    (keyword, kind) ∈ keywords ∧ ∀ char ∈ rest.head?, isNameChar char = false

def BeginsWithHead (text : List Char) : Prop :=
  ∃ style kind written rest, text = written ++ rest ∧ IsHead style kind written rest

/-! ## Keywords -/

theorem Kind.ofKeyword?_eq_some_iff {keyword : String} {kind : Kind} :
    ofKeyword? keyword = some kind ↔ (keyword, kind) ∈ keywords := by
  constructor
  · intro h
    unfold ofKeyword? at h
    split at h
    all_goals cases h
    all_goals decide
  · intro h
    have hall : ∀ pair ∈ keywords, ofKeyword? pair.1 = some pair.2 := by decide
    exact hall _ h

theorem isAlpha_of_mem_keywords {keyword : String} {kind : Kind}
    (h : (keyword, kind) ∈ keywords) :
    keyword.toList ≠ [] ∧ ∀ char ∈ keyword.toList, char.isAlpha := by
  have hall : ∀ pair ∈ keywords, pair.1.toList ≠ [] ∧ pair.1.toList.all Char.isAlpha := by
    decide
  exact ⟨(hall _ h).1, List.all_eq_true.mp (hall _ h).2⟩

theorem isNameChar_of_isAlpha {char : Char} (h : char.isAlpha) : isNameChar char := by
  simp [isNameChar, Char.isAlphanum, h]

theorem isAlpha_eq_false {char : Char} (h : isNameChar char = false) : char.isAlpha = false := by
  cases hletter : char.isAlpha with
  | false => rfl
  | true =>
      rw [isNameChar_of_isAlpha hletter] at h
      contradiction

theorem isWordChar_of_isNameChar {char : Char} (h : isNameChar char) :
    Lexeme.isWordChar char := by
  rw [Lexeme.isWordChar_iff]
  intro hmem
  have hnone : Lexeme.reserved.all (!isNameChar ·) := by decide
  simpa [h] using List.all_eq_true.mp hnone char hmem

namespace Head

theorem keyword?_eq_some {text : List Char} {kind : Kind} {body : List Lexeme}
    (h : keyword? (Lexeme.ofText text) = some (kind, body)) :
    ∃ run rest, text = run ++ rest ∧ (∀ char ∈ run, Lexeme.isWordChar char) ∧
      (∀ char ∈ rest.head?, Lexeme.isWordChar char = false) ∧
      (String.ofList (run.takeWhile Char.isAlpha), kind) ∈ keywords ∧
      (run.dropWhile Char.isAlpha).head?.any isNameChar = false ∧
      body = ⟨.text, run.dropWhile Char.isAlpha⟩ :: Lexeme.ofText rest := by
  cases text with
  | nil => contradiction
  | cons first others =>
      cases hfirst : Lexeme.isWordChar first with
      | true =>
          rw [Lexeme.ofText_run hfirst, keyword?] at h
          refine ⟨_, _, List.takeWhile_append_dropWhile.symm,
            List.all_eq_true.mp List.all_takeWhile, head?_dropWhile_eq_false, ?_⟩
          split at h
          · contradiction
          · rename_i hnext
            obtain ⟨found, hfound, hresult⟩ := Option.map_eq_some_iff.mp h
            cases hresult
            exact ⟨Kind.ofKeyword?_eq_some_iff.mp hfound, eq_false_of_ne_true hnext, rfl⟩
      | false =>
          cases hlexemes : Lexeme.ofText (first :: others) with
          | nil =>
              rw [hlexemes] at h
              contradiction
          | cons lexeme later =>
              obtain ⟨sort, run⟩ := lexeme
              rw [hlexemes] at h
              cases sort with
              | text =>
                  rw [Lexeme.text_of_head?_ofText hfirst hlexemes] at h
                  contradiction
              | _ => contradiction

theorem keyword?_sound {text : List Char} {kind : Kind} {body : List Lexeme}
    (h : keyword? (Lexeme.ofText text) = some (kind, body)) :
    ∃ keyword, text = keyword.toList ++ Lexeme.textOf body ∧ (keyword, kind) ∈ keywords ∧
      ∀ char ∈ (Lexeme.textOf body).head?, isNameChar char = false := by
  obtain ⟨run, rest, rfl, -, hrest, hkeyword, hnext, rfl⟩ := keyword?_eq_some h
  rw [Lexeme.textOf_cons_ofText]
  refine ⟨String.ofList (run.takeWhile Char.isAlpha), ?_, hkeyword, ?_⟩
  · rw [String.toList_ofList, ← List.append_assoc, List.takeWhile_append_dropWhile]
  · intro char hchar
    cases hdrop : run.dropWhile Char.isAlpha with
    | cons next later =>
        rw [hdrop] at hchar hnext
        cases hchar
        simpa using hnext
    | nil =>
        rw [hdrop, List.nil_append] at hchar
        have hword := hrest char hchar
        cases hname : isNameChar char with
        | false => rfl
        | true =>
            rw [isWordChar_of_isNameChar hname] at hword
            contradiction

theorem keyword?_complete {keyword : String} {kind : Kind} {rest : List Char}
    (hkeyword : (keyword, kind) ∈ keywords)
    (hends : ∀ char ∈ rest.head?, isNameChar char = false) :
    ∃ body, keyword? (Lexeme.ofText (keyword.toList ++ rest)) = some (kind, body) ∧
      Lexeme.textOf body = rest := by
  obtain ⟨hnonempty, halpha⟩ := isAlpha_of_mem_keywords hkeyword
  have hword : ∀ char ∈ keyword.toList, Lexeme.isWordChar char :=
    fun char hchar => isWordChar_of_isNameChar (isNameChar_of_isAlpha (halpha char hchar))
  have hrun : Lexeme.ofText (keyword.toList ++ rest) =
      ⟨.text, keyword.toList ++ rest.takeWhile Lexeme.isWordChar⟩ ::
        Lexeme.ofText (rest.dropWhile Lexeme.isWordChar) := by
    cases hletters : keyword.toList with
    | nil => contradiction
    | cons first others =>
        rw [hletters] at hword
        rw [List.cons_append, Lexeme.ofText_run (hword first (by simp)), ← List.cons_append,
          List.takeWhile_append_of_pos hword, List.dropWhile_append_of_pos hword]
  have hnext : ∀ char ∈ (rest.takeWhile Lexeme.isWordChar).head?, isNameChar char = false := by
    intro char hchar
    cases rest with
    | nil => simp at hchar
    | cons next later =>
        rw [List.takeWhile_cons] at hchar
        split at hchar
        · cases hchar
          exact hends char rfl
        · simp at hchar
  have hstop : ∀ char ∈ (rest.takeWhile Lexeme.isWordChar).head?, char.isAlpha = false :=
    fun char hchar => isAlpha_eq_false (hnext char hchar)
  have htake := takeWhile_append_eq halpha hstop
  have hdrop := dropWhile_append_eq halpha hstop
  refine ⟨⟨.text, rest.takeWhile Lexeme.isWordChar⟩ ::
    Lexeme.ofText (rest.dropWhile Lexeme.isWordChar), ?_, ?_⟩
  · rw [hrun]
    simp only [keyword?, htake, hdrop, String.ofList_toList]
    rw [(Option.any_eq_false _ _).mpr hnext, Kind.ofKeyword?_eq_some_iff.mpr hkeyword]
    rfl
  · rw [Lexeme.textOf_cons_ofText, List.takeWhile_append_dropWhile]

/-! ## Openers -/

theorem afterStars?_sound {text : List Char} {rest : List Lexeme}
    (h : afterStars? (Lexeme.ofText text) = some rest) :
    ∃ stars tail, text = List.replicate stars '*' ++ '#' :: tail ∧
      rest = Lexeme.ofText tail := by
  induction hlexemes : Lexeme.ofText text generalizing text with
  | nil =>
      rw [hlexemes] at h
      contradiction
  | cons first others ih =>
      obtain ⟨sort, run⟩ := first
      rw [hlexemes] at h
      cases sort with
      | star =>
          obtain ⟨tail, rfl, rfl⟩ :=
            Lexeme.exists_of_ofText_sign hlexemes (rfl : Lexeme.punctuation? '*' = _)
          obtain ⟨stars, later, rfl, hrest⟩ := ih h rfl
          exact ⟨stars + 1, later, rfl, hrest⟩
      | hash =>
          obtain ⟨tail, rfl, rfl⟩ :=
            Lexeme.exists_of_ofText_sign hlexemes (rfl : Lexeme.punctuation? '#' = _)
          cases h
          exact ⟨0, tail, rfl, rfl⟩
      | _ => contradiction

theorem opener?_sound {text : List Char} {style : Style} {rest : List Lexeme}
    (h : opener? (Lexeme.ofText text) = some (style, rest)) :
    ∃ opener tail, text = opener ++ tail ∧ style.IsOpener opener ∧
      rest = Lexeme.ofText tail := by
  unfold opener? at h
  split at h
  · rename_i hlexemes
    obtain ⟨found, hfound, hresult⟩ := Option.map_eq_some_iff.mp h
    cases hresult
    obtain ⟨behind, rfl, rfl⟩ :=
      @Lexeme.exists_of_ofText_signs ['/', '*'] text [_, _] _ hlexemes rfl
    obtain ⟨stars, tail, rfl, hrest⟩ := afterStars?_sound hfound
    refine ⟨'/' :: List.replicate (stars + 1) '*' ++ ['#'], tail, ?_, ⟨stars, rfl⟩, hrest⟩
    simp [List.replicate_succ]
  · rename_i hlexemes
    cases h
    obtain ⟨tail, htext, hrest⟩ :=
      @Lexeme.exists_of_ofText_signs "<!--#".toList text [_, _, _, _, _] _ hlexemes rfl
    exact ⟨_, tail, htext, rfl, hrest⟩
  · contradiction

theorem opener?_complete {style : Style} {opener : List Char} (h : style.IsOpener opener)
    (tail : List Char) :
    opener? (Lexeme.ofText (opener ++ tail)) = some (style, Lexeme.ofText tail) := by
  cases style with
  | block =>
      obtain ⟨stars, rfl⟩ := h
      rw [ofText_signs tail (isSign_blockOpener stars), opener?_block]
  | markup =>
      rw [h, ofText_signs tail (by decide), opener?_markup]

/-! ## Heads -/

theorem here?_sound {text : List Char} {head : Head}
    (h : here? (Lexeme.ofText text) = some head) :
    ∃ written, text = written ++ Lexeme.textOf head.body ∧
      IsHead head.style head.kind written (Lexeme.textOf head.body) := by
  obtain ⟨⟨style, behind⟩, hopener, h⟩ := Option.bind_eq_some_iff.mp h
  obtain ⟨⟨kind, body⟩, hkeyword, h⟩ := Option.bind_eq_some_iff.mp h
  cases h
  obtain ⟨opener, tail, rfl, hstyle, rfl⟩ := opener?_sound hopener
  obtain ⟨keyword, rfl, hkind, hends⟩ := keyword?_sound hkeyword
  exact ⟨opener ++ keyword.toList, by simp, opener, keyword, rfl, hstyle, hkind, hends⟩

theorem here?_complete {style : Style} {kind : Kind} {written rest : List Char}
    (h : IsHead style kind written rest) :
    ∃ body, here? (Lexeme.ofText (written ++ rest)) = some ⟨style, kind, body⟩ ∧
      Lexeme.textOf body = rest := by
  obtain ⟨opener, keyword, rfl, hstyle, hkind, hends⟩ := h
  obtain ⟨body, hkeyword, hbody⟩ := keyword?_complete hkind hends
  refine ⟨body, ?_, hbody⟩
  rw [here?, List.append_assoc, opener?_complete hstyle]
  simp [hkeyword]

theorem here?_eq_none_iff {text : List Char} :
    here? (Lexeme.ofText text) = none ↔ ¬BeginsWithHead text := by
  constructor
  · rintro hnone ⟨style, kind, written, rest, rfl, hhead⟩
    obtain ⟨body, hfound, -⟩ := here?_complete hhead
    rw [hnone] at hfound
    contradiction
  · intro hbegins
    cases hfound : here? (Lexeme.ofText text) with
    | none => rfl
    | some head =>
        obtain ⟨written, htext, hhead⟩ := here?_sound hfound
        exact absurd ⟨head.style, head.kind, written, _, htext, hhead⟩ hbegins

/-! ## Positions -/

theorem here?_of_kind {kind : Lexeme.Kind} (h : kind ≠ .slash ∧ kind ≠ .lessThan)
    (text : List Char) (rest : List Lexeme) : here? (⟨kind, text⟩ :: rest) = none := by
  cases kind <;> simp_all [here?, opener?]

theorem find?_ofText_cons (char : Char) (rest : List Char) :
    find? (Lexeme.ofText (char :: rest)) =
      (here? (Lexeme.ofText (char :: rest)) <|> find? (Lexeme.ofText rest)) := by
  cases hchar : Lexeme.punctuation? char with
  | some kind => rw [Lexeme.ofText_punctuation rest hchar, find?]
  | none =>
      change find? (Lexeme.attach char (Lexeme.ofText rest)) =
        (here? (Lexeme.attach char (Lexeme.ofText rest)) <|> _)
      obtain ⟨kind, run, hkind, hattach⟩ :=
        Lexeme.attach_of_not_punctuation hchar (Lexeme.ofText rest)
      rcases hattach with hattach | ⟨old, others, hrest, hattach⟩
      · rw [hattach, find?]
      · have hplain : kind ≠ .slash ∧ kind ≠ .lessThan := by
          rcases hkind with rfl | rfl | rfl <;> decide
        rw [hattach, hrest, find?, find?, here?_of_kind hplain, here?_of_kind hplain]
        rfl

theorem find?_ofText_eq_none_iff {text : List Char} :
    find? (Lexeme.ofText text) = none ↔
      ∀ before after, text = before ++ after → here? (Lexeme.ofText after) = none := by
  induction text with
  | nil =>
      constructor
      · intro _ before after hsplit
        rw [(List.append_eq_nil_iff.mp hsplit.symm).2]
        rfl
      · intro _
        rfl
  | cons char rest ih =>
      rw [find?_ofText_cons]
      constructor
      · intro hnone before after hsplit
        cases hhere : here? (Lexeme.ofText (char :: rest)) with
        | some head => simp [hhere] at hnone
        | none =>
            cases before with
            | nil => rwa [hsplit, List.nil_append] at hhere
            | cons first before =>
                rw [hhere] at hnone
                exact ih.mp hnone before after (List.cons.inj hsplit).2
      · intro hall
        rw [hall [] _ rfl]
        apply ih.mpr
        intro before after hsplit
        exact hall (char :: before) after (by rw [hsplit, List.cons_append])

theorem find?_ofText_eq_some_iff {text : List Char} {head : Head} :
    find? (Lexeme.ofText text) = some head ↔
      ∃ before after, text = before ++ after ∧ here? (Lexeme.ofText after) = some head ∧
        ∀ earlier later, text = earlier ++ later → earlier.length < before.length →
          here? (Lexeme.ofText later) = none := by
  induction text with
  | nil =>
      constructor
      · intro h
        contradiction
      · rintro ⟨before, after, hsplit, hhere, -⟩
        rw [(List.append_eq_nil_iff.mp hsplit.symm).2] at hhere
        contradiction
  | cons char rest ih =>
      rw [find?_ofText_cons]
      cases hhere : here? (Lexeme.ofText (char :: rest)) with
      | some found =>
          constructor
          · intro h
            cases h
            exact ⟨[], char :: rest, rfl, hhere, fun _ _ _ hshorter => absurd hshorter (by simp)⟩
          · rintro ⟨before, after, hsplit, hafter, hfirst⟩
            cases before with
            | nil =>
                rw [hsplit, List.nil_append, hafter] at hhere
                cases hhere
                rfl
            | cons first before =>
                have hnone := hfirst [] _ rfl (by simp)
                rw [hhere] at hnone
                contradiction
      | none =>
          refine Iff.trans (b := find? (Lexeme.ofText rest) = some head) (by simp) (ih.trans ?_)
          constructor
          · rintro ⟨before, after, rfl, hafter, hfirst⟩
            refine ⟨char :: before, after, rfl, hafter, ?_⟩
            intro earlier later hsplit hshorter
            cases earlier with
            | nil => rwa [hsplit, List.nil_append] at hhere
            | cons first earlier =>
                exact hfirst earlier later (List.cons.inj hsplit).2
                  (Nat.lt_of_succ_lt_succ hshorter)
          · rintro ⟨before, after, hsplit, hafter, hfirst⟩
            cases before with
            | nil =>
                rw [hsplit, List.nil_append, hafter] at hhere
                contradiction
            | cons first before =>
                refine ⟨before, after, (List.cons.inj hsplit).2, hafter, ?_⟩
                intro earlier later hearlier hshorter
                exact hfirst (char :: earlier) later (by rw [hearlier, List.cons_append])
                  (Nat.succ_lt_succ hshorter)

end Head

/-- Behind `before` stands the head `written` and then `rest`; no head begins earlier. -/
structure FirstHead (text : List Char) (style : Style) (kind : Kind)
    (before written rest : List Char) : Prop where
  text_eq : text = before ++ (written ++ rest)
  isHead : IsHead style kind written rest
  leftmost : ∀ earlier later, text = earlier ++ later → earlier.length < before.length →
    ¬BeginsWithHead later

theorem Head.find?_ofText_iff_firstHead {text : List Char} {style : Style} {kind : Kind}
    {rest : List Char} :
    (∃ body, find? (Lexeme.ofText text) = some ⟨style, kind, body⟩ ∧
        Lexeme.textOf body = rest) ↔
      ∃ before written, FirstHead text style kind before written rest := by
  constructor
  · rintro ⟨body, hfind, rfl⟩
    obtain ⟨before, after, rfl, hhere, hfirst⟩ := find?_ofText_eq_some_iff.mp hfind
    obtain ⟨written, rfl, hhead⟩ := here?_sound hhere
    exact ⟨before, written, rfl, hhead, fun earlier later hsplit hshorter =>
      here?_eq_none_iff.mp (hfirst earlier later hsplit hshorter)⟩
  · rintro ⟨before, written, rfl, hhead, hfirst⟩
    obtain ⟨body, hhere, hbody⟩ := here?_complete hhead
    refine ⟨body, find?_ofText_eq_some_iff.mpr ⟨before, _, rfl, hhere, ?_⟩, hbody⟩
    intro earlier later hsplit hshorter
    exact here?_eq_none_iff.mpr (hfirst earlier later hsplit hshorter)

/-- A line holds a head exactly if some position of its text begins with one: `/`, one or
more stars and `#`, or `<!--#`, and right behind it a keyword that no character of a name
continues.  The head that is found is the leftmost of these, with its style and its kind,
and what stands behind it begins at the byte right behind the keyword. -/
theorem find?_iff_firstHead (source : List Char) (line : Line)
    (h : line ∈ Line.ofText source) :
    (Head.find? line.lexemes ≠ none ↔
      ∃ before after, line.text = before ++ after ∧ BeginsWithHead after) ∧
    ∀ style kind rest,
      (∃ body, Head.find? line.lexemes = some ⟨style, kind, body⟩ ∧
          Lexeme.textOf body = rest) ↔
        ∃ before written, FirstHead line.text style kind before written rest ∧
          IsSlice source (line.start + byteLength (before ++ written)) line.stop rest := by
  rw [(Line.lexemes_eq_of_mem h).1]
  constructor
  · rw [ne_eq, Head.find?_ofText_eq_none_iff]
    simp only [Head.here?_eq_none_iff, not_forall, not_not, exists_prop]
  · intro style kind rest
    rw [Head.find?_ofText_iff_firstHead]
    constructor
    · rintro ⟨before, written, hfirst⟩
      refine ⟨before, written, hfirst, ?_⟩
      have hslice := isSlice_of_mem h
      rw [hfirst.text_eq, ← List.append_assoc] at hslice
      exact hslice.drop
    · rintro ⟨before, written, hfirst, -⟩
      exact ⟨before, written, hfirst⟩

theorem find?_iff_firstHead_unknown :
    ∃ before written,
      FirstHead "/*#iffy é/**#elseif(A) <!--#if".toList .block (.start .elseIf)
        before written "(A) <!--#if".toList ∧
      IsSlice "x\r\n/*#iffy é/**#elseif(A) <!--#if\n".toList
        (3 + byteLength (before ++ written)) 34 "(A) <!--#if".toList := by
  have hfound := (find?_iff_firstHead "x\r\n/*#iffy é/**#elseif(A) <!--#if\n".toList
    ⟨⟨Lexeme.ofText "/*#iffy é/**#elseif(A) <!--#if".toList, ['\n']⟩, 2, 3⟩
    (by decide +kernel)).2 .block (.start .elseIf) "(A) <!--#if".toList
  rw [Line.stop, Line.text, Lexeme.textOf_ofText] at hfound
  exact hfound.mp ⟨Lexeme.ofText "(A) <!--#if".toList, by decide +kernel,
    Lexeme.textOf_ofText _⟩

end GuardedText.Directive
