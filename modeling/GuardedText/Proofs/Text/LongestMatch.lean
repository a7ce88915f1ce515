import Mathlib.Data.List.Chain
import Mathlib.Data.List.TakeWhile
import GuardedText.Proofs.Text.Pieces

/-!
# Lexemes are longest matches

What a lexeme may be is said by rules that know nothing of the text around it.  The lexer takes,
wherever a lexeme begins, the longest text that follows a rule.  It never asks for that: it puts
the characters together from the end of the text.  The two agree because the texts that follow a
rule are the chains of characters of which each joins the next, and the lexer ends a lexeme where
two characters do not join.
-/

namespace GuardedText.Text.Lexeme

/-! ## Rules -/

def signs : List (Char × Kind) :=
  [('/', .slash), ('*', .star), ('#', .hash), ('<', .lessThan), ('>', .greaterThan),
    ('!', .bang), ('-', .dash)]

inductive Rule : Lexeme → Prop
  | sign {char : Char} {kind : Kind} (h : (char, kind) ∈ signs) : Rule ⟨kind, [char]⟩
  | newline (terminator : Terminator) : Rule ⟨.newline, terminator.mark⟩
  | gaps {run : List Char} (nonempty : run ≠ []) (inside : ∀ char ∈ run, isGap char) :
      Rule ⟨.whitespace, run⟩
  | word {run : List Char} (nonempty : run ≠ []) (inside : ∀ char ∈ run, char ∉ reserved) :
      Rule ⟨.text, run⟩
  | loneReturn : Rule ⟨.text, ['\r']⟩

def IsLongest (lexeme : Lexeme) (after : List Char) : Prop :=
  Rule lexeme ∧ ∀ other, Rule other → other.text <+: lexeme.text ++ after →
    other = lexeme ∨ other.text.length < lexeme.text.length

/-- The characters have the property, and those next to them on either side do not. -/
structure IsMaximalRun (property : Char → Prop) (before run after : List Char) : Prop where
  nonempty : run ≠ []
  inside : ∀ char ∈ run, property char
  begins : ∀ char ∈ before.getLast?, ¬property char
  ends : ∀ char ∈ after.head?, ¬property char

inductive Stands (before after : List Char) : Lexeme → Prop
  | sign {char : Char} {kind : Kind} (h : (char, kind) ∈ signs) :
      Stands before after ⟨kind, [char]⟩
  | feed (h : before.getLast? ≠ some '\r') : Stands before after ⟨.newline, ['\n']⟩
  | returnFeed : Stands before after ⟨.newline, ['\r', '\n']⟩
  | gaps {run : List Char} (h : IsMaximalRun (isGap · = true) before run after) :
      Stands before after ⟨.whitespace, run⟩
  | word {run : List Char} (h : IsMaximalRun (· ∉ reserved) before run after) :
      Stands before after ⟨.text, run⟩
  | loneReturn (h : after.head? ≠ some '\n') : Stands before after ⟨.text, ['\r']⟩

/-! ## Characters that join -/

def joins (first second : Char) : Bool :=
  isGap first && isGap second || isWordChar first && isWordChar second ||
    first == '\r' && second == '\n'

/-- A lexeme that ends where the first text ends does not go on in the second. -/
def Apart (before after : List Char) : Prop :=
  ∀ last ∈ before.getLast?, ∀ first ∈ after.head?, joins last first = false

theorem mem_signs_iff {char : Char} {kind : Kind} :
    (char, kind) ∈ signs ↔ punctuation? char = some kind := by
  constructor
  · intro h
    have hall : ∀ pair ∈ signs, punctuation? pair.1 = some pair.2 := by decide
    exact hall _ h
  · intro h
    unfold punctuation? at h
    split at h
    all_goals cases h
    all_goals decide

theorem Rule.isChain {lexeme : Lexeme} (h : Rule lexeme) :
    lexeme.text.IsChain (joins · · = true) := by
  cases h with
  | sign | loneReturn => exact .singleton _
  | newline terminator => cases terminator <;> decide
  | gaps _ inside =>
      apply List.Pairwise.isChain
      apply List.pairwise_of_forall_mem_list
      intro first hfirst second hsecond
      simp [joins, inside first hfirst, inside second hsecond]
  | word _ inside =>
      apply List.Pairwise.isChain
      apply List.pairwise_of_forall_mem_list
      intro first hfirst second hsecond
      simp [joins, isWordChar_iff.mpr (inside first hfirst),
        isWordChar_iff.mpr (inside second hsecond)]

theorem Rule.nonempty {lexeme : Lexeme} (h : Rule lexeme) : lexeme.text ≠ [] := by
  cases h with
  | sign | loneReturn => simp
  | newline terminator => cases terminator <;> decide
  | gaps nonempty | word nonempty => exact nonempty

theorem joins_of_isGap {first second : Char} (hfirst : isGap first)
    (hsecond : isGap second = false) : joins first second = false := by
  have hword : isWordChar first = false := by simp [isWordChar, hfirst]
  have hreturn : first ≠ '\r' := by
    rintro rfl
    contradiction
  simp [joins, hsecond, hword, hreturn]

theorem joins_of_isWordChar {first second : Char} (hfirst : isWordChar first)
    (hsecond : isWordChar second = false) : joins first second = false := by
  simp only [isWordChar, Bool.and_eq_true, bne_iff_ne, Bool.not_eq_true'] at hfirst
  simp [joins, hsecond, hfirst]

theorem joins_of_mem_signs {first : Char} {kind : Kind} (h : (first, kind) ∈ signs)
    (second : Char) : joins first second = false := by
  have hall : ∀ pair ∈ signs, isGap pair.1 = false ∧ isWordChar pair.1 = false ∧
      (pair.1 == '\r') = false := by
    decide
  obtain ⟨hgap, hword, hreturn⟩ := hall _ h
  simp [joins, hgap, hword, hreturn]

/-! ## The first lexeme -/

theorem kind_of_ofText_cons {char : Char} {rest : List Char} (h : isGap char = false)
    {lexeme : Lexeme} {others : List Lexeme} (hfirst : ofText (char :: rest) = lexeme :: others) :
    lexeme.kind ≠ .whitespace := by
  change attach char (ofText rest) = _ at hfirst
  unfold attach at hfirst
  split at hfirst
  · rename_i kind hkind
    cases hfirst
    exact (punctuation?_eq_some hkind).1.2
  · repeat' split at hfirst
    all_goals simp_all
    all_goals simp [← hfirst.1]

theorem ofText_gaps {run rest : List Char} (nonempty : run ≠ [])
    (inside : ∀ char ∈ run, isGap char) (ends : ∀ char ∈ rest.head?, isGap char = false) :
    ofText (run ++ rest) = ⟨.whitespace, run⟩ :: ofText rest := by
  induction run with
  | nil => contradiction
  | cons char others ih =>
      rw [List.forall_mem_cons] at inside
      have hchar : punctuation? char = none ∧ char ≠ '\n' ∧ char ≠ '\r' := by
        have hgap := inside.1
        simp only [isGap, Bool.or_eq_true, beq_iff_eq] at hgap
        rcases hgap with rfl | rfl <;> decide
      change attach char (ofText (others ++ rest)) = _
      cases others with
      | nil =>
          simp only [attach, hchar, inside.1, if_true, if_false, List.nil_append]
          split
          · rename_i hrest
            cases rest with
            | nil => exact absurd hrest.symm (List.cons_ne_nil _ _)
            | cons next rest => exact absurd rfl (kind_of_ofText_cons (ends next rfl) hrest)
          · rfl
      | cons next others =>
          rw [ih (by simp) inside.2]
          simp [attach, hchar, inside.1]

theorem ofText_loneReturn {rest : List Char} (h : rest.head? ≠ some '\n') :
    ofText ('\r' :: rest) = ⟨.text, ['\r']⟩ :: ofText rest := by
  change attach '\r' (ofText rest) = _
  have htext := textOf_ofText rest
  have hsign : punctuation? '\r' = none := rfl
  simp only [attach, hsign, Char.reduceEq, if_true, if_false]
  split
  · rename_i hrest
    rw [hrest] at htext
    exact absurd (by rw [← htext]; rfl) h
  · rfl

theorem apart_takeWhile {property : Char → Bool} (text : List Char)
    (h : ∀ first second, property first = true → property second = false →
      joins first second = false) :
    Apart (text.takeWhile property) (text.dropWhile property) := by
  intro last hlast first hfirst
  have hinside := List.mem_takeWhile_imp (List.mem_of_mem_getLast? hlast)
  exact h last first hinside (head?_dropWhile_eq_false first hfirst)

theorem exists_first (char : Char) (rest : List Char) :
    ∃ lexeme after, char :: rest = lexeme.text ++ after ∧
      ofText (char :: rest) = lexeme :: ofText after ∧ Rule lexeme ∧
        Apart lexeme.text after := by
  by_cases hgap : isGap char
  · have nonempty : (char :: rest).takeWhile isGap ≠ [] := by simp [hgap]
    have inside : ∀ other ∈ (char :: rest).takeWhile isGap, isGap other :=
      fun other hother => List.mem_takeWhile_imp hother
    refine ⟨⟨.whitespace, (char :: rest).takeWhile isGap⟩, (char :: rest).dropWhile isGap,
      List.takeWhile_append_dropWhile.symm, ?_, .gaps nonempty inside, ?_⟩
    · rw [← ofText_gaps nonempty inside head?_dropWhile_eq_false,
        List.takeWhile_append_dropWhile]
    · exact apart_takeWhile _ fun first second => joins_of_isGap
  · by_cases hword : isWordChar char
    · have nonempty : (char :: rest).takeWhile isWordChar ≠ [] := by simp [hword]
      have inside : ∀ other ∈ (char :: rest).takeWhile isWordChar, other ∉ reserved :=
        fun other hother => isWordChar_iff.mp (List.mem_takeWhile_imp hother)
      exact ⟨⟨.text, (char :: rest).takeWhile isWordChar⟩, (char :: rest).dropWhile isWordChar,
        List.takeWhile_append_dropWhile.symm, ofText_run hword rest, .word nonempty inside,
        apart_takeWhile _ fun first second => joins_of_isWordChar⟩
    · cases hsign : punctuation? char with
      | some kind =>
          have hmem := mem_signs_iff.mpr hsign
          refine ⟨⟨kind, [char]⟩, rest, rfl, ofText_punctuation rest hsign, .sign hmem, ?_⟩
          rintro last ⟨⟩ first _
          exact joins_of_mem_signs hmem first
      | none =>
          have hreturn : char ≠ '\n' → char = '\r' := by
            intro hfeed
            simp_all [isWordChar]
          by_cases hfeed : char = '\n'
          · subst hfeed
            refine ⟨⟨.newline, Terminator.lf.mark⟩, rest, rfl, ofText_mark .lf rest,
              .newline .lf, ?_⟩
            rintro last ⟨⟩ first _
            rfl
          · obtain rfl := hreturn hfeed
            by_cases hnext : rest.head? = some '\n'
            · obtain ⟨after, rfl⟩ := List.head?_eq_some_iff.mp hnext
              refine ⟨⟨.newline, Terminator.crlf.mark⟩, after, rfl, ofText_mark .crlf after,
                .newline .crlf, ?_⟩
              rintro last ⟨⟩ first _
              rfl
            · refine ⟨⟨.text, ['\r']⟩, rest, rfl, ofText_loneReturn hnext, .loneReturn, ?_⟩
              rintro last ⟨⟩ first hfirst
              have hother : first ≠ '\n' := by
                rintro rfl
                exact hnext hfirst
              simp [joins, isGap, isWordChar, hother]

/-! ## All lexemes -/

theorem eq_ofText_of_append {source : List Char} {earlier later : List Lexeme}
    (h : ofText source = earlier ++ later) : later = ofText (textOf later) := by
  induction earlier generalizing source with
  | nil => rw [← List.nil_append later, ← h, textOf_ofText]
  | cons other earlier ih =>
      cases source with
      | nil => contradiction
      | cons char rest =>
          obtain ⟨first, after, -, hfirst, -, -⟩ := exists_first char rest
          rw [hfirst, List.cons_append, List.cons.injEq] at h
          exact ih h.2

theorem rule_of_ofText {source : List Char} {earlier later : List Lexeme} {lexeme : Lexeme}
    (h : ofText source = earlier ++ lexeme :: later) :
    Rule lexeme ∧ Apart lexeme.text (textOf later) := by
  have hlexemes := eq_ofText_of_append h
  cases htext : textOf (lexeme :: later) with
  | nil =>
      rw [htext] at hlexemes
      contradiction
  | cons char rest =>
      obtain ⟨first, after, -, hfirst, hrule, hapart⟩ := exists_first char rest
      rw [htext, hfirst] at hlexemes
      cases hlexemes
      rw [textOf_ofText]
      exact ⟨hrule, hapart⟩

theorem apart_of_ofText {source : List Char} {earlier later : List Lexeme} {lexeme : Lexeme}
    (h : ofText source = earlier ++ lexeme :: later) : Apart (textOf earlier) lexeme.text := by
  rcases List.eq_nil_or_concat earlier with rfl | ⟨init, previous, rfl⟩
  · rintro last ⟨⟩
  · have hnonempty := (rule_of_ofText h).1.nonempty
    rw [List.concat_eq_append, List.append_assoc] at h
    obtain ⟨hprevious, hapart⟩ := rule_of_ofText h
    intro last hlast first hfirst
    apply hapart
    · simpa [textOf, List.getLast?_append_of_ne_nil _ hprevious.nonempty] using hlast
    · simpa [textOf, List.head?_append_of_ne_nil _ hnonempty] using hfirst

theorem isMaximalRun_of_apart {property : Char → Prop} {before run after : List Char}
    (hjoins : ∀ first second, property first → property second → joins first second = true)
    (nonempty : run ≠ []) (inside : ∀ char ∈ run, property char) (hbefore : Apart before run)
    (hafter : Apart run after) : IsMaximalRun property before run after := by
  refine ⟨nonempty, inside, ?_, ?_⟩
  · intro last hlast hproperty
    have hfirst := List.head?_eq_some_head nonempty
    have happart := hbefore last hlast _ hfirst
    rw [hjoins _ _ hproperty (inside _ (List.head_mem nonempty))] at happart
    contradiction
  · intro first hfirst hproperty
    have hlast := List.getLast?_eq_some_getLast nonempty
    have happart := hafter _ hlast first hfirst
    rw [hjoins _ _ (inside _ (List.getLast_mem nonempty)) hproperty] at happart
    contradiction

theorem Rule.stands {lexeme : Lexeme} {before after : List Char} (h : Rule lexeme)
    (hbefore : Apart before lexeme.text) (hafter : Apart lexeme.text after) :
    Stands before after lexeme := by
  cases h with
  | sign h => exact .sign h
  | newline terminator =>
      cases terminator with
      | lf =>
          refine .feed ?_
          intro hreturn
          exact absurd (hbefore _ hreturn _ rfl) (by decide)
      | crlf => exact .returnFeed
  | gaps nonempty inside =>
      refine .gaps (isMaximalRun_of_apart ?_ nonempty inside hbefore hafter)
      intro first second hfirst hsecond
      simp [joins, hfirst, hsecond]
  | word nonempty inside =>
      refine .word (isMaximalRun_of_apart ?_ nonempty inside hbefore hafter)
      intro first second hfirst hsecond
      simp [joins, isWordChar_iff.mpr hfirst, isWordChar_iff.mpr hsecond]
  | loneReturn =>
      refine .loneReturn ?_
      intro hfeed
      exact absurd (hafter _ rfl _ hfeed) (by decide)

/-! ## Longest matches -/

theorem ofText_of_rule {lexeme : Lexeme} (h : Rule lexeme) : ofText lexeme.text = [lexeme] := by
  cases h with
  | sign h => exact ofText_punctuation [] (mem_signs_iff.mp h)
  | newline terminator => cases terminator <;> rfl
  | @gaps run nonempty inside =>
      have hrun := @ofText_gaps run [] nonempty inside (by simp)
      rwa [List.append_nil] at hrun
  | @word run nonempty inside =>
      have hrun := @ofText_word run [] nonempty
        (fun char hchar => isWordChar_iff.mpr (inside char hchar)) (by simp [ofText])
      rwa [List.append_nil] at hrun
  | loneReturn => rfl

theorem Rule.isLongest {lexeme : Lexeme} {after : List Char} (h : Rule lexeme)
    (hafter : Apart lexeme.text after) : IsLongest lexeme after := by
  refine ⟨h, ?_⟩
  intro other hother hfits
  by_cases hshorter : other.text.length < lexeme.text.length
  · exact .inr hshorter
  · obtain ⟨more, hmore⟩ := List.prefix_of_prefix_length_le (List.prefix_append lexeme.text after)
      hfits (Nat.le_of_not_lt hshorter)
    cases more with
    | nil =>
        have hsame := (ofText_of_rule h).symm.trans
          ((congrArg ofText (by simpa using hmore)).trans (ofText_of_rule hother))
        exact .inl (List.cons.inj hsame).1.symm
    | cons next more =>
        have hchain := hother.isChain
        rw [← hmore, List.isChain_append] at hchain
        rw [← hmore, List.prefix_append_right_inj] at hfits
        obtain ⟨rest, rfl⟩ := hfits
        have hlast := List.getLast?_eq_some_getLast h.nonempty
        have hjoins := hchain.2.2 _ hlast next rfl
        rw [hafter _ hlast next rfl] at hjoins
        contradiction

/-- The lexemes of a text tile its bytes and none of them is empty.  Each is what its place
asks for, and the longest text there that follows a rule. -/
theorem spans_longest (source : List Char) :
    Tiles 0 (byteLength source) (spans 0 (ofText source)) ∧
      ∀ lexeme first last, (lexeme, first, last) ∈ spans 0 (ofText source) → first < last ∧
        ∃ before after, source = before ++ (lexeme.text ++ after) ∧ byteLength before = first ∧
          byteLength (before ++ lexeme.text) = last ∧ Stands before after lexeme ∧
            IsLongest lexeme after := by
  constructor
  · have htiles := tiles_spans 0 (ofText source)
    rwa [textOf_ofText, Nat.zero_add] at htiles
  · intro lexeme first last hspan
    obtain ⟨earlier, later, hsplit, hfirst, hlast⟩ := exists_of_mem_spans hspan
    obtain ⟨hrule, hafter⟩ := rule_of_ofText hsplit
    have hpositive := byteLength_pos hrule.nonempty
    refine ⟨by omega, textOf earlier, textOf later, ?_, by omega, ?_,
      hrule.stands (apart_of_ofText hsplit) hafter, hrule.isLongest hafter⟩
    · rw [← textOf_ofText source, hsplit]
      simp [textOf]
    · rw [byteLength_append]
      omega

end GuardedText.Text.Lexeme
