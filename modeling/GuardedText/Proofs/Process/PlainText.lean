import GuardedText.Proofs.Process.FixedPoint

/-!
# Terminators of plain texts

A text without directives comes out with all its line terminators made alike.  This is said
on the characters of the text: read as one glyph each, the terminators are replaced where
they stand, and nothing else changes.  So such a text comes out as it is exactly if it ends
in a terminator and has only terminators of one sort.
-/

namespace GuardedText

open GuardedText.Text

namespace Text

/-- A line terminator, or any other character.  A carriage return that no line feed
follows is a character like any other. -/
inductive Glyph where
  | plain (char : Char)
  | newline (terminator : Terminator)
deriving DecidableEq, Repr

namespace Glyph

def ofText : List Char → List Glyph
  | [] => []
  | '\r' :: '\n' :: rest => .newline .crlf :: ofText rest
  | '\n' :: rest => .newline .lf :: ofText rest
  | char :: rest => .plain char :: ofText rest

def terminator? : Glyph → Option Terminator
  | .plain _ => none
  | .newline terminator => some terminator

end Glyph

def terminators (text : List Char) : List Terminator :=
  (Glyph.ofText text).filterMap Glyph.terminator?

/-- The text with the given terminator in place of each of its own. -/
def Terminator.replaceAll (terminator : Terminator) (text : List Char) : List Char :=
  (Glyph.ofText text).flatMap fun
    | .plain char => [char]
    | .newline _ => terminator.mark

/-! ## Glyphs of lines -/

namespace Glyph

theorem ofText_cons {char : Char} {rest : List Char} (hfeed : char ≠ '\n')
    (hreturn : char = '\r' → rest.head? ≠ some '\n') :
    ofText (char :: rest) = .plain char :: ofText rest := by
  rw [ofText]
  · rintro tail rfl rfl
    exact hreturn rfl rfl
  · exact hfeed

theorem ofText_of_not_mem {line : List Char} (h : '\n' ∉ line) :
    ofText line = line.map .plain := by
  induction line with
  | nil => rfl
  | cons char rest ih =>
      rw [List.mem_cons, not_or] at h
      rw [ofText_cons (Ne.symm h.1), ih h.2, List.map_cons]
      intro _ hnext
      exact h.2 (List.mem_of_mem_head? hnext)

theorem ofText_mark (terminator : Terminator) (rest : List Char) :
    ofText (terminator.mark ++ rest) = .newline terminator :: ofText rest := by
  cases terminator <;> rfl

theorem ofText_append_of_not_mem {line : List Char} {terminator : Terminator}
    (h : '\n' ∉ line) (hreturn : terminator = .lf → line.getLast? ≠ some '\r')
    (rest : List Char) :
    ofText (line ++ (terminator.mark ++ rest)) =
      line.map .plain ++ .newline terminator :: ofText rest := by
  induction line with
  | nil => exact ofText_mark terminator rest
  | cons char others ih =>
      rw [List.mem_cons, not_or] at h
      have hothers : terminator = .lf → others.getLast? ≠ some '\r' := by
        intro hlf hlast
        apply hreturn hlf
        rw [List.getLast?_cons, hlast, Option.getD_some]
      rw [List.cons_append, ofText_cons (Ne.symm h.1), ih h.2 hothers]
      · rfl
      · rintro rfl hnext
        cases others with
        | nil =>
            cases terminator with
            | lf => exact hreturn rfl rfl
            | crlf => simp [Terminator.mark] at hnext
        | cons next others =>
            cases hnext
            exact h.2 List.mem_cons_self

theorem ofText_append_mark {text : List Char} {terminator : Terminator}
    (hreturn : terminator = .lf → text.getLast? ≠ some '\r') (rest : List Char) :
    ofText (text ++ (terminator.mark ++ rest)) =
      ofText text ++ .newline terminator :: ofText rest := by
  induction text using line_induction with
  | one line hline =>
      rw [ofText_append_of_not_mem hline hreturn, ofText_of_not_mem hline]
  | more line found others hline hends ih =>
      have hothers : terminator = .lf → others.getLast? ≠ some '\r' := by
        intro hlf hlast
        apply hreturn hlf
        rw [List.getLast?_append, List.getLast?_append, hlast, Option.some_or, Option.some_or]
      rw [List.append_assoc, List.append_assoc, ofText_append_of_not_mem hline hends,
        ih hothers, ofText_append_of_not_mem hline hends, List.append_assoc, List.cons_append]

end Glyph

theorem terminators_of_not_mem {line : List Char} (h : '\n' ∉ line) :
    terminators line = [] := by
  simp [terminators, Glyph.ofText_of_not_mem h, Glyph.terminator?]

theorem terminators_append_mark {text : List Char} {found : Terminator}
    (hreturn : found = .lf → text.getLast? ≠ some '\r') (rest : List Char) :
    terminators (text ++ (found.mark ++ rest)) =
      terminators text ++ found :: terminators rest := by
  simp [terminators, Glyph.ofText_append_mark hreturn, Glyph.terminator?]

/-! ## Replacing terminators -/

namespace Terminator

theorem replaceAll_of_not_mem (terminator : Terminator) {line : List Char} (h : '\n' ∉ line) :
    terminator.replaceAll line = line := by
  rw [replaceAll, Glyph.ofText_of_not_mem h, List.flatMap_map]
  exact List.flatMap_singleton' line

theorem replaceAll_append_mark (terminator : Terminator) {text : List Char}
    {found : Terminator} (hreturn : found = .lf → text.getLast? ≠ some '\r')
    (rest : List Char) :
    terminator.replaceAll (text ++ (found.mark ++ rest)) =
      terminator.replaceAll text ++ (terminator.mark ++ terminator.replaceAll rest) := by
  rw [replaceAll, Glyph.ofText_append_mark hreturn, List.flatMap_append, List.flatMap_cons]
  rfl

theorem toList_render_texts (terminator : Terminator) (source : List Char) :
    (terminator.render (Line.texts source)).toList =
      terminator.replaceAll source ++ terminator.mark := by
  induction source using line_induction with
  | one line hline =>
      rw [Line.texts_of_not_mem hline, toList_render_cons, replaceAll_of_not_mem _ hline,
        String.toList_ofList]
      simp [render]
  | more line found rest hline hends ih =>
      rw [Line.texts_append_of_not_mem hline hends, toList_render_cons, ih,
        replaceAll_append_mark _ hends, replaceAll_of_not_mem _ hline, String.toList_ofList,
        List.append_assoc, List.append_assoc]

theorem getLast?_append_mark (text : List Char) (terminator : Terminator) :
    (text ++ terminator.mark).getLast? = some '\n' := by
  cases terminator <;> simp [mark]

theorem exists_detect?_iff {source : List Char} :
    (∃ terminator, detect? source = some terminator) ↔ source.getLast? = some '\n' := by
  constructor
  · rintro ⟨terminator, hdetect⟩
    obtain ⟨text, rfl, -⟩ := detect?_eq_some_iff.mp hdetect
    exact getLast?_append_mark text terminator
  · intro hlast
    obtain ⟨text, rfl⟩ := List.getLast?_eq_some_iff.mp hlast
    have hends : lf.mark <:+ text ++ ['\n'] := List.suffix_append text ['\n']
    by_cases hcrlf : crlf.mark <:+ text ++ ['\n']
    · exact ⟨.crlf, if_pos hcrlf⟩
    · exact ⟨.lf, by rw [detect?, if_neg hcrlf, if_pos hends]⟩

theorem toList_render_texts_strip (terminator : Terminator) (source : List Char) :
    (terminator.render (Line.texts (strip source))).toList =
      terminator.replaceAll source ++
        if source.getLast? = some '\n' then [] else terminator.mark := by
  rw [toList_render_texts]
  cases hdetect : detect? source with
  | none =>
      have hends : source.getLast? ≠ some '\n' := by
        intro hlast
        obtain ⟨found, hfound⟩ := exists_detect?_iff.mpr hlast
        rw [hdetect] at hfound
        contradiction
      rw [strip, hdetect, if_neg hends]
  | some found =>
      rw [if_pos (exists_detect?_iff.mp ⟨found, hdetect⟩), List.append_nil]
      obtain ⟨text, rfl, hreturn⟩ := detect?_eq_some_iff.mp hdetect
      have hreplaced := terminator.replaceAll_append_mark hreturn []
      rw [List.append_nil] at hreplaced
      rw [strip_append_mark hreturn, hreplaced]
      simp [replaceAll, Glyph.ofText]

theorem mem_terminators_of_detect? {source : List Char} {terminator : Terminator}
    (h : detect? source = some terminator) : terminator ∈ terminators source := by
  obtain ⟨text, rfl, hreturn⟩ := detect?_eq_some_iff.mp h
  rw [← List.append_nil terminator.mark, terminators_append_mark hreturn]
  simp

theorem replaceAll_eq_self_iff {terminator : Terminator} {source : List Char} :
    terminator.replaceAll source = source ↔
      ∀ found ∈ terminators source, found = terminator := by
  induction source using line_induction with
  | one line hline =>
      simp [replaceAll_of_not_mem terminator hline, terminators_of_not_mem hline]
  | more line found rest hline hends ih =>
      rw [replaceAll_append_mark terminator hends, replaceAll_of_not_mem terminator hline,
        List.append_right_inj, terminators_append_mark hends, terminators_of_not_mem hline,
        List.nil_append, List.forall_mem_cons, ← ih]
      cases terminator <;> cases found <;> simp [mark]

end Terminator

end Text

/-! ## Texts without heads -/

theorem Headless.strip {source : List Char} (h : Headless source) :
    Headless (Terminator.strip source) := by
  rcases Terminator.strip_eq_or source with hsame | ⟨text, terminator, rfl, hstrip, hreturn⟩
  · rw [hsame]
    exact h
  · obtain ⟨init, last, htext, hjoined⟩ := Line.exists_ofText_append hreturn
    have hlines := hjoined []
    rw [List.append_nil] at hlines
    rw [Headless, hlines] at h
    rw [hstrip, Headless, htext]
    intro line hline
    rcases List.mem_append.mp hline with hline | hline
    · exact h line (by simp [hline])
    · rw [List.mem_singleton.mp hline]
      exact h { last with terminator := terminator.mark } (by simp)

/-- A text none of whose lines holds a head comes through a run without a warning, whatever
the symbols and the options are: its terminators are replaced by the one of the run, and
one more is added if the text ends in no line feed.  It comes out unchanged exactly if it
ends in a terminator and its terminators are all the same. -/
theorem process_eq_replaceAll (options : Options) (symbols : Symbols) (source : String)
    (nonempty : source ≠ "") (h : Headless source.toList) :
    ∃ output, process options symbols source = .ok output ∧ output.diagnostics = [] ∧
      output.terminator = options.terminator source ∧
      output.text.toList = output.terminator.replaceAll source.toList ++
        (if source.toList.getLast? = some '\n' then [] else output.terminator.mark) ∧
      (output.text = source ↔ source.toList.getLast? = some '\n' ∧
        ∀ first ∈ terminators source.toList, ∀ second ∈ terminators source.toList,
          first = second) := by
  have htext := (options.terminator source).toList_render_texts_strip source.toList
  refine ⟨_, process_of_headless nonempty h.strip options symbols, rfl, rfl, htext, ?_⟩
  rw [← String.toList_inj, htext]
  constructor
  · intro hsame
    by_cases hends : source.toList.getLast? = some '\n'
    · rw [if_pos hends, List.append_nil, Terminator.replaceAll_eq_self_iff] at hsame
      refine ⟨hends, fun first hfirst second hsecond => ?_⟩
      rw [hsame first hfirst, hsame second hsecond]
    · rw [if_neg hends] at hsame
      rw [← hsame, Terminator.getLast?_append_mark] at hends
      exact absurd rfl hends
  · rintro ⟨hends, hsame⟩
    obtain ⟨last, hlast⟩ := Terminator.exists_detect?_iff.mpr hends
    have hterminator : options.terminator source = last := by
      rw [Options.terminator, hlast, Option.getD_some]
    rw [if_pos hends, List.append_nil, hterminator, Terminator.replaceAll_eq_self_iff]
    intro found hfound
    exact hsame found hfound last (Terminator.mem_terminators_of_detect? hlast)

theorem process_eq_replaceAll_mixed :
    ∃ output, process ⟨.deny, .fixed .crlf⟩ (.ofNames ["A"])
        "/*#\rif A*/\r\n\n\r\r\n<!--# if -A-->" = .ok output ∧
      output.text = "/*#\rif A*/\r\n\r\n\r\r\n<!--# if -A-->\r\n" ∧
      output.text ≠ "/*#\rif A*/\r\n\n\r\r\n<!--# if -A-->" := by
  have hheadless : Headless "/*#\rif A*/\r\n\n\r\r\n<!--# if -A-->".toList := by
    unfold Headless
    decide +kernel
  obtain ⟨output, hrun, -, hterminator, htext, hsame⟩ :=
    process_eq_replaceAll ⟨.deny, .fixed .crlf⟩ (.ofNames ["A"]) _ (by decide) hheadless
  refine ⟨output, hrun, ?_, ?_⟩
  · rw [hterminator] at htext
    exact String.toList_inj.mp (htext.trans (by decide +kernel))
  · intro hunchanged
    exact absurd (hsame.mp hunchanged).1 (by decide +kernel)

end GuardedText
