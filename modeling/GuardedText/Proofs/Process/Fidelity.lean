import GuardedText.Proofs.Process.Policy
import GuardedText.Proofs.Selection.Scan
import GuardedText.Proofs.Statement.Partition

/-!
# The end of an output

The lines that are kept are put out with the terminator of the text.  A line can end in a
carriage return of its own, though, and a line feed behind it is then no line feed alone:
where such a line is the last one, a text that follows LF comes out ending in CR LF.  This
is the only way to lose the terminator, and it takes a carriage return in front of a CR LF
or at the end of the text.
-/

namespace GuardedText

open GuardedText.Text

/-! ## The end of rendered lines -/

namespace Text.Terminator

theorem toList_render_concat (terminator : Terminator) (lines : List String) (last : String) :
    (terminator.render (lines ++ [last])).toList =
      (terminator.render lines).toList ++ last.toList ++ terminator.mark := by
  simp [render]

theorem getLast?_render_append (terminator : Terminator) (lines : List String)
    (text : List Char) :
    ((terminator.render lines).toList ++ text).getLast? = some '\r' ↔
      text.getLast? = some '\r' := by
  have hlines : (terminator.render lines).toList.getLast? ≠ some '\r' := by
    rcases List.eq_nil_or_concat lines with rfl | ⟨init, last, rfl⟩
    · simp [render]
    · rw [List.concat_eq_append, toList_render_concat]
      cases terminator <;> simp [mark]
  rw [List.getLast?_append]
  cases hlast : text.getLast? with
  | none => simpa using hlines
  | some char => simp

theorem detect?_render_concat (terminator : Terminator) (lines : List String)
    (last : String) :
    detect? (terminator.render (lines ++ [last])).toList = some terminator ↔
      ¬(terminator = .lf ∧ last.toList.getLast? = some '\r') := by
  rw [toList_render_concat, detect?_eq_some_iff]
  constructor
  · rintro ⟨text, htext, hreturn⟩ ⟨hlf, hlast⟩
    rw [← List.append_cancel_right htext] at hreturn
    exact hreturn hlf ((getLast?_render_append terminator lines last.toList).mpr hlast)
  · intro h
    refine ⟨_, rfl, fun hlf hreturn => h ⟨hlf, ?_⟩⟩
    exact (getLast?_render_append terminator lines last.toList).mp hreturn

theorem return_of_strip {source : List Char}
    (h : ['\r', '\r', '\n'] <:+: strip source ∨ (strip source).getLast? = some '\r') :
    ['\r', '\r', '\n'] <:+: source ∨ source.getLast? = some '\r' := by
  rcases strip_eq_or source with hsame | ⟨text, terminator, rfl, hstrip, hreturn⟩
  · rw [hsame] at h
    exact h
  · rw [hstrip] at h
    rcases h with hinside | hlast
    · exact .inl (hinside.trans (List.prefix_append text terminator.mark).isInfix)
    · cases terminator with
      | lf => exact absurd hlast (hreturn rfl)
      | crlf =>
          obtain ⟨init, rfl⟩ := List.getLast?_eq_some_iff.mp hlast
          exact .inl ⟨init, [], by simp [mark]⟩

end Text.Terminator

/-! ## Where kept lines come from -/

namespace Scan

theorem step_kept (symbols : Symbols) (scan : Scan) (statement : Statement) {text : String}
    (h : text ∈ (scan.step symbols statement).kept) :
    text ∈ scan.kept ∨ ∃ line, statement = .plain text line := by
  cases statement with
  | plain found line =>
      simp only [step] at h
      split at h
      · rcases List.mem_append.mp h with h | h
        · exact .inl h
        · exact .inr ⟨line, by rw [List.mem_singleton.mp h]⟩
      · exact .inl h
  | directive directive =>
      simp only [step, enter] at h
      repeat' split at h
      all_goals exact .inl h

theorem foldl_kept (symbols : Symbols) (statements : List Statement) (scan : Scan)
    {text : String} (h : text ∈ (statements.foldl (step symbols) scan).kept) :
    text ∈ scan.kept ∨ ∃ line, .plain text line ∈ statements := by
  induction statements generalizing scan with
  | nil => exact .inl h
  | cons statement rest ih =>
      rcases ih (scan.step symbols statement) h with hkept | ⟨line, hmem⟩
      · rcases step_kept symbols scan statement hkept with hkept | ⟨line, rfl⟩
        · exact .inl hkept
        · exact .inr ⟨line, by simp⟩
      · exact .inr ⟨line, by simp [hmem]⟩

end Scan

theorem Statement.exists_line_of_plain {source : List Char} {statements : List Statement}
    (h : ofText source = .ok statements) {text : String} {number : Nat}
    (hmem : .plain text number ∈ statements) :
    ∃ line ∈ Line.ofText source, line.text = text.toList ∧
      Directive.Head.find? line.lexemes = none := by
  obtain ⟨first, hfirst, later, hcovers⟩ := (cover_of_ofText h).exists_first hmem
  obtain rfl := hcovers.single rfl
  exact ⟨first, hfirst, hcovers.text_eq.symm, Option.map_eq_none_iff.mp hcovers.head_eq⟩

theorem Document.exists_plain_of_kept {source : String} {document : Document}
    (h : parse source = .ok document) {symbols : Symbols} {text : String}
    (hkept : text ∈ Selection.kept (document.steps symbols)) :
    ∃ statements, Statement.ofText (Terminator.strip source.toList) = .ok statements ∧
      ∃ number, .plain text number ∈ statements := by
  obtain ⟨statements, hcut, hassembly⟩ := bind_eq_ok_iff.mp h
  have hscan := Scan.ofStatements_eq_of_document hassembly symbols
  have hmem : text ∈ (Scan.ofStatements symbols statements).kept := by
    rw [hscan]
    exact hkept
  rcases Scan.foldl_kept symbols statements _ hmem with hnone | hplain
  · contradiction
  · exact ⟨statements, hcut, hplain⟩

theorem Document.exists_line_of_kept {source : String} {document : Document}
    (h : parse source = .ok document) {symbols : Symbols} {text : String}
    (hkept : text ∈ Selection.kept (document.steps symbols)) :
    ∃ line ∈ Line.ofText (Terminator.strip source.toList), line.text = text.toList := by
  obtain ⟨statements, hcut, number, hplain⟩ := exists_plain_of_kept h hkept
  obtain ⟨line, hline, htext, -⟩ := Statement.exists_line_of_plain hcut hplain
  exact ⟨line, hline, htext⟩

/-! ## The end of an output -/

/-- A text that is put out ends in the terminator of the run exactly if this is CR LF or
the last line that is kept ends in no carriage return.  So it does for every text without a
carriage return in front of a CR LF and at its end. -/
theorem detect?_output_iff (options : Options) (symbols : Symbols) (source : String)
    (output : Output) (h : process options symbols source = .ok output)
    (nonempty : output.text ≠ "") :
    output.terminator = options.terminator source ∧
    (∃ document selection last, Document.parse source = .ok document ∧
      document.select symbols options.policy = .ok selection ∧
      selection.lines.getLast? = some last ∧
      (Terminator.detect? output.text.toList = some output.terminator ↔
        ¬(output.terminator = .lf ∧ last.toList.getLast? = some '\r'))) ∧
    (¬['\r', '\r', '\n'] <:+: source.toList → source.toList.getLast? ≠ some '\r' →
      Terminator.detect? output.text.toList = some output.terminator) := by
  have hsource : source ≠ "" := by
    rintro rfl
    rw [process_empty] at h
    cases h
    exact nonempty rfl
  rw [process_of_ne_empty hsource] at h
  obtain ⟨document, hparse, hselected⟩ := bind_eq_ok_iff.mp h
  obtain ⟨selection, hselect, houtput⟩ := bind_eq_ok_iff.mp hselected
  cases houtput
  obtain ⟨init, last, hlines⟩ : ∃ init last, selection.lines = init ++ [last] := by
    rcases List.eq_nil_or_concat selection.lines with hnone | ⟨init, last, hlines⟩
    · exact absurd (by rw [hnone]; rfl) nonempty
    · exact ⟨init, last, by simpa using hlines⟩
  have hdetect := Terminator.detect?_render_concat (options.terminator source) init last
  rw [← hlines] at hdetect
  refine ⟨rfl, ⟨document, selection, last, hparse, hselect, by simp [hlines], hdetect⟩, ?_⟩
  intro hinside hend
  refine hdetect.mpr fun ⟨_, hreturn⟩ => ?_
  have hkept : last ∈ Selection.kept (document.steps symbols) := by
    rw [Selection.judge_eq_ok hselect] at hlines
    rw [show Selection.kept (document.steps symbols) = init ++ [last] from hlines]
    simp
  obtain ⟨line, hline, htext⟩ := Document.exists_line_of_kept hparse hkept
  rw [← htext] at hreturn
  rcases Terminator.return_of_strip (Line.return_of_mem hline hreturn) with hfound | hfound
  · exact hinside hfound
  · exact hend hfound

theorem detect?_output_iff_mixed :
    process {} (.ofNames []) "a\r\r\rb\r\n/*#if X*/\r\n/*#endif*/\n" = .ok ⟨"a\r\r\rb\n", .lf, []⟩ ∧
      Terminator.detect? "a\r\r\rb\n".toList = some .lf := by
  have h : process {} (.ofNames []) "a\r\r\rb\r\n/*#if X*/\r\n/*#endif*/\n" =
      .ok ⟨"a\r\r\rb\n", .lf, []⟩ := by
    decide +kernel
  exact ⟨h, (detect?_output_iff {} _ _ _ h (by decide)).2.2 (by decide +kernel) (by decide +kernel)⟩

/-- A line that ends in a carriage return of its own, put out with a line feed, makes the
output of a text that follows LF end in CR LF. -/
theorem detect?_output_return :
    Terminator.detect? "a\r\r\n/*#if X*/\n/*#endif*/\n".toList = some .lf ∧
      process {} (.ofNames []) "a\r\r\n/*#if X*/\n/*#endif*/\n" = .ok ⟨"a\r\n", .lf, []⟩ ∧
      Terminator.detect? "a\r\n".toList = some .crlf := by
  refine ⟨?_, ?_, ?_⟩ <;> decide +kernel

end GuardedText
