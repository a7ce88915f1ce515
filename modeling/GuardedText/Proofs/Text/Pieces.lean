import GuardedText.Proofs.Statement.Partition

/-!
# Lines are what stands between line feeds

Lines are found through lexemes, where a carriage return is a part of the newline behind it
or a lexeme of its own.  The simple reading gives the same lines: cut the text at every line
feed and take one carriage return off the end of each piece but the last.  The lexemes of a
line are those of the text at the same bytes, and with the newlines put back the lines are
the text.
-/

namespace GuardedText

namespace Text

def dropReturn (piece : List Char) : List Char :=
  if piece.getLast? = some '\r' then piece.dropLast else piece

/-- The text cut at every line feed, with the carriage returns taken off that stand in
front of one. -/
def pieces (source : List Char) : List (List Char) :=
  let cut := source.splitOn '\n'
  cut.dropLast.map dropReturn ++ cut.getLast?.toList

/-! ## Pieces -/

theorem splitOn_of_not_mem {line : List Char} (h : '\n' ∉ line) :
    line.splitOn '\n' = [line] := by
  rw [List.splitOn_eq_splitOnP]
  apply List.splitOnP_eq_singleton
  intro char hchar
  rw [beq_eq_false_iff_ne]
  rintro rfl
  exact h hchar

theorem splitOn_append_of_not_mem {line : List Char} (h : '\n' ∉ line) (rest : List Char) :
    (line ++ '\n' :: rest).splitOn '\n' = line :: rest.splitOn '\n' := by
  have hline := splitOn_of_not_mem h
  rw [List.splitOn_eq_splitOnP] at hline ⊢
  rw [List.splitOnP_append_cons line rest (by rfl), hline]
  rfl

theorem pieces_of_not_mem {line : List Char} (h : '\n' ∉ line) : pieces line = [line] := by
  simp [pieces, splitOn_of_not_mem h]

theorem pieces_append_of_not_mem {line : List Char} (h : '\n' ∉ line) (rest : List Char) :
    pieces (line ++ '\n' :: rest) = dropReturn line :: pieces rest := by
  have hrest := List.splitOn_ne_nil '\n' rest
  simp only [pieces, splitOn_append_of_not_mem h]
  rw [List.dropLast_cons_of_ne_nil hrest, List.getLast?_cons_of_ne_nil hrest]
  rfl

theorem pieces_append_mark {line : List Char} {terminator : Terminator} (h : '\n' ∉ line)
    (hreturn : terminator = .lf → line.getLast? ≠ some '\r') (rest : List Char) :
    pieces (line ++ (terminator.mark ++ rest)) = line :: pieces rest := by
  cases terminator with
  | lf =>
      change pieces (line ++ '\n' :: rest) = _
      rw [pieces_append_of_not_mem h, dropReturn, if_neg (hreturn rfl)]
  | crlf =>
      have hsplit : line ++ (Terminator.crlf.mark ++ rest) = (line ++ ['\r']) ++ '\n' :: rest := by
        simp [Terminator.mark]
      rw [hsplit, pieces_append_of_not_mem (by simp [h])]
      simp [dropReturn]

theorem Line.map_text_ofText (source : List Char) :
    (ofText source).map Line.text = pieces source := by
  induction source using line_induction with
  | one line hline =>
      rw [ofText_of_not_mem hline, pieces_of_not_mem hline]
      simp [Line.text, Lexeme.textOf_ofText]
  | more line terminator rest hline hreturn ih =>
      rw [ofText_append_of_not_mem hline hreturn, pieces_append_mark hline hreturn, ← ih]
      simp [Line.text, Lexeme.textOf_ofText, later, Function.comp_def]

/-! ## Spans -/

namespace Lexeme

/-- The spans follow each other without a gap from one byte to another. -/
def Tiles (start stop : Nat) : List (Lexeme × Nat × Nat) → Prop
  | [] => start = stop
  | (_, first, last) :: rest => first = start ∧ Tiles last stop rest

theorem tiles_spans (start : Nat) (lexemes : List Lexeme) :
    Tiles start (start + byteLength (textOf lexemes)) (spans start lexemes) := by
  induction lexemes generalizing start with
  | nil => rfl
  | cons lexeme rest ih =>
      have hrest := ih (start + byteLength lexeme.text)
      refine ⟨rfl, ?_⟩
      simpa [textOf, Nat.add_assoc] using hrest

theorem exists_of_mem_spans {start first last : Nat} {lexeme : Lexeme} {lexemes : List Lexeme}
    (h : (lexeme, first, last) ∈ spans start lexemes) :
    ∃ before after, lexemes = before ++ lexeme :: after ∧
      first = start + byteLength (textOf before) ∧ last = first + byteLength lexeme.text := by
  induction lexemes generalizing start with
  | nil => contradiction
  | cons other rest ih =>
      rcases List.mem_cons.mp h with h | h
      · cases h
        exact ⟨[], rest, rfl, rfl, rfl⟩
      · obtain ⟨before, after, rfl, hfirst, hlast⟩ := ih h
        refine ⟨other :: before, after, rfl, ?_, hlast⟩
        simp [hfirst, textOf, Nat.add_assoc]

theorem isSlice_of_mem_spans {source : List Char} {first last : Nat} {lexeme : Lexeme}
    (h : (lexeme, first, last) ∈ spans 0 (ofText source)) :
    IsSlice source first last lexeme.text := by
  obtain ⟨before, after, hsplit, hfirst, hlast⟩ := exists_of_mem_spans h
  refine ⟨textOf before, textOf after, ?_, by omega, hlast.symm⟩
  rw [← textOf_ofText source, hsplit]
  simp [textOf]

end Lexeme

namespace Line

def spans (line : Line) : List (Lexeme × Nat × Nat) :=
  Lexeme.spans line.start line.lexemes

theorem flatMap_spans_place (number start : Nat) (lexemes : List Lexeme) :
    (place number start (Rows.ofLexemes lexemes).toList).flatMap spans =
      (Lexeme.spans start lexemes).filter (·.1.kind != .newline) := by
  induction lexemes generalizing number start with
  | nil => rfl
  | cons lexeme rest ih =>
      change (place number start
        (Rows.attach lexeme (Rows.ofLexemes rest)).toList).flatMap spans = _
      by_cases hkind : lexeme.kind = .newline
      · have hrest := ih (number + 1) (start + byteLength lexeme.text)
        rw [Rows.toList_attach_newline hkind]
        simpa [place, spans, Lexeme.spans, Lexeme.textOf, hkind] using hrest
      · have hrest := ih number (start + byteLength lexeme.text)
        rw [Rows.toList_attach_of_ne hkind rfl]
        simp only [Rows.toList, place, List.flatMap_cons, spans, Lexeme.spans] at hrest ⊢
        rw [List.filter_cons_of_pos (by simpa using hkind), ← hrest]
        simp [Lexeme.textOf, Nat.add_assoc]

theorem flatMap_spans_ofText (source : List Char) :
    (ofText source).flatMap spans =
      (Lexeme.spans 0 (Lexeme.ofText source)).filter (·.1.kind != .newline) :=
  flatMap_spans_place 1 0 (Lexeme.ofText source)

theorem map_terminator_ofText (source : List Char) :
    ∃ removed : List Terminator,
      (ofText source).map (·.terminator) = removed.map Terminator.mark ++ [[]] := by
  induction source using line_induction with
  | one line hline => exact ⟨[], by rw [ofText_of_not_mem hline]; rfl⟩
  | more line terminator rest hline hreturn ih =>
      obtain ⟨removed, hremoved⟩ := ih
      refine ⟨terminator :: removed, ?_⟩
      rw [ofText_append_of_not_mem hline hreturn, List.map_cons, List.map_map, List.map_cons,
        List.cons_append, ← hremoved]
      rfl

/-- The lines of a text are its pieces between line feeds, numbered from 1.  Their lexemes
are those of the text that are no newlines, at the same bytes, and tile the bytes of their
line, which hold its text.  The newlines between the lines, put back, give the text again. -/
theorem ofText_eq_pieces (source : List Char) :
    (ofText source).map Line.text = pieces source ∧
      (ofText source).map (·.number) = List.range' 1 (pieces source).length ∧
      (∀ line ∈ ofText source, IsSlice source line.start line.stop line.text ∧
        Lexeme.Tiles line.start line.stop line.spans ∧
        ∀ lexeme first last, (lexeme, first, last) ∈ line.spans →
          lexeme.kind ≠ .newline ∧ IsSlice source first last lexeme.text) ∧
      (ofText source).flatMap spans =
        (Lexeme.spans 0 (Lexeme.ofText source)).filter (·.1.kind != .newline) ∧
      (ofText source).flatMap (fun line => line.text ++ line.terminator) = source ∧
      ∃ removed : List Terminator,
        (ofText source).map (·.terminator) = removed.map Terminator.mark ++ [[]] := by
  have hlength : (ofText source).length = (pieces source).length := by
    rw [← map_text_ofText, List.length_map]
  refine ⟨map_text_ofText source, ?_, ?_, flatMap_spans_ofText source,
    flatMap_full_ofText source, map_terminator_ofText source⟩
  · rw [← hlength, ofText, map_number_place]
    congr 1
    rw [← List.length_map Line.toRow, map_toRow_place]
  · intro line hline
    refine ⟨isSlice_of_mem hline, Lexeme.tiles_spans line.start line.lexemes, ?_⟩
    intro lexeme first last hspan
    have hmem : (lexeme, first, last) ∈
        (Lexeme.spans 0 (Lexeme.ofText source)).filter (·.1.kind != .newline) := by
      rw [← flatMap_spans_ofText]
      exact List.mem_flatMap.mpr ⟨line, hline, hspan⟩
    obtain ⟨hlexeme, hkind⟩ := List.mem_filter.mp hmem
    exact ⟨by simpa using hkind, Lexeme.isSlice_of_mem_spans hlexeme⟩

end Line

end Text

end GuardedText
