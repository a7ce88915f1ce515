import GuardedText.Condition.Token
import GuardedText.Proofs.Text.Runs

/-!
# Rows of tokens

What matters of a lexed condition, besides the places of faults, is its row of
tokens.  The row of a text is the row of its first token followed by the row of
what is left, wherever the text starts.  Below are the first tokens of the texts
that conditions are written with, and the places of the pieces, which follow each
other in the text.
-/

namespace GuardedText.Condition

open GuardedText.Text

/-- The tokens of the pieces of a text; a piece that is no token has none. -/
def lexed (text : List Char) : List (Option Token) :=
  (Piece.ofText 0 text).map (·.token?)

theorem map_token?_ofText (start : Nat) (text : List Char) :
    (Piece.ofText start text).map (·.token?) = lexed text := by
  suffices h : ∀ first second, (Piece.ofText first text).map (·.token?) =
      (Piece.ofText second text).map (·.token?) from h start 0
  intro first second
  fun_induction Piece.ofText first text generalizing second with
  | case1 => simp [Piece.ofText]
  | case2 start char rest skipped ih => rw [Piece.ofText, if_pos skipped, ih]
  | case3 start char rest skipped text token? hscan ih =>
      rw [Piece.ofText, if_neg skipped]
      simp only [hscan, List.map_cons, List.cons.injEq, true_and]
      exact ih _

theorem lexed_nil : lexed [] = [] := by
  simp [lexed, Piece.ofText]

theorem lexed_skipped {char : Char} (rest : List Char) (h : Token.isSkipped char) :
    lexed (char :: rest) = lexed rest := by
  rw [lexed, Piece.ofText, if_pos h, map_token?_ofText]

theorem lexed_cons {char : Char} (rest : List Char) (h : ¬Token.isSkipped char) :
    lexed (char :: rest) = (Token.scan char rest).2 ::
      lexed (rest.drop ((Token.scan char rest).1.length - 1)) := by
  rw [lexed, Piece.ofText, if_neg h]
  simp [map_token?_ofText]

theorem lexed_scan {char : Char} {word rest : List Char} {token? : Option Token}
    (h : Token.isSkipped char = false)
    (hscan : Token.scan char (word ++ rest) = (char :: word, token?)) :
    lexed (char :: word ++ rest) = token? :: lexed rest := by
  rw [List.cons_append, lexed_cons _ (by simp [h]), hscan]
  simp

/-! ## First tokens -/

theorem lexed_space (rest : List Char) : lexed (' ' :: rest) = lexed rest :=
  lexed_skipped rest rfl

theorem lexed_openGroup (rest : List Char) :
    lexed ('(' :: rest) = some .openGroup :: lexed rest := by
  have hscan : Token.scan '(' ([] ++ rest) = (['('], some .openGroup) := rfl
  exact lexed_scan rfl hscan

theorem lexed_closeGroup (rest : List Char) :
    lexed (')' :: rest) = some .closeGroup :: lexed rest := by
  have hscan : Token.scan ')' ([] ++ rest) = ([')'], some .closeGroup) := rfl
  exact lexed_scan rfl hscan

theorem lexed_conjunction (rest : List Char) :
    lexed ('&' :: '&' :: rest) = some .conjunction :: lexed rest := by
  have hscan : Token.scan '&' (['&'] ++ rest) = (['&', '&'], some .conjunction) := rfl
  exact lexed_scan rfl hscan

theorem lexed_disjunction (rest : List Char) :
    lexed ('|' :: '|' :: rest) = some .disjunction :: lexed rest := by
  have hscan : Token.scan '|' (['|'] ++ rest) = (['|', '|'], some .disjunction) := rfl
  exact lexed_scan rfl hscan

theorem lexed_bang (rest : List Char) (h : rest.head? ≠ some '=') :
    lexed ('!' :: rest) = some .bang :: lexed rest := by
  have hscan : Token.scan '!' ([] ++ rest) = (['!'], some .bang) := by
    cases rest with
    | nil => rfl
    | cons char rest =>
        have hchar : '=' ≠ char := by
          rintro rfl
          exact h rfl
        simp [Token.scan, isNameStart, Token.isQuote, Token.fixed, Token.text, hchar]
  exact lexed_scan rfl hscan

theorem lexed_prefixOperator {operator : String} (rest : List Char)
    (known : operator ∈ ["-", "+", "~"]) :
    lexed (operator.toList ++ rest) = some (.operator operator) :: lexed rest := by
  have hscan : ∀ char ∈ ['-', '+', '~'], Token.scan char ([] ++ rest) =
      ([char], some (.operator (String.ofList [char]))) := by
    simp only [List.forall_mem_cons]
    exact ⟨rfl, rfl, rfl, by simp⟩
  simp only [List.mem_cons, List.not_mem_nil, or_false] at known
  rcases known with rfl | rfl | rfl
  · exact lexed_scan rfl (hscan '-' (by simp))
  · exact lexed_scan rfl (hscan '+' (by simp))
  · exact lexed_scan rfl (hscan '~' (by simp))

theorem isSkipped_of_isNameStart {char : Char} (h : isNameStart char) :
    Token.isSkipped char = false := by
  by_contra hskipped
  simp only [Token.isSkipped, Bool.not_eq_false, Bool.or_eq_true, beq_iff_eq] at hskipped
  rcases hskipped with (((rfl | rfl) | rfl) | rfl) | rfl <;> contradiction

theorem lexed_name {name : String} (rest : List Char) (valid : isName name)
    (ends : ∀ char ∈ rest.head?, isNameChar char = false) :
    lexed (name.toList ++ rest) = some (.symbol name) :: lexed rest := by
  unfold isName at valid
  split at valid
  · contradiction
  · rename_i first others hname
    rw [Bool.and_eq_true, List.all_eq_true] at valid
    have hword := takeWhile_append_eq valid.2 ends
    have hscan : Token.scan first (others ++ rest) =
        (first :: others, some (.symbol name)) := by
      rw [Token.scan, if_pos valid.1, hword, ← hname]
      simp
    rw [hname]
    exact lexed_scan (isSkipped_of_isNameStart valid.1) hscan

/-! ## Names -/

theorem isName_of_scan {char : Char} {rest : List Char} {name : String}
    (h : (Token.scan char rest).2 = some (.symbol name)) : isName name := by
  unfold Token.scan at h
  split at h
  · rename_i hstart
    simp only [Option.some.injEq, Token.symbol.injEq] at h
    subst h
    simp [isName, hstart]
  · split at h
    · simp at h
    · split at h
      · split at h <;> simp at h
      · split at h
        · rename_i token hfind
          have hfixed : ∀ token ∈ Token.fixed, ∀ name, token ≠ .symbol name := by
            simp [Token.fixed]
          have hmem := List.mem_of_find?_eq_some hfind
          simp only [Option.some.injEq] at h
          exact absurd h (hfixed token hmem name)
        · simp at h

theorem isName_of_mem_lexed {text : List Char} {name : String}
    (h : some (.symbol name) ∈ lexed text) : isName name := by
  fun_induction Piece.ofText 0 text with
  | case1 => simp [lexed_nil] at h
  | case2 start char rest skipped ih =>
      rw [lexed_skipped rest skipped] at h
      exact ih h
  | case3 start char rest skipped text token? hscan ih =>
      rw [lexed_cons rest skipped, hscan, List.mem_cons] at h
      rcases h with h | h
      · exact isName_of_scan (by rw [hscan, h])
      · exact ih h

theorem isName_of_mem_row {text : List Char} {row : List Token} {name : String}
    (hrow : lexed text = row.map some) (h : .symbol name ∈ row) : isName name := by
  have hlexed : some (.symbol name) ∈ lexed text := by
    rw [hrow]
    exact List.mem_map_of_mem h
  exact isName_of_mem_lexed hlexed

/-! ## Tokens with one spelling -/

theorem text_ne_nil_of_mem_fixed {token : Token} (h : token ∈ Token.fixed) :
    token.text.toList ≠ [] := by
  have hall : ∀ token ∈ Token.fixed, token.text.toList ≠ [] := by decide
  exact hall token h

theorem isBlank_of_mem_fixed {token : Token} (h : token ∈ Token.fixed) {char : Char}
    (hchar : char ∈ token.text.toList) : isBlank char = false := by
  have hall : ∀ token ∈ Token.fixed, token.text.toList.all (!isBlank ·) := by decide
  have htext := List.all_eq_true.mp (hall token h) char hchar
  rwa [Bool.not_eq_true'] at htext

theorem find?_fixed_eq_none {char : Char} (rest : List Char)
    (h : ∀ token ∈ Token.fixed, token.text.toList.head? ≠ some char) :
    Token.fixed.find? (·.text.toList.isPrefixOf (char :: rest)) = none := by
  rw [List.find?_eq_none]
  intro token htoken hstarts
  cases htext : token.text.toList with
  | nil => exact text_ne_nil_of_mem_fixed htoken htext
  | cons first others =>
      apply h token htoken
      rw [htext] at hstarts ⊢
      simp only [List.isPrefixOf_cons_cons, Bool.and_eq_true, beq_iff_eq] at hstarts
      rw [hstarts.1]
      rfl

/-! ## Blanks -/

theorem isNameChar_of_isNameStart {char : Char} (h : isNameStart char) :
    isNameChar char := by
  simp only [isNameStart, isNameChar, Char.isAlphanum, Bool.or_eq_true] at h ⊢
  rcases h with (h | h) | h <;> simp [h]

theorem isAlpha_eq_ranges (char : Char) :
    char.isAlpha = (decide (char.val ≥ 65 ∧ char.val ≤ 90) ||
      decide (char.val ≥ 97) && decide (char.val ≤ 122)) :=
  rfl

theorem isNameChar_of_isBlank {char : Char} (h : isBlank char) :
    isNameChar char = false ∧ Token.isNumberChar char = false ∧
      Token.isQuote char = false := by
  have hcode : char.toNat = char.val.toNat := rfl
  simp only [isBlank, hcode, Bool.or_eq_true, Bool.and_eq_true, decide_eq_true_eq,
    beq_iff_eq] at h
  have hword : char.isAlphanum = false := by
    simp [Char.isAlphanum, isAlpha_eq_ranges, Char.isDigit, UInt32.le_iff_toNat_le]
    omega
  simp [isNameChar, Token.isNumberChar, Token.isQuote, hword, Char.ext_iff,
    ← UInt32.toNat_inj]
  omega

theorem scan_of_isBlank {char : Char} (rest : List Char) (blank : isBlank char) :
    Token.scan char rest = ([char], none) := by
  have hfixed : Token.fixed.find? (·.text.toList.isPrefixOf (char :: rest)) = none := by
    apply find?_fixed_eq_none
    intro token htoken hhead
    rw [isBlank_of_mem_fixed htoken (List.mem_of_mem_head? hhead)] at blank
    contradiction
  obtain ⟨hname, -, hquote⟩ := isNameChar_of_isBlank blank
  have hstart : isNameStart char = false := by
    rw [Bool.eq_false_iff]
    intro hstart
    rw [isNameChar_of_isNameStart hstart] at hname
    contradiction
  have hdigit : char.isDigit = false := by
    simp only [isNameChar, Char.isAlphanum, Bool.or_eq_false_iff] at hname
    exact hname.1.1.2
  simp [Token.scan, hstart, hdigit, hquote, hfixed]

theorem eq_nil_of_lexed_blank {text : List Char} {tokens : List Token}
    (blank : text.all isBlank) (h : lexed text = tokens.map some) : tokens = [] := by
  induction text with
  | nil => simpa [lexed_nil] using h.symm
  | cons char rest ih =>
      rw [List.all_cons, Bool.and_eq_true] at blank
      by_cases hskipped : Token.isSkipped char
      · rw [lexed_skipped rest hskipped] at h
        exact ih blank.2 h
      · rw [lexed_cons rest hskipped, scan_of_isBlank rest blank.1] at h
        cases tokens with
        | nil => rfl
        | cons token tokens => simp at h

/-! ## Places of pieces -/

theorem scan_text {first : Char} {rest text : List Char} {token : Token}
    (h : Token.scan first rest = (text, some token)) : token.text.toList = text := by
  unfold Token.scan at h
  repeat' split at h
  all_goals
    simp only [Prod.mk.injEq, Option.some.injEq, reduceCtorEq, and_false] at h
    try
      obtain ⟨rfl, rfl⟩ := h
      simp [Token.text]

theorem exists_scan (first : Char) (rest : List Char) :
    ∃ word after, (Token.scan first rest).1 = first :: word ∧ rest = word ++ after := by
  unfold Token.scan
  split
  · exact ⟨_, _, rfl, List.takeWhile_append_dropWhile.symm⟩
  · split
    · exact ⟨_, _, rfl, List.takeWhile_append_dropWhile.symm⟩
    · split
      · split
        · rename_i hclosed
          obtain ⟨inner, after, rfl, hinner⟩ := List.eq_append_cons_of_mem hclosed
          rw [takeWhile_ne_append hinner]
          exact ⟨inner ++ [first], after, rfl, by simp⟩
        · exact ⟨rest, [], rfl, by simp⟩
      · split
        · rename_i token hfind
          have hstarts := List.find?_some hfind
          rw [List.isPrefixOf_iff_prefix, List.prefix_cons_iff] at hstarts
          rcases hstarts with hempty | ⟨word, hword, after, hafter⟩
          · exact absurd hempty (text_ne_nil_of_mem_fixed (List.mem_of_find?_eq_some hfind))
          · exact ⟨word, after, hword, hafter.symm⟩
        · exact ⟨[], rest, rfl, rfl⟩

theorem Piece.exists_scan_of_mem {start : Nat} {text : List Char} {piece : Piece}
    (h : piece ∈ ofText start text) :
    ∃ before first word after, text = before ++ (piece.text ++ after) ∧
      piece.start = start + byteLength before ∧ piece.text = first :: word ∧
      Token.scan first (word ++ after) = (piece.text, piece.token?) := by
  fun_induction ofText start text with
  | case1 => contradiction
  | case2 start char rest skipped ih =>
      obtain ⟨before, first, word, after, rfl, hstart, hscan⟩ := ih h
      refine ⟨char :: before, first, word, after, rfl, ?_, hscan⟩
      rw [hstart, byteLength_cons]
      omega
  | case3 start char rest skipped text token? hscan ih =>
      obtain ⟨word, after, hword, rfl⟩ := exists_scan char rest
      rw [hscan] at hword
      change text = char :: word at hword
      subst hword
      rcases List.mem_cons.mp h with rfl | h
      · exact ⟨[], char, word, after, rfl, rfl, rfl, hscan⟩
      · obtain ⟨before, first, later, behind, hafter, hstart, hpiece⟩ := ih h
        rw [List.length_cons, Nat.add_sub_cancel, List.drop_left] at hafter
        refine ⟨char :: word ++ before, first, later, behind, by simp [hafter], ?_, hpiece⟩
        rw [hstart, byteLength_append]
        omega

theorem Piece.exists_of_mem {start : Nat} {text : List Char} {piece : Piece}
    (h : piece ∈ ofText start text) :
    ∃ before after, text = before ++ (piece.text ++ after) ∧
      piece.start = start + byteLength before ∧ piece.text ≠ [] := by
  obtain ⟨before, first, word, after, htext, hstart, hpiece, -⟩ := exists_scan_of_mem h
  exact ⟨before, after, htext, hstart, by simp [hpiece]⟩

theorem Piece.start_lt {text : List Char} {piece : Piece} (h : piece ∈ ofText 0 text) :
    piece.start < byteLength text := by
  obtain ⟨before, after, rfl, hstart, hnonempty⟩ := exists_of_mem h
  have hpositive := byteLength_pos hnonempty
  rw [byteLength_append, byteLength_append]
  omega

theorem Piece.start_lt_stop {start : Nat} {text : List Char} {piece : Piece}
    (h : piece ∈ ofText start text) : piece.start < piece.stop := by
  obtain ⟨-, -, -, -, hnonempty⟩ := exists_of_mem h
  exact Nat.lt_add_of_pos_right (byteLength_pos hnonempty)

theorem Piece.pairwise_ofText (start : Nat) (text : List Char) :
    (ofText start text).Pairwise fun earlier later => earlier.stop ≤ later.start := by
  fun_induction ofText start text with
  | case1 => exact .nil
  | case2 start char rest skipped ih => exact ih
  | case3 start char rest skipped text token? hscan ih =>
      refine .cons ?_ ih
      intro later hlater
      obtain ⟨before, -, -, hstart, -⟩ := exists_of_mem hlater
      rw [stop, hstart]
      exact Nat.le_add_right _ _

end GuardedText.Condition
