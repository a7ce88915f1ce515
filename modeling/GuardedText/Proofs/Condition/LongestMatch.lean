import GuardedText.Proofs.Condition.FirstFault

/-!
# Tokens are longest matches

What a token may be is said by rules that know nothing of the text around it.  Wherever a piece
begins, the lexer takes the longest token that fits, and a piece without a token stands only where
none fits.  A blank ends every token but a quoted text, and a quoted text ends with its quote.  So
the tokens of a condition can be set apart by any blanks and stay the same.
-/

namespace GuardedText.Condition

open GuardedText.Text

/-! ## Rules -/

def blanks : List Char :=
  [' ', '\t', '\r', '\n', '\x0c']

def quotes : List Char :=
  ['"', '\'']

namespace Token

def spellings : List Token :=
  [.bang, .conjunction, .disjunction, .openGroup, .closeGroup] ++
    ["===", "!==", "==", "!=", "<=", ">=", "<<", ">>", "<", ">", "=", "+", "-", "*", "/", "%", "&",
      "|", "^", "~", "?", ":", ",", ".", "[", "]", "\x7b", "\x7d"].map .operator

inductive Rule : Token → Prop
  | spelled {token : Token} (h : token ∈ spellings) : Rule token
  | symbol {first : Char} {others : List Char} (start : isNameStart first)
      (inside : ∀ char ∈ others, isNameChar char) :
      Rule (.symbol (String.ofList (first :: others)))
  | number {first : Char} {others : List Char} (digit : first.isDigit)
      (inside : ∀ char ∈ others, isNumberChar char) :
      Rule (.number (String.ofList (first :: others)))
  | quoted {quote : Char} {inner : List Char} (h : quote ∈ quotes) (inside : quote ∉ inner) :
      Rule (.quoted (String.ofList (quote :: (inner ++ [quote]))))

/-- No other token fits where this one begins, unless it is shorter. -/
def IsLongest (token : Token) (after : List Char) : Prop :=
  Rule token ∧ ∀ other, Rule other → other.text.toList <+: token.text.toList ++ after →
    other = token ∨ other.text.length < token.text.length

/-- No token fits at the beginning of the text. -/
def Unmatched (text : List Char) : Prop :=
  ∀ other, Rule other → ¬other.text.toList <+: text

end Token

inductive Piece.Stands (after : List Char) : Piece → Prop
  | token {start : Nat} {token : Token} (longest : token.IsLongest after) :
      Stands after ⟨start, token.text.toList, some token⟩
  | stray {start : Nat} {char : Char} (unmatched : Token.Unmatched (char :: after))
      (h : char ∉ quotes) : Stands after ⟨start, [char], none⟩
  | unclosed {start : Nat} {quote : Char} {inner : List Char}
      (unmatched : Token.Unmatched (quote :: inner)) (h : quote ∈ quotes) (stop : after = []) :
      Stands after ⟨start, quote :: inner, none⟩

/-- The pieces are cut out of the text one behind the other, and nothing but blanks is left. -/
structure Piece.Laid (text : List Char) (pieces : List Piece) : Prop where
  nonempty : ∀ piece ∈ pieces, piece.start < piece.stop
  ordered : pieces.Pairwise fun earlier later => earlier.stop ≤ later.start
  stands : ∀ piece ∈ pieces, ∃ before after, text = before ++ (piece.text ++ after) ∧
    byteLength before = piece.start ∧ piece.Stands after
  gaps : ∀ before char after, text = before ++ char :: after → char ∈ blanks ∨
    ∃ piece ∈ pieces, piece.start ≤ byteLength before ∧
      byteLength (before ++ [char]) ≤ piece.stop

inductive Spaced : List (List Char) → List Char → Prop
  | nil : Spaced [] []
  | single (word : List Char) : Spaced [word] word
  | cons {word next gap text : List Char} {words : List (List Char)} (nonempty : gap ≠ [])
      (blank : ∀ char ∈ gap, char ∈ blanks) (h : Spaced (next :: words) text) :
      Spaced (word :: next :: words) (word ++ (gap ++ text))

/-! ## Characters -/

theorem isSkipped_iff {char : Char} : Token.isSkipped char ↔ char ∈ blanks := by
  simp [Token.isSkipped, blanks, or_assoc]

theorem isQuote_iff {char : Char} : Token.isQuote char ↔ char ∈ quotes := by
  simp [Token.isQuote, quotes]

theorem isNameStart_of_isDigit {char : Char} (h : char.isDigit) : isNameStart char = false := by
  simp only [Char.isDigit, Bool.and_eq_true, decide_eq_true_eq, UInt32.le_iff_toNat_le] at h
  simp [isNameStart, isAlpha_eq_ranges, UInt32.le_iff_toNat_le, Char.ext_iff,
    ← UInt32.toNat_inj] at h ⊢
  omega

theorem isBlank_of_mem_blanks {char : Char} (h : char ∈ blanks) : isBlank char := by
  have hall : blanks.all isBlank := by decide
  exact List.all_eq_true.mp hall char h

namespace Token

/-! ## What the lexer takes -/

theorem scan_of_isNameStart {first : Char} (h : isNameStart first) (rest : List Char) :
    scan first rest = (first :: rest.takeWhile isNameChar,
      some (.symbol (String.ofList (first :: rest.takeWhile isNameChar)))) :=
  if_pos h

theorem scan_of_isDigit {first : Char} (h : first.isDigit) (rest : List Char) :
    scan first rest = (first :: rest.takeWhile isNumberChar,
      some (.number (String.ofList (first :: rest.takeWhile isNumberChar)))) := by
  rw [scan, if_neg (by simp [isNameStart_of_isDigit h]), if_pos h]

theorem exists_scan_of_run {property : Char → Bool} {build : String → Token} {first : Char}
    {others rest : List Char} (htext : ∀ word, (build word).text = word)
    (hscan : scan first rest = (first :: rest.takeWhile property,
      some (build (String.ofList (first :: rest.takeWhile property)))))
    (inside : ∀ char ∈ others, property char) (fits : others <+: rest) :
    ∃ token, scan first rest = (token.text.toList, some token) ∧
      (build (String.ofList (first :: others)) = token ∨
        (build (String.ofList (first :: others))).text.length < token.text.length) := by
  refine ⟨_, by rw [hscan, htext, String.toList_ofList], ?_⟩
  obtain ⟨more, rfl⟩ := fits
  rw [List.takeWhile_append_of_pos inside]
  cases more.takeWhile property with
  | nil => exact .inl (by rw [List.append_nil])
  | cons next more =>
      refine .inr ?_
      simp only [htext, String.length_ofList, List.length_cons, List.length_append]
      omega

theorem scan_of_mem_quotes {quote : Char} {inner : List Char} (h : quote ∈ quotes)
    (inside : quote ∉ inner) (after : List Char) :
    scan quote (inner ++ quote :: after) = (quote :: (inner ++ [quote]),
      some (.quoted (String.ofList (quote :: (inner ++ [quote]))))) := by
  have hall : quotes.all fun char => !isNameStart char && !char.isDigit := by decide
  have hstart := List.all_eq_true.mp hall quote h
  simp only [Bool.and_eq_true, Bool.not_eq_true'] at hstart
  rw [scan, if_neg (by simp [hstart.1]), if_neg (by simp [hstart.2]),
    if_pos (isQuote_iff.mpr h), if_pos (by simp), takeWhile_ne_append inside]
  rfl

theorem mem_fixed_iff {token : Token} : token ∈ fixed ↔ token ∈ spellings := by
  have hthere : ∀ token ∈ fixed, token ∈ spellings := by decide
  have hback : ∀ token ∈ spellings, token ∈ fixed := by decide
  exact ⟨hthere token, hback token⟩

theorem exists_cons_of_mem_fixed {token : Token} (h : token ∈ fixed) :
    ∃ first word, token.text.toList = first :: word ∧ isNameStart first = false ∧
      first.isDigit = false ∧ isQuote first = false := by
  have heads : ∀ token ∈ fixed, token.text.toList.head?.all
      (fun first => !isNameStart first && !first.isDigit && !isQuote first) = true := by decide
  obtain ⟨first, word, htext⟩ := List.exists_cons_of_ne_nil (text_ne_nil_of_mem_fixed h)
  have hhead := heads token h
  rw [htext] at hhead
  simp only [List.head?_cons, Option.all_some, Bool.and_eq_true, Bool.not_eq_true'] at hhead
  exact ⟨first, word, htext, hhead.1.1, hhead.1.2, hhead.2⟩

/-- No spelling is the beginning of one behind it, so the first that fits is the longest. -/
theorem exists_scan_of_mem_fixed {first : Char} {rest : List Char} {other : Token}
    (h : other ∈ fixed) (fits : other.text.toList <+: first :: rest) :
    ∃ token ∈ fixed, scan first rest = (token.text.toList, some token) ∧
      token.text.toList <+: first :: rest ∧
      (other = token ∨ other.text.length < token.text.length) := by
  obtain ⟨char, word, htext, hname, hdigit, hquote⟩ := exists_cons_of_mem_fixed h
  obtain rfl : char = first := by
    rw [htext, List.cons_prefix_cons] at fits
    exact fits.1
  cases hfind : fixed.find? (·.text.toList.isPrefixOf (char :: rest)) with
  | none =>
      have hmisses := List.find?_eq_none.mp hfind other h
      rw [List.isPrefixOf_iff_prefix] at hmisses
      exact absurd fits hmisses
  | some token =>
      obtain ⟨hfits, earlier, later, hfixed, hearlier⟩ := List.find?_eq_some_iff_append.mp hfind
      rw [List.isPrefixOf_iff_prefix] at hfits
      refine ⟨token, List.mem_of_find?_eq_some hfind,
        by simp [scan, hname, hdigit, hquote, hfind], hfits, ?_⟩
      rw [hfixed, List.mem_append, List.mem_cons] at h
      rcases h with hmem | rfl | hmem
      · have hmisses := hearlier other hmem
        rw [Bool.not_eq_true', ← Bool.not_eq_true, List.isPrefixOf_iff_prefix] at hmisses
        exact absurd fits hmisses
      · exact .inl rfl
      · have apart : fixed.Pairwise fun token later =>
            ¬token.text.toList <+: later.text.toList := by decide
        rw [hfixed, List.pairwise_append, List.pairwise_cons] at apart
        have hnot := apart.2.1.1 other hmem
        right
        by_contra hlonger
        apply hnot (List.prefix_of_prefix_length_le hfits fits _)
        rw [String.length_toList, String.length_toList]
        omega

/-! ## Longest matches -/

theorem rule_of_scan {first : Char} {rest text : List Char} {token : Token}
    (h : scan first rest = (text, some token)) : Rule token := by
  unfold scan at h
  split at h
  · rename_i hname
    cases h
    exact .symbol hname fun char hchar => List.mem_takeWhile_imp hchar
  · split at h
    · rename_i hdigit
      cases h
      exact .number hdigit fun char hchar => List.mem_takeWhile_imp hchar
    · split at h
      · rename_i hquote
        split at h
        · rename_i hclosed
          obtain ⟨inner, after, rfl, inside⟩ := List.eq_append_cons_of_mem hclosed
          rw [takeWhile_ne_append inside] at h
          cases h
          exact .quoted (isQuote_iff.mp hquote) inside
        · cases h
      · split at h
        · rename_i found hfind
          cases h
          exact .spelled (mem_fixed_iff.mp (List.mem_of_find?_eq_some hfind))
        · cases h

/-- Where a token fits, the lexer takes it or a longer one. -/
theorem exists_scan_of_rule {first : Char} {rest : List Char} {other : Token} (rule : Rule other)
    (fits : other.text.toList <+: first :: rest) :
    ∃ token, scan first rest = (token.text.toList, some token) ∧
      (other = token ∨ other.text.length < token.text.length) := by
  cases rule with
  | spelled h =>
      obtain ⟨token, -, hscan, -, hlongest⟩ := exists_scan_of_mem_fixed (mem_fixed_iff.mpr h) fits
      exact ⟨token, hscan, hlongest⟩
  | symbol start inside =>
      simp only [text, String.toList_ofList, List.cons_prefix_cons] at fits
      obtain ⟨rfl, hword⟩ := fits
      exact exists_scan_of_run (fun _ => rfl) (scan_of_isNameStart start rest) inside hword
  | number digit inside =>
      simp only [text, String.toList_ofList, List.cons_prefix_cons] at fits
      obtain ⟨rfl, hword⟩ := fits
      exact exists_scan_of_run (fun _ => rfl) (scan_of_isDigit digit rest) inside hword
  | @quoted quote inner h inside =>
      simp only [text, String.toList_ofList, List.cons_prefix_cons] at fits
      obtain ⟨rfl, after, rfl⟩ := fits
      refine ⟨.quoted (String.ofList (quote :: (inner ++ [quote]))), ?_, .inl rfl⟩
      rw [List.append_assoc, List.singleton_append, scan_of_mem_quotes h inside, text,
        String.toList_ofList]

theorem isLongest_of_scan {first : Char} {word after : List Char} {token : Token}
    (h : scan first (word ++ after) = (first :: word, some token)) : IsLongest token after := by
  refine ⟨rule_of_scan h, ?_⟩
  intro other rule fits
  rw [scan_text h, List.cons_append] at fits
  obtain ⟨found, hfound, hlongest⟩ := exists_scan_of_rule rule fits
  obtain ⟨-, rfl⟩ : first :: word = found.text.toList ∧ token = found := by
    simpa using h.symm.trans hfound
  exact hlongest

theorem unmatched_of_scan {first : Char} {rest text : List Char}
    (h : scan first rest = (text, none)) : Unmatched (first :: rest) := by
  intro other rule fits
  obtain ⟨found, hfound, -⟩ := exists_scan_of_rule rule fits
  rw [h] at hfound
  cases hfound

theorem extent_of_scan {first : Char} {word after : List Char}
    (h : scan first (word ++ after) = (first :: word, none)) :
    first ∈ quotes ∧ after = [] ∨ first ∉ quotes ∧ word = [] := by
  unfold scan at h
  repeat' split at h
  all_goals simp_all [← isQuote_iff]

theorem scan_of_mem_fixed {first : Char} {word after : List Char} {token : Token}
    (h : token ∈ fixed) (htext : token.text.toList = first :: word)
    (ends : ∀ char ∈ after.head?, char ∈ blanks) :
    scan first (word ++ after) = (first :: word, some token) := by
  have fits : token.text.toList <+: first :: (word ++ after) := by
    rw [htext, ← List.cons_append]
    exact List.prefix_append _ _
  obtain ⟨found, hfound, hscan, hfits, rfl | hlonger⟩ := exists_scan_of_mem_fixed h fits
  · rw [hscan, htext]
  · obtain ⟨more, hmore⟩ := List.prefix_of_prefix_length_le fits hfits
      (by rw [String.length_toList, String.length_toList]; omega)
    cases more with
    | nil =>
        rw [List.append_nil, String.toList_inj] at hmore
        rw [hmore] at hlonger
        omega
    | cons next more =>
        rw [htext] at hmore
        rw [← hmore, List.cons_append, List.cons_prefix_cons, List.prefix_append_right_inj] at hfits
        obtain ⟨-, rest, rfl⟩ := hfits
        have hnext := isBlank_of_mem_fixed hfound (show next ∈ found.text.toList by simp [← hmore])
        rw [isBlank_of_mem_blanks (ends next rfl)] at hnext
        contradiction

theorem scan_of_rule {first : Char} {word after : List Char} {token : Token} (rule : Rule token)
    (htext : token.text.toList = first :: word) (ends : ∀ char ∈ after.head?, char ∈ blanks) :
    scan first (word ++ after) = (first :: word, some token) := by
  have hends (char : Char) (hchar : char ∈ after.head?) :=
    isNameChar_of_isBlank (isBlank_of_mem_blanks (ends char hchar))
  cases rule with
  | spelled h => exact scan_of_mem_fixed (mem_fixed_iff.mpr h) htext ends
  | symbol start inside =>
      rw [text, String.toList_ofList] at htext
      cases htext
      rw [scan_of_isNameStart start,
        takeWhile_append_eq inside fun char hchar => (hends char hchar).1]
  | number digit inside =>
      rw [text, String.toList_ofList] at htext
      cases htext
      rw [scan_of_isDigit digit,
        takeWhile_append_eq inside fun char hchar => (hends char hchar).2.1]
  | quoted h inside =>
      rw [text, String.toList_ofList] at htext
      cases htext
      rw [List.append_assoc, List.singleton_append, scan_of_mem_quotes h inside]

end Token

/-! ## Pieces -/

theorem Piece.stands_of_scan {first : Char} {word after : List Char} {token? : Option Token}
    (start : Nat) (h : Token.scan first (word ++ after) = (first :: word, token?)) :
    Stands after ⟨start, first :: word, token?⟩ := by
  cases token? with
  | some token =>
      rw [← scan_text h]
      exact .token (Token.isLongest_of_scan h)
  | none =>
      have unmatched := Token.unmatched_of_scan h
      rcases Token.extent_of_scan h with ⟨hquote, rfl⟩ | ⟨hquote, rfl⟩
      · exact .unclosed (by simpa using unmatched) hquote rfl
      · exact .stray unmatched hquote

theorem Piece.exists_stands_of_mem {text : List Char} {piece : Piece}
    (h : piece ∈ ofText 0 text) :
    ∃ before after, text = before ++ (piece.text ++ after) ∧ byteLength before = piece.start ∧
      piece.Stands after := by
  obtain ⟨before, first, word, after, htext, hstart, hpiece, hscan⟩ := exists_scan_of_mem h
  rw [hpiece] at hscan
  have hstands := stands_of_scan piece.start hscan
  rw [← hpiece] at hstands
  exact ⟨before, after, htext, by rw [hstart, Nat.zero_add], hstands⟩

theorem Piece.exists_of_not_blank (start : Nat) {text before after : List Char} {char : Char}
    (h : text = before ++ char :: after) (hchar : char ∉ blanks) :
    ∃ piece ∈ ofText start text, piece.start ≤ start + byteLength before ∧
      start + byteLength (before ++ [char]) ≤ piece.stop := by
  fun_induction ofText start text generalizing before with
  | case1 => simp at h
  | case2 start first rest skipped ih =>
      cases before with
      | nil =>
          cases h
          exact absurd (isSkipped_iff.mp skipped) hchar
      | cons other before =>
          obtain ⟨rfl, hrest⟩ := List.cons.inj h
          obtain ⟨piece, hmem, hstart, hstop⟩ := ih hrest
          refine ⟨piece, hmem, ?_, ?_⟩
          · rw [byteLength_cons]
            omega
          · rw [List.cons_append, byteLength_cons]
            omega
  | case3 start first rest skipped piece token? hscan ih =>
      obtain ⟨word, behind, hword, rfl⟩ := exists_scan first rest
      rw [hscan] at hword
      change piece = first :: word at hword
      subst hword
      rw [List.length_cons, Nat.add_sub_cancel, List.drop_left] at ih ⊢
      rw [← List.cons_append] at h
      have hsplit : (∃ more, before = first :: word ++ more ∧ behind = more ++ char :: after) ∨
          ∃ more, first :: word = before ++ char :: more := by
        rcases List.append_eq_append_iff.mp h with hbehind | ⟨more, hword, hmore⟩
        · exact .inl hbehind
        · cases more with
          | nil => exact .inl ⟨[], by simpa using hword.symm, hmore.symm⟩
          | cons other more =>
              obtain ⟨rfl, -⟩ := List.cons.inj hmore
              exact .inr ⟨more, hword⟩
      rcases hsplit with ⟨more, rfl, hbehind⟩ | ⟨more, hword⟩
      · obtain ⟨piece, hmem, hstart, hstop⟩ := ih hbehind
        refine ⟨piece, List.mem_cons_of_mem _ hmem, ?_, ?_⟩
        · rw [byteLength_append]
          omega
        · rw [List.append_assoc, byteLength_append]
          omega
      · refine ⟨_, List.mem_cons_self, Nat.le_add_right _ _, ?_⟩
        simp only [stop, hword, byteLength_append, byteLength_cons, byteLength_nil]
        omega

theorem laid_ofText (text : List Char) : Piece.Laid text (Piece.ofText 0 text) where
  nonempty _ h := Piece.start_lt_stop h
  ordered := Piece.pairwise_ofText 0 text
  stands _ h := Piece.exists_stands_of_mem h
  gaps before char after h := by
    by_cases hchar : char ∈ blanks
    · exact .inl hchar
    · obtain ⟨piece, hmem, hstart, hstop⟩ := Piece.exists_of_not_blank 0 h hchar
      rw [Nat.zero_add] at hstart hstop
      exact .inr ⟨piece, hmem, hstart, hstop⟩

/-! ## Spaced tokens -/

theorem lexed_blanks {gap : List Char} (rest : List Char) (blank : ∀ char ∈ gap, char ∈ blanks) :
    lexed (gap ++ rest) = lexed rest := by
  induction gap with
  | nil => rfl
  | cons char gap ih =>
      rw [List.forall_mem_cons] at blank
      rw [List.cons_append, lexed_skipped _ (isSkipped_iff.mpr blank.1), ih blank.2]

theorem Token.Rule.nonempty {token : Token} (rule : Rule token) : token.text.toList ≠ [] := by
  cases rule with
  | spelled h => exact text_ne_nil_of_mem_fixed (mem_fixed_iff.mpr h)
  | symbol | number | quoted => simp [text]

theorem lexed_of_rule {token : Token} (rule : token.Rule) (after : List Char)
    (ends : ∀ char ∈ after.head?, char ∈ blanks) :
    lexed (token.text.toList ++ after) = some token :: lexed after := by
  obtain ⟨first, word, htext⟩ := List.exists_cons_of_ne_nil rule.nonempty
  have hscan := Token.scan_of_rule rule htext ends
  have hskipped : Token.isSkipped first = false := by
    by_contra hskipped
    rw [Bool.not_eq_false, isSkipped_iff] at hskipped
    rw [scan_of_isBlank _ (isBlank_of_mem_blanks hskipped)] at hscan
    cases hscan
  rw [htext]
  exact lexed_scan hskipped hscan

theorem Piece.Stands.exists_rule {piece : Piece} {after : List Char} (h : piece.Stands after)
    (htoken : piece.token? ≠ none) :
    ∃ token : Token, token.Rule ∧ piece.text = token.text.toList ∧ piece.token? = some token := by
  cases h with
  | token longest => exact ⟨_, longest.1, rfl, rfl⟩
  | stray | unclosed => contradiction

theorem lexed_of_spaced {pieces : List Piece} {text : List Char}
    (rules : ∀ piece ∈ pieces, ∃ token : Token, token.Rule ∧ piece.text = token.text.toList ∧
      piece.token? = some token)
    (h : Spaced (pieces.map (·.text)) text) : lexed text = pieces.map (·.token?) := by
  induction pieces generalizing text with
  | nil =>
      cases h
      exact lexed_nil
  | cons piece pieces ih =>
      rw [List.forall_mem_cons] at rules
      obtain ⟨⟨token, rule, htext, htoken⟩, others⟩ := rules
      simp only [List.map_cons, htext, htoken] at h ⊢
      cases pieces with
      | nil =>
          cases h
          have hlexed := lexed_of_rule rule [] (by simp)
          rwa [List.append_nil, lexed_nil] at hlexed
      | cons next pieces =>
          cases h with
          | @cons _ _ gap rest _ nonempty blank hrest =>
              have ends : ∀ char ∈ (gap ++ rest).head?, char ∈ blanks := by
                intro char hchar
                rw [List.head?_append_of_ne_nil _ nonempty] at hchar
                exact blank char (List.mem_of_mem_head? hchar)
              rw [lexed_of_rule rule _ ends, lexed_blanks rest blank, ih others hrest]

/-- The pieces of a text are its longest tokens, and what is left of it are blanks.  If every
piece is a token, other blanks between them leave the tokens as they are. -/
theorem pieces_longest (text : List Char) :
    Piece.Laid text (Piece.ofText 0 text) ∧
      ((∀ piece ∈ Piece.ofText 0 text, piece.token? ≠ none) → ∀ spaced,
        Spaced ((Piece.ofText 0 text).map (·.text)) spaced → lexed spaced = lexed text) := by
  refine ⟨laid_ofText text, ?_⟩
  intro tokens spaced hspaced
  apply lexed_of_spaced _ hspaced
  intro piece hpiece
  obtain ⟨-, after, -, -, hstands⟩ := Piece.exists_stands_of_mem hpiece
  exact hstands.exists_rule (tokens piece hpiece)

theorem pieces_longest_spaced :
    (∀ piece ∈ Piece.ofText 0 "a!=='é &&'&&!1.b".toList, piece.token? ≠ none) ∧
      Spaced ((Piece.ofText 0 "a!=='é &&'&&!1.b".toList).map (·.text))
        "a\t!==\r\n'é &&' \x0c&&\n! 1.b".toList ∧
      lexed "a\t!==\r\n'é &&' \x0c&&\n! 1.b".toList = lexed "a!=='é &&'&&!1.b".toList := by
  have tokens : ∀ piece ∈ Piece.ofText 0 "a!=='é &&'&&!1.b".toList, piece.token? ≠ none := by
    decide +kernel
  have hwords : (Piece.ofText 0 "a!=='é &&'&&!1.b".toList).map (·.text) =
      ["a", "!==", "'é &&'", "&&", "!", "1.b"].map String.toList := by
    decide +kernel
  have hspaced : Spaced (["a", "!==", "'é &&'", "&&", "!", "1.b"].map String.toList)
      "a\t!==\r\n'é &&' \x0c&&\n! 1.b".toList := by
    have gap (text : String) (h : text.toList.all (blanks.contains ·) = true) :
        ∀ char ∈ text.toList, char ∈ blanks := by simpa using h
    exact .cons (by decide) (gap "\t" (by decide)) <| .cons (by decide) (gap "\r\n" (by decide)) <|
      .cons (by decide) (gap " \x0c" (by decide)) <| .cons (by decide) (gap "\n" (by decide)) <|
      .cons (by decide) (gap " " (by decide)) <| .single _
  rw [← hwords] at hspaced
  exact ⟨tokens, hspaced, (pieces_longest _).2 tokens _ hspaced⟩

end GuardedText.Condition
