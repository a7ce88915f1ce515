import Mathlib.Data.List.Find
import GuardedText.Proofs.Condition.Grammar

/-!
# The characters of conditions

A condition is written with names, eight other characters and blanks between them.
Blanks around it can be taken away: those in front stand before its first token, and
those behind it do not belong to its last one.
-/

namespace GuardedText.Condition

open GuardedText.Text

/-! ## Token by token -/

/-- The text is a row of tokens with nothing but blanks between them. -/
inductive Lexes : List Char → List Token → Prop
  | nil : Lexes [] []
  | skip {char : Char} {rest : List Char} {row : List Token}
      (hskipped : Token.isSkipped char) (hrest : Lexes rest row) : Lexes (char :: rest) row
  | token {first : Char} {word after : List Char} {token : Token} {row : List Token}
      (hskipped : ¬Token.isSkipped first)
      (hscan : Token.scan first (word ++ after) = (first :: word, some token))
      (hafter : Lexes after row) : Lexes (first :: (word ++ after)) (token :: row)

theorem lexes_of_lexed {text : List Char} {row : List Token}
    (h : lexed text = row.map some) : Lexes text row := by
  induction hlength : text.length using Nat.strong_induction_on generalizing text row with
  | _ length ih =>
      cases text with
      | nil =>
          rw [lexed_nil] at h
          rw [List.map_eq_nil_iff.mp h.symm]
          exact .nil
      | cons first rest =>
          rw [List.length_cons] at hlength
          by_cases hskipped : Token.isSkipped first
          · rw [lexed_skipped rest hskipped] at h
            exact .skip hskipped (ih rest.length (by omega) h rfl)
          · obtain ⟨word, after, hword, rfl⟩ := exists_scan first rest
            rw [lexed_cons _ hskipped, hword] at h
            cases row with
            | nil => contradiction
            | cons token row =>
                obtain ⟨htoken, hrow⟩ := List.cons.inj h
                refine .token hskipped (Prod.ext hword htoken) ?_
                apply ih after.length _ (by simpa using hrow) rfl
                rw [List.length_append] at hlength
                omega

theorem Lexes.lexed_eq {text : List Char} {row : List Token} (h : Lexes text row) :
    lexed text = row.map some := by
  induction h with
  | nil => exact lexed_nil
  | skip hskipped _ ih => rw [lexed_skipped _ hskipped, ih]
  | token hskipped hscan _ ih =>
      rw [lexed_cons _ hskipped, hscan]
      simp [ih]

theorem Lexes.mem {text : List Char} {row : List Token} (h : Lexes text row) {char : Char}
    (hchar : char ∈ text) :
    Token.isSkipped char ∨ ∃ token ∈ row, char ∈ token.text.toList := by
  induction h with
  | nil => contradiction
  | skip hskipped _ ih =>
      rcases List.mem_cons.mp hchar with rfl | hchar
      · exact .inl hskipped
      · exact ih hchar
  | @token first word after token row _ hscan _ ih =>
      rw [← List.cons_append, List.mem_append, ← scan_text hscan] at hchar
      rcases hchar with hchar | hchar
      · exact .inr ⟨token, by simp, hchar⟩
      · rcases ih hchar with hskipped | ⟨other, hother, hmem⟩
        · exact .inl hskipped
        · exact .inr ⟨other, by simp [hother], hmem⟩

/-! ## Blanks behind a text -/

theorem isPrefixOf_append_blank {pattern : List Char} (text : List Char)
    {blanks : List Char} (hpattern : ∀ char ∈ pattern, isBlank char = false)
    (hblanks : ∀ char ∈ blanks, isBlank char = true) :
    pattern.isPrefixOf (text ++ blanks) = pattern.isPrefixOf text := by
  induction pattern generalizing text with
  | nil => simp
  | cons char pattern ih =>
      rw [List.forall_mem_cons] at hpattern
      cases text with
      | cons other text => simp only [List.cons_append, List.isPrefixOf, ih text hpattern.2]
      | nil =>
          cases blanks with
          | nil => rfl
          | cons blank blanks =>
              have hdiffer : (char == blank) = false := by
                rw [beq_eq_false_iff_ne]
                rintro rfl
                simp_all
              simp [List.isPrefixOf, hdiffer]

theorem scan_append_blank {first : Char} {rest blanks text : List Char} {token : Token}
    (hblanks : ∀ char ∈ blanks, isBlank char)
    (h : Token.scan first (rest ++ blanks) = (text, some token)) :
    Token.scan first rest = (text, some token) := by
  have hfixed : Token.fixed.find? (·.text.toList.isPrefixOf (first :: (rest ++ blanks))) =
      Token.fixed.find? (·.text.toList.isPrefixOf (first :: rest)) := by
    apply List.find?_congr
    intro token htoken
    exact isPrefixOf_append_blank (first :: rest) (fun _ => isBlank_of_mem_fixed htoken) hblanks
  unfold Token.scan at h ⊢
  split
  · rename_i hname
    have hword := takeWhile_append_of_none rest fun char hchar =>
      (isNameChar_of_isBlank (hblanks char hchar)).1
    rwa [if_pos hname, hword] at h
  · rename_i hname
    rw [if_neg hname] at h
    split
    · rename_i hdigit
      have hword := takeWhile_append_of_none rest fun char hchar =>
        (isNameChar_of_isBlank (hblanks char hchar)).2.1
      rwa [if_pos hdigit, hword] at h
    · rename_i hdigit
      rw [if_neg hdigit] at h
      split
      · rename_i hquote
        rw [if_pos hquote] at h
        split at h
        · rename_i hclosed
          have hinside : first ∈ rest := by
            rcases List.mem_append.mp hclosed with hinside | hblank
            · exact hinside
            · have := (isNameChar_of_isBlank (hblanks first hblank)).2.2
              simp_all
          obtain ⟨inner, after, rfl, hinner⟩ := List.eq_append_cons_of_mem hinside
          simp only [List.append_assoc, List.cons_append, takeWhile_ne_append hinner] at h
          rw [if_pos hinside, takeWhile_ne_append hinner]
          exact h
        · simp at h
      · rename_i hquote
        rwa [if_neg hquote, hfixed] at h

theorem Lexes.of_append_blank {text blanks : List Char} {row : List Token}
    (hblanks : ∀ char ∈ blanks, isBlank char) (h : Lexes (text ++ blanks) row) :
    Lexes text row := by
  have hempty : ∀ {row}, Lexes blanks row → row = [] := fun h =>
    eq_nil_of_lexed_blank (List.all_eq_true.mpr hblanks) h.lexed_eq
  generalize hwhole : text ++ blanks = whole at h
  induction h generalizing text with
  | nil =>
      rw [(List.append_eq_nil_iff.mp hwhole).1]
      exact .nil
  | @skip char rest row hskipped hrest ih =>
      cases text with
      | nil =>
          subst hwhole
          rw [hempty (.skip hskipped hrest)]
          exact .nil
      | cons first text =>
          obtain ⟨rfl, rfl⟩ := List.cons.inj hwhole
          exact .skip hskipped (ih rfl)
  | @token first word after token row hskipped hscan hafter ih =>
      cases text with
      | nil =>
          subst hwhole
          cases hempty (.token hskipped hscan hafter)
      | cons other text =>
          rw [List.cons_append] at hwhole
          obtain ⟨rfl, hrest⟩ := List.cons.inj hwhole
          rw [← hrest] at hscan
          have hsame := scan_append_blank hblanks hscan
          obtain ⟨word', after', hword', rfl⟩ := exists_scan other text
          rw [hsame] at hword'
          cases hword'
          rw [List.append_assoc] at hrest
          exact .token hskipped hsame (ih (List.append_cancel_left hrest))

theorem Lexes.of_blank_append {text blanks : List Char} {row : List Token}
    (hblanks : ∀ char ∈ blanks, isBlank char) (h : Lexes (blanks ++ text) row) :
    Lexes text row := by
  induction blanks with
  | nil => exact h
  | cons char blanks ih =>
      rw [List.forall_mem_cons] at hblanks
      apply ih hblanks.2
      rw [List.cons_append] at h
      generalize blanks ++ text = rest at h ⊢
      cases h with
      | skip _ hrest => exact hrest
      | token _ hscan _ =>
          rw [scan_of_isBlank _ hblanks.1] at hscan
          cases hscan

/-! ## Conditions -/

theorem parse_trim {text : String} {condition : Condition}
    (h : parse text = .ok condition) :
    parse (String.ofList (trim text.toList)) = .ok condition := by
  obtain ⟨row, hrow, hderives⟩ := parse_eq_ok_iff_derives.mp h
  obtain ⟨before, after, htext, hbefore, hafter⟩ := exists_trim text.toList
  have hlexes := lexes_of_lexed hrow
  rw [htext] at hlexes
  have htrimmed := (hlexes.of_blank_append hbefore).of_append_blank hafter
  refine parse_eq_ok_iff_derives.mpr ⟨row, ?_, hderives⟩
  rw [String.toList_ofList]
  exact htrimmed.lexed_eq

def signs : List Token :=
  [.bang, .conjunction, .disjunction, .openGroup, .closeGroup, .operator "-",
    .operator "+", .operator "~"]

theorem Derives.mem {phrase : Phrase} {row : List Token} {condition : Condition}
    (h : Derives phrase row condition) {token : Token} (htoken : token ∈ row) :
    (∃ name, token = .symbol name) ∨ token ∈ signs := by
  induction h with
  | symbol name => exact .inl ⟨name, List.mem_singleton.mp htoken⟩
  | not _ ih =>
      rcases List.mem_cons.mp htoken with rfl | htoken
      · exact .inr (by decide)
      · exact ih htoken
  | unsupported known _ ih =>
      rcases List.mem_cons.mp htoken with rfl | htoken
      · simp only [List.mem_cons, List.not_mem_nil, or_false] at known
        rcases known with rfl | rfl | rfl <;> exact .inr (by decide)
      · exact ih htoken
  | group _ ih =>
      simp only [List.cons_append, List.mem_cons, List.mem_append, List.not_mem_nil,
        or_false] at htoken
      rcases htoken with rfl | htoken | rfl
      · exact .inr (by decide)
      · exact ih htoken
      · exact .inr (by decide)
  | single _ ih | lone _ ih => exact ih htoken
  | and _ _ ihLeft ihRight | or _ _ ihLeft ihRight =>
      simp only [List.mem_append, List.mem_cons] at htoken
      rcases htoken with htoken | rfl | htoken
      · exact ihLeft htoken
      · exact .inr (by decide)
      · exact ihRight htoken

def isConditionChar (char : Char) : Bool :=
  Token.isSkipped char || isNameChar char || "!&|()-+~".toList.contains char

theorem isNameChar_of_isName {name : String} (valid : isName name) {char : Char}
    (hchar : char ∈ name.toList) : isNameChar char := by
  unfold isName at valid
  split at valid
  · contradiction
  · rename_i first others hname
    rw [Bool.and_eq_true, List.all_eq_true] at valid
    rw [hname] at hchar
    rcases List.mem_cons.mp hchar with rfl | hchar
    · exact isNameChar_of_isNameStart valid.1
    · exact valid.2 char hchar

theorem isConditionChar_of_parse {text : String} {condition : Condition}
    (h : parse text = .ok condition) {char : Char} (hchar : char ∈ text.toList) :
    isConditionChar char := by
  obtain ⟨row, hrow, hderives⟩ := parse_eq_ok_iff_derives.mp h
  rcases (lexes_of_lexed hrow).mem hchar with hskipped | ⟨token, htoken, hmem⟩
  · simp [isConditionChar, hskipped]
  · rcases hderives.mem htoken with ⟨name, rfl⟩ | hsign
    · have hname := isNameChar_of_isName (isName_of_mem_row hrow htoken) hmem
      simp [isConditionChar, hname]
    · have hsigns : ∀ token ∈ signs, token.text.toList.all isConditionChar := by decide
      exact List.all_eq_true.mp (hsigns token hsign) char hmem

end GuardedText.Condition
