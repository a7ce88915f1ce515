import GuardedText.Proofs.Condition.Alphabet
import GuardedText.Proofs.Condition.RoundTrip

/-!
# Printed conditions have no parentheses to spare

Every parenthesis that the printer writes is one that the grammar asks for: where a phrase is
derived, the printer needs no more groups than the derivation has, and a group of the
derivation pays for the one pair that its contents may need in its place.  So no text that is
read as the condition has fewer parentheses than the printed one.
-/

namespace GuardedText.Condition

open GuardedText.Text

/-! ## Groups of a row -/

def Phrase.strength : Phrase → Nat
  | .disjunction => 1
  | .conjunction => 2
  | .operand => 3

theorem count_enclose {needed : Prop} [Decidable needed] (tokens : List Token) :
    (enclose needed tokens).count .openGroup =
      tokens.count .openGroup + if needed then 1 else 0 := by
  by_cases h : needed <;> simp [enclose, h]

theorem count_rowAt_le_of_le {least more : Nat} (h : least ≤ more) (condition : Condition) :
    (condition.rowAt least).count .openGroup ≤ (condition.rowAt more).count .openGroup := by
  cases condition with
  | symbol => exact Nat.le_refl _
  | not | and | or | unsupported =>
      simp only [rowAt, count_enclose]
      split <;> split <;> omega

theorem count_rowAt_le_succ (least : Nat) (condition : Condition) :
    (condition.rowAt least).count .openGroup ≤ (condition.rowAt 1).count .openGroup + 1 := by
  cases condition with
  | symbol => exact Nat.le_succ _
  | not | and | or | unsupported =>
      simp only [rowAt, count_enclose]
      split <;> omega

theorem Derives.count_rowAt_le {phrase : Phrase} {row : List Token} {condition : Condition}
    (h : Derives phrase row condition) :
    (condition.rowAt phrase.strength).count .openGroup ≤ row.count .openGroup := by
  induction h with
  | symbol => exact Nat.le_refl _
  | not _ ih | unsupported _ _ ih =>
      simpa [rowAt, Condition.enclose, Phrase.strength] using ih
  | @group _ condition _ ih =>
      have hpair := count_rowAt_le_succ 3 condition
      simp only [Phrase.strength, List.cons_append, List.count_cons_self,
        List.count_append] at ih ⊢
      omega
  | @single _ condition _ ih => exact (count_rowAt_le_of_le (by decide) condition).trans ih
  | and _ _ ihLeft ihRight =>
      simpa [rowAt, Condition.enclose, Phrase.strength] using Nat.add_le_add ihLeft ihRight
  | @lone _ condition _ ih => exact (count_rowAt_le_of_le (by decide) condition).trans ih
  | or _ _ ihLeft ihRight =>
      simpa [rowAt, Condition.enclose, Phrase.strength] using Nat.add_le_add ihLeft ihRight

/-! ## Parentheses of a text -/

theorem Lexes.count_eq {text : List Char} {row : List Token} (h : Lexes text row)
    (hrow : ∀ token ∈ row, token.text.toList.count '(' = [token].count .openGroup) :
    text.count '(' = row.count .openGroup := by
  induction h with
  | nil => rfl
  | @skip char rest row hskipped _ ih =>
      have hchar : char ≠ '(' := by
        rintro rfl
        contradiction
      rw [List.count_cons_of_ne hchar, ih hrow]
  | @token first word after token row _ hscan _ ih =>
      rw [List.forall_mem_cons] at hrow
      rw [← List.cons_append, List.count_append, ← scan_text hscan, hrow.1, ih hrow.2,
        ← List.count_append, List.singleton_append]

theorem count_of_lexed {text : List Char} {row : List Token} {phrase : Phrase}
    {condition : Condition} (hrow : lexed text = row.map some)
    (h : Derives phrase row condition) : text.count '(' = row.count .openGroup := by
  apply (lexes_of_lexed hrow).count_eq
  intro token htoken
  rcases h.mem htoken with ⟨name, rfl⟩ | hsign
  · rw [List.count_eq_zero_of_not_mem, List.count_eq_zero_of_not_mem (by simp)]
    intro hparenthesis
    exact absurd (isNameChar_of_isName (isName_of_mem_row hrow htoken) hparenthesis) (by decide)
  · have hsigns : ∀ sign ∈ signs, sign.text.toList.count '(' = [sign].count .openGroup := by
      decide
    exact hsigns token hsign

/-- A printed condition has as few parentheses as any text that is read as the condition,
and it is such a text itself. -/
theorem count_parenthesis_print_le (text : String) (condition : Condition)
    (h : parse text = .ok condition) :
    condition.print.toList.count '(' ≤ text.toList.count '(' ∧
      parse condition.print = .ok condition := by
  obtain ⟨row, hrow, hderives⟩ := parse_eq_ok_iff_derives.mp h
  have hwritable := writable_of_parse h
  refine ⟨?_, parse_print_of_writable hwritable⟩
  calc condition.print.toList.count '('
      = (condition.rowAt 1).count .openGroup :=
        count_of_lexed (lexed_print hwritable) (derives_rowAt 1 hwritable)
    _ ≤ row.count .openGroup := hderives.count_rowAt_le
    _ = text.toList.count '(' := (count_of_lexed hrow hderives).symm

theorem count_parenthesis_print_le_nested :
    parse "((A) || B) && !((C && (D)))" =
        .ok (.and (.or (.symbol "A") (.symbol "B"))
          (.not (.and (.symbol "C") (.symbol "D")))) ∧
      "(A || B) && !(C && D)".toList.count '(' ≤
        "((A) || B) && !((C && (D)))".toList.count '(' := by
  have hparse : parse "((A) || B) && !((C && (D)))" =
      .ok (.and (.or (.symbol "A") (.symbol "B"))
        (.not (.and (.symbol "C") (.symbol "D")))) := by
    decide +kernel
  exact ⟨hparse, (count_parenthesis_print_le _ _ hparse).1⟩

end GuardedText.Condition
