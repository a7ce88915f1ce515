import GuardedText.Proofs.Condition.FirstFault

/-!
# Conditions keep the order of their tokens

The reader builds a condition from chains, runs of prefix operators and groups, each in its own
way.  Read in order, with every prefix operator before its operand and every other operator
between its two, the condition is the row of tokens again, the parentheses apart.  So no symbol
and no operator is lost, added or moved.
-/

namespace GuardedText.Condition

open GuardedText.Text

namespace Token

def name? : Token → Option String
  | .symbol name => some name
  | _ => none

def isOperator : Token → Bool
  | .bang | .conjunction | .disjunction | .operator _ => true
  | _ => false

def isParenthesis : Token → Bool
  | .openGroup | .closeGroup => true
  | _ => false

end Token

def inOrder : Condition → List Token
  | .symbol name => [.symbol name]
  | .not operand => .bang :: operand.inOrder
  | .and left right => left.inOrder ++ .conjunction :: right.inOrder
  | .or left right => left.inOrder ++ .disjunction :: right.inOrder
  | .unsupported operator operand => .operator operator :: operand.inOrder

theorem names_eq_inOrder (condition : Condition) :
    condition.names = condition.inOrder.filterMap Token.name? := by
  induction condition with
  | symbol name => rfl
  | not operand ih => exact ih
  | and left right ihLeft ihRight =>
      rw [names, inOrder, List.filterMap_append, ihLeft, ihRight]
      rfl
  | or left right ihLeft ihRight =>
      rw [names, inOrder, List.filterMap_append, ihLeft, ihRight]
      rfl
  | unsupported operator operand ih => exact ih

theorem Derives.inOrder_eq {phrase : Phrase} {row : List Token} {condition : Condition}
    (h : Derives phrase row condition) :
    condition.inOrder = row.filter (!·.isParenthesis) := by
  induction h with
  | symbol name => rfl
  | not _ ih => simp [inOrder, Token.isParenthesis, ih]
  | unsupported _ _ ih => simp [inOrder, Token.isParenthesis, ih]
  | group _ ih => simp [Token.isParenthesis, ih]
  | single _ ih | lone _ ih => exact ih
  | and _ _ ihLeft ihRight => simp [inOrder, Token.isParenthesis, ihLeft, ihRight]
  | or _ _ ihLeft ihRight => simp [inOrder, Token.isParenthesis, ihLeft, ihRight]

theorem filterMap_name?_filter (row : List Token) :
    (row.filter (!·.isParenthesis)).filterMap Token.name? = row.filterMap Token.name? := by
  rw [List.filterMap_filter]
  apply List.filterMap_congr
  intro token _
  cases token <;> rfl

theorem filter_isOperator_filter (row : List Token) :
    (row.filter (!·.isParenthesis)).filter Token.isOperator = row.filter Token.isOperator := by
  rw [List.filter_filter]
  apply List.filter_congr
  intro token _
  cases token <;> rfl

theorem pairwise_of_tokens {text : List Char} {placed : List (Nat × Token)}
    (h : tokens (Piece.ofText 0 text) = .ok placed) :
    (placed.map (·.1)).Pairwise (· < ·) := by
  have hstarts : placed.map (·.1) = (Piece.ofText 0 text).map (·.start) := by
    have hplaced := congrArg (List.map Prod.fst) (tokens_eq_ok_iff_map.mp h)
    simpa only [List.map_map, Function.comp_def] using hplaced.symm
  rw [hstarts, List.pairwise_map]
  refine (Piece.pairwise_ofText 0 text).imp_of_mem ?_
  intro earlier later hearlier _ hapart
  exact Nat.lt_of_lt_of_le (Piece.start_lt_stop hearlier) hapart

/-- A condition has the names that stand in its text, in their order and with repeats, also
those behind operators without a meaning.  Its operators, a prefix operator before its operand
and any other between its two, are those of the text in their order.  Names and operators
together are all the tokens of the text, the parentheses apart. -/
theorem inOrder_of_parse (text : String) (condition : Condition)
    (h : parse text = .ok condition) :
    ∃ placed, tokens (Piece.ofText 0 text.toList) = .ok placed ∧
      (placed.map (·.1)).Pairwise (· < ·) ∧
      condition.names = (placed.map (·.2)).filterMap Token.name? ∧
      condition.inOrder.filter Token.isOperator =
        (placed.map (·.2)).filter Token.isOperator ∧
      condition.inOrder = (placed.map (·.2)).filter (!·.isParenthesis) := by
  obtain ⟨row, hrow, hderives⟩ := parse_eq_ok_iff_derives.mp h
  obtain ⟨placed, hplaced, rfl⟩ := tokens_eq_ok_iff.mpr hrow
  have horder := hderives.inOrder_eq
  refine ⟨placed, hplaced, pairwise_of_tokens hplaced, ?_, ?_, horder⟩
  · rw [names_eq_inOrder, horder, filterMap_name?_filter]
  · rw [horder, filter_isOperator_filter]

theorem inOrder_of_parse_nested :
    parse "!(B && -(A)) || ~!A" =
        .ok (.or (.not (.and (.symbol "B") (.unsupported "-" (.symbol "A"))))
          (.unsupported "~" (.not (.symbol "A")))) ∧
      ∃ placed, tokens (Piece.ofText 0 "!(B && -(A)) || ~!A".toList) = .ok placed ∧
        ["B", "A", "A"] = (placed.map (·.2)).filterMap Token.name? ∧
        [.bang, .conjunction, .operator "-", .disjunction, .operator "~", .bang] =
          (placed.map (·.2)).filter Token.isOperator := by
  have hparse : parse "!(B && -(A)) || ~!A" =
      .ok (.or (.not (.and (.symbol "B") (.unsupported "-" (.symbol "A"))))
        (.unsupported "~" (.not (.symbol "A")))) := by
    decide +kernel
  obtain ⟨placed, hplaced, -, hnames, hoperators, -⟩ := inOrder_of_parse _ _ hparse
  exact ⟨hparse, placed, hplaced, hnames, hoperators⟩

end GuardedText.Condition
