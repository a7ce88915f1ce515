import GuardedText.Condition.Printer
import GuardedText.Proofs.Condition.Grammar

/-!
# Printed conditions are read back

The printer puts parentheses by comparing binding strengths, the reader finds the
structure by its grammar.  A printed condition is first cut into the tokens that
its structure asks for, and these tokens derive it.  Only names and operators that
no condition can be written with stand in the way.
-/

namespace GuardedText.Condition

open GuardedText.Text

/-! ## The text of a printed condition -/

def strength : Condition → Nat
  | .or _ _ => 1
  | .and _ _ => 2
  | .not _ => 3
  | .unsupported _ _ => 3
  | .symbol _ => 4

def bracketed (needed : Bool) (text : List Char) : List Char :=
  if needed then '(' :: (text ++ [')']) else text

/-- An operand stands in parentheses if it binds weaker than its place asks for.  Chains group
to the left, so the right operand must bind stronger. -/
def written : Condition → List Char
  | .symbol name => name.toList
  | .not operand => '!' :: bracketed (operand.strength < 3) operand.written
  | .unsupported operator operand =>
    operator.toList ++ bracketed (operand.strength < 3) operand.written
  | .and left right =>
    bracketed (left.strength < 2) left.written ++ " && ".toList ++
      bracketed (right.strength < 3) right.written
  | .or left right =>
    bracketed (left.strength < 1) left.written ++ " || ".toList ++
      bracketed (right.strength < 2) right.written

theorem bracketed_append (needed : Bool) (text rest : List Char) :
    bracketed needed text ++ rest =
      parenthesis needed '(' ++ (text ++ (parenthesis needed ')' ++ rest)) := by
  cases needed <;> simp [bracketed, parenthesis]

theorem writeAt_eq_bracketed (condition : Condition) {least : Nat} (h : least ≤ 4)
    (rest : List Char) : condition.writeAt least rest =
      bracketed (condition.strength < least) condition.written ++ rest := by
  induction condition generalizing least rest with
  | symbol name =>
      have hstrong : ¬(symbol name).strength < least := by
        simp only [strength]
        omega
      simp [writeAt, written, bracketed, hstrong]
  | not operand ih =>
      have hstrength : (not operand).strength = 3 := rfl
      rw [bracketed_append, hstrength, writeAt, written, ih (by omega)]
      simp
  | and left right ihLeft ihRight =>
      have hstrength : (and left right).strength = 2 := rfl
      rw [bracketed_append, hstrength, writeAt, written, ihLeft (by omega), ihRight (by omega)]
      simp
  | or left right ihLeft ihRight =>
      have hstrength : (or left right).strength = 1 := rfl
      rw [bracketed_append, hstrength, writeAt, written, ihLeft (by omega), ihRight (by omega)]
      simp
  | unsupported operator operand ih =>
      have hstrength : (unsupported operator operand).strength = 3 := rfl
      rw [bracketed_append, hstrength, writeAt, written, ih (by omega)]
      simp

theorem toList_print (condition : Condition) : condition.print.toList = condition.written := by
  have hstrong : ¬condition.strength < 1 := by
    cases condition <;> simp [strength]
  rw [print, String.toList_ofList, writeAt_eq_bracketed condition (by omega)]
  simp [bracketed, hstrong]

/-! ## The tokens of a printed condition -/

def operators : Condition → List String
  | .symbol _ => []
  | .not operand => operand.operators
  | .and left right => left.operators ++ right.operators
  | .or left right => left.operators ++ right.operators
  | .unsupported operator operand => operator :: operand.operators

structure Writable (condition : Condition) : Prop where
  names : ∀ name ∈ condition.names, isName name
  operators : ∀ operator ∈ condition.operators, operator ∈ ["-", "+", "~"]

theorem writable_symbol {name : String} : (symbol name).Writable ↔ isName name := by
  constructor
  · intro h
    exact h.names name (by simp [Condition.names])
  · intro h
    exact ⟨by simpa [Condition.names] using h, by simp [Condition.operators]⟩

theorem writable_not {operand : Condition} :
    (not operand).Writable ↔ operand.Writable :=
  ⟨fun h => ⟨h.names, h.operators⟩, fun h => ⟨h.names, h.operators⟩⟩

theorem writable_and {left right : Condition} :
    (and left right).Writable ↔ left.Writable ∧ right.Writable := by
  constructor
  · rintro ⟨names, known⟩
    rw [Condition.names, List.forall_mem_append] at names
    rw [Condition.operators, List.forall_mem_append] at known
    exact ⟨⟨names.1, known.1⟩, ⟨names.2, known.2⟩⟩
  · rintro ⟨hleft, hright⟩
    exact ⟨List.forall_mem_append.mpr ⟨hleft.names, hright.names⟩,
      List.forall_mem_append.mpr ⟨hleft.operators, hright.operators⟩⟩

theorem writable_or {left right : Condition} :
    (or left right).Writable ↔ left.Writable ∧ right.Writable := by
  rw [← writable_and]
  exact ⟨fun h => ⟨h.names, h.operators⟩, fun h => ⟨h.names, h.operators⟩⟩

theorem writable_unsupported {operator : String} {operand : Condition} :
    (unsupported operator operand).Writable ↔
      operator ∈ ["-", "+", "~"] ∧ operand.Writable := by
  constructor
  · rintro ⟨names, known⟩
    rw [Condition.operators, List.forall_mem_cons] at known
    exact ⟨known.1, names, known.2⟩
  · rintro ⟨hoperator, h⟩
    exact ⟨h.names, List.forall_mem_cons.mpr ⟨hoperator, h.operators⟩⟩

def enclose (needed : Bool) (tokens : List Token) : List Token :=
  if needed then .openGroup :: tokens ++ [.closeGroup] else tokens

def rowAt (least : Nat) : Condition → List Token
  | .symbol name => [.symbol name]
  | .not operand => enclose (3 < least) (.bang :: operand.rowAt 3)
  | .and left right =>
    enclose (2 < least) (left.rowAt 2 ++ .conjunction :: right.rowAt 3)
  | .or left right =>
    enclose (1 < least) (left.rowAt 1 ++ .disjunction :: right.rowAt 2)
  | .unsupported operator operand =>
    enclose (3 < least) (.operator operator :: operand.rowAt 3)

/-! ## They derive the condition -/

def Phrase.ofStrength : Nat → Phrase
  | 0 | 1 => .disjunction
  | 2 => .conjunction
  | _ + 3 => .operand

theorem Derives.weaken {least strength : Nat} {tokens : List Token}
    {condition : Condition} (h : Derives (.ofStrength strength) tokens condition)
    (weaker : least ≤ strength) : Derives (.ofStrength least) tokens condition := by
  match least, strength, weaker with
  | 0, 0, _ | 0, 1, _ | 1, 1, _ | 2, 2, _ => exact h
  | 0, 2, _ | 1, 2, _ => exact .lone h
  | 0, _ + 3, _ | 1, _ + 3, _ => exact .lone (.single h)
  | 2, _ + 3, _ => exact .single h
  | _ + 3, _ + 3, _ => exact h

theorem Derives.enclose {strength : Nat} {tokens : List Token} {condition : Condition}
    (h : Derives (.ofStrength strength) tokens condition) (least : Nat) :
    Derives (.ofStrength least) (enclose (strength < least) tokens) condition := by
  unfold Condition.enclose
  split
  · have hgroup : Derives (.ofStrength (least + 3)) _ condition :=
      .group (h.weaken (Nat.zero_le strength))
    exact hgroup.weaken (Nat.le_add_right least 3)
  · exact h.weaken (by simp_all)

theorem derives_rowAt {condition : Condition} (least : Nat) (h : condition.Writable) :
    Derives (.ofStrength least) (condition.rowAt least) condition := by
  induction condition generalizing least with
  | symbol name =>
      have hsymbol : Derives (.ofStrength (least + 3)) _ _ := .symbol name
      exact hsymbol.weaken (Nat.le_add_right least 3)
  | not operand ih =>
      have hnot : Derives (.ofStrength 3) _ _ := .not (ih 3 (writable_not.mp h))
      exact hnot.enclose least
  | and left right ihLeft ihRight =>
      obtain ⟨hleft, hright⟩ := writable_and.mp h
      have hand : Derives (.ofStrength 2) _ _ := .and (ihLeft 2 hleft) (ihRight 3 hright)
      exact hand.enclose least
  | or left right ihLeft ihRight =>
      obtain ⟨hleft, hright⟩ := writable_or.mp h
      have hor : Derives (.ofStrength 1) _ _ := .or (ihLeft 1 hleft) (ihRight 2 hright)
      exact hor.enclose least
  | unsupported operator operand ih =>
      obtain ⟨known, hoperand⟩ := writable_unsupported.mp h
      have hunsupported : Derives (.ofStrength 3) _ _ :=
        .unsupported known (ih 3 hoperand)
      exact hunsupported.enclose least

/-! ## The printed text is cut into them -/

def EndsName (text : List Char) : Prop :=
  ∀ char ∈ text.head?, isNameChar char = false

theorem endsName_parenthesis (needed : Bool) {rest : List Char} (h : EndsName rest) :
    EndsName (parenthesis needed ')' ++ rest) := by
  cases needed with
  | false => exact h
  | true =>
      intro char hchar
      cases hchar
      rfl

theorem endsName_and (rest : List Char) : EndsName (" && ".toList ++ rest) := by
  rintro char ⟨⟩
  rfl

theorem endsName_or (rest : List Char) : EndsName (" || ".toList ++ rest) := by
  rintro char ⟨⟩
  rfl

theorem lexed_and (rest : List Char) :
    lexed (" && ".toList ++ rest) = some .conjunction :: lexed rest := by
  have htext : " && ".toList ++ rest = ' ' :: '&' :: '&' :: ' ' :: rest := rfl
  rw [htext, lexed_space, lexed_conjunction, lexed_space]

theorem lexed_or (rest : List Char) :
    lexed (" || ".toList ++ rest) = some .disjunction :: lexed rest := by
  have htext : " || ".toList ++ rest = ' ' :: '|' :: '|' :: ' ' :: rest := rfl
  rw [htext, lexed_space, lexed_disjunction, lexed_space]

theorem lexed_enclose {write : List Char → List Char} {tokens : List Token}
    (h : ∀ rest, EndsName rest → lexed (write rest) = tokens.map some ++ lexed rest)
    (needed : Bool) {rest : List Char} (hrest : EndsName rest) :
    lexed (parenthesis needed '(' ++ write (parenthesis needed ')' ++ rest)) =
      (enclose needed tokens).map some ++ lexed rest := by
  cases needed with
  | false => exact h rest hrest
  | true =>
      have hinner := h (')' :: rest) (endsName_parenthesis true hrest)
      simp [parenthesis, enclose, lexed_openGroup, hinner, lexed_closeGroup]

theorem head?_parenthesis_ne {needed : Bool} {text : List Char}
    (h : text.head? ≠ some '=') : (parenthesis needed '(' ++ text).head? ≠ some '=' := by
  cases needed with
  | false => exact h
  | true => simp [parenthesis]

theorem head?_writeAt_ne {condition : Condition} (least : Nat) (rest : List Char)
    (h : condition.Writable) : (condition.writeAt least rest).head? ≠ some '=' := by
  induction condition generalizing least rest with
  | symbol name =>
      have valid := writable_symbol.mp h
      unfold isName at valid
      split at valid
      · contradiction
      · rename_i first others hname
        rw [writeAt, hname]
        rintro ⟨⟩
        contradiction
  | not operand ih =>
      rw [writeAt]
      exact head?_parenthesis_ne (by simp)
  | and left right ihLeft ihRight =>
      rw [writeAt]
      exact head?_parenthesis_ne (ihLeft 2 _ (writable_and.mp h).1)
  | or left right ihLeft ihRight =>
      rw [writeAt]
      exact head?_parenthesis_ne (ihLeft 1 _ (writable_or.mp h).1)
  | unsupported operator operand ih =>
      rw [writeAt, List.append_assoc]
      apply head?_parenthesis_ne
      have known := (writable_unsupported.mp h).1
      simp only [List.mem_cons, List.not_mem_nil, or_false] at known
      rcases known with rfl | rfl | rfl <;> simp

theorem lexed_writeAt {condition : Condition} (least : Nat) {rest : List Char}
    (h : condition.Writable) (hrest : EndsName rest) :
    lexed (condition.writeAt least rest) =
      (condition.rowAt least).map some ++ lexed rest := by
  induction condition generalizing least rest with
  | symbol name =>
      rw [writeAt, lexed_name rest (writable_symbol.mp h) hrest]
      rfl
  | not operand ih =>
      have hoperand := writable_not.mp h
      have hbody : ∀ rest, EndsName rest → lexed ('!' :: operand.writeAt 3 rest) =
          (.bang :: operand.rowAt 3).map some ++ lexed rest := by
        intro rest hrest
        rw [lexed_bang _ (head?_writeAt_ne 3 rest hoperand), ih 3 hoperand hrest]
        rfl
      exact lexed_enclose hbody _ hrest
  | and left right ihLeft ihRight =>
      obtain ⟨hleft, hright⟩ := writable_and.mp h
      have hbody : ∀ rest, EndsName rest →
          lexed (left.writeAt 2 (" && ".toList ++ right.writeAt 3 rest)) =
            (left.rowAt 2 ++ .conjunction :: right.rowAt 3).map some ++ lexed rest := by
        intro rest hrest
        rw [ihLeft 2 hleft (endsName_and _), lexed_and, ihRight 3 hright hrest]
        simp
      exact lexed_enclose hbody _ hrest
  | or left right ihLeft ihRight =>
      obtain ⟨hleft, hright⟩ := writable_or.mp h
      have hbody : ∀ rest, EndsName rest →
          lexed (left.writeAt 1 (" || ".toList ++ right.writeAt 2 rest)) =
            (left.rowAt 1 ++ .disjunction :: right.rowAt 2).map some ++ lexed rest := by
        intro rest hrest
        rw [ihLeft 1 hleft (endsName_or _), lexed_or, ihRight 2 hright hrest]
        simp
      exact lexed_enclose hbody _ hrest
  | unsupported operator operand ih =>
      obtain ⟨known, hoperand⟩ := writable_unsupported.mp h
      have hbody : ∀ rest, EndsName rest →
          lexed (operator.toList ++ operand.writeAt 3 rest) =
            (.operator operator :: operand.rowAt 3).map some ++ lexed rest := by
        intro rest hrest
        rw [lexed_prefixOperator _ known, ih 3 hoperand hrest]
        rfl
      rw [writeAt, List.append_assoc]
      exact lexed_enclose hbody _ hrest

/-! ## Reading back -/

theorem lexed_print {condition : Condition} (h : condition.Writable) :
    lexed condition.print.toList = (condition.rowAt 1).map some := by
  have hend : EndsName [] := by simp [EndsName]
  simpa [print, lexed_nil] using lexed_writeAt 1 h hend

theorem parse_print_of_writable {condition : Condition} (h : condition.Writable) :
    parse condition.print = .ok condition :=
  parse_eq_ok_iff_derives.mpr ⟨_, lexed_print h, derives_rowAt 1 h⟩

theorem Derives.writable {phrase : Phrase} {row : List Token} {condition : Condition}
    (h : Derives phrase row condition)
    (valid : ∀ name, .symbol name ∈ row → isName name) : condition.Writable := by
  induction h with
  | symbol name => exact writable_symbol.mpr (valid name (by simp))
  | not _ ih => exact writable_not.mpr (ih fun name hname => valid name (by simp [hname]))
  | unsupported known _ ih =>
      exact writable_unsupported.mpr
        ⟨known, ih fun name hname => valid name (by simp [hname])⟩
  | group _ ih => exact ih fun name hname => valid name (by simp [hname])
  | single _ ih | lone _ ih => exact ih valid
  | and _ _ ihLeft ihRight =>
      exact writable_and.mpr ⟨ihLeft fun name hname => valid name (by simp [hname]),
        ihRight fun name hname => valid name (by simp [hname])⟩
  | or _ _ ihLeft ihRight =>
      exact writable_or.mpr ⟨ihLeft fun name hname => valid name (by simp [hname]),
        ihRight fun name hname => valid name (by simp [hname])⟩

theorem writable_of_parse {text : String} {condition : Condition}
    (h : parse text = .ok condition) : condition.Writable := by
  obtain ⟨row, hrow, hderives⟩ := parse_eq_ok_iff_derives.mp h
  apply hderives.writable
  intro name hname
  exact isName_of_mem_row hrow hname

/-- A printed condition is read as itself exactly if all its symbols have valid
names and all its other prefix operators are `-`, `+` or `~`.  So it is for every
condition that has been read from a text. -/
theorem parse_print_eq_ok_iff (condition : Condition) :
    (parse condition.print = .ok condition ↔
      (∀ name ∈ condition.names, isName name) ∧
        ∀ operator ∈ condition.operators, operator ∈ ["-", "+", "~"]) ∧
    ∀ text, parse text = .ok condition → parse condition.print = .ok condition := by
  refine ⟨⟨?_, ?_⟩, ?_⟩
  · intro h
    have hwritable := writable_of_parse h
    exact ⟨hwritable.names, hwritable.operators⟩
  · rintro ⟨names, known⟩
    exact parse_print_of_writable ⟨names, known⟩
  · intro text h
    exact parse_print_of_writable (writable_of_parse h)

end GuardedText.Condition
