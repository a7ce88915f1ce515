import GuardedText.Document.Json
import GuardedText.Proofs.Json.Writing

/-!
# Documents from JSON

A document can be read back from its JSON text: the text is well formed, a reader of JSON
finds one value in it, and this value gives the document again.  So different documents have
different texts.
-/

namespace GuardedText

def Json.toNat? : Json → Option Nat
  | .number literal =>
    if literal.all Char.isDigit then some (Nat.ofDigitChars 10 literal 0) else none
  | _ => none

def BranchKind.ofTag? : String → Option BranchKind
  | "if" => some .ifTrue
  | "elif" => some .elseIf
  | "else" => some .otherwise
  | _ => none

def Condition.ofJson? : Json → Option Condition
  | .object [("type", .string "identifier"), ("name", .string name)] => some (.symbol name)
  | .object [("type", .string "not"), ("operand", operand)] => return .not (← ofJson? operand)
  | .object [("type", .string "and"), ("left", left), ("right", right)] =>
    return .and (← ofJson? left) (← ofJson? right)
  | .object [("type", .string "or"), ("left", left), ("right", right)] =>
    return .or (← ofJson? left) (← ofJson? right)
  | .object [("type", .string "unsupported"), ("operator", .string operator),
      ("operand", operand)] =>
    return .unsupported operator (← ofJson? operand)
  | _ => none

def Branch.conditionOfJson? : Json → Option (Option Condition)
  | .null => some none
  | value => return some (← Condition.ofJson? value)

mutual

def Node.ofJson? : Json → Option Node
  | .object [("node", .string "leaf"), ("text", .string text), ("line", line)] =>
    return .leaf text (← line.toNat?)
  | .object [("node", .string "block"), ("branches", .array branches)] =>
    return .block (← branchesOfJson? branches)
  | _ => none

def nodesOfJson? : List Json → Option (List Node)
  | [] => some []
  | node :: rest => return (← Node.ofJson? node) :: (← nodesOfJson? rest)

def Branch.ofJson? : Json → Option Branch
  | .object [("kind", .string kind), ("condition", condition), ("body", .array body),
      ("line", line)] =>
    return ⟨← BranchKind.ofTag? kind, ← Branch.conditionOfJson? condition,
      ← nodesOfJson? body, ← line.toNat?⟩
  | _ => none

def branchesOfJson? : List Json → Option (List Branch)
  | [] => some []
  | branch :: rest => return (← Branch.ofJson? branch) :: (← branchesOfJson? rest)

end

def Document.ofJson? : Json → Option Document
  | .object [("content", .array content)] => return ⟨← nodesOfJson? content⟩
  | _ => none

/-! ## Documents come back -/

open JsonValue

theorem toNat?_toDigits (value : Nat) :
    (Json.number (Nat.toDigits 10 value)).toNat? = some value := by
  have hdigits : (Nat.toDigits 10 value).all Char.isDigit := by
    rw [List.all_eq_true]
    intro char hmem
    exact Nat.isDigit_of_mem_toDigits (by decide) (by decide) hmem
  rw [Json.toNat?, if_pos hdigits, Nat.ofDigitChars_ten_toDigits]

theorem ofTag?_keyword (kind : BranchKind) : BranchKind.ofTag? kind.keyword = some kind := by
  cases kind <;> rfl

theorem Condition.ofJson?_meaning (condition : Condition) :
    Condition.ofJson? condition.toJson.meaning = some condition := by
  induction condition with
  | symbol name => rfl
  | not operand ih => simp [toJson, meaning, fieldsMeaning, ofJson?, ih]
  | and left right ihleft ihright =>
      simp [toJson, meaning, fieldsMeaning, ofJson?, ihleft, ihright]
  | or left right ihleft ihright =>
      simp [toJson, meaning, fieldsMeaning, ofJson?, ihleft, ihright]
  | unsupported operator operand ih => simp [toJson, meaning, fieldsMeaning, ofJson?, ih]

theorem conditionOfJson?_of_ne {value : Json} (h : value ≠ .null) :
    Branch.conditionOfJson? value = some <$> Condition.ofJson? value := by
  unfold Branch.conditionOfJson?
  split
  · contradiction
  · cases Condition.ofJson? value <;> rfl

theorem Condition.meaning_toJson_ne_null (condition : Condition) :
    condition.toJson.meaning ≠ .null := by
  cases condition <;> simp [toJson, meaning]

theorem conditionOfJson?_meaning (condition? : Option Condition) :
    Branch.conditionOfJson? ((condition?.map Condition.toJson).getD .null).meaning =
      some condition? := by
  cases condition? with
  | none => rfl
  | some condition =>
      have hread := conditionOfJson?_of_ne condition.meaning_toJson_ne_null
      rwa [condition.ofJson?_meaning] at hread

mutual

theorem nodesOfJson?_meaning (nodes : List Node) :
    nodesOfJson? (itemsMeaning (nodesToJson nodes)) = some nodes := by
  match nodes with
  | [] => simp [nodesToJson, itemsMeaning, nodesOfJson?]
  | .leaf text line :: rest =>
    have hrest := nodesOfJson?_meaning rest
    simp [nodesToJson, itemsMeaning, nodesOfJson?, meaning, fieldsMeaning, Node.ofJson?,
      toNat?_toDigits, hrest]
  | .block branches :: rest =>
    have hbranches := branchesOfJson?_meaning branches
    have hrest := nodesOfJson?_meaning rest
    simp [nodesToJson, itemsMeaning, nodesOfJson?, meaning, fieldsMeaning, Node.ofJson?,
      hbranches, hrest]

theorem branchesOfJson?_meaning (branches : List Branch) :
    branchesOfJson? (itemsMeaning (branchesToJson branches)) = some branches := by
  match branches with
  | [] => simp [branchesToJson, itemsMeaning, branchesOfJson?]
  | ⟨kind, condition?, body, line⟩ :: rest =>
    have hcondition := conditionOfJson?_meaning condition?
    have hbody := nodesOfJson?_meaning body
    have hrest := branchesOfJson?_meaning rest
    simp [branchesToJson, itemsMeaning, branchesOfJson?, meaning, fieldsMeaning,
      Branch.ofJson?, ofTag?_keyword, hcondition, toNat?_toDigits, hbody, hrest]

end

namespace Document

theorem ofJson?_meaning (document : Document) :
    ofJson? document.toJson.meaning = some document := by
  have hcontent := nodesOfJson?_meaning document.content
  simp [toJson, meaning, fieldsMeaning, ofJson?, hcontent]

/-- The text of a document is JSON that stands for one value, the document is what this value
gives, and no other document has the text. -/
theorem exists_unique_reading (document : Document) :
    (∃ value, (∀ read, Json.IsText document.toJson.pretty.toList read ↔ read = value) ∧
      ofJson? value = some document) ∧
      ∀ other : Document, other.toJson.pretty = document.toJson.pretty → other = document := by
  constructor
  · exact ⟨document.toJson.meaning, fun _ => Json.isText_pretty_iff, document.ofJson?_meaning⟩
  · intro other htext
    have hvalue := Json.isText_pretty other.toJson
    rw [htext, Json.isText_pretty_iff] at hvalue
    have hsame : ofJson? other.toJson.meaning = some document := by
      rw [hvalue, document.ofJson?_meaning]
    rw [other.ofJson?_meaning] at hsame
    exact Option.some.inj hsame

end Document

end GuardedText
