import GuardedText.Document.Basic
import GuardedText.JsonValue

/-!
# Documents as JSON

A leaf is `{"node": "leaf", "text", "line"}`, a block is `{"node": "block",
"branches"}`.  A branch without a condition has the condition `null`.
-/

namespace GuardedText

def Condition.toJson : Condition → JsonValue
  | .symbol name => .object [("type", .string "identifier"), ("name", .string name)]
  | .not operand => .object [("type", .string "not"), ("operand", operand.toJson)]
  | .and left right =>
    .object [("type", .string "and"), ("left", left.toJson), ("right", right.toJson)]
  | .or left right =>
    .object [("type", .string "or"), ("left", left.toJson), ("right", right.toJson)]
  | .unsupported operator operand =>
    .object [("type", .string "unsupported"), ("operator", .string operator),
      ("operand", operand.toJson)]

mutual

def nodesToJson : List Node → List JsonValue
  | [] => []
  | .leaf text line :: rest =>
    .object [("node", .string "leaf"), ("text", .string text), ("line", .number line)] ::
      nodesToJson rest
  | .block branches :: rest =>
    .object [("node", .string "block"), ("branches", .array (branchesToJson branches))] ::
      nodesToJson rest

def branchesToJson : List Branch → List JsonValue
  | [] => []
  | ⟨kind, condition?, body, line⟩ :: rest =>
    .object [("kind", .string kind.keyword),
      ("condition", (condition?.map Condition.toJson).getD .null),
      ("body", .array (nodesToJson body)), ("line", .number line)] :: branchesToJson rest

end

namespace Document

def toJson (document : Document) : JsonValue :=
  .object [("content", .array (nodesToJson document.content))]

end Document

end GuardedText
