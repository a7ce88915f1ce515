import GuardedText.Proofs.Condition.RoundTrip
import GuardedText.Proofs.Process.Concatenation
import GuardedText.Proofs.Statement.Written

/-!
# Which symbols matter

A run looks at the defined symbols only where it evaluates a condition, and a condition
looks only at the names outside the operands of operators without a meaning.  So two sets
of symbols that agree on these names give the same run.  A name that no condition can be
written with is never among them, and every other name decides some text.
-/

namespace GuardedText

open GuardedText.Text

/-- The two sets define the same of these names. -/
def Symbols.AgreeOn (names : List String) (first second : Symbols) : Prop :=
  ∀ name ∈ names, first.contains name = second.contains name

theorem Symbols.agreeOn_append {names others : List String} {first second : Symbols} :
    AgreeOn (names ++ others) first second ↔
      AgreeOn names first second ∧ AgreeOn others first second :=
  List.forall_mem_append

/-! ## Names and operators of a condition -/

namespace Condition

inductive Sign where
  | name (text : String)
  | operator (text : String)
deriving DecidableEq, Repr

structure Occurrence where
  sign : Sign
  inside : Bool
deriving DecidableEq, Repr

/-- The signs from left to right, if the condition itself stands inside such an operand
or not. -/
def occurrences (inside : Bool) : Condition → List Occurrence
  | .symbol name => [⟨.name name, inside⟩]
  | .not operand => operand.occurrences inside
  | .and left right => left.occurrences inside ++ right.occurrences inside
  | .or left right => left.occurrences inside ++ right.occurrences inside
  | .unsupported operator operand =>
    ⟨.operator operator, inside⟩ :: operand.occurrences true

def Occurrence.liveName? : Occurrence → Option String
  | ⟨.name text, false⟩ => some text
  | _ => none

def Occurrence.outermostOperator? : Occurrence → Option String
  | ⟨.operator text, false⟩ => some text
  | _ => none

/-- The names outside the operands of all operators without a meaning. -/
def liveNames (condition : Condition) : List String :=
  (condition.occurrences false).filterMap Occurrence.liveName?

def outermostOperators (condition : Condition) : List String :=
  (condition.occurrences false).filterMap Occurrence.outermostOperator?

theorem inside_of_mem_occurrences {condition : Condition} {occurrence : Occurrence}
    (h : occurrence ∈ condition.occurrences true) : occurrence.inside = true := by
  induction condition with
  | symbol name =>
      rw [List.mem_singleton.mp h]
  | not operand ih => exact ih h
  | and left right ihLeft ihRight | or left right ihLeft ihRight =>
      rcases List.mem_append.mp h with h | h
      · exact ihLeft h
      · exact ihRight h
  | unsupported operator operand ih =>
      rcases List.mem_cons.mp h with rfl | h
      · rfl
      · exact ih h

theorem filterMap_occurrences_inside {pick : Occurrence → Option String}
    (hpick : ∀ sign, pick ⟨sign, true⟩ = none) (condition : Condition) :
    (condition.occurrences true).filterMap pick = [] := by
  rw [List.filterMap_eq_nil_iff]
  rintro ⟨sign, inside⟩ h
  obtain rfl : inside = true := inside_of_mem_occurrences h
  exact hpick sign

theorem liveNames_unsupported (operator : String) (operand : Condition) :
    (unsupported operator operand).liveNames = [] :=
  filterMap_occurrences_inside (by rintro ⟨⟩ <;> rfl) operand

theorem outermostOperators_unsupported (operator : String) (operand : Condition) :
    (unsupported operator operand).outermostOperators = [operator] :=
  congrArg (operator :: ·) (filterMap_occurrences_inside (by rintro ⟨⟩ <;> rfl) operand)

theorem liveNames_and (left right : Condition) :
    (and left right).liveNames = left.liveNames ++ right.liveNames :=
  List.filterMap_append

theorem outermostOperators_and (left right : Condition) :
    (and left right).outermostOperators =
      left.outermostOperators ++ right.outermostOperators :=
  List.filterMap_append

theorem liveNames_subset_names (condition : Condition) :
    condition.liveNames ⊆ condition.names := by
  induction condition with
  | symbol name => exact List.Subset.refl [name]
  | not operand ih => exact ih
  | and left right ihLeft ihRight | or left right ihLeft ihRight =>
      change (and left right).liveNames ⊆ left.names ++ right.names
      rw [liveNames_and]
      exact List.append_subset.mpr ⟨List.Subset.trans ihLeft (List.subset_append_left _ _),
        List.Subset.trans ihRight (List.subset_append_right _ _)⟩
  | unsupported operator operand =>
      rw [liveNames_unsupported]
      exact List.nil_subset _

theorem unsupported_evaluate (symbols : Symbols) (condition : Condition) :
    (condition.evaluate symbols).unsupported = condition.outermostOperators := by
  induction condition with
  | symbol name => rfl
  | not operand ih => exact ih
  | and left right ihLeft ihRight | or left right ihLeft ihRight =>
      change _ = (and left right).outermostOperators
      rw [outermostOperators_and, ← ihLeft, ← ihRight]
      rfl
  | unsupported operator operand => rw [outermostOperators_unsupported, evaluate]

theorem evaluate_eq_of_agreeOn {condition : Condition} {first second : Symbols}
    (h : Symbols.AgreeOn condition.liveNames first second) :
    condition.evaluate first = condition.evaluate second := by
  induction condition with
  | symbol name =>
      have hname := h name (List.mem_singleton_self name)
      rw [evaluate, evaluate, hname]
  | not operand ih => rw [evaluate, evaluate, ih h]
  | and left right ihLeft ihRight | or left right ihLeft ihRight =>
      change Symbols.AgreeOn (and left right).liveNames first second at h
      rw [liveNames_and, Symbols.agreeOn_append] at h
      rw [evaluate, evaluate, ihLeft h.1, ihRight h.2]
  | unsupported operator operand => rw [evaluate, evaluate]

end Condition

/-! ## Whole documents -/

def Mark.liveNames : Mark → List String
  | .start _ (some condition) _ => condition.liveNames
  | _ => []

def liveNames (source : String) : List String :=
  match Document.parse source with
  | .ok document => (marks document.content).flatMap Mark.liveNames
  | .error _ => []

namespace Selection

variable {first second : Symbols}

theorem evaluate_eq_of_agreeOn {kind : BranchKind} {condition? : Option Condition}
    {body : List Node} {line : Nat}
    (h : Symbols.AgreeOn (Mark.start kind condition? line).liveNames first second) :
    Branch.evaluate first ⟨kind, condition?, body, line⟩ =
      Branch.evaluate second ⟨kind, condition?, body, line⟩ := by
  cases condition? with
  | none => rfl
  | some condition => exact Condition.evaluate_eq_of_agreeOn h

mutual

theorem nodeSteps_eq_of_agreeOn (nodes : List Node)
    (h : Symbols.AgreeOn ((marks nodes).flatMap Mark.liveNames) first second) :
    nodeSteps first nodes = nodeSteps second nodes := by
  match nodes with
  | [] => rw [nodeSteps, nodeSteps]
  | .leaf text line :: rest =>
      rw [marks] at h
      rw [nodeSteps, nodeSteps, nodeSteps_eq_of_agreeOn rest h]
  | .block branches :: rest =>
      rw [marks, List.flatMap_append, Symbols.agreeOn_append] at h
      rw [nodeSteps, nodeSteps, branchSteps_eq_of_agreeOn _ branches h.1,
        nodeSteps_eq_of_agreeOn rest h.2]

theorem branchSteps_eq_of_agreeOn (line : Nat) (branches : List Branch)
    (h : Symbols.AgreeOn ((branchMarks branches).flatMap Mark.liveNames) first second) :
    branchSteps first line branches = branchSteps second line branches := by
  match branches with
  | [] => rw [branchSteps, branchSteps]
  | ⟨kind, condition?, body, branchLine⟩ :: rest =>
      rw [branchMarks, List.cons_append, List.flatMap_cons, List.flatMap_append,
        Symbols.agreeOn_append, Symbols.agreeOn_append] at h
      rw [branchSteps, branchSteps, evaluate_eq_of_agreeOn h.1,
        nodeSteps_eq_of_agreeOn body h.2.1, branchSteps_eq_of_agreeOn line rest h.2.2]

end

end Selection

theorem process_eq_of_live {options : Options} {source : String} {first second : Symbols}
    (h : Symbols.AgreeOn (liveNames source) first second) :
    process options first source = process options second source := by
  by_cases hempty : source = ""
  · rw [hempty, process_empty, process_empty]
  · rw [process_of_ne_empty hempty, process_of_ne_empty hempty]
    unfold liveNames at h
    cases hparse : Document.parse source with
    | error fault => rfl
    | ok document =>
        rw [hparse] at h
        have hselect : document.select first options.policy =
            document.select second options.policy := by
          rw [Document.select, Document.select, Selection.steps_eq, Selection.steps_eq,
            Selection.nodeSteps_eq_of_agreeOn _ h]
        simp only [bind, Except.bind, hselect]

/-- Two sets of symbols that agree on the live names of a text give the same run, be it an
output or a fault.  Which operators without a meaning a condition reports does not depend
on the symbols: they are those that stand in the operand of no other, from left to right. -/
theorem process_eq_of_agreeOn (options : Options) (source : String) (first second : Symbols) :
    (Symbols.AgreeOn (liveNames source) first second →
      process options first source = process options second source) ∧
    ∀ (condition : Condition) (symbols : Symbols),
      (condition.evaluate symbols).unsupported = condition.outermostOperators :=
  ⟨process_eq_of_live, fun condition symbols => condition.unsupported_evaluate symbols⟩

theorem process_eq_of_agreeOn_operand :
    Symbols.AgreeOn (liveNames "/*#if A && !-B*/\nx\n/*#elif ~(A || B)*/\ny\n/*#endif*/\n")
      (.ofNames ["A"]) (.ofNames ["A", "B"]) ∧
    process {} (.ofNames ["A"]) "/*#if A && !-B*/\nx\n/*#elif ~(A || B)*/\ny\n/*#endif*/\n" =
      process {} (.ofNames ["A", "B"])
        "/*#if A && !-B*/\nx\n/*#elif ~(A || B)*/\ny\n/*#endif*/\n" := by
  have h : Symbols.AgreeOn
      (liveNames "/*#if A && !-B*/\nx\n/*#elif ~(A || B)*/\ny\n/*#endif*/\n")
      (.ofNames ["A"]) (.ofNames ["A", "B"]) := by
    unfold Symbols.AgreeOn
    decide +kernel
  exact ⟨h, (process_eq_of_agreeOn {} _ _ _).1 h⟩

/-! ## Names that decide something -/

/-- Some text comes out differently with the symbol and without it. -/
def Matters (name : String) : Prop :=
  ∃ (source : String) (symbols : Symbols),
    preprocess (symbols.define [name]) source ≠ preprocess (symbols.erase name) source

def probe (name : String) : String :=
  String.ofList (Directive.writeBlock 1 0 "if" name ++ "\nx\n/*#endif*/\n".toList)

theorem toList_probe (name : String) :
    (probe name).toList =
      Directive.writeBlock 1 0 "if" name ++ (Terminator.lf.mark ++ "x\n/*#endif*/".toList) ++
        Terminator.lf.mark := by
  simp [probe, Terminator.mark]

theorem detect?_probe (name : String) :
    Terminator.detect? (probe name).toList = some .lf :=
  Terminator.detect?_eq_some_iff.mpr ⟨_, toList_probe name, by simp [Terminator.mark]⟩

theorem parse_of_isName {name : String} (h : isName name) :
    Condition.parse name = .ok (.symbol name) := by
  have hprint := Condition.parse_print_of_writable (Condition.writable_symbol.mpr h)
  simpa [Condition.print, Condition.writeAt] using hprint

theorem ofText_probe {name : String} (h : isName name) :
    ∃ opening line closing, Statement.ofText (Terminator.strip (probe name).toList) =
        .ok [.directive opening, .plain "x" line, .directive closing] ∧
      (Mark.start .ifTrue (some (.symbol name)) 1).Matches (.directive opening) ∧
      closing.kind = .finish := by
  have hread := parse_of_isName h
  have hopening := Directive.ofText_writeBlock (by decide : ("if", .ifTrue) ∈ _) hread 0 0
  have hreturn : Terminator.lf = .lf →
      (Directive.writeBlock 1 0 "if" name).getLast? ≠ some '\r' := by
    rw [Directive.writeBlock, List.getLast?_append]
    simp
  have hclosing : Statement.ofText "x\n/*#endif*/".toList = .ok [.plain "x" 1,
      .directive ⟨.finish, none, "/*#endif*/", 2, .block⟩] := by
    decide +kernel
  rw [toList_probe, Terminator.strip_append_mark (by simp [Terminator.mark]),
    Statement.ofText_append hreturn hopening, hclosing]
  exact ⟨_, _, _, rfl, ⟨rfl, rfl, _, _, rfl, Condition.parse_trim hread, rfl⟩, rfl⟩

theorem parse_probe {name : String} (h : isName name) :
    ∃ line, Document.parse (probe name) =
      .ok ⟨[.block [⟨.ifTrue, some (.symbol name), [.leaf "x" line], 1⟩]]⟩ := by
  obtain ⟨opening, line, closing, hstatements, hopening, hclosing⟩ := ofText_probe h
  refine ⟨line, bind_eq_ok_iff.mpr ⟨_, hstatements, ?_⟩⟩
  apply Document.ofStatements_of_isReadingOf
  refine ⟨?_, ?_, ?_⟩
  · simp [WellFormed, WellFormedBranches, inOrder_ifTrue, BranchKind.takesCondition]
  · simp [Document.maxDepth, depth, branchDepth]
  · simp only [marks, branchMarks, List.cons_append, List.nil_append]
    exact .cons hopening (.cons ⟨rfl, rfl⟩ (.cons hclosing .nil))

theorem preprocess_probe {name : String} (h : isName name) (symbols : Symbols) :
    preprocess symbols (probe name) = .ok (if symbols.contains name then "x\n" else "") := by
  obtain ⟨line, hparse⟩ := parse_probe h
  have hselect : Document.select
      ⟨[.block [⟨.ifTrue, some (.symbol name), [.leaf "x" line], 1⟩]]⟩ symbols .warn =
        .ok ⟨if symbols.contains name then ["x"] else [], []⟩ := by
    rw [Selection.select_eq_selectNodes]
    simp only [Selection.selectNodes, Selection.selectBranches,
      Condition.evaluate, Selection.report]
    cases symbols.contains name <;> rfl
  rw [preprocess, process_of_detect? (detect?_probe name), hparse]
  change Output.text <$> (do
    let selection ← Document.select _ symbols .warn
    return ⟨Terminator.lf.render selection.lines, .lf, selection.diagnostics⟩) = _
  rw [hselect]
  cases symbols.contains name <;> rfl

theorem agreeOn_of_not_mem {names : List String} {name : String} (h : name ∉ names)
    (symbols : Symbols) :
    Symbols.AgreeOn names (symbols.define [name]) (symbols.erase name) := by
  intro other hother
  have hne : name ≠ other := by
    rintro rfl
    exact h hother
  have hdefine : (symbols.define [name]).contains other = symbols.contains other := by
    simp [Symbols.define, hne]
  have herase : (symbols.erase name).contains other = symbols.contains other := by
    simp [Std.TreeSet.contains_erase, hne]
  rw [hdefine, herase]

theorem Mark.Matches.isName_of_mem {mark : Mark} {statement : Statement}
    (h : mark.Matches statement) {name : String} (hname : name ∈ mark.liveNames) :
    isName name := by
  cases mark with
  | plain | finish => contradiction
  | start kind condition? line =>
      cases condition? with
      | none => contradiction
      | some condition =>
          exact (h.writable condition rfl).names name (condition.liveNames_subset_names hname)

theorem isName_of_mem_liveNames {source name : String} (h : name ∈ liveNames source) :
    isName name := by
  unfold liveNames at h
  split at h
  · rename_i document hparse
    obtain ⟨statements, -, hassembly⟩ := bind_eq_ok_iff.mp hparse
    obtain ⟨mark, hmark, hname⟩ := List.mem_flatMap.mp h
    have hreading := Document.isReadingOf_of_ofStatements hassembly
    obtain ⟨statement, -, hmatch⟩ := exists_of_forall₂_of_mem hreading.inStep hmark
    exact hmatch.isName_of_mem hname
  · contradiction

/-- A name is valid exactly if it matters for some text.  So the invalid names of a set
are those of its names that matter for none. -/
theorem isName_iff_matters (name : String) :
    (isName name ↔ Matters name) ∧
      ∀ symbols : Symbols, name ∈ symbols.invalidNames ↔ name ∈ symbols ∧ ¬Matters name := by
  have hvalid : isName name ↔ Matters name := by
    constructor
    · intro h
      refine ⟨probe name, .ofNames [], ?_⟩
      rw [preprocess_probe h, preprocess_probe h]
      simp [Symbols.define, Std.TreeSet.contains_erase]
    · rintro ⟨source, symbols, hdiffer⟩
      by_contra hinvalid
      apply hdiffer
      have hlive : name ∉ liveNames source := fun hmem => hinvalid (isName_of_mem_liveNames hmem)
      rw [preprocess, preprocess, process_eq_of_live (agreeOn_of_not_mem hlive symbols)]
  refine ⟨hvalid, ?_⟩
  intro symbols
  rw [Symbols.invalidNames, List.mem_filter, Std.TreeSet.mem_toList, ← hvalid]
  simp

end GuardedText
