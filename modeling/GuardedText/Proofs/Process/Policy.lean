import GuardedText.Process
import GuardedText.Proofs.Run
import GuardedText.Proofs.Selection.Structural

/-!
# Warning and refusing

Operators without a meaning are warnings under one policy and end the run under the
other.  A run that may end is read here as a recursion over the document that
evaluates one condition after the other and stops where it has to.  Selecting the
lines of a document is this recursion under both policies, so a run that refuses
stops at the first operator that the other run warns about.
-/

namespace GuardedText

open GuardedText.Text

namespace Selection

/-! ## A selection that stops -/

def report (policy : Policy) (line : Nat) :
    List String → Except Fault (List Diagnostic)
  | [] => .ok []
  | operator :: rest =>
    match policy with
    | .deny => .error (.unsupportedOperator line operator)
    | .warn => do
      let later ← report policy line rest
      return ⟨line, operator⟩ :: later

mutual

def selectNodes (symbols : Symbols) (policy : Policy) :
    List Node → Except Fault Selection
  | [] => .ok ⟨[], []⟩
  | .leaf text _ :: rest => do
    let later ← selectNodes symbols policy rest
    return ⟨text :: later.lines, later.diagnostics⟩
  | .block branches :: rest => do
    let chosen ← selectBranches symbols policy branches
    let later ← selectNodes symbols policy rest
    return ⟨chosen.lines ++ later.lines, chosen.diagnostics ++ later.diagnostics⟩

def selectBranches (symbols : Symbols) (policy : Policy) :
    List Branch → Except Fault Selection
  | [] => .ok ⟨[], []⟩
  | ⟨_, none, body, _⟩ :: _ => selectNodes symbols policy body
  | ⟨_, some condition, body, line⟩ :: rest => do
    let evaluation := condition.evaluate symbols
    let reports ← report policy line evaluation.unsupported
    let chosen ←
      if evaluation.value then selectNodes symbols policy body
      else selectBranches symbols policy rest
    return ⟨chosen.lines, reports ++ chosen.diagnostics⟩

end

theorem selectBranches_cons (symbols : Symbols) (policy : Policy) (kind : BranchKind)
    (condition? : Option Condition) (body : List Node) (line : Nat) (rest : List Branch) :
    selectBranches symbols policy (⟨kind, condition?, body, line⟩ :: rest) = do
      let reports ← report policy line
        (Branch.evaluate symbols ⟨kind, condition?, body, line⟩).unsupported
      let chosen ←
        if (Branch.evaluate symbols ⟨kind, condition?, body, line⟩).value then
          selectNodes symbols policy body
        else selectBranches symbols policy rest
      return ⟨chosen.lines, reports ++ chosen.diagnostics⟩ := by
  cases condition? with
  | none =>
      rw [selectBranches]
      cases selectNodes symbols policy body <;> rfl
  | some condition =>
      rw [selectBranches]
      rfl

/-! ## Judging step by step -/

theorem judge_warn (steps : List Step) :
    judge .warn steps = .ok ⟨kept steps, warnings steps⟩ := rfl

theorem judge_append (policy : Policy) (first second : List Step) :
    judge policy (first ++ second) = do
      let earlier ← judge policy first
      let later ← judge policy second
      return ⟨earlier.lines ++ later.lines, earlier.diagnostics ++ later.diagnostics⟩ := by
  cases policy with
  | warn =>
      simp only [judge_warn, kept_append, warnings_append]
      rfl
  | deny =>
      simp only [judge, kept_append, warnings_append]
      cases warnings first with
      | cons warning rest => rfl
      | nil => cases warnings second <;> rfl

theorem judge_keep (policy : Policy) (text : String) (steps : List Step) :
    judge policy (.keep text :: steps) = do
      let later ← judge policy steps
      return ⟨text :: later.lines, later.diagnostics⟩ := by
  have hkeep : judge policy [.keep text] = .ok ⟨[text], []⟩ := by cases policy <;> rfl
  rw [← List.singleton_append, judge_append, hkeep]
  rfl

theorem judge_taken (policy : Policy) (line : Nat) (kind : BranchKind) (steps : List Step) :
    judge policy (.taken line kind :: steps) = judge policy steps := rfl

theorem judge_reports (policy : Policy) (line : Nat) (operators : List String) :
    judge policy (operators.map (.unsupported line)) = do
      let reports ← report policy line operators
      return ⟨[], reports⟩ := by
  cases policy with
  | warn =>
      have hreport : report .warn line operators = .ok (operators.map (⟨line, ·⟩)) := by
        induction operators with
        | nil => rfl
        | cons operator rest ih =>
            simp only [report, ih]
            rfl
      rw [judge_warn, kept_reports, warnings_reports, hreport]
      rfl
  | deny => cases operators <;> rfl

mutual

theorem judge_nodeSteps (symbols : Symbols) (policy : Policy) (nodes : List Node) :
    judge policy (nodeSteps symbols nodes) = selectNodes symbols policy nodes := by
  match nodes with
  | [] =>
      rw [nodeSteps, selectNodes]
      cases policy <;> rfl
  | .leaf text line :: rest =>
      rw [nodeSteps, selectNodes, judge_keep, judge_nodeSteps symbols policy rest]
  | .block branches :: rest =>
      rw [nodeSteps, selectNodes, judge_append, judge_nodeSteps symbols policy rest,
        judge_branchSteps symbols policy _ branches]

theorem judge_branchSteps (symbols : Symbols) (policy : Policy) (line : Nat)
    (branches : List Branch) :
    judge policy (branchSteps symbols line branches) =
      selectBranches symbols policy branches := by
  match branches with
  | [] =>
      rw [branchSteps, selectBranches]
      cases policy <;> rfl
  | ⟨kind, condition?, body, branchLine⟩ :: rest =>
      have hbody := judge_nodeSteps symbols policy body
      have hrest := judge_branchSteps symbols policy line rest
      simp only [branchSteps, selectBranches_cons, judge_append, judge_reports]
      generalize Branch.evaluate symbols ⟨kind, condition?, body, branchLine⟩ = evaluation
      cases report policy branchLine evaluation.unsupported with
      | error fault => rfl
      | ok reports =>
          cases evaluation.value with
          | true =>
              rw [if_pos rfl, judge_taken, hbody]
              rfl
          | false =>
              rw [if_neg (by simp), hrest]
              rfl

end

theorem select_eq_selectNodes (document : Document) (symbols : Symbols) (policy : Policy) :
    document.select symbols policy = selectNodes symbols policy document.content := by
  rw [Document.select, steps_eq, judge_nodeSteps]

end Selection

/-! ## Two runs -/

theorem process_of_ne_empty {source : String} (h : source ≠ "") (options : Options)
    (symbols : Symbols) :
    process options symbols source = do
      let document ← Document.parse source
      let selection ← document.select symbols options.policy
      return ⟨(options.terminator source).render selection.lines,
        options.terminator source, selection.diagnostics⟩ := by
  have hlines : source.toList.isEmpty = false := by simpa using h
  rw [process, hlines, if_neg (by simp)]

theorem process_empty (options : Options) (symbols : Symbols) :
    process options symbols "" = .ok ⟨"", options.terminator "", []⟩ := rfl

theorem parse_empty : Document.parse "" = .ok ⟨[.leaf "" 1]⟩ := rfl

theorem process_warn_eq_error_iff {fallback : Terminator.Fallback} {symbols : Symbols}
    {source : String} {fault : Fault} :
    process ⟨.warn, fallback⟩ symbols source = .error fault ↔
      Document.parse source = .error fault := by
  by_cases hempty : source = ""
  · subst hempty
    rw [process_empty, parse_empty]
    simp
  · rw [process_of_ne_empty hempty]
    cases Document.parse source with
    | error found => simp [bind, Except.bind]
    | ok document =>
        simp only [Document.select, Selection.judge_warn]
        constructor <;> intro h <;> contradiction

def Output.refuse (output : Output) : Except Fault Output :=
  match output.diagnostics with
  | [] => .ok output
  | first :: _ => .error (.unsupportedOperator first.line first.operator)

theorem process_deny_eq_refuse (fallback : Terminator.Fallback) (symbols : Symbols)
    (source : String) :
    process ⟨.deny, fallback⟩ symbols source =
      process ⟨.warn, fallback⟩ symbols source >>= Output.refuse := by
  by_cases hempty : source = ""
  · subst hempty
    rfl
  · rw [process_of_ne_empty hempty, process_of_ne_empty hempty]
    cases Document.parse source with
    | error fault => rfl
    | ok document =>
        simp only [bind, Except.bind, Document.select, Selection.judge]
        cases Selection.warnings (document.steps symbols) <;> rfl

/-- A run that warns fails exactly where the text is no document, whatever symbols are
defined.  A run that refuses then fails in the same way; otherwise it gives the output
of the run that warns, if there was nothing to warn about, or fails with the first
operator that was warned about.  Under either policy the lines are selected by going
through the document and stopping at the first operator that is refused. -/
theorem process_deny_of_warn (fallback : Terminator.Fallback) (symbols : Symbols)
    (source : String) :
    (∀ (others : Symbols) (fault : Fault),
      process ⟨.warn, fallback⟩ others source = .error fault ↔
        Document.parse source = .error fault) ∧
    (∀ fault, Document.parse source = .error fault →
      process ⟨.deny, fallback⟩ symbols source = .error fault) ∧
    (∀ output, process ⟨.warn, fallback⟩ symbols source = .ok output →
      (output.diagnostics = [] →
        process ⟨.deny, fallback⟩ symbols source = .ok output) ∧
      ∀ first rest, output.diagnostics = first :: rest →
        process ⟨.deny, fallback⟩ symbols source =
          .error (.unsupportedOperator first.line first.operator)) ∧
    ∀ (policy : Policy) (document : Document), Document.parse source = .ok document →
      document.select symbols policy =
        Selection.selectNodes symbols policy document.content := by
  have hdeny := process_deny_eq_refuse fallback symbols source
  refine ⟨fun others fault => process_warn_eq_error_iff, ?_, ?_, ?_⟩
  · intro fault hparse
    rw [hdeny, process_warn_eq_error_iff.mpr hparse]
    rfl
  · intro output hwarn
    rw [hwarn] at hdeny
    constructor
    · intro hnone
      rw [hdeny]
      simp [bind, Except.bind, Output.refuse, hnone]
    · intro first rest hsome
      rw [hdeny]
      simp [bind, Except.bind, Output.refuse, hsome]
  · intro policy document _
    exact Selection.select_eq_selectNodes document symbols policy

theorem process_deny_of_warn_nested :
    process ⟨.warn, .platform⟩ (.ofNames ["A"])
        "a\n/*#if -A*/\n/*#elif A*/\n<!--#if +B-->\n<!--#endif-->\n/*#endif*/\n" =
      .ok ⟨"a\n", .lf, [⟨2, "-"⟩, ⟨4, "+"⟩]⟩ ∧
    process ⟨.deny, .platform⟩ (.ofNames ["A"])
        "a\n/*#if -A*/\n/*#elif A*/\n<!--#if +B-->\n<!--#endif-->\n/*#endif*/\n" =
      .error (.unsupportedOperator 2 "-") :=
  have h := eq_ok_of_toOption (by decide +kernel)
  ⟨h, ((process_deny_of_warn .platform (.ofNames ["A"]) _).2.2.1 _ h).2 _ _ rfl⟩

end GuardedText
