import GuardedText.Proofs.Document.Assembly
import GuardedText.Proofs.Process.Policy
import GuardedText.Proofs.Text.Lines

/-!
# One text after another

A text that ends in its terminator leaves nothing open, if it can be processed at all:
no comment, no block and no part of a line.  A second text behind it is then read as it
is read alone, only further down.  Every reader on the way is shown to keep to this, a
step at a time and then for a whole run: what it makes of things further down is what
it makes of them where they are, moved down by as many lines, faults included.
-/

namespace GuardedText

open GuardedText.Text

def Fault.later (count : Nat) : Fault → Fault
  | .strayEnd line => .strayEnd (line + count)
  | .strayBranch line kind => .strayBranch (line + count) kind
  | .branchAfterElse line kind => .branchAfterElse (line + count) kind
  | .openBlock line => .openBlock (line + count)
  | .openDirective line => .openDirective (line + count)
  | .tooDeep line limit => .tooDeep (line + count) limit
  | .condition line cause => .condition (line + count) cause
  | .unsupportedOperator line operator => .unsupportedOperator (line + count) operator

def Diagnostic.later (count : Nat) (diagnostic : Diagnostic) : Diagnostic :=
  { diagnostic with line := diagnostic.line + count }

section Outcome

variable {α β α' β' : Type} {count : Nat}

/-- An outcome further down: its fault is at a later line, its value is what `move`
makes of it. -/
def laterOutcome (count : Nat) (move : α → α') : Except Fault α → Except Fault α'
  | .ok value => .ok (move value)
  | .error fault => .error (fault.later count)

theorem laterOutcome_bind {move : α → α'} {moveNext : β → β'} {next : α → Except Fault β}
    {next' : α' → Except Fault β'}
    (h : ∀ value, next' (move value) = laterOutcome count moveNext (next value))
    (outcome : Except Fault α) :
    laterOutcome count move outcome >>= next' =
      laterOutcome count moveNext (outcome >>= next) := by
  cases outcome with
  | error fault => rfl
  | ok value => exact h value

theorem foldlM_later {step : β → α → Except Fault β} {move : β → β} {moveItem : α → α}
    (h : ∀ state item,
      step (move state) (moveItem item) = laterOutcome count move (step state item))
    (items : List α) (state : β) :
    (items.map moveItem).foldlM step (move state) =
      laterOutcome count move (items.foldlM step state) := by
  induction items generalizing state with
  | nil => rfl
  | cons item items ih =>
      rw [List.map_cons, List.foldlM_cons, List.foldlM_cons, h]
      exact laterOutcome_bind ih _

end Outcome

/-! ## Statements -/

def Directive.later (count : Nat) (directive : Directive) : Directive :=
  { directive with line := directive.line + count }

namespace Statement

def later (count : Nat) : Statement → Statement
  | .plain text line => .plain text (line + count)
  | .directive found => .directive (found.later count)

namespace Pending

def later (count : Nat) (pending : Pending) : Pending :=
  { pending with line := pending.line + count }

theorem close_later (count : Nat) (pending : Pending) (body source : List Char) :
    (pending.later count).close body source =
      laterOutcome count (Directive.later count) (pending.close body source) := by
  simp only [close, later, apply_ite (laterOutcome count (Directive.later count))]
  rfl

end Pending

def laterResult (count : Nat) (result : Option Pending × Option Statement) :
    Option Pending × Option Statement :=
  (result.1.map (Pending.later count), result.2.map (later count))

theorem Pending.advance_later (count bytes : Nat) (pending : Pending) (body : List Lexeme)
    (line : Line) :
    (pending.later count).advance body (line.later count bytes) =
      laterOutcome count (laterResult count) (pending.advance body line) := by
  have hstyle : (pending.later count).style = pending.style := rfl
  unfold advance
  rw [hstyle]
  cases pending.style.beforeCloser? body with
  | none => rfl
  | some inner =>
      simp only [close_later]
      apply laterOutcome_bind
      intro directive
      rfl

theorem step_later (count bytes : Nat) (pending? : Option Pending) (line : Line) :
    step (pending?.map (Pending.later count)) (line.later count bytes) =
      laterOutcome count (laterResult count) (step pending? line) := by
  have hlexemes : (line.later count bytes).lexemes = line.lexemes := rfl
  cases pending? with
  | none =>
      simp only [step, Option.map_none, hlexemes]
      cases hhead : Directive.Head.find? line.lexemes with
      | none => rfl
      | some head =>
          obtain ⟨style, kind, body⟩ := head
          cases kind with
          | finish => rfl
          | start branch =>
              exact Pending.advance_later count bytes ⟨line.number, style, branch, [], []⟩
                body line
  | some pending =>
      simp only [step, Option.map_some, hlexemes]
      cases hhead : Directive.Head.find? line.lexemes with
      | none => exact Pending.advance_later count bytes pending line.lexemes line
      | some head => rfl

theorem ofLines_later (count bytes : Nat) (pending? : Option Pending) (lines : List Line) :
    ofLines (pending?.map (Pending.later count)) (lines.map (Line.later count bytes)) =
      laterOutcome count (List.map (later count)) (ofLines pending? lines) := by
  induction lines generalizing pending? with
  | nil => cases pending? <;> rfl
  | cons line lines ih =>
      rw [List.map_cons, ofLines, ofLines, step_later]
      apply laterOutcome_bind
      rintro ⟨next?, statement?⟩
      simp only [laterResult, ih]
      apply laterOutcome_bind
      intro statements
      cases statement? <;> rfl

theorem Pending.advance_terminator {pending : Pending} {body : List Lexeme} {line : Line}
    {statement? : Option Statement} (h : pending.advance body line = .ok (none, statement?))
    (terminator : List Char) :
    pending.advance body { line with terminator := terminator } = .ok (none, statement?) := by
  unfold advance at h ⊢
  split at h
  · exact h
  · cases h

theorem step_terminator {pending? : Option Pending} {line : Line}
    {statement? : Option Statement} (h : step pending? line = .ok (none, statement?))
    (terminator : List Char) :
    step pending? { line with terminator := terminator } = .ok (none, statement?) := by
  cases pending? with
  | none =>
      simp only [step] at h ⊢
      cases hhead : Directive.Head.find? line.lexemes with
      | none =>
          rw [hhead] at h
          exact h
      | some head =>
          obtain ⟨style, kind, body⟩ := head
          rw [hhead] at h
          cases kind with
          | finish => exact h
          | start branch => exact Pending.advance_terminator h terminator
  | some pending =>
      simp only [step] at h ⊢
      cases hhead : Directive.Head.find? line.lexemes with
      | none =>
          rw [hhead] at h
          exact Pending.advance_terminator h terminator
      | some head =>
          rw [hhead] at h
          cases h

theorem ofLines_append {pending? : Option Pending} {init : List Line} {last : Line}
    {statements : List Statement} (h : ofLines pending? (init ++ [last]) = .ok statements)
    (terminator : List Char) (rest : List Line) :
    ofLines pending? (init ++ { last with terminator := terminator } :: rest) = do
      let others ← ofLines none rest
      return statements ++ others := by
  induction init generalizing pending? statements with
  | nil =>
      rw [List.nil_append, ofLines, bind_eq_ok_iff] at h
      obtain ⟨⟨next?, statement?⟩, hstep, hlast⟩ := h
      cases next? with
      | some pending => cases hlast
      | none =>
          cases hlast
          rw [List.nil_append, ofLines, step_terminator hstep terminator, List.append_nil]
          rfl
  | cons line init ih =>
      rw [List.cons_append, ofLines, bind_eq_ok_iff] at h
      obtain ⟨⟨next?, statement?⟩, hstep, hrest⟩ := h
      obtain ⟨others, hothers, hjoined⟩ := bind_eq_ok_iff.mp hrest
      cases hjoined
      rw [List.cons_append, ofLines, hstep]
      change (do
        let later ← ofLines next? (init ++ { last with terminator := terminator } :: rest)
        return statement?.toList ++ later) = _
      rw [ih hothers]
      simp only [bind_assoc, pure_bind, List.append_assoc]

theorem ofText_append {text : List Char} {terminator : Terminator}
    {statements : List Statement} (hreturn : terminator = .lf → text.getLast? ≠ some '\r')
    (h : ofText text = .ok statements) (rest : List Char) :
    ofText (text ++ (terminator.mark ++ rest)) =
      laterOutcome ((text ++ terminator.mark).count '\n')
        (fun others => statements ++
          others.map (later ((text ++ terminator.mark).count '\n')))
        (ofText rest) := by
  obtain ⟨init, last, hlines, hjoined⟩ := Line.exists_ofText_append hreturn
  have hcount : init.length + 1 = (text ++ terminator.mark).count '\n' := by
    have hlength := Line.length_ofText text
    have hmark : terminator.mark.count '\n' = 1 := by cases terminator <;> rfl
    rw [hlines] at hlength
    simpa [hmark] using hlength
  rw [ofText, hlines] at h
  rw [ofText, hjoined, ofLines_append h, hcount, ← Option.map_none, ofLines_later, ofText]
  cases ofLines none (Line.ofText rest) <;> rfl

end Statement

/-! ## Documents -/

mutual

def laterNodes (count : Nat) : List Node → List Node
  | [] => []
  | .leaf text line :: rest => .leaf text (line + count) :: laterNodes count rest
  | .block branches :: rest =>
    .block (laterBranches count branches) :: laterNodes count rest

def laterBranches (count : Nat) : List Branch → List Branch
  | [] => []
  | ⟨kind, condition?, body, line⟩ :: rest =>
    ⟨kind, condition?, laterNodes count body, line + count⟩ :: laterBranches count rest

end

def Node.later (count : Nat) : Node → Node
  | .leaf text line => .leaf text (line + count)
  | .block branches => .block (laterBranches count branches)

def Branch.later (count : Nat) (branch : Branch) : Branch :=
  ⟨branch.kind, branch.condition?, laterNodes count branch.body, branch.line + count⟩

theorem laterNodes_eq_map (count : Nat) (nodes : List Node) :
    laterNodes count nodes = nodes.map (Node.later count) := by
  induction nodes with
  | nil => rw [laterNodes, List.map_nil]
  | cons node rest ih =>
      cases node <;> rw [laterNodes, ih, List.map_cons, Node.later]

theorem laterBranches_eq_map (count : Nat) (branches : List Branch) :
    laterBranches count branches = branches.map (Branch.later count) := by
  induction branches with
  | nil => rw [laterBranches, List.map_nil]
  | cons branch rest ih =>
      obtain ⟨kind, condition?, body, line⟩ := branch
      rw [laterBranches, ih, List.map_cons, Branch.later]

def OpenBranch.later (count : Nat) (branch : OpenBranch) : OpenBranch :=
  ⟨branch.kind, branch.condition?, branch.line + count, laterNodes count branch.body⟩

def OpenBlock.later (count : Nat) (block : OpenBlock) : OpenBlock :=
  ⟨block.line + count, laterBranches count block.earlier, block.current.later count⟩

theorem OpenBranch.close_later (count : Nat) (branch : OpenBranch) :
    (branch.later count).close = branch.close.later count := by
  simp [close, later, Branch.later, laterNodes_eq_map]

theorem OpenBranch.later_fresh (count : Nat) (kind : BranchKind)
    (condition? : Option Condition) (line : Nat) :
    later count ⟨kind, condition?, line, []⟩ = ⟨kind, condition?, line + count, []⟩ := by
  rw [later, laterNodes]

theorem OpenBlock.continueWith_later (count : Nat) (block : OpenBlock) (branch : OpenBranch) :
    (block.later count).continueWith (branch.later count) =
      (block.continueWith branch).later count := by
  simp [continueWith, later, OpenBranch.close_later, laterBranches_eq_map]

theorem OpenBlock.close_later (count : Nat) (block : OpenBlock) :
    (block.later count).close = block.close.later count := by
  simp [close, later, Node.later, OpenBranch.close_later, laterBranches_eq_map]

namespace Assembly

def later (count : Nat) (nodes : List Node) (assembly : Assembly) : Assembly :=
  ⟨laterNodes count assembly.content ++ nodes, assembly.blocks.map (OpenBlock.later count)⟩

theorem push_later (count : Nat) (nodes : List Node) (node : Node) (assembly : Assembly) :
    (assembly.later count nodes).push (node.later count) =
      (assembly.push node).later count nodes := by
  obtain ⟨content, blocks⟩ := assembly
  cases blocks with
  | nil => simp [later, push, laterNodes_eq_map]
  | cons block outer =>
      simp [later, push, OpenBlock.later, OpenBlock.push, OpenBranch.later, laterNodes_eq_map]

theorem readCondition_later (count : Nat) (directive : Directive) :
    readCondition (directive.later count) =
      laterOutcome count id (readCondition directive) := by
  simp only [readCondition, Directive.later]
  cases directive.condition? with
  | none => rfl
  | some text =>
      simp only
      cases Condition.parse text <;> rfl

theorem start_later (count : Nat) (nodes : List Node) (directive : Directive)
    (assembly : Assembly) :
    (assembly.later count nodes).start (directive.later count) =
      laterOutcome count (later count nodes) (assembly.start directive) := by
  have hlength : (assembly.later count nodes).blocks.length = assembly.blocks.length := by
    simp [later]
  rw [start, start, hlength, apply_ite (laterOutcome count (later count nodes))]
  congr 1
  rw [readCondition_later]
  apply laterOutcome_bind
  intro condition
  simp [laterOutcome, later, OpenBlock.later, OpenBranch.later_fresh, laterBranches,
    Directive.later, pure, Except.pure]

theorem branchCondition_later (count : Nat) (kind : BranchKind) (directive : Directive) :
    branchCondition kind (directive.later count) =
      laterOutcome count id (branchCondition kind directive) := by
  unfold branchCondition
  rw [readCondition_later]
  cases kind.takesCondition with
  | false => rfl
  | true => cases readCondition directive <;> rfl

theorem alternative_later (count : Nat) (nodes : List Node) (kind : BranchKind)
    (directive : Directive) (assembly : Assembly) :
    (assembly.later count nodes).alternative kind (directive.later count) =
      laterOutcome count (later count nodes) (assembly.alternative kind directive) := by
  obtain ⟨content, blocks⟩ := assembly
  cases blocks with
  | nil => rfl
  | cons block outer =>
      have hblocks : later count nodes ⟨content, block :: outer⟩ =
          ⟨laterNodes count content ++ nodes,
            block.later count :: outer.map (OpenBlock.later count)⟩ := rfl
      rw [hblocks, alternative_cons, alternative_cons, branchCondition_later]
      apply laterOutcome_bind
      intro condition?
      rw [apply_ite (laterOutcome count (later count nodes))]
      congr 1
      have hblock := block.continueWith_later count ⟨kind, condition?, directive.line, []⟩
      rw [OpenBranch.later_fresh] at hblock
      simp [laterOutcome, later, ← hblock, Directive.later, pure, Except.pure]

theorem finish_later (count : Nat) (nodes : List Node) (directive : Directive)
    (assembly : Assembly) :
    (assembly.later count nodes).finish (directive.later count) =
      laterOutcome count (later count nodes) (assembly.finish directive) := by
  obtain ⟨content, blocks⟩ := assembly
  cases blocks with
  | nil => rfl
  | cons block outer =>
      have hpush := push_later count nodes block.close ⟨content, outer⟩
      rw [← OpenBlock.close_later] at hpush
      exact congrArg Except.ok hpush

theorem step_later (count : Nat) (nodes : List Node) (assembly : Assembly)
    (statement : Statement) :
    (assembly.later count nodes).step (statement.later count) =
      laterOutcome count (later count nodes) (assembly.step statement) := by
  cases statement with
  | plain text line =>
      exact congrArg Except.ok (push_later count nodes (.leaf text line) assembly)
  | directive found =>
      obtain ⟨kind, condition?, source, line, style⟩ := found
      cases kind with
      | finish => exact finish_later count nodes _ assembly
      | start branch =>
          cases branch with
          | ifTrue => exact start_later count nodes _ assembly
          | elseIf => exact alternative_later count nodes .elseIf _ assembly
          | otherwise => exact alternative_later count nodes .otherwise _ assembly

theorem toDocument_later (count : Nat) (nodes : List Node) (assembly : Assembly) :
    (assembly.later count nodes).toDocument =
      laterOutcome count (fun document => ⟨nodes.reverse ++ laterNodes count document.content⟩)
        assembly.toDocument := by
  simp only [toDocument, later, List.getLast?_map]
  cases assembly.blocks.getLast? with
  | some block => rfl
  | none => simp [laterOutcome, laterNodes_eq_map]

end Assembly

namespace Document

theorem ofStatements_append {first : List Statement} {document : Document}
    (h : ofStatements first = .ok document) (count : Nat) (second : List Statement) :
    ofStatements (first ++ second.map (Statement.later count)) =
      laterOutcome count
        (fun other => ⟨document.content ++ laterNodes count other.content⟩)
        (ofStatements second) := by
  obtain ⟨assembly, hrun, hdocument⟩ := bind_eq_ok_iff.mp h
  -- no block is left open, so the run goes on as from the start, behind the nodes so far
  have hblocks : assembly = Assembly.later count document.content.reverse .empty := by
    obtain ⟨content, blocks⟩ := assembly
    unfold Assembly.toDocument at hdocument
    split at hdocument
    · contradiction
    · rename_i hlast
      cases hdocument
      simpa [Assembly.later, Assembly.empty, laterNodes] using hlast
  rw [ofStatements, List.foldlM_append, hrun]
  change ((second.map (Statement.later count)).foldlM Assembly.step assembly >>=
    Assembly.toDocument) = _
  rw [hblocks, foldlM_later (Assembly.step_later count document.content.reverse)]
  apply laterOutcome_bind
  intro state
  rw [Assembly.toDocument_later, List.reverse_reverse]

theorem parse_append {first second : String} {terminator : Terminator} {document : Document}
    (hfirst : Terminator.detect? first.toList = some terminator)
    (hsecond : Terminator.detect? second.toList = some terminator)
    (h : parse first = .ok document) :
    parse (first ++ second) =
      laterOutcome (first.toList.count '\n') (fun other =>
        ⟨document.content ++ laterNodes (first.toList.count '\n') other.content⟩)
        (parse second) := by
  obtain ⟨text, htext, hreturn⟩ := Terminator.detect?_eq_some_iff.mp hfirst
  have hstrip := (Terminator.detect?_append hfirst hsecond).2
  unfold parse at h ⊢
  rw [htext, Terminator.strip_append_mark hreturn] at h
  obtain ⟨statements, hstatements, hdocument⟩ := bind_eq_ok_iff.mp h
  rw [String.toList_append, hstrip, htext, List.append_assoc,
    Statement.ofText_append hreturn hstatements]
  apply laterOutcome_bind
  intro others
  exact ofStatements_append hdocument _ others

end Document

/-! ## Selections -/

namespace Selection

def later (count : Nat) (selection : Selection) : Selection :=
  { selection with diagnostics := selection.diagnostics.map (Diagnostic.later count) }

theorem report_later (count : Nat) (policy : Policy) (line : Nat) (operators : List String) :
    report policy (line + count) operators =
      laterOutcome count (List.map (Diagnostic.later count)) (report policy line operators) := by
  induction operators with
  | nil => rfl
  | cons operator rest ih =>
      cases policy with
      | deny => rfl
      | warn =>
          simp only [report, ih]
          apply laterOutcome_bind
          intro reports
          rfl

mutual

theorem selectNodes_later (count : Nat) (symbols : Symbols) (policy : Policy)
    (nodes : List Node) :
    selectNodes symbols policy (laterNodes count nodes) =
      laterOutcome count (later count) (selectNodes symbols policy nodes) := by
  match nodes with
  | [] =>
      rw [laterNodes, selectNodes]
      rfl
  | .leaf text line :: rest =>
      rw [laterNodes, selectNodes, selectNodes, selectNodes_later count symbols policy rest]
      apply laterOutcome_bind
      intro others
      rfl
  | .block branches :: rest =>
      rw [laterNodes, selectNodes, selectNodes,
        selectBranches_later count symbols policy branches,
        selectNodes_later count symbols policy rest]
      apply laterOutcome_bind
      intro chosen
      apply laterOutcome_bind
      intro others
      simp [laterOutcome, later, pure, Except.pure]

theorem selectBranches_later (count : Nat) (symbols : Symbols) (policy : Policy)
    (branches : List Branch) :
    selectBranches symbols policy (laterBranches count branches) =
      laterOutcome count (later count) (selectBranches symbols policy branches) := by
  match branches with
  | [] =>
      rw [laterBranches, selectBranches]
      rfl
  | ⟨kind, condition?, body, line⟩ :: rest =>
      have hevaluate : Branch.evaluate symbols
          ⟨kind, condition?, laterNodes count body, line + count⟩ =
          Branch.evaluate symbols ⟨kind, condition?, body, line⟩ := rfl
      rw [laterBranches, selectBranches_cons, selectBranches_cons, hevaluate, report_later,
        selectNodes_later count symbols policy body,
        selectBranches_later count symbols policy rest]
      apply laterOutcome_bind
      intro reports
      have hreports (outcome : Except Fault Selection) :
          (do
            let chosen ← laterOutcome count (later count) outcome
            return ⟨chosen.lines,
              reports.map (Diagnostic.later count) ++ chosen.diagnostics⟩) =
          laterOutcome count (later count) (do
            let chosen ← outcome
            return ⟨chosen.lines, reports ++ chosen.diagnostics⟩) := by
        apply laterOutcome_bind
        intro chosen
        simp [laterOutcome, later, pure, Except.pure]
      cases (Branch.evaluate symbols ⟨kind, condition?, body, line⟩).value with
      | true => exact hreports (selectNodes symbols policy body)
      | false => exact hreports (selectBranches symbols policy rest)

end

theorem nodeSteps_append (symbols : Symbols) (first second : List Node) :
    nodeSteps symbols (first ++ second) =
      nodeSteps symbols first ++ nodeSteps symbols second := by
  induction first with
  | nil => simp [nodeSteps]
  | cons node rest ih => cases node <;> simp [nodeSteps, ih]

theorem selectNodes_append (symbols : Symbols) (policy : Policy) (first second : List Node) :
    selectNodes symbols policy (first ++ second) = do
      let earlier ← selectNodes symbols policy first
      let later ← selectNodes symbols policy second
      return ⟨earlier.lines ++ later.lines, earlier.diagnostics ++ later.diagnostics⟩ := by
  simp only [← judge_nodeSteps, nodeSteps_append, judge_append]

end Selection

theorem process_of_detect? {source : String} {terminator : Terminator}
    (h : Terminator.detect? source.toList = some terminator) {options : Options}
    {symbols : Symbols} :
    process options symbols source = do
      let document ← Document.parse source
      let selection ← document.select symbols options.policy
      return ⟨terminator.render selection.lines, terminator, selection.diagnostics⟩ := by
  have hne : source ≠ "" := by
    rintro rfl
    contradiction
  rw [process_of_ne_empty hne, Options.terminator, h, Option.getD_some]

theorem process_append_eq {options : Options} {symbols : Symbols} {terminator : Terminator}
    {first second : String} {output : Output}
    (hfirst : Terminator.detect? first.toList = some terminator)
    (hsecond : Terminator.detect? second.toList = some terminator)
    (h : process options symbols first = .ok output) :
    process options symbols (first ++ second) =
      laterOutcome (first.toList.count '\n') (fun next =>
        ⟨output.text ++ next.text, terminator, output.diagnostics ++
          next.diagnostics.map (Diagnostic.later (first.toList.count '\n'))⟩)
        (process options symbols second) := by
  have hjoined : Terminator.detect? (first ++ second).toList = some terminator := by
    rw [String.toList_append]
    exact (Terminator.detect?_append hfirst hsecond).1
  rw [process_of_detect? hfirst] at h
  obtain ⟨document, hparse, hselected⟩ := bind_eq_ok_iff.mp h
  obtain ⟨selection, hselect, houtput⟩ := bind_eq_ok_iff.mp hselected
  cases houtput
  rw [process_of_detect? hjoined, process_of_detect? hsecond,
    Document.parse_append hfirst hsecond hparse]
  apply laterOutcome_bind
  intro other
  rw [Selection.select_eq_selectNodes] at hselect
  rw [Selection.select_eq_selectNodes, Selection.select_eq_selectNodes,
    Selection.selectNodes_append, hselect, Selection.selectNodes_later]
  cases Selection.selectNodes symbols options.policy other.content with
  | error fault => rfl
  | ok chosen =>
      simp [laterOutcome, bind, Except.bind, pure, Except.pure, Selection.later,
        Terminator.render_append]

/-- Texts that end in the same terminator are processed one by one, as soon as the first
of them can be processed: the text that is left and the warnings follow each other, those
of the second text further down by the lines of the first, and a fault of the second text
is the fault of both, at a line as much further down. -/
theorem process_append (options : Options) (symbols : Symbols) (terminator : Terminator)
    (first second : String) (output : Output)
    (hfirst : Terminator.detect? first.toList = some terminator)
    (hsecond : Terminator.detect? second.toList = some terminator)
    (h : process options symbols first = .ok output) :
    (∀ next, process options symbols second = .ok next →
      process options symbols (first ++ second) =
        .ok ⟨output.text ++ next.text, terminator, output.diagnostics ++
          next.diagnostics.map (Diagnostic.later (first.toList.count '\n'))⟩) ∧
    ∀ fault, process options symbols second = .error fault →
      process options symbols (first ++ second) =
        .error (fault.later (first.toList.count '\n')) := by
  have hjoined := process_append_eq hfirst hsecond h
  constructor
  · intro next hnext
    rw [hjoined, hnext]
    rfl
  · intro fault hfault
    rw [hjoined, hfault]
    rfl

theorem process_append_crlf :
    process {} (.ofNames ["B"]) ("a\r\n/*#if -A ||\r\nB*/\r\nb\r\n/*#endif\r\n" ++
        "<!--#if +B-->\r\n<!--#else-->\r\nc\r\n<!--#endif-->\r\n") =
      .ok ⟨"a\r\nb\r\n" ++ "c\r\n", .crlf, [⟨2, "-"⟩, ⟨6, "+"⟩]⟩ ∧
    process {} (.ofNames ["B"]) ("a\r\n/*#if -A ||\r\nB*/\r\nb\r\n/*#endif\r\n" ++
        "c\r\n/*#else*/\r\n") =
      .error (.strayBranch 7 .otherwise) := by
  have hfirst : process {} (.ofNames ["B"])
      "a\r\n/*#if -A ||\r\nB*/\r\nb\r\n/*#endif\r\n" =
      .ok ⟨"a\r\nb\r\n", .crlf, [⟨2, "-"⟩]⟩ := by decide +kernel
  have hsecond : process {} (.ofNames ["B"])
      "<!--#if +B-->\r\n<!--#else-->\r\nc\r\n<!--#endif-->\r\n" =
      .ok ⟨"c\r\n", .crlf, [⟨1, "+"⟩]⟩ := by decide +kernel
  have hfault : process {} (.ofNames ["B"]) "c\r\n/*#else*/\r\n" =
      .error (.strayBranch 2 .otherwise) := by decide +kernel
  constructor
  · exact (process_append {} _ .crlf _ _ _ (by decide) (by decide) hfirst).1 _ hsecond
  · exact (process_append {} _ .crlf _ _ _ (by decide) (by decide) hfirst).2 _ hfault

end GuardedText
