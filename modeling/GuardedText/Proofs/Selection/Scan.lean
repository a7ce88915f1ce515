import GuardedText.Process
import GuardedText.Proofs.Document.Assembly
import GuardedText.Proofs.Selection.Structural

/-!
# Selecting in one pass

The lines that are left of a text can also be found without a document, by going
over its statements once.  All that has to be remembered are three flags for each
block that is open.  The scan below does this, and the output of a run is what
the scan collects.
-/

namespace GuardedText

open GuardedText.Text

/-- What is remembered of an open block. -/
structure Frame where
  enclosing : Bool
  taken : Bool
  live : Bool

def Frame.undecided (frame : Frame) : Bool :=
  frame.enclosing && !frame.taken

def Directive.verdict (symbols : Symbols) (directive : Directive) :
    Condition.Evaluation :=
  if directive.kind = .start .otherwise then ⟨true, []⟩
  else
    match directive.condition?.map Condition.parse with
    | some (.ok condition) => condition.evaluate symbols
    | _ => ⟨false, []⟩

structure Scan where
  frames : List Frame
  kept : List String
  warnings : List Diagnostic

namespace Scan

def isLive (scan : Scan) : Bool :=
  scan.frames.all (·.live)

/-- Enters a branch of the block with the given frame.  The condition is evaluated
only if it decides something. -/
def enter (symbols : Symbols) (directive : Directive) (frame : Frame)
    (outer : List Frame) (scan : Scan) : Scan :=
  if frame.undecided then
    let verdict := directive.verdict symbols
    ⟨⟨frame.enclosing, verdict.value, verdict.value⟩ :: outer, scan.kept,
      scan.warnings ++ verdict.unsupported.map (⟨directive.line, ·⟩)⟩
  else ⟨⟨frame.enclosing, frame.taken, false⟩ :: outer, scan.kept, scan.warnings⟩

def step (symbols : Symbols) (scan : Scan) : Statement → Scan
  | .plain text _ =>
    if scan.isLive then { scan with kept := scan.kept ++ [text] } else scan
  | .directive directive =>
    match directive.kind, scan.frames with
    | .start .ifTrue, frames =>
      scan.enter symbols directive ⟨scan.isLive, false, false⟩ frames
    | .start _, frame :: outer => scan.enter symbols directive frame outer
    | .finish, _ :: outer => { scan with frames := outer }
    | _, [] => scan

def ofStatements (symbols : Symbols) (statements : List Statement) : Scan :=
  statements.foldl (step symbols) ⟨[], [], []⟩

/-! ## The scan follows the structure -/

def add (steps : List Selection.Step) (scan : Scan) : Scan :=
  ⟨scan.frames, scan.kept ++ Selection.kept steps,
    scan.warnings ++ Selection.warnings steps⟩

theorem add_nil (scan : Scan) : scan.add [] = scan := by
  simp [add]

theorem add_add (first second : List Selection.Step) (scan : Scan) :
    (scan.add first).add second = scan.add (first ++ second) := by
  simp [add]

theorem isLive_add (steps : List Selection.Step) (scan : Scan) :
    (scan.add steps).isLive = scan.isLive := rfl

/-- Over these statements the scan collects the steps where text is live, and
comes back to the frames it had. -/
def Collects (symbols : Symbols) (statements : List Statement)
    (steps : List Selection.Step) : Prop :=
  ∀ scan : Scan, statements.foldl (step symbols) scan =
    scan.add (if scan.isLive then steps else [])

def CollectsBranches (symbols : Symbols) (statements : List Statement)
    (steps : List Selection.Step) : Prop :=
  ∀ (frame : Frame) (outer : List Frame) (kept : List String)
    (warnings : List Diagnostic), frame.enclosing = outer.all (·.live) →
    ∃ last, statements.foldl (step symbols) ⟨frame :: outer, kept, warnings⟩ =
      add (if frame.undecided then steps else []) ⟨last :: outer, kept, warnings⟩

theorem verdict_eq_evaluate {symbols : Symbols} {directive : Directive}
    {kind : BranchKind} {condition? : Option Condition} {line : Nat} (body : List Node)
    (h : (Mark.start kind condition? line).Matches (.directive directive)) :
    directive.verdict symbols =
      Branch.evaluate symbols ⟨kind, condition?, body, line⟩ := by
  obtain ⟨hkind, -, hcondition⟩ := h
  unfold Directive.verdict
  split at hcondition
  · obtain ⟨text, condition, written, read, rfl⟩ := hcondition
    rw [if_neg (by rw [hkind]; rintro ⟨⟩; contradiction), written]
    simp [read, Branch.evaluate]
  · obtain rfl : kind = .otherwise := by
      cases kind <;> simp_all [BranchKind.takesCondition]
    rw [if_pos hkind, hcondition]
    rfl

theorem collects_enter {symbols : Symbols} {directive : Directive} {kind : BranchKind}
    {condition? : Option Condition} {body : List Node} {line blockLine : Nat}
    {later : List Branch} {first rest : List Statement}
    (hmatch : (Mark.start kind condition? line).Matches (.directive directive))
    (hbody : Collects symbols first (Selection.nodeSteps symbols body))
    (hlater : CollectsBranches symbols rest (Selection.branchSteps symbols blockLine later))
    {frame : Frame} {outer : List Frame} (henclosing : frame.enclosing = outer.all (·.live))
    (scan : Scan) :
    ∃ last, (first ++ rest).foldl (step symbols) (scan.enter symbols directive frame outer) =
      add (if frame.undecided then
          Selection.branchSteps symbols blockLine (⟨kind, condition?, body, line⟩ :: later)
        else []) ⟨last :: outer, scan.kept, scan.warnings⟩ := by
  rw [List.foldl_append]
  unfold enter
  cases hundecided : frame.undecided with
  | false =>
      rw [if_neg (by simp), hbody]
      obtain ⟨last, hlast⟩ := hlater ⟨frame.enclosing, frame.taken, false⟩ outer
        scan.kept scan.warnings henclosing
      refine ⟨last, ?_⟩
      have hdead : Frame.undecided ⟨frame.enclosing, frame.taken, false⟩ = false :=
        hundecided
      simpa [isLive, add_nil, hdead] using hlast
  | true =>
      have hlive : frame.enclosing = true := by
        simp only [Frame.undecided, Bool.and_eq_true] at hundecided
        exact hundecided.1
      obtain rfl : directive.line = line := hmatch.2.1
      rw [if_pos rfl, hbody, verdict_eq_evaluate body hmatch]
      simp only [Selection.branchSteps, if_pos]
      generalize Branch.evaluate symbols ⟨kind, condition?, body, directive.line⟩ =
        evaluation
      obtain ⟨value, operators⟩ := evaluation
      cases value with
      | true =>
          obtain ⟨last, hlast⟩ := hlater ⟨frame.enclosing, true, true⟩ outer
            (scan.kept ++ Selection.kept (Selection.nodeSteps symbols body))
            (scan.warnings ++ operators.map (⟨directive.line, ·⟩) ++
              Selection.warnings (Selection.nodeSteps symbols body)) henclosing
          refine ⟨last, ?_⟩
          simpa [isLive, add, Frame.undecided, henclosing.symm, hlive] using hlast
      | false =>
          obtain ⟨last, hlast⟩ := hlater ⟨frame.enclosing, false, false⟩ outer
            scan.kept (scan.warnings ++ operators.map (⟨directive.line, ·⟩)) henclosing
          refine ⟨last, ?_⟩
          simpa [isLive, add, Frame.undecided, henclosing.symm, hlive] using hlast

theorem Collects.append {symbols : Symbols} {first second : List Statement}
    {firstSteps secondSteps : List Selection.Step}
    (hfirst : Collects symbols first firstSteps)
    (hsecond : Collects symbols second secondSteps) :
    Collects symbols (first ++ second) (firstSteps ++ secondSteps) := by
  intro scan
  rw [List.foldl_append, hfirst, hsecond, add_add, isLive_add]
  cases scan.isLive <;> rfl

theorem collects_plain (symbols : Symbols) (text : String) (line : Nat) :
    Collects symbols [.plain text line] [.keep text] := by
  intro scan
  simp only [List.foldl_cons, List.foldl_nil, step]
  cases scan.isLive with
  | true => simp [add, Selection.kept, Selection.warnings]
  | false => simp [add_nil]

theorem collects_block {symbols : Symbols} {directive closing : Directive}
    {condition? : Option Condition} {body : List Node} {line blockLine : Nat}
    {later : List Branch} {first rest : List Statement}
    (hmatch : (Mark.start .ifTrue condition? line).Matches (.directive directive))
    (hbody : Collects symbols first (Selection.nodeSteps symbols body))
    (hlater : CollectsBranches symbols rest (Selection.branchSteps symbols blockLine later))
    (hclosing : closing.kind = .finish) :
    Collects symbols (.directive directive :: (first ++ rest) ++ [.directive closing])
      (Selection.branchSteps symbols blockLine
        (⟨.ifTrue, condition?, body, line⟩ :: later)) := by
  intro scan
  have hkind : directive.kind = .start .ifTrue := hmatch.1
  have hfirst : scan.step symbols (.directive directive) =
      scan.enter symbols directive ⟨scan.isLive, false, false⟩ scan.frames := by
    simp only [step, hkind]
  have henclosing : Frame.enclosing ⟨scan.isLive, false, false⟩ =
      scan.frames.all (·.live) := rfl
  obtain ⟨last, hlast⟩ := collects_enter hmatch hbody hlater henclosing scan
  rw [← hfirst, ← List.foldl_cons] at hlast
  rw [List.foldl_append, hlast]
  simp only [List.foldl_cons, List.foldl_nil, step, hclosing, add, Frame.undecided,
    Bool.not_false, Bool.and_true]

theorem collectsBranches_cons {symbols : Symbols} {directive : Directive}
    {kind : BranchKind} {condition? : Option Condition} {body : List Node}
    {line blockLine : Nat} {later : List Branch} {first rest : List Statement}
    (hmatch : (Mark.start kind condition? line).Matches (.directive directive))
    (hkind : kind ≠ .ifTrue)
    (hbody : Collects symbols first (Selection.nodeSteps symbols body))
    (hlater : CollectsBranches symbols rest (Selection.branchSteps symbols blockLine later)) :
    CollectsBranches symbols (.directive directive :: (first ++ rest))
      (Selection.branchSteps symbols blockLine (⟨kind, condition?, body, line⟩ :: later)) := by
  intro frame outer kept warnings henclosing
  have hfirst : step symbols ⟨frame :: outer, kept, warnings⟩ (.directive directive) =
      enter symbols directive frame outer ⟨frame :: outer, kept, warnings⟩ := by
    have hfound : directive.kind = .start kind := hmatch.1
    cases kind with
    | ifTrue => exact absurd rfl hkind
    | elseIf | otherwise => simp only [step, hfound]
  rw [List.foldl_cons, hfirst]
  exact collects_enter hmatch hbody hlater henclosing _

mutual

theorem collects_nodes (symbols : Symbols) (nodes : List Node)
    (statements : List Statement) (wellFormed : WellFormed nodes)
    (h : List.Forall₂ Mark.Matches (marks nodes) statements) :
    Collects symbols statements (Selection.nodeSteps symbols nodes) := by
  match nodes with
  | [] =>
      rw [marks, List.forall₂_nil_left_iff] at h
      intro scan
      simp [h, Selection.nodeSteps, add_nil]
  | .leaf text line :: rest =>
      rw [WellFormed] at wellFormed
      rw [marks] at h
      obtain ⟨statement, others, hmatch, hothers, rfl⟩ := List.forall₂_cons_left_iff.mp h
      cases statement with
      | directive => exact hmatch.elim
      | plain =>
          obtain ⟨rfl, rfl⟩ := hmatch
          rw [Selection.nodeSteps]
          exact (collects_plain symbols _ _).append
            (collects_nodes symbols rest others wellFormed hothers)
  | .block [] :: rest =>
      rw [WellFormed] at wellFormed
      exact absurd wellFormed.1 not_inOrder_nil
  | .block (⟨kind, condition?, body, line⟩ :: later) :: rest =>
      rw [WellFormed, WellFormedBranches] at wellFormed
      obtain ⟨inOrder, ⟨-, hbody, hlater⟩, hrest⟩ := wellFormed
      obtain rfl := inOrder.head_eq
      simp only [marks, branchMarks, List.cons_append, List.append_assoc] at h
      -- cut the statements where the first body, the later branches and the block end
      obtain ⟨opening, others, hopening, hothers, rfl⟩ := List.forall₂_cons_left_iff.mp h
      obtain ⟨first, others, rfl, hfirst, hothers⟩ := forall₂_append_left_iff.mp hothers
      obtain ⟨second, others, rfl, hsecond, hothers⟩ := forall₂_append_left_iff.mp hothers
      obtain ⟨closing, after, hclosing, hafter, rfl⟩ :=
        List.forall₂_cons_left_iff.mp hothers
      obtain ⟨opening, rfl⟩ := hopening.exists_directive (by simp)
      obtain ⟨closing, rfl⟩ := hclosing.exists_directive (by simp)
      have hblock := collects_block hopening
        (collects_nodes symbols body first hbody hfirst)
        (collectsBranches symbols line later second hlater
          (fun _ => inOrder.ne_ifTrue_of_mem_tail) hsecond) hclosing
      have hall := hblock.append (collects_nodes symbols rest after hrest hafter)
      rw [Selection.nodeSteps]
      simpa [Node.line] using hall

theorem collectsBranches (symbols : Symbols) (blockLine : Nat) (later : List Branch)
    (statements : List Statement) (wellFormed : WellFormedBranches later)
    (hkinds : ∀ kind ∈ later.map (·.kind), kind ≠ .ifTrue)
    (h : List.Forall₂ Mark.Matches (branchMarks later) statements) :
    CollectsBranches symbols statements
      (Selection.branchSteps symbols blockLine later) := by
  match later with
  | [] =>
      rw [branchMarks, List.forall₂_nil_left_iff] at h
      intro frame outer kept warnings _
      refine ⟨frame, ?_⟩
      cases frame.undecided <;>
        simp [h, add, Selection.branchSteps, Selection.kept, Selection.warnings]
  | ⟨kind, condition?, body, line⟩ :: rest =>
      rw [WellFormedBranches] at wellFormed
      obtain ⟨-, hbody, hrest⟩ := wellFormed
      simp only [branchMarks, List.cons_append] at h
      obtain ⟨opening, others, hopening, hothers, rfl⟩ := List.forall₂_cons_left_iff.mp h
      obtain ⟨first, others, rfl, hfirst, hothers⟩ := forall₂_append_left_iff.mp hothers
      obtain ⟨opening, rfl⟩ := hopening.exists_directive (by simp)
      rw [List.map_cons, List.forall_mem_cons] at hkinds
      exact collectsBranches_cons hopening hkinds.1
        (collects_nodes symbols body first hbody hfirst)
        (collectsBranches symbols blockLine rest others hrest hkinds.2 hothers)

end

theorem ofStatements_eq_of_document {statements : List Statement} {document : Document}
    (h : Document.ofStatements statements = .ok document) (symbols : Symbols) :
    ofStatements symbols statements =
      ⟨[], Selection.kept (document.steps symbols),
        Selection.warnings (document.steps symbols)⟩ := by
  have hreading := Document.isReadingOf_of_ofStatements h
  have hcollects := collects_nodes symbols document.content statements
    hreading.wellFormed hreading.inStep
  rw [ofStatements, hcollects, Selection.steps_eq]
  simp [add, isLive]

end Scan

/-- What a run puts out is what the scan collects over the statements of the text,
less one terminator at its end. -/
theorem process_eq_scan (options : Options) (symbols : Symbols) (source : String)
    (output : Output) (nonempty : source ≠ "")
    (h : process options symbols source = .ok output) :
    ∃ statements, Statement.ofText (Terminator.strip source.toList) = .ok statements ∧
      output = ⟨(options.terminator source).render (Scan.ofStatements symbols statements).kept,
        options.terminator source, (Scan.ofStatements symbols statements).warnings⟩ := by
  have hlines : source.toList.isEmpty = false := by simpa using nonempty
  rw [process, hlines, if_neg (by simp)] at h
  obtain ⟨document, hparse, h⟩ := bind_eq_ok_iff.mp h
  obtain ⟨selection, hselect, h⟩ := bind_eq_ok_iff.mp h
  obtain ⟨statements, hstatements, hdocument⟩ := bind_eq_ok_iff.mp hparse
  refine ⟨statements, hstatements, ?_⟩
  rw [Scan.ofStatements_eq_of_document hdocument symbols]
  have hselection := Selection.judge_eq_ok hselect
  cases h
  rw [hselection]

theorem process_eq_scan_elif :
    ∃ statements, Statement.ofText (Terminator.strip
        "/*#if -A*/\na\n<!--#elif B-->\nb\n/*#endif*/".toList) = .ok statements ∧
      (⟨"b\r\n", .crlf, [⟨1, "-"⟩]⟩ : Output) =
        ⟨Terminator.crlf.render (Scan.ofStatements (.ofNames ["B"]) statements).kept, .crlf,
          (Scan.ofStatements (.ofNames ["B"]) statements).warnings⟩ :=
  process_eq_scan ⟨.warn, .fixed .crlf⟩ (.ofNames ["B"])
    "/*#if -A*/\na\n<!--#elif B-->\nb\n/*#endif*/" ⟨"b\r\n", .crlf, [⟨1, "-"⟩]⟩
    (by decide) (eq_ok_of_toOption (by decide +kernel))

end GuardedText
