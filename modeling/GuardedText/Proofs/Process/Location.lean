import GuardedText.Proofs.Process.Policy
import GuardedText.Proofs.Selection.Scan
import GuardedText.Proofs.Statement.Partition

/-!
# The lines of faults and warnings

Every fault names a line, and that line holds a directive that can be at fault in this
way.  Faults arise while a text is cut into statements, while these are assembled, and
while the lines are selected.  In the first of these a line is known by the lines read
so far, in the second by the statements read so far.  Of the last only the warnings are
left to look at, since a refusal is the first of them.
-/

namespace GuardedText

open GuardedText.Text

def Directive.conditional : List Directive.Kind := [.start .ifTrue, .start .elseIf]

/-- The kinds of directive that can be at fault. -/
def Fault.culprits : Fault → List Directive.Kind
  | .strayEnd _ => [.finish]
  | .strayBranch _ branch | .branchAfterElse _ branch => [.start branch]
  | .openBlock _ | .tooDeep _ _ => [.start .ifTrue]
  | .openDirective _ => [.start .ifTrue, .start .elseIf, .start .otherwise]
  | .condition _ (.notWanted _) => [.start .otherwise]
  | .condition _ .missing | .condition _ (.malformed _ _ _)
  | .unsupportedOperator _ _ => Directive.conditional

/-- Among the lines is one with this number that holds a head of one of these kinds. -/
def HoldsHead (lines : List Line) (number : Nat) (kinds : List Directive.Kind) : Prop :=
  ∃ line ∈ lines, line.number = number ∧
    ∃ head, Directive.Head.find? line.lexemes = some head ∧ head.kind ∈ kinds

theorem holdsHead_of_mem {lines : List Line} {line : Line} {style : Directive.Style}
    {kind : Directive.Kind} {kinds : List Directive.Kind} (hline : line ∈ lines)
    (hhead : (Directive.Head.find? line.lexemes).map (fun head => (head.style, head.kind)) =
      some (style, kind))
    (hkind : kind ∈ kinds) : HoldsHead lines line.number kinds := by
  obtain ⟨head, hfound, hsame⟩ := Option.map_eq_some_iff.mp hhead
  rw [Prod.mk.injEq] at hsame
  rw [← hsame.2] at hkind
  exact ⟨line, hline, rfl, head, hfound, hkind⟩

theorem HoldsHead.mono {first second : List Line} {number : Nat}
    {kinds : List Directive.Kind} (h : HoldsHead first number kinds)
    (hsubset : first ⊆ second) : HoldsHead second number kinds := by
  obtain ⟨line, hline, hholds⟩ := h
  exact ⟨line, hsubset hline, hholds⟩

/-! ## Cutting a text into statements -/

namespace Statement

theorem Pending.advance_eq_error {pending : Pending} {body : List Lexeme} {line : Line}
    {fault : Fault} (h : pending.advance body line = .error fault) :
    pending.branch = .otherwise ∧
      ∃ found, fault = .condition pending.line (.notWanted found) := by
  unfold advance at h
  split at h
  · rcases bind_eq_error_iff.mp h with hclose | ⟨directive, -, hresult⟩
    · simp only [close] at hclose
      split at hclose
      · contradiction
      · split at hclose
        · contradiction
        · rename_i hcondition
          cases hclose
          refine ⟨?_, _, rfl⟩
          cases hbranch : pending.branch <;> simp_all [BranchKind.takesCondition]
    · contradiction
  · contradiction

theorem Pending.Covers.holdsHead {pending : Pending} {first : Line} {later lines : List Line}
    (h : pending.Covers first later) (hfirst : first ∈ lines) {kinds : List Directive.Kind}
    (hkind : .start pending.branch ∈ kinds) : HoldsHead lines pending.line kinds := by
  rw [h.line_eq]
  exact holdsHead_of_mem hfirst h.head_eq hkind

theorem Pending.Covers.openDirective {pending : Pending} {first : Line}
    {later lines : List Line} (h : pending.Covers first later) (hfirst : first ∈ lines) :
    HoldsHead lines pending.line (Fault.openDirective pending.line).culprits := by
  apply h.holdsHead hfirst
  cases pending.branch <;> simp [Fault.culprits]

theorem holdsHead_of_step {pending? : Option Pending} {read : List Line} {line : Line}
    {fault : Fault} (hcarries : Carries pending? read)
    (h : step pending? line = .error fault) :
    HoldsHead (read ++ [line]) fault.line fault.culprits := by
  unfold step at h
  split at h
  · contradiction
  · contradiction
  · rename_i style branch body hhead
    obtain ⟨hbranch, found, rfl⟩ := Pending.advance_eq_error h
    refine ⟨line, by simp, rfl, _, hhead, ?_⟩
    change branch = .otherwise at hbranch
    simp [Fault.culprits, hbranch]
  · obtain ⟨first, later, rfl, hcovers⟩ := hcarries
    obtain ⟨hbranch, found, rfl⟩ := Pending.advance_eq_error h
    exact hcovers.holdsHead (by simp) (by simp [Fault.culprits, hbranch])
  · obtain ⟨first, later, rfl, hcovers⟩ := hcarries
    cases h
    exact hcovers.openDirective (by simp)

theorem holdsHead_of_ofLines {pending? : Option Pending} {read lines : List Line}
    {fault : Fault} (hcarries : Carries pending? read)
    (h : ofLines pending? lines = .error fault) :
    HoldsHead (read ++ lines) fault.line fault.culprits := by
  induction lines generalizing pending? read with
  | nil =>
      cases pending? with
      | none => contradiction
      | some pending =>
          obtain ⟨first, later, rfl, hcovers⟩ := hcarries
          cases h
          exact hcovers.openDirective (by simp)
  | cons line rest ih =>
      rw [ofLines] at h
      rcases bind_eq_error_iff.mp h with hstep | ⟨⟨next?, statement?⟩, hstep, hrest⟩
      · apply (holdsHead_of_step hcarries hstep).mono
        exact List.append_subset.mpr ⟨List.subset_append_left _ _, by simp⟩
      · have hothers : ofLines next? rest = .error fault := by
          rcases bind_eq_error_iff.mp hrest with hothers | ⟨_, _, hdone⟩
          · exact hothers
          · contradiction
        rcases carries_step hcarries hstep with ⟨-, hnext⟩ | ⟨rfl, -⟩
        · simpa using ih hnext hothers
        · have hfresh : Carries none [] := rfl
          apply (ih hfresh hothers).mono
          rw [List.append_cons]
          exact List.subset_append_right _ _

end Statement

/-! ## Assembling the statements -/

def HoldsDirective (statements : List Statement) (line : Nat)
    (kinds : List Directive.Kind) : Prop :=
  ∃ directive, .directive directive ∈ statements ∧ directive.line = line ∧
    directive.kind ∈ kinds

theorem HoldsDirective.mono {first second : List Statement} {line : Nat}
    {kinds : List Directive.Kind} (h : HoldsDirective first line kinds)
    (hsubset : first ⊆ second) : HoldsDirective second line kinds := by
  obtain ⟨directive, hmem, hline, hkind⟩ := h
  exact ⟨directive, hsubset hmem, hline, hkind⟩

namespace Assembly

theorem readCondition_eq_error {directive : Directive} {fault : Fault}
    (h : readCondition directive = .error fault) :
    fault.line = directive.line ∧ fault.culprits = Directive.conditional := by
  unfold readCondition at h
  cases hcondition : directive.condition? with
  | none =>
      rw [hcondition] at h
      cases h
      exact ⟨rfl, rfl⟩
  | some text =>
      rw [hcondition] at h
      obtain ⟨cause, hparse, rfl⟩ := mapError_eq_error_iff.mp h
      refine ⟨rfl, ?_⟩
      simp only [Condition.parse] at hparse
      split at hparse
      · cases hparse
        rfl
      · obtain ⟨problem, -, rfl⟩ := mapError_eq_error_iff.mp hparse
        rfl

theorem mem_culprits_of_readCondition {kind : BranchKind} {directive : Directive}
    {fault : Fault} (htakes : kind.takesCondition)
    (h : readCondition directive = .error fault) :
    fault.line = directive.line ∧ .start kind ∈ fault.culprits := by
  obtain ⟨hline, hculprits⟩ := readCondition_eq_error h
  refine ⟨hline, ?_⟩
  rw [hculprits]
  cases kind <;> simp_all [BranchKind.takesCondition, Directive.conditional]

theorem start_eq_error {directive : Directive} {assembly : Assembly} {fault : Fault}
    (h : assembly.start directive = .error fault) :
    fault.line = directive.line ∧ .start .ifTrue ∈ fault.culprits := by
  unfold start at h
  split at h
  · cases h
    exact ⟨rfl, by simp [Fault.culprits]⟩
  · rcases bind_eq_error_iff.mp h with hread | ⟨condition, -, hdone⟩
    · exact mem_culprits_of_readCondition rfl hread
    · contradiction

theorem alternative_eq_error {kind : BranchKind} {directive : Directive}
    {assembly : Assembly} {fault : Fault}
    (h : assembly.alternative kind directive = .error fault) :
    fault.line = directive.line ∧ .start kind ∈ fault.culprits := by
  obtain ⟨content, _ | ⟨block, outer⟩⟩ := assembly
  · cases h
    exact ⟨rfl, by simp [Fault.culprits]⟩
  · rw [alternative_cons] at h
    rcases bind_eq_error_iff.mp h with hcondition | ⟨condition?, -, hplace⟩
    · unfold branchCondition at hcondition
      split at hcondition
      · rw [map_eq_pure_bind] at hcondition
        rcases bind_eq_error_iff.mp hcondition with hread | ⟨condition, -, hdone⟩
        · exact mem_culprits_of_readCondition (by assumption) hread
        · contradiction
      · contradiction
    · split at hplace
      · cases hplace
        exact ⟨rfl, by simp [Fault.culprits]⟩
      · contradiction

theorem step_eq_error {assembly : Assembly} {statement : Statement} {fault : Fault}
    (h : assembly.step statement = .error fault) :
    HoldsDirective [statement] fault.line fault.culprits := by
  cases statement with
  | plain text line => contradiction
  | directive directive =>
      have hplace : fault.line = directive.line ∧ directive.kind ∈ fault.culprits := by
        simp only [step] at h
        split at h
        · rename_i hkind
          rw [hkind]
          exact start_eq_error h
        · rename_i hkind
          rw [hkind]
          exact alternative_eq_error h
        · rename_i hkind
          rw [hkind]
          obtain ⟨content, _ | ⟨block, outer⟩⟩ := assembly
          · cases h
            exact ⟨rfl, by simp [Fault.culprits]⟩
          · contradiction
      exact ⟨directive, by simp, hplace.1.symm, hplace.2⟩

/-- Every open block has been opened by one of the statements. -/
def OpenedBy (statements : List Statement) (assembly : Assembly) : Prop :=
  ∀ line ∈ assembly.blocks.map (·.line), HoldsDirective statements line [.start .ifTrue]

theorem map_line_push (node : Node) (assembly : Assembly) :
    (assembly.push node).blocks.map (·.line) = assembly.blocks.map (·.line) := by
  obtain ⟨content, _ | ⟨block, outer⟩⟩ := assembly <;> rfl

theorem Takes.lines_subset {assembly next : Assembly} {mark : Mark} {statement : Statement}
    (h : Takes assembly mark next) (hmatch : mark.Matches statement) {line : Nat}
    (hline : line ∈ next.blocks.map (·.line)) :
    line ∈ assembly.blocks.map (·.line) ∨ HoldsDirective [statement] line [.start .ifTrue] := by
  cases h with
  | plain text number =>
      rw [map_line_push] at hline
      exact .inl hline
  | start condition? number room =>
      rcases List.mem_cons.mp hline with rfl | hline
      · obtain ⟨directive, rfl⟩ := hmatch.exists_directive (by simp)
        exact .inr ⟨directive, by simp, hmatch.2.1, by simp [hmatch.1]⟩
      · exact .inl hline
  | alternative condition? number later goesOn => exact .inl hline
  | finish content block outer =>
      rw [map_line_push] at hline
      exact .inl (List.mem_cons_of_mem _ hline)

theorem OpenedBy.step {read : List Statement} {assembly next : Assembly}
    {statement : Statement} (h : assembly.OpenedBy read)
    (hstep : assembly.step statement = .ok next) : next.OpenedBy (read ++ [statement]) := by
  obtain ⟨mark, hmatch, htakes⟩ := step_eq_ok_iff.mp hstep
  intro line hline
  rcases htakes.lines_subset hmatch hline with hold | hnew
  · exact (h line hold).mono (List.subset_append_left _ _)
  · exact hnew.mono (List.subset_append_right _ _)

end Assembly

theorem holdsDirective_of_ofStatements {statements : List Statement} {fault : Fault}
    (h : Document.ofStatements statements = .error fault) :
    HoldsDirective statements fault.line fault.culprits := by
  rcases bind_eq_error_iff.mp h with hrun | ⟨assembly, hrun, hend⟩
  · obtain ⟨read, statement, rest, reached, rfl, -, hstep⟩ := exists_of_foldlM_eq_error hrun
    exact (Assembly.step_eq_error hstep).mono (by simp)
  · have hempty : Assembly.empty.OpenedBy [] := by simp [Assembly.OpenedBy, Assembly.empty]
    have hopened : assembly.OpenedBy ([] ++ statements) :=
      foldlM_preserves (fun hread hstep => hread.step hstep) hempty hrun
    unfold Assembly.toDocument at hend
    split at hend
    · rename_i block hblock
      cases hend
      exact hopened block.line (List.mem_map_of_mem (List.mem_of_getLast? hblock))
    · contradiction

/-! ## Selecting the lines -/

namespace Scan

theorem enter_warnings (symbols : Symbols) {directive : Directive} {branch : BranchKind}
    (hkind : directive.kind = .start branch) (frame : Frame) (outer : List Frame)
    (scan : Scan) :
    ∃ operators : List String,
      (scan.enter symbols directive frame outer).warnings =
        scan.warnings ++ operators.map (⟨directive.line, ·⟩) ∧
      (operators ≠ [] → directive.kind ∈ Directive.conditional) := by
  unfold enter
  split
  · refine ⟨(directive.verdict symbols).unsupported, rfl, ?_⟩
    intro hsome
    rw [hkind]
    cases branch with
    | ifTrue | elseIf => simp [Directive.conditional]
    | otherwise => simp [Directive.verdict, hkind] at hsome
  · exact ⟨[], by simp, by simp⟩

theorem step_warnings (symbols : Symbols) (scan : Scan) (statement : Statement) :
    ∃ operators : List String,
      (scan.step symbols statement).warnings =
        scan.warnings ++ operators.map (⟨statement.line, ·⟩) ∧
      (operators ≠ [] → HoldsDirective [statement] statement.line Directive.conditional) := by
  cases statement with
  | plain text line =>
      refine ⟨[], ?_, by simp⟩
      simp only [step]
      split <;> simp
  | directive directive =>
      have hplace {operators : List String}
          (h : operators ≠ [] → directive.kind ∈ Directive.conditional) (hsome : operators ≠ []) :
          HoldsDirective [.directive directive] directive.line Directive.conditional :=
        ⟨directive, by simp, rfl, h hsome⟩
      simp only [step]
      split
      · rename_i hkind
        obtain ⟨operators, hwarnings, h⟩ := enter_warnings symbols hkind _ _ scan
        exact ⟨operators, hwarnings, hplace h⟩
      · rename_i hkind _
        obtain ⟨operators, hwarnings, h⟩ := enter_warnings symbols hkind _ _ scan
        exact ⟨operators, hwarnings, hplace h⟩
      · exact ⟨[], by simp, by simp⟩
      · exact ⟨[], by simp, by simp⟩

theorem foldl_warnings (symbols : Symbols) (statements : List Statement) (scan : Scan) :
    ∃ added : List Diagnostic,
      (statements.foldl (step symbols) scan).warnings = scan.warnings ++ added ∧
      (∀ warning ∈ added, HoldsDirective statements warning.line Directive.conditional) ∧
      ((statements.map (·.line)).Pairwise (· < ·) →
        (added.map (·.line)).Pairwise (· ≤ ·)) := by
  induction statements generalizing scan with
  | nil => exact ⟨[], by simp, by simp, by simp⟩
  | cons statement rest ih =>
      obtain ⟨operators, hstep, hfirst⟩ := step_warnings symbols scan statement
      obtain ⟨others, hrest, hothers, hordered⟩ := ih (scan.step symbols statement)
      refine ⟨operators.map (⟨statement.line, ·⟩) ++ others, ?_, ?_, ?_⟩
      · rw [List.foldl_cons, hrest, hstep, List.append_assoc]
      · intro warning hwarning
        rcases List.mem_append.mp hwarning with hwarning | hwarning
        · obtain ⟨operator, hoperator, rfl⟩ := List.mem_map.mp hwarning
          exact (hfirst (List.ne_nil_of_mem hoperator)).mono (by simp)
        · exact (hothers warning hwarning).mono (by simp)
      · intro hincreasing
        rw [List.map_cons, List.pairwise_cons] at hincreasing
        rw [List.map_append, List.pairwise_append]
        refine ⟨?_, hordered hincreasing.2, ?_⟩
        · simp [List.pairwise_iff_getElem]
        · intro line hline other hother
          simp only [List.map_map, List.mem_map, Function.comp_apply] at hline hother
          obtain ⟨_, -, rfl⟩ := hline
          obtain ⟨warning, hwarning, rfl⟩ := hother
          obtain ⟨directive, hmem, hsame, -⟩ := hothers warning hwarning
          have hlater := hincreasing.1 directive.line (List.mem_map.mpr ⟨_, hmem, rfl⟩)
          omega

end Scan

/-! ## Whole runs -/

theorem HoldsDirective.holdsHead {text : List Char} {statements : List Statement}
    {line : Nat} {kinds : List Directive.Kind} (h : HoldsDirective statements line kinds)
    (hstatements : Statement.ofText text = .ok statements) :
    HoldsHead (Line.ofText text) line kinds := by
  obtain ⟨directive, hmem, rfl, hkind⟩ := h
  obtain ⟨first, hfirst, later, hcovers⟩ :=
    (Statement.cover_of_ofText hstatements).exists_first hmem
  have hnumber : directive.line = first.number := hcovers.line_eq
  rw [hnumber]
  exact holdsHead_of_mem hfirst hcovers.head_eq hkind

theorem HoldsHead.of_strip {source : List Char} {number : Nat} {kinds : List Directive.Kind}
    (h : HoldsHead (Line.ofText (Terminator.strip source)) number kinds) :
    HoldsHead (Line.ofText source) number kinds := by
  rcases Terminator.strip_eq_or source with hsame | ⟨text, terminator, rfl, hstrip, hreturn⟩
  · rw [hsame] at h
    exact h
  · obtain ⟨init, last, hlines, hjoined⟩ := Line.exists_ofText_append hreturn
    have hsource := hjoined []
    rw [List.append_nil] at hsource
    rw [hstrip, hlines] at h
    rw [hsource]
    obtain ⟨line, hline, hholds⟩ := h
    rcases List.mem_append.mp hline with hline | hline
    · exact ⟨line, by simp [hline], hholds⟩
    · rw [List.mem_singleton.mp hline] at hholds
      exact ⟨{ last with terminator := terminator.mark }, by simp, hholds⟩

theorem holdsHead_of_parse {source : String} {fault : Fault}
    (h : Document.parse source = .error fault) :
    HoldsHead (Line.ofText source.toList) fault.line fault.culprits := by
  apply HoldsHead.of_strip
  rcases bind_eq_error_iff.mp h with hcut | ⟨statements, hcut, hassembly⟩
  · have hfresh : Statement.Carries none [] := rfl
    exact Statement.holdsHead_of_ofLines hfresh hcut
  · exact (holdsDirective_of_ofStatements hassembly).holdsHead hcut

theorem holdsHead_of_warnings {source : String} {document : Document} {symbols : Symbols}
    (h : Document.parse source = .ok document) :
    (∀ warning ∈ Selection.warnings (document.steps symbols),
      HoldsHead (Line.ofText source.toList) warning.line Directive.conditional) ∧
    ((Selection.warnings (document.steps symbols)).map (·.line)).Pairwise (· ≤ ·) := by
  obtain ⟨statements, hcut, hassembly⟩ := bind_eq_ok_iff.mp h
  have hpartition := (Statement.cover_of_ofText hcut).partition
  obtain ⟨added, hadded, hheld, hordered⟩ :=
    Scan.foldl_warnings symbols statements ⟨[], [], []⟩
  have hscan := Scan.ofStatements_eq_of_document hassembly symbols
  rw [Scan.ofStatements] at hscan
  rw [hscan, List.nil_append] at hadded
  change Selection.warnings (document.steps symbols) = added at hadded
  rw [hadded]
  exact ⟨fun warning hwarning => ((hheld warning hwarning).holdsHead hcut).of_strip,
    hordered hpartition.increasing⟩

theorem Selection.judge_eq_error {policy : Policy} {steps : List Step} {fault : Fault}
    (h : judge policy steps = .error fault) :
    ∃ warning ∈ warnings steps,
      fault = .unsupportedOperator warning.line warning.operator := by
  unfold judge at h
  split at h
  · rename_i warning rest hwarnings
    cases h
    exact ⟨warning, by simp [hwarnings], rfl⟩
  · contradiction

/-- A fault of a run is at a line of the text that holds a directive of a kind that can be
at fault in this way.  The warnings of a run that succeeds are at lines with an `if` or an
`elif`, and they follow the order of the lines. -/
theorem holdsHead_of_process (options : Options) (symbols : Symbols) (source : String) :
    (∀ fault, process options symbols source = .error fault →
      HoldsHead (Line.ofText source.toList) fault.line fault.culprits) ∧
    ∀ output, process options symbols source = .ok output →
      (∀ warning ∈ output.diagnostics,
        HoldsHead (Line.ofText source.toList) warning.line Directive.conditional) ∧
      (output.diagnostics.map (·.line)).Pairwise (· ≤ ·) := by
  by_cases hempty : source = ""
  · subst hempty
    rw [process_empty]
    constructor
    · intro fault h
      contradiction
    · intro output h
      cases h
      simp
  · rw [process_of_ne_empty hempty]
    constructor
    · intro fault h
      rcases bind_eq_error_iff.mp h with hparse | ⟨document, hparse, hselected⟩
      · exact holdsHead_of_parse hparse
      · rcases bind_eq_error_iff.mp hselected with hselect | ⟨selection, -, hdone⟩
        · obtain ⟨warning, hwarning, rfl⟩ := Selection.judge_eq_error hselect
          exact (holdsHead_of_warnings hparse).1 warning hwarning
        · contradiction
    · intro output h
      obtain ⟨document, hparse, hselected⟩ := bind_eq_ok_iff.mp h
      obtain ⟨selection, hselect, houtput⟩ := bind_eq_ok_iff.mp hselected
      cases houtput
      rw [Selection.judge_eq_ok hselect]
      exact holdsHead_of_warnings hparse

theorem holdsHead_of_process_open :
    (process {} (.ofNames []) "x\r\n/*#if -A\r\n*/ y\r\n<!--#else-->\r\n/*#if B*/\r\n" =
        .error (.openBlock 2) ∧
      HoldsHead (Line.ofText "x\r\n/*#if -A\r\n*/ y\r\n<!--#else-->\r\n/*#if B*/\r\n".toList)
        2 [.start .ifTrue]) ∧
    process {} (.ofNames []) "/*#if -A*/\n/*#elseif +A ||\n~B*/\n/*#endif*/" =
        .ok ⟨"", .lf, [⟨1, "-"⟩, ⟨2, "+"⟩, ⟨2, "~"⟩]⟩ ∧
      HoldsHead (Line.ofText "/*#if -A*/\n/*#elseif +A ||\n~B*/\n/*#endif*/".toList) 2
        Directive.conditional := by
  have hfault : process {} (.ofNames [])
      "x\r\n/*#if -A\r\n*/ y\r\n<!--#else-->\r\n/*#if B*/\r\n" = .error (.openBlock 2) := by
    decide +kernel
  have houtput : process {} (.ofNames []) "/*#if -A*/\n/*#elseif +A ||\n~B*/\n/*#endif*/" =
      .ok ⟨"", .lf, [⟨1, "-"⟩, ⟨2, "+"⟩, ⟨2, "~"⟩]⟩ := by
    decide +kernel
  exact ⟨⟨hfault, (holdsHead_of_process {} _ _).1 _ hfault⟩, houtput,
    ((holdsHead_of_process {} _ _).2 _ houtput).1 ⟨2, "~"⟩ (by simp)⟩

end GuardedText
