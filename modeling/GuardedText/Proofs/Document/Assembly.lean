import GuardedText.Document.Assembly
import GuardedText.Proofs.Document.Linear

/-!
# Assembled documents

A document assembled from statements is the one document that, written out in a
row, matches them.  A statement is first read as a mark, and what a mark does to
an assembly is said once, as a relation.  Both directions follow from it: an
assembly written out in a row is the marks taken so far, and the marks of a
document lead an assembly through the whole document.
-/

namespace GuardedText

namespace Assembly

/-! ## One statement -/

/-- What a mark can do to an assembly. -/
inductive Takes : Assembly → Mark → Assembly → Prop
  | plain {assembly : Assembly} (text : String) (line : Nat) :
      Takes assembly (.plain text line) (assembly.push (.leaf text line))
  | start {assembly : Assembly} (condition? : Option Condition) (line : Nat)
      (room : assembly.blocks.length < maxOpen) :
      Takes assembly (.start .ifTrue condition? line)
        ⟨assembly.content, ⟨line, [], ⟨.ifTrue, condition?, line, []⟩⟩ :: assembly.blocks⟩
  | alternative {content : List Node} {block : OpenBlock} {outer : List OpenBlock}
      {kind : BranchKind} (condition? : Option Condition) (line : Nat)
      (later : kind ≠ .ifTrue) (goesOn : block.current.kind ≠ .otherwise) :
      Takes ⟨content, block :: outer⟩ (.start kind condition? line)
        ⟨content, block.continueWith ⟨kind, condition?, line, []⟩ :: outer⟩
  | finish (content : List Node) (block : OpenBlock) (outer : List OpenBlock) :
      Takes ⟨content, block :: outer⟩ .finish (push block.close ⟨content, outer⟩)

theorem readCondition_eq_ok_iff {directive : Directive} {condition : Condition} :
    readCondition directive = .ok condition ↔
      ∃ text, directive.condition? = some text ∧
        Condition.parse text = .ok condition := by
  unfold readCondition
  cases directive.condition? with
  | none => simp
  | some text => simp [mapError_eq_ok_iff]

theorem start_eq_ok_iff {directive : Directive} {assembly next : Assembly}
    (hkind : directive.kind = .start .ifTrue) :
    assembly.start directive = .ok next ↔
      ∃ mark : Mark, mark.Matches (.directive directive) ∧ Takes assembly mark next := by
  unfold start
  constructor
  · intro h
    split at h
    · contradiction
    · obtain ⟨condition, hread, hnext⟩ := bind_eq_ok_iff.mp h
      obtain ⟨text, written, read⟩ := readCondition_eq_ok_iff.mp hread
      cases hnext
      exact ⟨.start .ifTrue (some condition) directive.line,
        ⟨hkind, rfl, text, condition, written, read, rfl⟩, .start _ _ (by omega)⟩
  · rintro ⟨mark, hmatch, htakes⟩
    cases htakes with
    | plain => exact hmatch.elim
    | finish => simp [Mark.Matches, hkind] at hmatch
    | alternative _ _ later => simp_all [Mark.Matches]
    | start condition? line room =>
        obtain ⟨-, rfl, text, condition, written, read, rfl⟩ := hmatch
        rw [if_neg (by omega), bind_eq_ok_iff]
        exact ⟨condition, readCondition_eq_ok_iff.mpr ⟨text, written, read⟩, rfl⟩

def branchCondition (kind : BranchKind) (directive : Directive) :
    Except Fault (Option Condition) :=
  if kind.takesCondition then some <$> readCondition directive else pure none

theorem branchCondition_eq_ok_iff {directive : Directive} {kind : BranchKind}
    {condition? : Option Condition} :
    branchCondition kind directive = .ok condition? ↔
      if kind.takesCondition then
        ∃ text condition, directive.condition? = some text ∧
          Condition.parse text = .ok condition ∧ condition? = some condition
      else condition? = none := by
  unfold branchCondition
  split
  · rw [map_eq_pure_bind, bind_eq_ok_iff]
    simp only [readCondition_eq_ok_iff]
    constructor
    · rintro ⟨condition, ⟨text, written, read⟩, hsome⟩
      cases hsome
      exact ⟨text, condition, written, read, rfl⟩
    · rintro ⟨text, condition, written, read, rfl⟩
      exact ⟨condition, ⟨text, written, read⟩, rfl⟩
  · constructor
    · intro h
      cases h
      rfl
    · rintro rfl
      rfl

theorem alternative_cons (kind : BranchKind) (directive : Directive)
    (content : List Node) (block : OpenBlock) (outer : List OpenBlock) :
    alternative kind directive ⟨content, block :: outer⟩ =
      branchCondition kind directive >>= fun condition? =>
        if block.current.kind = .otherwise then
          .error (.branchAfterElse directive.line kind)
        else
          pure ⟨content, block.continueWith ⟨kind, condition?, directive.line, []⟩ ::
            outer⟩ := by
  unfold alternative branchCondition
  cases kind.takesCondition <;> rfl

theorem alternative_eq_ok_iff {directive : Directive} {assembly next : Assembly}
    {kind : BranchKind} (hkind : directive.kind = .start kind) (later : kind ≠ .ifTrue) :
    assembly.alternative kind directive = .ok next ↔
      ∃ mark : Mark, mark.Matches (.directive directive) ∧ Takes assembly mark next := by
  constructor
  · intro h
    obtain ⟨content, _ | ⟨block, outer⟩⟩ := assembly
    · contradiction
    · rw [alternative_cons] at h
      obtain ⟨condition?, hread, hplace⟩ := bind_eq_ok_iff.mp h
      split at hplace
      · contradiction
      · cases hplace
        exact ⟨.start kind condition? directive.line,
          ⟨hkind, rfl, branchCondition_eq_ok_iff.mp hread⟩,
          .alternative _ _ later (by assumption)⟩
  · rintro ⟨mark, hmatch, htakes⟩
    cases htakes with
    | plain => exact hmatch.elim
    | finish => simp [Mark.Matches, hkind] at hmatch
    | start => simp_all [Mark.Matches]
    | alternative condition? line _ goesOn =>
        obtain ⟨hfound, rfl, hread⟩ := hmatch
        cases hkind.symm.trans hfound
        rw [alternative_cons]
        refine bind_eq_ok_iff.mpr
          ⟨condition?, branchCondition_eq_ok_iff.mpr hread, ?_⟩
        rw [if_neg goesOn]
        rfl

theorem finish_eq_ok_iff {directive : Directive} {assembly next : Assembly}
    (hkind : directive.kind = .finish) :
    assembly.finish directive = .ok next ↔
      ∃ mark : Mark, mark.Matches (.directive directive) ∧ Takes assembly mark next := by
  constructor
  · intro h
    obtain ⟨content, _ | ⟨block, outer⟩⟩ := assembly
    · contradiction
    · cases h
      exact ⟨.finish, hkind, .finish content block outer⟩
  · rintro ⟨mark, hmatch, htakes⟩
    cases htakes with
    | plain => exact hmatch.elim
    | start => simp [Mark.Matches, hkind] at hmatch
    | alternative => simp [Mark.Matches, hkind] at hmatch
    | finish => rfl

theorem step_eq_ok_iff {assembly next : Assembly} {statement : Statement} :
    assembly.step statement = .ok next ↔
      ∃ mark : Mark, mark.Matches statement ∧ Takes assembly mark next := by
  cases statement with
  | plain text line =>
      simp only [step, Except.ok.injEq]
      constructor
      · rintro rfl
        exact ⟨.plain text line, ⟨rfl, rfl⟩, .plain text line⟩
      · rintro ⟨mark, hmatch, htakes⟩
        cases htakes with
        | plain =>
            obtain ⟨rfl, rfl⟩ := hmatch
            rfl
        | start => exact hmatch.elim
        | alternative => exact hmatch.elim
        | finish => exact hmatch.elim
  | directive directive =>
      simp only [step]
      split
      · exact start_eq_ok_iff (by assumption)
      · exact alternative_eq_ok_iff (by assumption) (by assumption)
      · exact finish_eq_ok_iff (by assumption)

/-! ## Many statements -/

inductive TakesAll : Assembly → List Mark → Assembly → Prop
  | nil (assembly : Assembly) : TakesAll assembly [] assembly
  | cons {assembly next final : Assembly} {mark : Mark} {marks : List Mark}
      (first : Takes assembly mark next) (rest : TakesAll next marks final) :
      TakesAll assembly (mark :: marks) final

theorem TakesAll.append {assembly middle final : Assembly} {first second : List Mark}
    (hfirst : TakesAll assembly first middle) (hsecond : TakesAll middle second final) :
    TakesAll assembly (first ++ second) final := by
  induction hfirst with
  | nil => exact hsecond
  | cons htakes _ ih => exact .cons htakes (ih hsecond)

theorem foldlM_step_eq_ok_iff {assembly final : Assembly}
    {statements : List Statement} :
    statements.foldlM step assembly = .ok final ↔
      ∃ marks, List.Forall₂ Mark.Matches marks statements ∧
        TakesAll assembly marks final := by
  induction statements generalizing assembly with
  | nil =>
      constructor
      · intro h
        cases h
        exact ⟨[], .nil, .nil _⟩
      · rintro ⟨_, ⟨⟩, ⟨⟩⟩
        rfl
  | cons statement statements ih =>
      rw [foldlM_cons_eq_ok_iff]
      constructor
      · rintro ⟨next, hstep, hrest⟩
        obtain ⟨mark, hmatch, htakes⟩ := step_eq_ok_iff.mp hstep
        obtain ⟨marks, hmatches, htakesAll⟩ := ih.mp hrest
        exact ⟨mark :: marks, .cons hmatch hmatches, .cons htakes htakesAll⟩
      · rintro ⟨_, _ | ⟨hmatch, hmatches⟩, _ | ⟨htakes, htakesAll⟩⟩
        exact ⟨_, step_eq_ok_iff.mpr ⟨_, hmatch, htakes⟩,
          ih.mpr ⟨_, hmatches, htakesAll⟩⟩

end Assembly

/-! ## What an assembly has read -/

namespace OpenBlock

def branches (block : OpenBlock) : List Branch :=
  block.earlier.reverse ++ [block.current.close]

theorem close_eq (block : OpenBlock) : block.close = .block block.branches := by
  simp [close, branches]

theorem branches_continueWith (block : OpenBlock) (branch : OpenBranch) :
    (block.continueWith branch).branches = block.branches ++ [branch.close] := by
  simp [continueWith, branches]

structure Sound (outer : Nat) (block : OpenBlock) : Prop where
  inOrder : InOrder (block.branches.map (·.kind))
  wellFormed : WellFormedBranches block.branches
  shallow : branchDepth block.branches + outer < Assembly.maxOpen

theorem branchMarks_push (node : Node) (block : OpenBlock) :
    branchMarks (block.push node).branches =
      branchMarks block.branches ++ marks [node] := by
  simp [push, branches, OpenBranch.close, branchMarks_append, branchMarks, marks_append]

theorem Sound.push {outer : Nat} {block : OpenBlock} {node : Node}
    (h : block.Sound outer) (wellFormed : WellFormed [node])
    (shallow : depth [node] + outer < Assembly.maxOpen) :
    (block.push node).Sound outer := by
  obtain ⟨horder, hwell, hshallow⟩ := h
  simp only [branches, OpenBranch.close, wellFormedBranches_append, WellFormedBranches,
    branchDepth_append, branchDepth, List.map_append, List.map_cons] at horder hwell hshallow
  refine ⟨?_, ?_, ?_⟩
  · simpa [branches, OpenBlock.push, OpenBranch.close] using horder
  · simp [branches, OpenBlock.push, OpenBranch.close, wellFormedBranches_append,
      WellFormedBranches, wellFormed_append, hwell, wellFormed]
  · simp only [branches, OpenBlock.push, OpenBranch.close, branchDepth_append, branchDepth,
      List.reverse_cons, depth_append]
    omega

theorem Sound.continueWith {outer : Nat} {block : OpenBlock} {kind : BranchKind}
    {condition? : Option Condition} {line : Nat} (h : block.Sound outer)
    (later : kind ≠ .ifTrue) (goesOn : block.current.kind ≠ .otherwise)
    (fits : condition?.isSome = kind.takesCondition) :
    (block.continueWith ⟨kind, condition?, line, []⟩).Sound outer := by
  obtain ⟨horder, hwell, hshallow⟩ := h
  refine ⟨?_, ?_, ?_⟩
  · rw [branches_continueWith]
    simp only [branches, OpenBranch.close, List.map_append, List.map_cons,
      List.map_nil] at horder ⊢
    exact horder.concat goesOn later
  · simp [branches_continueWith, OpenBranch.close, wellFormedBranches_append, hwell,
      WellFormedBranches, WellFormed, fits]
  · simp only [branches_continueWith, OpenBranch.close, branchDepth_append, branchDepth,
      List.reverse_nil, depth]
    omega

end OpenBlock

namespace Assembly

def marks (assembly : Assembly) : List Mark :=
  GuardedText.marks assembly.content.reverse ++
    assembly.blocks.reverse.flatMap fun block => branchMarks block.branches

def StackSound : List OpenBlock → Prop
  | [] => True
  | block :: outer => block.Sound outer.length ∧ StackSound outer

structure Sound (assembly : Assembly) : Prop where
  wellFormed : WellFormed assembly.content.reverse
  shallow : depth assembly.content.reverse ≤ maxOpen
  blocks : StackSound assembly.blocks

theorem marks_push (node : Node) (assembly : Assembly) :
    (assembly.push node).marks = assembly.marks ++ GuardedText.marks [node] := by
  obtain ⟨content, _ | ⟨block, outer⟩⟩ := assembly
  · simp [push, marks, marks_append]
  · simp [push, marks, OpenBlock.branchMarks_push]

theorem Sound.length_le {assembly : Assembly} (h : assembly.Sound) :
    assembly.blocks.length ≤ maxOpen := by
  obtain ⟨content, _ | ⟨block, outer⟩⟩ := assembly
  · simp
  · have := h.blocks.1.shallow
    simp only [List.length_cons]
    omega

theorem Sound.push {assembly : Assembly} {node : Node} (h : assembly.Sound)
    (wellFormed : WellFormed [node])
    (shallow : depth [node] + assembly.blocks.length ≤ maxOpen) :
    (assembly.push node).Sound := by
  obtain ⟨hwell, hshallow, hblocks⟩ := h
  obtain ⟨content, _ | ⟨block, outer⟩⟩ := assembly
  · refine ⟨?_, ?_, trivial⟩
    · simp [Assembly.push, wellFormed_append, hwell, wellFormed]
    · simp only [Assembly.push, List.reverse_cons, depth_append]
      exact Nat.max_le.mpr ⟨hshallow, shallow⟩
  · exact ⟨hwell, hshallow, hblocks.1.push wellFormed shallow, hblocks.2⟩

theorem Takes.marks_eq {assembly next : Assembly} {mark : Mark}
    (h : Takes assembly mark next) : next.marks = assembly.marks ++ [mark] := by
  cases h with
  | plain text line => simp [marks_push, GuardedText.marks]
  | start condition? line room =>
      simp [marks, OpenBlock.branches, OpenBranch.close, branchMarks,
        GuardedText.marks]
  | alternative condition? line later goesOn =>
      simp [marks, OpenBlock.branches_continueWith, branchMarks_append,
        OpenBranch.close, branchMarks, GuardedText.marks]
  | finish content block outer =>
      rw [marks_push, OpenBlock.close_eq]
      simp [marks, GuardedText.marks]

theorem Takes.sound {assembly next : Assembly} {mark : Mark} {statement : Statement}
    (h : Takes assembly mark next) (hmatch : mark.Matches statement)
    (hsound : assembly.Sound) : next.Sound := by
  cases h with
  | plain text line =>
      refine hsound.push ?_ ?_
      · simp [WellFormed]
      · simpa [depth] using hsound.length_le
  | start condition? line room =>
      refine ⟨hsound.wellFormed, hsound.shallow, ⟨?_, ?_, ?_⟩, hsound.blocks⟩
      · exact inOrder_ifTrue
      · simp [OpenBlock.branches, OpenBranch.close, WellFormedBranches, WellFormed,
          hmatch.condition_fits]
      · simpa [OpenBlock.branches, OpenBranch.close, branchDepth, depth] using room
  | alternative condition? line later goesOn =>
      obtain ⟨hwell, hshallow, hblock, houter⟩ := hsound
      exact ⟨hwell, hshallow,
        hblock.continueWith later goesOn hmatch.condition_fits, houter⟩
  | finish content block outer =>
      obtain ⟨hwell, hshallow, hblock, houter⟩ := hsound
      refine Sound.push ⟨hwell, hshallow, houter⟩ ?_ ?_
      · simp [OpenBlock.close_eq, WellFormed, hblock.inOrder, hblock.wellFormed]
      · have := hblock.shallow
        simp only [OpenBlock.close_eq, depth]
        omega

theorem sound_empty : Assembly.empty.Sound :=
  ⟨by simp [empty, WellFormed], by simp [empty, depth], trivial⟩

theorem TakesAll.sound {assembly final : Assembly} {marks : List Mark}
    {statements : List Statement} (h : TakesAll assembly marks final)
    (hmatches : List.Forall₂ Mark.Matches marks statements)
    (hsound : assembly.Sound) :
    final.Sound ∧ final.marks = assembly.marks ++ marks := by
  induction h generalizing statements with
  | nil => exact ⟨hsound, by simp⟩
  | cons htakes _ ih =>
      obtain _ | ⟨hmatch, hmatches⟩ := hmatches
      obtain ⟨hfinal, hmarks⟩ := ih hmatches (htakes.sound hmatch hsound)
      exact ⟨hfinal, by rw [hmarks, htakes.marks_eq]; simp⟩

/-! ## Through a whole document -/

def pushAll (nodes : List Node) : Assembly → Assembly
  | ⟨content, []⟩ => ⟨nodes.reverse ++ content, []⟩
  | ⟨content, ⟨line, earlier, kind, condition?, branchLine, body⟩ :: outer⟩ =>
    ⟨content, ⟨line, earlier, kind, condition?, branchLine, nodes.reverse ++ body⟩ :: outer⟩

theorem pushAll_nil (assembly : Assembly) : assembly.pushAll [] = assembly := by
  obtain ⟨content, _ | ⟨block, outer⟩⟩ := assembly <;> rfl

theorem pushAll_push (node : Node) (nodes : List Node) (assembly : Assembly) :
    (assembly.push node).pushAll nodes = assembly.pushAll (node :: nodes) := by
  obtain ⟨content, _ | ⟨block, outer⟩⟩ := assembly <;>
    simp [push, pushAll, OpenBlock.push]

theorem length_blocks_push (node : Node) (assembly : Assembly) :
    (assembly.push node).blocks.length = assembly.blocks.length := by
  obtain ⟨content, _ | ⟨block, outer⟩⟩ := assembly <;> rfl

-- The room is what the blocks that are open leave of the limit.  A body is read with
-- one more block open than the nodes around it, and its depth is one less.
mutual

theorem takesAll_marks (nodes : List Node) (assembly : Assembly)
    (wellFormed : WellFormed nodes)
    (room : depth nodes + assembly.blocks.length ≤ maxOpen) :
    TakesAll assembly (GuardedText.marks nodes) (assembly.pushAll nodes) := by
  match nodes with
  | [] =>
      rw [pushAll_nil]
      simp only [GuardedText.marks]
      exact .nil assembly
  | .leaf text line :: rest =>
      simp only [GuardedText.marks]
      simp only [WellFormed] at wellFormed
      simp only [depth] at room
      rw [← pushAll_push]
      refine .cons (.plain text line) (takesAll_marks rest _ wellFormed ?_)
      rw [length_blocks_push]
      exact room
  | .block [] :: rest =>
      rw [WellFormed] at wellFormed
      exact absurd wellFormed.1 not_inOrder_nil
  | .block (⟨kind, condition?, body, line⟩ :: later) :: rest =>
      rw [WellFormed, WellFormedBranches] at wellFormed
      obtain ⟨inOrder, ⟨-, hbody, hlater⟩, hrest⟩ := wellFormed
      simp only [depth, branchDepth] at room
      obtain rfl := inOrder.head_eq
      let opened : Assembly :=
        ⟨assembly.content, ⟨line, [], ⟨.ifTrue, condition?, line, []⟩⟩ :: assembly.blocks⟩
      have hstart : Takes assembly (.start .ifTrue condition? line) opened :=
        .start condition? line (by omega)
      have hfirst := takesAll_marks body opened hbody (by simp [opened]; omega)
      have hfirstBranches : OpenBlock.branches ⟨line, [], ⟨.ifTrue, condition?, line,
          body.reverse ++ []⟩⟩ = [⟨.ifTrue, condition?, body, line⟩] := by
        simp [OpenBlock.branches, OpenBranch.close]
      obtain ⟨last, hlast, hothers⟩ := takesAll_branchMarks later assembly.content
        ⟨line, [], ⟨.ifTrue, condition?, line, body.reverse ++ []⟩⟩ assembly.blocks
        (by rw [hfirstBranches]; exact inOrder) hlater (by omega)
      have hfinish := Takes.finish assembly.content last assembly.blocks
      rw [OpenBlock.close_eq, hlast, hfirstBranches] at hfinish
      have hafter := takesAll_marks rest
        (assembly.push (.block (⟨.ifTrue, condition?, body, line⟩ :: later))) hrest
        (by rw [length_blocks_push]; omega)
      rw [← pushAll_push]
      simp only [GuardedText.marks, branchMarks, List.cons_append, List.append_assoc]
      exact .cons hstart (hfirst.append (hothers.append (.cons hfinish hafter)))

theorem takesAll_branchMarks (later : List Branch) (content : List Node)
    (block : OpenBlock) (outer : List OpenBlock)
    (inOrder : InOrder ((block.branches ++ later).map (·.kind)))
    (wellFormed : WellFormedBranches later)
    (room : branchDepth later + outer.length < maxOpen) :
    ∃ last : OpenBlock, last.branches = block.branches ++ later ∧
      TakesAll ⟨content, block :: outer⟩ (branchMarks later) ⟨content, last :: outer⟩ := by
  match later with
  | [] => exact ⟨block, by simp, by simpa [branchMarks] using .nil _⟩
  | ⟨kind, condition?, body, line⟩ :: rest =>
      rw [WellFormedBranches] at wellFormed
      obtain ⟨-, hbody, hrest⟩ := wellFormed
      simp only [branchDepth] at room
      have hadjacent : block.current.kind ≠ .otherwise ∧ kind ≠ .ifTrue := by
        simp only [OpenBlock.branches, OpenBranch.close, List.map_append, List.map_cons,
          List.append_assoc, List.singleton_append] at inOrder
        exact inOrder.adjacent
      let continued := block.continueWith ⟨kind, condition?, line, body.reverse ++ []⟩
      have hcontinued : continued.branches =
          block.branches ++ [⟨kind, condition?, body, line⟩] := by
        simp [continued, OpenBlock.branches_continueWith, OpenBranch.close]
      have hstart : Takes ⟨content, block :: outer⟩ (.start kind condition? line)
          ⟨content, block.continueWith ⟨kind, condition?, line, []⟩ :: outer⟩ :=
        .alternative condition? line hadjacent.2 hadjacent.1
      have hfirst := takesAll_marks body
        ⟨content, block.continueWith ⟨kind, condition?, line, []⟩ :: outer⟩ hbody
        (by simp; omega)
      obtain ⟨last, hlast, hothers⟩ := takesAll_branchMarks rest content continued outer
        (by simpa [hcontinued] using inOrder) hrest (by omega)
      refine ⟨last, by simp [hlast, hcontinued], ?_⟩
      simp only [branchMarks, List.cons_append]
      exact .cons hstart (hfirst.append hothers)

end

end Assembly

namespace Document

/-- The document is one that the statements can be read as. -/
structure IsReadingOf (document : Document) (statements : List Statement) : Prop where
  wellFormed : WellFormed document.content
  shallow : document.maxDepth ≤ 256
  inStep : List.Forall₂ Mark.Matches (marks document.content) statements

theorem isReadingOf_of_ofStatements {statements : List Statement} {document : Document}
    (h : ofStatements statements = .ok document) : document.IsReadingOf statements := by
  obtain ⟨final, hrun, hend⟩ := bind_eq_ok_iff.mp h
  obtain ⟨marks, hmatches, htakes⟩ := Assembly.foldlM_step_eq_ok_iff.mp hrun
  obtain ⟨hsound, hmarks⟩ := htakes.sound hmatches Assembly.sound_empty
  obtain ⟨content, _ | ⟨block, outer⟩⟩ := final
  · cases hend
    have hcontent : GuardedText.marks content.reverse = marks := by
      simpa [Assembly.marks, Assembly.empty, GuardedText.marks] using hmarks
    exact ⟨hsound.wellFormed, hsound.shallow, hcontent ▸ hmatches⟩
  · rw [Assembly.toDocument, List.getLast?_cons] at hend
    contradiction

theorem ofStatements_of_isReadingOf {statements : List Statement} {document : Document}
    (h : document.IsReadingOf statements) : ofStatements statements = .ok document := by
  have htakes := Assembly.takesAll_marks document.content .empty h.wellFormed h.shallow
  have hrun := Assembly.foldlM_step_eq_ok_iff.mpr ⟨_, h.inStep, htakes⟩
  refine bind_eq_ok_iff.mpr ⟨_, hrun, ?_⟩
  simp [Assembly.empty, Assembly.pushAll, Assembly.toDocument]

/-- Statements are assembled into a document exactly if they are, one by one, the
plain lines, branch starts and block ends of that document, where its blocks are
of the right form and at most 256 of them stand inside each other.  No other
document has these statements. -/
theorem ofStatements_eq_ok_iff (statements : List Statement) (document : Document) :
    (ofStatements statements = .ok document ↔ document.IsReadingOf statements) ∧
      ∀ other : Document, document.IsReadingOf statements →
        other.IsReadingOf statements → other = document := by
  refine ⟨⟨isReadingOf_of_ofStatements, ofStatements_of_isReadingOf⟩, ?_⟩
  intro other hdocument hother
  have hsame := (ofStatements_of_isReadingOf hother).symm.trans
    (ofStatements_of_isReadingOf hdocument)
  exact Except.ok.inj hsame

end Document

end GuardedText
