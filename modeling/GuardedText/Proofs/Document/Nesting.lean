import Mathlib.Data.List.Infix
import Mathlib.Order.Bounds.Defs
import GuardedText.Proofs.Document.FirstFault

/-!
# How deep blocks stand

The depth of a document is a recursion over the finished tree; the limit is set on the
number of blocks that are open at once.  Both are counts over the statements: the blocks
that are open are the `if`s less the `endif`s of what has been read, and the depth is the
greatest such number on the way.  To see this of a document that is still being assembled,
its measures are taken as if every open block ended here.
-/

namespace GuardedText

namespace Statement

def rise (statements : List Statement) : Int :=
  statements.countP startsBlock - statements.countP endsBlock

/-- The greatest rise of a beginning of the statements; that of the empty one is 0. -/
def peak (statements : List Statement) : Int :=
  (statements.inits.map rise).foldl max 0

theorem rise_concat (read : List Statement) (statement : Statement) :
    rise (read ++ [statement]) = rise read + rise [statement] := by
  simp only [rise, List.countP_append]
  omega

theorem rise_of_startsBlock {opening : Directive} (h : opening.kind = .start .ifTrue) :
    rise [.directive opening] = 1 := by
  obtain ⟨hstarts, hends⟩ := starts_of_ifTrue h
  simp [rise, hstarts, hends]

theorem peak_nil : peak [] = 0 := by
  simp [peak, rise]

theorem peak_concat (read : List Statement) (statement : Statement) :
    peak (read ++ [statement]) = max (peak read) (rise (read ++ [statement])) := by
  simp [peak, List.inits_append]

theorem isGreatest_peak (statements : List Statement) :
    IsGreatest {height | ∃ part, part <+: statements ∧ rise part = height}
      (peak statements) := by
  induction statements using List.reverseRecOn with
  | nil =>
      refine ⟨⟨[], List.prefix_rfl, rfl⟩, ?_⟩
      rintro height ⟨part, hpart, rfl⟩
      rw [List.prefix_nil.mp hpart]
      exact Int.le_refl _
  | append_singleton read statement ih =>
      obtain ⟨⟨part, hpart, hrise⟩, hbound⟩ := ih
      rw [peak_concat]
      constructor
      · rcases Int.le_total (rise (read ++ [statement])) (peak read) with hle | hle
        · exact ⟨part, hpart.trans (List.prefix_append _ _), by omega⟩
        · exact ⟨read ++ [statement], List.prefix_rfl, by omega⟩
      · rintro height ⟨other, hother, rfl⟩
        rcases List.prefix_concat_iff.mp hother with rfl | hother
        · exact Int.le_max_right _ _
        · exact Int.le_trans (hbound ⟨other, hother, rfl⟩) (Int.le_max_left _ _)

end Statement

/-! ## Measures of an assembly -/

theorem countBlocks_append (first second : List Node) :
    countBlocks (first ++ second) = countBlocks first + countBlocks second := by
  induction first with
  | nil => simp [countBlocks]
  | cons node rest ih => cases node <;> simp [countBlocks, ih, Nat.add_assoc]

theorem countBranchBlocks_append (first second : List Branch) :
    countBranchBlocks (first ++ second) =
      countBranchBlocks first + countBranchBlocks second := by
  induction first with
  | nil => simp [countBranchBlocks]
  | cons branch rest ih =>
      obtain ⟨kind, condition?, body, line⟩ := branch
      simp [countBranchBlocks, ih, Nat.add_assoc]

namespace OpenBlock

theorem branchDepth_push (node : Node) (block : OpenBlock) :
    branchDepth (block.push node).branches =
      max (branchDepth block.branches) (depth [node]) := by
  simp only [push, branches, OpenBranch.close, branchDepth_append, branchDepth,
    List.reverse_cons, depth_append]
  omega

theorem countBranchBlocks_push (node : Node) (block : OpenBlock) :
    countBranchBlocks (block.push node).branches =
      countBranchBlocks block.branches + countBlocks [node] := by
  simp only [push, branches, OpenBranch.close, countBranchBlocks_append, countBranchBlocks,
    List.reverse_cons, countBlocks_append]
  omega

end OpenBlock

namespace Assembly

def stackDepth : List OpenBlock → Nat
  | [] => 0
  | block :: outer =>
    max (outer.length + (1 + branchDepth block.branches)) (stackDepth outer)

def stackCount : List OpenBlock → Nat
  | [] => 0
  | block :: outer => 1 + countBranchBlocks block.branches + stackCount outer

def depthSoFar (assembly : Assembly) : Nat :=
  max (depth assembly.content.reverse) (stackDepth assembly.blocks)

def countSoFar (assembly : Assembly) : Nat :=
  countBlocks assembly.content.reverse + stackCount assembly.blocks

theorem length_le_depthSoFar (assembly : Assembly) :
    assembly.blocks.length ≤ assembly.depthSoFar := by
  obtain ⟨content, _ | ⟨block, outer⟩⟩ := assembly
  · exact Nat.zero_le _
  · simp only [depthSoFar, stackDepth, List.length_cons]
    omega

theorem depthSoFar_push (node : Node) (assembly : Assembly) :
    (assembly.push node).depthSoFar =
      max assembly.depthSoFar (assembly.blocks.length + depth [node]) := by
  obtain ⟨content, _ | ⟨block, outer⟩⟩ := assembly
  · simp [push, depthSoFar, stackDepth, depth_append]
  · simp only [push, depthSoFar, stackDepth, OpenBlock.branchDepth_push, List.length_cons]
    omega

theorem countSoFar_push (node : Node) (assembly : Assembly) :
    (assembly.push node).countSoFar = assembly.countSoFar + countBlocks [node] := by
  obtain ⟨content, _ | ⟨block, outer⟩⟩ := assembly
  · simp [push, countSoFar, stackCount, countBlocks_append]
  · simp only [push, countSoFar, stackCount, OpenBlock.countBranchBlocks_push]
    omega

theorem Takes.depthSoFar_eq {assembly next : Assembly} {mark : Mark}
    (h : Takes assembly mark next) :
    next.depthSoFar = max assembly.depthSoFar next.blocks.length := by
  have hopen := length_le_depthSoFar assembly
  cases h with
  | plain text line =>
      rw [depthSoFar_push, length_blocks_push]
      simp [depth]
  | start condition? line room =>
      simp only [depthSoFar, stackDepth, OpenBlock.branches, OpenBranch.close, branchDepth,
        depth, List.reverse_nil, List.nil_append, List.length_cons]
      omega
  | alternative condition? line later goesOn =>
      simp only [depthSoFar, stackDepth, OpenBlock.branches_continueWith, branchDepth_append,
        OpenBranch.close, branchDepth, depth, List.reverse_nil, List.length_cons] at hopen ⊢
      omega
  | finish content block outer =>
      rw [depthSoFar_push, length_blocks_push, OpenBlock.close_eq]
      simp only [depthSoFar, stackDepth, depth, List.length_cons] at hopen ⊢
      omega

theorem step_countSoFar {assembly next : Assembly} {statement : Statement}
    (h : assembly.step statement = .ok next) :
    next.countSoFar = assembly.countSoFar + [statement].countP Statement.startsBlock := by
  obtain ⟨mark, hmatch, htakes⟩ := step_eq_ok_iff.mp h
  cases htakes with
  | plain text line =>
      cases statement with
      | directive directive => exact hmatch.elim
      | plain found foundLine =>
          rw [countSoFar_push]
          simp [countBlocks, Statement.startsBlock]
  | start condition? line room =>
      obtain ⟨opening, rfl⟩ := hmatch.exists_directive (by simp)
      rw [List.countP_singleton, if_pos (Statement.starts_of_ifTrue hmatch.1).1]
      simp only [countSoFar, stackCount, OpenBlock.branches, OpenBranch.close,
        countBranchBlocks, countBlocks, List.reverse_nil, List.nil_append]
      omega
  | @alternative content block outer kind condition? line later goesOn =>
      obtain ⟨directive, rfl⟩ := hmatch.exists_directive (by simp)
      have hstarts : Statement.startsBlock (.directive directive) = false := by
        simpa [Statement.startsBlock, hmatch.1] using later
      simp [countSoFar, stackCount, OpenBlock.branches_continueWith, countBranchBlocks_append,
        OpenBranch.close, countBranchBlocks, countBlocks, hstarts]
  | finish content block outer =>
      obtain ⟨directive, rfl⟩ := hmatch.exists_directive (by simp)
      have hkind : directive.kind = .finish := hmatch
      have hstarts : Statement.startsBlock (.directive directive) = false := by
        simp [Statement.startsBlock, hkind]
      rw [countSoFar_push, OpenBlock.close_eq, List.countP_singleton, hstarts]
      simp only [countSoFar, stackCount, countBlocks, Bool.false_eq_true, if_false]
      omega

/-! ## Measures of what has been read -/

structure Gauges (read : List Statement) (assembly : Assembly) : Prop where
  tracks : Tracks read assembly
  depth_eq : assembly.depthSoFar = Statement.peak read
  count_eq : assembly.countSoFar = read.countP Statement.startsBlock

theorem Tracks.rise_eq {read : List Statement} {assembly : Assembly}
    (h : Tracks read assembly) : Statement.rise read = assembly.blocks.length := by
  have hheight := h.height
  rw [lines, List.length_map] at hheight
  rw [Statement.rise]
  omega

theorem gauges_empty : Gauges [] .empty where
  tracks := tracks_empty
  depth_eq := by simp [depthSoFar, empty, stackDepth, depth, Statement.peak_nil]
  count_eq := by simp [countSoFar, empty, stackCount, countBlocks]

theorem Gauges.step {read : List Statement} {assembly next : Assembly}
    {statement : Statement} (h : Gauges read assembly)
    (hstep : assembly.step statement = .ok next) : Gauges (read ++ [statement]) next where
  tracks := h.tracks.step hstep
  depth_eq := by
    obtain ⟨mark, -, htakes⟩ := step_eq_ok_iff.mp hstep
    rw [htakes.depthSoFar_eq, Statement.peak_concat, (h.tracks.step hstep).rise_eq,
      ← h.depth_eq]
    omega
  count_eq := by
    rw [step_countSoFar hstep, h.count_eq, List.countP_append]

theorem gauges_of_run {statements : List Statement} {assembly : Assembly}
    (h : statements.foldlM step .empty = .ok assembly) : Gauges statements assembly := by
  have hrun : Gauges ([] ++ statements) assembly :=
    foldlM_preserves (fun hread hstep => hread.step hstep) gauges_empty h
  exact hrun

theorem rise_le_of_run {statements : List Statement} {assembly : Assembly}
    (h : statements.foldlM step .empty = .ok assembly) :
    Statement.rise statements ≤ maxOpen := by
  obtain ⟨marks, hmatches, htakes⟩ := foldlM_step_eq_ok_iff.mp h
  have hlength := (htakes.sound hmatches sound_empty).1.length_le
  rw [(gauges_of_run h).tracks.rise_eq]
  omega

/-! ## Without a limit -/

def startUnlimited (directive : Directive) (assembly : Assembly) :
    Except Fault Assembly := do
  let condition ← readCondition directive
  let branch : OpenBranch := ⟨.ifTrue, some condition, directive.line, []⟩
  return { assembly with blocks := ⟨directive.line, [], branch⟩ :: assembly.blocks }

def stepUnlimited (assembly : Assembly) : Statement → Except Fault Assembly
  | .plain text line => .ok (assembly.push (.leaf text line))
  | .directive directive =>
    match directive.kind with
    | .start .ifTrue => assembly.startUnlimited directive
    | .start kind => assembly.alternative kind directive
    | .finish => assembly.finish directive

theorem step_eq_stepUnlimited (assembly : Assembly) (statement : Statement) :
    assembly.step statement =
      if statement.startsBlock ∧ maxOpen ≤ assembly.blocks.length then
        .error (.tooDeep statement.line maxOpen)
      else assembly.stepUnlimited statement := by
  cases statement with
  | plain text line => simp [step, stepUnlimited, Statement.startsBlock]
  | directive directive =>
      obtain ⟨kind, condition?, source, line, style⟩ := directive
      cases kind with
      | finish => simp [step, stepUnlimited, Statement.startsBlock]
      | start branch =>
          cases branch with
          | ifTrue =>
              simp only [step, stepUnlimited, start, startUnlimited, Statement.startsBlock,
                Statement.line, beq_self_eq_true, true_and]
          | elseIf => simp [step, stepUnlimited, Statement.startsBlock]
          | otherwise => simp [step, stepUnlimited, Statement.startsBlock]

theorem stepUnlimited_of_step {assembly next : Assembly} {statement : Statement}
    (h : assembly.step statement = .ok next) : assembly.stepUnlimited statement = .ok next := by
  rw [step_eq_stepUnlimited] at h
  split at h
  · contradiction
  · exact h

theorem foldlM_stepUnlimited_of_step {assembly final : Assembly}
    {statements : List Statement} (h : statements.foldlM step assembly = .ok final) :
    statements.foldlM stepUnlimited assembly = .ok final := by
  induction statements generalizing assembly with
  | nil => exact h
  | cons statement rest ih =>
      obtain ⟨next, hstep, hrest⟩ := foldlM_cons_eq_ok_iff.mp h
      exact foldlM_cons_eq_ok_iff.mpr ⟨next, stepUnlimited_of_step hstep, ih hrest⟩

theorem tooDeep_of_step {assembly next : Assembly} {statement : Statement} {fault : Fault}
    (h : assembly.step statement = .error fault)
    (hunlimited : assembly.stepUnlimited statement = .ok next) :
    maxOpen ≤ assembly.blocks.length ∧ fault = .tooDeep statement.line maxOpen ∧
      ∃ opening, statement = .directive opening ∧ opening.kind = .start .ifTrue := by
  rw [step_eq_stepUnlimited] at h
  split at h
  · rename_i hfull
    obtain ⟨hstarts, hfull⟩ := hfull
    cases h
    refine ⟨hfull, rfl, ?_⟩
    cases statement with
    | plain text line => contradiction
    | directive opening => exact ⟨opening, rfl, by simpa [Statement.startsBlock] using hstarts⟩
  · rw [hunlimited] at h
    contradiction

end Assembly

namespace Document

/-- The document that the statements are assembled into if any number of blocks can be
open. -/
def ofStatementsUnlimited (statements : List Statement) : Except Fault Document := do
  (← statements.foldlM Assembly.stepUnlimited .empty).toDocument

theorem measures_of_ofStatements {statements : List Statement} {document : Document}
    (h : ofStatements statements = .ok document) :
    document.blockCount = statements.countP Statement.startsBlock ∧
      document.blockCount = statements.countP Statement.endsBlock ∧
      document.maxDepth = Statement.peak statements := by
  obtain ⟨assembly, hrun, hend⟩ := bind_eq_ok_iff.mp h
  have hgauges := Assembly.gauges_of_run hrun
  obtain ⟨content, blocks⟩ := assembly
  obtain rfl : blocks = [] := Assembly.toDocument_eq_ok_iff.mp ⟨document, hend⟩
  cases hend
  have hcount : countBlocks content.reverse = statements.countP Statement.startsBlock :=
    hgauges.count_eq
  have hheight : statements.countP Statement.endsBlock =
      statements.countP Statement.startsBlock := hgauges.tracks.height
  refine ⟨hcount, hcount.trans hheight.symm, ?_⟩
  rw [← hgauges.depth_eq]
  simp [Assembly.depthSoFar, Assembly.stackDepth, maxDepth]

structure ExceedsAt (read : List Statement) (opening : Directive) : Prop where
  starts : opening.kind = .start .ifTrue
  reaches : Statement.rise (read ++ [.directive opening]) = 257
  before : ∀ part, part <+: read → Statement.rise part ≤ 256

theorem exceedsAt_of_step {read : List Statement} {reached : Assembly} {opening : Directive}
    (hread : read.foldlM Assembly.step .empty = .ok reached)
    (hfull : Assembly.maxOpen ≤ reached.blocks.length)
    (hkind : opening.kind = .start .ifTrue) : ExceedsAt read opening where
  starts := hkind
  reaches := by
    have hrise := (Assembly.gauges_of_run hread).tracks.rise_eq
    have hbound := Assembly.rise_le_of_run hread
    rw [Statement.rise_concat, Statement.rise_of_startsBlock hkind]
    simp only [Assembly.maxOpen] at hfull hbound
    omega
  before := by
    rintro part ⟨later, rfl⟩
    obtain ⟨middle, hpart, -⟩ := foldlM_append_eq_ok_iff.mp hread
    exact Assembly.rise_le_of_run hpart

theorem ofStatements_or_exceedsAt {statements : List Statement} {document : Document}
    (h : ofStatementsUnlimited statements = .ok document) :
    ofStatements statements = .ok document ∨
      ∃ read opening rest, statements = read ++ .directive opening :: rest ∧
        ExceedsAt read opening ∧
        ofStatements statements = .error (.tooDeep opening.line 256) := by
  obtain ⟨assembly, hrun, hend⟩ := bind_eq_ok_iff.mp h
  cases hlimited : statements.foldlM Assembly.step .empty with
  | ok reached =>
      have hsame := Assembly.foldlM_stepUnlimited_of_step hlimited
      rw [hrun] at hsame
      cases hsame
      exact .inl (bind_eq_ok_iff.mpr ⟨assembly, hlimited, hend⟩)
  | error fault =>
      obtain ⟨read, statement, rest, reached, rfl, hread, hstep⟩ :=
        exists_of_foldlM_eq_error hlimited
      obtain ⟨middle, hmiddle, hgoesOn⟩ := foldlM_append_eq_ok_iff.mp hrun
      rw [Assembly.foldlM_stepUnlimited_of_step hread] at hmiddle
      cases hmiddle
      obtain ⟨next, hnext, -⟩ := foldlM_cons_eq_ok_iff.mp hgoesOn
      obtain ⟨hfull, rfl, opening, rfl, hkind⟩ := Assembly.tooDeep_of_step hstep hnext
      exact .inr ⟨read, opening, rest, rfl, exceedsAt_of_step hread hfull hkind,
        ofStatements_of_step hread hstep rest⟩

/-- A document has as many blocks as its statements have `if`s, and as they have `endif`s.
Its depth is the greatest number of `if`s less `endif`s in any beginning of the statements,
and at most 256.  Statements that would make a document without this limit make the same
document with it if that number is at most 256, and otherwise they are refused at the first
`if` that brings it to 257. -/
theorem maxDepth_eq_peak (statements : List Statement) :
    (∀ document, ofStatements statements = .ok document →
      document.blockCount = statements.countP Statement.startsBlock ∧
        document.blockCount = statements.countP Statement.endsBlock ∧
        document.maxDepth = Statement.peak statements ∧ document.maxDepth ≤ 256) ∧
    ∀ document, ofStatementsUnlimited statements = .ok document →
      (ofStatements statements = .ok document ↔ Statement.peak statements ≤ 256) ∧
        (256 < Statement.peak statements →
          ∃ read opening rest, statements = read ++ .directive opening :: rest ∧
            ExceedsAt read opening ∧
            ofStatements statements = .error (.tooDeep opening.line 256)) := by
  constructor
  · intro document h
    obtain ⟨hstarts, hends, hdepth⟩ := measures_of_ofStatements h
    exact ⟨hstarts, hends, hdepth, (isReadingOf_of_ofStatements h).shallow⟩
  · intro document h
    rcases ofStatements_or_exceedsAt h with hlimited |
      ⟨read, opening, rest, rfl, hexceeds, hfault⟩
    · have hdepth := (measures_of_ofStatements hlimited).2.2
      have hshallow := (isReadingOf_of_ofStatements hlimited).shallow
      exact ⟨⟨fun _ => by omega, fun _ => hlimited⟩, fun hdeep => by omega⟩
    · have hdeep : 257 ≤ Statement.peak (read ++ .directive opening :: rest) := by
        rw [← hexceeds.reaches]
        apply (Statement.isGreatest_peak _).2
        exact ⟨_, ⟨rest, by rw [List.append_assoc, List.singleton_append]⟩, rfl⟩
      refine ⟨⟨?_, fun hlow => by omega⟩, fun _ => ⟨read, opening, rest, rfl, hexceeds, hfault⟩⟩
      intro hlimited
      rw [hfault] at hlimited
      contradiction

def tower (height : Nat) : List Statement :=
  (List.range height).map (fun count =>
      .directive ⟨.start .ifTrue, some "A", "", count + 1, .block⟩) ++
    List.replicate height (.directive ⟨.finish, none, "", height + 1, .markup⟩)

theorem maxDepth_eq_peak_tower :
    (∃ document, ofStatements (tower 2 ++ tower 3) = .ok document ∧
      document.blockCount = 5 ∧ document.maxDepth = 3) ∧
    ∃ document, ofStatementsUnlimited (tower 257) = .ok document ∧
      ∃ read opening rest, tower 257 = read ++ .directive opening :: rest ∧
        ExceedsAt read opening ∧
        ofStatements (tower 257) = .error (.tooDeep opening.line 256) := by
  constructor
  · obtain ⟨document, hsome⟩ := Option.isSome_iff_exists.mp (by decide +kernel :
      (ofStatements (tower 2 ++ tower 3)).toOption.isSome)
    have hdocument := eq_ok_of_toOption hsome
    obtain ⟨hcount, -, hdepth, -⟩ := (maxDepth_eq_peak _).1 document hdocument
    exact ⟨document, hdocument, hcount, Int.ofNat.inj (hdepth.trans (by decide +kernel))⟩
  · obtain ⟨document, hsome⟩ := Option.isSome_iff_exists.mp (by decide +kernel :
      (ofStatementsUnlimited (tower 257)).toOption.isSome)
    have hdocument := eq_ok_of_toOption hsome
    have hrise : Statement.rise ((tower 257).take 257) = 257 := by decide +kernel
    have hdeep : 257 ≤ Statement.peak (tower 257) := by
      apply (Statement.isGreatest_peak _).2
      exact ⟨_, List.take_prefix 257 _, hrise⟩
    exact ⟨document, hdocument,
      ((maxDepth_eq_peak _).2 document hdocument).2 (Int.lt_of_lt_of_le (by decide) hdeep)⟩

end Document

end GuardedText
