import GuardedText.Proofs.Process.Location

/-!
# The first statement beyond repair

An assembly that has not failed can always be completed, since every block that is open
can be ended at once.  So statements fail at the first of them behind which no document
is possible any more, and whatever follows it the fault is the same.  If there is no such
statement, some block is left open; the outermost of these is known from the numbers of
blocks that start and end.
-/

namespace GuardedText

namespace Statement

def startsBlock : Statement → Bool
  | .plain _ _ => false
  | .directive found => found.kind == .start .ifTrue

def endsBlock : Statement → Bool
  | .plain _ _ => false
  | .directive found => found.kind == .finish

theorem starts_of_ifTrue {directive : Directive} (h : directive.kind = .start .ifTrue) :
    startsBlock (.directive directive) = true ∧ endsBlock (.directive directive) = false := by
  simp [startsBlock, endsBlock, h]

end Statement

namespace Document

/-- Some document begins with these statements. -/
def Extendable (statements : List Statement) : Prop :=
  ∃ rest document, ofStatements (statements ++ rest) = .ok document

/-- The first statement after which no document is possible, and the fault that it gives
whatever comes next. -/
structure Refuses (read : List Statement) (statement : Statement) (fault : Fault) :
    Prop where
  extendable : ∀ earlier, earlier <+: read → Extendable earlier
  hopeless : ¬Extendable (read ++ [statement])
  line_eq : fault.line = statement.line
  always : ∀ rest, ofStatements (read ++ statement :: rest) = .error fault

/-- The `if` of the outermost block that the statements leave open: the blocks before it
have ended, and at no later place have more blocks ended than started after it. -/
def OpensOutermost (statements : List Statement) (opening : Directive) : Prop :=
  ∃ before inside, statements = before ++ .directive opening :: inside ∧
    opening.kind = .start .ifTrue ∧
    before.countP Statement.startsBlock = before.countP Statement.endsBlock ∧
    ∀ part, part <+: inside →
      part.countP Statement.endsBlock ≤ part.countP Statement.startsBlock

end Document

namespace Assembly

/-! ## Completion -/

theorem toDocument_eq_ok_iff {assembly : Assembly} :
    (∃ document, assembly.toDocument = .ok document) ↔ assembly.blocks = [] := by
  unfold toDocument
  cases hlast : assembly.blocks.getLast? with
  | none => simpa using hlast
  | some block =>
      constructor
      · rintro ⟨document, hdocument⟩
        contradiction
      · intro hnone
        rw [hnone] at hlast
        contradiction

theorem exists_completion (assembly : Assembly) :
    ∃ (rest : List Statement) (final : Assembly),
      rest.foldlM step assembly = .ok final ∧ final.blocks = [] := by
  induction hcount : assembly.blocks.length generalizing assembly with
  | zero => exact ⟨[], assembly, rfl, List.length_eq_zero_iff.mp hcount⟩
  | succ count ih =>
      obtain ⟨content, _ | ⟨block, outer⟩⟩ := assembly
      · contradiction
      · obtain ⟨rest, final, hrest, hfinal⟩ := ih (push block.close ⟨content, outer⟩) (by
          rw [length_blocks_push]
          exact Nat.succ.inj hcount)
        let ending : Directive := ⟨.finish, none, "", 0, .block⟩
        exact ⟨.directive ending :: rest, final,
          foldlM_cons_eq_ok_iff.mpr ⟨_, rfl, hrest⟩, hfinal⟩

end Assembly

namespace Document

theorem ofStatements_eq_ok_iff_blocks {statements : List Statement} :
    (∃ document, ofStatements statements = .ok document) ↔
      ∃ assembly, statements.foldlM Assembly.step .empty = .ok assembly ∧
        assembly.blocks = [] := by
  constructor
  · rintro ⟨document, h⟩
    obtain ⟨assembly, hrun, hend⟩ := bind_eq_ok_iff.mp h
    exact ⟨assembly, hrun, Assembly.toDocument_eq_ok_iff.mp ⟨document, hend⟩⟩
  · rintro ⟨assembly, hrun, hblocks⟩
    obtain ⟨document, hend⟩ := Assembly.toDocument_eq_ok_iff.mpr hblocks
    exact ⟨document, bind_eq_ok_iff.mpr ⟨assembly, hrun, hend⟩⟩

theorem extendable_iff {statements : List Statement} :
    Extendable statements ↔
      ∃ assembly, statements.foldlM Assembly.step .empty = .ok assembly := by
  simp only [Extendable, ofStatements_eq_ok_iff_blocks]
  exact exists_completion_iff Assembly.exists_completion

theorem extendable_of_isPrefix {earlier statements : List Statement}
    (h : Extendable statements) (hearlier : earlier <+: statements) : Extendable earlier := by
  obtain ⟨later, rfl⟩ := hearlier
  obtain ⟨rest, document, hdocument⟩ := h
  exact ⟨later ++ rest, document, by rwa [← List.append_assoc]⟩

theorem ofStatements_of_step {read : List Statement} {statement : Statement}
    {reached : Assembly} {fault : Fault}
    (hread : read.foldlM Assembly.step .empty = .ok reached)
    (hstep : reached.step statement = .error fault) (rest : List Statement) :
    ofStatements (read ++ statement :: rest) = .error fault := by
  rw [ofStatements, List.foldlM_append, hread, ok_bind, List.foldlM_cons, hstep]
  rfl

theorem refuses_of_step {read : List Statement} {statement : Statement}
    {reached : Assembly} {fault : Fault}
    (hread : read.foldlM Assembly.step .empty = .ok reached)
    (hstep : reached.step statement = .error fault) : Refuses read statement fault where
  extendable := fun _ => extendable_of_isPrefix (extendable_iff.mpr ⟨reached, hread⟩)
  hopeless := by
    rintro ⟨rest, document, hdocument⟩
    rw [List.append_assoc, List.singleton_append, ofStatements_of_step hread hstep] at hdocument
    contradiction
  line_eq := by
    obtain ⟨directive, hmem, hline, -⟩ := Assembly.step_eq_error hstep
    rw [← List.mem_singleton.mp hmem]
    exact hline.symm
  always := ofStatements_of_step hread hstep

end Document

/-! ## The outermost open block -/

namespace Document

theorem OpensOutermost.concat {read : List Statement} {statement : Statement}
    {opening : Directive} (h : OpensOutermost read opening)
    (hopen : (read ++ [statement]).countP Statement.endsBlock <
      (read ++ [statement]).countP Statement.startsBlock) :
    OpensOutermost (read ++ [statement]) opening := by
  obtain ⟨before, inside, rfl, hkind, hbefore, hinside⟩ := h
  refine ⟨before, inside ++ [statement], by simp, hkind, hbefore, ?_⟩
  intro part hpart
  rcases List.prefix_concat_iff.mp hpart with rfl | hpart
  · obtain ⟨hstarts, hends⟩ := Statement.starts_of_ifTrue hkind
    rw [List.append_assoc, List.cons_append, List.countP_append, List.countP_append,
      List.countP_cons_of_neg (by simp [hends]), List.countP_cons_of_pos hstarts] at hopen
    omega
  · exact hinside part hpart

end Document

namespace Assembly

def lines (assembly : Assembly) : List Nat :=
  assembly.blocks.map (·.line)

theorem step_lines {assembly next : Assembly} {statement : Statement}
    (h : assembly.step statement = .ok next) :
    (statement.startsBlock = false ∧ statement.endsBlock = false ∧
      next.lines = assembly.lines) ∨
    (∃ opening, statement = .directive opening ∧ opening.kind = .start .ifTrue ∧
      next.lines = opening.line :: assembly.lines) ∨
    (statement.startsBlock = false ∧ statement.endsBlock = true ∧
      ∃ line, assembly.lines = line :: next.lines) := by
  obtain ⟨mark, hmatch, htakes⟩ := step_eq_ok_iff.mp h
  cases htakes with
  | plain text line =>
      cases statement with
      | directive directive => exact hmatch.elim
      | plain found foundLine => exact .inl ⟨rfl, rfl, map_line_push _ _⟩
  | start condition? line room =>
      obtain ⟨opening, rfl⟩ := hmatch.exists_directive (by simp)
      obtain ⟨hkind, rfl, -⟩ := hmatch
      exact .inr (.inl ⟨opening, rfl, hkind, rfl⟩)
  | @alternative content block outer kind condition? line later goesOn =>
      obtain ⟨directive, rfl⟩ := hmatch.exists_directive (by simp)
      obtain ⟨hkind, -, -⟩ := hmatch
      refine .inl ⟨?_, ?_, rfl⟩
      · simpa [Statement.startsBlock, hkind] using later
      · simp [Statement.endsBlock, hkind]
  | finish content block outer =>
      obtain ⟨directive, rfl⟩ := hmatch.exists_directive (by simp)
      have hkind : directive.kind = .finish := hmatch
      refine .inr (.inr ⟨?_, ?_, block.line, ?_⟩)
      · simp [Statement.startsBlock, hkind]
      · simp [Statement.endsBlock, hkind]
      · rw [lines, lines, map_line_push]
        rfl

structure Tracks (read : List Statement) (assembly : Assembly) : Prop where
  height : read.countP Statement.endsBlock + assembly.lines.length =
    read.countP Statement.startsBlock
  outermost : ∀ line ∈ assembly.lines.getLast?,
    ∃ opening, opening.line = line ∧ Document.OpensOutermost read opening

theorem tracks_empty : Tracks [] .empty where
  height := rfl
  outermost := by simp [lines, empty]

theorem Tracks.concat {read : List Statement} {assembly next : Assembly}
    {statement : Statement} (h : Tracks read assembly)
    (hheight : (read ++ [statement]).countP Statement.endsBlock + next.lines.length =
      (read ++ [statement]).countP Statement.startsBlock)
    (hlast : next.lines ≠ [] → next.lines.getLast? = assembly.lines.getLast?) :
    Tracks (read ++ [statement]) next where
  height := hheight
  outermost := by
    intro line hline
    have hsome : next.lines ≠ [] := by
      rintro hnone
      rw [hnone] at hline
      contradiction
    rw [hlast hsome] at hline
    obtain ⟨opening, hopening, houtermost⟩ := h.outermost line hline
    have hpositive := List.length_pos_of_ne_nil hsome
    exact ⟨opening, hopening, houtermost.concat (by omega)⟩

theorem Tracks.step {read : List Statement} {assembly next : Assembly}
    {statement : Statement} (h : Tracks read assembly)
    (hstep : assembly.step statement = .ok next) : Tracks (read ++ [statement]) next := by
  have hheight := h.height
  rcases step_lines hstep with ⟨hstarts, hends, hlines⟩ | ⟨opening, rfl, hkind, hlines⟩ |
    ⟨hstarts, hends, line, hlines⟩
  · apply h.concat
    · simpa [List.countP_append, hstarts, hends, hlines] using hheight
    · simp [hlines]
  · obtain ⟨hstarts, hends⟩ := Statement.starts_of_ifTrue hkind
    have hcounts : (read ++ [Statement.directive opening]).countP Statement.endsBlock +
        next.lines.length =
          (read ++ [Statement.directive opening]).countP Statement.startsBlock := by
      simp only [List.countP_append, List.countP_singleton, hstarts, hends, hlines,
        List.length_cons, Bool.false_eq_true, if_true, if_false]
      omega
    cases hbefore : assembly.lines with
    | cons first others =>
        apply h.concat hcounts
        simp [hlines, hbefore]
    | nil =>
        rw [hbefore, List.length_nil] at hheight
        refine ⟨hcounts, ?_⟩
        rw [hlines, hbefore]
        rintro line ⟨⟩
        refine ⟨opening, rfl, read, [], rfl, hkind, hheight.symm, ?_⟩
        intro part hpart
        rw [List.prefix_nil.mp hpart]
        exact Nat.le_refl _
  · rw [hlines, List.length_cons] at hheight
    apply h.concat
    · simp only [List.countP_append, List.countP_singleton, hstarts, hends,
        Bool.false_eq_true, if_true, if_false]
      omega
    · intro hsome
      rw [hlines]
      exact (List.getLast?_cons_of_ne_nil hsome).symm

/-! ## Whole documents -/

theorem readCondition_ne_openBlock {directive : Directive} {line : Nat} :
    readCondition directive ≠ .error (.openBlock line) := by
  intro h
  have hculprits := (readCondition_eq_error h).2
  simp [Fault.culprits, Directive.conditional] at hculprits

theorem branchCondition_ne_openBlock {kind : BranchKind} {directive : Directive}
    {line : Nat} : branchCondition kind directive ≠ .error (.openBlock line) := by
  intro h
  unfold branchCondition at h
  split at h
  · rw [map_eq_pure_bind] at h
    rcases bind_eq_error_iff.mp h with hread | ⟨condition, -, hdone⟩
    · exact readCondition_ne_openBlock hread
    · contradiction
  · contradiction

theorem step_ne_openBlock {assembly : Assembly} {statement : Statement} {line : Nat} :
    assembly.step statement ≠ .error (.openBlock line) := by
  intro h
  cases statement with
  | plain text number => contradiction
  | directive directive =>
      simp only [step] at h
      split at h
      · unfold start at h
        split at h
        · cases h
        · rcases bind_eq_error_iff.mp h with hread | ⟨condition, -, hdone⟩
          · exact readCondition_ne_openBlock hread
          · contradiction
      · obtain ⟨content, _ | ⟨block, outer⟩⟩ := assembly
        · cases h
        · rw [alternative_cons] at h
          rcases bind_eq_error_iff.mp h with hread | ⟨condition?, -, hplace⟩
          · exact branchCondition_ne_openBlock hread
          · split at hplace
            · cases hplace
            · contradiction
      · obtain ⟨content, _ | ⟨block, outer⟩⟩ := assembly <;> cases h

end Assembly

namespace Document

/-- Statements that are no document are refused at the first one after which no document
is possible, at its line and whatever comes next; or each of them could be followed by
others to the end of a document, and the fault is at the `if` of the outermost block that
is left open. -/
theorem refuses_or_opensOutermost (statements : List Statement) (fault : Fault)
    (h : ofStatements statements = .error fault) :
    ((∀ line, fault ≠ .openBlock line) ∧ ∃ read statement rest,
      statements = read ++ statement :: rest ∧ Refuses read statement fault) ∨
    ∃ opening, fault = .openBlock opening.line ∧ OpensOutermost statements opening ∧
      ∀ earlier, earlier <+: statements → Extendable earlier := by
  rcases bind_eq_error_iff.mp h with hrun | ⟨assembly, hrun, hend⟩
  · obtain ⟨read, statement, rest, reached, rfl, hread, hstep⟩ :=
      exists_of_foldlM_eq_error hrun
    refine .inl ⟨?_, read, statement, rest, rfl, refuses_of_step hread hstep⟩
    rintro line rfl
    exact Assembly.step_ne_openBlock hstep
  · have htracks : Assembly.Tracks ([] ++ statements) assembly :=
      foldlM_preserves (fun hread hstep => hread.step hstep) Assembly.tracks_empty hrun
    unfold Assembly.toDocument at hend
    split at hend
    · rename_i block hblock
      cases hend
      obtain ⟨opening, hline, hopens⟩ := htracks.outermost block.line (by
        rw [Assembly.lines, List.getLast?_map, hblock]
        rfl)
      exact .inr ⟨opening, by rw [hline], hopens,
        fun _ => extendable_of_isPrefix (extendable_iff.mpr ⟨assembly, hrun⟩)⟩
    · contradiction

theorem refuses_or_opensOutermost_nested :
    (ofStatements [.directive ⟨.start .ifTrue, some "A", "", 3, .block⟩,
        .directive ⟨.start .otherwise, none, "", 5, .block⟩,
        .directive ⟨.start .elseIf, some "B", "", 8, .markup⟩, .plain "x" 9] =
          .error (.branchAfterElse 8 .elseIf) ∧
      ∃ read statement rest,
        [.directive ⟨.start .ifTrue, some "A", "", 3, .block⟩,
          .directive ⟨.start .otherwise, none, "", 5, .block⟩,
          .directive ⟨.start .elseIf, some "B", "", 8, .markup⟩, .plain "x" 9] =
            read ++ statement :: rest ∧
        Refuses read statement (.branchAfterElse 8 .elseIf)) ∧
    ofStatements [.directive ⟨.start .ifTrue, some "A", "", 1, .block⟩,
        .directive ⟨.finish, none, "", 2, .block⟩,
        .directive ⟨.start .ifTrue, some "-A", "", 4, .block⟩,
        .directive ⟨.start .elseIf, some "B", "", 5, .block⟩,
        .directive ⟨.start .ifTrue, some "C", "", 6, .block⟩] = .error (.openBlock 4) ∧
      ∃ opening, opening.line = 4 ∧
        OpensOutermost [.directive ⟨.start .ifTrue, some "A", "", 1, .block⟩,
          .directive ⟨.finish, none, "", 2, .block⟩,
          .directive ⟨.start .ifTrue, some "-A", "", 4, .block⟩,
          .directive ⟨.start .elseIf, some "B", "", 5, .block⟩,
          .directive ⟨.start .ifTrue, some "C", "", 6, .block⟩] opening := by
  have hrefused : ofStatements [.directive ⟨.start .ifTrue, some "A", "", 3, .block⟩,
      .directive ⟨.start .otherwise, none, "", 5, .block⟩,
      .directive ⟨.start .elseIf, some "B", "", 8, .markup⟩, .plain "x" 9] =
        .error (.branchAfterElse 8 .elseIf) := eq_error_of_map (by decide +kernel)
  have hopen : ofStatements [.directive ⟨.start .ifTrue, some "A", "", 1, .block⟩,
      .directive ⟨.finish, none, "", 2, .block⟩,
      .directive ⟨.start .ifTrue, some "-A", "", 4, .block⟩,
      .directive ⟨.start .elseIf, some "B", "", 5, .block⟩,
      .directive ⟨.start .ifTrue, some "C", "", 6, .block⟩] = .error (.openBlock 4) :=
    eq_error_of_map (by decide +kernel)
  refine ⟨⟨hrefused, ?_⟩, hopen, ?_⟩
  · rcases refuses_or_opensOutermost _ _ hrefused with ⟨-, hrefuses⟩ | ⟨opening, hfault, -⟩
    · exact hrefuses
    · contradiction
  · rcases refuses_or_opensOutermost _ _ hopen with ⟨hother, -⟩ | ⟨opening, hfault, hopens, -⟩
    · exact absurd rfl (hother 4)
    · exact ⟨opening, (Fault.openBlock.inj hfault).symm, hopens⟩

end Document

end GuardedText
