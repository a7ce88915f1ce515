import GuardedText.Proofs.Run
import GuardedText.Proofs.Selection.Structural

/-!
# What is not taken does not matter

A block is tried branch by branch up to the first one that is taken.  The bodies of the
branches before it are not looked into, and of the branches behind it nothing is looked
at, so a document can be changed in these places without a change to its walk.  Two
documents that differ only there give the same lines and the same warnings, and are
refused for the same operator.
-/

namespace GuardedText.Selection

mutual

/-- The nodes differ at most where nothing is taken. -/
inductive Alike (symbols : Symbols) : List Node → List Node → Prop
  | nil : Alike symbols [] []
  | leaf (text : String) (line : Nat) {nodes others : List Node}
      (hrest : Alike symbols nodes others) :
      Alike symbols (.leaf text line :: nodes) (.leaf text line :: others)
  | block {branches variants : List Branch} {nodes others : List Node}
      (hblock : AlikeBranches symbols branches variants)
      (hrest : Alike symbols nodes others) :
      Alike symbols (.block branches :: nodes) (.block variants :: others)

inductive AlikeBranches (symbols : Symbols) : List Branch → List Branch → Prop
  | nil : AlikeBranches symbols [] []
  | passed {kind : BranchKind} {condition? : Option Condition} {line : Nat}
      (body variant : List Node) {branches variants : List Branch}
      (hpassed : (Branch.evaluate symbols ⟨kind, condition?, body, line⟩).value = false)
      (hrest : AlikeBranches symbols branches variants) :
      AlikeBranches symbols (⟨kind, condition?, body, line⟩ :: branches)
        (⟨kind, condition?, variant, line⟩ :: variants)
  | taken {kind : BranchKind} {condition? : Option Condition} {line : Nat}
      {body variant : List Node} (branches variants : List Branch)
      (htaken : (Branch.evaluate symbols ⟨kind, condition?, body, line⟩).value = true)
      (hbody : Alike symbols body variant) :
      AlikeBranches symbols (⟨kind, condition?, body, line⟩ :: branches)
        (⟨kind, condition?, variant, line⟩ :: variants)

end

variable {symbols : Symbols}

theorem AlikeBranches.line_eq {branches variants : List Branch}
    (h : AlikeBranches symbols branches variants) :
    (Node.block branches).line = (Node.block variants).line := by
  cases h <;> rfl

theorem evaluate_with_body (kind : BranchKind) (condition? : Option Condition) (line : Nat)
    (body variant : List Node) :
    Branch.evaluate symbols ⟨kind, condition?, body, line⟩ =
      Branch.evaluate symbols ⟨kind, condition?, variant, line⟩ := rfl

mutual

theorem Alike.nodeSteps_eq {nodes others : List Node} (h : Alike symbols nodes others) :
    nodeSteps symbols nodes = nodeSteps symbols others := by
  cases h with
  | nil => rfl
  | leaf text line hrest =>
      rw [nodeSteps, nodeSteps, hrest.nodeSteps_eq]
  | block hblock hrest =>
      rw [nodeSteps, nodeSteps, hblock.line_eq, hblock.branchSteps_eq, hrest.nodeSteps_eq]

theorem AlikeBranches.branchSteps_eq {branches variants : List Branch} {line : Nat}
    (h : AlikeBranches symbols branches variants) :
    branchSteps symbols line branches = branchSteps symbols line variants := by
  cases h with
  | nil => rfl
  | passed body variant hpassed hrest =>
      rw [branchSteps, branchSteps, evaluate_with_body _ _ _ variant body]
      rw [hpassed, hrest.branchSteps_eq]
      rfl
  | @taken _ _ _ body variant branches variants htaken hbody =>
      rw [branchSteps, branchSteps, evaluate_with_body _ _ _ variant body]
      rw [htaken, hbody.nodeSteps_eq]
      rfl

end

/-- What is not taken has no influence: two documents that differ only in the bodies of
branches that are not taken and in the branches behind one that is taken, at any depth of
what is taken, have the same walk.  So under either policy they give the same lines and
the same warnings, or they are refused for the same operator. -/
theorem select_eq_of_alike (symbols : Symbols) (policy : Policy) (first second : Document)
    (h : Alike symbols first.content second.content) :
    first.select symbols policy = second.select symbols policy ∧
      first.steps symbols = second.steps symbols := by
  have hsteps : first.steps symbols = second.steps symbols := by
    rw [steps_eq, steps_eq, h.nodeSteps_eq]
  refine ⟨?_, hsteps⟩
  rw [Document.select, Document.select, hsteps]

theorem select_eq_of_alike_nested :
    Document.select
        ⟨[.block
          [⟨.ifTrue, some (.symbol "B"),
              [.block [⟨.ifTrue, some (.unsupported "-" (.symbol "A")), [], 2⟩]], 1⟩,
            ⟨.elseIf, some (.symbol "A"),
              [.leaf "a" 5, .block
                [⟨.ifTrue, some (.not (.symbol "B")), [.leaf "b" 7], 6⟩,
                  ⟨.elseIf, some (.unsupported "-" (.symbol "A")), [.leaf "c" 9], 8⟩]], 4⟩]]⟩
        (.ofNames ["A"]) .deny =
      Document.select
        ⟨[.block
          [⟨.ifTrue, some (.symbol "B"), [.leaf "d" 2], 1⟩,
            ⟨.elseIf, some (.symbol "A"),
              [.leaf "a" 5, .block
                [⟨.ifTrue, some (.not (.symbol "B")), [.leaf "b" 7], 6⟩,
                  ⟨.elseIf, some (.symbol "C"), [], 8⟩]], 4⟩]]⟩
        (.ofNames ["A"]) .deny ∧
    Document.select
        ⟨[.block
          [⟨.ifTrue, some (.symbol "B"), [.leaf "d" 2], 1⟩,
            ⟨.elseIf, some (.symbol "A"),
              [.leaf "a" 5, .block
                [⟨.ifTrue, some (.not (.symbol "B")), [.leaf "b" 7], 6⟩,
                  ⟨.elseIf, some (.symbol "C"), [], 8⟩]], 4⟩]]⟩
        (.ofNames ["A"]) .deny = .ok ⟨["a", "b"], []⟩ := by
  refine ⟨(select_eq_of_alike (.ofNames ["A"]) .deny _ _ ?_).1,
    eq_ok_of_toOption (by decide +kernel)⟩
  apply Alike.block (.passed _ _ (by decide +kernel) ?_) .nil
  apply AlikeBranches.taken _ _ (by decide +kernel) (.leaf "a" 5 ?_)
  exact .block (.taken _ _ (by decide +kernel) (.leaf "b" 7 .nil)) .nil

end GuardedText.Selection
