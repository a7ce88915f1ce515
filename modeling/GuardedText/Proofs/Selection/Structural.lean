import GuardedText.Selection

/-!
# The walk by structure

The walk over a document keeps a stack of bodies that are left to do.  Its steps
are the steps of each of these bodies, one body after the other, where the steps
of a body follow its nodes and the steps of a block follow its branches.
-/

namespace GuardedText.Selection

mutual

def nodeSteps (symbols : Symbols) : List Node → List Step
  | [] => []
  | .leaf text _ :: rest => .keep text :: nodeSteps symbols rest
  | .block branches :: rest =>
    branchSteps symbols (Node.block branches).line branches ++ nodeSteps symbols rest

def branchSteps (symbols : Symbols) (line : Nat) : List Branch → List Step
  | [] => [.skipped line]
  | ⟨kind, condition?, body, branchLine⟩ :: rest =>
    let evaluation := Branch.evaluate symbols ⟨kind, condition?, body, branchLine⟩
    evaluation.unsupported.map (.unsupported branchLine) ++
      if evaluation.value then .taken branchLine kind :: nodeSteps symbols body
      else branchSteps symbols line rest

end

theorem choose_append_nodeSteps (symbols : Symbols) (line : Nat)
    (branches : List Branch) :
    (choose symbols line branches).1 ++ nodeSteps symbols (choose symbols line branches).2 =
      branchSteps symbols line branches := by
  induction branches with
  | nil => simp [choose, branchSteps, nodeSteps]
  | cons branch rest ih =>
      obtain ⟨kind, condition?, body, branchLine⟩ := branch
      simp only [choose, branchSteps]
      split
      · simp
      · rw [← ih]
        simp

theorem walk_eq_flatMap (symbols : Symbols) (stack : List (List Node)) :
    walk symbols stack = stack.flatMap (nodeSteps symbols) := by
  fun_induction walk symbols stack with
  | case1 => rfl
  | case2 stack ih => simp [ih, nodeSteps]
  | case3 text line rest stack ih => simp [ih, nodeSteps]
  | case4 branches rest stack chosen ih =>
      rw [ih]
      simp only [List.flatMap_cons, nodeSteps, ← choose_append_nodeSteps,
        List.append_assoc]
      rfl

theorem steps_eq (document : Document) (symbols : Symbols) :
    document.steps symbols = nodeSteps symbols document.content := by
  simp [Document.steps, walk_eq_flatMap]

/-! ## What is left of the steps -/

@[simp] theorem kept_nil : kept [] = [] := rfl

@[simp] theorem warnings_nil : warnings [] = [] := rfl

@[simp] theorem kept_append (first second : List Step) :
    kept (first ++ second) = kept first ++ kept second :=
  List.filterMap_append

@[simp] theorem warnings_append (first second : List Step) :
    warnings (first ++ second) = warnings first ++ warnings second :=
  List.filterMap_append

@[simp] theorem kept_reports (line : Nat) (operators : List String) :
    kept (operators.map (.unsupported line)) = [] := by
  simp [kept, List.filterMap_map]

@[simp] theorem warnings_reports (line : Nat) (operators : List String) :
    warnings (operators.map (.unsupported line)) = operators.map (⟨line, ·⟩) := by
  simp only [warnings, List.filterMap_map, Function.comp_def, List.filterMap_eq_map']

@[simp] theorem kept_taken (line : Nat) (kind : BranchKind) (steps : List Step) :
    kept (.taken line kind :: steps) = kept steps := rfl

@[simp] theorem warnings_taken (line : Nat) (kind : BranchKind) (steps : List Step) :
    warnings (.taken line kind :: steps) = warnings steps := rfl

theorem judge_eq_ok {policy : Policy} {steps : List Step} {selection : Selection}
    (h : judge policy steps = .ok selection) :
    selection = ⟨kept steps, warnings steps⟩ := by
  unfold judge at h
  split at h
  · contradiction
  · cases h
    rfl

end GuardedText.Selection
