import GuardedText.Proofs.Process.Policy

/-!
# The walk as a loop

The lines of a document can be collected by a loop over a stack of bodies, of which each
has some nodes left to do.  A turn takes one node from the innermost body; it may open
another body on top, and an operator that is refused ends the loop at once.  What such a
stack has still to give is what the recursion over nodes gives for its bodies, one after
the other.  A turn moves a part of this to what has been selected and leaves the whole as
it is, and the stack gets lighter with every turn.
-/

namespace GuardedText.Selection

def followedBy (first second : Selection) : Selection :=
  ⟨first.lines ++ second.lines, first.diagnostics ++ second.diagnostics⟩

@[simp] theorem nil_followedBy (selection : Selection) :
    followedBy ⟨[], []⟩ selection = selection := rfl

@[simp] theorem followedBy_nil (selection : Selection) :
    selection.followedBy ⟨[], []⟩ = selection := by
  simp [followedBy]

theorem followedBy_assoc (first second third : Selection) :
    (first.followedBy second).followedBy third =
      first.followedBy (second.followedBy third) := by
  simp [followedBy]

/-! ## Turns of the loop -/

structure Choice where
  reports : List Diagnostic
  body? : Option (List Node)

def attempt (symbols : Symbols) (policy : Policy) : List Branch → Except Fault Choice
  | [] => .ok ⟨[], none⟩
  | branch :: rest => do
    let evaluation := branch.evaluate symbols
    let reports ← report policy branch.line evaluation.unsupported
    if evaluation.value then return ⟨reports, some branch.body⟩
    else
      let choice ← attempt symbols policy rest
      return ⟨reports ++ choice.reports, choice.body?⟩

structure Loop where
  stack : List (List Node)
  selected : Selection

namespace Loop

def start (document : Document) : Loop :=
  ⟨[document.content], ⟨[], []⟩⟩

/-- With an empty stack the loop is over and stays as it is. -/
def turn (symbols : Symbols) (policy : Policy) : Loop → Except Fault Loop
  | ⟨[], selected⟩ => .ok ⟨[], selected⟩
  | ⟨[] :: stack, selected⟩ => .ok ⟨stack, selected⟩
  | ⟨(.leaf text _ :: rest) :: stack, selected⟩ =>
    .ok ⟨rest :: stack, selected.followedBy ⟨[text], []⟩⟩
  | ⟨(.block branches :: rest) :: stack, selected⟩ => do
    let choice ← attempt symbols policy branches
    return ⟨choice.body?.toList ++ rest :: stack, selected.followedBy ⟨[], choice.reports⟩⟩

def turns (symbols : Symbols) (policy : Policy) : Nat → Loop → Except Fault Loop
  | 0, loop => .ok loop
  | count + 1, loop => loop.turn symbols policy >>= turns symbols policy count

end Loop

/-! ## What a stack has still to give -/

def selectBodies (symbols : Symbols) (policy : Policy) :
    List (List Node) → Except Fault Selection
  | [] => .ok ⟨[], []⟩
  | body :: stack => do
    let first ← selectNodes symbols policy body
    let later ← selectBodies symbols policy stack
    return first.followedBy later

theorem judge_walk (symbols : Symbols) (policy : Policy) (stack : List (List Node)) :
    judge policy (walk symbols stack) = selectBodies symbols policy stack := by
  rw [walk_eq_flatMap]
  induction stack with
  | nil => cases policy <;> rfl
  | cons body stack ih =>
      rw [List.flatMap_cons, judge_append, judge_nodeSteps, ih]
      rfl

theorem selectBodies_append (symbols : Symbols) (policy : Policy)
    (first second : List (List Node)) :
    selectBodies symbols policy (first ++ second) = do
      let earlier ← selectBodies symbols policy first
      let later ← selectBodies symbols policy second
      return earlier.followedBy later := by
  induction first with
  | nil => simp only [List.nil_append, selectBodies, ok_bind, nil_followedBy, bind_pure]
  | cons body stack ih =>
      simp only [List.cons_append, selectBodies, ih, bind_assoc, pure_bind, followedBy_assoc]

theorem selectBodies_singleton (symbols : Symbols) (policy : Policy) (body : List Node) :
    selectBodies symbols policy [body] = selectNodes symbols policy body := by
  simp only [selectBodies, ok_bind, followedBy_nil, bind_pure]

theorem selectBranches_eq_attempt (symbols : Symbols) (policy : Policy)
    (branches : List Branch) :
    selectBranches symbols policy branches = do
      let choice ← attempt symbols policy branches
      let chosen ← selectBodies symbols policy choice.body?.toList
      return followedBy ⟨[], choice.reports⟩ chosen := by
  induction branches with
  | nil =>
      rw [selectBranches]
      rfl
  | cons branch rest ih =>
      obtain ⟨kind, condition?, body, line⟩ := branch
      simp only [selectBranches_cons, attempt, ih, bind_assoc]
      congr 1
      funext reports
      split
      · rw [pure_bind, Option.toList_some, selectBodies_singleton]
        rfl
      · simp only [bind_assoc, pure_bind]
        simp only [followedBy, List.nil_append, List.append_assoc]

namespace Loop

def outcome (symbols : Symbols) (policy : Policy) (loop : Loop) :
    Except Fault Selection := do
  let later ← selectBodies symbols policy loop.stack
  return loop.selected.followedBy later

/-! ## One turn -/

theorem turn_outcome (symbols : Symbols) (policy : Policy) (loop : Loop) :
    loop.turn symbols policy >>= outcome symbols policy = loop.outcome symbols policy := by
  obtain ⟨stack, selected⟩ := loop
  match stack with
  | [] => rfl
  | [] :: stack =>
      simp only [turn, outcome, selectBodies, selectNodes, ok_bind, nil_followedBy, bind_pure]
  | (.leaf text line :: rest) :: stack =>
      simp only [turn, outcome, selectBodies, selectNodes, ok_bind, bind_assoc, pure_bind,
        followedBy_assoc]
      rfl
  | (.block branches :: rest) :: stack =>
      simp only [turn, outcome, selectNodes, selectBranches_eq_attempt, selectBodies,
        selectBodies_append, bind_assoc, pure_bind]
      simp only [followedBy, List.append_assoc, List.append_nil, List.nil_append]

theorem weight_attempt {symbols : Symbols} {policy : Policy} {branches : List Branch}
    {choice : Choice} (h : attempt symbols policy branches = .ok choice) :
    stackWeight choice.body?.toList ≤ branchWeight branches := by
  induction branches generalizing choice with
  | nil =>
      cases h
      exact Nat.zero_le _
  | cons branch rest ih =>
      obtain ⟨kind, condition?, body, line⟩ := branch
      rw [branchWeight]
      obtain ⟨reports, -, hchoice⟩ := bind_eq_ok_iff.mp h
      split at hchoice
      · cases hchoice
        simp only [Option.toList_some, stackWeight, List.foldr_cons, List.foldr_nil]
        omega
      · obtain ⟨other, hother, hsame⟩ := bind_eq_ok_iff.mp hchoice
        cases hsame
        have := ih hother
        simp only
        omega

theorem stackWeight_append (first second : List (List Node)) :
    stackWeight (first ++ second) = stackWeight first + stackWeight second := by
  induction first with
  | nil => simp [stackWeight]
  | cons body stack ih =>
      rw [List.cons_append, stackWeight_cons, stackWeight_cons, ih]
      omega

theorem weight_pos (nodes : List Node) : 0 < weight nodes := by
  cases nodes with
  | nil => simp [weight]
  | cons node rest =>
      cases node <;> rw [weight] <;> omega

theorem turn_lighter {symbols : Symbols} {policy : Policy} {loop next : Loop}
    (h : loop.turn symbols policy = .ok next) (hstack : loop.stack ≠ []) :
    stackWeight next.stack < stackWeight loop.stack := by
  obtain ⟨stack, selected⟩ := loop
  match stack with
  | [] => contradiction
  | [] :: stack =>
      cases h
      simp only [stackWeight_cons, weight]
      omega
  | (.leaf text line :: rest) :: stack =>
      cases h
      simp only [stackWeight_cons, weight]
      omega
  | (.block branches :: rest) :: stack =>
      obtain ⟨choice, hattempt, hnext⟩ := bind_eq_ok_iff.mp h
      cases hnext
      have := weight_attempt hattempt
      simp only [stackWeight_append, stackWeight_cons, weight]
      omega

/-! ## Many turns -/

theorem turns_eq_outcome {symbols : Symbols} {policy : Policy} {count : Nat} {loop : Loop}
    (h : stackWeight loop.stack ≤ count) :
    turns symbols policy count loop = do
      let selection ← loop.outcome symbols policy
      return ⟨[], selection⟩ := by
  induction count generalizing loop with
  | zero =>
      obtain ⟨_ | ⟨body, stack⟩, selected⟩ := loop
      · rw [turns, outcome, selectBodies, ok_bind, pure_bind, followedBy_nil]
        rfl
      · have := weight_pos body
        simp only [stackWeight_cons] at h
        omega
  | succ count ih =>
      rw [turns, ← turn_outcome, bind_assoc]
      by_cases hstack : loop.stack = []
      · obtain ⟨stack, selected⟩ := loop
        cases hstack
        exact ih (Nat.zero_le _)
      · cases hturn : loop.turn symbols policy with
        | error fault => rfl
        | ok next =>
            rw [ok_bind, ok_bind]
            have := turn_lighter hturn hstack
            exact ih (by omega)

end Loop

/-- Selecting the lines of a document is the recursion that goes through its nodes, takes
in each block the first branch that holds and stops at the first operator that is refused.
From any stack of bodies the walk gives what the recursion gives for them one after the
other.  The loop comes to an end, too: after as many turns as the document weighs nothing
is left on its stack, and it has selected what the recursion selects, or it has stopped at
the same operator. -/
theorem select_eq_turns (document : Document) (symbols : Symbols) (policy : Policy) :
    document.select symbols policy = selectNodes symbols policy document.content ∧
    (∀ stack : List (List Node),
      judge policy (walk symbols stack) = selectBodies symbols policy stack) ∧
    ∀ more : Nat,
      Loop.turns symbols policy (weight document.content + more) (.start document) = do
        let selection ← selectNodes symbols policy document.content
        return ⟨[], selection⟩ := by
  refine ⟨select_eq_selectNodes document symbols policy, judge_walk symbols policy, ?_⟩
  intro more
  rw [Loop.turns_eq_outcome]
  · simp only [Loop.outcome, Loop.start, selectBodies_singleton, nil_followedBy, bind_pure]
  · simp only [Loop.start, stackWeight, List.foldr_cons, List.foldr_nil]
    omega

end GuardedText.Selection
