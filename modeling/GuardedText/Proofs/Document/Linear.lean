import GuardedText.Document.Basic
import GuardedText.Condition.Parser
import GuardedText.Statement
import GuardedText.Proofs.Condition.RoundTrip
import GuardedText.Proofs.Run

/-!
# Documents in a row

A document written out in a row is a list of marks: one for each plain line, one
for the start of each branch and one for the end of each block.  A mark says what
its statement has to be.  The blocks of a document that comes from statements are
of one form only, which is stated here without looking at how they are built.
-/

namespace GuardedText

/-! ## Marks -/

inductive Mark where
  | plain (text : String) (line : Nat)
  | start (kind : BranchKind) (condition? : Option Condition) (line : Nat)
  | finish

mutual

def marks : List Node → List Mark
  | [] => []
  | .leaf text line :: rest => .plain text line :: marks rest
  | .block branches :: rest => branchMarks branches ++ .finish :: marks rest

def branchMarks : List Branch → List Mark
  | [] => []
  | ⟨kind, condition?, body, line⟩ :: rest =>
    .start kind condition? line :: marks body ++ branchMarks rest

end

/-- Whether a mark stands for a statement.  An `endif` can be at any line, and
what is written behind an `else` is not looked at. -/
def Mark.Matches : Mark → Statement → Prop
  | .plain text line, .plain found foundLine => found = text ∧ foundLine = line
  | .start kind condition? line, .directive directive =>
    directive.kind = .start kind ∧ directive.line = line ∧
      if kind.takesCondition then
        ∃ text condition, directive.condition? = some text ∧
          Condition.parse text = .ok condition ∧ condition? = some condition
      else condition? = none
  | .finish, .directive directive => directive.kind = .finish
  | _, _ => False

theorem Mark.Matches.exists_directive {mark : Mark} {statement : Statement}
    (h : mark.Matches statement) (hmark : ∀ text line, mark ≠ .plain text line) :
    ∃ directive, statement = .directive directive := by
  cases statement with
  | directive directive => exact ⟨directive, rfl⟩
  | plain =>
      cases mark with
      | plain text line => exact absurd rfl (hmark text line)
      | start | finish => exact h.elim

theorem Mark.Matches.condition_fits {kind : BranchKind} {condition? : Option Condition}
    {line : Nat} {statement : Statement}
    (h : (Mark.start kind condition? line).Matches statement) :
    condition?.isSome = kind.takesCondition := by
  obtain ⟨directive, rfl⟩ := h.exists_directive (by simp)
  obtain ⟨-, -, h⟩ := h
  split at h
  · obtain ⟨_, _, _, _, rfl⟩ := h
    simp_all
  · simp_all

theorem Mark.Matches.eq_plain {text : String} {line : Nat} {statement : Statement}
    (h : (Mark.plain text line).Matches statement) : statement = .plain text line := by
  cases statement with
  | plain found foundLine =>
      obtain ⟨rfl, rfl⟩ := h
      rfl
  | directive directive => exact h.elim

theorem Mark.Matches.writable {kind : BranchKind} {condition? : Option Condition} {line : Nat}
    {statement : Statement} (h : (Mark.start kind condition? line).Matches statement) :
    ∀ condition ∈ condition?, condition.Writable := by
  obtain ⟨directive, rfl⟩ := h.exists_directive (by simp)
  obtain ⟨-, -, h⟩ := h
  split at h
  · obtain ⟨text, condition, -, hparse, rfl⟩ := h
    rintro _ ⟨⟩
    exact Condition.writable_of_parse hparse
  · subst h
    exact nofun

theorem marks_append (first second : List Node) :
    marks (first ++ second) = marks first ++ marks second := by
  induction first with
  | nil => simp [marks]
  | cons node rest ih => cases node <;> simp [marks, ih]

theorem branchMarks_append (first second : List Branch) :
    branchMarks (first ++ second) = branchMarks first ++ branchMarks second := by
  induction first with
  | nil => simp [branchMarks]
  | cons branch rest ih =>
      obtain ⟨kind, condition?, body, line⟩ := branch
      simp [branchMarks, ih]

/-! ## The form of blocks -/

def InOrder (kinds : List BranchKind) : Prop :=
  ∃ count, kinds = .ifTrue :: List.replicate count .elseIf ∨
    kinds = .ifTrue :: List.replicate count .elseIf ++ [.otherwise]

mutual

/-- Every block, also inside other blocks, has its branches in order, and a
branch has a condition exactly if its kind takes one. -/
def WellFormed : List Node → Prop
  | [] => True
  | .leaf _ _ :: rest => WellFormed rest
  | .block branches :: rest =>
    InOrder (branches.map (·.kind)) ∧ WellFormedBranches branches ∧ WellFormed rest

def WellFormedBranches : List Branch → Prop
  | [] => True
  | ⟨kind, condition?, body, _⟩ :: rest =>
    condition?.isSome = kind.takesCondition ∧ WellFormed body ∧ WellFormedBranches rest

end

theorem wellFormed_append (first second : List Node) :
    WellFormed (first ++ second) ↔ WellFormed first ∧ WellFormed second := by
  induction first with
  | nil => simp [WellFormed]
  | cons node rest ih => cases node <;> simp [WellFormed, ih, and_assoc]

theorem wellFormedBranches_append (first second : List Branch) :
    WellFormedBranches (first ++ second) ↔
      WellFormedBranches first ∧ WellFormedBranches second := by
  induction first with
  | nil => simp [WellFormedBranches]
  | cons branch rest ih =>
      obtain ⟨kind, condition?, body, line⟩ := branch
      simp [WellFormedBranches, ih, and_assoc]

theorem inOrder_ifTrue : InOrder [.ifTrue] := ⟨0, .inl rfl⟩

theorem not_inOrder_nil : ¬InOrder [] := by
  rintro ⟨count, h | h⟩
  · contradiction
  · contradiction

theorem InOrder.head_eq {kind : BranchKind} {later : List BranchKind}
    (h : InOrder (kind :: later)) : kind = .ifTrue := by
  obtain ⟨count, h | h⟩ := h
  · exact (List.cons.inj h).1
  · exact (List.cons.inj h).1

theorem InOrder.concat {kinds : List BranchKind} {last kind : BranchKind}
    (h : InOrder (kinds ++ [last])) (hlast : last ≠ .otherwise)
    (hkind : kind ≠ .ifTrue) : InOrder (kinds ++ [last] ++ [kind]) := by
  obtain ⟨count, h | h⟩ := h
  · rw [h]
    cases kind with
    | ifTrue => exact absurd rfl hkind
    | elseIf =>
        refine ⟨count + 1, .inl ?_⟩
        rw [List.replicate_succ']
        simp
    | otherwise => exact ⟨count, .inr rfl⟩
  · have := (List.append_inj' h rfl).2
    simp_all

theorem InOrder.ne_ifTrue_of_mem_tail {kinds : List BranchKind} (h : InOrder kinds)
    {kind : BranchKind} (hmem : kind ∈ kinds.tail) : kind ≠ .ifTrue := by
  obtain ⟨count, rfl | rfl⟩ := h
  · rw [List.eq_of_mem_replicate hmem]
    decide
  · rcases List.mem_append.mp hmem with hmem | hmem
    · rw [List.eq_of_mem_replicate hmem]
      decide
    · rw [List.mem_singleton.mp hmem]
      decide

theorem InOrder.ne_otherwise_of_mem_dropLast {kinds : List BranchKind}
    (h : InOrder kinds) {kind : BranchKind} (hmem : kind ∈ kinds.dropLast) :
    kind ≠ .otherwise := by
  have started {count : Nat}
      (hmem : kind ∈ BranchKind.ifTrue :: List.replicate count .elseIf) :
      kind ≠ .otherwise := by
    rcases List.mem_cons.mp hmem with rfl | hmem
    · decide
    · rw [List.eq_of_mem_replicate hmem]
      decide
  obtain ⟨count, rfl | rfl⟩ := h
  · exact started (List.dropLast_subset _ hmem)
  · rw [List.dropLast_concat] at hmem
    exact started hmem

theorem InOrder.adjacent {before after : List BranchKind} {kind next : BranchKind}
    (h : InOrder (before ++ kind :: next :: after)) :
    kind ≠ .otherwise ∧ next ≠ .ifTrue := by
  constructor
  · apply h.ne_otherwise_of_mem_dropLast
    rw [List.dropLast_append_of_ne_nil (by simp)]
    simp
  · apply h.ne_ifTrue_of_mem_tail
    cases before <;> simp

/-! ## Depth -/

theorem depth_append (first second : List Node) :
    depth (first ++ second) = max (depth first) (depth second) := by
  induction first with
  | nil => simp [depth]
  | cons node rest ih => cases node <;> simp [depth, ih, Nat.max_assoc]

theorem branchDepth_append (first second : List Branch) :
    branchDepth (first ++ second) = max (branchDepth first) (branchDepth second) := by
  induction first with
  | nil => simp [branchDepth]
  | cons branch rest ih =>
      obtain ⟨kind, condition?, body, line⟩ := branch
      simp [branchDepth, ih, Nat.max_assoc]

end GuardedText
