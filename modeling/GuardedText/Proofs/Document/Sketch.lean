import GuardedText.Document.Drawing
import GuardedText.Proofs.Condition.Alphabet
import GuardedText.Proofs.Document.Assembly
import GuardedText.Proofs.Process.Fidelity

/-!
# What is drawn of a document

A sketch keeps of a document which leaves, blocks and branches stand inside each other, what
each of them is called and at which line it stands.  It says nothing of rows or of how long a
label may be.  The entries of the sketch of a text come in the order of the source, and none of
their labels holds a line feed.
-/

namespace GuardedText

namespace Drawing

inductive Role where
  | leaf
  | block
  | branch
deriving DecidableEq, Repr

structure Entry where
  role : Role
  label : List Char
  line : Nat
deriving DecidableEq, Repr

/-- Entries side by side, each with what stands inside it. -/
inductive Sketch where
  | empty
  | beside (entry : Entry) (inside rest : Sketch)
deriving DecidableEq, Repr

def entries : Sketch → List Entry
  | .empty => []
  | .beside entry inside rest => entry :: (entries inside ++ entries rest)

def blockCaption (count : Nat) : List Char :=
  if count = 1 then "Block (1 branch)".toList
  else "Block (".toList ++ Nat.toDigits 10 count ++ " branches)".toList

def branchWord : BranchKind → List Char
  | .ifTrue => "if".toList
  | .elseIf => "elif".toList
  | .otherwise => "else".toList

def branchCaption (kind : BranchKind) : Option Condition → List Char
  | none => branchWord kind
  | some condition => branchWord kind ++ ' ' :: condition.written

def firstLine : List Branch → Nat
  | [] => 0
  | first :: _ => first.line

mutual

def sketchNodes : List Node → Sketch
  | [] => .empty
  | .leaf text line :: rest => .beside ⟨.leaf, text.toList, line⟩ .empty (sketchNodes rest)
  | .block branches :: rest =>
    .beside ⟨.block, blockCaption branches.length, firstLine branches⟩
      (sketchBranches branches) (sketchNodes rest)

def sketchBranches : List Branch → Sketch
  | [] => .empty
  | ⟨kind, condition?, body, line⟩ :: rest =>
    .beside ⟨.branch, branchCaption kind condition?, line⟩ (sketchNodes body)
      (sketchBranches rest)

end

/-! ## Labels -/

theorem not_mem_toDigits (value : Nat) : '\n' ∉ Nat.toDigits 10 value := by
  intro hmem
  have hdigit := Nat.isDigit_of_mem_toDigits (by decide) (by decide) hmem
  contradiction

theorem not_mem_blockCaption (count : Nat) : '\n' ∉ blockCaption count := by
  unfold blockCaption
  split
  · decide
  · have hcount := not_mem_toDigits count
    simp [hcount]

theorem not_mem_bracketed (needed : Bool) {text : List Char} (h : '\n' ∉ text) :
    '\n' ∉ Condition.bracketed needed text := by
  cases needed with
  | false => exact h
  | true => simp [Condition.bracketed, h]

theorem not_mem_written {condition : Condition} (h : condition.Writable) :
    '\n' ∉ condition.written := by
  induction condition with
  | symbol name =>
      intro hmem
      have hchar := Condition.isNameChar_of_isName (Condition.writable_symbol.mp h) hmem
      contradiction
  | not operand ih =>
      have hoperand := ih (Condition.writable_not.mp h)
      simp [Condition.written, not_mem_bracketed _ hoperand]
  | and left right ihleft ihright =>
      obtain ⟨hleft, hright⟩ := Condition.writable_and.mp h
      simp [Condition.written, not_mem_bracketed _ (ihleft hleft),
        not_mem_bracketed _ (ihright hright)]
  | or left right ihleft ihright =>
      obtain ⟨hleft, hright⟩ := Condition.writable_or.mp h
      simp [Condition.written, not_mem_bracketed _ (ihleft hleft),
        not_mem_bracketed _ (ihright hright)]
  | unsupported operator operand ih =>
      obtain ⟨hoperator, hoperand⟩ := Condition.writable_unsupported.mp h
      have hsigns : ∀ sign ∈ ["-", "+", "~"], '\n' ∉ sign.toList := by decide
      simp [Condition.written, hsigns operator hoperator, not_mem_bracketed _ (ih hoperand)]

theorem not_mem_branchCaption (kind : BranchKind) {condition? : Option Condition}
    (h : ∀ condition ∈ condition?, condition.Writable) :
    '\n' ∉ branchCaption kind condition? := by
  have hword : '\n' ∉ branchWord kind := by
    cases kind <;> decide
  cases condition? with
  | none => exact hword
  | some condition => simp [branchCaption, hword, not_mem_written (h condition rfl)]

/-! ## Entries and marks -/

/-- The mark that an entry stands for.  A block stands for the mark of its first branch. -/
inductive Entry.StandsFor : Entry → Mark → Prop
  | leaf (text : String) (line : Nat) :
      StandsFor ⟨.leaf, text.toList, line⟩ (.plain text line)
  | block (count : Nat) (kind : BranchKind) (condition? : Option Condition) (line : Nat) :
      StandsFor ⟨.block, blockCaption count, line⟩ (.start kind condition? line)
  | branch (kind : BranchKind) (condition? : Option Condition) (line : Nat) :
      StandsFor ⟨.branch, branchCaption kind condition?, line⟩ (.start kind condition? line)

mutual

theorem exists_mark_of_mem {nodes : List Node} (h : WellFormed nodes) {entry : Entry}
    (hentry : entry ∈ entries (sketchNodes nodes)) :
    ∃ mark ∈ marks nodes, entry.StandsFor mark := by
  match nodes with
  | [] => simp [sketchNodes, entries] at hentry
  | .leaf text line :: rest =>
    rw [sketchNodes, entries, entries, List.nil_append, List.mem_cons] at hentry
    rw [WellFormed] at h
    rw [marks]
    rcases hentry with rfl | hentry
    · exact ⟨_, List.mem_cons_self, .leaf text line⟩
    · obtain ⟨mark, hmark, hstands⟩ := exists_mark_of_mem h hentry
      exact ⟨mark, List.mem_cons_of_mem _ hmark, hstands⟩
  | .block [] :: rest =>
    rw [WellFormed] at h
    exact absurd h.1 not_inOrder_nil
  | .block (⟨kind, condition?, body, line⟩ :: others) :: rest =>
    rw [sketchNodes, entries, List.mem_cons, List.mem_append] at hentry
    rw [WellFormed] at h
    rw [marks]
    rcases hentry with rfl | hentry | hentry
    · exact ⟨_, List.mem_append_left _ (by simp [branchMarks]), .block _ kind condition? line⟩
    · obtain ⟨mark, hmark, hstands⟩ := exists_branchMark_of_mem h.2.1 hentry
      exact ⟨mark, List.mem_append_left _ hmark, hstands⟩
    · obtain ⟨mark, hmark, hstands⟩ := exists_mark_of_mem h.2.2 hentry
      exact ⟨mark, List.mem_append_right _ (List.mem_cons_of_mem _ hmark), hstands⟩

theorem exists_branchMark_of_mem {branches : List Branch} (h : WellFormedBranches branches)
    {entry : Entry} (hentry : entry ∈ entries (sketchBranches branches)) :
    ∃ mark ∈ branchMarks branches, entry.StandsFor mark := by
  match branches with
  | [] => simp [sketchBranches, entries] at hentry
  | ⟨kind, condition?, body, line⟩ :: rest =>
    rw [sketchBranches, entries, List.mem_cons, List.mem_append] at hentry
    rw [WellFormedBranches] at h
    rw [branchMarks]
    rcases hentry with rfl | hentry | hentry
    · exact ⟨_, List.mem_cons_self, .branch kind condition? line⟩
    · obtain ⟨mark, hmark, hstands⟩ := exists_mark_of_mem h.2.1 hentry
      exact ⟨mark, List.mem_cons_of_mem _ (List.mem_append_left _ hmark), hstands⟩
    · obtain ⟨mark, hmark, hstands⟩ := exists_branchMark_of_mem h.2.2 hentry
      exact ⟨mark, List.mem_cons_of_mem _ (List.mem_append_right _ hmark), hstands⟩

end

/-! ## The order of the source -/

/-- The one entry is in front of the other in the source.  A block begins with its first
branch. -/
def Entry.Before (entry other : Entry) : Prop :=
  entry.line < other.line ∨
    entry.role = .block ∧ other.role = .branch ∧ entry.line = other.line

theorem Entry.Before.line_lt {entry other : Entry} (h : entry.Before other)
    (hrole : entry.role ≠ .block) : entry.line < other.line := by
  rcases h with hless | ⟨hblock, -, -⟩
  · exact hless
  · contradiction

end Drawing

def Mark.line? : Mark → Option Nat
  | .plain _ line => some line
  | .start _ _ line => some line
  | .finish => none

def markLines (found : List Mark) : List Nat :=
  found.filterMap Mark.line?

theorem Mark.Matches.line_eq {mark : Mark} {statement : Statement} (h : mark.Matches statement)
    {line : Nat} (hline : mark.line? = some line) : statement.line = line := by
  cases mark with
  | plain text number =>
      cases hline
      rw [h.eq_plain]
      rfl
  | start kind condition? number =>
      obtain ⟨directive, rfl⟩ := h.exists_directive (by simp)
      cases hline
      exact h.2.1
  | finish => contradiction

theorem sublist_markLines {found : List Mark} {statements : List Statement}
    (h : List.Forall₂ Mark.Matches found statements) :
    (markLines found).Sublist (statements.map Statement.line) := by
  induction h with
  | nil => exact .slnil
  | @cons mark statement found statements hmatches _ ih =>
      rw [markLines, List.filterMap_cons, List.map_cons]
      cases hline : mark.line? with
      | none => exact ih.cons _
      | some line =>
          rw [hmatches.line_eq hline]
          exact ih.cons_cons _

namespace Drawing

theorem Entry.StandsFor.line_mem {entry : Entry} {mark : Mark} (h : entry.StandsFor mark)
    {found : List Mark} (hmark : mark ∈ found) : entry.line ∈ markLines found := by
  have hline : mark.line? = some entry.line := by
    cases h <;> rfl
  exact List.mem_filterMap.mpr ⟨mark, hmark, hline⟩

theorem line_mem_of_nodes {nodes : List Node} (h : WellFormed nodes) {entry : Entry}
    (hentry : entry ∈ entries (sketchNodes nodes)) : entry.line ∈ markLines (marks nodes) := by
  obtain ⟨mark, hmark, hstands⟩ := exists_mark_of_mem h hentry
  exact hstands.line_mem hmark

theorem line_mem_of_branches {branches : List Branch} (h : WellFormedBranches branches)
    {entry : Entry} (hentry : entry ∈ entries (sketchBranches branches)) :
    entry.line ∈ markLines (branchMarks branches) := by
  obtain ⟨mark, hmark, hstands⟩ := exists_branchMark_of_mem h hentry
  exact hstands.line_mem hmark

mutual

theorem pairwise_entries {nodes : List Node} (h : WellFormed nodes)
    (hlines : (markLines (marks nodes)).Pairwise (· < ·)) :
    (entries (sketchNodes nodes)).Pairwise Entry.Before := by
  match nodes with
  | [] => simp [sketchNodes, entries]
  | .leaf text line :: rest =>
    rw [WellFormed] at h
    simp only [marks, markLines, List.filterMap_cons, Mark.line?, List.pairwise_cons] at hlines
    rw [sketchNodes, entries, entries, List.nil_append, List.pairwise_cons]
    refine ⟨fun entry hentry => ?_, pairwise_entries h hlines.2⟩
    exact .inl (hlines.1 entry.line (line_mem_of_nodes h hentry))
  | .block [] :: rest =>
    rw [WellFormed] at h
    exact absurd h.1 not_inOrder_nil
  | .block (⟨kind, condition?, body, line⟩ :: others) :: rest =>
    rw [WellFormed] at h
    simp only [marks, markLines, List.filterMap_append, List.filterMap_cons, Mark.line?,
      List.pairwise_append] at hlines
    obtain ⟨hbranches, hrest, hacross⟩ := hlines
    have hinside := pairwise_branchEntries h.2.1 hbranches
    have hbefore {entry other : Entry}
        (hentry : entry ∈ entries (sketchBranches (⟨kind, condition?, body, line⟩ :: others)))
        (hother : other ∈ entries (sketchNodes rest)) : entry.line < other.line :=
      hacross _ (line_mem_of_branches h.2.1 hentry) _ (line_mem_of_nodes h.2.2 hother)
    rw [sketchNodes, entries, List.pairwise_cons, List.pairwise_append]
    rw [sketchBranches, entries] at hinside hbefore ⊢
    refine ⟨fun entry hentry => ?_, hinside, pairwise_entries h.2.2 hrest,
      fun entry hentry other hother => .inl (hbefore hentry hother)⟩
    rcases List.mem_append.mp hentry with hentry | hentry
    · rcases List.mem_cons.mp hentry with rfl | hentry
      · exact .inr ⟨rfl, rfl, rfl⟩
      · have hfirst := (List.pairwise_cons.mp hinside).1 entry hentry
        exact .inl (hfirst.line_lt nofun)
    · have hlater := hbefore List.mem_cons_self hentry
      exact .inl hlater

theorem pairwise_branchEntries {branches : List Branch} (h : WellFormedBranches branches)
    (hlines : (markLines (branchMarks branches)).Pairwise (· < ·)) :
    (entries (sketchBranches branches)).Pairwise Entry.Before := by
  match branches with
  | [] => simp [sketchBranches, entries]
  | ⟨kind, condition?, body, line⟩ :: rest =>
    rw [WellFormedBranches] at h
    simp only [branchMarks, markLines, List.filterMap_cons, Mark.line?, List.filterMap_append,
      List.cons_append, List.pairwise_cons, List.pairwise_append] at hlines
    obtain ⟨hfirst, hbody, hrest, hacross⟩ := hlines
    rw [sketchBranches, entries, List.pairwise_cons, List.pairwise_append]
    refine ⟨fun entry hentry => .inl ?_, pairwise_entries h.2.1 hbody,
      pairwise_branchEntries h.2.2 hrest, fun entry hentry other hother => .inl ?_⟩
    · apply hfirst
      rcases List.mem_append.mp hentry with hentry | hentry
      · exact List.mem_append_left _ (line_mem_of_nodes h.2.1 hentry)
      · exact List.mem_append_right _ (line_mem_of_branches h.2.2 hentry)
    · exact hacross _ (line_mem_of_nodes h.2.1 hentry) _ (line_mem_of_branches h.2.2 hother)

end

end Drawing

/-! ## Sketches of texts -/

theorem Statement.not_mem_of_plain {source : List Char} {statements : List Statement}
    (h : ofText source = .ok statements) {text : String} {line : Nat}
    (hmem : .plain text line ∈ statements) : '\n' ∉ text.toList := by
  obtain ⟨found, hfound, htext, -⟩ := exists_line_of_plain h hmem
  rw [← htext]
  exact (Text.Line.lexemes_eq_of_mem hfound).2

theorem Drawing.Entry.StandsFor.not_mem_label {entry : Entry} {mark : Mark}
    (h : entry.StandsFor mark) {source : List Char} {statements : List Statement}
    (hcut : Statement.ofText source = .ok statements) {statement : Statement}
    (hmem : statement ∈ statements) (hmatches : mark.Matches statement) :
    '\n' ∉ entry.label := by
  cases h with
  | leaf text line =>
      rw [hmatches.eq_plain] at hmem
      exact Statement.not_mem_of_plain hcut hmem
  | block count =>
      dsimp only
      exact not_mem_blockCaption count
  | branch kind =>
      dsimp only
      exact not_mem_branchCaption kind hmatches.writable

namespace Document

def sketch (document : Document) : Drawing.Sketch :=
  Drawing.sketchNodes document.content

theorem entries_sketch_of_parse {source : String} {document : Document}
    (h : parse source = .ok document) :
    (Drawing.entries document.sketch).Pairwise Drawing.Entry.Before ∧
      ∀ entry ∈ Drawing.entries document.sketch, '\n' ∉ entry.label := by
  obtain ⟨statements, hcut, hassembly⟩ := bind_eq_ok_iff.mp h
  have hreading := isReadingOf_of_ofStatements hassembly
  constructor
  · have hlines := (Statement.cover_of_ofText hcut).partition.increasing
    exact Drawing.pairwise_entries hreading.wellFormed
      (hlines.sublist (sublist_markLines hreading.inStep))
  · intro entry hentry
    obtain ⟨mark, hmark, hstands⟩ := Drawing.exists_mark_of_mem hreading.wellFormed hentry
    obtain ⟨statement, hstatement, hmatches⟩ :=
      exists_of_forall₂_of_mem hreading.inStep hmark
    exact hstands.not_mem_label hcut hstatement hmatches

end Document

end GuardedText
