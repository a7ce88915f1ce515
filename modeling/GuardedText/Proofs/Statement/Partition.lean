import Mathlib.Data.List.Nodup
import GuardedText.Proofs.Run
import GuardedText.Proofs.Text.Lines
import GuardedText.Statement

/-!
# Statements cover the lines

The statements of a text take its lines one after the other.  A directive may take
several lines, and a line that it takes after its first holds no head, so every head
of the text has a directive of its own.  What one line does is said for the lines
that have been read but belong to no statement yet; the rest is an induction on the
lines.
-/

namespace GuardedText

open GuardedText.Text

namespace Text.Line

def joined (first : Line) : List Line → List Char
  | [] => first.text
  | next :: later => first.full ++ joined next later

theorem joined_concat (first last : Line) (later : List Line) :
    joined first (later ++ [last]) =
      (first :: later).flatMap (fun line => line.full) ++ last.text := by
  induction later generalizing first with
  | nil => simp [joined]
  | cons next later ih => simp [joined, ih]

end Text.Line

/-- The part of a text between two positions. -/
def IsSlice (source : List Char) (start stop : Nat) (text : List Char) : Prop :=
  ∃ before after, source = before ++ text ++ after ∧ byteLength before = start ∧
    start + byteLength text = stop

theorem exists_isSlice_joined {source : List Char} {before later after : List Line}
    {first : Line} (h : Line.ofText source = before ++ (first :: later ++ after)) :
    ∃ last ∈ Line.ofText source, last.number = first.number + later.length ∧
      IsSlice source first.start last.stop (Line.joined first later) ∧
        (later = [] → last = first) := by
  have hsource := Line.flatMap_full_ofText source
  have hfirst := Line.place_eq_append h
  rcases List.eq_nil_or_concat later with rfl | ⟨init, last, hlater⟩
  · refine ⟨first, by simp [h], rfl, ?_, fun _ => rfl⟩
    refine ⟨before.flatMap (fun line => line.full),
      first.terminator ++ after.flatMap (fun line => line.full), ?_, by omega, rfl⟩
    rw [← hsource, h]
    simp [Line.joined, Row.full, Line.text]
  · rw [List.concat_eq_append] at hlater
    subst hlater
    have hsplit : Line.ofText source = (before ++ first :: init) ++ last :: after := by
      simp [h]
    have hlast := Line.place_eq_append hsplit
    refine ⟨last, by simp [h], ?_, ?_, by simp⟩
    · simp only [List.length_append, List.length_cons] at hlast
      simp only [List.length_append, List.length_singleton]
      omega
    · refine ⟨before.flatMap (fun line => line.full),
        last.terminator ++ after.flatMap (fun line => line.full), ?_, by omega, ?_⟩
      · rw [← hsource, h, Line.joined_concat]
        simp [Row.full, Line.text]
      · simp only [Line.joined_concat, Line.stop, List.flatMap_append, byteLength_append]
          at hlast ⊢
        omega

theorem isSlice_of_mem {source : List Char} {line : Line} (h : line ∈ Line.ofText source) :
    IsSlice source line.start line.stop line.text := by
  obtain ⟨before, after, hsplit⟩ := List.append_of_mem h
  have hlines : Line.ofText source = before ++ (line :: [] ++ after) := hsplit
  obtain ⟨last, -, -, hslice, hsame⟩ := exists_isSlice_joined hlines
  rw [hsame rfl] at hslice
  exact hslice

theorem IsSlice.drop {source first second : List Char} {start stop : Nat}
    (h : IsSlice source start stop (first ++ second)) :
    IsSlice source (start + byteLength first) stop second := by
  obtain ⟨before, after, hsource, hstart, hstop⟩ := h
  refine ⟨before ++ first, after, by simp [hsource], by simp [hstart], ?_⟩
  rw [← hstop, byteLength_append, Nat.add_assoc]

namespace Statement

def text : Statement → String
  | .plain text _ => text
  | .directive found => found.source

def head? : Statement → Option (Directive.Style × Directive.Kind)
  | .plain _ _ => none
  | .directive found => some (found.style, found.kind)

def isSingle : Statement → Bool
  | .plain _ _ => true
  | .directive found => found.kind == .finish

/-! ## One line -/

structure Covers (statement : Statement) (first : Line) (later : List Line) : Prop where
  line_eq : statement.line = first.number
  text_eq : statement.text.toList = first.joined later
  head_eq : (Directive.Head.find? first.lexemes).map (fun head => (head.style, head.kind)) =
    statement.head?
  headless : ∀ line ∈ later, Directive.Head.find? line.lexemes = none
  single : statement.isSingle → later = []

structure Pending.Covers (pending : Pending) (first : Line) (later : List Line) : Prop where
  line_eq : pending.line = first.number
  source_eq : pending.source = (first :: later).flatMap fun line => line.full
  head_eq : (Directive.Head.find? first.lexemes).map (fun head => (head.style, head.kind)) =
    some (pending.style, .start pending.branch)
  headless : ∀ line ∈ later, Directive.Head.find? line.lexemes = none

/-- What is known of a directive and its open comment before and after a line. -/
inductive Pending.Advances (pending : Pending) (line : Line) :
    Option Pending × Option Statement → Prop
  | closes {directive : Directive} (hkind : directive.kind = .start pending.branch)
      (hstyle : directive.style = pending.style) (hline : directive.line = pending.line)
      (hsource : directive.source.toList = pending.source ++ line.text) :
      Advances pending line (none, some (.directive directive))
  | goesOn {next : Pending} (hbranch : next.branch = pending.branch)
      (hstyle : next.style = pending.style) (hline : next.line = pending.line)
      (hsource : next.source = pending.source ++ line.full) :
      Advances pending line (some next, none)

theorem Pending.close_eq_ok {pending : Pending} {body source : List Char}
    {directive : Directive} (h : pending.close body source = .ok directive) :
    ∃ condition?, directive = ⟨.start pending.branch, condition?,
      String.ofList (pending.source ++ source), pending.line, pending.style⟩ := by
  simp only [close] at h
  split at h
  · cases h
    exact ⟨_, rfl⟩
  · split at h
    · cases h
      exact ⟨_, rfl⟩
    · contradiction

theorem Pending.advances_of_advance {pending : Pending} {body : List Lexeme} {line : Line}
    {result : Option Pending × Option Statement}
    (h : pending.advance body line = .ok result) : pending.Advances line result := by
  unfold advance at h
  split at h
  · obtain ⟨directive, hclose, hresult⟩ := bind_eq_ok_iff.mp h
    obtain ⟨condition?, rfl⟩ := close_eq_ok hclose
    cases hresult
    exact .closes rfl rfl rfl (by simp)
  · cases h
    exact .goesOn rfl rfl rfl (by simp [Row.full, Line.text])

def Carries : Option Pending → List Line → Prop
  | none, read => read = []
  | some pending, read => ∃ first later, read = first :: later ∧ pending.Covers first later

theorem carries_step {pending? next? : Option Pending} {statement? : Option Statement}
    {read : List Line} {line : Line} (hcarries : Carries pending? read)
    (h : step pending? line = .ok (next?, statement?)) :
    (statement? = none ∧ Carries next? (read ++ [line])) ∨
      next? = none ∧ ∃ statement first later, statement? = some statement ∧
        read ++ [line] = first :: later ∧ statement.Covers first later := by
  unfold step at h
  split at h
  · rename_i hhead
    cases h
    cases hcarries
    exact .inr ⟨rfl, _, line, [], rfl, rfl, rfl, by simp [text, Line.joined],
      by simp [hhead, head?], by simp, fun _ => rfl⟩
  · rename_i style body hhead
    cases h
    cases hcarries
    exact .inr ⟨rfl, _, line, [], rfl, rfl, rfl, by simp [text, Line.joined],
      by simp [hhead, head?], by simp, fun _ => rfl⟩
  · rename_i style branch body hhead
    cases hcarries
    cases Pending.advances_of_advance h with
    | closes hkind hstyle hline hsource =>
        exact .inr ⟨rfl, _, line, [], rfl, rfl, hline, by simpa [text, Line.joined] using hsource,
          by simp [hhead, head?, hkind, hstyle], by simp, by simp [isSingle, hkind]⟩
    | goesOn hbranch hstyle hline hsource =>
        exact .inl ⟨rfl, line, [], rfl, hline, by simpa using hsource,
          by simp [hhead, hbranch, hstyle], by simp⟩
  · rename_i pending hhead
    obtain ⟨first, later, rfl, hcovers⟩ := hcarries
    have hheadless : ∀ other ∈ later ++ [line],
        Directive.Head.find? other.lexemes = none := by
      intro other hother
      rcases List.mem_append.mp hother with hother | hother
      · exact hcovers.headless other hother
      · rw [List.mem_singleton.mp hother, hhead]
    cases Pending.advances_of_advance h with
    | closes hkind hstyle hline hsource =>
        refine .inr ⟨rfl, _, first, later ++ [line], rfl, rfl, hline.trans hcovers.line_eq,
          ?_, ?_, hheadless, by simp [isSingle, hkind]⟩
        · rw [text, hsource, hcovers.source_eq, Line.joined_concat]
        · rw [hcovers.head_eq, head?, hkind, hstyle]
    | goesOn hbranch hstyle hline hsource =>
        refine .inl ⟨rfl, first, later ++ [line], rfl, hline.trans hcovers.line_eq, ?_, ?_,
          hheadless⟩
        · simp [hsource, hcovers.source_eq]
        · rw [hcovers.head_eq, hbranch, hstyle]
  · contradiction

/-! ## Many lines -/

/-- The statements take the lines one after the other and leave none out. -/
inductive Cover : List Statement → List Line → Prop
  | nil : Cover [] []
  | cons {statement : Statement} {statements : List Statement} {first : Line}
      {later rest : List Line} (hfirst : statement.Covers first later)
      (hrest : Cover statements rest) :
      Cover (statement :: statements) (first :: later ++ rest)

theorem cover_of_ofLines {pending? : Option Pending} {read lines : List Line}
    {statements : List Statement} (hcarries : Carries pending? read)
    (h : ofLines pending? lines = .ok statements) : Cover statements (read ++ lines) := by
  induction lines generalizing pending? read statements with
  | nil =>
      cases pending? with
      | none =>
          cases hcarries
          cases h
          exact .nil
      | some pending => contradiction
  | cons line rest ih =>
      rw [ofLines] at h
      obtain ⟨⟨next?, statement?⟩, hstep, h⟩ := bind_eq_ok_iff.mp h
      obtain ⟨others, hothers, h⟩ := bind_eq_ok_iff.mp h
      cases h
      rw [List.append_cons]
      rcases carries_step hcarries hstep with ⟨rfl, hnext⟩ | ⟨rfl, statement, first, later,
        rfl, hread, hcovers⟩
      · exact ih hnext hothers
      · have hfresh : Carries none [] := rfl
        rw [hread]
        exact .cons hcovers (ih hfresh hothers)

theorem Cover.split {before after : List Statement} {statement : Statement}
    {lines : List Line} (h : Cover (before ++ statement :: after) lines) :
    ∃ earlier first later rest, lines = earlier ++ (first :: later ++ rest) ∧
      statement.Covers first later ∧ Cover after rest := by
  induction before generalizing lines with
  | nil =>
      cases h with
      | @cons _ _ first later rest hfirst hrest =>
          exact ⟨[], first, later, rest, rfl, hfirst, hrest⟩
  | cons other before ih =>
      cases h with
      | @cons _ _ start others lines _ hrest =>
          obtain ⟨earlier, first, later, rest, rfl, hcovers, hafter⟩ := ih hrest
          exact ⟨start :: others ++ earlier, first, later, rest, by simp, hcovers, hafter⟩

theorem Cover.exists_first {statements : List Statement} {lines : List Line}
    (h : Cover statements lines) {statement : Statement} (hmem : statement ∈ statements) :
    ∃ first ∈ lines, ∃ later, statement.Covers first later := by
  obtain ⟨before, after, rfl⟩ := List.append_of_mem hmem
  obtain ⟨earlier, first, later, rest, rfl, hcovers, -⟩ := h.split
  exact ⟨first, by simp, later, hcovers⟩

theorem cover_of_ofText {source : List Char} {statements : List Statement}
    (h : ofText source = .ok statements) : Cover statements (Line.ofText source) := by
  have hfresh : Carries none [] := rfl
  exact cover_of_ofLines hfresh h

theorem Cover.sublist {statements : List Statement} {lines : List Line}
    (h : Cover statements lines) :
    (statements.map line).Sublist (lines.map (·.number)) := by
  induction h with
  | nil => exact .slnil
  | @cons statement _ first later rest hfirst _ ih =>
      rw [List.map_cons, hfirst.line_eq, List.cons_append, List.map_cons, List.map_append]
      exact (ih.trans (List.sublist_append_right _ _)).cons_cons _

theorem Cover.exists_of_mem {statements : List Statement} {lines : List Line}
    (h : Cover statements lines) {line : Line} (hline : line ∈ lines)
    (hhead : Directive.Head.find? line.lexemes ≠ none) :
    ∃ statement ∈ statements, ∃ later, statement.Covers line later := by
  induction h with
  | nil => contradiction
  | @cons statement _ first later rest hfirst _ ih =>
      rcases List.mem_append.mp hline with hline | hline
      · rcases List.mem_cons.mp hline with rfl | hline
        · exact ⟨statement, by simp, later, hfirst⟩
        · exact absurd (hfirst.headless line hline) hhead
      · obtain ⟨other, hother, covered⟩ := ih hline
        exact ⟨other, List.mem_cons_of_mem _ hother, covered⟩

/-! ## All lines of a text -/

def nextLine (source : List Char) (after : List Statement) : Nat :=
  (after.head?.map line).getD ((Line.ofText source).length + 1)

structure Partition (source : List Char) (statements : List Statement) : Prop where
  first : statements.head?.map line = some 1
  increasing : (statements.map line).Pairwise (· < ·)
  covered : ∀ before statement after, statements = before ++ statement :: after →
    ∃ first ∈ Line.ofText source, ∃ last ∈ Line.ofText source,
      first.number = statement.line ∧ last.number + 1 = nextLine source after ∧
        IsSlice source first.start last.stop statement.text.toList ∧
        (statement.isSingle → first = last)
  heads : ∀ line ∈ Line.ofText source, ∀ style kind,
    (∃ directive, .directive directive ∈ statements ∧ directive.line = line.number ∧
        directive.style = style ∧ directive.kind = kind) ↔
      ∃ body, Directive.Head.find? line.lexemes = some ⟨style, kind, body⟩

theorem Cover.nextLine_eq {source : List Char} {earlier later rest : List Line}
    {first : Line} {after : List Statement} (h : Cover after rest)
    (hlines : Line.ofText source = earlier ++ (first :: later ++ rest)) :
    nextLine source after = first.number + later.length + 1 := by
  have hfirst := (Line.place_eq_append hlines).1
  cases h with
  | nil =>
      simp only [nextLine, hlines, List.head?_nil, Option.map_none, Option.getD_none,
        List.append_nil, List.length_append, List.length_cons]
      omega
  | @cons statement statements next others rest hnext hrest =>
      have hsplit : Line.ofText source =
          (earlier ++ first :: later) ++ next :: (others ++ rest) := by
        simp [hlines]
      have hnumber := (Line.place_eq_append hsplit).1
      simp only [nextLine, List.head?_cons, Option.map_some, Option.getD_some, hnext.line_eq,
        hnumber, List.length_append, List.length_cons]
      omega

theorem Cover.head?_eq {source : List Char} {statements : List Statement}
    {lines : List Line} (h : Cover statements lines) (hlines : Line.ofText source = lines) :
    statements.head?.map line = some 1 := by
  cases h with
  | nil =>
      have hlength := Line.length_ofText source
      simp [hlines] at hlength
  | @cons statement statements first later rest hfirst hrest =>
      have hsplit : Line.ofText source = [] ++ first :: (later ++ rest) := hlines
      simp [hfirst.line_eq, (Line.place_eq_append hsplit).1]

theorem Cover.partition {source : List Char} {statements : List Statement}
    (h : Cover statements (Line.ofText source)) : Partition source statements := by
  have hnumbers : ((Line.ofText source).map (·.number)).Pairwise (· < ·) := by
    rw [Line.ofText, Line.map_number_place]
    exact List.pairwise_lt_range'
  refine ⟨h.head?_eq rfl, hnumbers.sublist h.sublist, ?_, ?_⟩
  · rintro before statement after rfl
    obtain ⟨earlier, first, later, rest, hlines, hcovers, hafter⟩ := h.split
    obtain ⟨last, hlast, hnumber, hslice, hsame⟩ := exists_isSlice_joined hlines
    refine ⟨first, by simp [hlines], last, hlast, hcovers.line_eq.symm, ?_, ?_, ?_⟩
    · rw [hafter.nextLine_eq hlines, hnumber]
    · rw [hcovers.text_eq]
      exact hslice
    · intro hsingle
      exact (hsame (hcovers.single hsingle)).symm
  · intro line hline style kind
    constructor
    · rintro ⟨directive, hmem, hnumber, rfl, rfl⟩
      obtain ⟨before, after, rfl⟩ := List.append_of_mem hmem
      obtain ⟨earlier, first, later, rest, hlines, hcovers, -⟩ := h.split
      have hsame : first = line := by
        apply List.inj_on_of_nodup_map (hnumbers.imp Nat.ne_of_lt) (by simp [hlines]) hline
        exact hcovers.line_eq.symm.trans hnumber
      obtain ⟨head, hhead, hfound⟩ := Option.map_eq_some_iff.mp (hsame ▸ hcovers.head_eq)
      rw [Prod.mk.injEq] at hfound
      rw [← hfound.1, ← hfound.2]
      exact ⟨head.body, hhead⟩
    · rintro ⟨body, hhead⟩
      obtain ⟨statement, hmem, later, hcovers⟩ := h.exists_of_mem hline (by simp [hhead])
      have hfound := hcovers.head_eq
      rw [hhead] at hfound
      cases statement with
      | plain => contradiction
      | directive directive =>
          cases hfound
          exact ⟨directive, hmem, hcovers.line_eq, rfl, rfl⟩

/-- The statements of a text divide its lines: the first begins at line 1, each goes
on to the line before the next one, the last to the last line, and the text of each is
the part of the document from the start of its first line to the end of its last.
Directives begin exactly at the lines that hold a head, and they are of its style and
kind. -/
theorem partition_of_ofText (source : List Char) (statements : List Statement)
    (h : ofText source = .ok statements) : Partition source statements := by
  exact (cover_of_ofText h).partition

theorem partition_of_ofText_comment :
    ofText "x\r\n/*#if A\r\n && B*/ y\n<!--#endif\nz".toList = .ok
        [.plain "x" 1,
          .directive ⟨.start .ifTrue, some "A\r\n && B", "/*#if A\r\n && B*/ y", 2, .block⟩,
          .directive ⟨.finish, none, "<!--#endif", 4, .markup⟩, .plain "z" 5] ∧
      Partition "x\r\n/*#if A\r\n && B*/ y\n<!--#endif\nz".toList
        [.plain "x" 1,
          .directive ⟨.start .ifTrue, some "A\r\n && B", "/*#if A\r\n && B*/ y", 2, .block⟩,
          .directive ⟨.finish, none, "<!--#endif", 4, .markup⟩, .plain "z" 5] :=
  have h := eq_ok_of_toOption (by decide +kernel)
  ⟨h, partition_of_ofText _ _ h⟩

end Statement

end GuardedText
