import GuardedText.Proofs.Directive.Textual

/-!
# Comments that close

Whether the comment of a directive closes is said here line by line and on the characters
of the lines, without reading them one after the other.  The reader of statements takes
several lines at a time, but it never passes a line with a head unseen: a directive ends
before the next head or not at all.  So it fails exactly if some line of the text is at
fault, and then with the fault of the first of them.
-/

namespace GuardedText

open GuardedText.Text

def IsBeforeFirst (pattern text inner : List Char) : Prop :=
  inner ++ pattern <+: text ∧
    ∀ earlier, earlier ++ pattern <+: text → inner.length ≤ earlier.length

namespace IsBeforeFirst

variable {pattern text inner : List Char}

theorem unique {other : List Char} (h : IsBeforeFirst pattern text inner)
    (hother : IsBeforeFirst pattern text other) : inner = other := by
  have hlength := Nat.le_antisymm (h.2 other hother.1) (hother.2 inner h.1)
  have hinner := (List.prefix_append inner pattern).trans h.1
  have hsame := List.prefix_of_prefix_length_le hinner
    ((List.prefix_append other pattern).trans hother.1) (Nat.le_of_eq hlength)
  exact hsame.eq_of_length hlength

theorem isInfix (h : IsBeforeFirst pattern text inner) : pattern <:+: text :=
  (List.suffix_append inner pattern).isInfix.trans h.1.isInfix

theorem of_isPrefix (h : pattern <+: text) : IsBeforeFirst pattern text [] :=
  ⟨h, fun _ _ => Nat.zero_le _⟩

theorem cons {char : Char} (hnot : ¬pattern <+: char :: text)
    (h : IsBeforeFirst pattern text inner) :
    IsBeforeFirst pattern (char :: text) (char :: inner) := by
  refine ⟨List.prefix_cons_inj char |>.mpr h.1, ?_⟩
  intro earlier hearlier
  cases earlier with
  | nil => exact absurd hearlier hnot
  | cons first earlier =>
      exact Nat.succ_le_succ (h.2 earlier (List.cons_prefix_cons.mp hearlier).2)

end IsBeforeFirst

/-- What is left of the text without the characters of this sort at its end. -/
def IsBeforeEnd (property : Char → Bool) (text inner : List Char) : Prop :=
  ∃ run, text = inner ++ run ∧ (∀ char ∈ run, property char) ∧
    ∀ char ∈ inner.getLast?, property char = false

def IsTrimmed (text inner : List Char) : Prop :=
  ∃ blanks rest, text = blanks ++ rest ∧ (∀ char ∈ blanks, isBlank char) ∧
    (∀ char ∈ rest.head?, isBlank char = false) ∧ IsBeforeEnd isBlank rest inner

theorem isBeforeEnd_iff {property : Char → Bool} {text inner : List Char} :
    IsBeforeEnd property text inner ↔ dropEndWhile property text = inner := by
  constructor
  · rintro ⟨run, rfl, hrun, hlast⟩
    exact dropEndWhile_append_eq hrun hlast
  · rintro rfl
    refine ⟨(text.reverse.takeWhile property).reverse, ?_, ?_, ?_⟩
    · rw [dropEndWhile, ← List.reverse_append, List.takeWhile_append_dropWhile,
        List.reverse_reverse]
    · intro char hchar
      exact List.all_eq_true.mp List.all_takeWhile char (List.mem_reverse.mp hchar)
    · rw [dropEndWhile, List.getLast?_reverse]
      exact head?_dropWhile_eq_false

theorem isTrimmed_iff {text inner : List Char} :
    IsTrimmed text inner ↔ trim text = inner := by
  constructor
  · rintro ⟨blanks, rest, rfl, hblanks, hrest, hend⟩
    rw [trim, dropWhile_append_eq hblanks hrest]
    exact isBeforeEnd_iff.mp hend
  · intro h
    exact ⟨_, _, List.takeWhile_append_dropWhile.symm, List.all_eq_true.mp List.all_takeWhile,
      head?_dropWhile_eq_false, isBeforeEnd_iff.mpr h⟩

namespace Directive.Style

def closing : Style → List Char
  | .block => "*/".toList
  | .markup => "-->".toList

def Searches (style : Style) (lexemes : List Lexeme) (text : List Char) : Prop :=
  match style.beforeCloser? lexemes with
  | some inner => IsBeforeFirst style.closing text (Lexeme.textOf inner)
  | none => ¬style.closing <:+: text

theorem isPrefix_kinds_iff {signs : List Char} {kinds : List Lexeme.Kind}
    (h : signs.map Lexeme.punctuation? = kinds.map some) (text : List Char) :
    kinds <+: (Lexeme.ofText text).map (·.kind) ↔ signs <+: text := by
  constructor
  · rintro ⟨others, hkinds⟩
    obtain ⟨lexemes, rest, hlexemes, rfl, -⟩ := List.map_eq_append_iff.mp hkinds.symm
    rw [List.map_map] at h
    obtain ⟨tail, rfl, -⟩ := Lexeme.exists_of_ofText_signs hlexemes h
    exact List.prefix_append signs tail
  · rintro ⟨tail, rfl⟩
    induction signs generalizing kinds with
    | nil =>
        obtain rfl : kinds = [] := by simpa using h.symm
        exact List.nil_prefix
    | cons sign signs ih =>
        cases kinds with
        | nil => simp at h
        | cons kind kinds =>
            rw [List.map_cons, List.map_cons, List.cons.injEq] at h
            rw [List.cons_append, Lexeme.ofText_punctuation _ h.1, List.map_cons]
            exact List.cons_prefix_cons.mpr ⟨rfl, ih h.2⟩

theorem closer_iff_closing (style : Style) (text : List Char) :
    style.closer.isPrefixOf ((Lexeme.ofText text).map (·.kind)) ↔
      style.closing <+: text := by
  rw [List.isPrefixOf_iff_prefix]
  apply isPrefix_kinds_iff
  cases style <;> rfl

theorem not_closing_of_not_punctuation (style : Style) {char : Char}
    (h : Lexeme.punctuation? char = none) (text : List Char) :
    ¬style.closing <+: char :: text := by
  cases style <;>
  · intro hcloses
    obtain ⟨rfl, -⟩ := List.cons_prefix_cons.mp hcloses
    contradiction

theorem beforeCloser?_of_plain (style : Style) {kind : Lexeme.Kind}
    (h : kind = .newline ∨ kind = .whitespace ∨ kind = .text) (run : List Char)
    (others : List Lexeme) :
    style.beforeCloser? (⟨kind, run⟩ :: others) =
      (style.beforeCloser? others).map (⟨kind, run⟩ :: ·) := by
  rw [beforeCloser?, if_neg]
  rcases h with rfl | rfl | rfl <;> cases style <;> simp [closer]

theorem Searches.empty {style : Style} {others : List Lexeme} {text : List Char}
    {kind : Lexeme.Kind} (hkind : kind = .newline ∨ kind = .whitespace ∨ kind = .text)
    (h : style.Searches others text) : style.Searches (⟨kind, []⟩ :: others) text := by
  unfold Searches at h ⊢
  rw [beforeCloser?_of_plain style hkind]
  cases hfound : style.beforeCloser? others with
  | none =>
      rw [hfound] at h
      exact h
  | some inner =>
      rw [hfound] at h
      exact h

theorem Searches.longer {style : Style} {others : List Lexeme} {text run : List Char}
    {kind : Lexeme.Kind} (hkind : kind = .newline ∨ kind = .whitespace ∨ kind = .text)
    (h : style.Searches (⟨kind, run⟩ :: others) text) {char : Char}
    (hchar : Lexeme.punctuation? char = none) :
    style.Searches (⟨kind, char :: run⟩ :: others) (char :: text) := by
  have hnot := style.not_closing_of_not_punctuation hchar text
  unfold Searches at h ⊢
  rw [beforeCloser?_of_plain style hkind] at h ⊢
  cases hfound : style.beforeCloser? others with
  | none =>
      rw [hfound] at h
      exact fun hinside => (List.infix_cons_iff.mp hinside).elim hnot h
  | some inner =>
      rw [hfound] at h
      exact h.cons hnot

theorem Searches.of_run {style : Style} {others : List Lexeme} {text run : List Char}
    {kind : Lexeme.Kind} (hkind : kind = .newline ∨ kind = .whitespace ∨ kind = .text)
    (h : style.Searches others text)
    (hrun : ∀ char ∈ run, Lexeme.punctuation? char = none) :
    style.Searches (⟨kind, run⟩ :: others) (run ++ text) := by
  induction run with
  | nil => exact h.empty hkind
  | cons char run ih =>
      rw [List.forall_mem_cons] at hrun
      exact (ih hrun.2).longer hkind hrun.1

theorem searches_ofText (style : Style) (text : List Char) :
    style.Searches (Lexeme.ofText text) text := by
  induction text with
  | nil =>
      intro hinside
      have hempty := List.infix_nil.mp hinside
      cases style <;> contradiction
  | cons char rest ih =>
      cases hchar : Lexeme.punctuation? char with
      | some kind =>
          have hcloser := style.closer_iff_closing (char :: rest)
          unfold Searches at ih ⊢
          rw [Lexeme.ofText_punctuation rest hchar] at hcloser ⊢
          rw [beforeCloser?]
          by_cases hcloses : style.closing <+: char :: rest
          · rw [if_pos (hcloser.mpr hcloses)]
            exact .of_isPrefix hcloses
          · rw [if_neg (mt hcloser.mp hcloses)]
            cases hfound : style.beforeCloser? (Lexeme.ofText rest) with
            | none =>
                rw [hfound] at ih
                exact fun hinside => (List.infix_cons_iff.mp hinside).elim hcloses ih
            | some inner =>
                rw [hfound] at ih
                exact ih.cons hcloses
      | none =>
          obtain ⟨kind, run, hkind, hattach⟩ :=
            Lexeme.attach_of_not_punctuation hchar (Lexeme.ofText rest)
          have htext := Lexeme.textOf_attach char (Lexeme.ofText rest)
          change style.Searches (Lexeme.attach char (Lexeme.ofText rest)) (char :: rest)
          rcases hattach with hattach | ⟨old, others, hrest, hattach⟩
          · rw [hattach] at htext ⊢
            obtain rfl : run = [char] := List.append_cancel_right htext
            exact (ih.empty hkind).longer hkind hchar
          · rw [hattach] at htext ⊢
            rw [hrest] at ih htext
            obtain rfl : run = char :: old := List.append_cancel_right htext
            exact ih.longer hkind hchar

theorem searches_body (style : Style) {text : List Char} {head : Head}
    (h : Head.find? (Lexeme.ofText text) = some head) :
    style.Searches head.body (Lexeme.textOf head.body) := by
  obtain ⟨before, after, -, hhere, -⟩ := Head.find?_ofText_eq_some_iff.mp h
  obtain ⟨⟨found, behind⟩, hopener, hhere⟩ := Option.bind_eq_some_iff.mp hhere
  obtain ⟨⟨kind, body⟩, hkeyword, hhere⟩ := Option.bind_eq_some_iff.mp hhere
  cases hhere
  obtain ⟨opener, tail, -, -, rfl⟩ := Head.opener?_sound hopener
  obtain ⟨run, rest, -, hrun, -, -, -, rfl⟩ := Head.keyword?_eq_some hkeyword
  have hplain : ∀ char ∈ run.dropWhile Char.isAlpha, Lexeme.punctuation? char = none := by
    intro char hchar
    have hword := hrun char ((List.dropWhile_suffix Char.isAlpha).subset hchar)
    simp only [Lexeme.isWordChar, Bool.and_eq_true, Option.isNone_iff_eq_none] at hword
    exact hword.1.1.1
  rw [Lexeme.textOf_cons_ofText]
  exact (style.searches_ofText rest).of_run (.inr (.inr rfl)) hplain

theorem Searches.beforeCloser?_eq_some {style : Style} {lexemes : List Lexeme}
    {text inner : List Char} (h : style.Searches lexemes text)
    (hfirst : IsBeforeFirst style.closing text inner) :
    ∃ found, style.beforeCloser? lexemes = some found ∧ Lexeme.textOf found = inner := by
  unfold Searches at h
  split at h
  · rename_i found hfound
    exact ⟨found, hfound, h.unique hfirst⟩
  · exact absurd hfirst.isInfix h

theorem Searches.beforeCloser?_eq_none {style : Style} {lexemes : List Lexeme}
    {text : List Char} (h : style.Searches lexemes text)
    (hnone : ¬style.closing <:+: text) : style.beforeCloser? lexemes = none := by
  unfold Searches at h
  split at h
  · exact absurd h.isInfix hnone
  · assumption

def IsConditionText : Style → List Char → List Char → Prop
  | .block, raw, condition => ∃ trimmed bare, IsTrimmed raw trimmed ∧
      IsBeforeEnd (· == '*') trimmed bare ∧ IsBeforeEnd isBlank bare condition
  | .markup, raw, condition => IsTrimmed raw condition

theorem isConditionText_iff {style : Style} {raw condition : List Char} :
    style.IsConditionText raw condition ↔ style.conditionText raw = condition := by
  cases style with
  | block => simp [IsConditionText, isTrimmed_iff, isBeforeEnd_iff, conditionText, trimEnd]
  | markup => exact isTrimmed_iff

end Directive.Style

namespace Statement

open Directive (Style Head)

/-! ## Closers on later lines -/

/-- No line up to the one before `after` holds a head, and the first closer is on that
line; `raw` is all the text before it. -/
inductive ClosesBelow (style : Style) : List Line → List Char → List Line → Prop
  | intro {passed : List Line} {last : Line} {after : List Line} {inner : List Char}
      (hheadless : ∀ line ∈ passed ++ [last], Head.find? line.lexemes = none)
      (hpassed : ∀ line ∈ passed, ¬style.closing <:+: line.text)
      (hfirst : IsBeforeFirst style.closing last.text inner) :
      ClosesBelow style (passed ++ last :: after)
        (passed.flatMap (fun line => line.full) ++ inner) after

/-- The comment of a directive closes behind `raw`, which begins right behind its keyword,
and the lines `after` follow.  On the line of the directive `body` stands behind the
keyword. -/
inductive Closes (style : Style) (body : List Char) (line : Line) (later : List Line) :
    List Char → List Line → Prop
  | onLine {raw : List Char} (hfirst : IsBeforeFirst style.closing body raw) :
      Closes style body line later raw later
  | below {inner : List Char} {after : List Line} (hbody : ¬style.closing <:+: body)
      (hbelow : ClosesBelow style later inner after) :
      Closes style body line later (body ++ line.terminator ++ inner) after

theorem ClosesBelow.cons {style : Style} {lines after : List Line} {raw : List Char}
    {line : Line} (hhead : Head.find? line.lexemes = none)
    (hpassed : ¬style.closing <:+: line.text) (h : ClosesBelow style lines raw after) :
    ClosesBelow style (line :: lines) (line.full ++ raw) after := by
  cases h with
  | @intro passed last _ inner hheadless hothers hfirst =>
      rw [← List.append_assoc]
      exact @intro style (line :: passed) last after inner
        (List.forall_mem_cons.mpr ⟨hhead, hheadless⟩)
        (List.forall_mem_cons.mpr ⟨hpassed, hothers⟩) hfirst

theorem ClosesBelow.headless {style : Style} {lines after : List Line} {raw : List Char}
    (h : ClosesBelow style lines raw after) :
    ∃ passed, lines = passed ++ after ∧
      ∀ line ∈ passed, Head.find? line.lexemes = none := by
  cases h with
  | @intro passed last _ inner hheadless hothers hfirst =>
      exact ⟨passed ++ [last], by simp, hheadless⟩

theorem ClosesBelow.isPrefix {style : Style} {lines after : List Line} {raw : List Char}
    (h : ClosesBelow style lines raw after) :
    raw ++ style.closing <+: lines.flatMap fun other => other.full := by
  cases h with
  | @intro passed last _ inner hheadless hpassed hfirst =>
      obtain ⟨rest, hrest⟩ := hfirst.1
      refine ⟨rest ++ (last.terminator ++ after.flatMap fun other => other.full), ?_⟩
      rw [List.flatMap_append, List.flatMap_cons, Row.full, ← Line.text, ← hrest]
      simp only [List.append_assoc]

theorem ofLines_of_closesBelow {pending : Pending} {lines after : List Line}
    {raw : List Char} (hlines : ∀ line ∈ lines, line.lexemes = Lexeme.ofText line.text)
    (h : ClosesBelow pending.style lines raw after) :
    ∃ source, ofLines (some pending) lines = do
      let directive ← pending.close raw source
      let later ← ofLines none after
      return .directive directive :: later := by
  have hsearch (line : Line) (hline : line ∈ lines) :
      pending.style.Searches line.lexemes line.text := by
    rw [hlines line hline]
    exact pending.style.searches_ofText line.text
  clear hlines
  cases h with
  | @intro passed last _ inner hheadless hpassed hfirst =>
      induction passed generalizing pending with
      | nil =>
          obtain ⟨found, hfound, rfl⟩ := (hsearch last (by simp)).beforeCloser?_eq_some hfirst
          have hhead := hheadless last (by simp)
          exact ⟨last.text, ofLines_cons_of_closer after (step_of_no_head hhead) hfound⟩
      | cons line passed ih =>
          rw [List.cons_append, List.forall_mem_cons] at hheadless hsearch
          rw [List.forall_mem_cons] at hpassed
          have hnone := hsearch.1.beforeCloser?_eq_none hpassed.1
          obtain ⟨source, hrest⟩ := @ih
            { pending with
              body := pending.body ++ (Lexeme.textOf line.lexemes ++ line.terminator)
              source := pending.source ++ line.full }
            hheadless.2 hpassed.2 hfirst hsearch.2
          refine ⟨line.full ++ source, ?_⟩
          rw [List.cons_append, ofLines_of_no_closer _ (step_of_no_head hheadless.1) hnone,
            hrest, Pending.close_append, List.flatMap_cons, List.append_assoc line.full]
          rfl

theorem ofLines_of_not_closesBelow {pending : Pending} {lines : List Line}
    (hlines : ∀ line ∈ lines, line.lexemes = Lexeme.ofText line.text)
    (h : ∀ raw after, ¬ClosesBelow pending.style lines raw after) :
    ofLines (some pending) lines = .error (.openDirective pending.line) := by
  induction lines generalizing pending with
  | nil => rfl
  | cons line lines ih =>
      rw [List.forall_mem_cons] at hlines
      cases hhead : Head.find? line.lexemes with
      | some head =>
          simp only [ofLines, step, hhead]
          rfl
      | none =>
          have hsearch := pending.style.searches_ofText line.text
          rw [← hlines.1, Style.Searches] at hsearch
          cases hfound : pending.style.beforeCloser? line.lexemes with
          | some inner =>
              rw [hfound] at hsearch
              have hheadless : ∀ other ∈ [] ++ [line], Head.find? other.lexemes = none := by
                simpa using hhead
              exact absurd (.intro hheadless (by simp) hsearch) (h _ _)
          | none =>
              rw [hfound] at hsearch
              rw [ofLines_of_no_closer lines (step_of_no_head hhead) hfound]
              apply ih hlines.2
              intro raw after hcloses
              exact h _ _ (hcloses.cons hhead hsearch)

/-! ## The line of a head -/

section Head

variable {line : Line} {later : List Line} {style : Style} {branch : BranchKind}
  {body : List Lexeme}

theorem ofLines_of_closes {after : List Line} {raw : List Char}
    (hlines : ∀ other ∈ line :: later, other.lexemes = Lexeme.ofText other.text)
    (hhead : Head.find? line.lexemes = some ⟨style, .start branch, body⟩)
    (h : Closes style (Lexeme.textOf body) line later raw after) :
    ∃ source, ofLines none (line :: later) = do
      let directive ← Pending.close ⟨line.number, style, branch, [], []⟩ raw source
      let others ← ofLines none after
      return .directive directive :: others := by
  rw [List.forall_mem_cons] at hlines
  have hsearch := style.searches_body (hlines.1 ▸ hhead)
  have hstep := step_of_head hhead
  cases h with
  | onLine hfirst =>
      obtain ⟨found, hfound, rfl⟩ := hsearch.beforeCloser?_eq_some hfirst
      exact ⟨line.text, ofLines_cons_of_closer later hstep hfound⟩
  | below hbody hbelow =>
      have hnone := hsearch.beforeCloser?_eq_none hbody
      obtain ⟨source, hrest⟩ := @ofLines_of_closesBelow
        ⟨line.number, style, branch, [] ++ (Lexeme.textOf body ++ line.terminator),
          [] ++ line.full⟩ _ _ _ hlines.2 hbelow
      refine ⟨line.full ++ source, ?_⟩
      rw [ofLines_of_no_closer later hstep hnone, hrest]
      simp only [Pending.close_append ⟨line.number, style, branch, [], []⟩]

theorem ofLines_of_not_closes
    (hlines : ∀ other ∈ line :: later, other.lexemes = Lexeme.ofText other.text)
    (hhead : Head.find? line.lexemes = some ⟨style, .start branch, body⟩)
    (h : ∀ raw after, ¬Closes style (Lexeme.textOf body) line later raw after) :
    ofLines none (line :: later) = .error (.openDirective line.number) := by
  rw [List.forall_mem_cons] at hlines
  have hsearch := style.searches_body (hlines.1 ▸ hhead)
  rw [Style.Searches] at hsearch
  split at hsearch
  · exact absurd (.onLine hsearch) (h _ _)
  · rename_i hnone
    rw [ofLines_of_no_closer later (step_of_head hhead) hnone]
    apply ofLines_of_not_closesBelow hlines.2
    intro raw after hbelow
    exact h _ _ (.below hsearch hbelow)

theorem Closes.isPrefix {body raw : List Char} {after : List Line}
    (h : Closes style body line later raw after) :
    raw ++ style.closing <+:
      body ++ (line.terminator ++ later.flatMap fun other => other.full) := by
  cases h with
  | onLine hfirst => exact hfirst.1.trans (List.prefix_append _ _)
  | below hbody hbelow =>
      simp only [List.append_assoc, List.prefix_append_right_inj]
      exact hbelow.isPrefix

theorem Closes.isSlice {source raw : List Char} {after : List Line} {kind : Directive.Kind}
    (hsuffix : line :: later <:+ Line.ofText source)
    (hhead : Head.find? line.lexemes = some ⟨style, kind, body⟩)
    (h : Closes style (Lexeme.textOf body) line later raw after) :
    ∃ start, IsSlice source start line.stop (Lexeme.textOf body) ∧
      IsSlice source start (start + byteLength (raw ++ style.closing))
        (raw ++ style.closing) := by
  have hmem : line ∈ Line.ofText source := hsuffix.subset List.mem_cons_self
  rw [(Line.lexemes_eq_of_mem hmem).1] at hhead
  obtain ⟨front, written, hfirst⟩ := Head.find?_ofText_iff_firstHead.mp ⟨body, hhead, rfl⟩
  have hline : line.text = (front ++ written) ++ Lexeme.textOf body := by
    rw [hfirst.text_eq, List.append_assoc]
  refine ⟨line.start + byteLength (front ++ written), ?_, ?_⟩
  · have hslice := isSlice_of_mem hmem
    rw [hline] at hslice
    exact hslice.drop
  · obtain ⟨before, hsplit⟩ := hsuffix
    obtain ⟨rest, hrest⟩ := h.isPrefix
    have hstart := (Line.place_eq_append hsplit.symm).2
    refine ⟨before.flatMap (fun other => other.full) ++ (front ++ written), rest, ?_, ?_, rfl⟩
    · rw [← Line.flatMap_full_ofText source, ← hsplit, List.flatMap_append,
        List.flatMap_cons, Row.full, ← Line.text, hline, List.append_assoc _ _ rest, hrest]
      simp only [List.append_assoc]
    · rw [byteLength_append, hstart, Nat.zero_add]

end Head

/-! ## Lines at fault -/

/-- What is wrong with the head of a line that the lines `later` follow. -/
inductive Faulty (line : Line) (later : List Line) : Fault → Prop
  | unclosed {style : Style} {branch : BranchKind} {body : List Lexeme}
      (hhead : Head.find? line.lexemes = some ⟨style, .start branch, body⟩)
      (hopen : ∀ raw after, ¬Closes style (Lexeme.textOf body) line later raw after) :
      Faulty line later (.openDirective line.number)
  | unwanted {style : Style} {body : List Lexeme} {raw condition : List Char}
      {after : List Line}
      (hhead : Head.find? line.lexemes = some ⟨style, .start .otherwise, body⟩)
      (hcloses : Closes style (Lexeme.textOf body) line later raw after)
      (hcondition : style.IsConditionText raw condition) (hnonempty : condition ≠ []) :
      Faulty line later (.condition line.number (.notWanted (String.ofList condition)))

def ReadsFrom (directive : Directive) (branch : BranchKind) (line : Line)
    (later : List Line) : Prop :=
  ∃ body raw after condition,
    Head.find? line.lexemes = some ⟨directive.style, .start branch, body⟩ ∧
      Closes directive.style (Lexeme.textOf body) line later raw after ∧
      directive.style.IsConditionText raw condition ∧
      directive.condition? = if condition = [] then none else some (String.ofList condition)

theorem Pending.close_fresh {style : Style} {raw condition : List Char}
    (h : style.IsConditionText raw condition) (number : Nat) (branch : BranchKind)
    (source : List Char) :
    Pending.close ⟨number, style, branch, [], []⟩ raw source =
      if condition ≠ [] ∧ branch = .otherwise then
        .error (.condition number (.notWanted (String.ofList condition)))
      else
        .ok ⟨.start branch, if condition = [] then none else some (String.ofList condition),
          String.ofList source, number, style⟩ := by
  simp only [close, List.nil_append, Style.isConditionText_iff.mp h]
  by_cases hempty : condition = []
  · simp [hempty]
  · cases branch <;> simp [hempty, BranchKind.takesCondition]

theorem Faulty.ofLines_eq {line : Line} {later : List Line} {fault : Fault}
    (hlines : ∀ other ∈ line :: later, other.lexemes = Lexeme.ofText other.text)
    (h : Faulty line later fault) : ofLines none (line :: later) = .error fault := by
  cases h with
  | unclosed hhead hopen => exact ofLines_of_not_closes hlines hhead hopen
  | unwanted hhead hcloses hcondition hnonempty =>
      obtain ⟨source, hrun⟩ := ofLines_of_closes hlines hhead hcloses
      rw [hrun, Pending.close_fresh hcondition, if_pos ⟨hnonempty, rfl⟩]
      rfl

theorem exists_of_not_faulty {line : Line} {later : List Line}
    (hlines : ∀ other ∈ line :: later, other.lexemes = Lexeme.ofText other.text)
    (h : ∀ fault, ¬Faulty line later fault) :
    ∃ statement passed after, later = passed ++ after ∧
      (∀ other ∈ passed, Head.find? other.lexemes = none) ∧
      ofLines none (line :: later) = (statement :: ·) <$> ofLines none after ∧
      ∀ directive branch, statement = .directive directive →
        directive.kind = .start branch →
          directive.line = line.number ∧ ReadsFrom directive branch line later := by
  cases hhead : Head.find? line.lexemes with
  | none =>
      refine ⟨.plain (String.ofList line.text) line.number, [], later, rfl, by simp, ?_, ?_⟩
      · simp only [ofLines, step, hhead]
        rfl
      · intro directive branch hsame
        contradiction
  | some head =>
      obtain ⟨style, kind, body⟩ := head
      cases kind with
      | finish =>
          refine ⟨.directive ⟨.finish, none, String.ofList line.text, line.number, style⟩, [],
            later, rfl, by simp, ?_, ?_⟩
          · simp only [ofLines, step, hhead]
            rfl
          · intro directive branch hsame hkind
            cases hsame
            contradiction
      | start branch =>
          by_cases hcloses : ∃ raw after, Closes style (Lexeme.textOf body) line later raw after
          · obtain ⟨raw, after, hcloses⟩ := hcloses
            obtain ⟨source, hrun⟩ := ofLines_of_closes hlines hhead hcloses
            have hcondition := Style.isConditionText_iff.mpr (rfl : style.conditionText raw = _)
            have hfits : ¬(style.conditionText raw ≠ [] ∧ branch = .otherwise) := by
              rintro ⟨hnonempty, rfl⟩
              exact h _ (.unwanted hhead hcloses hcondition hnonempty)
            have hpassed : ∃ passed, later = passed ++ after ∧
                ∀ other ∈ passed, Head.find? other.lexemes = none := by
              cases hcloses with
              | onLine => exact ⟨[], rfl, by simp⟩
              | below _ hbelow => exact hbelow.headless
            obtain ⟨passed, hsplit, hheadless⟩ := hpassed
            rw [Pending.close_fresh hcondition, if_neg hfits] at hrun
            refine ⟨.directive _, passed, after, hsplit, hheadless, hrun, ?_⟩
            · intro directive other hsame hkind
              cases hsame
              cases hkind
              exact ⟨rfl, body, raw, after, _, hhead, hcloses, hcondition, rfl⟩
          · rw [not_exists] at hcloses
            exact absurd (.unclosed hhead fun raw => not_exists.mp (hcloses raw)) (h _)

/-! ## The first fault -/

def IsFirst (lines later : List Line) : Prop :=
  ∀ other rest cause, other :: rest <:+ lines → Faulty other rest cause →
    rest.length ≤ later.length

theorem suffix_of_faulty {passed after rest : List Line} {other : Line} {cause : Fault}
    (hpassed : ∀ line ∈ passed, Head.find? line.lexemes = none)
    (hsuffix : other :: rest <:+ passed ++ after) (h : Faulty other rest cause) :
    other :: rest <:+ after := by
  induction passed with
  | nil => exact hsuffix
  | cons line passed ih =>
      rw [List.forall_mem_cons] at hpassed
      rcases List.suffix_cons_iff.mp hsuffix with hsame | hsuffix
      · cases hsame
        cases h with
        | unclosed hhead => exact absurd hhead (by simp [hpassed.1])
        | unwanted hhead => exact absurd hhead (by simp [hpassed.1])
      · exact ih hpassed.2 hsuffix

theorem faulty_or_reads (lines : List Line)
    (hlines : ∀ line ∈ lines, line.lexemes = Lexeme.ofText line.text) :
    (∃ line later fault, line :: later <:+ lines ∧ Faulty line later fault ∧
      IsFirst lines later ∧ ofLines none lines = .error fault) ∨
    (∀ line later fault, line :: later <:+ lines → ¬Faulty line later fault) ∧
      ∃ statements, ofLines none lines = .ok statements ∧
        ∀ directive branch, .directive directive ∈ statements →
          directive.kind = .start branch →
            ∃ line later, line :: later <:+ lines ∧ directive.line = line.number ∧
              ReadsFrom directive branch line later := by
  induction hlength : lines.length using Nat.strongRecOn generalizing lines with
  | _ length ih =>
      cases lines with
      | nil => exact .inr ⟨by simp, [], rfl, by simp⟩
      | cons line later =>
          by_cases hfaulty : ∃ fault, Faulty line later fault
          · obtain ⟨fault, hfaulty⟩ := hfaulty
            refine .inl ⟨line, later, fault, List.suffix_refl _, hfaulty, ?_,
              hfaulty.ofLines_eq hlines⟩
            intro other rest cause hsuffix _
            exact Nat.le_of_succ_le_succ hsuffix.length_le
          · rw [not_exists] at hfaulty
            obtain ⟨statement, passed, after, rfl, hpassed, hrun, hread⟩ :=
              exists_of_not_faulty hlines hfaulty
            have hrest {other : Line} {rest : List Line} {cause : Fault}
                (hsuffix : other :: rest <:+ line :: (passed ++ after))
                (hcause : Faulty other rest cause) : other :: rest <:+ after := by
              rcases List.suffix_cons_iff.mp hsuffix with hsame | hsuffix
              · cases hsame
                exact absurd hcause (hfaulty cause)
              · exact suffix_of_faulty hpassed hsuffix hcause
            have hafter : after <:+ line :: (passed ++ after) :=
              (List.suffix_append passed after).trans (List.suffix_cons _ _)
            have hshorter : after.length < length := by
              rw [← hlength, List.length_cons, List.length_append]
              omega
            rcases ih _ hshorter after (fun other hother => hlines other (hafter.subset hother))
              rfl with ⟨first, others, fault, hfirst, hfault, hleast, herror⟩ |
                ⟨hnone, statements, hok, hstatements⟩
            · refine .inl ⟨first, others, fault, hfirst.trans hafter, hfault, ?_, ?_⟩
              · intro other rest cause hsuffix hcause
                exact hleast other rest cause (hrest hsuffix hcause) hcause
              · rw [hrun, herror]
                rfl
            · refine .inr ⟨?_, statement :: statements, ?_, ?_⟩
              · intro other rest cause hsuffix hcause
                exact hnone other rest cause (hrest hsuffix hcause) hcause
              · rw [hrun, hok]
                rfl
              · intro directive branch hmem hkind
                rcases List.mem_cons.mp hmem with hsame | hmem
                · exact ⟨line, _, List.suffix_refl _, hread directive branch hsame.symm hkind⟩
                · obtain ⟨start, rest, hsuffix, hreads⟩ :=
                    hstatements directive branch hmem hkind
                  exact ⟨start, rest, hsuffix.trans hafter, hreads⟩

/-! ## Whole texts -/

def FaultAt (source : List Char) (line : Line) (fault : Fault) : Prop :=
  ∃ later, line :: later <:+ Line.ofText source ∧ Faulty line later fault

theorem number_of_suffix {source : List Char} {line : Line} {later : List Line}
    (h : line :: later <:+ Line.ofText source) :
    line.number + later.length = (Line.ofText source).length := by
  obtain ⟨before, hsplit⟩ := h
  have hnumber := (Line.place_eq_append hsplit.symm).1
  rw [← hsplit, List.length_append, List.length_cons]
  omega

theorem eq_of_number_eq {source : List Char} {first second : Line}
    {afterFirst afterSecond : List Line} (hfirst : first :: afterFirst <:+ Line.ofText source)
    (hsecond : second :: afterSecond <:+ Line.ofText source)
    (h : first.number = second.number) : first :: afterFirst = second :: afterSecond := by
  have hnumber := number_of_suffix hfirst
  have hother := number_of_suffix hsecond
  have hlength : (first :: afterFirst).length = (second :: afterSecond).length := by
    simp only [List.length_cons]
    omega
  exact (List.suffix_of_suffix_length_le hfirst hsecond (Nat.le_of_eq hlength)).eq_of_length
    hlength

theorem FaultAt.unique {source : List Char} {first second : Line} {fault cause : Fault}
    (hfault : FaultAt source first fault) (hcause : FaultAt source second cause)
    (h : first.number = second.number) : fault = cause := by
  obtain ⟨later, hsuffix, hfault⟩ := hfault
  obtain ⟨rest, hother, hcause⟩ := hcause
  cases eq_of_number_eq hsuffix hother h
  have hlines : ∀ line ∈ first :: later, line.lexemes = Lexeme.ofText line.text :=
    fun line hline => (Line.lexemes_eq_of_mem (hsuffix.subset hline)).1
  exact Except.error.inj ((hfault.ofLines_eq hlines).symm.trans (hcause.ofLines_eq hlines))

theorem faultAt_or_reads (source : List Char) :
    (∃ line fault, FaultAt source line fault ∧ ofText source = .error fault ∧
      ∀ other cause, FaultAt source other cause → line.number ≤ other.number) ∨
    (∀ line fault, ¬FaultAt source line fault) ∧
      ∃ statements, ofText source = .ok statements ∧
        ∀ directive branch, .directive directive ∈ statements →
          directive.kind = .start branch →
            ∃ line later, line :: later <:+ Line.ofText source ∧
              directive.line = line.number ∧ ReadsFrom directive branch line later := by
  rcases faulty_or_reads (Line.ofText source)
    (fun line hline => (Line.lexemes_eq_of_mem hline).1) with
    ⟨line, later, fault, hsuffix, hfault, hfirst, herror⟩ | ⟨hnone, hread⟩
  · refine .inl ⟨line, fault, ⟨later, hsuffix, hfault⟩, herror, ?_⟩
    rintro other cause ⟨rest, hother, hcause⟩
    have hlength := hfirst other rest cause hother hcause
    have hnumber := number_of_suffix hsuffix
    have hotherNumber := number_of_suffix hother
    omega
  · refine .inr ⟨?_, hread⟩
    rintro line fault ⟨later, hsuffix, hfault⟩
    exact hnone line later fault hsuffix hfault

/-- The statements of a text can be told exactly if no line of it is at fault: if the
comment of every `if`, `elif` and `else` closes before the next head, and nothing stands in
that of an `else`.  Otherwise the fault is that of the first such line.  The condition of a
directive is what stands between its keyword and its closer, which is the part of the text
from right behind the keyword to the closer. -/
theorem ofText_eq_error_iff_faultAt (source : List Char) :
    ((∃ fault, ofText source = .error fault) ↔ ∃ line fault, FaultAt source line fault) ∧
    (∀ fault, ofText source = .error fault ↔
      ∃ line, FaultAt source line fault ∧
        ∀ other cause, FaultAt source other cause → line.number ≤ other.number) ∧
    (∀ statements, ofText source = .ok statements →
      ∀ directive branch, .directive directive ∈ statements →
        directive.kind = .start branch →
          ∃ line later, line :: later <:+ Line.ofText source ∧
            directive.line = line.number ∧ ReadsFrom directive branch line later) ∧
    ∀ line later style kind body raw after, line :: later <:+ Line.ofText source →
      Head.find? line.lexemes = some ⟨style, kind, body⟩ →
      Closes style (Lexeme.textOf body) line later raw after →
        ∃ start, IsSlice source start line.stop (Lexeme.textOf body) ∧
          IsSlice source start (start + byteLength (raw ++ style.closing))
            (raw ++ style.closing) := by
  rw [← and_assoc, ← and_assoc]
  refine ⟨?_, fun line later style kind body raw after hsuffix hhead hcloses =>
    hcloses.isSlice hsuffix hhead⟩
  rcases faultAt_or_reads source with ⟨line, fault, hfault, herror, hleast⟩ |
    ⟨hnone, statements, hok, hread⟩
  · refine ⟨⟨⟨fun _ => ⟨line, fault, hfault⟩, fun _ => ⟨fault, herror⟩⟩, ?_⟩, ?_⟩
    · intro cause
      constructor
      · intro h
        cases herror.symm.trans h
        exact ⟨line, hfault, hleast⟩
      · rintro ⟨other, hcause, hfewest⟩
        have hnumber := Nat.le_antisymm (hleast other cause hcause)
          (hfewest line fault hfault)
        rw [herror, hfault.unique hcause hnumber]
    · intro statements h
      cases herror.symm.trans h
  · have hno : ∀ fault, ofText source ≠ .error fault := by
      intro fault h
      cases hok.symm.trans h
    refine ⟨⟨⟨?_, ?_⟩, ?_⟩, ?_⟩
    · rintro ⟨fault, h⟩
      exact absurd h (hno fault)
    · rintro ⟨line, fault, h⟩
      exact absurd h (hnone line fault)
    · intro fault
      constructor
      · intro h
        exact absurd h (hno fault)
      · rintro ⟨line, h, -⟩
        exact absurd h (hnone line fault)
    · intro others h
      cases hok.symm.trans h
      exact hread

theorem ofText_eq_error_iff_faultAt_lines :
    (∃ line, FaultAt "a\n/*#else\nx **/ y\n<!--#if A */\n/*#endif*/".toList line
        (.condition 2 (.notWanted "x")) ∧
      ∀ other cause, FaultAt "a\n/*#else\nx **/ y\n<!--#if A */\n/*#endif*/".toList
        other cause → line.number ≤ other.number) ∧
    ∃ line later,
      line :: later <:+ Line.ofText "<!--#elif A*/\r\n --> y -->\n<!--#endif".toList ∧
        1 = line.number ∧
        ReadsFrom ⟨.start .elseIf, some "A*/", "<!--#elif A*/\r\n --> y -->", 1, .markup⟩
          .elseIf line later :=
  have hfails : ofText "a\n/*#else\nx **/ y\n<!--#if A */\n/*#endif*/".toList =
      .error (.condition 2 (.notWanted "x")) := eq_error_of_map (by decide +kernel)
  have hreads : ofText "<!--#elif A*/\r\n --> y -->\n<!--#endif".toList = .ok
      [.directive ⟨.start .elseIf, some "A*/", "<!--#elif A*/\r\n --> y -->", 1, .markup⟩,
        .directive ⟨.finish, none, "<!--#endif", 3, .markup⟩] :=
    eq_ok_of_toOption (by decide +kernel)
  ⟨((ofText_eq_error_iff_faultAt _).2.1 _).mp hfails,
    (ofText_eq_error_iff_faultAt _).2.2.1 _ hreads _ .elseIf List.mem_cons_self rfl⟩

end Statement

end GuardedText
