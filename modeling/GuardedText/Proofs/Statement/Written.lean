import GuardedText.Proofs.Condition.Alphabet
import GuardedText.Proofs.Run
import GuardedText.Proofs.Text.Lines
import GuardedText.Statement

/-!
# Written directives are read back

A condition is written into a comment of either style.  Nothing that a condition is
made of can open a comment or close one, so the reader finds the head at the first
character and the closer at the last, over as many lines as the condition has, and
what it takes out between them is the condition without the blanks around it.
-/

namespace GuardedText

open GuardedText.Text

namespace Directive

def writeBlock (stars more : Nat) (keyword condition : String) : List Char :=
  '/' :: List.replicate stars '*' ++ '#' :: keyword.toList ++ ' ' :: condition.toList ++
    List.replicate more '*' ++ ['*', '/']

def writeMarkup (keyword condition : String) : List Char :=
  "<!--#".toList ++ keyword.toList ++ ' ' :: condition.toList ++ "-->".toList

/-! ## Heads and closers -/

theorem Head.afterStars?_eq_none {lexemes : List Lexeme}
    (h : ∀ lexeme ∈ lexemes, lexeme.kind ≠ .hash) : afterStars? lexemes = none := by
  fun_induction afterStars? lexemes with
  | case1 text rest ih => exact ih fun lexeme hlexeme => h lexeme (by simp [hlexeme])
  | case2 text rest => exact absurd rfl (h ⟨.hash, text⟩ (by simp))
  | case3 => rfl

theorem Head.opener?_eq_none {lexemes : List Lexeme}
    (h : ∀ lexeme ∈ lexemes, lexeme.kind ≠ .hash) : opener? lexemes = none := by
  fun_cases opener? lexemes with
  | case1 first second rest =>
      rw [afterStars?_eq_none fun lexeme hlexeme => h lexeme (by simp [hlexeme])]
      rfl
  | case2 => simp at h
  | case3 => rfl

theorem Head.find?_eq_none {lexemes : List Lexeme}
    (h : ∀ lexeme ∈ lexemes, lexeme.kind ≠ .hash) : find? lexemes = none := by
  induction lexemes with
  | nil => rfl
  | cons lexeme rest ih =>
      rw [find?, here?, opener?_eq_none h, ih (List.forall_mem_cons.mp h).2]
      rfl

namespace Style

def ender : Style → Lexeme.Kind
  | .block => .slash
  | .markup => .greaterThan

theorem beforeCloser?_eq_none {style : Style} {lexemes : List Lexeme}
    (h : ∀ lexeme ∈ lexemes, lexeme.kind ≠ style.ender) :
    style.beforeCloser? lexemes = none := by
  induction lexemes with
  | nil => rfl
  | cons lexeme rest ih =>
      have hcloser : ¬style.closer.isPrefixOf ((lexeme :: rest).map (·.kind)) := by
        intro hstarts
        have hmem : style.ender ∈ (lexeme :: rest).map (·.kind) := by
          apply (List.isPrefixOf_iff_prefix.mp hstarts).subset
          cases style <;> decide
        obtain ⟨other, hother, hkind⟩ := List.mem_map.mp hmem
        exact h other hother hkind
      rw [beforeCloser?, if_neg hcloser, ih fun other hother => h other (by simp [hother])]
      rfl

theorem beforeCloser?_append {style : Style} {inner closing : List Lexeme}
    (h : ∀ lexeme ∈ inner, lexeme.kind ≠ style.ender)
    (hclosing : closing.map (·.kind) = style.closer) :
    style.beforeCloser? (inner ++ closing) = some inner := by
  induction inner with
  | nil =>
      cases closing with
      | nil => cases style <;> contradiction
      | cons first rest =>
          rw [List.nil_append, beforeCloser?, hclosing, if_pos]
          exact List.isPrefixOf_iff_prefix.mpr (List.prefix_refl _)
  | cons lexeme inner ih =>
      have hcloser : ¬style.closer.isPrefixOf
          ((lexeme :: (inner ++ closing)).map (·.kind)) := by
        rw [List.forall_mem_cons] at h
        rw [List.map_cons, List.map_append, hclosing]
        cases style with
        | block =>
            cases inner with
            | nil => simp [closer]
            | cons second inner =>
                have hsecond : second.kind ≠ .slash := h.2 second (by simp)
                simp [closer, hsecond.symm]
        | markup =>
            match inner with
            | [] | [second] => simp [closer]
            | second :: third :: inner =>
                have hthird : third.kind ≠ .greaterThan := h.2 third (by simp)
                simp [closer, hthird.symm]
      rw [List.cons_append, beforeCloser?, if_neg hcloser,
        ih fun other hother => h other (by simp [hother])]
      rfl

end Style

/-! ## The condition between keyword and closer -/

theorem Style.conditionText_block {condition : List Char} (more : Nat)
    (h : '*' ∉ condition) :
    Style.block.conditionText (' ' :: condition ++ List.replicate more '*') =
      trim condition := by
  have hstars : (List.replicate more '*').dropWhile isBlank = List.replicate more '*' := by
    cases more <;> rfl
  have hfront : (' ' :: condition ++ List.replicate more '*').dropWhile isBlank =
      condition.dropWhile isBlank ++ List.replicate more '*' := by
    have hspace : (' ' :: condition).dropWhile isBlank = condition.dropWhile isBlank := rfl
    rw [List.dropWhile_append, hspace, hstars]
    split
    · simp_all
    · rfl
  have hlast {text : List Char} (hpart : text ⊆ condition) :
      ∀ char ∈ text.getLast?, (char == '*') = false := by
    intro char hchar
    rw [beq_eq_false_iff_ne]
    rintro rfl
    exact h (hpart (List.mem_of_getLast? hchar))
  have hdropped : condition.dropWhile isBlank ⊆ condition :=
    (List.dropWhile_suffix isBlank).subset
  simp only [conditionText, trim, hfront]
  cases more with
  | zero =>
      have htrimmed : trimEnd (condition.dropWhile isBlank) ⊆ condition :=
        fun char hchar => hdropped ((List.rdropWhile_prefix _ _).subset hchar)
      rw [List.replicate_zero, List.append_nil, dropEndWhile_eq_self (hlast htrimmed)]
      exact List.rdropWhile_idempotent ..
  | succ more =>
      have hkept : trimEnd (condition.dropWhile isBlank ++ List.replicate (more + 1) '*') =
          condition.dropWhile isBlank ++ List.replicate (more + 1) '*' := by
        apply dropEndWhile_eq_self
        intro char hchar
        rw [List.replicate_succ', ← List.append_assoc, List.getLast?_concat] at hchar
        cases hchar
        rfl
      rw [hkept, dropEndWhile_append_eq (by simp) (hlast hdropped)]

/-- Whether the lexeme can stand between keyword and closer. -/
def Style.Inner (style : Style) (lexeme : Lexeme) : Prop :=
  lexeme.kind ≠ .hash ∧ lexeme.kind ≠ style.ender

theorem Style.ne_hash_of_closer {style : Style} {closing : List Lexeme}
    (hclosing : closing.map (·.kind) = style.closer) {lexeme : Lexeme}
    (h : lexeme ∈ closing) : lexeme.kind ≠ .hash ∧ lexeme.kind ≠ .newline := by
  have hmem : lexeme.kind ∈ style.closer := by
    rw [← hclosing]
    exact List.mem_map_of_mem h
  have hcloser : ∀ kind ∈ style.closer, kind ≠ .hash ∧ kind ≠ .newline := by
    cases style <;> decide
  exact hcloser lexeme.kind hmem

structure Opens (style : Style) (branch : BranchKind) (lexemes : List Lexeme) : Prop where
  find?_eq : ∀ rest, Head.find? (lexemes ++ rest) =
    some ⟨style, .start branch, ⟨.text, []⟩ :: rest⟩
  straight : ∀ lexeme ∈ lexemes, lexeme.kind ≠ .newline

end Directive

/-! ## From the head to the closer -/

namespace Statement

theorem Pending.close_append (pending : Pending) (text lines body source : List Char) :
    Pending.close { pending with
      body := pending.body ++ text, source := pending.source ++ lines } body source =
      pending.close (text ++ body) (lines ++ source) := by
  simp [close]

theorem step_of_head {style : Directive.Style} {branch : BranchKind} {body : List Lexeme}
    {line : Line} (h : Directive.Head.find? line.lexemes = some ⟨style, .start branch, body⟩) :
    step none line = Pending.advance ⟨line.number, style, branch, [], []⟩ body line := by
  simp only [step, h]

theorem step_of_no_head {pending : Pending} {line : Line}
    (h : Directive.Head.find? line.lexemes = none) :
    step (some pending) line = pending.advance line.lexemes line := by
  simp only [step, h]

theorem ofLines_cons_of_closer {pending? : Option Pending} {pending : Pending}
    {body inner : List Lexeme} {line : Line} (rest : List Line)
    (hstep : step pending? line = pending.advance body line)
    (hcloser : pending.style.beforeCloser? body = some inner) :
    ofLines pending? (line :: rest) = do
      let directive ← pending.close (Lexeme.textOf inner) line.text
      let later ← ofLines none rest
      return .directive directive :: later := by
  simp only [ofLines, hstep, Pending.advance, hcloser]
  cases pending.close (Lexeme.textOf inner) line.text <;> rfl

theorem ofLines_of_closer {pending? : Option Pending} {pending : Pending}
    {body inner : List Lexeme} {line : Line}
    (hstep : step pending? line = pending.advance body line)
    (hcloser : pending.style.beforeCloser? body = some inner) :
    ofLines pending? [line] =
      (pending.close (Lexeme.textOf inner) line.text).map
        fun directive => [.directive directive] := by
  rw [ofLines_cons_of_closer [] hstep hcloser]
  cases pending.close (Lexeme.textOf inner) line.text <;> rfl

theorem ofLines_of_no_closer {pending? : Option Pending} {pending : Pending}
    {body : List Lexeme} {line : Line} (rest : List Line)
    (hstep : step pending? line = pending.advance body line)
    (hcloser : pending.style.beforeCloser? body = none) :
    ofLines pending? (line :: rest) = ofLines (some { pending with
      body := pending.body ++ (Lexeme.textOf body ++ line.terminator)
      source := pending.source ++ line.full }) rest := by
  rw [ofLines, hstep, Pending.advance, hcloser, List.append_assoc, List.append_assoc]
  exact bind_pure (ofLines (some _) rest)

theorem ofLines_place_of_closer {pending : Pending} {closing last : List Lexeme}
    {init : List Row} (hclosing : closing.map (·.kind) = pending.style.closer)
    (hinit : ∀ row ∈ init, ∀ lexeme ∈ row.lexemes, pending.style.Inner lexeme)
    (hlast : ∀ lexeme ∈ last, pending.style.Inner lexeme) (number start : Nat) :
    ofLines (some pending) (Line.place number start (init ++ [⟨last ++ closing, []⟩])) =
      (pending.close (init.flatMap Row.full ++ Lexeme.textOf last)
        (init.flatMap Row.full ++ Lexeme.textOf (last ++ closing))).map
        fun directive => [.directive directive] := by
  induction init generalizing pending number start with
  | nil =>
      have hhead : Directive.Head.find? (last ++ closing) = none := by
        apply Directive.Head.find?_eq_none
        intro lexeme hlexeme
        rcases List.mem_append.mp hlexeme with hlexeme | hlexeme
        · exact (hlast lexeme hlexeme).1
        · exact (Directive.Style.ne_hash_of_closer hclosing hlexeme).1
      have hcloser := Directive.Style.beforeCloser?_append
        (fun lexeme hlexeme => (hlast lexeme hlexeme).2) hclosing
      exact ofLines_of_closer (step_of_no_head hhead) hcloser
  | cons row init ih =>
      rw [List.forall_mem_cons] at hinit
      have hhead : Directive.Head.find? row.lexemes = none :=
        Directive.Head.find?_eq_none fun lexeme hlexeme => (hinit.1 lexeme hlexeme).1
      have hcloser := Directive.Style.beforeCloser?_eq_none
        fun lexeme hlexeme => (hinit.1 lexeme hlexeme).2
      rw [List.cons_append, Line.place,
        ofLines_of_no_closer _ (step_of_no_head hhead) hcloser, ih, Pending.close_append]
      · simp [Row.full]
      · exact hclosing
      · exact hinit.2
      · exact hlast

theorem Pending.close_eq_of_condition {pending : Pending} {body source : List Char}
    (htakes : pending.branch.takesCondition)
    (hcondition : pending.style.conditionText (pending.body ++ body) ≠ []) :
    pending.close body source = .ok ⟨.start pending.branch,
      some (String.ofList (pending.style.conditionText (pending.body ++ body))),
      String.ofList (pending.source ++ source), pending.line, pending.style⟩ := by
  simp only [close]
  rw [if_neg (by simpa using hcondition), if_pos htakes]

theorem ofLines_of_opens {style : Directive.Style} {branch : BranchKind}
    {opening last closing : List Lexeme} {first : Row} {init rest : List Row}
    (hrows : first :: rest = init ++ [⟨last ++ closing, []⟩])
    (hopening : Directive.Opens style branch opening)
    (hclosing : closing.map (·.kind) = style.closer)
    (hinit : ∀ row ∈ init, ∀ lexeme ∈ row.lexemes, style.Inner lexeme)
    (hlast : ∀ lexeme ∈ last, style.Inner lexeme) :
    ofLines none
        (Line.place 1 0 (⟨opening ++ first.lexemes, first.terminator⟩ :: rest)) =
      (Pending.close ⟨1, style, branch, [], []⟩
        (init.flatMap Row.full ++ Lexeme.textOf last)
        (Lexeme.textOf opening ++ (init.flatMap Row.full ++
          Lexeme.textOf (last ++ closing)))).map fun directive => [.directive directive] := by
  have hempty : style.Inner ⟨.text, []⟩ := by
    cases style <;> simp [Directive.Style.Inner, Directive.Style.ender]
  cases init with
  | nil =>
      obtain ⟨rfl, rfl⟩ := List.cons.inj hrows
      have hinner := List.forall_mem_cons.mpr ⟨hempty, hlast⟩
      have hcloser := Directive.Style.beforeCloser?_append
        (fun lexeme hlexeme => (hinner lexeme hlexeme).2) hclosing
      refine (ofLines_of_closer (step_of_head (hopening.find?_eq _)) hcloser).trans ?_
      simp [Line.text, Lexeme.textOf]
  | cons row init =>
      obtain ⟨rfl, rfl⟩ := List.cons.inj hrows
      rw [List.forall_mem_cons] at hinit
      have hinner := List.forall_mem_cons.mpr ⟨hempty, hinit.1⟩
      have hcloser := Directive.Style.beforeCloser?_eq_none
        fun lexeme hlexeme => (hinner lexeme hlexeme).2
      refine (ofLines_of_no_closer _ (step_of_head (hopening.find?_eq _)) hcloser).trans ?_
      refine (ofLines_place_of_closer hclosing hinit.2 hlast _ _).trans ?_
      refine congrArg (Except.map _)
        ((Pending.close_append ⟨1, style, branch, [], []⟩ _ _ _ _).trans ?_)
      simp [Row.full, Lexeme.textOf]

theorem ofText_of_opens {style : Directive.Style} {branch : BranchKind} {text : List Char}
    {opening body closing : List Lexeme}
    (htext : Lexeme.ofText text = opening ++ (body ++ closing))
    (hopening : Directive.Opens style branch opening)
    (hbody : ∀ lexeme ∈ body, style.Inner lexeme)
    (hclosing : closing.map (·.kind) = style.closer) (htakes : branch.takesCondition)
    (hcondition : style.conditionText (Lexeme.textOf body) ≠ []) :
    ofText text = .ok [.directive ⟨.start branch,
      some (String.ofList (style.conditionText (Lexeme.textOf body))),
      String.ofList text, 1, style⟩] := by
  obtain ⟨init, last, hrows, hjoin⟩ := Rows.exists_rows body
  have hinner : ∀ row ∈ init ++ [⟨last, []⟩], ∀ lexeme ∈ row.lexemes,
      style.Inner lexeme := by
    intro row hrow lexeme hlexeme
    exact hbody lexeme (Rows.mem_of_mem_row (hrows ▸ hrow) hlexeme)
  rw [List.forall_mem_append] at hinner
  have hclosed : (Rows.ofLexemes closing).toList = [⟨closing, []⟩] := by
    have hempty : Rows.empty.toList = [⟨[], []⟩] := rfl
    simpa [Rows.ofLexemes] using Rows.toList_foldr_attach (fun lexeme hlexeme =>
      (Directive.Style.ne_hash_of_closer hclosing hlexeme).2) hempty
  obtain ⟨hfirst, hnone⟩ := List.cons.inj hclosed
  have hbehind := hjoin (Rows.ofLexemes closing)
  rw [hfirst, hnone] at hbehind
  have hall := Rows.toList_foldr_attach hopening.straight
    (rfl : (body.foldr Rows.attach (Rows.ofLexemes closing)).toList = _)
  have hbodyText : init.flatMap Row.full ++ Lexeme.textOf last = Lexeme.textOf body := by
    rw [← Rows.flatMap_full_ofLexemes body, hrows]
    simp [Row.full]
  have hsource : Lexeme.textOf opening ++ (init.flatMap Row.full ++
      Lexeme.textOf (last ++ closing)) = text := by
    have hwhole := Lexeme.textOf_ofText text
    rw [htext, Lexeme.textOf_append, Lexeme.textOf_append, ← hbodyText] at hwhole
    rw [Lexeme.textOf_append, ← List.append_assoc (init.flatMap Row.full)]
    exact hwhole
  rw [ofText, Line.ofText, htext, Rows.ofLexemes, List.foldr_append, List.foldr_append,
    ← Rows.ofLexemes, hall, ofLines_of_opens hbehind hopening hclosing hinner.1
      (hinner.2 ⟨last, []⟩ (by simp)), hbodyText, hsource,
    Pending.close_eq_of_condition htakes hcondition]
  rfl

end Statement

/-! ## The two styles -/

namespace Directive

def isSign (char : Char) : Bool :=
  (Lexeme.punctuation? char).isSome

theorem ofText_signs {signs : List Char} (rest : List Char) (h : signs.all isSign) :
    Lexeme.ofText (signs ++ rest) = Lexeme.ofText signs ++ Lexeme.ofText rest := by
  induction signs with
  | nil => rfl
  | cons char signs ih =>
      rw [List.all_cons, Bool.and_eq_true] at h
      obtain ⟨kind, hkind⟩ := Option.isSome_iff_exists.mp h.1
      rw [List.cons_append, Lexeme.ofText_punctuation _ hkind,
        Lexeme.ofText_punctuation _ hkind, ih h.2]
      rfl

theorem ofText_append_signs (text : List Char) {signs : List Char} (h : signs.all isSign) :
    Lexeme.ofText (text ++ signs) = Lexeme.ofText text ++ Lexeme.ofText signs := by
  cases signs with
  | nil => simp [Lexeme.ofText]
  | cons char signs =>
      rw [List.all_cons, Bool.and_eq_true] at h
      obtain ⟨kind, hkind⟩ := Option.isSome_iff_exists.mp h.1
      rw [Lexeme.ofText_append_punctuation text signs hkind,
        Lexeme.ofText_punctuation signs hkind]

theorem isSign_blockOpener (stars : Nat) :
    ('/' :: List.replicate (stars + 1) '*' ++ ['#']).all isSign := by
  rw [List.all_eq_true]
  intro char hchar
  rcases List.mem_append.mp hchar with hchar | hchar
  · rcases List.mem_cons.mp hchar with rfl | hchar
    · rfl
    · rw [List.eq_of_mem_replicate hchar]
      rfl
  · rw [List.mem_singleton.mp hchar]
    rfl

theorem inner_of_not_mem {style : Style} {text : List Char} (hhash : '#' ∉ text)
    (hender : ∀ sign ∈ style.ender.sign?, sign ∉ text) :
    ∀ lexeme ∈ Lexeme.ofText text, style.Inner lexeme := by
  intro lexeme hlexeme
  constructor
  · intro hkind
    exact hhash (Lexeme.sign?_mem_ofText hlexeme (by simp [hkind, Lexeme.Kind.sign?]))
  · intro hkind
    have hsome : style.ender.sign?.isSome := by cases style <;> rfl
    obtain ⟨sign, hsign⟩ := Option.isSome_iff_exists.mp hsome
    exact hender sign hsign (Lexeme.sign?_mem_ofText hlexeme (by rw [hkind, hsign]; rfl))

theorem Head.find?_of_opener {lexemes rest body : List Lexeme} {style : Style} {kind : Kind}
    (hopener : opener? lexemes = some (style, rest))
    (hkeyword : keyword? rest = some (kind, body)) :
    find? lexemes = some ⟨style, kind, body⟩ := by
  cases lexemes with
  | nil => contradiction
  | cons lexeme others =>
      rw [find?, here?, hopener]
      simp [hkeyword]

def conditionKeywords : List (String × BranchKind) :=
  [("if", .ifTrue), ("elif", .elseIf), ("elseif", .elseIf)]

theorem Head.keyword?_of_mem {keyword : String} {branch : BranchKind}
    (h : (keyword, branch) ∈ conditionKeywords) (rest : List Lexeme) :
    keyword? (⟨.text, keyword.toList⟩ :: rest) =
      some (.start branch, ⟨.text, []⟩ :: rest) := by
  simp only [conditionKeywords, List.mem_cons, Prod.mk.injEq, List.not_mem_nil,
    or_false] at h
  rcases h with ⟨rfl, rfl⟩ | ⟨rfl, rfl⟩ | ⟨rfl, rfl⟩ <;> rfl

theorem Head.opener?_block (stars : Nat) (rest : List Lexeme) :
    opener? (Lexeme.ofText ('/' :: List.replicate (stars + 1) '*' ++ ['#']) ++ rest) =
      some (.block, rest) := by
  have hstars : afterStars? (Lexeme.ofText (List.replicate stars '*' ++ ['#']) ++ rest) =
      some rest := by
    induction stars with
    | zero => rfl
    | succ stars ih => exact ih
  change (afterStars? (Lexeme.ofText (List.replicate stars '*' ++ ['#']) ++ rest)).map
    (Style.block, ·) = _
  rw [hstars]
  rfl

theorem Head.opener?_markup (rest : List Lexeme) :
    opener? (Lexeme.ofText "<!--#".toList ++ rest) = some (.markup, rest) := rfl

theorem opens_of_opener {style : Style} {opener : List Char}
    (hsigns : opener.all isSign)
    (hopener : ∀ rest, Head.opener? (Lexeme.ofText opener ++ rest) = some (style, rest))
    {keyword : String} {branch : BranchKind}
    (hkeyword : (keyword, branch) ∈ conditionKeywords) :
    Opens style branch (Lexeme.ofText opener ++ [⟨.text, keyword.toList⟩]) := by
  constructor
  · intro rest
    rw [List.append_assoc]
    exact Head.find?_of_opener (hopener _) (Head.keyword?_of_mem hkeyword rest)
  · intro lexeme hlexeme hnewline
    rcases List.mem_append.mp hlexeme with hlexeme | hlexeme
    · have hmem := Lexeme.sign?_mem_ofText hlexeme (by rw [hnewline]; rfl)
      exact absurd (List.all_eq_true.mp hsigns _ hmem) (by decide)
    · rw [List.mem_singleton.mp hlexeme] at hnewline
      contradiction

theorem ofText_written {style : Style} {branch : BranchKind} {keyword : String}
    {opener inner closer : List Char}
    (hkeyword : (keyword, branch) ∈ conditionKeywords)
    (hopenerSigns : opener.all isSign)
    (hopener : ∀ rest, Head.opener? (Lexeme.ofText opener ++ rest) = some (style, rest))
    (hcloserSigns : closer.all isSign)
    (hcloser : (Lexeme.ofText closer).map (·.kind) = style.closer)
    (hhash : '#' ∉ inner) (hender : ∀ sign ∈ style.ender.sign?, sign ∉ inner)
    (hcondition : style.conditionText (' ' :: inner) ≠ []) :
    Statement.ofText (opener ++ (keyword.toList ++ (' ' :: inner ++ closer))) =
      .ok [.directive ⟨.start branch,
        some (String.ofList (style.conditionText (' ' :: inner))),
        String.ofList (opener ++ (keyword.toList ++ (' ' :: inner ++ closer))), 1,
        style⟩] := by
  have hwords : ∀ pair ∈ conditionKeywords, pair.1.toList ≠ [] ∧
      pair.1.toList.all Lexeme.isWordChar ∧ pair.2.takesCondition := by decide
  obtain ⟨hnonempty, hword, htakes⟩ := hwords _ hkeyword
  have htext : Lexeme.ofText (opener ++ (keyword.toList ++ (' ' :: inner ++ closer))) =
      (Lexeme.ofText opener ++ [⟨.text, keyword.toList⟩]) ++
        (Lexeme.ofText (' ' :: inner) ++ Lexeme.ofText closer) := by
    rw [ofText_signs _ hopenerSigns, Lexeme.ofText_word hnonempty (List.all_eq_true.mp hword),
      ofText_append_signs _ hcloserSigns]
    · simp
    · intro lexeme hlexeme hkind
      rw [List.cons_append] at hlexeme
      rw [Lexeme.kind_of_head?_ofText_space hlexeme] at hkind
      contradiction
  have hbody : ∀ lexeme ∈ Lexeme.ofText (' ' :: inner), style.Inner lexeme := by
    apply inner_of_not_mem
    · simpa using hhash
    · intro sign hsign
      have hspace : sign ≠ ' ' := by
        rintro rfl
        cases style <;> contradiction
      simpa [hspace] using hender sign hsign
  have hread := Statement.ofText_of_opens htext
    (opens_of_opener hopenerSigns hopener hkeyword) hbody hcloser htakes
  rw [Lexeme.textOf_ofText] at hread
  exact hread hcondition

theorem not_mem_of_parse {text : String} {condition : Condition}
    (h : Condition.parse text = .ok condition) {char : Char}
    (hchar : Condition.isConditionChar char = false) : char ∉ text.toList := by
  intro hmem
  rw [Condition.isConditionChar_of_parse h hmem] at hchar
  contradiction

theorem trim_ne_nil_of_parse {text : String} {condition : Condition}
    (h : Condition.parse text = .ok condition) : trim text.toList ≠ [] := by
  intro hempty
  have htrimmed := Condition.parse_trim h
  rw [hempty] at htrimmed
  contradiction

theorem ofText_writeBlock {keyword : String} {branch : BranchKind}
    (hkeyword : (keyword, branch) ∈ conditionKeywords) {text : String}
    {condition : Condition} (h : Condition.parse text = .ok condition) (stars more : Nat) :
    Statement.ofText (writeBlock (stars + 1) more keyword text) = .ok [.directive
      ⟨.start branch, some (String.ofList (trim text.toList)),
        String.ofList (writeBlock (stars + 1) more keyword text), 1, .block⟩] := by
  have hcondition : Style.block.conditionText
      (' ' :: (text.toList ++ List.replicate more '*')) = trim text.toList :=
    Style.conditionText_block more (not_mem_of_parse h (by decide))
  have hinner {char : Char} (hstar : char ≠ '*')
      (hchar : Condition.isConditionChar char = false) :
      char ∉ text.toList ++ List.replicate more '*' := by
    rw [List.mem_append, not_or]
    exact ⟨not_mem_of_parse h hchar, fun hmem => hstar (List.eq_of_mem_replicate hmem)⟩
  have hread := ofText_written hkeyword (isSign_blockOpener stars) (Head.opener?_block stars)
    (by decide : ['*', '/'].all isSign) rfl
    (hinner (by decide) (by decide))
    (by rintro sign ⟨⟩; exact hinner (by decide) (by decide))
    (by rw [hcondition]; exact trim_ne_nil_of_parse h)
  have htext : writeBlock (stars + 1) more keyword text =
      ('/' :: List.replicate (stars + 1) '*' ++ ['#']) ++ (keyword.toList ++
        (' ' :: (text.toList ++ List.replicate more '*') ++ ['*', '/'])) := by
    simp only [writeBlock, List.cons_append, List.append_assoc, List.nil_append]
  rw [htext, hread, hcondition]

theorem ofText_writeMarkup {keyword : String} {branch : BranchKind}
    (hkeyword : (keyword, branch) ∈ conditionKeywords) {text : String}
    {condition : Condition} (h : Condition.parse text = .ok condition) :
    Statement.ofText (writeMarkup keyword text) = .ok [.directive
      ⟨.start branch, some (String.ofList (trim text.toList)),
        String.ofList (writeMarkup keyword text), 1, .markup⟩] := by
  have hcondition : Style.markup.conditionText (' ' :: text.toList) = trim text.toList := rfl
  have hread := ofText_written hkeyword
    (by decide : "<!--#".toList.all isSign)
    Head.opener?_markup
    (by decide : "-->".toList.all isSign) rfl
    (not_mem_of_parse h (by decide))
    (by rintro sign ⟨⟩; exact not_mem_of_parse h (by decide))
    (by rw [hcondition]; exact trim_ne_nil_of_parse h)
  have htext : writeMarkup keyword text =
      "<!--#".toList ++ (keyword.toList ++ (' ' :: text.toList ++ "-->".toList)) := by
    unfold writeMarkup
    rw [List.append_assoc, List.append_assoc]
  rw [htext, hread, hcondition]

/-- A condition that can be read, written into a comment of either style, is read as one
directive that takes the whole text and carries the condition without the blanks around
it, which is still the same condition.  So neither the style nor the number of stars nor
line breaks in the condition change what the directive says. -/
theorem ofText_write (keyword : String) (branch : BranchKind)
    (hkeyword : (keyword, branch) ∈ conditionKeywords) (text : String)
    (condition : Condition) (h : Condition.parse text = .ok condition)
    (stars more : Nat) (hstars : 1 ≤ stars) :
    Statement.ofText (writeBlock stars more keyword text) = .ok [.directive
      ⟨.start branch, some (String.ofList (trim text.toList)),
        String.ofList (writeBlock stars more keyword text), 1, .block⟩] ∧
    Statement.ofText (writeMarkup keyword text) = .ok [.directive
      ⟨.start branch, some (String.ofList (trim text.toList)),
        String.ofList (writeMarkup keyword text), 1, .markup⟩] ∧
    Condition.parse (String.ofList (trim text.toList)) = .ok condition := by
  obtain ⟨stars, rfl⟩ := Nat.exists_eq_add_of_le' hstars
  exact ⟨ofText_writeBlock hkeyword h stars more, ofText_writeMarkup hkeyword h,
    Condition.parse_trim h⟩

theorem ofText_write_lines :
    Condition.parse "\n A &&\r\n !(B || --C)\t" =
      .ok (.and (.symbol "A") (.not (.or (.symbol "B")
        (.unsupported "-" (.unsupported "-" (.symbol "C")))))) ∧
    Statement.ofText "/***#elseif \n A &&\r\n !(B || --C)\t***/".toList = .ok [.directive
      ⟨.start .elseIf, some "A &&\r\n !(B || --C)",
        "/***#elseif \n A &&\r\n !(B || --C)\t***/", 1, .block⟩] ∧
    Statement.ofText "<!--#elseif \n A &&\r\n !(B || --C)\t-->".toList = .ok [.directive
      ⟨.start .elseIf, some "A &&\r\n !(B || --C)",
        "<!--#elseif \n A &&\r\n !(B || --C)\t-->", 1, .markup⟩] :=
  have h := eq_ok_of_toOption (by decide +kernel)
  have hwritten := ofText_write "elseif" .elseIf (by decide) _ _ h 3 2 (by decide)
  ⟨h, hwritten.1, hwritten.2.1⟩

end Directive

end GuardedText
