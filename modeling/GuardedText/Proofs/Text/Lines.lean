import GuardedText.Proofs.Text.Runs
import GuardedText.Text.Line
import GuardedText.Text.Terminator

/-!
# Where lexemes and lines end

A text is lexed from its end, one character after the other, and a character can
join only the first lexeme behind it.  So two texts can be lexed apart wherever the
last character of the first does not join the second.  Lines are found in the same
way from the lexemes, and the lines of a text, each with the newline that ends it,
are the text.
-/

namespace GuardedText.Text

namespace Lexeme

/-! ## Seams between lexemes -/

theorem ofText_ne_nil {source : List Char} (h : source ≠ []) : ofText source ≠ [] := by
  intro hempty
  have htext := textOf_ofText source
  rw [hempty] at htext
  exact h htext.symm

theorem textOf_append (first second : List Lexeme) :
    textOf (first ++ second) = textOf first ++ textOf second :=
  List.flatMap_append

theorem attach_append (char : Char) {lexemes : List Lexeme} (h : lexemes ≠ [])
    (later : List Lexeme) :
    attach char (lexemes ++ later) = attach char lexemes ++ later := by
  cases lexemes with
  | nil => contradiction
  | cons first rest =>
      unfold attach
      repeat' split
      all_goals simp_all

theorem ofText_append_of_apart {first second : List Char}
    (apart : ∀ last ∈ first.getLast?,
      attach last (ofText second) = attach last [] ++ ofText second) :
    ofText (first ++ second) = ofText first ++ ofText second := by
  induction first with
  | nil => rfl
  | cons char rest ih =>
      cases rest with
      | nil => exact apart char rfl
      | cons next others =>
          have hrest := ih (by simpa using apart)
          change attach char (ofText (next :: others ++ second)) = _
          rw [hrest, attach_append char (ofText_ne_nil (by simp))]
          rfl

theorem attach_of_apart {char : Char} {kind : Kind} {text : List Char}
    (later : List Lexeme) (hkind : kind ≠ .text ∧ kind ≠ .whitespace)
    (hreturn : char = '\r' → text ≠ ['\n']) :
    attach char (⟨kind, text⟩ :: later) = attach char [] ++ ⟨kind, text⟩ :: later := by
  unfold attach
  repeat' split
  all_goals simp_all

theorem punctuation?_eq_some {char : Char} {kind : Kind}
    (h : punctuation? char = some kind) :
    (kind ≠ .text ∧ kind ≠ .whitespace) ∧ kind ≠ .newline ∧ char ≠ '\n' := by
  unfold punctuation? at h
  split at h
  all_goals cases h
  all_goals decide

theorem ofText_punctuation {char : Char} {kind : Kind} (rest : List Char)
    (h : punctuation? char = some kind) :
    ofText (char :: rest) = ⟨kind, [char]⟩ :: ofText rest := by
  change attach char (ofText rest) = _
  simp [attach, h]

theorem ofText_append_punctuation (text : List Char) {char : Char} {kind : Kind}
    (rest : List Char) (h : punctuation? char = some kind) :
    ofText (text ++ char :: rest) = ofText text ++ ⟨kind, [char]⟩ :: ofText rest := by
  obtain ⟨hkind, -, hchar⟩ := punctuation?_eq_some h
  rw [ofText_append_of_apart, ofText_punctuation rest h]
  intro last _
  rw [ofText_punctuation rest h]
  exact attach_of_apart _ hkind (by simp [hchar])

theorem ofText_mark (terminator : Terminator) (rest : List Char) :
    ofText (terminator.mark ++ rest) = ⟨.newline, terminator.mark⟩ :: ofText rest := by
  cases terminator <;> rfl

theorem ofText_append_mark {text : List Char} {terminator : Terminator}
    (rest : List Char) (h : terminator = .lf → text.getLast? ≠ some '\r') :
    ofText (text ++ (terminator.mark ++ rest)) =
      ofText text ++ ⟨.newline, terminator.mark⟩ :: ofText rest := by
  rw [ofText_append_of_apart, ofText_mark]
  intro last hlast
  rw [ofText_mark]
  apply attach_of_apart _ (by decide)
  rintro rfl
  cases terminator with
  | lf => exact absurd hlast (h rfl)
  | crlf => decide

/-! ## What lexemes hold -/

def Kind.sign? : Kind → Option Char
  | .slash => some '/'
  | .star => some '*'
  | .hash => some '#'
  | .lessThan => some '<'
  | .greaterThan => some '>'
  | .bang => some '!'
  | .dash => some '-'
  | .newline => some '\n'
  | .whitespace | .text => none

theorem sign?_of_punctuation? {char : Char} {kind : Kind}
    (h : punctuation? char = some kind) : kind.sign? = some char := by
  unfold punctuation? at h
  split at h
  all_goals cases h
  all_goals rfl

theorem sign?_mem_attach {char : Char} {lexemes : List Lexeme}
    (h : ∀ lexeme ∈ lexemes, ∀ sign ∈ lexeme.kind.sign?, sign ∈ lexeme.text) :
    ∀ lexeme ∈ attach char lexemes, ∀ sign ∈ lexeme.kind.sign?, sign ∈ lexeme.text := by
  unfold attach
  split
  · rename_i kind hkind
    rw [List.forall_mem_cons]
    refine ⟨?_, h⟩
    intro sign hsign
    rw [sign?_of_punctuation? hkind] at hsign
    cases hsign
    exact List.mem_singleton_self _
  · repeat' split
    all_goals simp_all [Kind.sign?]

theorem sign?_mem_ofText {source : List Char} {lexeme : Lexeme} {sign : Char}
    (h : lexeme ∈ ofText source) (hsign : sign ∈ lexeme.kind.sign?) : sign ∈ source := by
  have htext : ∀ lexeme ∈ ofText source, ∀ sign ∈ lexeme.kind.sign?,
      sign ∈ lexeme.text := by
    clear h
    induction source with
    | nil => simp [ofText]
    | cons char rest ih => exact sign?_mem_attach ih
  rw [← textOf_ofText source]
  exact List.mem_flatMap.mpr ⟨lexeme, h, htext lexeme h sign hsign⟩

theorem attach_of_not_punctuation {char : Char} (h : punctuation? char = none)
    (lexemes : List Lexeme) :
    ∃ kind run, (kind = .newline ∨ kind = .whitespace ∨ kind = .text) ∧
      (attach char lexemes = ⟨kind, run⟩ :: lexemes ∨
        ∃ old others, lexemes = ⟨kind, old⟩ :: others ∧
          attach char lexemes = ⟨kind, run⟩ :: others) := by
  unfold attach
  rw [h]
  dsimp only
  repeat' split
  all_goals simp

theorem exists_of_ofText_sign {text run : List Char} {kind : Kind} {char : Char}
    {rest : List Lexeme} (h : ofText text = ⟨kind, run⟩ :: rest)
    (hkind : punctuation? char = some kind) :
    ∃ tail, text = char :: tail ∧ rest = ofText tail := by
  cases text with
  | nil => contradiction
  | cons first tail =>
      change attach first (ofText tail) = _ at h
      cases hfirst : punctuation? first with
      | some found =>
          rw [show attach first (ofText tail) = ofText (first :: tail) from rfl,
            ofText_punctuation tail hfirst] at h
          simp only [List.cons.injEq, Lexeme.mk.injEq] at h
          obtain ⟨⟨rfl, -⟩, rfl⟩ := h
          have hsame := (sign?_of_punctuation? hfirst).symm.trans (sign?_of_punctuation? hkind)
          exact ⟨tail, by rw [Option.some.inj hsame], rfl⟩
      | none =>
          obtain ⟨hapart, hnewline, -⟩ := punctuation?_eq_some hkind
          obtain ⟨other, _, hother, hattach⟩ := attach_of_not_punctuation hfirst (ofText tail)
          have hsame : other = kind := by
            rcases hattach with hattach | ⟨_, _, _, hattach⟩
            all_goals
              rw [hattach] at h
              cases h
              rfl
          subst hsame
          rcases hother with rfl | rfl | rfl <;> simp_all

theorem exists_of_ofText_signs {signs text : List Char} {lexemes rest : List Lexeme}
    (h : ofText text = lexemes ++ rest)
    (hsigns : signs.map punctuation? = lexemes.map fun lexeme => some lexeme.kind) :
    ∃ tail, text = signs ++ tail ∧ rest = ofText tail := by
  induction signs generalizing lexemes text with
  | nil =>
      obtain rfl : lexemes = [] := by simpa using hsigns.symm
      exact ⟨text, rfl, h.symm⟩
  | cons sign signs ih =>
      cases lexemes with
      | nil => simp at hsigns
      | cons lexeme lexemes =>
          rw [List.map_cons, List.map_cons, List.cons.injEq] at hsigns
          obtain ⟨behind, rfl, hbehind⟩ := exists_of_ofText_sign h hsigns.1
          obtain ⟨tail, rfl, hrest⟩ := ih hbehind.symm hsigns.2
          exact ⟨tail, rfl, hrest⟩

theorem textOf_cons_ofText (lexeme : Lexeme) (rest : List Char) :
    textOf (lexeme :: ofText rest) = lexeme.text ++ rest :=
  congrArg (lexeme.text ++ ·) (textOf_ofText rest)

def isWordChar (char : Char) : Bool :=
  (punctuation? char).isNone && char != '\n' && char != '\r' && !isGap char

/-- The characters that never stand in a run of text, but for a carriage return alone. -/
def reserved : List Char :=
  "/*#<>!-\n\r \t".toList

theorem isWordChar_iff {char : Char} : isWordChar char ↔ char ∉ reserved := by
  constructor
  · intro h hmem
    have hall : reserved.all (!isWordChar ·) := by decide
    simpa [h] using List.all_eq_true.mp hall char hmem
  · intro h
    cases hword : isWordChar char with
    | true => rfl
    | false =>
        refine absurd ?_ h
        unfold isWordChar punctuation? isGap at hword
        unfold reserved
        split at hword
        all_goals simp_all [Decidable.or_iff_not_imp_left]

theorem ofText_word {word rest : List Char} (nonempty : word ≠ [])
    (inside : ∀ char ∈ word, isWordChar char)
    (ends : ∀ lexeme ∈ (ofText rest).head?, lexeme.kind = .text → lexeme.text = ['\r']) :
    ofText (word ++ rest) = ⟨.text, word⟩ :: ofText rest := by
  induction word with
  | nil => contradiction
  | cons char others ih =>
      rw [List.forall_mem_cons] at inside
      obtain ⟨hchar, hothers⟩ := inside
      simp only [isWordChar, Bool.and_eq_true, Option.isNone_iff_eq_none, bne_iff_ne,
        Bool.not_eq_true'] at hchar
      obtain ⟨⟨⟨hnone, hfeed⟩, hreturn⟩, hgap⟩ := hchar
      cases others with
      | nil =>
          change attach char (ofText rest) = _
          simp only [attach, hnone, hfeed, hreturn, hgap, if_false, Bool.false_eq_true]
          split
          · simp_all
          · rfl
      | cons next others =>
          change attach char (ofText (next :: others ++ rest)) = _
          rw [ih (by simp) hothers]
          have hrun : next :: others ≠ ['\r'] := by
            rintro ⟨⟩
            simp [isWordChar] at hothers
          simp [attach, hnone, hfeed, hreturn, hgap, hrun]

theorem text_of_head?_ofText {char : Char} {rest : List Char} (h : isWordChar char = false)
    {run : List Char} {others : List Lexeme}
    (hrun : ofText (char :: rest) = ⟨.text, run⟩ :: others) : run = ['\r'] := by
  change attach char (ofText rest) = _ at hrun
  unfold attach at hrun
  unfold isWordChar at h
  split at hrun
  · rename_i kind hkind
    cases hrun
    exact absurd rfl (punctuation?_eq_some hkind).1.1
  · repeat' split at hrun
    all_goals simp_all

theorem ofText_run {char : Char} (h : isWordChar char) (rest : List Char) :
    ofText (char :: rest) = ⟨.text, (char :: rest).takeWhile isWordChar⟩ ::
      ofText ((char :: rest).dropWhile isWordChar) := by
  rw [← ofText_word, List.takeWhile_append_dropWhile]
  · simp [h]
  · intro other hother
    exact List.all_eq_true.mp List.all_takeWhile other hother
  · intro lexeme hlexeme hkind
    have hstop := List.head?_dropWhile_not isWordChar (char :: rest)
    cases hrest : (char :: rest).dropWhile isWordChar with
    | nil => simp [hrest, ofText] at hlexeme
    | cons next others =>
        rw [hrest] at hlexeme hstop
        obtain ⟨kind, run⟩ := lexeme
        cases hkind
        obtain ⟨later, hlater⟩ := List.head?_eq_some_iff.mp hlexeme
        exact text_of_head?_ofText hstop hlater

theorem kind_of_head?_ofText_space {rest : List Char} {lexeme : Lexeme}
    (h : lexeme ∈ (ofText (' ' :: rest)).head?) : lexeme.kind = .whitespace := by
  change lexeme ∈ (attach ' ' (ofText rest)).head? at h
  cases hlexemes : ofText rest with
  | nil =>
      rw [hlexemes] at h
      cases h
      rfl
  | cons first others =>
      rw [hlexemes] at h
      obtain ⟨kind, text⟩ := first
      cases kind <;> cases h <;> rfl

end Lexeme

/-! ## Rows -/

namespace Row

def full (row : Row) : List Char :=
  Lexeme.textOf row.lexemes ++ row.terminator

end Row

namespace Rows

theorem flatMap_full_attach (lexeme : Lexeme) (rows : Rows) :
    (attach lexeme rows).toList.flatMap Row.full =
      lexeme.text ++ rows.toList.flatMap Row.full := by
  unfold attach
  split <;> simp [toList, Row.full, Lexeme.textOf]

theorem flatMap_full_ofLexemes (lexemes : List Lexeme) :
    (ofLexemes lexemes).toList.flatMap Row.full = Lexeme.textOf lexemes := by
  induction lexemes with
  | nil => rfl
  | cons lexeme rest ih =>
      change (attach lexeme (ofLexemes rest)).toList.flatMap Row.full = _
      rw [flatMap_full_attach, ih]
      rfl

theorem toList_attach_newline {lexeme : Lexeme} (h : lexeme.kind = .newline)
    (rows : Rows) : (attach lexeme rows).toList = ⟨[], lexeme.text⟩ :: rows.toList := by
  simp [attach, h, toList]

theorem toList_attach_of_ne {lexeme : Lexeme} (h : lexeme.kind ≠ .newline) {rows : Rows}
    {first : Row} {rest : List Row} (hrows : rows.toList = first :: rest) :
    (attach lexeme rows).toList = ⟨lexeme :: first.lexemes, first.terminator⟩ :: rest := by
  cases hrows
  simp [attach, h, toList]

/-- The rows of lexemes, and what becomes of the last of them if more rows follow
without a newline between. -/
theorem exists_rows (lexemes : List Lexeme) :
    ∃ init last, (ofLexemes lexemes).toList = init ++ [⟨last, []⟩] ∧
      ∀ rows : Rows, (lexemes.foldr attach rows).toList =
        init ++ ⟨last ++ rows.first.lexemes, rows.first.terminator⟩ :: rows.rest := by
  induction lexemes with
  | nil => exact ⟨[], [], rfl, fun rows => rfl⟩
  | cons lexeme rest ih =>
      obtain ⟨init, last, hrest, hrows⟩ := ih
      by_cases hkind : lexeme.kind = .newline
      · refine ⟨⟨[], lexeme.text⟩ :: init, last, ?_, ?_⟩
        · change (attach lexeme (ofLexemes rest)).toList = _
          rw [toList_attach_newline hkind, hrest]
          rfl
        · intro rows
          rw [List.foldr_cons, toList_attach_newline hkind, hrows]
          rfl
      · cases init with
        | nil =>
            refine ⟨[], lexeme :: last, ?_, ?_⟩
            · exact toList_attach_of_ne hkind hrest
            · intro rows
              exact toList_attach_of_ne hkind (hrows rows)
        | cons row init =>
            refine ⟨⟨lexeme :: row.lexemes, row.terminator⟩ :: init, last, ?_, ?_⟩
            · exact toList_attach_of_ne hkind hrest
            · intro rows
              exact toList_attach_of_ne hkind (hrows rows)

theorem toList_foldr_attach {lexemes : List Lexeme}
    (h : ∀ lexeme ∈ lexemes, lexeme.kind ≠ .newline) {rows : Rows} {first : Row}
    {rest : List Row} (hrows : rows.toList = first :: rest) :
    (lexemes.foldr attach rows).toList =
      ⟨lexemes ++ first.lexemes, first.terminator⟩ :: rest := by
  induction lexemes with
  | nil => exact hrows
  | cons lexeme others ih =>
      rw [List.forall_mem_cons] at h
      exact toList_attach_of_ne h.1 (ih h.2)

theorem mem_of_mem_row {lexemes : List Lexeme} {row : Row} {lexeme : Lexeme}
    (hrow : row ∈ (ofLexemes lexemes).toList) (h : lexeme ∈ row.lexemes) :
    lexeme ∈ lexemes := by
  induction lexemes generalizing row with
  | nil => simp_all [ofLexemes, empty, toList]
  | cons first rest ih =>
      change row ∈ (attach first (ofLexemes rest)).toList at hrow
      have hfirst : (ofLexemes rest).first ∈ (ofLexemes rest).toList := by simp [toList]
      have hrest {row : Row} (hmem : row ∈ (ofLexemes rest).rest) :
          row ∈ (ofLexemes rest).toList := by simp [toList, hmem]
      unfold attach at hrow
      split at hrow
      · rcases List.mem_cons.mp hrow with rfl | hrow
        · contradiction
        · exact List.mem_cons_of_mem _ (ih hrow h)
      · rcases List.mem_cons.mp hrow with rfl | hrow
        · rcases List.mem_cons.mp h with rfl | h
          · exact List.mem_cons_self
          · exact List.mem_cons_of_mem _ (ih hfirst h)
        · exact List.mem_cons_of_mem _ (ih (hrest hrow) h)

end Rows

/-! ## Lines -/

namespace Line

theorem place_append (number start : Nat) (first second : List Row) :
    place number start (first ++ second) = place number start first ++
      place (number + first.length) (start + byteLength (first.flatMap Row.full)) second := by
  induction first generalizing number start with
  | nil => simp [place]
  | cons row rest ih =>
      simp only [List.cons_append, place, ih, List.length_cons, List.flatMap_cons,
        byteLength_append, Row.full]
      congr 3 <;> omega

theorem map_toRow_place (number start : Nat) (rows : List Row) :
    (place number start rows).map Line.toRow = rows := by
  induction rows generalizing number start with
  | nil => rfl
  | cons row rest ih => simp [place, ih]

theorem place_eq_append {number start : Nat} {rows : List Row} {before after : List Line}
    {line : Line} (h : place number start rows = before ++ line :: after) :
    line.number = number + before.length ∧
      line.start = start + byteLength (before.flatMap fun earlier => earlier.full) := by
  induction before generalizing number start rows with
  | nil =>
      cases rows with
      | nil => contradiction
      | cons row rest =>
          cases h
          simp
  | cons first before ih =>
      cases rows with
      | nil => contradiction
      | cons row rest =>
          rw [place, List.cons_append, List.cons.injEq] at h
          obtain ⟨rfl, hrest⟩ := h
          obtain ⟨hnumber, hstart⟩ := ih hrest
          simp only [List.length_cons, List.flatMap_cons, byteLength_append, Row.full]
            at hstart ⊢
          omega

theorem map_number_place (number start : Nat) (rows : List Row) :
    (place number start rows).map (·.number) = List.range' number rows.length := by
  induction rows generalizing number start with
  | nil => rfl
  | cons row rest ih => simp [place, ih, List.range'_succ]

theorem flatMap_full_ofText (source : List Char) :
    (ofText source).flatMap (fun line => line.full) = source := by
  have hrows : (ofText source).flatMap (fun line => line.full) =
      ((ofText source).map Line.toRow).flatMap Row.full := by
    rw [List.flatMap_map]
  rw [hrows, ofText, map_toRow_place, Rows.flatMap_full_ofLexemes, Lexeme.textOf_ofText]

def later (count bytes : Nat) (line : Line) : Line :=
  { line with number := line.number + count, start := line.start + bytes }

theorem place_later (count bytes number start : Nat) (rows : List Row) :
    place (number + count) (start + bytes) rows =
      (place number start rows).map (later count bytes) := by
  induction rows generalizing number start with
  | nil => rfl
  | cons row rest ih =>
      have hrest := ih (number + 1) (start +
        (byteLength (Lexeme.textOf row.lexemes) + byteLength row.terminator))
      simp only [place, List.map_cons, ← hrest]
      congr 2 <;> omega

end Line

namespace Rows

theorem length_rest_ofLexemes (lexemes : List Lexeme) :
    (ofLexemes lexemes).rest.length = lexemes.countP (·.kind == .newline) := by
  induction lexemes with
  | nil => rfl
  | cons lexeme rest ih =>
      change (attach lexeme (ofLexemes rest)).rest.length = _
      by_cases hkind : lexeme.kind = .newline <;> simp [attach, hkind, ih]

end Rows

theorem Lexeme.countP_newline_attach (char : Char) (lexemes : List Lexeme) :
    (attach char lexemes).countP (·.kind == .newline) =
      lexemes.countP (·.kind == .newline) + if char = '\n' then 1 else 0 := by
  unfold attach
  split
  · rename_i kind h
    obtain ⟨-, hkind, hchar⟩ := punctuation?_eq_some h
    simp [hkind, hchar]
  · repeat' split
    all_goals simp_all

theorem Lexeme.countP_newline_ofText (source : List Char) :
    (ofText source).countP (·.kind == .newline) = source.count '\n' := by
  induction source with
  | nil => rfl
  | cons char rest ih =>
      change (attach char (ofText rest)).countP _ = _
      rw [countP_newline_attach, ih, List.count_cons]
      simp

namespace Line

theorem length_ofText (source : List Char) :
    (ofText source).length = source.count '\n' + 1 := by
  have hrows := congrArg List.length (map_toRow_place 1 0
    (Rows.ofLexemes (Lexeme.ofText source)).toList)
  rw [List.length_map] at hrows
  rw [ofText, hrows, Rows.toList, List.length_cons, Rows.length_rest_ofLexemes,
    Lexeme.countP_newline_ofText]

/-- The lines of a text that goes on behind a newline: those before the newline, of
which the last now ends in it, and the others further down. -/
theorem exists_ofText_append {text : List Char} {terminator : Terminator}
    (h : terminator = .lf → text.getLast? ≠ some '\r') :
    ∃ init last, ofText text = init ++ [last] ∧ ∀ rest : List Char,
      ofText (text ++ (terminator.mark ++ rest)) =
        init ++ { last with terminator := terminator.mark } ::
          (ofText rest).map (later (init.length + 1)
            (byteLength (text ++ terminator.mark))) := by
  obtain ⟨init, last, htext, hrows⟩ := Rows.exists_rows (Lexeme.ofText text)
  refine ⟨place 1 0 init, ⟨⟨last, []⟩, 1 + init.length,
    0 + byteLength (init.flatMap Row.full)⟩, ?_, ?_⟩
  · rw [ofText, htext, place_append]
    rfl
  · intro rest
    have hlength : (place 1 0 init).length = init.length := by
      rw [← List.length_map Line.toRow, map_toRow_place]
    have hbytes : byteLength text =
        byteLength (init.flatMap Row.full) + byteLength (Lexeme.textOf last) := by
      have hfull := Rows.flatMap_full_ofLexemes (Lexeme.ofText text)
      rw [htext, Lexeme.textOf_ofText] at hfull
      simp [← hfull, Row.full]
    have hlater := hrows ⟨⟨[], terminator.mark⟩, (Rows.ofLexemes (Lexeme.ofText rest)).toList⟩
    have hjoined : Rows.ofLexemes (Lexeme.ofText (text ++ (terminator.mark ++ rest))) =
        (Lexeme.ofText text).foldr Rows.attach
          ⟨⟨[], terminator.mark⟩, (Rows.ofLexemes (Lexeme.ofText rest)).toList⟩ := by
      rw [Lexeme.ofText_append_mark rest h, Rows.ofLexemes, List.foldr_append]
      rfl
    rw [ofText, hjoined, hlater, place_append, place, ofText, ← place_later]
    simp only [List.append_nil, byteLength_append, hbytes, hlength]
    congr 3
    omega

theorem ofText_of_not_mem {line : List Char} (h : '\n' ∉ line) :
    ofText line = [⟨⟨Lexeme.ofText line, []⟩, 1, 0⟩] := by
  have hstraight : ∀ lexeme ∈ Lexeme.ofText line, lexeme.kind ≠ .newline := by
    intro lexeme hlexeme hkind
    exact h (Lexeme.sign?_mem_ofText hlexeme (by rw [hkind]; rfl))
  have hempty : Rows.empty.toList = [⟨[], []⟩] := rfl
  have hrows := Rows.toList_foldr_attach hstraight hempty
  rw [ofText, Rows.ofLexemes, hrows, List.append_nil]
  rfl

theorem ofText_append_of_not_mem {line : List Char} {terminator : Terminator}
    (h : '\n' ∉ line) (hreturn : terminator = .lf → line.getLast? ≠ some '\r')
    (rest : List Char) :
    ofText (line ++ (terminator.mark ++ rest)) =
      ⟨⟨Lexeme.ofText line, terminator.mark⟩, 1, 0⟩ ::
        (ofText rest).map (later 1 (byteLength (line ++ terminator.mark))) := by
  obtain ⟨init, last, hline, hjoined⟩ := exists_ofText_append hreturn
  rw [ofText_of_not_mem h] at hline
  obtain ⟨rfl, rfl⟩ : init = [] ∧ last = ⟨⟨Lexeme.ofText line, []⟩, 1, 0⟩ := by
    cases init with
    | nil => exact ⟨rfl, (List.cons.inj hline).1.symm⟩
    | cons first init => simp at hline
  exact hjoined rest

end Line

theorem line_induction {Holds : List Char → Prop}
    (one : ∀ line, '\n' ∉ line → Holds line)
    (more : ∀ line (terminator : Terminator) rest, '\n' ∉ line →
      (terminator = .lf → line.getLast? ≠ some '\r') → Holds rest →
        Holds (line ++ (terminator.mark ++ rest)))
    (source : List Char) : Holds source := by
  induction hlength : source.length using Nat.strongRecOn generalizing source with
  | _ length ih =>
      by_cases hfeed : '\n' ∈ source
      · obtain ⟨first, rest, rfl, hfirst⟩ := List.eq_append_cons_of_mem hfeed
        rw [List.length_append, List.length_cons] at hlength
        have hrest := ih rest.length (by omega) rest rfl
        by_cases hreturn : first.getLast? = some '\r'
        · obtain ⟨line, rfl⟩ := List.getLast?_eq_some_iff.mp hreturn
          have hline : '\n' ∉ line := fun hmem => hfirst (by simp [hmem])
          simpa [Terminator.mark] using more line .crlf rest hline (by simp) hrest
        · exact more first .lf rest hfirst (fun _ => hreturn) hrest
      · exact one source hfeed

theorem Line.return_of_mem {source : List Char} {line : Line} (h : line ∈ ofText source)
    (hreturn : line.text.getLast? = some '\r') :
    ['\r', '\r', '\n'] <:+: source ∨ source.getLast? = some '\r' := by
  induction source using line_induction generalizing line with
  | one first hfirst =>
      rw [ofText_of_not_mem hfirst, List.mem_singleton] at h
      rw [h, Line.text, Lexeme.textOf_ofText] at hreturn
      exact .inr hreturn
  | more first terminator rest hfirst hends ih =>
      rw [ofText_append_of_not_mem hfirst hends] at h
      rcases List.mem_cons.mp h with rfl | h
      · rw [Line.text, Lexeme.textOf_ofText] at hreturn
        cases terminator with
        | lf => exact absurd hreturn (hends rfl)
        | crlf =>
            obtain ⟨init, rfl⟩ := List.getLast?_eq_some_iff.mp hreturn
            exact .inl ⟨init, rest, by simp [Terminator.mark]⟩
      · obtain ⟨other, hother, rfl⟩ := List.mem_map.mp h
        have hrest : rest <:+ first ++ (terminator.mark ++ rest) := by
          rw [← List.append_assoc]
          exact List.suffix_append _ _
        rcases ih hother hreturn with hinside | hend
        · exact .inl (hinside.trans hrest.isInfix)
        · obtain ⟨init, rfl⟩ := List.getLast?_eq_some_iff.mp hend
          exact .inr (by simp [← List.append_assoc])

theorem Line.lexemes_eq_of_mem {source : List Char} {line : Line} (h : line ∈ ofText source) :
    line.lexemes = Lexeme.ofText line.text ∧ '\n' ∉ line.text := by
  induction source using line_induction generalizing line with
  | one first hfirst =>
      rw [ofText_of_not_mem hfirst, List.mem_singleton] at h
      subst h
      simp only [Line.text, Lexeme.textOf_ofText]
      exact ⟨trivial, hfirst⟩
  | more first terminator rest hfirst hreturn ih =>
      rw [ofText_append_of_not_mem hfirst hreturn] at h
      rcases List.mem_cons.mp h with rfl | h
      · simp only [Line.text, Lexeme.textOf_ofText]
        exact ⟨trivial, hfirst⟩
      · obtain ⟨other, hother, rfl⟩ := List.mem_map.mp h
        have hrest := ih hother
        exact hrest

namespace Terminator

/-! ## The end of a text -/

theorem detect?_eq_some_iff {source : List Char} {terminator : Terminator} :
    detect? source = some terminator ↔
      ∃ text, source = text ++ terminator.mark ∧
        (terminator = .lf → text.getLast? ≠ some '\r') := by
  constructor
  · intro h
    unfold detect? at h
    split at h
    · rename_i hcrlf
      cases h
      obtain ⟨text, rfl⟩ := hcrlf
      exact ⟨text, rfl, by simp⟩
    · rename_i hcrlf
      split at h
      · rename_i hlf
        cases h
        obtain ⟨text, rfl⟩ := hlf
        refine ⟨text, rfl, fun _ hreturn => hcrlf ?_⟩
        obtain ⟨init, rfl⟩ := List.getLast?_eq_some_iff.mp hreturn
        exact ⟨init, by simp [mark]⟩
      · contradiction
  · rintro ⟨text, rfl, hreturn⟩
    cases terminator with
    | crlf => exact if_pos ⟨text, rfl⟩
    | lf =>
        have hcrlf : ¬ crlf.mark <:+ text ++ lf.mark := by
          rintro ⟨init, hinit⟩
          have hmark : init ++ ['\r'] ++ lf.mark = text ++ lf.mark := by
            simpa [mark] using hinit
          exact hreturn rfl (by simp [← List.append_cancel_right hmark])
        rw [detect?, if_neg hcrlf, if_pos ⟨text, rfl⟩]

theorem strip_append_mark {text : List Char} {terminator : Terminator}
    (h : terminator = .lf → text.getLast? ≠ some '\r') :
    strip (text ++ terminator.mark) = text := by
  rw [strip, detect?_eq_some_iff.mpr ⟨text, rfl, h⟩]
  simp

theorem strip_eq_or (source : List Char) :
    strip source = source ∨ ∃ text terminator,
      source = text ++ mark terminator ∧ strip source = text ∧
        (terminator = .lf → text.getLast? ≠ some '\r') := by
  cases hdetect : detect? source with
  | none => exact .inl (by rw [strip, hdetect])
  | some terminator =>
      obtain ⟨text, rfl, hreturn⟩ := detect?_eq_some_iff.mp hdetect
      exact .inr ⟨text, terminator, rfl, strip_append_mark hreturn, hreturn⟩

theorem detect?_append {first second : List Char} {terminator : Terminator}
    (hfirst : detect? first = some terminator) (hsecond : detect? second = some terminator) :
    detect? (first ++ second) = some terminator ∧
      strip (first ++ second) = first ++ strip second := by
  obtain ⟨text, rfl, hreturn⟩ := detect?_eq_some_iff.mp hsecond
  have hjoined : terminator = .lf → (first ++ text).getLast? ≠ some '\r' := by
    rintro rfl
    obtain ⟨before, rfl, -⟩ := detect?_eq_some_iff.mp hfirst
    rw [List.getLast?_append]
    cases hlast : text.getLast? with
    | none => simp [mark]
    | some char =>
        rw [hlast] at hreturn
        exact hreturn rfl
  rw [← List.append_assoc]
  constructor
  · exact detect?_eq_some_iff.mpr ⟨first ++ text, rfl, hjoined⟩
  · rw [strip_append_mark hjoined, strip_append_mark hreturn]

theorem render_append (terminator : Terminator) (first second : List String) :
    terminator.render (first ++ second) =
      terminator.render first ++ terminator.render second := by
  simp [render]

end Terminator

end GuardedText.Text
