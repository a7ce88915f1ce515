import GuardedText.Proofs.Process.Fidelity

/-!
# Texts without directives

A text none of whose lines holds a head comes out as its lines, each with the terminator
of the run.  Every output is such a text.  Its lines were lines without a head before, and
none can become one with a head: the end of an output line moves only where a carriage
return at its end joins the line feed behind it, and the lexemes in front of a carriage
return do not depend on it.  So an output is processed to itself, as long as the line feeds
of a text that follows LF have stayed alone.
-/

namespace GuardedText

open GuardedText.Text

/-! ## Heads in front of other lexemes -/

namespace Directive.Head

theorem afterStars?_append {lexemes rest : List Lexeme} (later : List Lexeme)
    (h : afterStars? lexemes = some rest) :
    afterStars? (lexemes ++ later) = some (rest ++ later) := by
  induction lexemes with
  | nil => contradiction
  | cons lexeme others ih =>
      obtain ⟨kind, text⟩ := lexeme
      cases kind with
      | star => exact ih h
      | hash =>
          cases h
          rfl
      | _ => contradiction

theorem opener?_append {lexemes rest : List Lexeme} {style : Style} (later : List Lexeme)
    (h : opener? lexemes = some (style, rest)) :
    opener? (lexemes ++ later) = some (style, rest ++ later) := by
  unfold opener? at h
  split at h
  · obtain ⟨found, hfound, hresult⟩ := Option.map_eq_some_iff.mp h
    cases hresult
    simp only [List.cons_append, opener?, afterStars?_append later hfound, Option.map_some]
  · cases h
    rfl
  · contradiction

theorem keyword?_append {lexemes body : List Lexeme} {kind : Kind} (later : List Lexeme)
    (h : keyword? lexemes = some (kind, body)) :
    keyword? (lexemes ++ later) = some (kind, body ++ later) := by
  unfold keyword? at h
  split at h
  · dsimp only at h
    split at h
    · contradiction
    · rename_i hends
      obtain ⟨found, hfound, hresult⟩ := Option.map_eq_some_iff.mp h
      cases hresult
      simp only [List.cons_append, keyword?, if_neg hends, hfound, Option.map_some]
  · contradiction

theorem here?_append {lexemes : List Lexeme} {head : Head} (later : List Lexeme)
    (h : here? lexemes = some head) :
    here? (lexemes ++ later) = some { head with body := head.body ++ later } := by
  obtain ⟨⟨style, rest⟩, hopener, h⟩ := Option.bind_eq_some_iff.mp h
  obtain ⟨⟨kind, body⟩, hkeyword, h⟩ := Option.bind_eq_some_iff.mp h
  cases h
  simp [here?, opener?_append later hopener, keyword?_append later hkeyword]

theorem find?_cons_eq_none_iff {lexeme : Lexeme} {rest : List Lexeme} :
    find? (lexeme :: rest) = none ↔ here? (lexeme :: rest) = none ∧ find? rest = none := by
  rw [find?]
  cases here? (lexeme :: rest) <;> simp

theorem find?_eq_none_of_append {lexemes later : List Lexeme}
    (h : find? (lexemes ++ later) = none) : find? lexemes = none := by
  induction lexemes with
  | nil => rfl
  | cons lexeme rest ih =>
      rw [List.cons_append, find?_cons_eq_none_iff] at h
      obtain ⟨hhere, hrest⟩ := h
      refine find?_cons_eq_none_iff.mpr ⟨?_, ih hrest⟩
      cases hfound : here? (lexeme :: rest) with
      | none => rfl
      | some head =>
          have hlonger := here?_append later hfound
          rw [List.cons_append, hhere] at hlonger
          contradiction

end Directive.Head

/-! ## Lines of rendered texts -/

namespace Text.Line

def texts (source : List Char) : List String :=
  (ofText source).map fun line => String.ofList line.text

theorem texts_of_not_mem {line : List Char} (h : '\n' ∉ line) :
    texts line = [String.ofList line] := by
  simp [texts, ofText_of_not_mem h, Line.text, Lexeme.textOf_ofText]

theorem texts_append_of_not_mem {line : List Char} {terminator : Terminator}
    (h : '\n' ∉ line) (hreturn : terminator = .lf → line.getLast? ≠ some '\r')
    (rest : List Char) :
    texts (line ++ (terminator.mark ++ rest)) = String.ofList line :: texts rest := by
  simp [texts, ofText_append_of_not_mem h hreturn, Line.text, Lexeme.textOf_ofText,
    Function.comp_def, later]

end Text.Line

def Headless (source : List Char) : Prop :=
  ∀ line ∈ Line.ofText source, Directive.Head.find? line.lexemes = none

def IsPlainLine (text : List Char) : Prop :=
  '\n' ∉ text ∧ Directive.Head.find? (Lexeme.ofText text) = none

theorem IsPlainLine.headless {text : List Char} (h : IsPlainLine text) : Headless text := by
  intro line hline
  rw [Line.ofText_of_not_mem h.1, List.mem_singleton] at hline
  rw [hline]
  exact h.2

theorem IsPlainLine.headless_append {text rest : List Char} {terminator : Terminator}
    (h : IsPlainLine text) (hreturn : terminator = .lf → text.getLast? ≠ some '\r')
    (hrest : Headless rest) : Headless (text ++ (terminator.mark ++ rest)) := by
  intro line hline
  rw [Line.ofText_append_of_not_mem h.1 hreturn] at hline
  rcases List.mem_cons.mp hline with rfl | hline
  · exact h.2
  · obtain ⟨other, hother, rfl⟩ := List.mem_map.mp hline
    exact hrest other hother

theorem IsPlainLine.of_return {text : List Char} (h : IsPlainLine (text ++ ['\r'])) :
    IsPlainLine text := by
  have hlexemes : Lexeme.ofText (text ++ ['\r']) = Lexeme.ofText text ++ Lexeme.ofText ['\r'] := by
    apply Lexeme.ofText_append_of_apart
    intro last _
    change Lexeme.attach last [⟨.text, ['\r']⟩] = _ ++ [⟨.text, ['\r']⟩]
    unfold Lexeme.attach
    repeat' split
    all_goals simp_all
  refine ⟨fun hmem => h.1 (by simp [hmem]), ?_⟩
  have hhead := h.2
  rw [hlexemes] at hhead
  exact Directive.Head.find?_eq_none_of_append hhead

namespace Text.Terminator

theorem toList_render_cons (terminator : Terminator) (first : String) (lines : List String) :
    (terminator.render (first :: lines)).toList =
      first.toList ++ (terminator.mark ++ (terminator.render lines).toList) := by
  simp [render]

theorem headless_render_append (terminator : Terminator) {lines : List String}
    (h : ∀ text ∈ lines, IsPlainLine text.toList) {rest : List Char} (hrest : Headless rest) :
    Headless ((terminator.render lines).toList ++ rest) := by
  induction lines with
  | nil => simpa [render] using hrest
  | cons first lines ih =>
      rw [List.forall_mem_cons] at h
      obtain ⟨hfirst, hlines⟩ := h
      rw [toList_render_cons, List.append_assoc, List.append_assoc]
      by_cases hreturn : terminator = .lf ∧ first.toList.getLast? = some '\r'
      · obtain ⟨rfl, hreturn⟩ := hreturn
        obtain ⟨text, htext⟩ := List.getLast?_eq_some_iff.mp hreturn
        rw [htext] at hfirst ⊢
        have hjoined : Headless (text ++ (crlf.mark ++ ((render .lf lines).toList ++ rest))) :=
          hfirst.of_return.headless_append (by simp) (ih hlines)
        simpa [mark] using hjoined
      · exact hfirst.headless_append (fun hlf hlast => hreturn ⟨hlf, hlast⟩) (ih hlines)

theorem texts_render_append {terminator : Terminator} {lines : List String}
    (h : ∀ text ∈ lines, '\n' ∉ text.toList ∧
      (terminator = .lf → text.toList.getLast? ≠ some '\r')) (rest : List Char) :
    Line.texts ((terminator.render lines).toList ++ rest) = lines ++ Line.texts rest := by
  induction lines with
  | nil => simp [render]
  | cons first lines ih =>
      rw [List.forall_mem_cons] at h
      obtain ⟨⟨hfeed, hreturn⟩, hlines⟩ := h
      rw [toList_render_cons, List.append_assoc, List.append_assoc,
        Line.texts_append_of_not_mem hfeed hreturn, ih hlines, String.ofList_toList]
      rfl

theorem return_of_mem_render {terminator : Terminator} {lines : List String} {text : String}
    (hmem : text ∈ lines) (hlf : terminator = .lf) (hreturn : text.toList.getLast? = some '\r') :
    ['\r', '\n'] <:+: (terminator.render lines).toList := by
  obtain ⟨before, after, rfl⟩ := List.append_of_mem hmem
  obtain ⟨init, hinit⟩ := List.getLast?_eq_some_iff.mp hreturn
  refine ⟨(terminator.render before).toList ++ init, (terminator.render after).toList, ?_⟩
  rw [render_append, String.toList_append, toList_render_cons, hinit, hlf]
  simp [mark]

end Text.Terminator

/-! ## Texts without heads -/

theorem Statement.ofLines_of_headless {lines : List Line}
    (h : ∀ line ∈ lines, Directive.Head.find? line.lexemes = none) :
    ofLines none lines =
      .ok (lines.map fun line => .plain (String.ofList line.text) line.number) := by
  induction lines with
  | nil => rfl
  | cons line rest ih =>
      rw [List.forall_mem_cons] at h
      have hstep : step none line =
          .ok (none, some (.plain (String.ofList line.text) line.number)) := by
        simp only [step, h.1]
      simp only [ofLines, hstep, ok_bind, ih h.2]
      rfl

theorem Document.ofStatements_of_lines (lines : List Line) :
    ofStatements (lines.map fun line => .plain (String.ofList line.text) line.number) =
      .ok ⟨lines.map fun line => .leaf (String.ofList line.text) line.number⟩ := by
  have hrun (content : List Node) :
      (lines.map fun line => Statement.plain (String.ofList line.text) line.number).foldlM
          Assembly.step ⟨content, []⟩ =
        .ok ⟨(lines.map fun line => Node.leaf (String.ofList line.text) line.number).reverse ++
          content, []⟩ := by
    induction lines generalizing content with
    | nil => rfl
    | cons line rest ih =>
        rw [List.map_cons, List.foldlM_cons, Assembly.step, ok_bind, Assembly.push, ih]
        simp
  rw [ofStatements, Assembly.empty, hrun, ok_bind]
  simp [Assembly.toDocument]

theorem Selection.selectNodes_of_lines (symbols : Symbols) (policy : Policy)
    (lines : List Line) :
    selectNodes symbols policy
        (lines.map fun line => .leaf (String.ofList line.text) line.number) =
      .ok ⟨lines.map fun line => String.ofList line.text, []⟩ := by
  induction lines with
  | nil => rw [List.map_nil, selectNodes, List.map_nil]
  | cons line rest ih =>
      rw [List.map_cons, selectNodes, ih]
      rfl

theorem process_of_headless {source : String} (nonempty : source ≠ "")
    (h : Headless (Terminator.strip source.toList)) (options : Options) (symbols : Symbols) :
    process options symbols source =
      .ok ⟨(options.terminator source).render (Line.texts (Terminator.strip source.toList)),
        options.terminator source, []⟩ := by
  rw [process_of_ne_empty nonempty, Document.parse, Statement.ofText,
    Statement.ofLines_of_headless h, ok_bind, Document.ofStatements_of_lines, ok_bind,
    Selection.select_eq_selectNodes, Selection.selectNodes_of_lines, ok_bind]
  rfl

/-! ## Outputs -/

theorem Statement.isPlainLine_of_plain {source : List Char} {statements : List Statement}
    (h : ofText source = .ok statements) {text : String} {number : Nat}
    (hmem : .plain text number ∈ statements) : IsPlainLine text.toList := by
  obtain ⟨line, hline, htext, hhead⟩ := exists_line_of_plain h hmem
  obtain ⟨hlexemes, hfeed⟩ := Line.lexemes_eq_of_mem hline
  rw [hlexemes] at hhead
  rw [← htext]
  exact ⟨hfeed, hhead⟩

theorem exists_lines_of_process {options : Options} {symbols : Symbols} {source : String}
    {output : Output} (h : process options symbols source = .ok output) :
    ∃ lines, output.text = output.terminator.render lines ∧
      ∀ text ∈ lines, IsPlainLine text.toList := by
  by_cases hempty : source = ""
  · subst hempty
    rw [process_empty] at h
    cases h
    exact ⟨[], rfl, by simp⟩
  · rw [process_of_ne_empty hempty] at h
    obtain ⟨document, hparse, h⟩ := bind_eq_ok_iff.mp h
    obtain ⟨selection, hselect, h⟩ := bind_eq_ok_iff.mp h
    cases h
    refine ⟨selection.lines, rfl, fun text hmem => ?_⟩
    rw [Selection.judge_eq_ok hselect] at hmem
    obtain ⟨statements, hcut, number, hplain⟩ := Document.exists_plain_of_kept hparse hmem
    exact Statement.isPlainLine_of_plain hcut hplain

theorem Options.terminator_render (options : Options) {terminator : Terminator}
    (init : List String) {last : String}
    (h : terminator = .lf → last.toList.getLast? ≠ some '\r') :
    options.terminator (terminator.render (init ++ [last])) = terminator := by
  have hends := (Terminator.detect?_render_concat terminator init last).mpr
    fun ⟨hlf, hfound⟩ => h hlf hfound
  rw [Options.terminator, hends, Option.getD_some]

theorem process_render {terminator : Terminator} {init : List String} {last : String}
    (hplain : ∀ text ∈ init ++ [last], IsPlainLine text.toList)
    (hreturn : ∀ text ∈ init ++ [last], terminator = .lf → text.toList.getLast? ≠ some '\r')
    (options : Options) (symbols : Symbols) :
    process options symbols (terminator.render (init ++ [last])) =
      .ok ⟨terminator.render (init ++ [last]), terminator, []⟩ := by
  have hlast : last ∈ init ++ [last] := by simp
  have hstrip : Terminator.strip (terminator.render (init ++ [last])).toList =
      (terminator.render init).toList ++ last.toList := by
    rw [Terminator.toList_render_concat]
    apply Terminator.strip_append_mark
    intro hlf hfound
    exact hreturn last hlast hlf ((Terminator.getLast?_render_append _ _ _).mp hfound)
  have htexts : Line.texts ((terminator.render init).toList ++ last.toList) =
      init ++ [last] := by
    rw [Terminator.texts_render_append fun text hmem =>
        ⟨(hplain text (by simp [hmem])).1, hreturn text (by simp [hmem])⟩,
      Line.texts_of_not_mem (hplain last hlast).1, String.ofList_toList]
  have hheadless : Headless ((terminator.render init).toList ++ last.toList) :=
    Terminator.headless_render_append terminator (fun text hmem => hplain text (by simp [hmem]))
      (hplain last hlast).headless
  have hnonempty : terminator.render (init ++ [last]) ≠ "" := by
    intro hempty
    have hlist := congrArg String.toList hempty
    rw [Terminator.toList_render_concat] at hlist
    cases terminator <;> simp [Terminator.mark] at hlist
  rw [process_of_headless hnonempty (hstrip ▸ hheadless), hstrip, htexts,
    options.terminator_render init (hreturn last hlast)]

/-- No line of an output holds a head.  An output in which every line feed is part of the
terminator of the run is processed to itself, without a warning and whatever the options
and the symbols are, and keeps the terminator unless it is empty. -/
theorem process_output (options : Options) (symbols : Symbols) (source : String)
    (output : Output) (h : process options symbols source = .ok output) :
    Headless output.text.toList ∧
    ((output.terminator = .crlf ∨ ¬['\r', '\n'] <:+: output.text.toList) →
      ∀ (others : Options) (defined : Symbols),
        process others defined output.text =
          .ok ⟨output.text, others.terminator output.text, []⟩ ∧
        (output.text ≠ "" → others.terminator output.text = output.terminator)) := by
  obtain ⟨lines, htext, hplain⟩ := exists_lines_of_process h
  have hempty : IsPlainLine [] := ⟨by simp, rfl⟩
  have hheadless := Terminator.headless_render_append output.terminator hplain hempty.headless
  rw [List.append_nil] at hheadless
  rw [htext]
  refine ⟨hheadless, fun halone others defined => ?_⟩
  rcases List.eq_nil_or_concat' lines with rfl | ⟨init, last, rfl⟩
  · exact ⟨process_empty others defined, fun hne => absurd rfl hne⟩
  · have hreturn : ∀ text ∈ init ++ [last], output.terminator = .lf →
        text.toList.getLast? ≠ some '\r' := by
      intro text hmem hlf hfound
      rcases halone with hcrlf | hnone
      · rw [hlf] at hcrlf
        contradiction
      · exact hnone (Terminator.return_of_mem_render hmem hlf hfound)
    have hkept := others.terminator_render init (hreturn last (by simp))
    rw [hkept]
    exact ⟨process_render hplain hreturn others defined, fun _ => rfl⟩

theorem process_output_mixed :
    process {} (.ofNames ["X"])
        "/*#if X*/\r\n/*#\rif*/ <!--# if\r\n/*#endif*/\n/*\n#if -A*/\n" =
      .ok ⟨"/*#\rif*/ <!--# if\n/*\n#if -A*/\n", .lf, []⟩ ∧
    process ⟨.deny, .fixed .crlf⟩ (.ofNames ["A"]) "/*#\rif*/ <!--# if\n/*\n#if -A*/\n" =
      .ok ⟨"/*#\rif*/ <!--# if\n/*\n#if -A*/\n", .lf, []⟩ := by
  have h : process {} (.ofNames ["X"])
        "/*#if X*/\r\n/*#\rif*/ <!--# if\r\n/*#endif*/\n/*\n#if -A*/\n" =
      .ok ⟨"/*#\rif*/ <!--# if\n/*\n#if -A*/\n", .lf, []⟩ := by
    decide +kernel
  have hagain := (process_output {} _ _ _ h).2 (.inr (by decide +kernel)) ⟨.deny, .fixed .crlf⟩
    (.ofNames ["A"])
  have hkept := hagain.2 (by decide)
  refine ⟨h, ?_⟩
  rw [hagain.1, hkept]

end GuardedText
