import GuardedText.Proofs.Document.Sketch
import GuardedText.Proofs.Text.Pieces

/-!
# Drawings read back

A drawing has a row for the document and one for each entry of its sketch.  The levels draw
in front of a row with characters that a connector does not have, so the row tells its depth
whatever its label is, and the depths of the rows tell what stands inside what.  Drawings
are then equal exactly if the sketches are, as far as the style shows them: a label only up to
its thirtieth character, a line only where lines are numbered.
-/

namespace GuardedText

namespace Drawing

def Role.icon : Role → Char
  | .leaf => '↵'
  | .block => '⋔'
  | .branch => '→'

theorem Role.icon_inj {role other : Role} (h : role.icon = other.icon) : role = other := by
  revert h
  cases role <;> cases other <;> decide

def cut (label : List Char) : List Char :=
  if label.length ≤ 30 then label else label.take 30 ++ ['.', '.', '.']

def lineNumber (line : Nat) : List Char :=
  if line < 10 then '0' :: Nat.toDigits 10 line else Nat.toDigits 10 line

def numbering (style : Style) (line : Nat) : List Char :=
  if style.numbered then lineNumber line ++ [' '] else []

/-- The row holds the entry behind nothing but lines of the drawing. -/
def Entry.Shows (style : Style) (entry : Entry) (row : List Char) : Prop :=
  ∃ art, row = numbering style entry.line ++ (art ++ entry.role.icon :: ' ' :: cut entry.label) ∧
    ∀ char ∈ art, char ∈ [' ', '│', '├', '└', '─']

def Entry.shown (style : Style) (entry : Entry) : Entry :=
  ⟨entry.role, cut entry.label, if style.numbered then entry.line else 0⟩

def shown (style : Style) : Sketch → Sketch
  | .empty => .empty
  | .beside entry inside rest =>
    .beside (entry.shown style) (shown style inside) (shown style rest)

theorem entries_shown (style : Style) (sketch : Sketch) :
    entries (shown style sketch) = (entries sketch).map (Entry.shown style) := by
  induction sketch with
  | empty => rfl
  | beside entry inside rest ihInside ihRest => simp [shown, entries, ihInside, ihRest]

theorem cut_cut (label : List Char) : cut (cut label) = cut label := by
  by_cases h : label.length ≤ 30
  · simp only [cut, if_pos h]
  · have hlength : (label.take 30).length = 30 := by
      rw [List.length_take]
      omega
    have hlong : ¬(label.take 30 ++ ['.', '.', '.']).length ≤ 30 := by
      rw [List.length_append, hlength]
      decide
    simp only [cut, if_neg h, if_neg hlong, List.take_left' hlength]

/-! ## Rows of a sketch -/

def corner (isLast : Bool) : Char :=
  if isLast then '└' else '├'

def Entry.body (margin : List Char) (isLast : Bool) (entry : Entry) : List Char :=
  margin ++ corner isLast :: '─' :: ' ' :: entry.role.icon :: ' ' :: cut entry.label

def Entry.row (style : Style) (margin : List Char) (isLast : Bool) (entry : Entry) :
    List Char :=
  numbering style entry.line ++ entry.body margin isLast

def Sketch.isEmpty : Sketch → Bool
  | .empty => true
  | .beside _ _ _ => false

def rows (style : Style) (margin : List Char) : Sketch → List (List Char)
  | .empty => []
  | .beside entry inside rest =>
    entry.row style margin rest.isEmpty ::
      (rows style (below margin rest.isEmpty) inside ++ rows style margin rest)

theorem truncate_eq_cut (label : List Char) : truncate label = cut label := by
  unfold truncate cut maxLabel
  by_cases h : label.length ≤ 30
  · rw [if_pos h, if_neg (by omega)]
  · rw [if_neg h, if_pos (by omega)]
    rfl

theorem blockLabel_eq (branches : List Branch) :
    blockLabel branches = blockCaption branches.length := by
  unfold blockLabel blockCaption
  by_cases h : branches.length = 1
  · simp only [h, if_true]
    decide
  · simp only [h, if_false, String.toList_append, Nat.toString_eq_repr, Nat.toList_repr,
      List.append_assoc]
    rfl

theorem branchLabel_eq (kind : BranchKind) (condition? : Option Condition) :
    branchLabel kind condition? = branchCaption kind condition? := by
  have hword : kind.keyword.toList = branchWord kind := by
    cases kind <;> rfl
  cases condition? with
  | none => exact hword
  | some condition => rw [branchLabel, branchCaption, hword, Condition.toList_print]

theorem line_block (branches : List Branch) : (Node.block branches).line = firstLine branches := by
  cases branches <;> rfl

theorem number_eq (line : Nat) : number line = lineNumber line := by
  have hlength : (Nat.toDigits 10 line).length < 2 ↔ line < 10 := by
    have hiff := @Nat.length_toDigits_le_iff 10 line 1 (by decide) (by decide)
    omega
  simp only [number, lineNumber, Nat.toString_eq_repr, Nat.toList_repr, hlength]

theorem row_eq (role : Role) (icon : Char) (hicon : role.icon = icon) (style : Style)
    (margin : List Char) (isLast : Bool) (line : Nat) (label : List Char) :
    row style margin isLast line icon label =
      Entry.row style margin isLast ⟨role, label, line⟩ := by
  subst hicon
  rw [row, number_eq, truncate_eq_cut]
  cases isLast <;> simp [Entry.row, numbering, Entry.body, corner]

theorem isEmpty_sketchNodes (nodes : List Node) :
    (sketchNodes nodes).isEmpty = nodes.isEmpty := by
  rcases nodes with _ | ⟨_ | _, _⟩ <;> simp [sketchNodes, Sketch.isEmpty]

theorem isEmpty_sketchBranches (branches : List Branch) :
    (sketchBranches branches).isEmpty = branches.isEmpty := by
  rcases branches with _ | ⟨⟨_, _, _, _⟩, _⟩ <;> simp [sketchBranches, Sketch.isEmpty]

mutual

theorem nodes_eq_rows (style : Style) (margin : List Char) (content : List Node) :
    nodes style margin content = rows style margin (sketchNodes content) := by
  match content with
  | [] => rw [nodes, sketchNodes, rows]
  | .leaf text line :: rest =>
    rw [nodes, row_eq .leaf '↵' rfl, nodes_eq_rows style margin rest, sketchNodes, rows, rows,
      List.nil_append, isEmpty_sketchNodes]
  | .block all :: rest =>
    rw [nodes, row_eq .block '⋔' rfl, branches_eq_rows style _ all, blockLabel_eq, line_block,
      nodes_eq_rows style margin rest, sketchNodes, rows, isEmpty_sketchNodes]

theorem branches_eq_rows (style : Style) (margin : List Char) (all : List Branch) :
    branches style margin all = rows style margin (sketchBranches all) := by
  match all with
  | [] => rw [branches, sketchBranches, rows]
  | ⟨kind, condition?, body, line⟩ :: rest =>
    rw [branches, row_eq .branch '→' rfl, nodes_eq_rows style _ body, branchLabel_eq,
      branches_eq_rows style margin rest, sketchBranches, rows, isEmpty_sketchBranches]

end

/-! ## One row -/

theorem isDigit_of_mem_lineNumber {line : Nat} {char : Char} (h : char ∈ lineNumber line) :
    char.isDigit = true := by
  have hdigits {char : Char} (h : char ∈ Nat.toDigits 10 line) : char.isDigit = true :=
    Nat.isDigit_of_mem_toDigits (by decide) (by decide) h
  unfold lineNumber at h
  split at h
  · rcases List.mem_cons.mp h with rfl | h
    · rfl
    · exact hdigits h
  · exact hdigits h

theorem ofDigitChars_lineNumber (line : Nat) :
    Nat.ofDigitChars 10 (lineNumber line) 0 = line := by
  unfold lineNumber
  split
  · rw [Nat.ofDigitChars_cons]
    exact Nat.ofDigitChars_ten_toDigits
  · exact Nat.ofDigitChars_ten_toDigits

def isMarginChar (char : Char) : Bool :=
  char == ' ' || char == '│'

def IsMargin (margin : List Char) : Prop :=
  ∀ char ∈ margin, isMarginChar char = true

theorem isMargin_nil : IsMargin [] := nofun

theorem IsMargin.below {margin : List Char} (h : IsMargin margin) (isLast : Bool) :
    IsMargin (below margin isLast) := by
  intro char hmem
  rcases List.mem_append.mp hmem with hmem | hmem
  · exact h char hmem
  · have hpair : ∀ char ∈ if isLast then [' ', ' '] else ['│', ' '], isMarginChar char := by
      cases isLast <;> simp [isMarginChar]
    exact hpair char hmem

theorem Entry.body_inj {margin outer : List Char} {isLast isEnd : Bool} {entry other : Entry}
    (hmargin : IsMargin margin) (houter : IsMargin outer)
    (h : entry.body margin isLast = other.body outer isEnd) :
    margin = outer ∧ isLast = isEnd ∧ entry.role = other.role ∧
      cut entry.label = cut other.label := by
  have hends (isLast : Bool) : isMarginChar (corner isLast) = false := by
    cases isLast <;> rfl
  obtain ⟨rfl, hrest⟩ := Text.run_unique h hmargin houter
    (by simpa using hends isLast) (by simpa using hends isEnd)
  simp only [List.cons.injEq, true_and] at hrest
  obtain ⟨hcorner, hicon, hlabel⟩ := hrest
  have hlast : isLast = isEnd := by
    revert hcorner
    cases isLast <;> cases isEnd <;> decide
  exact ⟨rfl, hlast, Role.icon_inj hicon, hlabel⟩

theorem Entry.row_inj {style : Style} {margin outer : List Char} {isLast isEnd : Bool}
    {entry other : Entry} (hmargin : IsMargin margin) (houter : IsMargin outer)
    (h : entry.row style margin isLast = other.row style outer isEnd) :
    margin = outer ∧ isLast = isEnd ∧ entry.shown style = other.shown style := by
  obtain ⟨_ | _⟩ := style
  · obtain ⟨hsame, hlast, hrole, hlabel⟩ := body_inj hmargin houter h
    exact ⟨hsame, hlast, by simp [shown, hrole, hlabel]⟩
  · have hblank (rest : List Char) : ∀ char ∈ (' ' :: rest).head?, char.isDigit = false := by
      rintro _ ⟨⟩
      rfl
    simp only [row, numbering, if_true, List.append_assoc, List.singleton_append] at h
    obtain ⟨hnumber, hrest⟩ := Text.run_unique h (fun _ => isDigit_of_mem_lineNumber)
      (fun _ => isDigit_of_mem_lineNumber) (hblank _) (hblank _)
    obtain ⟨hsame, hlast, hrole, hlabel⟩ := body_inj hmargin houter (List.cons.inj hrest).2
    have hline : entry.line = other.line := by
      rw [← ofDigitChars_lineNumber entry.line, hnumber, ofDigitChars_lineNumber]
    exact ⟨hsame, hlast, by simp [shown, hrole, hlabel, hline]⟩

theorem Entry.row_shown (style : Style) (margin : List Char) (isLast : Bool) (entry : Entry) :
    (entry.shown style).row style margin isLast = entry.row style margin isLast := by
  obtain ⟨_ | _⟩ := style <;> simp [row, numbering, body, shown, cut_cut]

theorem Entry.shows_row {margin : List Char} (h : IsMargin margin) (style : Style)
    (isLast : Bool) (entry : Entry) : entry.Shows style (entry.row style margin isLast) := by
  refine ⟨margin ++ [corner isLast, '─', ' '], by simp [row, body], ?_⟩
  intro char hmem
  rcases List.mem_append.mp hmem with hmem | hmem
  · have hchar := h char hmem
    simp only [isMarginChar, Bool.or_eq_true, beq_iff_eq] at hchar
    rcases hchar with rfl | rfl <;> decide
  · have hconnector : ∀ char ∈ [corner isLast, '─', ' '], char ∈ [' ', '│', '├', '└', '─'] := by
      cases isLast <;> simp [corner]
    exact hconnector char hmem

theorem not_mem_numbering (style : Style) (line : Nat) : '\n' ∉ numbering style line := by
  unfold numbering
  split
  · intro hmem
    rcases List.mem_append.mp hmem with hmem | hmem
    · exact absurd (isDigit_of_mem_lineNumber hmem) (by decide)
    · exact absurd hmem (by decide)
  · exact List.not_mem_nil

theorem not_mem_cut {label : List Char} (h : '\n' ∉ label) : '\n' ∉ cut label := by
  unfold cut
  split
  · exact h
  · have hfront : '\n' ∉ label.take 30 := fun hmem => h (List.mem_of_mem_take hmem)
    simp [hfront]

theorem Entry.Shows.not_mem {style : Style} {entry : Entry} {row : List Char}
    (h : entry.Shows style row) (hlabel : '\n' ∉ entry.label) : '\n' ∉ row := by
  obtain ⟨art, rfl, hart⟩ := h
  have hnumber := not_mem_numbering style entry.line
  have hlines : '\n' ∉ art := by
    intro hmem
    have hline := hart _ hmem
    revert hline
    decide
  have hicon : '\n' ≠ entry.role.icon := by
    cases entry.role <;> decide
  simp [hnumber, hlines, hicon, not_mem_cut hlabel]

/-! ## All rows -/

def Outside (style : Style) (margin : List Char) (rest : List (List Char)) : Prop :=
  ∀ row ∈ rest.head?, ∃ outer isLast, ∃ entry : Entry,
    row = entry.row style outer isLast ∧ IsMargin outer ∧ outer.length < margin.length

theorem Outside.not_row {style : Style} {margin : List Char} (hmargin : IsMargin margin)
    {isLast : Bool} {entry : Entry} {rest : List (List Char)} :
    ¬Outside style margin (entry.row style margin isLast :: rest) := by
  intro h
  obtain ⟨outer, isEnd, other, hrow, houter, hless⟩ := h _ rfl
  obtain ⟨rfl, -, -⟩ := Entry.row_inj hmargin houter hrow
  exact Nat.lt_irrefl _ hless

theorem outside_below {style : Style} {margin : List Char} {rest : List (List Char)}
    (h : Outside style margin rest) (hmargin : IsMargin margin) (isLast : Bool)
    (sketch : Sketch) :
    Outside style (below margin isLast) (rows style margin sketch ++ rest) := by
  have hlength : margin.length < (below margin isLast).length := by
    cases isLast <;> simp [below]
  cases sketch with
  | empty =>
      intro row hrow
      obtain ⟨outer, isEnd, entry, heq, houter, hless⟩ := h row hrow
      exact ⟨outer, isEnd, entry, heq, houter, hless.trans hlength⟩
  | beside entry inside others =>
      rintro _ ⟨⟩
      exact ⟨margin, others.isEmpty, entry, rfl, hmargin, hlength⟩

/-- The rows inside an entry end with the first row that is not further in. -/
theorem rows_inj {style : Style} {margin : List Char} {rest later : List (List Char)}
    (hmargin : IsMargin margin) (hrest : Outside style margin rest)
    (hlater : Outside style margin later) {sketch other : Sketch}
    (h : rows style margin sketch ++ rest = rows style margin other ++ later) :
    shown style sketch = shown style other ∧ rest = later := by
  induction sketch generalizing margin rest later other with
  | empty =>
      cases other with
      | empty => exact ⟨rfl, h⟩
      | beside entry inside siblings =>
          rw [rows, rows, List.nil_append] at h
          rw [h] at hrest
          exact absurd hrest (Outside.not_row hmargin)
  | beside entry inside siblings ihInside ihSiblings =>
      cases other with
      | empty =>
          rw [rows, rows, List.nil_append] at h
          rw [← h] at hlater
          exact absurd hlater (Outside.not_row hmargin)
      | beside entry' inside' siblings' =>
          rw [rows, rows, List.cons_append, List.cons_append] at h
          obtain ⟨hrow, hbehind⟩ := List.cons.inj h
          obtain ⟨-, hlast, hentry⟩ := Entry.row_inj hmargin hmargin hrow
          rw [hlast, List.append_assoc, List.append_assoc] at hbehind
          obtain ⟨hinside, hsiblings⟩ := ihInside (hmargin.below _)
            (outside_below hrest hmargin _ siblings)
            (outside_below hlater hmargin _ siblings') hbehind
          obtain ⟨hothers, hsame⟩ := ihSiblings hmargin hrest hlater hsiblings
          exact ⟨by rw [shown, shown, hentry, hinside, hothers], hsame⟩

theorem isEmpty_shown (style : Style) (sketch : Sketch) :
    (shown style sketch).isEmpty = sketch.isEmpty := by
  cases sketch <;> rfl

theorem rows_shown (style : Style) (margin : List Char) (sketch : Sketch) :
    rows style margin (shown style sketch) = rows style margin sketch := by
  induction sketch generalizing margin with
  | empty => rfl
  | beside entry inside rest ihInside ihRest =>
      rw [shown, rows, rows, Entry.row_shown, isEmpty_shown, ihInside, ihRest]

theorem rows_eq_iff {style : Style} {sketch other : Sketch} :
    rows style [] sketch = rows style [] other ↔ shown style sketch = shown style other := by
  constructor
  · intro h
    have hend : Outside style [] [] := nofun
    exact (rows_inj isMargin_nil hend hend (congrArg (· ++ []) h)).1
  · intro h
    rw [← rows_shown, h, rows_shown]

theorem forall₂_shows_rows {margin : List Char} (h : IsMargin margin) (style : Style)
    (sketch : Sketch) :
    List.Forall₂ (Entry.Shows style) (entries sketch) (rows style margin sketch) := by
  induction sketch generalizing margin with
  | empty => exact .nil
  | beside entry inside rest ihInside ihRest =>
      exact .cons (entry.shows_row h style _) (List.rel_append (ihInside (h.below _)) (ihRest h))

end Drawing

/-! ## Drawings -/

theorem splitOn_flatMap_of_not_mem {rows : List (List Char)} (h : ∀ row ∈ rows, '\n' ∉ row) :
    (rows.flatMap (· ++ ['\n'])).splitOn '\n' = rows ++ [[]] := by
  induction rows with
  | nil => exact Text.splitOn_of_not_mem List.not_mem_nil
  | cons row rows ih =>
      rw [List.forall_mem_cons] at h
      rw [List.flatMap_cons, List.append_assoc, List.singleton_append,
        Text.splitOn_append_of_not_mem h.1, ih h.2, List.cons_append]

namespace Document

open Drawing

theorem toList_draw (document : Document) (style : Style) :
    (document.draw style).toList =
      ("⧉ Document".toList :: rows style [] document.sketch).flatMap (· ++ ['\n']) := by
  unfold draw
  dsimp only
  rw [String.toList_ofList, nodes_eq_rows, sketch]

theorem splitOn_draw {source : String} {document : Document}
    (h : parse source = .ok document) (style : Style) :
    (document.draw style).toList.splitOn '\n' =
      "⧉ Document".toList :: rows style [] document.sketch ++ [[]] := by
  rw [toList_draw, splitOn_flatMap_of_not_mem]
  refine List.forall_mem_cons.mpr ⟨by decide, fun row hrow => ?_⟩
  have hshows := forall₂_shows_rows isMargin_nil style document.sketch
  obtain ⟨entry, hentry, hrow⟩ := exists_of_forall₂_of_mem hshows.flip hrow
  exact Entry.Shows.not_mem hrow ((entries_sketch_of_parse h).2 entry hentry)

theorem draw_eq_iff_rows {source source' : String} {document document' : Document}
    (h : parse source = .ok document) (h' : parse source' = .ok document') (style : Style) :
    document.draw style = document'.draw style ↔
      rows style [] document.sketch = rows style [] document'.sketch := by
  constructor
  · intro hdraw
    have hsplit := splitOn_draw h style
    rw [hdraw, splitOn_draw h' style] at hsplit
    exact ((List.cons.inj (List.append_cancel_right hsplit)).2).symm
  · intro hrows
    rw [← String.toList_inj, toList_draw, toList_draw, hrows]

/-- The lines of a drawing are one for the document and one for each leaf, block and branch,
in the order of the source.  Two drawings are equal exactly if the documents have the same
nodes inside each other, with the same labels up to where a label is cut and, where lines are
shown, at the same lines. -/
theorem draw_eq_iff_shown {source source' : String} {document document' : Document}
    (h : parse source = .ok document) (h' : parse source' = .ok document') :
    (∀ style, ∃ rows,
      (document.draw style).toList.splitOn '\n' = "⧉ Document".toList :: rows ++ [[]] ∧
        List.Forall₂ (Entry.Shows style) (entries document.sketch) rows) ∧
    (entries document.sketch).Pairwise Entry.Before ∧
    (∀ style, document.draw style = document'.draw style ↔
      shown style document.sketch = shown style document'.sketch) ∧
    (document.draw ⟨true⟩ = document'.draw ⟨true⟩ →
      (entries document.sketch).map (·.line) = (entries document'.sketch).map (·.line)) := by
  have hshown (style : Style) : document.draw style = document'.draw style ↔
      shown style document.sketch = shown style document'.sketch := by
    rw [draw_eq_iff_rows h h', rows_eq_iff]
  refine ⟨fun style => ?_, (entries_sketch_of_parse h).1, hshown, fun hdraw => ?_⟩
  · exact ⟨rows style [] document.sketch, splitOn_draw h style,
      forall₂_shows_rows isMargin_nil style document.sketch⟩
  · have hentries := congrArg entries ((hshown ⟨true⟩).mp hdraw)
    rw [entries_shown, entries_shown] at hentries
    have hlines := congrArg (List.map (·.line)) hentries
    rwa [List.map_map, List.map_map] at hlines

theorem draw_eq_iff_shown_long :
    ∃ document document',
      parse ("└─ ↵ a line that is longer than thirty\r\r\n<!--#if A-->\n" ++
        "/*#elif !(B || C)*/\n/*#if -A*/\n/*#endif*/\nb\n/*#endif*/\n") = .ok document ∧
      parse ("└─ ↵ a line that is longer than others\n/*#if (A)*/\n" ++
        "/*#elseif !((B) || C)*/\n/*#if -(A)*/\n/*#endif*/\nb\n/*#endif*/\n") =
          .ok document' ∧
      entries document.sketch =
        [⟨.leaf, "└─ ↵ a line that is longer than thirty\r".toList, 1⟩,
          ⟨.block, "Block (2 branches)".toList, 2⟩, ⟨.branch, "if A".toList, 2⟩,
          ⟨.branch, "elif !(B || C)".toList, 3⟩, ⟨.block, "Block (1 branch)".toList, 4⟩,
          ⟨.branch, "if -A".toList, 4⟩, ⟨.leaf, "b".toList, 6⟩] ∧
      document.draw ⟨true⟩ = "⧉ Document\n01 ├─ ↵ └─ ↵ a line that is longer tha...\n" ++
        "02 └─ ⋔ Block (2 branches)\n02   ├─ → if A\n03   └─ → elif !(B || C)\n" ++
        "04     ├─ ⋔ Block (1 branch)\n04     │ └─ → if -A\n06     └─ ↵ b\n" ∧
      document.draw ⟨true⟩ = document'.draw ⟨true⟩ ∧
      shown ⟨true⟩ document.sketch = shown ⟨true⟩ document'.sketch := by
  have hfirst : (parse ("└─ ↵ a line that is longer than thirty\r\r\n<!--#if A-->\n" ++
      "/*#elif !(B || C)*/\n/*#if -A*/\n/*#endif*/\nb\n/*#endif*/\n")).toOption.map
        (fun document => (entries document.sketch, document.draw ⟨true⟩)) =
      some ([⟨.leaf, "└─ ↵ a line that is longer than thirty\r".toList, 1⟩,
        ⟨.block, "Block (2 branches)".toList, 2⟩, ⟨.branch, "if A".toList, 2⟩,
        ⟨.branch, "elif !(B || C)".toList, 3⟩, ⟨.block, "Block (1 branch)".toList, 4⟩,
        ⟨.branch, "if -A".toList, 4⟩, ⟨.leaf, "b".toList, 6⟩],
        "⧉ Document\n01 ├─ ↵ └─ ↵ a line that is longer tha...\n" ++
        "02 └─ ⋔ Block (2 branches)\n02   ├─ → if A\n03   └─ → elif !(B || C)\n" ++
        "04     ├─ ⋔ Block (1 branch)\n04     │ └─ → if -A\n06     └─ ↵ b\n") := by
    decide +kernel
  have hsecond : (parse ("└─ ↵ a line that is longer than others\n/*#if (A)*/\n" ++
      "/*#elseif !((B) || C)*/\n/*#if -(A)*/\n/*#endif*/\nb\n/*#endif*/\n")).toOption.map
        (·.draw ⟨true⟩) =
      some ("⧉ Document\n01 ├─ ↵ └─ ↵ a line that is longer tha...\n" ++
        "02 └─ ⋔ Block (2 branches)\n02   ├─ → if A\n03   └─ → elif !(B || C)\n" ++
        "04     ├─ ⋔ Block (1 branch)\n04     │ └─ → if -A\n06     └─ ↵ b\n") := by
    decide +kernel
  obtain ⟨document, hparse, hshows⟩ := Option.map_eq_some_iff.mp hfirst
  obtain ⟨document', hparse', hdraw'⟩ := Option.map_eq_some_iff.mp hsecond
  obtain ⟨hentries, hdraw⟩ := Prod.mk.inj hshows
  have h := eq_ok_of_toOption hparse
  have h' := eq_ok_of_toOption hparse'
  have hsame := hdraw.trans hdraw'.symm
  exact ⟨document, document', h, h', hentries, hdraw, hsame,
    ((draw_eq_iff_shown h h').2.2.1 ⟨true⟩).mp hsame⟩

end Document

end GuardedText
