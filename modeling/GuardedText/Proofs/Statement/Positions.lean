import GuardedText.Proofs.Directive.Positions

/-!
# Statements by position

Statements are read here from the document and the bytes where its lines and lexemes start and
stop.  The lines of a directive are counted from the line of its head, and its texts are cut out
of the document between the positions found.  For every document this gives what the reading of
lines gives, so that no slice is taken that does not exist, and no index is outside of its list.
-/

namespace GuardedText.Positions

open GuardedText.Text
open Directive (Head Style)
open Statement (Pending)

/-- The first line that holds the closer, counted from the line of the head, and the byte of
the closer.  No line is searched on which another head stands. -/
def findCloser (source : List Char) (style : Style) (bodyStart : Nat) :
    Nat → List Extent → Except Misstep (Option (Nat × Nat))
  | _, [] => .ok none
  | passed, extent :: rest => do
    let head? ← if passed = 0 then pure none else findHead source extent
    if head?.isSome then return none
    match ← closerOn style bodyStart extent with
    | some start => return some (passed, start)
    | none => findCloser source style bodyStart (passed + 1) rest

def ofExtents (source : List Char) (extents : List Extent) (index : Nat) :
    Except Misstep (Except Fault (List Statement)) :=
  if index < extents.length then do
    let extent ← item extents index
    match ← findHead source extent with
    | none =>
      let text ← slice source extent.start extent.stop
      let later ← ofExtents source extents (index + 1)
      return later.map (.plain (String.ofList text) extent.number :: ·)
    | some ⟨style, .finish, _⟩ =>
      let text ← slice source extent.start extent.stop
      let later ← ofExtents source extents (index + 1)
      return later.map
        (.directive ⟨.finish, none, String.ofList text, extent.number, style⟩ :: ·)
    | some ⟨style, .start branch, bodyStart⟩ =>
      match ← findCloser source style bodyStart 0 (extents.drop index) with
      | none => return .error (.openDirective extent.number)
      | some (passed, closerStart) =>
        let condition := style.conditionText (← slice source bodyStart closerStart)
        if condition ≠ [] && !branch.takesCondition then
          return .error (.condition extent.number (.notWanted (String.ofList condition)))
        let last ← item extents (index + passed)
        let text ← slice source extent.start last.stop
        let later ← ofExtents source extents (index + passed + 1)
        return later.map (.directive ⟨.start branch,
          if condition = [] then none else some (String.ofList condition),
          String.ofList text, extent.number, style⟩ :: ·)
  else return .ok []
termination_by extents.length - index

def ofText (source : List Char) : Except Misstep (Except Fault (List Statement)) :=
  ofExtents source ((Line.ofText source).map Extent.ofLine) 0

/-! ## Directives over several lines -/

theorem beforeCloser?_isPrefix {style : Style} {lexemes inner : List Lexeme}
    (h : style.beforeCloser? lexemes = some inner) : inner <+: lexemes := by
  induction lexemes generalizing inner with
  | nil => contradiction
  | cons lexeme rest ih =>
      rw [Style.beforeCloser?] at h
      split at h
      · cases h
        exact List.nil_prefix
      · obtain ⟨others, hothers, rfl⟩ := Option.map_eq_some_iff.mp h
        exact (List.prefix_cons_inj lexeme).mpr (ih hothers)

def size (lines : List Line) : Nat :=
  byteLength (lines.flatMap fun line => line.full)

section Lines

variable {source : List Char} {before later : List Line} {line : Line}

theorem start_eq_size (h : Line.ofText source = before ++ line :: later) :
    line.start = size before := by
  rw [(Line.place_eq_append h).2, Nat.zero_add, size]

theorem isSlice_full (h : Line.ofText source = before ++ line :: later) :
    IsSlice source line.start (size (before ++ [line])) (line.text ++ line.terminator) := by
  refine ⟨before.flatMap (fun other => other.full), later.flatMap (fun other => other.full), ?_,
    ?_, ?_⟩
  · rw [← Line.flatMap_full_ofText source, h]
    simp [Row.full, Line.text]
  · exact (start_eq_size h).symm
  · rw [start_eq_size h]
    simp [size, Row.full, Line.text]

end Lines

/-- The pending directive that is read up to the first byte of `body`, which is the part of the
line that can hold its closer. -/
structure Searched (source : List Char) (headStart bodyStart : Nat) (pending? : Option Pending)
    (pending : Pending) (line : Line) (body : List Lexeme) : Prop where
  step_eq : Statement.step pending? line = pending.advance body line
  closer_eq : closerOn pending.style bodyStart (Extent.ofLine line) =
    .ok ((pending.style.beforeCloser? body).map fun inner =>
      startOf line.stop body + byteLength (Lexeme.textOf inner))
  body_slice : IsSlice source bodyStart (startOf line.stop body) pending.body
  rest_slice : IsSlice source (startOf line.stop body) line.stop (Lexeme.textOf body)
  source_slice : IsSlice source headStart line.start pending.source

/-- The search for the closer of a directive takes no misstep, and its answer tells what is read
of the directive and the lines behind it, with the texts of the directive cut out of the source. -/
inductive Settles (source : List Char) (headStart bodyStart passed : Nat) (pending : Pending)
    (lines : List Line) (result : Except Fault (List Statement)) :
    Except Misstep (Option (Nat × Nat)) → Prop
  | unclosed (result_eq : result = .error (.openDirective pending.line)) :
      Settles source headStart bodyStart passed pending lines result (.ok none)
  | closed {skipped after : List Line} {last : Line} {raw text : List Char} {closerStart : Nat}
      (lines_eq : lines = skipped ++ last :: after)
      (raw_slice : IsSlice source bodyStart closerStart raw)
      (text_slice : IsSlice source headStart last.stop text)
      (result_eq : result = do
        let directive ← Pending.close ⟨pending.line, pending.style, pending.branch, [], []⟩ raw text
        let others ← Statement.ofLines none after
        return .directive directive :: others) :
      Settles source headStart bodyStart passed pending lines result
        (.ok (some (passed + skipped.length, closerStart)))

section Search

variable {source : List Char} {headStart bodyStart passed : Nat} {pending? : Option Pending}
  {pending : Pending} {before later : List Line} {line : Line} {body : List Lexeme}

theorem Settles.below {text lines : List Char} {result : Except Fault (List Statement)}
    {search : Except Misstep (Option (Nat × Nat))}
    (h : Settles source headStart bodyStart (passed + 1)
      { pending with body := text, source := lines } later result search) :
    Settles source headStart bodyStart passed pending (line :: later) result search := by
  cases h with
  | unclosed result_eq => exact .unclosed result_eq
  | @closed skipped after last raw text closerStart lines_eq raw_slice text_slice result_eq =>
      have hcount : passed + 1 + skipped.length = passed + (line :: skipped).length := by
        rw [List.length_cons]
        omega
      rw [hcount]
      exact .closed (by rw [lines_eq, List.cons_append]) raw_slice text_slice result_eq

theorem Searched.settles_of_closer {inner : List Lexeme}
    (h : Searched source headStart bodyStart pending? pending line body)
    (hline : line ∈ Line.ofText source)
    (hcloser : pending.style.beforeCloser? body = some inner) (passed : Nat) (later : List Line) :
    Settles source headStart bodyStart passed pending (line :: later)
      (Statement.ofLines pending? (line :: later))
      (.ok (some (passed, startOf line.stop body + byteLength (Lexeme.textOf inner)))) := by
  obtain ⟨rest, rfl⟩ := beforeCloser?_isPrefix hcloser
  have hrest := h.rest_slice
  rw [Lexeme.textOf_append] at hrest
  have hraw := h.body_slice.append hrest.take
  have htext := h.source_slice.append (isSlice_of_mem hline)
  have hresult := Statement.ofLines_cons_of_closer later h.step_eq hcloser
  exact @Settles.closed _ _ _ _ _ _ _ [] later line _ _ _ rfl hraw htext hresult

theorem Searched.next_slices (h : Searched source headStart bodyStart pending? pending line body)
    (hlines : Line.ofText source = before ++ line :: later) :
    IsSlice source bodyStart (size (before ++ [line]))
        (pending.body ++ (Lexeme.textOf body ++ line.terminator)) ∧
      IsSlice source headStart (size (before ++ [line])) (pending.source ++ line.full) := by
  have hfull := isSlice_full hlines
  exact ⟨h.body_slice.append (h.rest_slice.append hfull.drop), h.source_slice.append hfull⟩

-- `hbelow` is the induction hypothesis of the search on the lines behind this one
theorem Searched.settles (h : Searched source headStart bodyStart pending? pending line body)
    (hlines : Line.ofText source = before ++ line :: later)
    (hbelow : ∀ next : Pending,
      IsSlice source bodyStart (size (before ++ [line])) next.body →
      IsSlice source headStart (size (before ++ [line])) next.source →
      Settles source headStart bodyStart (passed + 1) next later
        (Statement.ofLines (some next) later)
        (findCloser source next.style bodyStart (passed + 1) (later.map Extent.ofLine))) :
    Settles source headStart bodyStart passed pending (line :: later)
      (Statement.ofLines pending? (line :: later)) (do
        match ← closerOn pending.style bodyStart (Extent.ofLine line) with
        | some start => return some (passed, start)
        | none =>
          findCloser source pending.style bodyStart (passed + 1) (later.map Extent.ofLine)) := by
  rw [h.closer_eq, ok_bind]
  cases hcloser : pending.style.beforeCloser? body with
  | some inner =>
      have hline : line ∈ Line.ofText source := by simp [hlines]
      exact h.settles_of_closer hline hcloser passed later
  | none =>
      obtain ⟨hbody, hsource⟩ := h.next_slices hlines
      rw [Statement.ofLines_of_no_closer later h.step_eq hcloser]
      exact (hbelow { pending with body := _, source := _ } hbody hsource).below

theorem settles_below (hlines : Line.ofText source = before ++ later) (hpassed : passed ≠ 0)
    (hbody : IsSlice source bodyStart (size before) pending.body)
    (hsource : IsSlice source headStart (size before) pending.source) :
    Settles source headStart bodyStart passed pending later
      (Statement.ofLines (some pending) later)
      (findCloser source pending.style bodyStart passed (later.map Extent.ofLine)) := by
  induction later generalizing before pending passed with
  | nil => exact .unclosed rfl
  | cons line later ih =>
      have hline : line ∈ Line.ofText source := by simp [hlines]
      rw [List.map_cons, findCloser, if_neg hpassed, findHead_ofLine hline]
      cases hhead : Head.find? line.lexemes with
      | some head =>
          refine .unclosed ?_
          simp only [Statement.ofLines, Statement.step, hhead]
          rfl
      | none =>
          have hstart : startOf line.stop line.lexemes = line.start := Nat.add_sub_cancel ..
          rw [← start_eq_size hlines, ← hstart] at hbody
          rw [← start_eq_size hlines] at hsource
          have hpast : bodyStart ≤ line.start := by
            obtain ⟨-, -, -, -, hstop⟩ := hbody
            omega
          have hclosers := closerOn_below hpast pending.style
          have hrest := isSlice_of_mem hline
          rw [← hstart] at hclosers hrest
          have hsearched : Searched source headStart bodyStart (some pending) pending line
              line.lexemes :=
            ⟨Statement.step_of_no_head hhead, hclosers, hbody, hrest, hsource⟩
          refine hsearched.settles hlines fun next => ih ?_ passed.succ_ne_zero
          rw [hlines, List.append_assoc]
          rfl

theorem settles_of_head {style : Style} {branch : BranchKind}
    (hlines : Line.ofText source = before ++ line :: later)
    (hhead : Head.find? line.lexemes = some ⟨style, .start branch, body⟩) :
    Settles source line.start (startOf line.stop body) 0 ⟨line.number, style, branch, [], []⟩
      (line :: later) (Statement.ofLines none (line :: later))
      (findCloser source style (startOf line.stop body) 0 ((line :: later).map Extent.ofLine)) := by
  have hline : line ∈ Line.ofText source := by simp [hlines]
  have hslice := isSlice_of_mem hline
  obtain ⟨init, word, tail, others, -, hlexemes, hbody⟩ := exists_of_find? hhead
  have htext : line.text = (Lexeme.textOf init ++ word) ++ Lexeme.textOf body := by
    simp only at hbody
    rw [Line.text, hlexemes, hbody]
    simp [Lexeme.textOf]
  rw [htext] at hslice
  have hrest := isSlice_startOf hslice
  have hsearched : Searched source line.start (startOf line.stop body) none
      ⟨line.number, style, branch, [], []⟩ line body := by
    refine ⟨Statement.step_of_head hhead, closerOn_headLine hhead style, ?_, hrest, ?_⟩
    · exact @IsSlice.take _ [] _ _ _ hrest
    · exact @IsSlice.take _ [] _ _ _ hslice
  exact hsearched.settles hlines fun next => settles_below (by simp [hlines]) Nat.one_ne_zero

end Search

/-! ## All lines -/

section Statements

variable {source : List Char} {before later : List Line} {line : Line} {style : Style}
  {body : List Lexeme}

def Agrees (source : List Char) (index : Nat) (lines : List Line) : Prop :=
  ofExtents source ((Line.ofText source).map Extent.ofLine) index =
    .ok (Statement.ofLines none lines)

theorem steps_eq_ok (hlines : Line.ofText source = before ++ line :: later) :
    item ((Line.ofText source).map Extent.ofLine) before.length = .ok (Extent.ofLine line) ∧
      slice source (Extent.ofLine line).start (Extent.ofLine line).stop = .ok line.text ∧
      findHead source (Extent.ofLine line) =
        .ok ((Head.find? line.lexemes).map (Found.ofHead line.stop)) := by
  have hline : line ∈ Line.ofText source := by simp [hlines]
  exact ⟨item_eq_ok (by simp [hlines]), slice_eq_ok (isSlice_of_mem hline), findHead_ofLine hline⟩

theorem agrees_of_no_head (hlines : Line.ofText source = before ++ line :: later)
    (hhead : Head.find? line.lexemes = none) (hlater : Agrees source (before.length + 1) later) :
    Agrees source before.length (line :: later) := by
  obtain ⟨hitem, htext, hfind⟩ := steps_eq_ok hlines
  rw [Agrees] at hlater ⊢
  rw [ofExtents, if_pos (by simp [hlines]), hitem, ok_bind, hfind, hhead, ok_bind]
  simp only [Option.map_none, htext, hlater, ok_bind, Statement.ofLines, Statement.step, hhead]
  rfl

theorem agrees_of_finish (hlines : Line.ofText source = before ++ line :: later)
    (hhead : Head.find? line.lexemes = some ⟨style, .finish, body⟩)
    (hlater : Agrees source (before.length + 1) later) :
    Agrees source before.length (line :: later) := by
  obtain ⟨hitem, htext, hfind⟩ := steps_eq_ok hlines
  rw [Agrees] at hlater ⊢
  rw [ofExtents, if_pos (by simp [hlines]), hitem, ok_bind, hfind, hhead, ok_bind]
  simp only [Option.map_some, Found.ofHead, htext, hlater, ok_bind, Statement.ofLines,
    Statement.step, hhead]
  rfl

theorem agrees_of_start {branch : BranchKind}
    (hlines : Line.ofText source = before ++ line :: later)
    (hhead : Head.find? line.lexemes = some ⟨style, .start branch, body⟩)
    (hlater : ∀ skipped last after, line :: later = skipped ++ last :: after →
      Agrees source (before.length + skipped.length + 1) after) :
    Agrees source before.length (line :: later) := by
  obtain ⟨hitem, -, hfind⟩ := steps_eq_ok hlines
  have hdrop : ((Line.ofText source).map Extent.ofLine).drop before.length =
      (line :: later).map Extent.ofLine := by
    simp [hlines]
  have hsettles := settles_of_head hlines hhead
  rw [Agrees, ofExtents, if_pos (by simp [hlines]), hitem, ok_bind, hfind, hhead, ok_bind]
  simp only [Option.map_some, Found.ofHead, hdrop]
  generalize findCloser source style (startOf line.stop body) 0
    ((line :: later).map Extent.ofLine) = search at hsettles ⊢
  cases hsettles with
  | unclosed result_eq =>
      rw [result_eq]
      rfl
  | @closed skipped after last raw text closerStart lines_eq raw_slice text_slice result_eq =>
      have hlast : item ((Line.ofText source).map Extent.ofLine) (before.length + skipped.length) =
          .ok (Extent.ofLine last) := item_eq_ok (by simp [hlines, lines_eq])
      have htext : slice source (Extent.ofLine line).start (Extent.ofLine last).stop = .ok text :=
        slice_eq_ok text_slice
      have hafter := hlater skipped last after lines_eq
      have hcondition := Style.isConditionText_iff.mpr (rfl : style.conditionText raw = _)
      rw [Agrees] at hafter
      rw [result_eq, Pending.close_fresh hcondition]
      simp only [ok_bind, slice_eq_ok raw_slice, Nat.zero_add, hlast, htext, hafter]
      cases hempty : style.conditionText raw with
      | nil => rfl
      | cons char rest => cases branch <;> rfl

theorem agrees (hlines : Line.ofText source = before ++ later) :
    Agrees source before.length later := by
  induction hlength : later.length using Nat.strong_induction_on generalizing before later with
  | h length ih =>
  subst hlength
  cases later with
  | nil =>
      rw [Agrees, ofExtents, if_neg]
      · rfl
      · simp [hlines]
  | cons line later =>
      have hlater : ∀ skipped last after, line :: later = skipped ++ last :: after →
          Agrees source (before.length + skipped.length + 1) after := by
        intro skipped last after hsplit
        have hshorter : after.length < (line :: later).length := by
          rw [hsplit, List.length_append, List.length_cons]
          omega
        have hafter : Line.ofText source = (before ++ skipped ++ [last]) ++ after := by
          simp [hlines, hsplit]
        have hindex : (before ++ skipped ++ [last]).length =
            before.length + skipped.length + 1 := by
          simp only [List.length_append, List.length_singleton]
        rw [← hindex]
        exact ih after.length hshorter hafter rfl
      cases hhead : Head.find? line.lexemes with
      | none => exact agrees_of_no_head hlines hhead (hlater [] line later rfl)
      | some head =>
          obtain ⟨style, kind, body⟩ := head
          cases kind with
          | finish => exact agrees_of_finish hlines hhead (hlater [] line later rfl)
          | start branch => exact agrees_of_start hlines hhead hlater

end Statements

/-- The reading by position takes no misstep and gives the statements of the text.  A step is no
misstep if its slice begins and ends on the boundaries of characters, in order and inside of the
text, or if its index is inside of the list. -/
theorem ofText_eq_ok (source : List Char) :
    ofText source = .ok (Statement.ofText source) ∧
      (∀ text start stop, (∃ part, slice text start stop = .ok part) ↔
        start ≤ stop ∧ stop ≤ (String.ofList text).utf8ByteSize ∧
          String.Pos.Raw.IsValid (String.ofList text) ⟨start⟩ ∧
          String.Pos.Raw.IsValid (String.ofList text) ⟨stop⟩) ∧
      ∀ (α : Type) (items : List α) index,
        (∃ found, item items index = .ok found) ↔ index < items.length := by
  refine ⟨agrees (List.nil_append _).symm, ?_, fun _ _ _ => exists_item_eq_ok_iff⟩
  intro text start stop
  rw [exists_slice_eq_ok_iff, slice?_ne_none_iff]

end GuardedText.Positions
