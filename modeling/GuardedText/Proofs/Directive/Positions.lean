import GuardedText.Proofs.Statement.Closing
import GuardedText.Proofs.Text.LongestMatch
import GuardedText.Proofs.Text.Slices

/-!
# Heads and closers by position

The head and the closer of a directive can be found without the texts of lexemes: from the
document, the kinds of its lexemes and the bytes where they start and stop.  Every text is then a
slice of the document between two positions, and lexemes are taken by their index.  A slice that
does not exist or an index outside of its list is a misstep.  The search among the lexemes
themselves says what is found, and that no misstep is taken on the way.
-/

namespace GuardedText.Positions

open GuardedText.Text
open Directive (Head Style)

inductive Misstep where
  | slice (start stop : Nat)
  | index (index : Nat)
deriving DecidableEq, Repr

def slice (source : List Char) (start stop : Nat) : Except Misstep (List Char) :=
  match slice? source start stop with
  | some text => .ok text
  | none => .error (.slice start stop)

def item {α : Type} (items : List α) (index : Nat) : Except Misstep α :=
  match items[index]? with
  | some found => .ok found
  | none => .error (.index index)

structure Spot where
  kind : Lexeme.Kind
  start : Nat
  stop : Nat
deriving DecidableEq, Repr

structure Extent where
  number : Nat
  start : Nat
  stop : Nat
  spots : List Spot
deriving DecidableEq, Repr

def stand (kinds : List Lexeme.Kind) (spots : List Spot) (index : Nat) : Bool :=
  kinds.isPrefixOf ((spots.drop index).map (·.kind))

def openerAt (spots : List Spot) (index : Nat) : Except Misstep (Option (Style × Nat)) :=
  if stand [.slash] spots index then
    let hash := index + 1 + (spots.drop (index + 1)).findIdx (·.kind != .star)
    if index + 1 < hash && stand [.hash] spots hash then
      return some (.block, (← item spots hash).stop)
    else return none
  else if stand [.lessThan, .bang, .dash, .dash, .hash] spots index then
    return some (.markup, (← item spots (index + 4)).stop)
  else return none

structure Found where
  style : Style
  kind : Directive.Kind
  bodyStart : Nat
deriving DecidableEq, Repr

/-- The keyword right behind a hash, on a line that stops at the given byte. -/
def keywordAt (source : List Char) (stop : Nat) (style : Style) (hashStop : Nat) :
    Except Misstep (Option Found) := do
  let rest ← slice source hashStop stop
  let size := byteLength (rest.takeWhile Char.isAlpha)
  let keyword ← slice rest 0 size
  let behind ← slice rest size (byteLength rest)
  match Directive.Kind.ofKeyword? (String.ofList keyword), behind.head?.any isNameChar with
  | some kind, false => return some ⟨style, kind, hashStop + size⟩
  | _, _ => return none

def headAt (source : List Char) (extent : Extent) (index : Nat) :
    Except Misstep (Option Found) := do
  match ← openerAt extent.spots index with
  | none => return none
  | some (style, hashStop) => keywordAt source extent.stop style hashStop

def findHead (source : List Char) (extent : Extent) : Except Misstep (Option Found) :=
  (List.range extent.spots.length).findSomeM? (headAt source extent)

def closerAt (style : Style) (bodyStart : Nat) (spots : List Spot) (index : Nat) :
    Except Misstep (Option Nat) := do
  let spot ← item spots index
  if bodyStart ≤ spot.start && stand style.closer spots index then return some spot.start
  else return none

def closerOn (style : Style) (bodyStart : Nat) (extent : Extent) : Except Misstep (Option Nat) :=
  (List.range extent.spots.length).findSomeM? (closerAt style bodyStart extent.spots)

def row (start : Nat) (lexemes : List Lexeme) : List Spot :=
  (Lexeme.spans start lexemes).map fun (lexeme, first, last) => ⟨lexeme.kind, first, last⟩

def Extent.ofLine (line : Line) : Extent :=
  ⟨line.number, line.start, line.stop, row line.start line.lexemes⟩

/-! ## Steps that succeed -/

theorem slice_eq_ok {source text : List Char} {start stop : Nat}
    (h : IsSlice source start stop text) : slice source start stop = .ok text := by
  rw [slice, slice?_eq_some_iff.mpr h]

theorem item_eq_ok {α : Type} {items : List α} {index : Nat} {found : α}
    (h : items[index]? = some found) : item items index = .ok found := by
  rw [item, h]

theorem exists_slice_eq_ok_iff {source : List Char} {start stop : Nat} :
    (∃ text, slice source start stop = .ok text) ↔ slice? source start stop ≠ none := by
  rw [slice]
  cases slice? source start stop <;> simp

theorem exists_item_eq_ok_iff {α : Type} {items : List α} {index : Nat} :
    (∃ found, item items index = .ok found) ↔ index < items.length := by
  rw [← not_iff_not, Nat.not_lt, ← List.getElem?_eq_none_iff, item]
  cases items[index]? <;> simp

theorem findSomeM?_eq_ok {α β : Type} {look : α → Except Misstep (Option β)}
    {answer : α → Option β} {items : List α}
    (h : ∀ found ∈ items, look found = .ok (answer found)) :
    items.findSomeM? look = .ok (items.findSome? answer) := by
  induction items with
  | nil => rfl
  | cons first rest ih =>
      rw [List.forall_mem_cons] at h
      rw [List.findSomeM?, List.findSome?_cons, h.1, ok_bind]
      cases answer first with
      | some found => rfl
      | none => exact ih h.2

/-! ## Rows of spots -/

theorem row_cons (start : Nat) (lexeme : Lexeme) (rest : List Lexeme) :
    row start (lexeme :: rest) =
      ⟨lexeme.kind, start, start + byteLength lexeme.text⟩ ::
        row (start + byteLength lexeme.text) rest :=
  rfl

theorem row_append (start : Nat) (first second : List Lexeme) :
    row start (first ++ second) =
      row start first ++ row (start + byteLength (Lexeme.textOf first)) second := by
  induction first generalizing start with
  | nil => rfl
  | cons lexeme rest ih =>
      rw [List.cons_append, row_cons, row_cons, ih]
      simp [Lexeme.textOf, Nat.add_assoc]

theorem map_kind_row (start : Nat) (lexemes : List Lexeme) :
    (row start lexemes).map (·.kind) = lexemes.map (·.kind) := by
  induction lexemes generalizing start with
  | nil => rfl
  | cons lexeme rest ih => exact congrArg (lexeme.kind :: ·) (ih _)

theorem length_row (start : Nat) (lexemes : List Lexeme) :
    (row start lexemes).length = lexemes.length := by
  rw [← List.length_map (·.kind), map_kind_row, List.length_map]

theorem drop_row {start : Nat} {before rest : List Lexeme} :
    (row start (before ++ rest)).drop before.length =
      row (start + byteLength (Lexeme.textOf before)) rest := by
  rw [row_append, List.drop_left' (length_row start before)]

theorem stand_row (kinds : List Lexeme.Kind) {start index : Nat} {lexemes before rest : List Lexeme}
    (hlexemes : lexemes = before ++ rest) (hindex : before.length = index) :
    stand kinds (row start lexemes) index = kinds.isPrefixOf (rest.map (·.kind)) := by
  rw [stand, hlexemes, ← hindex, drop_row, map_kind_row]

theorem item_row {start : Nat} {before rest : List Lexeme} {lexeme : Lexeme} :
    item (row start (before ++ lexeme :: rest)) before.length =
      .ok ⟨lexeme.kind, start + byteLength (Lexeme.textOf before),
        start + byteLength (Lexeme.textOf (before ++ [lexeme]))⟩ := by
  apply item_eq_ok
  have hdrop := congrArg List.head? (@drop_row start before (lexeme :: rest))
  rw [List.head?_drop] at hdrop
  rw [hdrop]
  simp [row_cons, Lexeme.textOf, Nat.add_assoc]

/-! ## Searches over a row -/

/-- What is found at the first lexeme where anything is found.  The search is told the byte where
the lexeme starts, and the lexemes from it on. -/
def firstFrom {β : Type} (look : Nat → List Lexeme → Option β) (start : Nat) :
    List Lexeme → Option β
  | [] => none
  | lexeme :: rest =>
    look start (lexeme :: rest) <|> firstFrom look (start + byteLength lexeme.text) rest

theorem findSome?_range_eq {β : Type} (look : Nat → List Lexeme → Option β) (start : Nat)
    (lexemes : List Lexeme) :
    (List.range lexemes.length).findSome? (fun index =>
      look (start + byteLength (Lexeme.textOf (lexemes.take index))) (lexemes.drop index)) =
      firstFrom look start lexemes := by
  induction lexemes generalizing start with
  | nil => rfl
  | cons lexeme rest ih =>
      rw [List.length_cons, List.range_succ_eq_map, List.findSome?_cons, List.findSome?_map,
        firstFrom, ← ih]
      simp only [Function.comp_def, List.take_zero, List.drop_zero, List.take_succ_cons,
        List.drop_succ_cons, Lexeme.textOf, List.flatMap_nil, List.flatMap_cons, byteLength_nil,
        byteLength_append, Nat.add_zero, Nat.add_assoc]
      cases look start (lexeme :: rest) <;> rfl

theorem findSomeM?_range_eq {β : Type} {look : Nat → List Lexeme → Option β} {start : Nat}
    {lexemes : List Lexeme} {scan : Nat → Except Misstep (Option β)}
    (h : ∀ before lexeme rest, lexemes = before ++ lexeme :: rest → scan before.length =
      .ok (look (start + byteLength (Lexeme.textOf before)) (lexeme :: rest))) :
    (List.range lexemes.length).findSomeM? scan = .ok (firstFrom look start lexemes) := by
  rw [← findSome?_range_eq]
  apply findSomeM?_eq_ok
  intro index hindex
  rw [List.mem_range] at hindex
  have hdrop := List.drop_eq_getElem_cons hindex
  have hscan := h (lexemes.take index) _ _ (by rw [← hdrop, List.take_append_drop])
  rwa [List.length_take_of_le (Nat.le_of_lt hindex), ← hdrop] at hscan

/-! ## Openers -/

theorem findIdx_row (start : Nat) (lexemes : List Lexeme) :
    (row start lexemes).findIdx (·.kind != .star) =
      (lexemes.takeWhile (·.kind == .star)).length := by
  induction lexemes generalizing start with
  | nil => rfl
  | cons lexeme rest ih =>
      rw [row_cons, List.findIdx_cons, List.takeWhile_cons, ih]
      cases hkind : lexeme.kind == .star <;> simp [bne, hkind]

theorem afterStars?_eq (lexemes : List Lexeme) :
    Head.afterStars? lexemes =
      if [.hash].isPrefixOf ((lexemes.dropWhile (·.kind == .star)).map (·.kind)) then
        some (lexemes.dropWhile (·.kind == .star)).tail
      else none := by
  fun_induction Head.afterStars? lexemes with
  | case1 text rest ih => simpa using ih
  | case2 text rest => simp
  | case3 lexemes hstar hhash =>
      cases lexemes with
      | nil => rfl
      | cons first rest =>
          obtain ⟨kind, text⟩ := first
          cases kind with
          | star => exact absurd rfl (hstar text rest)
          | hash => exact absurd rfl (hhash text rest)
          | _ => rfl

theorem opener?_slash (text : List Char) (tail : List Lexeme) :
    Head.opener? (⟨.slash, text⟩ :: tail) =
      if tail.takeWhile (·.kind == .star) ≠ [] ∧
          [.hash].isPrefixOf ((tail.dropWhile (·.kind == .star)).map (·.kind)) then
        some (.block, (tail.dropWhile (·.kind == .star)).tail)
      else none := by
  cases tail with
  | nil => rfl
  | cons first rest =>
      obtain ⟨kind, run⟩ := first
      cases kind with
      | star =>
          rw [Head.opener?, afterStars?_eq]
          simp only [List.takeWhile_cons, List.dropWhile_cons, beq_self_eq_true, if_true]
          split <;> simp_all
      | _ => rfl

theorem exists_of_isPrefixOf {kinds : List Lexeme.Kind} {lexemes : List Lexeme}
    (h : kinds.isPrefixOf (lexemes.map (·.kind))) :
    ∃ signs behind, lexemes = signs ++ behind ∧ signs.map (·.kind) = kinds := by
  obtain ⟨others, hkinds⟩ := List.isPrefixOf_iff_prefix.mp h
  obtain ⟨signs, behind, hlexemes, hsigns, -⟩ := List.append_eq_map_iff.mp hkinds
  exact ⟨signs, behind, hlexemes, hsigns⟩

theorem opener?_of_not_slash {lexemes : List Lexeme}
    (h : [.slash].isPrefixOf (lexemes.map (·.kind)) = false) :
    Head.opener? lexemes =
      if [.lessThan, .bang, .dash, .dash, .hash].isPrefixOf (lexemes.map (·.kind)) then
        some (.markup, lexemes.drop 5)
      else none := by
  fun_cases Head.opener? lexemes with
  | case1 => simp at h
  | case2 => simp
  | case3 lexemes hblock hmarkup =>
      rw [if_neg]
      intro hstand
      obtain ⟨signs, behind, rfl, hsigns⟩ := exists_of_isPrefixOf hstand
      simp only [List.map_eq_cons_iff, List.map_eq_nil_iff] at hsigns
      obtain ⟨⟨_, _⟩, _, rfl, rfl, ⟨_, _⟩, _, rfl, rfl, ⟨_, _⟩, _, rfl, rfl, ⟨_, _⟩, _, rfl, rfl,
        ⟨_, _⟩, _, rfl, rfl, rfl⟩ := hsigns
      exact hmarkup _ _ _ _ _ _ rfl

def startOf (stop : Nat) (lexemes : List Lexeme) : Nat :=
  stop - byteLength (Lexeme.textOf lexemes)

section Row

variable {start stop : Nat} {lexemes earlier : List Lexeme}

theorem exists_item_eq {front behind : List Lexeme} {index : Nat}
    (hlexemes : lexemes = front ++ behind)
    (hstop : stop = start + byteLength (Lexeme.textOf lexemes))
    (hindex : front.length = index + 1) :
    ∃ spot, item (row start lexemes) index = .ok spot ∧ spot.stop = startOf stop behind := by
  rcases List.eq_nil_or_concat front with rfl | ⟨init, last, rfl⟩
  · contradiction
  · rw [List.length_concat] at hindex
    have hsplit : lexemes = init ++ last :: behind := by simp [hlexemes]
    rw [← Nat.succ.inj hindex, hstop, hsplit]
    refine ⟨_, item_row, ?_⟩
    simp only [startOf, Lexeme.textOf, List.flatMap_append, List.flatMap_cons, List.flatMap_nil,
      List.append_nil, byteLength_append]
    omega

theorem openerAt_slash {tail : List Lexeme} {text : List Char}
    (hlexemes : lexemes = earlier ++ ⟨.slash, text⟩ :: tail)
    (hstop : stop = start + byteLength (Lexeme.textOf lexemes)) :
    openerAt (row start lexemes) earlier.length =
      .ok ((Head.opener? (⟨.slash, text⟩ :: tail)).map
        fun (style, behind) => (style, startOf stop behind)) := by
  rw [opener?_slash]
  obtain ⟨stars, hstars⟩ : ∃ stars, stars = tail.takeWhile (·.kind == .star) := ⟨_, rfl⟩
  obtain ⟨others, hothers⟩ : ∃ others, others = tail.dropWhile (·.kind == .star) := ⟨_, rfl⟩
  have hsplit : lexemes = earlier ++ (⟨.slash, text⟩ :: stars ++ others) := by
    rw [hlexemes, hstars, hothers, List.cons_append, List.takeWhile_append_dropWhile]
  have hslash : stand [.slash] (row start lexemes) earlier.length := by
    rw [stand_row _ hlexemes rfl]
    simp
  have hfind : ((row start lexemes).drop (earlier.length + 1)).findIdx (·.kind != .star) =
      stars.length := by
    rw [← List.drop_drop, hlexemes, drop_row, row_cons, List.drop_one, List.tail_cons,
      findIdx_row, hstars]
  have hhash : stand [.hash] (row start lexemes) (earlier.length + 1 + stars.length) =
      [.hash].isPrefixOf (others.map (·.kind)) := by
    rw [← List.append_assoc] at hsplit
    apply stand_row _ hsplit
    simp only [List.length_append, List.length_cons]
    omega
  simp only [openerAt, hslash, if_true, hfind, hhash, ← hstars, ← hothers]
  by_cases hopens : stars ≠ [] ∧ [.hash].isPrefixOf (others.map (·.kind))
  · have hpositive := List.length_pos_iff.mpr hopens.1
    rw [if_pos hopens, if_pos (by rw [hopens.2]; simpa using hpositive)]
    obtain ⟨signs, behind, rfl, hkinds⟩ := exists_of_isPrefixOf hopens.2
    have hlength : signs.length = 1 := by simpa using congrArg List.length hkinds
    rw [← List.append_assoc, ← List.append_assoc] at hsplit
    obtain ⟨spot, hitem, hspot⟩ := exists_item_eq hsplit hstop (by
      simp only [List.length_append, List.length_cons, hlength]
      omega : _ = earlier.length + 1 + stars.length + 1)
    rw [hitem, ok_bind, hspot, ← List.drop_one, List.drop_left' hlength]
    rfl
  · rw [if_neg hopens, if_neg]
    · rfl
    · simpa [List.length_pos_iff] using hopens

theorem openerAt_row {rest : List Lexeme} (hlexemes : lexemes = earlier ++ rest)
    (hstop : stop = start + byteLength (Lexeme.textOf lexemes)) :
    openerAt (row start lexemes) earlier.length =
      .ok ((Head.opener? rest).map fun (style, behind) => (style, startOf stop behind)) := by
  cases hslash : [Lexeme.Kind.slash].isPrefixOf (rest.map (·.kind)) with
  | true =>
      obtain ⟨signs, tail, rfl, hkinds⟩ := exists_of_isPrefixOf hslash
      obtain ⟨⟨_, text⟩, _, rfl, rfl, hnil⟩ := List.map_eq_cons_iff.mp hkinds
      rw [List.map_eq_nil_iff.mp hnil] at hlexemes ⊢
      exact openerAt_slash hlexemes hstop
  | false =>
      have hother : openerAt (row start lexemes) earlier.length =
          if [.lessThan, .bang, .dash, .dash, .hash].isPrefixOf (rest.map (·.kind)) then do
            return some (.markup, (← item (row start lexemes) (earlier.length + 4)).stop)
          else return none := by
        rw [openerAt, stand_row _ hlexemes rfl, stand_row _ hlexemes rfl, hslash, if_neg (by simp)]
      rw [hother, opener?_of_not_slash hslash]
      split
      · rename_i hsigns
        obtain ⟨signs, behind, rfl, hkinds⟩ := exists_of_isPrefixOf hsigns
        have hlength : signs.length = 5 := by simpa using congrArg List.length hkinds
        rw [← List.append_assoc] at hlexemes
        obtain ⟨spot, hitem, hspot⟩ := exists_item_eq hlexemes hstop (by
          rw [List.length_append, hlength] : _ = earlier.length + 4 + 1)
        rw [hitem, ok_bind, hspot, List.drop_left' hlength]
        rfl
      · rfl

end Row

/-! ## Heads -/

theorem keyword?_ofText (tail : List Char) :
    (Head.keyword? (Lexeme.ofText tail)).map (fun (kind, body) => (kind, Lexeme.textOf body)) =
      match Directive.Kind.ofKeyword? (String.ofList (tail.takeWhile Char.isAlpha)),
        (tail.dropWhile Char.isAlpha).head?.any isNameChar with
      | some kind, false => some (kind, tail.dropWhile Char.isAlpha)
      | _, _ => none := by
  cases hkeyword : Head.keyword? (Lexeme.ofText tail) with
  | some found =>
      obtain ⟨kind, body⟩ := found
      obtain ⟨keyword, rfl, hmem, hends⟩ := Head.keyword?_sound hkeyword
      have hletters := (Directive.isAlpha_of_mem_keywords hmem).2
      have hstop : ∀ char ∈ (Lexeme.textOf body).head?, char.isAlpha = false :=
        fun char hchar => Directive.isAlpha_eq_false (hends char hchar)
      rw [takeWhile_append_eq hletters hstop,
        dropWhile_append_eq hletters hstop, String.ofList_toList,
        Directive.Kind.ofKeyword?_eq_some_iff.mpr hmem, (Option.any_eq_false _ _).mpr hends]
      rfl
  | none =>
      split
      · rename_i kind hkind hnext
        obtain ⟨body, hfound, -⟩ := Head.keyword?_complete
          (Directive.Kind.ofKeyword?_eq_some_iff.mp hkind) ((Option.any_eq_false _ _).mp hnext)
        rw [String.toList_ofList, List.takeWhile_append_dropWhile, hkeyword] at hfound
        contradiction
      · rfl

theorem keywordAt_eq {source tail : List Char} {stop hashStop : Nat} (style : Style)
    (h : IsSlice source hashStop stop tail) :
    keywordAt source stop style hashStop =
      .ok ((Head.keyword? (Lexeme.ofText tail)).map
        fun (kind, body) => ⟨style, kind, startOf stop body⟩) := by
  obtain ⟨hletters, hbehind⟩ := IsSlice.takeWhile Char.isAlpha tail
  have hkeyword := keyword?_ofText tail
  simp only [keywordAt, slice_eq_ok h, slice_eq_ok hletters, slice_eq_ok hbehind, ok_bind]
  split at hkeyword
  · rename_i kind hkind hnext
    obtain ⟨⟨found, body⟩, hfound, hpair⟩ := Option.map_eq_some_iff.mp hkeyword
    obtain ⟨rfl, hbody⟩ := Prod.mk.inj hpair
    obtain ⟨-, -, -, -, hstop⟩ := h
    obtain ⟨-, -, -, -, hsize⟩ := hbehind
    have hstart : hashStop + byteLength (tail.takeWhile Char.isAlpha) = startOf stop body := by
      rw [startOf, hbody]
      omega
    rw [hfound, hstart]
    rfl
  · rw [Option.map_eq_none_iff.mp hkeyword]
    rfl

def Found.ofHead (stop : Nat) (head : Head) : Found :=
  ⟨head.style, head.kind, startOf stop head.body⟩

theorem isSlice_startOf {source first : List Char} {start stop : Nat} {lexemes : List Lexeme}
    (h : IsSlice source start stop (first ++ Lexeme.textOf lexemes)) :
    IsSlice source (startOf stop lexemes) stop (Lexeme.textOf lexemes) := by
  have hslice := h.drop
  obtain ⟨-, -, -, -, hstop⟩ := h
  rw [byteLength_append] at hstop
  have hstart : start + byteLength first = startOf stop lexemes := by
    rw [startOf]
    omega
  rwa [hstart] at hslice

theorem headAt_ofLine {source : List Char} {line : Line} (hline : line ∈ Line.ofText source)
    {earlier rest : List Lexeme} (hsplit : line.lexemes = earlier ++ rest) :
    headAt source (Extent.ofLine line) earlier.length =
      .ok ((Head.here? rest).map (Found.ofHead line.stop)) := by
  have hopener : openerAt (Extent.ofLine line).spots earlier.length =
      .ok ((Head.opener? rest).map fun (style, behind) => (style, startOf line.stop behind)) :=
    openerAt_row hsplit rfl
  rw [headAt, hopener, ok_bind, Head.here?]
  cases hrest : Head.opener? rest with
  | none => rfl
  | some found =>
      obtain ⟨style, behind⟩ := found
      have hlexemes := (Line.lexemes_eq_of_mem hline).1
      rw [hsplit] at hlexemes
      rw [Lexeme.eq_ofText_of_append hlexemes.symm] at hrest
      obtain ⟨opener, tail, htail, -, rfl⟩ := Head.opener?_sound hrest
      have htext : line.text = (Lexeme.textOf earlier ++ opener) ++
          Lexeme.textOf (Lexeme.ofText tail) := by
        rw [Line.text, hsplit, Lexeme.textOf_append, htail, Lexeme.textOf_ofText,
          List.append_assoc]
      have hslice := isSlice_of_mem hline
      rw [htext] at hslice
      have hbehind := isSlice_startOf hslice
      rw [Lexeme.textOf_ofText] at hbehind
      refine (keywordAt_eq style hbehind).trans ?_
      cases hkeyword : Head.keyword? (Lexeme.ofText tail) <;> simp [hkeyword, Found.ofHead]

theorem firstFrom_here? (stop start : Nat) (lexemes : List Lexeme) :
    firstFrom (fun _ rest => (Head.here? rest).map (Found.ofHead stop)) start lexemes =
      (Head.find? lexemes).map (Found.ofHead stop) := by
  induction lexemes generalizing start with
  | nil => rfl
  | cons lexeme rest ih =>
      rw [firstFrom, ih, Head.find?]
      cases Head.here? (lexeme :: rest) <;> rfl

theorem findHead_ofLine {source : List Char} {line : Line} (hline : line ∈ Line.ofText source) :
    findHead source (Extent.ofLine line) =
      .ok ((Head.find? line.lexemes).map (Found.ofHead line.stop)) := by
  rw [← firstFrom_here? line.stop line.start, findHead]
  have hlength : (Extent.ofLine line).spots.length = line.lexemes.length :=
    length_row line.start line.lexemes
  rw [hlength]
  apply findSomeM?_range_eq
  intro before lexeme rest hsplit
  exact headAt_ofLine hline hsplit

/-! ## Closers -/

def closerHere (style : Style) (bodyStart start : Nat) (lexemes : List Lexeme) : Option Nat :=
  if bodyStart ≤ start && style.closer.isPrefixOf (lexemes.map (·.kind)) then some start else none

theorem closerOn_ofLine (style : Style) (bodyStart : Nat) (line : Line) :
    closerOn style bodyStart (Extent.ofLine line) =
      .ok (firstFrom (closerHere style bodyStart) line.start line.lexemes) := by
  have hlength : (Extent.ofLine line).spots.length = line.lexemes.length :=
    length_row line.start line.lexemes
  rw [closerOn, hlength]
  apply findSomeM?_range_eq
  intro before lexeme rest hsplit
  rw [closerAt, Extent.ofLine, stand_row _ hsplit rfl, hsplit, item_row, ok_bind, closerHere]
  split <;> rfl

theorem firstFrom_closerHere {style : Style} {bodyStart start : Nat} (h : bodyStart ≤ start)
    (lexemes : List Lexeme) :
    firstFrom (closerHere style bodyStart) start lexemes =
      (style.beforeCloser? lexemes).map fun inner => start + byteLength (Lexeme.textOf inner) := by
  induction lexemes generalizing start with
  | nil => rfl
  | cons lexeme rest ih =>
      rw [firstFrom, closerHere, ih (by omega), Style.beforeCloser?]
      split
      · simp_all [Lexeme.textOf]
      · simp_all [Lexeme.textOf, Function.comp_def, Nat.add_assoc]

theorem firstFrom_closerHere_append {style : Style} {bodyStart start : Nat} {init : List Lexeme}
    (h : start + byteLength (Lexeme.textOf init) < bodyStart) (word : Lexeme)
    (rest : List Lexeme) :
    firstFrom (closerHere style bodyStart) start (init ++ word :: rest) =
      firstFrom (closerHere style bodyStart)
        (start + byteLength (Lexeme.textOf init) + byteLength word.text) rest := by
  induction init generalizing start with
  | nil =>
      rw [List.nil_append, firstFrom, closerHere, if_neg]
      · rfl
      · simp_all [Lexeme.textOf]
  | cons lexeme init ih =>
      simp only [Lexeme.textOf, List.flatMap_cons, byteLength_append] at h
      rw [List.cons_append, firstFrom, closerHere, if_neg (by simp; omega),
        ih (by simp only [Lexeme.textOf]; omega)]
      simp [Lexeme.textOf, Nat.add_assoc]

theorem afterStars?_isSuffix {lexemes behind : List Lexeme}
    (h : Head.afterStars? lexemes = some behind) : behind <:+ lexemes := by
  fun_induction Head.afterStars? lexemes with
  | case1 text rest ih => exact (ih h).trans (List.suffix_cons _ rest)
  | case2 =>
      cases h
      exact List.suffix_cons _ _
  | case3 => contradiction

theorem opener?_isSuffix {lexemes behind : List Lexeme} {style : Style}
    (h : Head.opener? lexemes = some (style, behind)) : behind <:+ lexemes := by
  unfold Head.opener? at h
  split at h
  · obtain ⟨found, hfound, hresult⟩ := Option.map_eq_some_iff.mp h
    cases hresult
    exact (afterStars?_isSuffix hfound).trans (List.suffix_append [_, _] _)
  · cases h
    exact List.suffix_append [_, _, _, _, _] _
  · contradiction

theorem exists_of_keyword? {lexemes body : List Lexeme} {kind : Directive.Kind}
    (h : Head.keyword? lexemes = some (kind, body)) :
    ∃ word tail others, word ≠ [] ∧ lexemes = ⟨.text, word ++ tail⟩ :: others ∧
      body = ⟨.text, tail⟩ :: others := by
  unfold Head.keyword? at h
  split at h
  · rename_i word others
    dsimp only at h
    split at h
    · contradiction
    · obtain ⟨found, hfound, hresult⟩ := Option.map_eq_some_iff.mp h
      cases hresult
      refine ⟨word.takeWhile Char.isAlpha, _, others, ?_, ?_, rfl⟩
      · intro hnil
        rw [hnil] at hfound
        contradiction
      · rw [List.takeWhile_append_dropWhile]
  · contradiction

/-- The body of a head is what is left of the lexemes of its line behind a keyword, which is
not empty. -/
theorem exists_of_find? {lexemes : List Lexeme} {head : Head}
    (h : Head.find? lexemes = some head) :
    ∃ init word tail others, word ≠ [] ∧ lexemes = init ++ ⟨.text, word ++ tail⟩ :: others ∧
      head.body = ⟨.text, tail⟩ :: others := by
  induction lexemes with
  | nil => contradiction
  | cons lexeme rest ih =>
      rw [Head.find?] at h
      cases hhere : Head.here? (lexeme :: rest) with
      | some found =>
          rw [hhere] at h
          cases h
          obtain ⟨⟨style, behind⟩, hopener, hbehind⟩ := Option.bind_eq_some_iff.mp hhere
          obtain ⟨⟨kind, body⟩, hkeyword, hhead⟩ := Option.bind_eq_some_iff.mp hbehind
          cases hhead
          obtain ⟨init, hinit⟩ := opener?_isSuffix hopener
          obtain ⟨word, tail, others, hword, rfl, rfl⟩ := exists_of_keyword? hkeyword
          exact ⟨init, word, tail, others, hword, hinit.symm, rfl⟩
      | none =>
          rw [hhere] at h
          obtain ⟨init, word, tail, others, hword, rfl, hbody⟩ := ih h
          exact ⟨lexeme :: init, word, tail, others, hword, rfl, hbody⟩

theorem closerOn_headLine {line : Line} {head : Head}
    (h : Head.find? line.lexemes = some head) (style : Style) :
    closerOn style (startOf line.stop head.body) (Extent.ofLine line) =
      .ok ((style.beforeCloser? head.body).map fun inner =>
        startOf line.stop head.body + byteLength (Lexeme.textOf inner)) := by
  obtain ⟨init, word, tail, others, hword, hlexemes, hbody⟩ := exists_of_find? h
  have hpositive := byteLength_pos hword
  have hstart : startOf line.stop head.body =
      line.start + byteLength (Lexeme.textOf init) + byteLength word := by
    rw [startOf, Line.stop, Line.text, hlexemes, hbody]
    simp only [Lexeme.textOf, List.flatMap_append, List.flatMap_cons, byteLength_append]
    omega
  rw [closerOn_ofLine, hlexemes, firstFrom_closerHere_append (by omega),
    firstFrom_closerHere (by rw [byteLength_append]; omega), hbody,
    Style.beforeCloser?_of_plain style (by simp), ← hbody, hstart]
  simp [Function.comp_def, Lexeme.textOf, Nat.add_assoc]

theorem closerOn_below {line : Line} {bodyStart : Nat} (h : bodyStart ≤ line.start)
    (style : Style) :
    closerOn style bodyStart (Extent.ofLine line) =
      .ok ((style.beforeCloser? line.lexemes).map fun inner =>
        line.start + byteLength (Lexeme.textOf inner)) := by
  rw [closerOn_ofLine, firstFrom_closerHere h]

end GuardedText.Positions
