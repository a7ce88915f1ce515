import GuardedText.Proofs.Text.Runs

/-!
# JSON texts

The grammar of JSON, as a relation between a text, the value that it begins with and what
is left behind that value.  It is the whole of JSON: all blanks, all escapes, also those of
two code units, and all numbers.  What a number is worth is left open, so a number is kept
as it is written.  A text has at most one value.
-/

namespace GuardedText

inductive Json where
  | null
  | bool (value : Bool)
  | number (literal : List Char)
  | string (value : String)
  | array (items : List Json)
  | object (members : List (String × Json))

namespace Json

def isBlank (char : Char) : Bool :=
  char == ' ' || char == '\t' || char == '\n' || char == '\r'

def Gap (text rest : List Char) : Prop :=
  ∃ blanks, text = blanks ++ rest ∧ ∀ char ∈ blanks, isBlank char = true

/-! ## Numbers -/

def IsDigits (text : List Char) : Prop :=
  text ≠ [] ∧ ∀ char ∈ text, char.isDigit = true

def IsWhole (text : List Char) : Prop :=
  IsDigits text ∧ (text.head? = some '0' → text = ['0'])

def IsFraction (text : List Char) : Prop :=
  text = [] ∨ ∃ digits, text = '.' :: digits ∧ IsDigits digits

def IsExponent (text : List Char) : Prop :=
  text = [] ∨ ∃ mark sign digits, text = mark :: (sign ++ digits) ∧
    (mark = 'e' ∨ mark = 'E') ∧ (sign = [] ∨ sign = ['+'] ∨ sign = ['-']) ∧ IsDigits digits

def IsNumber (text : List Char) : Prop :=
  ∃ sign whole fraction exponent, text = sign ++ (whole ++ (fraction ++ exponent)) ∧
    (sign = [] ∨ sign = ['-']) ∧ IsWhole whole ∧ IsFraction fraction ∧ IsExponent exponent

def isNumberChar (char : Char) : Bool :=
  char.isDigit || char == '-' || char == '+' || char == '.' || char == 'e' || char == 'E'

def NumberEnds (text : List Char) : Prop :=
  ∀ char ∈ text.head?, isNumberChar char = false

/-! ## Strings -/

def escaped? : Char → Option Char
  | '"' => some '"'
  | '\\' => some '\\'
  | '/' => some '/'
  | 'b' => some '\x08'
  | 'f' => some '\x0c'
  | 'n' => some '\n'
  | 'r' => some '\r'
  | 't' => some '\t'
  | _ => none

def hexNumber? (digits : List Char) : Option Nat := do
  let values ← digits.mapM fun char => "0123456789abcdef".toList.idxOf? char.toLower
  return values.foldl (fun value digit => 16 * value + digit) 0

inductive ReadsChar : List Char → Char → List Char → Prop
  | plain {char : Char} (rest : List Char) (hquote : char ≠ '"') (hbackslash : char ≠ '\\')
      (hcontrol : 0x20 ≤ char.toNat) : ReadsChar (char :: rest) char rest
  | escaped {letter char : Char} (rest : List Char) (h : escaped? letter = some char) :
      ReadsChar ('\\' :: letter :: rest) char rest
  | code {digits : List Char} {code : Nat} (rest : List Char) (four : digits.length = 4)
      (h : hexNumber? digits = some code) (valid : code.isValidChar) :
      ReadsChar ('\\' :: 'u' :: (digits ++ rest)) (Char.ofNat code) rest
  /-- A character beyond U+FFFF takes two code units. -/
  | pair {first second : List Char} {high low : Nat} (rest : List Char)
      (firstFour : first.length = 4) (secondFour : second.length = 4)
      (hhigh : hexNumber? first = some high) (highRange : 0xd800 ≤ high ∧ high < 0xdc00)
      (hlow : hexNumber? second = some low) (lowRange : 0xdc00 ≤ low ∧ low < 0xe000) :
      ReadsChar ('\\' :: 'u' :: (first ++ '\\' :: 'u' :: (second ++ rest)))
        (Char.ofNat (0x10000 + 0x400 * (high - 0xd800) + (low - 0xdc00))) rest

inductive Spells : List Char → List Char → List Char → Prop
  | nil (rest : List Char) : Spells ('"' :: rest) [] rest
  | cons {text later rest : List Char} {char : Char} {value : List Char}
      (first : ReadsChar text char later) (others : Spells later value rest) :
      Spells text (char :: value) rest

/-! ## Values -/

inductive Row {α : Type} (Element : List Char → α → List Char → Prop) (closer : Char) :
    List Char → List α → List Char → Prop
  | last {text later rest : List Char} {element : α} (first : Element text element later)
      (ends : Gap later (closer :: rest)) : Row Element closer text [element] rest
  | more {text later next rest : List Char} {element : α} {elements : List α}
      (first : Element text element later) (goesOn : Gap later (',' :: next))
      (others : Row Element closer next elements rest) :
      Row Element closer text (element :: elements) rest

mutual

/-- The text begins with a form of the value, and the rest stands behind it. -/
inductive Reads : List Char → Json → List Char → Prop
  | null (rest : List Char) : Reads ("null".toList ++ rest) .null rest
  | isTrue (rest : List Char) : Reads ("true".toList ++ rest) (.bool true) rest
  | isFalse (rest : List Char) : Reads ("false".toList ++ rest) (.bool false) rest
  | number {literal rest : List Char} (h : IsNumber literal) (ends : NumberEnds rest) :
      Reads (literal ++ rest) (.number literal) rest
  | string {text value rest : List Char} (h : Spells text value rest) :
      Reads ('"' :: text) (.string (String.ofList value)) rest
  | emptyArray {text rest : List Char} (h : Gap text (']' :: rest)) :
      Reads ('[' :: text) (.array []) rest
  | array {text rest : List Char} {items : List Json} (h : Row ReadsItem ']' text items rest) :
      Reads ('[' :: text) (.array items) rest
  | emptyObject {text rest : List Char} (h : Gap text ('\x7d' :: rest)) :
      Reads ('\x7b' :: text) (.object []) rest
  | object {text rest : List Char} {members : List (String × Json)}
      (h : Row ReadsMember '\x7d' text members rest) :
      Reads ('\x7b' :: text) (.object members) rest

inductive ReadsItem : List Char → Json → List Char → Prop
  | mk {text start rest : List Char} {value : Json} (gap : Gap text start)
      (h : Reads start value rest) : ReadsItem text value rest

inductive ReadsMember : List Char → String × Json → List Char → Prop
  | mk {text key name later behind rest : List Char} {value : Json}
      (gap : Gap text ('"' :: key)) (hname : Spells key name later)
      (colon : Gap later (':' :: behind)) (hvalue : ReadsItem behind value rest) :
      ReadsMember text (String.ofList name, value) rest

end

/-- The text is a JSON text and stands for the value. -/
def IsText (text : List Char) (value : Json) : Prop :=
  ∃ later, ReadsItem text value later ∧ Gap later []

/-! ## One value for each text -/

def Solid (text : List Char) : Prop :=
  ∀ char ∈ text.head?, isBlank char = false

theorem Gap.unique {text rest later : List Char} (h : Gap text rest) (h' : Gap text later)
    (hrest : Solid rest) (hlater : Solid later) : rest = later := by
  obtain ⟨blanks, rfl, hblanks⟩ := h
  obtain ⟨others, hsame, hothers⟩ := h'
  exact (Text.run_unique hsame hblanks hothers hrest hlater).2

theorem Gap.cons_inj {text rest later : List Char} {char other : Char}
    (h : Gap text (char :: rest)) (h' : Gap text (other :: later))
    (hchar : isBlank char = false) (hother : isBlank other = false) :
    char = other ∧ rest = later := by
  have hsame := h.unique h' (by simpa [Solid] using hchar) (by simpa [Solid] using hother)
  exact List.cons.inj hsame

theorem units_inj {first second rest later : List Char} (hfirst : first.length = 4)
    (hsecond : second.length = 4)
    (h : '\\' :: 'u' :: (first ++ rest) = '\\' :: 'u' :: (second ++ later)) :
    first = second ∧ rest = later := by
  rw [List.cons.injEq, List.cons.injEq] at h
  exact List.append_inj h.2.2 (hfirst.trans hsecond.symm)

theorem not_isValidChar {code : Nat} (h : 0xd800 ≤ code ∧ code < 0xdc00) :
    ¬code.isValidChar := by
  rintro (hlow | hhigh) <;> omega

theorem ReadsChar.unique {text rest later : List Char} {char other : Char}
    (h : ReadsChar text char rest) (h' : ReadsChar text other later) :
    char = other ∧ rest = later := by
  generalize hsame : text = written at h'
  cases h with
  | plain rest hquote hbackslash hcontrol =>
      cases h' with
      | plain =>
          cases hsame
          exact ⟨rfl, rfl⟩
      | escaped | code | pair => exact absurd (List.cons.inj hsame).1 hbackslash
  | escaped rest hletter =>
      cases h' with
      | plain _ _ hbackslash => exact absurd (List.cons.inj hsame).1.symm hbackslash
      | escaped later hother =>
          cases hsame
          exact ⟨Option.some.inj (hletter.symm.trans hother), rfl⟩
      | code | pair =>
          cases hsame
          contradiction
  | code rest four hcode valid =>
      cases h' with
      | plain _ _ hbackslash => exact absurd (List.cons.inj hsame).1.symm hbackslash
      | escaped =>
          cases hsame
          contradiction
      | code later four' hother =>
          obtain ⟨rfl, rfl⟩ := units_inj four four' hsame
          rw [hcode] at hother
          cases hother
          exact ⟨rfl, rfl⟩
      | pair later firstFour _ hhigh highRange =>
          obtain ⟨rfl, -⟩ := units_inj four firstFour hsame
          rw [hcode] at hhigh
          cases hhigh
          exact absurd valid (not_isValidChar highRange)
  | pair rest firstFour secondFour hhigh highRange hlow lowRange =>
      cases h' with
      | plain _ _ hbackslash => exact absurd (List.cons.inj hsame).1.symm hbackslash
      | escaped =>
          cases hsame
          contradiction
      | code later four hcode valid =>
          obtain ⟨rfl, -⟩ := units_inj firstFour four hsame
          rw [hhigh] at hcode
          cases hcode
          exact absurd valid (not_isValidChar highRange)
      | pair later firstFour' secondFour' hhigh' _ hlow' _ =>
          obtain ⟨rfl, hsecond⟩ := units_inj firstFour firstFour' hsame
          obtain ⟨rfl, rfl⟩ := units_inj secondFour secondFour' hsecond
          rw [hhigh] at hhigh'
          rw [hlow] at hlow'
          cases hhigh'
          cases hlow'
          exact ⟨rfl, rfl⟩

theorem ReadsChar.ne_quote {text rest : List Char} {char : Char}
    (h : ReadsChar ('"' :: text) char rest) : False := by
  generalize hsame : '"' :: text = written at h
  cases h with
  | plain _ hquote => exact hquote (List.cons.inj hsame).1.symm
  | escaped | code | pair => simp at hsame

theorem Spells.unique {text value other rest later : List Char} (h : Spells text value rest)
    (h' : Spells text other later) : value = other ∧ rest = later := by
  induction h generalizing other later with
  | nil rest =>
      cases h' with
      | nil => exact ⟨rfl, rfl⟩
      | cons first others => exact first.ne_quote.elim
  | cons first others ih =>
      cases h' with
      | nil => exact first.ne_quote.elim
      | cons first' others' =>
          obtain ⟨rfl, rfl⟩ := first.unique first'
          obtain ⟨rfl, rfl⟩ := ih others'
          exact ⟨rfl, rfl⟩

/-! ### Numbers -/

theorem isNumberChar_of_isDigit {char : Char} (h : char.isDigit = true) :
    isNumberChar char = true := by
  simp [isNumberChar, h]

theorem IsNumber.isNumberChar {literal : List Char} (h : IsNumber literal) :
    ∀ char ∈ literal, isNumberChar char = true := by
  obtain ⟨sign, whole, fraction, exponent, rfl, hsign, hwhole, hfraction, hexponent⟩ := h
  have digits {text : List Char} (htext : IsDigits text) :
      ∀ char ∈ text, Json.isNumberChar char = true :=
    fun char hchar => isNumberChar_of_isDigit (htext.2 char hchar)
  simp only [List.forall_mem_append]
  refine ⟨?_, digits hwhole.1, ?_, ?_⟩
  · rcases hsign with rfl | rfl <;> simp [Json.isNumberChar]
  · rcases hfraction with rfl | ⟨decimals, rfl, hdecimals⟩
    · simp
    · exact List.forall_mem_cons.mpr ⟨rfl, digits hdecimals⟩
  · rcases hexponent with rfl | ⟨mark, sign, power, rfl, hmark, hsign, hpower⟩
    · simp
    · refine List.forall_mem_cons.mpr ⟨?_, List.forall_mem_append.mpr ⟨?_, digits hpower⟩⟩
      · rcases hmark with rfl | rfl <;> rfl
      · rcases hsign with rfl | rfl | rfl <;> simp [Json.isNumberChar]

theorem IsNumber.exists_cons {literal : List Char} (h : IsNumber literal) :
    ∃ first others, literal = first :: others ∧ (first = '-' ∨ first.isDigit = true) := by
  obtain ⟨sign, whole, fraction, exponent, rfl, hsign, hwhole, -, -⟩ := h
  obtain ⟨⟨hsome, hdigits⟩, -⟩ := hwhole
  cases whole with
  | nil => exact absurd rfl hsome
  | cons digit others =>
      rcases hsign with rfl | rfl
      · exact ⟨digit, _, rfl, .inr (hdigits digit List.mem_cons_self)⟩
      · exact ⟨'-', _, rfl, .inl rfl⟩

/-! ### Values -/

/-- How a value goes on behind its first character, which decides what sort it is of. -/
def Continues (first : Char) (text : List Char) (value : Json) (rest : List Char) : Prop :=
  match first with
  | 'n' => text = "ull".toList ++ rest ∧ value = .null
  | 't' => text = "rue".toList ++ rest ∧ value = .bool true
  | 'f' => text = "alse".toList ++ rest ∧ value = .bool false
  | '"' => ∃ name, value = .string (String.ofList name) ∧ Spells text name rest
  | '[' => (value = .array [] ∧ Gap text (']' :: rest)) ∨
      ∃ items, value = .array items ∧ Row ReadsItem ']' text items rest
  | '\x7b' => (value = .object [] ∧ Gap text ('\x7d' :: rest)) ∨
      ∃ members, value = .object members ∧ Row ReadsMember '\x7d' text members rest
  | _ => ∃ literal, value = .number literal ∧ first :: text = literal ++ rest ∧
      IsNumber literal ∧ NumberEnds rest

theorem continues_iff_of_number {first : Char} {text rest : List Char} {value : Json}
    (h : first = '-' ∨ first.isDigit = true) :
    Continues first text value rest ↔ ∃ literal, value = .number literal ∧
      first :: text = literal ++ rest ∧ IsNumber literal ∧ NumberEnds rest := by
  rcases h with rfl | hdigit
  · exact Iff.rfl
  · unfold Continues
    split
    any_goals contradiction
    exact Iff.rfl

theorem Reads.continues {first : Char} {text rest : List Char} {value : Json}
    (h : Reads (first :: text) value rest) : Continues first text value rest := by
  generalize hsame : first :: text = written at h
  cases h with
  | null | isTrue | isFalse =>
      cases hsame
      exact ⟨rfl, rfl⟩
  | number hnumber hends =>
      obtain ⟨digit, digits, rfl, hdigit⟩ := hnumber.exists_cons
      cases hsame
      exact (continues_iff_of_number hdigit).mpr ⟨_, rfl, rfl, hnumber, hends⟩
  | string hspells =>
      cases hsame
      exact ⟨_, rfl, hspells⟩
  | emptyArray hends | emptyObject hends =>
      cases hsame
      exact .inl ⟨rfl, hends⟩
  | array hitems =>
      cases hsame
      exact .inr ⟨_, rfl, hitems⟩
  | object hmembers =>
      cases hsame
      exact .inr ⟨_, rfl, hmembers⟩

theorem isBlank_of_isDigit {char : Char} (h : char.isDigit = true) : isBlank char = false := by
  rw [Bool.eq_false_iff]
  intro hblank
  simp only [isBlank, Bool.or_eq_true, beq_iff_eq] at hblank
  rcases hblank with ((rfl | rfl) | rfl) | rfl <;> contradiction

theorem Reads.solid {text rest : List Char} {value : Json} (h : Reads text value rest) :
    Solid text := by
  cases h with
  | number hnumber =>
      obtain ⟨first, others, rfl, hfirst⟩ := hnumber.exists_cons
      rintro char ⟨⟩
      rcases hfirst with rfl | hdigit
      · rfl
      · exact isBlank_of_isDigit hdigit
  | _ =>
      rintro char ⟨⟩
      rfl

theorem Reads.ne_bracket {text rest : List Char} {first : Char} {value : Json}
    (h : Reads (first :: text) value rest) : first ≠ ']' := by
  rintro rfl
  obtain ⟨literal, -, hliteral, hnumber, -⟩ := h.continues
  obtain ⟨digit, others, rfl, hdigit⟩ := hnumber.exists_cons
  cases hliteral
  simp at hdigit

theorem ReadsItem.not_closed {text rest later : List Char} {value : Json}
    (h : ReadsItem text value rest) : ¬Gap text (']' :: later) := by
  intro hclosed
  cases h with
  | mk gap hvalue =>
      have hbracket : Solid (']' :: later) := by simp [Solid, isBlank]
      cases gap.unique hclosed hvalue.solid hbracket
      exact hvalue.ne_bracket rfl

theorem ReadsMember.not_closed {text rest later : List Char} {member : String × Json}
    (h : ReadsMember text member rest) : ¬Gap text ('\x7d' :: later) := by
  intro hclosed
  cases h with
  | mk gap => exact absurd (gap.cons_inj hclosed rfl rfl).1 (by decide)

section Row

variable {α : Type} {Element : List Char → α → List Char → Prop} {closer : Char}

theorem Row.exists_first {text rest : List Char} {elements : List α}
    (h : Row Element closer text elements rest) :
    ∃ element later, Element text element later := by
  cases h with
  | last first | more first => exact ⟨_, _, first⟩

theorem Row.unique {text rest later : List Char} {elements others : List α}
    (h : Row Element closer text elements rest) (h' : Row Element closer text others later)
    (hblank : isBlank closer = false) (hcomma : closer ≠ ',')
    (hunique : ∀ {text rest later element other}, element ∈ elements →
      Element text element rest → Element text other later → element = other ∧ rest = later) :
    elements = others ∧ rest = later := by
  induction h generalizing others with
  | last first ends =>
      cases h' with
      | last first' ends' =>
          obtain ⟨rfl, rfl⟩ := hunique List.mem_cons_self first first'
          exact ⟨rfl, (ends.cons_inj ends' hblank hblank).2⟩
      | more first' goesOn =>
          obtain ⟨rfl, rfl⟩ := hunique List.mem_cons_self first first'
          exact absurd (ends.cons_inj goesOn hblank rfl).1 hcomma
  | more first goesOn _ ih =>
      cases h' with
      | last first' ends =>
          obtain ⟨rfl, rfl⟩ := hunique List.mem_cons_self first first'
          exact absurd (ends.cons_inj goesOn hblank rfl).1 hcomma
      | more first' goesOn' others' =>
          obtain ⟨rfl, rfl⟩ := hunique List.mem_cons_self first first'
          obtain ⟨-, rfl⟩ := goesOn.cons_inj goesOn' rfl rfl
          obtain ⟨rfl, rfl⟩ := ih others' fun hmem => hunique (List.mem_cons_of_mem _ hmem)
          exact ⟨rfl, rfl⟩

end Row

def Alone (value : Json) : Prop :=
  ∀ {text rest later : List Char} {other : Json}, Reads text value rest →
    Reads text other later → value = other ∧ rest = later

theorem ReadsItem.unique {text rest later : List Char} {value other : Json}
    (h : ReadsItem text value rest) (h' : ReadsItem text other later) (halone : Alone value) :
    value = other ∧ rest = later := by
  cases h with
  | mk gap hvalue =>
      cases h' with
      | mk gap' hother =>
          cases gap.unique gap' hvalue.solid hother.solid
          exact halone hvalue hother

theorem ReadsMember.unique {text rest later : List Char} {member other : String × Json}
    (h : ReadsMember text member rest) (h' : ReadsMember text other later)
    (halone : Alone member.2) : member = other ∧ rest = later := by
  cases h with
  | mk gap hname colon hvalue =>
      cases h' with
      | mk gap' hname' colon' hvalue' =>
          obtain ⟨-, rfl⟩ := gap.cons_inj gap' rfl rfl
          obtain ⟨rfl, rfl⟩ := hname.unique hname'
          obtain ⟨-, rfl⟩ := colon.cons_inj colon' rfl rfl
          obtain ⟨rfl, rfl⟩ := hvalue.unique hvalue' halone
          exact ⟨rfl, rfl⟩

theorem sizeOf_lt_array {item : Json} {items : List Json} (h : item ∈ items) :
    sizeOf item < sizeOf (array items) := by
  have hless := List.sizeOf_lt_of_mem h
  simp only [array.sizeOf_spec]
  omega

theorem sizeOf_lt_object {member : String × Json} {members : List (String × Json)}
    (h : member ∈ members) : sizeOf member.2 < sizeOf (object members) := by
  have hless := List.sizeOf_lt_of_mem h
  obtain ⟨name, value⟩ := member
  simp only [object.sizeOf_spec, Prod.mk.sizeOf_spec] at hless ⊢
  omega

theorem alone (value : Json) : Alone value := by
  induction hsize : sizeOf value using Nat.strongRecOn generalizing value with
  | _ size ih =>
      subst hsize
      intro text rest later other h h'
      cases h with
      | null =>
          have hcontinues : Continues 'n' _ other later := h'.continues
          obtain ⟨hrest, rfl⟩ := hcontinues
          exact ⟨rfl, List.append_cancel_left hrest⟩
      | isTrue =>
          have hcontinues : Continues 't' _ other later := h'.continues
          obtain ⟨hrest, rfl⟩ := hcontinues
          exact ⟨rfl, List.append_cancel_left hrest⟩
      | isFalse =>
          have hcontinues : Continues 'f' _ other later := h'.continues
          obtain ⟨hrest, rfl⟩ := hcontinues
          exact ⟨rfl, List.append_cancel_left hrest⟩
      | number hnumber hends =>
          obtain ⟨digit, digits, rfl, hdigit⟩ := hnumber.exists_cons
          obtain ⟨literal, rfl, hrest, hnumber', hends'⟩ :=
            (continues_iff_of_number hdigit).mp h'.continues
          obtain ⟨rfl, rfl⟩ :=
            Text.run_unique hrest hnumber.isNumberChar hnumber'.isNumberChar hends hends'
          exact ⟨rfl, rfl⟩
      | string hspells =>
          obtain ⟨name, rfl, hspells'⟩ := h'.continues
          obtain ⟨rfl, rfl⟩ := hspells.unique hspells'
          exact ⟨rfl, rfl⟩
      | emptyArray hends =>
          rcases h'.continues with ⟨rfl, hends'⟩ | ⟨items, -, hitems⟩
          · exact ⟨rfl, (hends.cons_inj hends' rfl rfl).2⟩
          · obtain ⟨item, behind, hitem⟩ := hitems.exists_first
            exact absurd hends hitem.not_closed
      | array hitems =>
          rcases h'.continues with ⟨-, hends⟩ | ⟨others, rfl, hitems'⟩
          · obtain ⟨item, behind, hitem⟩ := hitems.exists_first
            exact absurd hends hitem.not_closed
          · obtain ⟨rfl, rfl⟩ := hitems.unique hitems' rfl (by decide)
              fun hmem hitem hitem' =>
                hitem.unique hitem' (ih _ (sizeOf_lt_array hmem) _ rfl)
            exact ⟨rfl, rfl⟩
      | emptyObject hends =>
          rcases h'.continues with ⟨rfl, hends'⟩ | ⟨members, -, hmembers⟩
          · exact ⟨rfl, (hends.cons_inj hends' rfl rfl).2⟩
          · obtain ⟨member, behind, hmember⟩ := hmembers.exists_first
            exact absurd hends hmember.not_closed
      | object hmembers =>
          rcases h'.continues with ⟨-, hends⟩ | ⟨others, rfl, hmembers'⟩
          · obtain ⟨member, behind, hmember⟩ := hmembers.exists_first
            exact absurd hends hmember.not_closed
          · obtain ⟨rfl, rfl⟩ := hmembers.unique hmembers' rfl (by decide)
              fun hmem hmember hmember' =>
                hmember.unique hmember' (ih _ (sizeOf_lt_object hmem) _ rfl)
            exact ⟨rfl, rfl⟩

theorem IsText.unique {text : List Char} {value other : Json} (h : IsText text value)
    (h' : IsText text other) : value = other := by
  obtain ⟨later, hvalue, -⟩ := h
  obtain ⟨later', hother, -⟩ := h'
  exact (hvalue.unique hother (alone value)).1

end Json

end GuardedText
