import GuardedText.JsonValue
import GuardedText.Proofs.Json.Grammar

/-!
# Written values

What is written for a value is a JSON text, at any depth and in front of any rest that does
not go on with a number.  A text has one value only, so what is read is what was written.
-/

namespace GuardedText

mutual

/-- The value that a reader finds. -/
def JsonValue.meaning : JsonValue → Json
  | .null => .null
  | .number value => .number (toString value).toList
  | .string value => .string value
  | .array items => .array (itemsMeaning items)
  | .object fields => .object (fieldsMeaning fields)

def JsonValue.itemsMeaning : List JsonValue → List Json
  | [] => []
  | item :: items => item.meaning :: itemsMeaning items

def JsonValue.fieldsMeaning : List (String × JsonValue) → List (String × Json)
  | [] => []
  | (name, value) :: fields => (name, value.meaning) :: fieldsMeaning fields

end

namespace Json

open JsonValue

theorem Gap.refl (text : List Char) : Gap text text :=
  ⟨[], rfl, by simp⟩

/-! ## Strings -/

theorem hexNumber?_hexDigit {code : Nat} (h : code < 0x20) :
    hexNumber? ['0', '0', hexDigit (code / 16), hexDigit code] = some code := by
  decide +revert

theorem readsChar_escape (char : Char) (rest : List Char) :
    ReadsChar (escape char ++ rest) char rest := by
  unfold escape
  split
  · exact .escaped rest rfl
  · exact .escaped rest rfl
  · exact .escaped rest rfl
  · exact .escaped rest rfl
  · exact .escaped rest rfl
  · exact .escaped rest rfl
  · exact .escaped rest rfl
  next hquote hbackslash _ _ _ _ _ =>
    dsimp only
    split
    next hcontrol =>
      have hcode := ReadsChar.code rest rfl (hexNumber?_hexDigit hcontrol) char.valid
      rwa [Char.ofNat_toNat] at hcode
    next hcontrol => exact .plain rest hquote hbackslash (Nat.le_of_not_lt hcontrol)

theorem spells_flatMap_escape (value rest : List Char) :
    Spells (value.flatMap escape ++ '"' :: rest) value rest := by
  induction value with
  | nil => exact .nil rest
  | cons char value ih =>
      rw [List.flatMap_cons, List.append_assoc]
      exact .cons (readsChar_escape char _) ih

theorem reads_writeString (value : String) (rest : List Char) :
    Reads (writeString value rest) (.string value) rest := by
  have hreads := Reads.string (spells_flatMap_escape value.toList rest)
  rwa [String.ofList_toList] at hreads

/-! ## Numbers -/

theorem digitChar_ne_zero {value : Nat} (hless : value < 10) (h : 0 < value) :
    value.digitChar ≠ '0' := by
  decide +revert

theorem head?_toDigits_ne {value : Nat} (h : 0 < value) :
    (Nat.toDigits 10 value).head? ≠ some '0' := by
  induction value using Nat.strongRecOn with
  | _ value ih =>
      by_cases hless : value < 10
      · simpa [Nat.toDigits_of_lt_base hless] using digitChar_ne_zero hless h
      · have hhead := ih (value / 10) (by omega) (by omega)
        rwa [Nat.toDigits_of_base_le (by decide) (by omega), List.head?_append,
          Option.or_of_isSome (List.isSome_head?.mpr Nat.toDigits_ne_nil)]

theorem isNumber_toString (value : Nat) : IsNumber (toString value).toList := by
  rw [Nat.toString_eq_repr, Nat.toList_repr]
  refine ⟨[], Nat.toDigits 10 value, [], [], by simp, .inl rfl, ⟨⟨Nat.toDigits_ne_nil, ?_⟩, ?_⟩,
    .inl rfl, .inl rfl⟩
  · intro char hmem
    exact Nat.isDigit_of_mem_toDigits (by decide) (by decide) hmem
  · intro hzero
    rcases Nat.eq_zero_or_pos value with rfl | hpositive
    · rfl
    · exact absurd hzero (head?_toDigits_ne hpositive)

/-! ## Values -/

theorem gap_newline (depth : Nat) (rest : List Char) : Gap (newline depth rest) rest := by
  refine ⟨'\n' :: List.replicate (2 * depth) ' ', rfl, ?_⟩
  intro char hmem
  rcases List.mem_cons.mp hmem with rfl | hmem
  · decide
  · rw [List.eq_of_mem_replicate hmem]
    decide

theorem numberEnds_writeItems (depth : Nat) (items : List JsonValue) (rest : List Char) :
    NumberEnds (writeItems depth items rest) := by
  cases items <;> simp [NumberEnds, writeItems, newline, isNumberChar]

theorem numberEnds_writeFields (depth : Nat) (fields : List (String × JsonValue))
    (rest : List Char) : NumberEnds (writeFields depth fields rest) := by
  rcases fields with _ | ⟨⟨name, value⟩, fields⟩ <;>
    simp [NumberEnds, writeFields, newline, isNumberChar]

theorem readsMember_writeString {name : String} {value : Json} {text rest : List Char}
    (depth : Nat) (h : Reads text value rest) :
    ReadsMember (newline depth (writeString name (':' :: ' ' :: text))) (name, value) rest := by
  have hitem : ReadsItem (' ' :: text) value rest := ⟨⟨[' '], rfl, by simp [isBlank]⟩, h⟩
  have hmember := ReadsMember.mk (gap_newline depth _)
    (spells_flatMap_escape name.toList _) (Gap.refl _) hitem
  rwa [String.ofList_toList] at hmember

mutual

theorem reads_write (depth : Nat) (value : JsonValue) {rest : List Char}
    (h : NumberEnds rest) : Reads (value.write depth rest) value.meaning rest := by
  match value with
  | .null => exact .null rest
  | .number value => exact .number (isNumber_toString value) h
  | .string value => exact reads_writeString value rest
  | .array [] => exact .emptyArray (Gap.refl _)
  | .array (item :: items) =>
    have hitem := reads_write (depth + 1) item (numberEnds_writeItems depth items rest)
    exact .array (row_writeItems depth items ⟨gap_newline _ _, hitem⟩)
  | .object [] => exact .emptyObject (Gap.refl _)
  | .object ((_, value) :: fields) =>
    have hvalue := reads_write (depth + 1) value (numberEnds_writeFields depth fields rest)
    exact .object (row_writeFields depth fields (readsMember_writeString _ hvalue))

theorem row_writeItems (depth : Nat) (items : List JsonValue) {first : Json}
    {text rest : List Char} (hfirst : ReadsItem text first (writeItems depth items rest)) :
    Row ReadsItem ']' text (first :: itemsMeaning items) rest := by
  match items with
  | [] => exact .last hfirst (gap_newline depth _)
  | item :: items =>
    have hitem := reads_write (depth + 1) item (numberEnds_writeItems depth items rest)
    exact .more hfirst (Gap.refl _) (row_writeItems depth items ⟨gap_newline _ _, hitem⟩)

theorem row_writeFields (depth : Nat) (fields : List (String × JsonValue))
    {first : String × Json} {text rest : List Char}
    (hfirst : ReadsMember text first (writeFields depth fields rest)) :
    Row ReadsMember '\x7d' text (first :: fieldsMeaning fields) rest := by
  match fields with
  | [] => exact .last hfirst (gap_newline depth _)
  | (_, value) :: fields =>
    have hvalue := reads_write (depth + 1) value (numberEnds_writeFields depth fields rest)
    exact .more hfirst (Gap.refl _)
      (row_writeFields depth fields (readsMember_writeString _ hvalue))

end

theorem isText_pretty (value : JsonValue) : IsText value.pretty.toList value.meaning := by
  have hreads : Reads (value.write 0 []) value.meaning [] :=
    reads_write 0 value (by simp [NumberEnds])
  rw [pretty, String.toList_ofList]
  exact ⟨[], ⟨Gap.refl _, hreads⟩, Gap.refl []⟩

theorem isText_pretty_iff {value : JsonValue} {read : Json} :
    IsText value.pretty.toList read ↔ read = value.meaning := by
  constructor
  · intro h
    exact h.unique (isText_pretty value)
  · rintro rfl
    exact isText_pretty value

end Json

end GuardedText
