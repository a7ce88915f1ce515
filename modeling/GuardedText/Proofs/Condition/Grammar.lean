import GuardedText.Condition.Parser
import GuardedText.Proofs.Condition.Lexing
import GuardedText.Proofs.Run

/-!
# The grammar of conditions

A condition is a chain of `||` over chains of `&&` over operands; an operand is a
symbol, a group in parentheses or an operand behind a prefix operator.  Chains
group to the left.  The reader of conditions accepts the sentences of this grammar
and no others: every state it reaches stands for a beginning that the grammar
allows, and every derivation leads it from an operand that is expected to the
operand it derives.
-/

namespace GuardedText.Condition

/-! ## Derivations -/

inductive Phrase where
  | disjunction
  | conjunction
  | operand

inductive Derives : Phrase → List Token → Condition → Prop
  | symbol (name : String) : Derives .operand [.symbol name] (.symbol name)
  | not {tokens : List Token} {operand : Condition}
      (h : Derives .operand tokens operand) :
      Derives .operand (.bang :: tokens) (.not operand)
  | unsupported {operator : String} {tokens : List Token} {operand : Condition}
      (known : operator ∈ ["-", "+", "~"]) (h : Derives .operand tokens operand) :
      Derives .operand (.operator operator :: tokens) (.unsupported operator operand)
  | group {tokens : List Token} {condition : Condition}
      (h : Derives .disjunction tokens condition) :
      Derives .operand (.openGroup :: tokens ++ [.closeGroup]) condition
  | single {tokens : List Token} {condition : Condition}
      (h : Derives .operand tokens condition) : Derives .conjunction tokens condition
  | and {first second : List Token} {left right : Condition}
      (hleft : Derives .conjunction first left) (hright : Derives .operand second right) :
      Derives .conjunction (first ++ .conjunction :: second) (.and left right)
  | lone {tokens : List Token} {condition : Condition}
      (h : Derives .conjunction tokens condition) : Derives .disjunction tokens condition
  | or {first second : List Token} {left right : Condition}
      (hleft : Derives .disjunction first left)
      (hright : Derives .conjunction second right) :
      Derives .disjunction (first ++ .disjunction :: second) (.or left right)

/-! ## Derivations lead the reader -/

/-- Where the tokens of a phrase lead the reader from a place where the phrase can
stand. -/
def Phrase.Leads : Phrase → List Token → Condition → Prop
  | .operand, tokens, condition => ∀ (level : Level) (outer : List Level),
    tokens.foldlM State.step (.expecting level outer) = .ok (level.supply condition outer)
  | .conjunction, tokens, condition =>
    ∀ (disjunction? : Option Condition) (outer : List Level),
      tokens.foldlM State.step (.expecting ⟨disjunction?, none, []⟩ outer) =
        .ok (.holding disjunction? condition outer)
  | .disjunction, tokens, condition => ∀ outer : List Level,
    ∃ disjunction? conjunction, joinOr disjunction? conjunction = condition ∧
      tokens.foldlM State.step (.expecting .empty outer) =
        .ok (.holding disjunction? conjunction outer)

theorem Derives.leads {phrase : Phrase} {tokens : List Token} {condition : Condition}
    (h : Derives phrase tokens condition) : phrase.Leads tokens condition := by
  induction h with
  | symbol name =>
      intro level outer
      rfl
  | not _ ih =>
      intro level outer
      exact foldlM_cons_eq_ok_iff.mpr ⟨_, rfl, ih _ outer⟩
  | @unsupported operator _ _ known _ ih =>
      intro level outer
      refine foldlM_cons_eq_ok_iff.mpr ⟨.expecting
        { level with unary := .unsupported operator :: level.unary } outer, ?_, ih _ outer⟩
      simp only [State.step, Unary.ofToken?, if_pos known]
  | group _ ih =>
      intro level outer
      obtain ⟨disjunction?, conjunction, rfl, hrun⟩ := ih (level :: outer)
      refine foldlM_cons_eq_ok_iff.mpr ⟨_, rfl, ?_⟩
      exact foldlM_append_eq_ok hrun rfl
  | single _ ih =>
      intro disjunction? outer
      exact ih _ outer
  | and _ _ ihLeft ihRight =>
      intro disjunction? outer
      refine foldlM_append_eq_ok (ihLeft disjunction? outer) ?_
      exact foldlM_cons_eq_ok_iff.mpr ⟨_, rfl, ihRight _ outer⟩
  | @lone _ condition _ ih =>
      intro outer
      exact ⟨none, condition, rfl, ih none outer⟩
  | @or _ _ _ right _ _ ihLeft ihRight =>
      intro outer
      obtain ⟨disjunction?, conjunction, rfl, hrun⟩ := ihLeft outer
      refine ⟨some (joinOr disjunction? conjunction), right, rfl, ?_⟩
      refine foldlM_append_eq_ok hrun ?_
      exact foldlM_cons_eq_ok_iff.mpr ⟨_, rfl, ihRight _ outer⟩

/-! ## What the reader has read -/

inductive ReadBefore (phrase : Phrase) (separator : Token) :
    Option Condition → List Token → Prop
  | none : ReadBefore phrase separator none []
  | some {tokens : List Token} {condition : Condition}
      (h : Derives phrase tokens condition) :
      ReadBefore phrase separator (some condition) (tokens ++ [separator])

inductive ReadUnary : List Unary → List Token → Prop
  | nil : ReadUnary [] []
  | cons {unary : Unary} {others : List Unary} {token : Token} {tokens : List Token}
      (htoken : Unary.ofToken? token = some unary) (h : ReadUnary others tokens) :
      ReadUnary (unary :: others) (tokens ++ [token])

def Level.HasRead (level : Level) (tokens : List Token) : Prop :=
  ∃ first second third, tokens = first ++ (second ++ third) ∧
    ReadBefore .disjunction .disjunction level.disjunction? first ∧
    ReadBefore .conjunction .conjunction level.conjunction? second ∧
    ReadUnary level.unary third

inductive ReadAround : List Level → List Token → Prop
  | nil : ReadAround [] []
  | cons {level : Level} {outer : List Level} {before tokens : List Token}
      (houter : ReadAround outer before) (hlevel : level.HasRead tokens) :
      ReadAround (level :: outer) (before ++ tokens ++ [.openGroup])

def State.HasRead (tokens : List Token) : State → Prop
  | .expecting level outer => ∃ before inside, tokens = before ++ inside ∧
    ReadAround outer before ∧ level.HasRead inside
  | .holding disjunction? conjunction outer => ∃ before first second,
    tokens = before ++ (first ++ second) ∧ ReadAround outer before ∧
      ReadBefore .disjunction .disjunction disjunction? first ∧
      Derives .conjunction second conjunction

theorem ReadBefore.joinOr {disjunction? : Option Condition} {first second : List Token}
    {condition : Condition}
    (h : ReadBefore .disjunction .disjunction disjunction? first)
    (hsecond : Derives .conjunction second condition) :
    Derives .disjunction (first ++ second) (joinOr disjunction? condition) := by
  cases h with
  | none => exact .lone hsecond
  | some h =>
      rw [List.append_assoc]
      exact .or h hsecond

theorem ReadBefore.joinAnd {conjunction? : Option Condition} {first second : List Token}
    {condition : Condition}
    (h : ReadBefore .conjunction .conjunction conjunction? first)
    (hsecond : Derives .operand second condition) :
    Derives .conjunction (first ++ second) (joinAnd conjunction? condition) := by
  cases h with
  | none => exact .single hsecond
  | some h =>
      rw [List.append_assoc]
      exact .and h hsecond

theorem derives_apply {token : Token} {unary : Unary} {tokens : List Token}
    {operand : Condition} (htoken : Unary.ofToken? token = some unary)
    (h : Derives .operand tokens operand) :
    Derives .operand (token :: tokens) (unary.apply operand) := by
  cases token with
  | bang =>
      cases htoken
      exact .not h
  | operator text =>
      simp only [Unary.ofToken?] at htoken
      split at htoken
      · cases htoken
        exact .unsupported (by assumption) h
      · contradiction
  | conjunction | disjunction | openGroup | closeGroup | symbol | number | quoted =>
      contradiction

theorem ReadUnary.derives {unary : List Unary} {tokens rest : List Token}
    {operand : Condition} (h : ReadUnary unary tokens)
    (hrest : Derives .operand rest operand) :
    Derives .operand (tokens ++ rest)
      (unary.foldl (fun inner unary => unary.apply inner) operand) := by
  induction h generalizing rest operand with
  | nil => exact hrest
  | cons htoken _ ih =>
      rw [List.append_assoc]
      exact ih (derives_apply htoken hrest)

theorem Level.HasRead.supply {level : Level} {outer : List Level}
    {before inside rest : List Token} {operand : Condition}
    (houter : ReadAround outer before) (h : level.HasRead inside)
    (hrest : Derives .operand rest operand) :
    (level.supply operand outer).HasRead (before ++ (inside ++ rest)) := by
  obtain ⟨first, second, third, rfl, hfirst, hsecond, hthird⟩ := h
  refine ⟨before, first, second ++ (third ++ rest), by simp, houter, hfirst, ?_⟩
  exact hsecond.joinAnd (hthird.derives hrest)

theorem Level.hasRead_empty : Level.empty.HasRead [] :=
  ⟨[], [], [], rfl, .none, .none, .nil⟩

theorem State.HasRead.step {read : List Token} {state next : State} {token : Token}
    (hread : state.HasRead read) (h : state.step token = .ok next) :
    next.HasRead (read ++ [token]) := by
  unfold State.step at h
  split at h
  · cases h
    obtain ⟨before, inside, rfl, houter, hlevel⟩ := hread
    rw [List.append_assoc]
    exact hlevel.supply houter (.symbol _)
  · cases h
    obtain ⟨before, inside, rfl, houter, hlevel⟩ := hread
    exact ⟨_, [], by simp, .cons houter hlevel, Level.hasRead_empty⟩
  · split at h
    · cases h
      obtain ⟨before, inside, rfl, houter, first, second, third, rfl, hfirst, hsecond,
        hthird⟩ := hread
      exact ⟨before, first ++ (second ++ (third ++ [token])), by simp, houter,
        first, second, _, rfl, hfirst, hsecond, .cons (by assumption) hthird⟩
    · contradiction
  · cases h
    obtain ⟨before, first, second, rfl, houter, hfirst, hsecond⟩ := hread
    exact ⟨before, _, by simp, houter, first, _, [], rfl, hfirst, .some hsecond, .nil⟩
  · cases h
    obtain ⟨before, first, second, rfl, houter, hfirst, hsecond⟩ := hread
    have hchain := hfirst.joinOr hsecond
    exact ⟨before, first ++ second ++ [.disjunction], by simp, houter, _, [], [],
      by simp, .some hchain, .none, .nil⟩
  · cases h
    obtain ⟨before, first, second, rfl, houter, hfirst, hsecond⟩ := hread
    cases houter with
    | @cons level outer before inside houter hlevel =>
        have hgroup := Derives.group (hfirst.joinOr hsecond)
        simpa using hlevel.supply houter hgroup
  · contradiction

theorem State.hasRead_initial : State.initial.HasRead [] :=
  ⟨[], [], rfl, .nil, Level.hasRead_empty⟩

/-! ## Whole conditions -/

theorem foldlM_step_finish_iff {tokens : List Token} {condition : Condition} :
    (∃ final, tokens.foldlM State.step .initial = .ok final ∧
      final.finish = .ok condition) ↔ Derives .disjunction tokens condition := by
  constructor
  · rintro ⟨final, hrun, hfinish⟩
    have hread := foldlM_preserves State.HasRead.step State.hasRead_initial hrun
    unfold State.finish at hfinish
    split at hfinish
    · cases hfinish
      obtain ⟨before, first, second, htokens, ⟨⟩, hfirst, hsecond⟩ := hread
      rw [List.nil_append] at htokens
      rw [htokens]
      exact hfirst.joinOr hsecond
    · contradiction
  · intro h
    obtain ⟨disjunction?, conjunction, rfl, hrun⟩ := h.leads []
    exact ⟨_, hrun, rfl⟩

theorem run_eq_ok_iff {stop : Nat} {state : State} {tokens : List (Nat × Token)}
    {condition : Condition} :
    state.run stop tokens = .ok condition ↔
      ∃ final, (tokens.map (·.2)).foldlM State.step state = .ok final ∧
        final.finish = .ok condition := by
  induction tokens generalizing state with
  | nil =>
      rw [State.run, mapError_eq_ok_iff]
      constructor
      · intro h
        exact ⟨state, rfl, h⟩
      · rintro ⟨final, hrun, hfinish⟩
        cases hrun
        exact hfinish
  | cons item rest ih =>
      obtain ⟨offset, token⟩ := item
      simp only [State.run, List.map_cons, foldlM_cons_eq_ok_iff]
      cases state.step token with
      | error problem => simp
      | ok next => simp [ih]

theorem tokens_eq_ok_iff {pieces : List Piece} {row : List Token} :
    (∃ placed, tokens pieces = .ok placed ∧ placed.map (·.2) = row) ↔
      pieces.map (·.token?) = row.map some := by
  induction pieces generalizing row with
  | nil => simp [tokens]
  | cons piece rest ih =>
      simp only [tokens, List.map_cons]
      cases piece.token? with
      | none => cases row <;> simp
      | some token =>
          constructor
          · rintro ⟨placed, hplaced, rfl⟩
            cases hrest : tokens rest with
            | error fault => simp [hrest, Except.map] at hplaced
            | ok others =>
                rw [hrest] at hplaced
                cases hplaced
                simpa using ih.mp ⟨others, hrest, rfl⟩
          · intro h
            cases row with
            | nil => contradiction
            | cons first row =>
                obtain ⟨rfl, hrow⟩ : token = first ∧ rest.map (·.token?) = row.map some := by
                  simpa using h
                obtain ⟨others, hrest, rfl⟩ := ih.mpr hrow
                exact ⟨_, by rw [hrest]; rfl, rfl⟩

theorem not_derives_nil {phrase : Phrase} {condition : Condition} :
    ¬Derives phrase [] condition := by
  intro h
  generalize hempty : ([] : List Token) = row at h
  induction h with
  | symbol | not | unsupported | group | and | or => simp at hempty
  | single _ ih | lone _ ih => exact ih hempty

theorem parse_eq_ok_iff_derives {text : String} {condition : Condition} :
    parse text = .ok condition ↔ ∃ row, lexed text.toList = row.map some ∧
      Derives .disjunction row condition := by
  simp only [parse]
  constructor
  · intro h
    split at h
    · contradiction
    · obtain ⟨placed, hplaced, hrun⟩ := bind_eq_ok_iff.mp (mapError_eq_ok_iff.mp h)
      exact ⟨_, tokens_eq_ok_iff.mp ⟨placed, hplaced, rfl⟩,
        foldlM_step_finish_iff.mp (run_eq_ok_iff.mp hrun)⟩
  · rintro ⟨row, hrow, hderives⟩
    obtain ⟨placed, hplaced, rfl⟩ := tokens_eq_ok_iff.mpr hrow
    rw [if_neg, mapError_eq_ok_iff, bind_eq_ok_iff]
    · exact ⟨placed, hplaced, run_eq_ok_iff.mpr (foldlM_step_finish_iff.mpr hderives)⟩
    · intro blank
      rw [eq_nil_of_lexed_blank blank hrow] at hderives
      exact not_derives_nil hderives

theorem Derives.unique {row : List Token} {first second : Condition}
    (hfirst : Derives .disjunction row first) (hsecond : Derives .disjunction row second) :
    first = second := by
  obtain ⟨final, hrun, hfinish⟩ := foldlM_step_finish_iff.mpr hfirst
  obtain ⟨final', hrun', hfinish'⟩ := foldlM_step_finish_iff.mpr hsecond
  cases hrun.symm.trans hrun'
  exact Except.ok.inj (hfinish.symm.trans hfinish')

/-- A text is read as a condition exactly if it is a row of tokens, with nothing
else in it, that derives the condition.  A row derives one condition at most. -/
theorem parse_eq_ok_iff (text : String) (condition : Condition) :
    (parse text = .ok condition ↔ ∃ row, lexed text.toList = row.map some ∧
      Derives .disjunction row condition) ∧
    ∀ (row : List Token) (other : Condition), Derives .disjunction row condition →
      Derives .disjunction row other → other = condition := by
  refine ⟨parse_eq_ok_iff_derives, ?_⟩
  intro row other hcondition hother
  exact hother.unique hcondition

end GuardedText.Condition
