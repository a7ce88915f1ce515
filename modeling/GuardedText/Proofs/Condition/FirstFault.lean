import GuardedText.Proofs.Condition.Alphabet

/-!
# The first place beyond repair

Every beginning that the reader of conditions has not refused is the beginning of some
condition: the operand that is expected can be supplied, and the groups that are open can
be closed.  So the reader fails at the first token that no condition has in this place, or
at the end of a text that breaks off.  A piece that is no token comes before all of this.
-/

namespace GuardedText.Condition

open GuardedText.Text

/-- Some sentence of the grammar begins with the tokens. -/
def Viable (row : List Token) : Prop :=
  ∃ rest condition, Derives .disjunction (row ++ rest) condition

/-- The places at which a text stops being the beginning of a condition. -/
inductive Breaks (text : List Char) : Nat → Prop
  | stray {before after : List Piece} {piece : Piece} {read : List Token}
      (hpieces : Piece.ofText 0 text = before ++ piece :: after)
      (hread : before.map (·.token?) = read.map some) (hpiece : piece.token? = none) :
      Breaks text piece.start
  | token {before after : List Piece} {piece : Piece} {read later : List Token}
      {token : Token} (hpieces : Piece.ofText 0 text = before ++ piece :: after)
      (hread : before.map (·.token?) = read.map some) (hpiece : piece.token? = some token)
      (hlater : after.map (·.token?) = later.map some) (viable : Viable read)
      (hopeless : ¬Viable (read ++ [token])) (inside : piece.start < byteLength text) :
      Breaks text piece.start
  | stop {row rest : List Token} {condition : Condition}
      (hrow : lexed text = row.map some)
      (incomplete : ∀ other, ¬Derives .disjunction row other)
      (nonempty : rest ≠ []) (derives : Derives .disjunction (row ++ rest) condition) :
      Breaks text (byteLength text)

/-! ## Viable beginnings -/

def State.Completable (state : State) : Prop :=
  ∃ (rest : List Token) (final : State), rest.foldlM step state = .ok final ∧
    ∃ condition, final.finish = .ok condition

theorem State.Completable.of_step {state next : State} {token : Token}
    (h : next.Completable) (hstep : state.step token = .ok next) : state.Completable := by
  obtain ⟨rest, final, hrest, hfinal⟩ := h
  exact ⟨token :: rest, final, foldlM_cons_eq_ok_iff.mpr ⟨next, hstep, hrest⟩, hfinal⟩

theorem State.completable_holding (disjunction? : Option Condition) (conjunction : Condition)
    (outer : List Level) : (State.holding disjunction? conjunction outer).Completable := by
  induction outer generalizing disjunction? conjunction with
  | nil => exact ⟨[], _, rfl, _, rfl⟩
  | cons level outer ih =>
      have hclosed : (level.supply (joinOr disjunction? conjunction) outer).Completable := ih _ _
      have hstep : (State.holding disjunction? conjunction (level :: outer)).step .closeGroup =
          .ok (level.supply (joinOr disjunction? conjunction) outer) := rfl
      exact hclosed.of_step hstep

theorem State.completable (state : State) : state.Completable := by
  cases state with
  | holding disjunction? conjunction outer =>
      exact completable_holding disjunction? conjunction outer
  | expecting level outer =>
      have hsupplied : (level.supply (.symbol "A") outer).Completable :=
        completable_holding _ _ outer
      have hstep : (State.expecting level outer).step (.symbol "A") =
          .ok (level.supply (.symbol "A") outer) := rfl
      exact hsupplied.of_step hstep

theorem exists_derives_iff {row : List Token} :
    (∃ condition, Derives .disjunction row condition) ↔
      ∃ final, row.foldlM State.step .initial = .ok final ∧
        ∃ condition, final.finish = .ok condition := by
  simp only [← foldlM_step_finish_iff]
  constructor
  · rintro ⟨condition, final, hrun, hfinish⟩
    exact ⟨final, hrun, condition, hfinish⟩
  · rintro ⟨final, hrun, condition, hfinish⟩
    exact ⟨condition, final, hrun, hfinish⟩

theorem viable_iff {row : List Token} :
    Viable row ↔ ∃ state, row.foldlM State.step .initial = .ok state := by
  simp only [Viable, exists_derives_iff]
  exact exists_completion_iff State.completable

theorem not_viable_concat_iff {read : List Token} {token : Token} {state : State}
    (hread : read.foldlM State.step .initial = .ok state) :
    ¬Viable (read ++ [token]) ↔ ∃ problem, state.step token = .error problem := by
  rw [viable_iff, List.foldlM_append, hread, ok_bind, List.foldlM_cons]
  cases state.step token with
  | error problem => simp [bind, Except.bind]
  | ok next => simp

/-! ## Faults of the reader -/

theorem run_eq_error_iff {stop offset : Nat} {state : State} {placed : List (Nat × Token)}
    {problem : Problem} :
    state.run stop placed = .error (offset, problem) ↔
      (∃ read token rest reached, placed = read ++ (offset, token) :: rest ∧
        (read.map (·.2)).foldlM State.step state = .ok reached ∧
        reached.step token = .error problem) ∨
      offset = stop ∧ ∃ final, (placed.map (·.2)).foldlM State.step state = .ok final ∧
        final.finish = .error problem := by
  induction placed generalizing state with
  | nil =>
      rw [State.run, mapError_eq_error_iff]
      constructor
      · rintro ⟨cause, hfinish, hsame⟩
        cases hsame
        exact .inr ⟨rfl, state, rfl, hfinish⟩
      · rintro (⟨read, token, rest, reached, hplaced, -⟩ | ⟨rfl, final, hrun, hfinish⟩)
        · simp at hplaced
        · cases hrun
          exact ⟨problem, hfinish, rfl⟩
  | cons item rest ih =>
      obtain ⟨place, token⟩ := item
      simp only [State.run]
      cases hstep : state.step token with
      | error found =>
          have hstuck {others : List Token} {final : State} :
              (token :: others).foldlM State.step state ≠ .ok final := by
            intro hrun
            obtain ⟨next, hnext, -⟩ := foldlM_cons_eq_ok_iff.mp hrun
            rw [hstep] at hnext
            contradiction
          constructor
          · intro h
            cases h
            exact .inl ⟨[], token, rest, state, rfl, rfl, hstep⟩
          · rintro (⟨_ | ⟨first, read⟩, other, later, reached, hplaced, hread, hfault⟩ |
              ⟨-, final, hrun, -⟩)
            · cases hplaced
              cases hread
              rw [hstep] at hfault
              cases hfault
              rfl
            · cases hplaced
              exact absurd hread hstuck
            · exact absurd hrun hstuck
      | ok next =>
          have hgoesOn {others : List Token} {final : State} :
              (token :: others).foldlM State.step state = .ok final ↔
                others.foldlM State.step next = .ok final := by
            rw [foldlM_cons_eq_ok_iff, hstep]
            simp
          simp only [List.map_cons, hgoesOn]
          rw [ih]
          constructor
          · rintro (⟨read, other, later, reached, rfl, hread, hfault⟩ | hend)
            · exact .inl ⟨(place, token) :: read, other, later, reached, rfl,
                hgoesOn.mpr hread, hfault⟩
            · exact .inr hend
          · rintro (⟨_ | ⟨first, read⟩, other, later, reached, hplaced, hread, hfault⟩ | hend)
            · cases hplaced
              cases hread
              rw [hstep] at hfault
              contradiction
            · cases hplaced
              exact .inl ⟨read, other, later, reached, rfl, hgoesOn.mp hread, hfault⟩
            · exact .inr hend

theorem tokens_eq_ok_iff_map {pieces : List Piece} {placed : List (Nat × Token)} :
    tokens pieces = .ok placed ↔
      pieces.map (fun piece => (piece.start, piece.token?)) =
        placed.map (fun item => (item.1, some item.2)) := by
  induction pieces generalizing placed with
  | nil => cases placed <;> simp [tokens]
  | cons piece rest ih =>
      simp only [tokens, List.map_cons]
      cases piece.token? with
      | none => cases placed <;> simp
      | some token =>
          cases placed with
          | nil => cases tokens rest <;> simp [Except.map]
          | cons item placed =>
              rw [List.map_cons, List.cons.injEq, ← ih]
              cases tokens rest <;> simp [Except.map, Prod.ext_iff]

theorem map_token?_of_placed {pieces : List Piece} {placed : List (Nat × Token)}
    (h : pieces.map (fun piece => (piece.start, piece.token?)) =
      placed.map (fun item => (item.1, some item.2))) :
    pieces.map (·.token?) = (placed.map (·.2)).map some := by
  simpa only [List.map_map, Function.comp_def] using congrArg (List.map Prod.snd) h

theorem tokens_eq_error_iff {pieces : List Piece} {offset : Nat} {problem : Problem} :
    tokens pieces = .error (offset, problem) ↔
      ∃ before piece after read, pieces = before ++ piece :: after ∧
        before.map (·.token?) = List.map some read ∧ piece.token? = none ∧
        offset = piece.start ∧ problem = .strayText (String.ofList piece.text) := by
  induction pieces with
  | nil => simp [tokens]
  | cons first rest ih =>
      simp only [tokens]
      cases hfirst : first.token? with
      | none =>
          constructor
          · intro h
            cases h
            exact ⟨[], first, rest, [], rfl, rfl, hfirst, rfl, rfl⟩
          · rintro ⟨_ | ⟨other, before⟩, piece, after, read, hpieces, hread, hpiece, rfl, rfl⟩
            · cases hpieces
              rfl
            · cases hpieces
              cases read <;> simp [hfirst] at hread
      | some token =>
          have hmap : (tokens rest).map ((first.start, token) :: ·) = .error (offset, problem) ↔
              tokens rest = .error (offset, problem) := by
            cases tokens rest <;> simp [Except.map]
          rw [hmap, ih]
          constructor
          · rintro ⟨before, piece, after, read, rfl, hread, hpiece, hplace⟩
            exact ⟨first :: before, piece, after, token :: read, rfl,
              by simp [hfirst, hread], hpiece, hplace⟩
          · rintro ⟨_ | ⟨other, before⟩, piece, after, read, hpieces, hread, hpiece, hplace⟩
            · cases hpieces
              rw [hfirst] at hpiece
              contradiction
            · cases hpieces
              cases read with
              | nil => contradiction
              | cons other read =>
                  exact ⟨before, piece, after, read, rfl, (List.cons.inj hread).2, hpiece, hplace⟩

/-! ## Whole conditions -/

theorem parse_eq_error_iff {text : String} {fault : Fault} (h : trim text.toList ≠ []) :
    parse text = .error fault ↔ ∃ offset problem, fault = .malformed text offset problem ∧
      (tokens (Piece.ofText 0 text.toList) = .error (offset, problem) ∨
        ∃ placed, tokens (Piece.ofText 0 text.toList) = .ok placed ∧
          State.initial.run (byteLength text.toList) placed = .error (offset, problem)) := by
  have hblank : ¬text.toList.all isBlank := fun hblank => h (trim_of_blank hblank)
  simp only [parse]
  rw [if_neg hblank, mapError_eq_error_iff]
  constructor
  · rintro ⟨⟨offset, problem⟩, houtcome, rfl⟩
    exact ⟨offset, problem, rfl, bind_eq_error_iff.mp houtcome⟩
  · rintro ⟨offset, problem, rfl, houtcome⟩
    exact ⟨(offset, problem), bind_eq_error_iff.mpr houtcome, rfl⟩

theorem breaks_of_run {text : List Char} {placed : List (Nat × Token)} {offset : Nat}
    {problem : Problem} (hplaced : tokens (Piece.ofText 0 text) = .ok placed)
    (h : State.initial.run (byteLength text) placed = .error (offset, problem)) :
    Breaks text offset := by
  have hpieces := tokens_eq_ok_iff_map.mp hplaced
  rcases run_eq_error_iff.mp h with ⟨read, token, rest, reached, rfl, hread, hstep⟩ |
    ⟨rfl, final, hrun, hfinish⟩
  · rw [List.map_append, List.map_cons] at hpieces
    obtain ⟨before, others, hsplit, hbefore, hothers⟩ := List.map_eq_append_iff.mp hpieces
    obtain ⟨piece, after, rfl, hpiece, hafter⟩ := List.map_eq_cons_iff.mp hothers
    obtain ⟨rfl, htoken⟩ := Prod.mk.inj hpiece
    exact .token hsplit (map_token?_of_placed hbefore) htoken (map_token?_of_placed hafter)
      (viable_iff.mpr ⟨reached, hread⟩) ((not_viable_concat_iff hread).mpr ⟨problem, hstep⟩)
      (Piece.start_lt (by simp [hsplit]))
  · have incomplete : ∀ other, ¬Derives .disjunction (placed.map (·.2)) other := by
      intro other hderives
      obtain ⟨final', hrun', hfinish'⟩ := foldlM_step_finish_iff.mpr hderives
      cases hrun.symm.trans hrun'
      rw [hfinish] at hfinish'
      contradiction
    obtain ⟨rest, condition, hderives⟩ := viable_iff.mpr ⟨final, hrun⟩
    refine .stop (map_token?_of_placed hpieces) incomplete ?_ hderives
    rintro rfl
    rw [List.append_nil] at hderives
    exact incomplete condition hderives

theorem exists_run_of_breaks {text : List Char} {offset : Nat} (h : Breaks text offset) :
    ∃ problem, tokens (Piece.ofText 0 text) = .error (offset, problem) ∨
      ∃ placed, tokens (Piece.ofText 0 text) = .ok placed ∧
        State.initial.run (byteLength text) placed = .error (offset, problem) := by
  cases h with
  | stray hpieces hread hpiece =>
      exact ⟨_, .inl (tokens_eq_error_iff.mpr ⟨_, _, _, _, hpieces, hread, hpiece, rfl, rfl⟩)⟩
  | @token before after piece read later token hpieces hread hpiece hlater viable hopeless =>
      obtain ⟨earlier, hearlier, rfl⟩ := tokens_eq_ok_iff.mpr hread
      obtain ⟨rest, hrest, rfl⟩ := tokens_eq_ok_iff.mpr hlater
      have hplaced : tokens (Piece.ofText 0 text) =
          .ok (earlier ++ (piece.start, token) :: rest) := by
        rw [hpieces, tokens_eq_ok_iff_map]
        simp [tokens_eq_ok_iff_map.mp hearlier, tokens_eq_ok_iff_map.mp hrest, hpiece]
      obtain ⟨state, hstate⟩ := viable_iff.mp viable
      obtain ⟨problem, hstep⟩ := (not_viable_concat_iff hstate).mp hopeless
      exact ⟨problem, .inr ⟨_, hplaced, run_eq_error_iff.mpr
        (.inl ⟨earlier, token, rest, state, rfl, hstate, hstep⟩)⟩⟩
  | @stop row rest condition hrow incomplete nonempty derives =>
      obtain ⟨placed, hplaced, rfl⟩ := tokens_eq_ok_iff.mpr hrow
      obtain ⟨final, hrun⟩ := viable_iff.mp ⟨rest, condition, derives⟩
      cases hfinish : final.finish with
      | ok other =>
          exact absurd (foldlM_step_finish_iff.mp ⟨final, hrun, hfinish⟩) (incomplete other)
      | error problem =>
          exact ⟨problem, .inr ⟨placed, hplaced,
            run_eq_error_iff.mpr (.inr ⟨rfl, final, hrun, hfinish⟩)⟩⟩

/-- A text that is not blank and no condition is refused where it stops being the beginning
of one, and a text that stops being so is refused there. -/
theorem breaks_of_parse (text : String) (nonblank : trim text.toList ≠ []) :
    (∀ fault, parse text = .error fault → ∃ offset problem,
      fault = .malformed text offset problem ∧ Breaks text.toList offset) ∧
    ∀ offset, Breaks text.toList offset →
      ∃ problem, parse text = .error (.malformed text offset problem) := by
  constructor
  · intro fault h
    obtain ⟨offset, problem, rfl, houtcome⟩ := (parse_eq_error_iff nonblank).mp h
    refine ⟨offset, problem, rfl, ?_⟩
    rcases houtcome with hstray | ⟨placed, hplaced, hrun⟩
    · obtain ⟨before, piece, after, read, hpieces, hread, hpiece, rfl, -⟩ :=
        tokens_eq_error_iff.mp hstray
      exact .stray hpieces hread hpiece
    · exact breaks_of_run hplaced hrun
  · intro offset hbreaks
    obtain ⟨problem, houtcome⟩ := exists_run_of_breaks hbreaks
    exact ⟨problem, (parse_eq_error_iff nonblank).mpr ⟨offset, problem, rfl, houtcome⟩⟩

theorem breaks_of_parse_places :
    (parse "A B 'é' @ C" = .error (.malformed "A B 'é' @ C" 9 (.strayText "@")) ∧
      Breaks "A B 'é' @ C".toList 9) ∧
    (parse "!(A && 'é') || B" = .error (.malformed "!(A && 'é') || B" 7
        (.symbolExpected (.quoted "'é'"))) ∧
      Breaks "!(A && 'é') || B".toList 7) ∧
    parse "(A || -" = .error (.malformed "(A || -" 7 .cutShort) ∧
      Breaks "(A || -".toList 7 := by
  have breaks {text : String} {offset : Nat} {problem : Problem}
      (nonblank : trim text.toList ≠ [])
      (h : parse text = .error (.malformed text offset problem)) : Breaks text.toList offset := by
    obtain ⟨_, _, hfault, hbreaks⟩ := (breaks_of_parse text nonblank).1 _ h
    cases hfault
    exact hbreaks
  have hstray : parse "A B 'é' @ C" = .error (.malformed "A B 'é' @ C" 9 (.strayText "@")) := by
    decide +kernel
  have htoken : parse "!(A && 'é') || B" = .error (.malformed "!(A && 'é') || B" 7
      (.symbolExpected (.quoted "'é'"))) := by
    decide +kernel
  have hstop : parse "(A || -" = .error (.malformed "(A || -" 7 .cutShort) := by
    decide +kernel
  exact ⟨⟨hstray, breaks (by decide) hstray⟩, ⟨htoken, breaks (by decide) htoken⟩, hstop,
    breaks (by decide) hstop⟩

end GuardedText.Condition
