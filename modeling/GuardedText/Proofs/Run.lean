import Mathlib.Data.List.Forall2

/-!
# Runs that can fail

The readers of this library take their input one item at a time and stop at the
first fault.  A run is then `List.foldlM` over the items, and what it reaches is
known from what a single step preserves.
-/

namespace GuardedText

section Outcome

variable {ε α β : Type}

theorem bind_eq_ok_iff {outcome : Except ε α} {next : α → Except ε β} {result : β} :
    outcome >>= next = .ok result ↔
      ∃ value, outcome = .ok value ∧ next value = .ok result := by
  cases outcome with
  | error fault => simp [bind, Except.bind]
  | ok value => simp [bind, Except.bind]

theorem bind_eq_error_iff {outcome : Except ε α} {next : α → Except ε β} {fault : ε} :
    outcome >>= next = .error fault ↔
      outcome = .error fault ∨ ∃ value, outcome = .ok value ∧ next value = .error fault := by
  cases outcome with
  | error found => simp [bind, Except.bind]
  | ok value => simp [bind, Except.bind]

theorem ok_bind (value : α) (next : α → Except ε β) :
    Except.ok value >>= next = next value := rfl

theorem mapError_eq_ok_iff {ε' : Type} {outcome : Except ε α} {wrap : ε → ε'}
    {result : α} : outcome.mapError wrap = .ok result ↔ outcome = .ok result := by
  cases outcome <;> simp [Except.mapError]

theorem mapError_eq_error_iff {ε' : Type} {outcome : Except ε α} {wrap : ε → ε'}
    {fault : ε'} :
    outcome.mapError wrap = .error fault ↔
      ∃ cause, outcome = .error cause ∧ wrap cause = fault := by
  cases outcome <;> simp [Except.mapError]

theorem eq_ok_of_toOption {outcome : Except ε α} {result : α}
    (h : outcome.toOption = some result) : outcome = .ok result := by
  cases outcome with
  | error fault => contradiction
  | ok value => exact congrArg Except.ok (Option.some.inj h)

theorem eq_error_of_map {outcome : Except ε α} {fault : ε}
    (h : (fun _ => ()) <$> outcome = .error fault) : outcome = .error fault := by
  cases outcome with
  | error found => exact congrArg Except.error (Except.error.inj h)
  | ok value => contradiction

end Outcome

section Run

variable {ε σ α : Type} {step : σ → α → Except ε σ}

theorem foldlM_cons_eq_ok_iff {state final : σ} {item : α} {items : List α} :
    (item :: items).foldlM step state = .ok final ↔
      ∃ next, step state item = .ok next ∧ items.foldlM step next = .ok final := by
  rw [List.foldlM_cons, bind_eq_ok_iff]

theorem foldlM_append_eq_ok {state middle final : σ} {first second : List α}
    (hfirst : first.foldlM step state = .ok middle)
    (hsecond : second.foldlM step middle = .ok final) :
    (first ++ second).foldlM step state = .ok final := by
  rw [List.foldlM_append, hfirst]
  exact hsecond

theorem foldlM_append_eq_ok_iff {state final : σ} {first second : List α} :
    (first ++ second).foldlM step state = .ok final ↔
      ∃ middle, first.foldlM step state = .ok middle ∧
        second.foldlM step middle = .ok final := by
  rw [List.foldlM_append, bind_eq_ok_iff]

/-- If the run can go on to a good end from every state, then items are the beginning of
a run with a good end exactly if the run gets past them. -/
theorem exists_completion_iff {Good : σ → Prop}
    (completion : ∀ state, ∃ (rest : List α) (final : σ),
      rest.foldlM step state = .ok final ∧ Good final)
    {start : σ} {items : List α} :
    (∃ rest final, (items ++ rest).foldlM step start = .ok final ∧ Good final) ↔
      ∃ reached, items.foldlM step start = .ok reached := by
  constructor
  · rintro ⟨rest, final, hrun, -⟩
    obtain ⟨reached, hreached, -⟩ := foldlM_append_eq_ok_iff.mp hrun
    exact ⟨reached, hreached⟩
  · rintro ⟨reached, hreached⟩
    obtain ⟨rest, final, hrest, hgood⟩ := completion reached
    exact ⟨rest, final, foldlM_append_eq_ok hreached hrest, hgood⟩

/-- What every step preserves holds at the end of a run, of the state reached
and of the items read so far. -/
theorem foldlM_preserves {Holds : List α → σ → Prop}
    (preserved : ∀ {read state item next}, Holds read state →
      step state item = .ok next → Holds (read ++ [item]) next)
    {read items : List α} {state final : σ} (hstart : Holds read state)
    (hrun : items.foldlM step state = .ok final) :
    Holds (read ++ items) final := by
  induction items generalizing read state with
  | nil =>
      cases hrun
      simpa using hstart
  | cons item items ih =>
      obtain ⟨next, hstep, hrest⟩ := foldlM_cons_eq_ok_iff.mp hrun
      have hnext := ih (preserved hstart hstep) hrest
      simpa using hnext

theorem exists_of_foldlM_eq_error {items : List α} {state : σ} {fault : ε}
    (h : items.foldlM step state = .error fault) :
    ∃ read item rest reached, items = read ++ item :: rest ∧
      read.foldlM step state = .ok reached ∧ step reached item = .error fault := by
  induction items generalizing state with
  | nil => contradiction
  | cons item items ih =>
      rw [List.foldlM_cons, bind_eq_error_iff] at h
      rcases h with hstep | ⟨next, hstep, hrest⟩
      · exact ⟨[], item, items, state, rfl, rfl, hstep⟩
      · obtain ⟨read, other, rest, reached, rfl, hread, hfault⟩ := ih hrest
        exact ⟨item :: read, other, rest, reached, rfl,
          foldlM_cons_eq_ok_iff.mpr ⟨next, hstep, hread⟩, hfault⟩

end Run

theorem forall₂_append_left_iff {α β : Type} {R : α → β → Prop}
    {first second : List α} {items : List β} :
    List.Forall₂ R (first ++ second) items ↔
      ∃ before after, items = before ++ after ∧ List.Forall₂ R first before ∧
        List.Forall₂ R second after := by
  constructor
  · intro h
    refine ⟨items.take first.length, items.drop first.length, by simp, ?_, ?_⟩
    · simpa using List.forall₂_take first.length h
    · simpa using List.forall₂_drop first.length h
  · rintro ⟨before, after, rfl, hfirst, hsecond⟩
    exact List.rel_append hfirst hsecond

theorem exists_of_forall₂_of_mem {α β : Type} {R : α → β → Prop} {items : List α}
    {others : List β} (h : List.Forall₂ R items others) {item : α} (hitem : item ∈ items) :
    ∃ other ∈ others, R item other := by
  induction h with
  | nil => contradiction
  | @cons first other items others hfirst _ ih =>
      rcases List.mem_cons.mp hitem with rfl | hitem
      · exact ⟨other, List.mem_cons_self, hfirst⟩
      · obtain ⟨later, hlater, hrelated⟩ := ih hitem
        exact ⟨later, List.mem_cons_of_mem _ hlater, hrelated⟩

end GuardedText
