import Capuchin.Parse.Feed

namespace Capuchin.Grammar

open Parse

variable {limit : Nat} {token : Token} {tokens : List Token} {state next : State}
  {site : Site} {hole : Hole}

theorem feedAll_cons (fed : state.feed limit token = .ok next) (tokens : List Token) :
    state.feedAll limit (token :: tokens) = next.feedAll limit tokens := by
  simp only [State.feedAll, List.foldlM_cons, fed]
  rfl

theorem feedAll_cons_ok (fed : state.feedAll limit (token :: tokens) = .ok next) :
    ∃ middle, state.feed limit token = .ok middle ∧ middle.feedAll limit tokens = .ok next := by
  cases first : state.feed limit token with
  | error rejection =>
    simp only [State.feedAll, List.foldlM_cons, first] at fed
    cases fed
  | ok middle =>
    rw [feedAll_cons first] at fed
    exact ⟨middle, rfl, fed⟩

theorem feedAll_append (fed : state.feedAll limit tokens = .ok next) (others : List Token) :
    state.feedAll limit (tokens ++ others) = next.feedAll limit others := by
  simp only [State.feedAll, List.foldlM_append] at fed ⊢
  rw [fed]
  rfl

theorem feedAll_append_ok (fed : state.feedAll limit (tokens ++ others) = .ok next) :
    ∃ middle, state.feedAll limit tokens = .ok middle ∧
      middle.feedAll limit others = .ok next := by
  induction tokens generalizing state with
  | nil => exact ⟨state, rfl, fed⟩
  | cons token tokens ih =>
    obtain ⟨after, first, rest⟩ := feedAll_cons_ok fed
    rw [feedAll_cons first]
    exact ih rest

theorem feedAll_concat (fed : state.feedAll limit tokens = .ok next) (token : Token) :
    state.feedAll limit (tokens ++ [token]) = next.feed limit token := by
  rw [feedAll_append fed]
  simp only [State.feedAll, List.foldlM_cons, List.foldlM_nil]
  cases next.feed limit token <;> rfl

/-- Two states that take the first token alike take all tokens alike. -/
theorem feedAll_congr (other : State) (fed : state.feedAll limit tokens = .ok next)
    (nonempty : tokens ≠ [])
    (same : ∀ token middle, state.feed limit token = .ok middle →
      other.feed limit token = .ok middle) :
    other.feedAll limit tokens = .ok next := by
  cases tokens with
  | nil => exact absurd rfl nonempty
  | cons token tokens =>
    obtain ⟨middle, first, rest⟩ := feedAll_cons_ok fed
    rw [feedAll_cons (same token middle first)]
    exact rest

/-- A program was read if all tokens led to its end. -/
theorem feedAll_of_ofTokens (read : Node.ofTokens limit tokens = .ok tree) :
    ∃ statements, tree = .program statements ∧
      State.start.feedAll limit tokens = .ok (.finished statements) := by
  unfold Node.ofTokens at read
  cases fed : State.start.feedAll limit tokens with
  | error rejection =>
    rw [fed] at read
    cases read
  | ok state =>
    rw [fed] at read
    cases state with
    | finished statements =>
      cases read
      exact ⟨statements, rfl, rfl⟩
    | _ => cases read

theorem enter_eq_ok (room : hole.depth ≤ limit) : Hole.enter limit hole = .ok (.operand hole) := by
  simp [Hole.enter, room]

theorem expect_self (mark : Mark) (next : Step) : expect mark (.mark mark) next = next := by
  simp [expect]

/-- A token that begins an expression also begins a statement. -/
theorem start_of_begin (room : (Hole.statement site done).depth ≤ limit)
    (begun : (Hole.statement site done).begin limit token = .ok next) :
    site.start limit done token = .ok next := by
  cases token with
  | mark mark => cases mark <;> simp_all [Site.start, Hole.begin, Hole.enterWith]
  | keyword keyword => cases keyword <;> simp_all [Site.start, Hole.begin, Hole.enterWith]
  | _ => simp_all [Site.start, Hole.begin, Hole.enterWith]

/-- A token that begins an expression also begins an entry of a hash. -/
theorem hashEntry_of_begin (room : (Hole.key hole done).depth ≤ limit)
    (begun : (Hole.key hole done).begin limit token = .ok next) :
    (State.hashEntry hole done).feed limit token = .ok next := by
  cases token with
  | mark mark => cases mark <;> simp_all [State.feed, Hole.begin, Hole.enterWith]
  | _ => simp_all [State.feed, Hole.begin, Hole.enterWith]

end Capuchin.Grammar
