import Mathlib.Data.List.Forall2

/-! Results of one computation under two limits. The lower limit may cut it off with the error
`stop`; if it does not, the result is the same. A result is reached if every limit high enough
gives it. Some computations can fail in no other way than by being cut off. -/

namespace Capuchin

/-- A step that succeeds goes on from a step that did. -/
theorem bind_eq_ok {first : Except ε α} {next : α → Except ε β} (done : first >>= next = .ok value) :
    ∃ middle, first = .ok middle ∧ next middle = .ok value := by
  cases first with
  | error reason => cases done
  | ok middle => exact ⟨middle, rfl, done⟩

/-- `first` is `second` or was cut off. -/
def Cut (stop : ε) (first second : Except ε α) : Prop :=
  first = .error stop ∨ first = second

namespace Cut

variable {ε α β : Type} {stop : ε} {first second : Except ε α}

theorem refl (result : Except ε α) : Cut stop result result :=
  .inr rfl

theorem bind {one two : α → Except ε β} (cut : Cut stop first second)
    (next : ∀ value, Cut stop (one value) (two value)) :
    Cut stop (first >>= one) (second >>= two) := by
  rcases cut with stopped | same
  · left
    rw [stopped]
    rfl
  · subst same
    cases first with
    | error reason => exact .refl _
    | ok value => exact next value

theorem eq (cut : Cut stop first second) (finished : first ≠ .error stop) : first = second := by
  rcases cut with stopped | same
  · exact absurd stopped finished
  · exact same

theorem eq_ok (cut : Cut stop first second) (finished : first = .ok value) :
    second = .ok value := by
  rw [← cut.eq (by simp [finished]), finished]

theorem mapM {one two : α → Except ε β} (items : List α)
    (each : ∀ item ∈ items, Cut stop (one item) (two item)) :
    Cut stop (items.mapM one) (items.mapM two) := by
  induction items with
  | nil => exact .refl _
  | cons item items ih =>
    simp only [List.mapM_cons]
    refine (each item (by simp)).bind fun value => ?_
    exact (ih fun other member => each other (by simp [member])).bind fun values => .refl _

end Cut

/-- From some limit on the result is this value. -/
def Reaches (run : Nat → Except ε α) (value : α) : Prop :=
  ∃ need, ∀ limit, need ≤ limit → run limit = .ok value

namespace Reaches

variable {ε α β : Type} {value : α} {result : β}

theorem ok : Reaches (fun _ => (.ok value : Except ε α)) value :=
  ⟨0, fun _ _ => rfl⟩

theorem bind {one : Nat → Except ε α} {two : Nat → α → Except ε β} (first : Reaches one value)
    (second : Reaches (fun limit => two limit value) result) :
    Reaches (fun limit => one limit >>= two limit) result := by
  obtain ⟨need, early⟩ := first
  obtain ⟨other, late⟩ := second
  refine ⟨need + other, fun limit room => ?_⟩
  simp only [early limit (by omega)]
  exact late limit (by omega)

/-- One level of nesting. -/
theorem step {run : Nat → Except ε α} (inner : Reaches (fun limit => run (limit + 1)) value) :
    Reaches run value := by
  obtain ⟨need, reached⟩ := inner
  refine ⟨need + 1, fun limit room => ?_⟩
  obtain ⟨limit, rfl⟩ : ∃ other, limit = other + 1 := ⟨limit - 1, by omega⟩
  exact reached limit (by omega)

theorem mapM {one : Nat → α → Except ε β} {holds : β → α → Prop} (items : List α)
    (each : ∀ item ∈ items, ∃ value, Reaches (one · item) value ∧ holds value item) :
    ∃ values, Reaches (fun limit => items.mapM (one limit)) values ∧
      List.Forall₂ holds values items := by
  induction items with
  | nil => exact ⟨[], .ok, .nil⟩
  | cons item items ih =>
    obtain ⟨value, first, holdsFirst⟩ := each item (by simp)
    obtain ⟨values, rest, holdsRest⟩ := ih fun other member => each other (by simp [member])
    refine ⟨value :: values, ?_, .cons holdsFirst holdsRest⟩
    simp only [List.mapM_cons]
    exact first.bind (rest.bind .ok)

theorem each {one : Nat → α → Except ε β} (items : List α)
    (reached : ∀ item ∈ items, ∃ value, Reaches (one · item) value) :
    ∃ values, Reaches (fun limit => items.mapM (one limit)) values := by
  have both : ∀ item ∈ items, ∃ value, Reaches (one · item) value ∧ True := by
    intro item member
    obtain ⟨value, first⟩ := reached item member
    exact ⟨value, first, trivial⟩
  obtain ⟨values, all, _⟩ := @mapM ε α β one (fun _ _ => True) items both
  exact ⟨values, all⟩

theorem cut {run : Nat → Except ε α} (reached : Reaches run value)
    (order : ∀ limit more, limit ≤ more → Cut stop (run limit) (run more)) (limit : Nat) :
    Cut stop (run limit) (.ok value) := by
  obtain ⟨need, wide⟩ := reached
  rw [← wide (limit + need) (by omega)]
  exact order limit (limit + need) (by omega)

end Reaches

/-- The result is a value or was cut off. -/
def OnlyCut (stop : ε) (result : Except ε α) : Prop :=
  result = .error stop ∨ ∃ value, result = .ok value

namespace OnlyCut

variable {ε α β : Type} {stop : ε} {result : Except ε α}

theorem ok (value : α) : OnlyCut stop (.ok value) :=
  .inr ⟨value, rfl⟩

theorem bind {next : α → Except ε β} (first : OnlyCut stop result)
    (second : ∀ value, OnlyCut stop (next value)) : OnlyCut stop (result >>= next) := by
  rcases first with rfl | ⟨value, rfl⟩
  · exact .inl rfl
  · exact second value

theorem mapM {one : α → Except ε β} (items : List α)
    (each : ∀ item ∈ items, OnlyCut stop (one item)) : OnlyCut stop (items.mapM one) := by
  induction items with
  | nil => exact .ok []
  | cons item items ih =>
    simp only [List.mapM_cons]
    refine (each item (by simp)).bind fun value => ?_
    exact (ih fun other member => each other (by simp [member])).bind fun values => .ok _

theorem eq_stop (only : OnlyCut stop result) (failed : result = .error reason) : reason = stop := by
  rcases only with stopped | ⟨value, finished⟩
  · rw [failed] at stopped
    exact Except.error.inj stopped
  · rw [failed] at finished
    cases finished

end OnlyCut

end Capuchin
