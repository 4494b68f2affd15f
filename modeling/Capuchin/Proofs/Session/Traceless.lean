import Capuchin.Command.Run
import Capuchin.Proofs.Evaluate.Renumbering
import Capuchin.Proofs.Session.Complete
import Mathlib

namespace Capuchin

/-- The source is rejected, or its program has no `let` outside of functions. -/
def Traceless (limit : Nat) (source : String) : Prop :=
  ∀ tree, Node.parse limit source = .ok tree → tree.LetFree

/-- What a user can see of an outcome: the display of its value, or why there is none. -/
def Outcome.display (limit : Nat) (outcome : Outcome) : Except Failure String := do
  ((← outcome.result).inspect limit).mapError .fault

structure Session.Closed (session : Session) : Prop where
  heap : session.heap.Closed
  scope : session.scope < session.heap.next

/-- The image is the session but for the numbers of scopes and for scopes of its own. -/
structure Session.Shows (renumbering : Renumbering) (session image : Session) : Prop where
  scope_eq : image.scope = renumbering.number session.scope
  heap : renumbering.Shows session.heap image.heap

structure Outcome.Shows (renumbering : Renumbering) (outcome image : Outcome) : Prop where
  result_eq : image.result = outcome.result.map (·.rename renumbering.number)
  log_eq : image.log = outcome.log
  session : outcome.session.Shows renumbering image.session

namespace Outcome

variable {renumbering : Renumbering} {outcome image : Outcome}

theorem Shows.display_eq (shown : outcome.Shows renumbering image) (limit : Nat) :
    image.display limit = outcome.display limit := by
  unfold display
  rw [shown.result_eq]
  cases outcome.result with
  | error failure => rfl
  | ok value =>
    show (Value.inspect limit (value.rename _)).mapError _ = _
    rw [Value.inspect_rename]
    rfl

theorem entries_rename (display : Display) (limit : Nat) (value : Value)
    (number : ScopeId → ScopeId) :
    display.entries limit (value.rename number) = display.entries limit value := by
  have shown := Value.inspect_rename number limit value
  cases display with
  | nothing => rfl
  | every => simp only [Display.entries, shown]
  | nonNull => cases value <;> simp only [Display.entries, Value.rename] at shown ⊢ <;> rw [shown]

/-- No report tells scopes apart. -/
theorem Shows.showing_eq (shown : outcome.Shows renumbering image) (manner : Manner) :
    (image.report manner).showing = (outcome.report manner).showing := by
  have fails (failure : Failure) : (image.fail failure).showing = (outcome.fail failure).showing := by
    unfold fail
    rw [shown.log_eq]
    split <;> rfl
  have imaged := shown.result_eq
  cases ended : outcome.result with
  | error failure =>
    rw [ended] at imaged
    simpa only [report, imaged, ended, Except.map] using fails failure
  | ok value =>
    rw [ended] at imaged
    by_cases calm : value.shape = .error
    · obtain ⟨kind, message, rfl⟩ := Value.error_of_shape calm
      simp only [report, imaged, ended, Except.map, Value.rename, shown.log_eq]
      rfl
    · rw [report_of_value imaged (by rwa [Value.shape_rename]), report_of_value ended calm,
        entries_rename]
      split
      · exact fails _
      · rw [shown.log_eq]
        rfl

end Outcome

namespace Session

variable {renumbering : Renumbering} {session image : Session} {limit : Nat} {source : String}

theorem Closed.kept (closed : session.Closed) : Law.closed.Kept session.heap :=
  closed.heap.kept

theorem Shows.go (shown : session.Shows renumbering image) (closed : session.Closed)
    (logged : Bool) (limit : Nat) (source : String) :
    (session.go logged limit source).Shows renumbering (image.go logged limit source) ∧
      (session.go logged limit source).session.Closed := by
  rcases go_cases logged limit source with ⟨failure, log, failed⟩ | ⟨tree, watch, log, _, blind, run⟩
  · rw [failed session, failed image]
    exact ⟨⟨rfl, rfl, shown⟩, closed⟩
  · let comparison : Comparison Law.closed watch :=
      { renumbering.mirror, Audit.none Law.closed watch with blind := blind renumbering.number }
    have sound : comparison.Sound session.heap image.heap log := ⟨closed.kept, shown.heap, trivial⟩
    obtain ⟨result, later, picture, marks, ended, alike, grown, reached, _⟩ :=
      comparison.eval_ending tree closed.scope sound limit
    have same : (tree.eval watch limit image.scope).ending ⟨image.heap, log⟩ =
        (result.map (·.rename renumbering.number), ⟨picture, marks⟩) := by
      rw [shown.scope_eq]
      exact alike
    rw [run session, run image, evaluate_eq ended, evaluate_eq same]
    refine ⟨⟨?_, rfl, shown.scope_eq, reached.shown⟩, ?_⟩
    · cases result <;> rfl
    · exact ⟨⟨reached.kept.links, reached.kept.bound⟩, Nat.lt_of_lt_of_le closed.scope grown.next_le⟩

theorem go_traceless (traceless : Traceless limit source) (session : Session) (logged : Bool) :
    (session.go logged limit source).session.scope = session.scope ∧
      Heap.Frame none session.heap (session.go logged limit source).session.heap := by
  rcases go_cases logged limit source with ⟨failure, log, failed⟩ | ⟨tree, watch, log, parsed, _, run⟩
  · rw [failed session]
    exact ⟨rfl, .refl _⟩
  · have framed : Heap.Frame none session.heap
        ((tree.eval watch limit session.scope).heapAfter ⟨session.heap, log⟩) :=
      Run.Meets.heapAfter (eval_frame tree session.scope (.inr (traceless tree parsed))) (.refl _)
    rw [run session, evaluate_eq rfl]
    exact ⟨rfl, framed⟩

theorem Shows.traceless (shown : session.Shows renumbering image) (closed : session.Closed)
    (traceless : Traceless limit source) (logged : Bool) :
    ∃ other : Renumbering, session.Shows other (image.go logged limit source).session ∧
      ∀ id < session.heap.next, other.number id = renumbering.number id := by
  obtain ⟨scope, untouched⟩ := go_traceless traceless image logged
  refine ⟨_, ⟨?_, shown.heap.skip closed.kept untouched⟩, fun id inside => ?_⟩
  · rw [scope, shown.scope_eq, Renumbering.skip_of_lt shown.heap.base_le _ closed.scope]
  · exact Renumbering.skip_of_lt shown.heap.base_le _ inside

theorem shows_self (session : Session) : session.Shows .same session :=
  ⟨rfl, Renumbering.shows_same session.heap⟩

end Session

/-- The marked ones, without their marks. -/
def marked (items : List (α × Bool)) : List α :=
  (items.filter (·.2)).map (·.1)

theorem marked_cons (item : α) (mark : Bool) (items : List (α × Bool)) :
    marked ((item, mark) :: items) = if mark then item :: marked items else marked items := by
  cases mark <;> simp [marked]

def Session.showings (session : Session) (manner : Manner) (lines : List String) : List Showing :=
  (session.reportAll manner lines).map Report.showing

namespace Session

variable {renumbering : Renumbering} {session image : Session}

theorem showings_cons (session : Session) (manner : Manner) (line : String) (lines : List String) :
    session.showings manner (line :: lines) =
      (session.report manner line).showing ::
        if (session.report manner line).escape? = none then
          (session.go manner.debug manner.limit line).session.showings manner lines
        else [] := by
  have next : (session.report manner line).session =
      (session.go manner.debug manner.limit line).session := Outcome.report_session ..
  unfold showings
  simp only [reportAll, next]
  cases (session.report manner line).escape? <;> rfl

/-- Lines without a trace that only the image runs do not show in what the others show, if no fault
escapes from them. -/
theorem Shows.showings_marked (manner : Manner) (lines : List (String × Bool))
    (traceless : ∀ line ∈ lines, line.2 = false → Traceless manner.limit line.1)
    (unescaped : ∀ shown ∈ (image.showings manner (lines.map Prod.fst)).zip (lines.map Prod.snd),
      shown.2 = false → shown.1.escape? = none)
    (shown : session.Shows renumbering image) (closed : session.Closed) :
    session.showings manner (marked lines) =
      marked ((image.showings manner (lines.map Prod.fst)).zip (lines.map Prod.snd)) := by
  induction lines generalizing session image renumbering with
  | nil => rfl
  | cons line lines ih =>
    obtain ⟨source, kept⟩ := line
    have others := fun line member => traceless line (List.mem_cons_of_mem _ member)
    simp only [List.map_cons, showings_cons, List.zip_cons_cons, marked_cons] at unescaped ⊢
    cases kept with
    | true =>
      obtain ⟨alike, closedLater⟩ := shown.go closed manner.debug manner.limit source
      have same : (image.report manner source).showing = (session.report manner source).showing :=
        alike.showing_eq manner
      have escapes : (image.report manner source).escape? = (session.report manner source).escape? :=
        congrArg Showing.escape? same
      simp only [if_true, showings_cons, same, escapes] at unescaped ⊢
      congr 1
      split
      · rename_i goesOn
        rw [if_pos goesOn] at unescaped
        exact ih others (fun shown member => unescaped shown (List.mem_cons_of_mem _ member))
          alike.session closedLater
      · rfl
    | false =>
      have goesOn : (image.report manner source).escape? = none :=
        unescaped _ (List.mem_cons_self ..) rfl
      obtain ⟨other, still, _⟩ := shown.traceless closed
        (traceless (source, false) (List.mem_cons_self ..) rfl) manner.debug
      rw [if_pos goesOn] at unescaped ⊢
      exact ih others (fun shown member => unescaped shown (List.mem_cons_of_mem _ member))
        still closed

end Session

/-- Run after a source without a trace, any source becomes the same as without it, up to the
numbers of new scopes. Leaving out lines without a trace changes nothing that the others show, if
all stored functions are complete, as in a dialogue from the start, or else if no fault escapes from
the lines that are left out and ends the dialogue there. Run twice, a source without a trace shows
the same. -/
theorem traceless_leaves_no_trace (session : Session) (closed : session.Closed) :
    (∀ logged limit source, Traceless limit source → ∀ debug room next,
      ∃ renumbering : Renumbering, (∀ id < session.heap.next, renumbering.number id = id) ∧
        (session.go debug room next).Shows renumbering
          ((session.go logged limit source).session.go debug room next) ∧
        ∀ depth, ((session.go logged limit source).session.go debug room next).display depth =
          (session.go debug room next).display depth) ∧
    (∀ manner (lines : List (String × Bool)),
      (∀ line ∈ lines, line.2 = false → Traceless manner.limit line.1) →
      let shown := (session.showings manner (lines.map Prod.fst)).zip (lines.map Prod.snd)
      (session.heap.Complete ∨ ∀ line ∈ shown, line.2 = false → line.1.escape? = none) →
      session.showings manner (marked lines) = marked shown ∧
      Command.dialogue session manner (marked lines) = Command.script (marked shown)) ∧
    ∀ logged limit source, Traceless limit source → ∀ depth,
      ((session.go logged limit source).session.go logged limit source).display depth =
        (session.go logged limit source).display depth := by
  have later logged limit source (traceless : Traceless limit source) debug room next :
      ∃ renumbering : Renumbering, (∀ id < session.heap.next, renumbering.number id = id) ∧
        (session.go debug room next).Shows renumbering
          ((session.go logged limit source).session.go debug room next) := by
    obtain ⟨renumbering, shown, fixed⟩ := session.shows_self.traceless closed traceless logged
    exact ⟨renumbering, fixed, (shown.go closed debug room next).1⟩
  refine ⟨?_, ?_, ?_⟩
  · intro logged limit source traceless debug room next
    obtain ⟨renumbering, fixed, shown⟩ := later logged limit source traceless debug room next
    exact ⟨renumbering, fixed, shown, shown.display_eq⟩
  · intro manner lines traceless shown unescaped
    have none : ∀ line ∈ shown, line.2 = false → line.1.escape? = none := by
      rcases unescaped with complete | unescaped
      · intro line member _
        obtain ⟨report, among, same⟩ := List.mem_map.mp (List.of_mem_zip member).1
        rw [← same]
        exact Session.reportAll_escape_eq complete manner _ report among
      · exact unescaped
    have same := session.shows_self.showings_marked manner lines traceless none closed
    exact ⟨same, congrArg Command.script same⟩
  · intro logged limit source traceless depth
    obtain ⟨_, _, shown⟩ := later logged limit source traceless logged limit source
    exact shown.display_eq depth

/-- A call that makes a closure, run once more: the second closure has captured another scope and
is displayed alike, and shows as it does where the first call is left out. -/
theorem traceless_leaves_no_trace_call :
    let session : Session := ⟨⟨#[⟨[("f", .fn ["x"]
      (.block [.exprStmt (.fn [] (.block [.exprStmt (.ident "x")]))]) 0)], none⟩]⟩, 0⟩
    session.Closed ∧ session.heap.Complete ∧ Traceless 9 "f(1)" ∧
    Command.dialogue session ⟨9, false, .every⟩ ["f(1)"] =
      Command.script [⟨#[.shown "fn() \x7b x; \x7d"], none⟩] ∧
    ((session.go false 9 "f(1)").session.go false 9 "f(1)").display 9 =
      .ok "fn() \x7b x; \x7d" := by
  intro session
  have closed : session.Closed := by
    refine ⟨⟨?_, ?_⟩, Nat.zero_lt_one⟩
    · intro id scope outer found linked
      cases id with
      | zero =>
        cases found
        cases linked
      | succ id => cases found
    · intro id name value bound
      cases bound.of_single
      refine .leaf ?_ rfl
      rintro _ _ _ ⟨⟩
      exact Nat.zero_lt_one
  have complete : session.heap.Complete := by
    intro id name value bound
    cases bound.of_single
    have statement : (Node.exprStmt (.ident "x")).Complete :=
      .intro nofun nofun (List.forall_mem_singleton.mpr (.intro nofun nofun nofun nofun)) nofun
    have inner : (Node.block [.exprStmt (.ident "x")]).Complete :=
      .intro nofun nofun (List.forall_mem_singleton.mpr statement) nofun
    have closure : (Node.fn [] (.block [.exprStmt (.ident "x")])).Complete :=
      .intro nofun (List.forall_mem_singleton.mpr rfl) nofun (List.forall_mem_singleton.mpr inner)
    refine .leaf (.intro nofun nofun (List.forall_mem_singleton.mpr ?_) nofun) rfl
    exact .intro nofun nofun (List.forall_mem_singleton.mpr closure) nofun
  have parsed : Node.parse 9 "f(1)" = .ok (.program [.exprStmt (.call (.ident "f") [.int 1])]) := by
    cbv
  have traceless : Traceless 9 "f(1)" := by
    intro tree read
    obtain rfl := Except.ok.inj (parsed.symm.trans read)
    have leaf (node : Node) (plain : node.isLet = false) (none : node.parts = []) : node.LetFree :=
      .intro plain (by simp [none])
    have call : (Node.call (.ident "f") [.int 1]).LetFree :=
      .intro rfl (List.forall_mem_cons.mpr
        ⟨leaf _ rfl rfl, List.forall_mem_singleton.mpr (leaf _ rfl rfl)⟩)
    exact .intro rfl (List.forall_mem_singleton.mpr
      (.intro rfl (List.forall_mem_singleton.mpr call)))
  obtain ⟨_, dialogues, twice⟩ := traceless_leaves_no_trace session closed
  refine ⟨closed, complete, traceless, ?_, ?_⟩
  · have both : session.showings ⟨9, false, .every⟩ ["f(1)", "f(1)"] =
        [⟨#[.shown "fn() \x7b x; \x7d"], none⟩, ⟨#[.shown "fn() \x7b x; \x7d"], none⟩] := by
      cbv
    have one := (dialogues ⟨9, false, .every⟩ [("f(1)", false), ("f(1)", true)]
      (by simp [traceless]) (.inl complete)).2
    simpa [both, marked] using one
  · rw [twice false 9 "f(1)" traceless 9]
    cbv

end Capuchin
