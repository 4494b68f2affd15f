import Capuchin.Proofs.RoundTrip.Inverse
import Capuchin.Proofs.RoundTrip.Spellable
import Capuchin.Proofs.Session.Later
import Mathlib

namespace Capuchin

open Grammar

/-- The expression for an integer: a numeral, behind a minus sign if it is negative. -/
def Node.ofInt : Int → Node
  | .ofNat n => .int n
  | .negSucc n => .unary .minus (.int (n + 1 : Nat))

def Key.literal : Key → Node
  | .int value => .ofInt value
  | .bool value => .bool value
  | .str text => .str text

namespace Value

/-- The expression for a value; some values have none. -/
def literal : Value → Node
  | .int value => .ofInt value
  | .bool value => .bool value
  | .str text => .str text
  | .array elements => .array (elements.map fun element => element.literal)
  | .hash entries => .hash (entries.map fun entry => (entry.1.literal, entry.2.literal))
  | .fn params body _ => .fn params body
  | .null | .builtin _ | .returned _ | .error _ _ => .absent
termination_by value => sizeOf value
decreasing_by
  · exact @sizeOf_part (.array elements) _ ‹_›
  · exact @sizeOf_part (.hash entries) _ (List.mem_map_of_mem ‹_›)

def HasLiteral (value : Value) : Prop :=
  value.shape ∈ [.int, .bool, .str, .array, .hash, .fn]

instance (value : Value) : Decidable value.HasLiteral :=
  inferInstanceAs (Decidable (value.shape ∈ _))

/-- The display of the value is a text of its literal. -/
def Displays (value : Value) : Prop :=
  ∃ text, Reaches (value.inspect ·) text ∧ PrintsWhole text.toList value.literal

end Value

section Displaying

variable {value : Value} {limit : Nat} {text : String}

theorem displays_int (value : Int) :
    ∃ text, Reaches (Value.inspect · (.int value)) text ∧ PrintsWhole text.toList (.ofInt value) := by
  refine ⟨Decimal.write value, .step .ok, ?_⟩
  cases value with
  | ofNat n => exact (Expresses.int n).whole
  | negSucc n =>
    have signed := Prints.minus (Expresses.int (n + 1 : Nat))
    simpa [Decimal.write, Node.ofInt] using signed

theorem displays_str (plain : '"' ∉ text.toList) :
    ∃ shown, Reaches (Value.inspect · (.str text)) shown ∧ PrintsWhole shown.toList (.str text) := by
  refine ⟨_, .step .ok, ?_⟩
  simpa using (Expresses.str plain).whole

theorem displays_key {key : Key} (spellable : key.Spellable) :
    ∃ text, Reaches (key.toValue.inspect ·) text ∧ PrintsWhole text.toList key.literal := by
  cases key with
  | int value => exact displays_int value
  | bool value => exact ⟨_, .step .ok, (Expresses.bool value).whole⟩
  | str text => exact displays_str spellable

/-- A statement is written with a semicolon at least. -/
theorem render_statement_ne (formed : WellFormed .statement node)
    (written : Node.render limit node = .ok text) : text ≠ "" := by
  have ends (before : String) : before ++ ";" ≠ "" := by
    intro same
    have characters := congrArg String.toList same
    simp at characters
  cases limit with
  | zero => cases written
  | succ limit =>
    cases formed with
    | letStmt named value =>
      obtain ⟨inside, _, done⟩ := bind_eq_ok written
      exact Except.ok.inj done ▸ ends _
    | returnStmt value =>
      obtain ⟨inside, _, done⟩ := bind_eq_ok written
      exact Except.ok.inj done ▸ ends _
    | exprStmt expression =>
      obtain ⟨inside, _, done⟩ := bind_eq_ok written
      exact Except.ok.inj done ▸ ends _

theorem render_block_ne (formed : WellFormed .statement first)
    (written : Node.render limit (.block (first :: rest)) = .ok text) : text ≠ "" := by
  cases limit with
  | zero => cases written
  | succ limit =>
    obtain ⟨texts, all, done⟩ := bind_eq_ok written
    rw [List.mapM_cons] at all
    obtain ⟨one, begun, all⟩ := bind_eq_ok all
    obtain ⟨others, _, all⟩ := bind_eq_ok all
    have nonempty := render_statement_ne formed begun
    obtain rfl := Except.ok.inj all
    obtain rfl := Except.ok.inj done
    intro same
    have characters := congrArg String.toList same
    cases others with
    | nil => exact nonempty (by simpa using characters)
    | cons second others => simp at characters

theorem inspect_fn (formed : WellFormed .block body) (scope : ScopeId)
    (written : Reaches (Node.render · (.fn params body)) text) :
    Reaches (Value.inspect · (.fn params body scope)) text := by
  obtain ⟨need, reached⟩ := written
  refine ⟨need + 2, fun limit room => ?_⟩
  obtain ⟨limit, rfl⟩ : ∃ other, limit = other + 2 := ⟨limit - 2, by omega⟩
  obtain ⟨braced, inBraces, done⟩ := bind_eq_ok (reached (limit + 2) (by omega))
  obtain rfl := Except.ok.inj done
  cases formed with
  | @block statements each =>
    cases statements with
    | nil =>
      cases inBraces
      rfl
    | cons first rest =>
      obtain ⟨inside, rendered, done⟩ := bind_eq_ok inBraces
      obtain rfl := Except.ok.inj done
      have nonempty := render_block_ne (each first (by simp)) rendered
      have shown : ¬inside.isEmpty = true := by simpa using nonempty
      simp only [Value.inspect, rendered, bind, Except.bind, pure, Except.pure, if_neg shown,
        String.append_assoc]

theorem displays_entry {entry : Key × Value} (spellable : entry.1.Spellable)
    (displayed : entry.2.Displays) :
    ∃ text, Reaches (fun limit => do
        return (← entry.1.toValue.inspect limit) ++ ": " ++ (← entry.2.inspect limit)) text ∧
      Pairs text.toList (entry.1.literal, entry.2.literal) := by
  obtain ⟨keyText, keyReached, key⟩ := displays_key spellable
  obtain ⟨valueText, valueReached, value⟩ := displayed
  refine ⟨_, keyReached.bind (valueReached.bind .ok), keyText.toList, valueText.toList, ?_⟩
  exact ⟨by simp, key, value⟩

theorem displays (throughout : value.Throughout fun part => part.HasLiteral ∧ part.Spellable) :
    value.Displays := by
  induction throughout with
  | @intro value here _ inside =>
    obtain ⟨shape, spellable⟩ := here
    unfold Value.Displays
    cases value with
    | int value =>
      rw [Value.literal]
      exact displays_int value
    | bool value =>
      rw [Value.literal]
      exact ⟨_, .step .ok, (Expresses.bool value).whole⟩
    | str text =>
      rw [Value.literal]
      exact displays_str spellable
    | array elements =>
      obtain ⟨texts, reached, printed⟩ := Reaches.mapM elements inside
      refine ⟨_, .step (reached.bind .ok), ?_⟩
      have each := List.forall₂_map_left_iff.mpr (List.forall₂_map_right_iff.mpr printed)
      rw [Value.literal]
      simpa using (Expresses.array (Prints.list each)).whole
    | hash entries =>
      have one : ∀ entry ∈ entries, _ := fun entry member =>
        displays_entry (spellable.2 entry.1 (List.mem_map_of_mem member))
          (inside entry.2 (List.mem_map_of_mem member))
      obtain ⟨texts, reached, printed⟩ := Reaches.mapM entries one
      refine ⟨_, .step (reached.bind .ok), ?_⟩
      have each := List.forall₂_map_left_iff.mpr (List.forall₂_map_right_iff.mpr printed)
      rw [Value.literal]
      simpa using (Expresses.hash (Prints.entries each)).whole
    | fn params body scope =>
      obtain ⟨text, reached, expressed⟩ := (WellFormed.fn spellable.1 spellable.2).writes
      rw [Value.literal]
      exact ⟨text, inspect_fn spellable.2 scope reached, expressed.whole⟩
    | _ => simp [Value.HasLiteral, Value.shape] at shape

end Displaying

/-- The run ends with the value under every limit high enough, and else it may overflow; the world
stays as it is. -/
structure Settles (run : Nat → Run Transcript Value) (value : Value) : Prop where
  cut : ∀ limit world, run limit world = .error .overflow world ∨ run limit world = .ok value world
  reached : ∃ need, ∀ limit, need ≤ limit → ∀ world, run limit world = .ok value world

namespace Settles

variable {run : Nat → Run Transcript Value} {next : Nat → Value → Run Transcript Value}
  {value result : Value}

theorem pure (value : Value) : Settles (fun _ => pure value) value :=
  ⟨fun _ _ => .inr rfl, 0, fun _ _ _ => rfl⟩

theorem bind (first : Settles run value) (rest : Settles (next · value) result) :
    Settles (fun limit => run limit >>= next limit) result := by
  have goes {limit world} (done : run limit world = .ok value world) :
      (run limit >>= next limit) world = next limit value world := by
    simp only [Bind.bind, EStateM.bind, done]
  refine ⟨fun limit world => ?_, ?_⟩
  · rcases first.cut limit world with stopped | done
    · left
      simp only [Bind.bind, EStateM.bind, stopped]
    · rw [goes done]
      exact rest.cut limit world
  · obtain ⟨need, early⟩ := first.reached
    obtain ⟨other, late⟩ := rest.reached
    refine ⟨need + other, fun limit room world => ?_⟩
    rw [goes (early limit (by omega) world)]
    exact late limit (by omega) world

theorem andThen (first : Settles run value) (calm : value.shape ≠ .error)
    (rest : Settles (next · value) result) :
    Settles (fun limit => Run.andThen (run limit) (next limit)) result := by
  refine first.bind ?_
  cases value with
  | error kind message => exact absurd rfl calm
  | _ => exact rest

/-- A construct settles where it is evaluated, one level deeper. -/
theorem eval {tree : Node} {scope : ScopeId}
    (inner : Settles (fun limit => Evaluate.node .silent limit (Node.eval .silent limit) scope tree)
      value) :
    Settles (fun limit => tree.eval .silent limit scope) value := by
  refine ⟨fun limit world => ?_, ?_⟩
  · cases limit with
    | zero => exact .inl rfl
    | succ limit =>
      rw [eval_silent]
      exact inner.cut limit world
  · obtain ⟨need, reached⟩ := inner.reached
    refine ⟨need + 1, fun limit room world => ?_⟩
    obtain ⟨limit, rfl⟩ : ∃ other, limit = other + 1 := ⟨limit - 1, by omega⟩
    rw [eval_silent]
    exact reached limit (by omega) world

end Settles

/-- In the scope the node evaluates to the value, which is not an error. -/
structure Evaluates (scope : ScopeId) (tree : Node) (value : Value) : Prop where
  settles : Settles (fun limit => tree.eval .silent limit scope) value
  calm : value.shape ≠ .error

section Evaluating

variable {scope : ScopeId} {value result : Value}

theorem settles_parts {next : Nat → List Value → Run Transcript Value} {nodes : List Node}
    {values : List Value} (each : List.Forall₂ (Evaluates scope) nodes values)
    (rest : Settles (next · values) result) :
    Settles (fun limit => Evaluate.parts (Node.eval .silent limit) scope nodes (next limit))
      result := by
  induction each generalizing next with
  | nil => exact rest
  | cons first _ ih => exact first.settles.andThen first.calm (ih rest)

/-- Distinct keys are written in their order. -/
theorem settles_pairs {nodes : List (Node × Node)} {table entries : Table Key Value}
    (each : List.Forall₂ (fun pair entry => Evaluates scope pair.1 entry.1.toValue ∧
      Evaluates scope pair.2 entry.2) nodes entries)
    (distinct : ((table ++ entries).map Prod.fst).Nodup) :
    Settles (fun limit => Evaluate.pairs limit (Node.eval .silent limit) scope nodes table)
      (.hash (table ++ entries)) := by
  induction each generalizing table with
  | nil =>
    rw [List.append_nil]
    exact .pure _
  | @cons pair entry nodes entries first _ ih =>
    obtain ⟨key, value⟩ := entry
    have fresh : key ∉ table.map Prod.fst := by
      intro found
      rw [List.map_append, List.nodup_append] at distinct
      exact distinct.2.2 key found key (by simp) rfl
    have rest := @ih (table ++ [(key, value)]) (by simpa using distinct)
    refine first.1.settles.andThen first.1.calm ?_
    simp only [Value.key?_toValue]
    refine first.2.settles.andThen first.2.calm ?_
    rw [Table.insert_of_notMem fresh]
    simpa using rest

theorem evaluates_int (value : Int) : Evaluates scope (.ofInt value) (.int value) := by
  have numeral (n : Nat) : Evaluates scope (.int n) (.int n) := ⟨.eval (.pure _), nofun⟩
  cases value with
  | ofNat n => exact numeral n
  | negSucc n => exact ⟨.eval ((numeral (n + 1)).settles.andThen nofun (.pure _)), nofun⟩

theorem evaluates_key (key : Key) : Evaluates scope key.literal key.toValue := by
  cases key with
  | int value => exact evaluates_int value
  | bool value => exact ⟨.eval (.pure _), nofun⟩
  | str text => exact ⟨.eval (.pure _), nofun⟩

/-- The literal of a value evaluates to it; functions capture the scope. -/
theorem evaluates_literal
    (throughout : value.Throughout fun part => part.HasLiteral ∧ part.Spellable) :
    Evaluates scope value.literal (value.rename fun _ => scope) := by
  induction throughout with
  | @intro value here _ inside =>
    obtain ⟨shape, spellable⟩ := here
    cases value with
    | int value =>
      rw [Value.literal, Value.rename]
      exact evaluates_int value
    | bool value =>
      rw [Value.literal, Value.rename]
      exact ⟨.eval (.pure _), nofun⟩
    | str text =>
      rw [Value.literal, Value.rename]
      exact ⟨.eval (.pure _), nofun⟩
    | array elements =>
      rw [Value.literal, Value.rename]
      have each := List.forall₂_map_left_iff.mpr
        (List.forall₂_map_right_iff.mpr (List.forall₂_same.mpr inside))
      exact ⟨.eval (settles_parts each (.pure _)), nofun⟩
    | hash entries =>
      rw [Value.literal, Value.rename]
      have one : ∀ entry ∈ entries, Evaluates scope entry.1.literal entry.1.toValue ∧
          Evaluates scope entry.2.literal (entry.2.rename fun _ => scope) :=
        fun entry member => ⟨evaluates_key entry.1, inside entry.2 (List.mem_map_of_mem member)⟩
      have each : List.Forall₂ (fun (pair : Node × Node) (entry : Key × Value) =>
          Evaluates scope pair.1 entry.1.toValue ∧ Evaluates scope pair.2 entry.2)
          (entries.map fun entry => (entry.1.literal, entry.2.literal))
          (entries.map fun entry => (entry.1, entry.2.rename fun _ => scope)) :=
        List.forall₂_map_left_iff.mpr (List.forall₂_map_right_iff.mpr (List.forall₂_same.mpr one))
      have distinct : (([] ++ entries.map fun (entry : Key × Value) =>
          (entry.1, entry.2.rename fun _ => scope)).map Prod.fst).Nodup := by
        simpa [Function.comp_def] using spellable.1
      exact ⟨.eval (settles_pairs each distinct), nofun⟩
    | fn params body captured =>
      rw [Value.literal, Value.rename]
      exact ⟨.eval (.pure _), nofun⟩
    | _ => simp [Value.HasLiteral, Value.shape] at shape

theorem settles_program (evaluates : Evaluates scope tree value) (shape : value.HasLiteral) :
    Settles (fun limit => (Node.program [.exprStmt tree]).eval .silent limit scope) value := by
  have unwrapped : value.unwrap = value := by
    cases value with
    | returned value => simp [Value.HasLiteral, Value.shape] at shape
    | _ => rfl
  have statement : Settles (fun limit => (Node.exprStmt tree).eval .silent limit scope) value :=
    .eval evaluates.settles
  have statements : Settles (fun limit =>
      Evaluate.statements (Node.eval .silent limit) scope [.exprStmt tree] .null) value := by
    refine statement.bind ?_
    split <;> exact .pure value
  have program : Settles (fun limit => do
      return (← Evaluate.statements (Node.eval .silent limit) scope [.exprStmt tree] .null).unwrap)
      value.unwrap := statements.bind (.pure value.unwrap)
  rw [unwrapped] at program
  exact .eval program

end Evaluating

/-- A text of the value's literal, run in any session, ends with the value or overflows while it
is read or evaluated; in no case it leaves a trace. -/
theorem run_literal {value : Value} {text : String}
    (throughout : value.Throughout fun part => part.HasLiteral ∧ part.Spellable)
    (printed : PrintsWhole text.toList value.literal) (start : Session) :
    (∃ need, ∀ limit, need ≤ limit →
      (start.run limit text).result = .ok (value.rename fun _ => start.scope)) ∧
    ∀ limit, (start.run limit text).session = start ∧
      ((start.run limit text).result = .ok (value.rename fun _ => start.scope) ∨
        (start.run limit text).result = .error (.rejected .overflow) ∨
        (start.run limit text).result = .error (.fault .overflow)) := by
  obtain ⟨tokens, scans, spelled⟩ := printed
  have stated : Prints text.toList (.statements [.exprStmt value.literal]) := by
    refine ⟨tokens ++ [], by simpa using scans, .unclosed (.exprStmt spelled) .empty (by simp)⟩
  have parsed := parse_prints stated
  have shape : (value.rename fun _ => start.scope).HasLiteral := by
    rw [Value.HasLiteral, Value.shape_rename]
    exact throughout.here.1
  have settles := settles_program (evaluates_literal throughout) shape
  have evaluated {limit : Nat} {tree : Node} (read : Node.parse limit text = .ok tree) :
      start.run limit text = start.evaluate .silent limit tree #[] := by
    simp only [Session.run, read]
  refine ⟨?_, fun limit => ?_⟩
  · obtain ⟨need, reached⟩ := settles.reached
    refine ⟨need + text.length + 2, fun limit room => ?_⟩
    rw [evaluated ((parsed limit).2 (by omega)), Session.evaluate, EStateM.run,
      reached limit (by omega)]
  · rcases (parsed limit).1 with stopped | read
    · have refused : start.run limit text = ⟨.error (.rejected .overflow), #[], start⟩ := by
        simp only [Session.run, stopped]
      rw [refused]
      exact ⟨rfl, .inr (.inl rfl)⟩
    · rw [evaluated read, Session.evaluate, EStateM.run]
      rcases settles.cut limit ⟨start.heap, #[]⟩ with stopped | done
      · rw [stopped]
        exact ⟨rfl, .inr (.inr rfl)⟩
      · rw [done]
        exact ⟨rfl, .inl rfl⟩

/-- What sessions of source texts store and end with is spellable throughout. -/
theorem Session.Later.spellable {session : Session} (later : Session.fresh.Later session) :
    (∀ id name value, session.heap.Binds id name value → value.Throughout Value.Spellable) ∧
    ∀ logged limit source value, (session.go logged limit source).result = .ok value →
      value.HasLiteral → value.Throughout Value.Spellable := by
  have empty : Law.spellable.Kept fresh.heap := fresh_kept trivial
  obtain ⟨_, _, kept⟩ := later.kept empty
    fun _ _ _ tree _ parsed => ⟨.program, parse_wellFormed parsed⟩
  refine ⟨kept.bound, fun logged limit source value done shape => ?_⟩
  obtain ⟨_, _, _, yields⟩ := go_kept kept fun tree parsed => ⟨.program, parse_wellFormed parsed⟩
  rcases yields value done with ⟨kind, message, rfl⟩ | allowed
  · simp [Value.HasLiteral, Value.shape] at shape
  · exact allowed

/-- If a value with a literal, at every depth, is bound in a session of source texts or is what
a source ends with there, then it is displayed as a text that, run as a source in any session, ends
with the value again, functions having captured the scope of that session. Displaying and running
may overflow, but not under limits high enough. -/
theorem display_runs_back {session : Session} (later : Session.fresh.Later session) {value : Value}
    (made : (∃ id name, session.heap.Binds id name value) ∨
      ∃ logged limit source, (session.go logged limit source).result = .ok value)
    (plain : value.Throughout Value.HasLiteral) :
    ∃ text, (∃ need, ∀ limit, need ≤ limit → value.inspect limit = .ok text) ∧
      (∀ limit, value.inspect limit = .error .overflow ∨ value.inspect limit = .ok text) ∧
      ∀ start : Session,
        (∃ need, ∀ limit, need ≤ limit →
          (start.run limit text).result = .ok (value.rename fun _ => start.scope)) ∧
        ∀ limit, (start.run limit text).session = start ∧
          ((start.run limit text).result = .ok (value.rename fun _ => start.scope) ∨
            (start.run limit text).result = .error (.rejected .overflow) ∨
            (start.run limit text).result = .error (.fault .overflow)) := by
  obtain ⟨bound, ended⟩ := later.spellable
  have spellable : value.Throughout Value.Spellable := by
    rcases made with ⟨id, name, found⟩ | ⟨logged, limit, source, done⟩
    · exact bound id name value found
    · exact ended logged limit source value done plain.here
  have both := plain.and spellable
  obtain ⟨text, reached, printed⟩ := displays both
  have cut := reached.cut fun limit more order => Value.inspect_cut order value
  exact ⟨text, reached, cut, run_literal both printed⟩

/-- A hash with a negative key, a function, and a string made by concatenation, run in another
scope. -/
theorem display_runs_back_hash :
    Session.fresh.Later (Session.fresh.go false 30
      "let h = \x7b-1: fn(x) \x7b x \x7d, \"a\" + \"b\": [true]\x7d;").session ∧
    (Session.fresh.go false 30
      "let h = \x7b-1: fn(x) \x7b x \x7d, \"a\" + \"b\": [true]\x7d;").session.heap.Binds 0 "h"
        (.hash [(.int (-1), .fn ["x"] (.block [.exprStmt (.ident "x")]) 0),
          (.str "ab", .array [.bool true])]) ∧
    ∃ limit, ((Session.mk ⟨#[⟨[], none⟩, ⟨[], some 0⟩]⟩ 1).run limit
        "\x7b-1: fn(x) \x7b x; \x7d, \"ab\": [true]\x7d").result =
      .ok (.hash [(.int (-1), .fn ["x"] (.block [.exprStmt (.ident "x")]) 1),
        (.str "ab", .array [.bool true])]) := by
  have later : Session.fresh.Later (Session.fresh.go false 30
      "let h = \x7b-1: fn(x) \x7b x \x7d, \"a\" + \"b\": [true]\x7d;").session :=
    .go .start false 30 _
  have bound : (Session.fresh.go false 30
      "let h = \x7b-1: fn(x) \x7b x \x7d, \"a\" + \"b\": [true]\x7d;").session.heap.Binds 0 "h"
        (.hash [(.int (-1), .fn ["x"] (.block [.exprStmt (.ident "x")]) 0),
          (.str "ab", .array [.bool true])]) :=
    ⟨⟨[("h", .hash [(.int (-1), .fn ["x"] (.block [.exprStmt (.ident "x")]) 0),
      (.str "ab", .array [.bool true])])], none⟩, by cbv, rfl⟩
  have plain : (Value.hash [(.int (-1), .fn ["x"] (.block [.exprStmt (.ident "x")]) 0),
      (.str "ab", .array [.bool true])]).Throughout Value.HasLiteral := by
    have function : (Value.fn ["x"] (.block [.exprStmt (.ident "x")]) 0).Throughout
        Value.HasLiteral := .leaf (by decide) rfl
    have array : (Value.array [.bool true]).Throughout Value.HasLiteral :=
      .intro (by decide) (List.forall_mem_singleton.mpr (.leaf (by decide) rfl))
    exact .intro (by decide) (List.forall_mem_cons.mpr ⟨function, List.forall_mem_singleton.mpr array⟩)
  obtain ⟨text, _, shown, runs⟩ := display_runs_back later (.inl ⟨0, "h", bound⟩) plain
  have displayed : (Value.hash [(.int (-1), .fn ["x"] (.block [.exprStmt (.ident "x")]) 0),
      (.str "ab", .array [.bool true])]).inspect 9 =
        .ok "\x7b-1: fn(x) \x7b x; \x7d, \"ab\": [true]\x7d" := by
    have numeral : Decimal.write (-1) = "-1" := by
      show String.ofList ('-' :: Decimal.digits 1) = _
      rw [Decimal.digits_eq]
      decide
    simp only [Value.inspect, Key.toValue, List.mapM_cons, List.mapM_nil, numeral]
    cbv
  obtain rfl : text = "\x7b-1: fn(x) \x7b x; \x7d, \"ab\": [true]\x7d" := by
    have same := (shown 9).resolve_left (by simp [displayed])
    exact Except.ok.inj (same.symm.trans displayed)
  obtain ⟨⟨need, back⟩, _⟩ := runs (Session.mk ⟨#[⟨[], none⟩, ⟨[], some 0⟩]⟩ 1)
  refine ⟨later, bound, need, ?_⟩
  rw [back need (Nat.le_refl need)]
  simp

end Capuchin
