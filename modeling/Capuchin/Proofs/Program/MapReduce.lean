import Capuchin.Proofs.Evaluate.Calling
import Capuchin.Proofs.RoundTrip.Display
import Mathlib

namespace Capuchin.MapReduce

open Grammar Parse

/-- The source up to the elements of the array. -/
def opening : String := "
            let map = fn(arr, f) \x7b
                let iter = fn(arr, acc) \x7b
                    if (len(arr) == 0) \x7b acc \x7d else \x7b iter(rest(arr), push(acc, f(first(arr)))) \x7d
                \x7d;
                iter(arr, []);
            \x7d;
            let reduce = fn(arr, initial, f) \x7b
                let iter = fn(arr, result) \x7b
                    if (len(arr) == 0) \x7b result \x7d else \x7b iter(rest(arr), f(result, first(arr))) \x7d
                \x7d;
                iter(arr, initial);
            \x7d;
            let doubled = map(["

/-- The source after the elements of the array. -/
def closing : String := "], fn(x) \x7b x * 2 \x7d);
            reduce(doubled, 0, fn(a, b) \x7b a + b \x7d);
        "

/-- The program for an array of these numbers. -/
def source (numbers : List Int) : String :=
  opening ++ ", ".intercalate (numbers.map Decimal.write) ++ closing

section Trees

/-- The body of `iter`: an accumulator of that name is handed on until the array is empty. -/
def loop (acc : String) (step : Node) : Node :=
  .block [.exprStmt (.ifElse (.binary (.call (.ident "len") [.ident "arr"]) .eq (.int 0))
    (.block [.exprStmt (.ident acc)])
    (.block [.exprStmt (.call (.ident "iter") [.call (.ident "rest") [.ident "arr"], step])]))]

/-- The body of a function that loops through its array. -/
def walk (initial : Node) (acc : String) (step : Node) : Node :=
  .block [.letStmt "iter" (.fn ["arr", acc] (loop acc step)),
    .exprStmt (.call (.ident "iter") [.ident "arr", initial])]

def mapStep : Node :=
  .call (.ident "push") [.ident "acc", .call (.ident "f") [.call (.ident "first") [.ident "arr"]]]

def reduceStep : Node :=
  .call (.ident "f") [.ident "result", .call (.ident "first") [.ident "arr"]]

def mapBody : Node :=
  walk (.array []) "acc" mapStep

def reduceBody : Node :=
  walk (.ident "initial") "result" reduceStep

def doubleBody : Node :=
  .block [.exprStmt (.binary (.ident "x") .times (.int 2))]

def addBody : Node :=
  .block [.exprStmt (.binary (.ident "a") .plus (.ident "b"))]

def definitions : List Node :=
  [.letStmt "map" (.fn ["arr", "f"] mapBody),
    .letStmt "reduce" (.fn ["arr", "initial", "f"] reduceBody)]

/-- The statements of the program, given the elements of the array. -/
def statements (elements : List Node) : List Node :=
  definitions ++
    [.letStmt "doubled" (.call (.ident "map") [.array elements, .fn ["x"] doubleBody]),
      .exprStmt (.call (.ident "reduce") [.ident "doubled", .int 0, .fn ["a", "b"] addBody])]

end Trees

section Reading

theorem ofSource_ofList (text : List Char) :
    Token.ofSource (String.ofList text) = Token.scan text := by
  rw [Token.ofSource, String.toList_ofList]

/-- Where the array stands. -/
def place : Hole :=
  .argument (.letValue .program definitions "doubled") (.ident "map") []

set_option maxRecDepth 4000 in
theorem opening_read : ∃ tokens, Token.Seals opening.toList tokens ∧
    State.start.feedAll 8 tokens = .ok (.firstElement place) := by
  have scanned : Token.ofSource opening = Token.scan _ := ofSource_ofList _
  have ends : Token.scan opening.toList =
      (Token.ofSource opening).dropLast.dropLast ++ [.mark .lbracket, .eof] := by
    rw [← Token.ofSource, scanned]
    cbv
  refine ⟨_, Token.seals_of_mark (c := '[') rfl ends, ?_⟩
  rw [scanned]
  cbv

theorem closing_read : ∃ tokens, Token.scan closing.toList = .mark .rbracket :: tokens ∧
    ∀ elements, (State.operator place (.array elements)).feedAll 8 tokens =
      .ok (.finished (statements elements)) := by
  have scanned : Token.ofSource closing = Token.scan _ := ofSource_ofList _
  refine ⟨(Token.ofSource closing).drop 1, ?_, fun elements => ?_⟩
  · rw [← Token.ofSource, scanned]
    cbv
  · rw [scanned]
    cbv

theorem number_read (number : Int) : ∃ tokens,
    Token.Scans (Decimal.write number).toList tokens ∧ Feeds tokens 1 (.whole (.ofInt number)) := by
  have numeral (tier : Tier) (n : Nat) :
      Feeds [.int (Decimal.write n)] 0 (.expression tier (.int n)) :=
    .ofOperator fun limit hole _ => by
      simp [State.feedAll, State.feed, Hole.begin, Decimal.read_write]
  cases number with
  | ofNat n => exact ⟨_, scans_numeral n, (numeral _ n).mono (Nat.zero_le 1)⟩
  | negSucc n =>
    have signed : Feeds [.mark .minus, .int (Decimal.write (n + 1 : Nat))] 1
        (.expression .unary (.unary .minus (.int (n + 1 : Nat)))) :=
      Feeds.unary (fun _ _ => rfl) (numeral _ (n + 1))
    refine ⟨_, ?_, .loosen (.loosen (.loosen (.loosen signed)))⟩
    have scanned := (Token.Seals.mark (c := '-') rfl).append_scans (scans_numeral (n + 1))
    simpa [Decimal.write] using scanned

/-- Each number of a list is read with one more open expression at most. -/
theorem items_read (number : Int) (numbers : List Int) : ∃ tokens,
    Token.Scans ([',', ' '].intercalate ((number :: numbers).map (Decimal.write · |>.toList)))
      tokens ∧
    Feeds tokens (numbers.length + 2) (.items ((number :: numbers).map .ofInt)) := by
  induction numbers generalizing number with
  | nil =>
    obtain ⟨tokens, scanned, feeds⟩ := number_read number
    exact ⟨tokens, by simpa using scanned, feeds.lastItem⟩
  | cons second numbers ih =>
    obtain ⟨tokens, scanned, feeds⟩ := number_read number
    obtain ⟨others, scannedOthers, feedsOthers⟩ := ih second
    refine ⟨_, ?_, (feeds.mono (Nat.le_add_left 1 _)).moreItems feedsOthers⟩
    have spaced := scans_blank (c := ' ') rfl scannedOthers
    simpa using scans_between (c := ',') rfl scanned rfl spaced

theorem numbers_read (numbers : List Int) : ∃ tokens,
    Token.Scans (", ".intercalate (numbers.map Decimal.write)).toList tokens ∧
    Feeds tokens (numbers.length + 2) (.list (numbers.map .ofInt)) := by
  cases numbers with
  | nil => exact ⟨[], Token.Seals.nil.scans, Feeds.noItems.mono (Nat.zero_le _)⟩
  | cons number numbers =>
    obtain ⟨tokens, scanned, feeds⟩ := items_read number numbers
    exact ⟨tokens, by simpa [Function.comp_def] using scanned, feeds.someItems⟩

/-- The source is read as the program, and the limit has to allow for the list of numbers only. -/
theorem source_parse (numbers : List Int) (room : numbers.length + 8 ≤ limit) :
    Node.parse limit (source numbers) = .ok (.program (statements (numbers.map .ofInt))) := by
  obtain ⟨before, sealed, opened⟩ := opening_read
  obtain ⟨inside, scanned, listed⟩ := numbers_read numbers
  obtain ⟨after, ended, closed⟩ := closing_read
  have tokens : Token.ofSource (source numbers) = before ++ (inside ++ .mark .rbracket :: after) := by
    have apart : Token.Delimited closing.toList := by
      rw [closing, String.toList_ofList]
      exact delimited rfl
    rw [Token.ofSource, source, String.toList_append, String.toList_append, List.append_assoc,
      sealed, scanned _ apart, ended]
  have early := (feedAll_cut (by omega : 8 ≤ limit) State.start before).eq_ok opened
  have late := (feedAll_cut (by omega : 8 ≤ limit) _ after).eq_ok (closed (numbers.map .ofInt))
  have middle : (State.firstElement place).feedAll limit (inside ++ [.mark .rbracket]) =
      .ok (.operator place (.array (numbers.map .ofInt))) :=
    listed limit (.array place) (by simp only [Row.outer, place, Hole.depth, Site.depth]; omega)
  have fed : State.start.feedAll limit (before ++ (inside ++ .mark .rbracket :: after)) =
      .ok (.finished (statements (numbers.map .ofInt))) := by
    rw [feedAll_append early, List.append_cons, feedAll_append middle]
    exact late
  rw [Node.parse, tokens, Node.ofTokens, fed]
  rfl

end Reading

/-- The built-in functions are found by their names, which have no other meaning. -/
def Bare (heap : Heap) (scope : ScopeId) : Prop :=
  ∀ builtin : Builtin, heap.find? scope builtin.name = none

def numerals (numbers : List Int) : Value :=
  .array (numbers.map .int)

/-- In a call of the loop, where the array begins with a number and the accumulator has a value, the
step has the updated value. Other names are found as from the scope that the loop was written in. -/
def Steps (σ : Type) (view : α → Value) (update : α → Int → α) (acc : String) (step : Node)
    (heap : Heap) (home : ScopeId) : Prop :=
  ∀ later scope state number numbers, heap.Frame none later →
    (∀ name, later.find? scope name =
      (Table.get? name [(acc, view state), ("arr", numerals (number :: numbers))]).or
        (heap.find? home name)) →
    Evals σ scope step 6 later (view (update state number))

/-- A loop that was written in the scope `home` and hands on states of some type. -/
structure Loop (σ : Type) (view : α → Value) (update : α → Int → α) (acc : String) (step : Node)
    (heap : Heap) (home : ScopeId) : Prop where
  inside : home < heap.next
  bare : Bare heap home
  itself : heap.find? home "iter" = some (.fn ["arr", acc] (loop acc step) home)
  named : acc ∉ ["arr", "iter", "len", "rest"]
  plain : ∀ state, (view state).stops = false
  steps : Steps σ view update acc step heap home

section Folding

variable {σ α : Type} {view : α → Value} {update : α → Int → α} {acc : String} {step : Node}
  {heap later : Heap} {home : ScopeId}

theorem Loop.unwrap (looping : Loop σ view update acc step heap home) (state : α) :
    (view state).unwrap = view state := by
  have plain := looping.plain state
  cases shown : view state <;> simp_all [Value.unwrap, Value.stops]

/-- What is found in a call of the loop. -/
theorem Loop.find? (looping : Loop σ view update acc step heap home) (kept : heap.Frame none later)
    (state : α) (numbers : List Int) (name : String) :
    (later.entered home [("arr", numerals numbers), (acc, view state)]).find? later.next name =
      (Table.get? name [(acc, view state), ("arr", numerals numbers)]).or (heap.find? home name) := by
  rw [Heap.find?_entered (Nat.lt_of_lt_of_le looping.inside kept.next_le),
    kept.find?_eq looping.inside]
  rfl

theorem Loop.names (looping : Loop σ view update acc step heap home) (kept : heap.Frame none later)
    (state : α) (numbers : List Int) {inner : Heap}
    (entered : inner = later.entered home [("arr", numerals numbers), (acc, view state)]) :
    inner.find? later.next "arr" = some (numerals numbers) ∧
    inner.find? later.next acc = some (view state) ∧
    inner.find? later.next "iter" = some (.fn ["arr", acc] (loop acc step) home) ∧
    inner.find? later.next "len" = none ∧ inner.find? later.next "rest" = none := by
  have named := looping.named
  simp only [List.mem_cons, List.not_mem_nil, or_false, not_or] at named
  have len : heap.find? home "len" = none := looping.bare .len
  have rest : heap.find? home "rest" = none := looping.bare .rest
  simp [entered, looping.find? kept, Table.get?, named, looping.itself, len, rest]

theorem gives_test {scope : ScopeId} (numbers : List Int) (unbound : heap.find? scope "len" = none)
    (found : heap.find? scope "arr" = some (numerals numbers)) :
    Gives σ scope (.binary (.call (.ident "len") [.ident "arr"]) .eq (.int 0)) (need + 3) heap
      (.bool (numbers.length = 0)) heap := by
  have length : Gives σ scope (.call (.ident "len") [.ident "arr"]) (need + 2) heap
      (.int numbers.length) heap := by
    refine .callBuiltin unbound rfl (.ident found) rfl ?_
    simp [numerals, Builtin.apply]
  refine .binary length rfl (.int 0 heap) rfl fun _ _ => ?_
  simp [Value.applyBinary, Value.applyInt, Complaint.settle]

/-- Each call of the loop takes the first number off the array. -/
theorem Loop.calls (looping : Loop σ view update acc step heap home) (numbers : List Int) (state : α)
    (kept : heap.Frame none later) :
    Calls σ (.fn ["arr", acc] (loop acc step) home) [numerals numbers, view state]
      (6 * numbers.length + 6) later (view (numbers.foldl update state)) := by
  induction numbers generalizing state later with
  | nil =>
    obtain ⟨array, given, _, len, _⟩ := looping.names kept state [] rfl
    refine .fn (.sole (.ifElse (gives_test [] len array) rfl ?_)) (looping.unwrap _)
    exact .sole (Gives.ident given).computes
  | cons number numbers ih =>
    obtain ⟨array, _, itself, len, rest⟩ := looping.names kept state (number :: numbers) rfl
    have others : Gives σ later.next (.call (.ident "rest") [.ident "arr"]) (6 * numbers.length + 6)
        (later.entered home [("arr", numerals (number :: numbers)), (acc, view state)])
        (numerals numbers)
        (later.entered home [("arr", numerals (number :: numbers)), (acc, view state)]) :=
      .callBuiltin rest rfl (.ident array) rfl rfl
    have within : heap.Frame none
        (later.entered home [("arr", numerals (number :: numbers)), (acc, view state)]) :=
      kept.trans (.of_entered (.refl _))
    have updated := looping.steps _ _ state number numbers within (looping.find? kept state _)
    refine .fn (.sole (.ifElse (gives_test (number :: numbers) len array) rfl ?_)) (looping.unwrap _)
    refine .sole (.call (.ident itself) rfl (.cons_same others rfl ?_))
    refine .cons (updated.weaken (Nat.le_add_left 6 _)) (looping.plain _) fun middle frame => .nil ?_
    exact ih (update state number) (within.trans frame)

def walked (heap : Heap) (captured : ScopeId) (bindings : List (String × Value)) (acc : String)
    (step : Node) : Heap :=
  (heap.entered captured bindings).write heap.next "iter"
    (.fn ["arr", acc] (loop acc step) heap.next)

theorem next_walked (heap : Heap) (captured : ScopeId) (bindings : List (String × Value))
    (acc : String) (step : Node) :
    (walked heap captured bindings acc step).next = heap.next + 1 := by
  rw [walked, Heap.next_write, Heap.next_entered]

theorem find?_walked {captured : ScopeId} (inside : captured < heap.next)
    (bindings : List (String × Value)) (acc : String) (step : Node) (name : String) :
    (walked heap captured bindings acc step).find? heap.next name =
      if "iter" = name then some (.fn ["arr", acc] (loop acc step) heap.next)
      else (Table.get? name bindings.reverse).or (heap.find? captured name) := by
  rw [walked, Heap.find?_write (by rw [Heap.next_entered]; exact Nat.lt_succ_self _),
    Heap.find?_entered inside]

theorem frame_walked (heap : Heap) (captured : ScopeId) (bindings : List (String × Value))
    (acc : String) (step : Node) : heap.Frame none (walked heap captured bindings acc step) :=
  .of_entered (.write _ _ _ _)

/-- The loop of a function whose parameters do not hide the built-in functions. -/
theorem loop_walked {captured : ScopeId} {bindings : List (String × Value)}
    (inside : captured < heap.next) (bare : Bare heap captured)
    (apart : ∀ builtin : Builtin, Table.get? builtin.name bindings.reverse = none)
    (named : acc ∉ ["arr", "iter", "len", "rest"]) (plain : ∀ state, (view state).stops = false)
    (steps : Steps σ view update acc step (walked heap captured bindings acc step) heap.next) :
    Loop σ view update acc step (walked heap captured bindings acc step) heap.next := by
  refine ⟨?_, fun builtin => ?_, ?_, named, plain, steps⟩
  · rw [next_walked]
    exact Nat.lt_succ_self _
  · rw [find?_walked inside, if_neg (by cases builtin <;> decide), apart, bare]
    rfl
  · rw [find?_walked inside, if_pos rfl]

/-- A function that walks through its array folds it. -/
theorem walk_calls {captured : ScopeId} {params : List String} {args : List Value}
    {bindings : List (String × Value)} {initial : Node} {numbers : List Int} {state : α}
    (given : params.zip args = bindings)
    (looping : Loop σ view update acc step (walked heap captured bindings acc step) heap.next)
    (array : (walked heap captured bindings acc step).find? heap.next "arr" =
      some (numerals numbers))
    (begun : Gives σ heap.next initial 1 (walked heap captured bindings acc step) (view state)
      (walked heap captured bindings acc step)) :
    Calls σ (.fn params (walk initial acc step) captured) args (6 * numbers.length + 9) heap
      (view (numbers.foldl update state)) := by
  subst given
  have called : Evals σ heap.next (.call (.ident "iter") [.ident "arr", initial])
      (6 * numbers.length + 7) (walked heap captured (params.zip args) acc step)
      (view (numbers.foldl update state)) :=
    .call (.ident looping.itself) rfl (.cons_same (.ident array) rfl
      (.cons_same (begun.weaken (Nat.le_add_left 1 _)) (looping.plain _)
        (.nil (looping.calls numbers state (.refl _)))))
  obtain ⟨later, frame, ended⟩ := called
  have stated : Gives σ heap.next (.exprStmt (.call (.ident "iter") [.ident "arr", initial]))
      (6 * numbers.length + 8) (walked heap captured (params.zip args) acc step)
      (view (numbers.foldl update state)) later := .eval ended
  have body : Gives σ heap.next (walk initial acc step) (6 * numbers.length + 9)
      (heap.entered captured (params.zip args)) (view (numbers.foldl update state)) later :=
    .eval (Gives.letStmt (.fn _ _ _) rfl (stated.last .null) .null)
  have delivered := Delivers.apply_fn body
  rw [looping.unwrap] at delivered
  exact ⟨later, .of_entered ((Heap.Frame.write _ _ _ _).trans frame.of_none), delivered⟩

theorem map_calls {captured : ScopeId} {function : Value} {change : Int → Int}
    (inside : captured < heap.next) (bare : Bare heap captured)
    (changes : ∀ later number, heap.Frame none later →
      Calls σ function [.int number] 4 later (.int (change number)))
    (plain : function.stops = false) (numbers : List Int) :
    Calls σ (.fn ["arr", "f"] mapBody captured) [numerals numbers, function]
      (6 * numbers.length + 9) heap (numerals (numbers.map change)) := by
  have found := find?_walked inside [("arr", numerals numbers), ("f", function)] "acc" mapStep
  have steps : Steps σ numerals (fun done number => done ++ [change number]) "acc" mapStep
      (walked heap captured [("arr", numerals numbers), ("f", function)] "acc" mapStep)
      heap.next := by
    intro later scope done number others kept names
    have push : later.find? scope "push" = none := by
      simpa [names, found, Table.get?, Builtin.name] using bare .push
    have first : later.find? scope "first" = none := by
      simpa [names, found, Table.get?, Builtin.name] using bare .first
    have array : later.find? scope "arr" = some (numerals (number :: others)) := by
      simp [names, Table.get?]
    have result : later.find? scope "acc" = some (numerals done) := by
      simp [names, Table.get?]
    have mapped : later.find? scope "f" = some function := by
      simp [names, found, Table.get?]
    have changed : Evals σ scope (.call (.ident "f") [.call (.ident "first") [.ident "arr"]]) 5 later
        (.int (change number)) :=
      .call (.ident mapped) plain (.cons_same (.callBuiltin first rfl (.ident array) rfl rfl)
        rfl (.nil (changes later number ((frame_walked _ _ _ _ _).trans kept))))
    refine .call (.builtin push rfl) rfl (.cons_same (.ident result) rfl
      (.cons changed rfl fun _ _ => .nil (.builtin ?_)))
    simp [numerals, Builtin.apply]
  have looping := loop_walked inside bare (fun builtin => by cases builtin <;> rfl) (by decide)
    (fun _ => rfl) steps
  have folded : numbers.map change =
      numbers.foldl (fun done number => done ++ [change number]) [] := by
    rw [List.foldl_append_eq_append, List.nil_append, List.map_eq_flatMap, List.flatMap_def]
  rw [folded]
  exact walk_calls rfl looping (by simp [found, Table.get?]) (.eval (.pure _ _))

theorem reduce_calls {captured : ScopeId} {function : Value} {combine : Int → Int → Int}
    (inside : captured < heap.next) (bare : Bare heap captured)
    (combines : ∀ later total number, heap.Frame none later →
      Calls σ function [.int total, .int number] 4 later (.int (combine total number)))
    (plain : function.stops = false) (numbers : List Int) (start : Int) :
    Calls σ (.fn ["arr", "initial", "f"] reduceBody captured)
      [numerals numbers, .int start, function] (6 * numbers.length + 9) heap
      (.int (numbers.foldl combine start)) := by
  have found := find?_walked inside
    [("arr", numerals numbers), ("initial", .int start), ("f", function)] "result" reduceStep
  have steps : Steps σ .int combine "result" reduceStep (walked heap captured
      [("arr", numerals numbers), ("initial", .int start), ("f", function)] "result" reduceStep)
      heap.next := by
    intro later scope total number others kept names
    have first : later.find? scope "first" = none := by
      simpa [names, found, Table.get?, Builtin.name] using bare .first
    have array : later.find? scope "arr" = some (numerals (number :: others)) := by
      simp [names, Table.get?]
    have result : later.find? scope "result" = some (.int total) := by
      simp [names, Table.get?]
    have combined : later.find? scope "f" = some function := by
      simp [names, found, Table.get?]
    have called := combines later total number ((frame_walked _ _ _ _ _).trans kept)
    exact .call (.ident combined) plain (.cons_same (.ident result) rfl
      (.cons_same (.callBuiltin first rfl (.ident array) rfl rfl) rfl
        (.nil (called.weaken (Nat.le_succ 4)))))
  have looping := loop_walked inside bare (fun builtin => by cases builtin <;> rfl) (by decide)
    (fun _ => rfl) steps
  exact walk_calls rfl looping (by simp [found, Table.get?]) (.ident (by simp [found, Table.get?]))

theorem double_calls {captured : ScopeId} (inside : captured < heap.next) (number : Int) :
    Calls σ (.fn ["x"] doubleBody captured) [.int number] 4 heap (.int (number * 2)) := by
  have found : (heap.entered captured [("x", .int number)]).find? heap.next "x" =
      some (.int number) := by
    simp [Heap.find?_entered inside, Table.get?]
  exact .fn (.sole (Gives.binary (.ident found) rfl (.int 2 _) rfl fun _ _ => rfl).computes) rfl

theorem add_calls {captured : ScopeId} (inside : captured < heap.next) (total number : Int) :
    Calls σ (.fn ["a", "b"] addBody captured) [.int total, .int number] 4 heap
      (.int (total + number)) := by
  have left : (heap.entered captured [("a", .int total), ("b", .int number)]).find? heap.next "a" =
      some (.int total) := by
    simp [Heap.find?_entered inside, Table.get?]
  have right : (heap.entered captured [("a", .int total), ("b", .int number)]).find? heap.next "b" =
      some (.int number) := by
    simp [Heap.find?_entered inside, Table.get?]
  exact .fn (.sole (Gives.binary (.ident left) rfl (.ident right) rfl fun _ _ => rfl).computes) rfl

end Folding

section Program

variable {σ : Type} {scope : ScopeId} {heap : Heap}

theorem gives_number (number : Int) (heap : Heap) :
    Gives σ scope (.ofInt number) (need + 2) heap (.int number) heap := by
  cases number with
  | ofNat n => exact .int _ _
  | negSucc n => exact .unary (.int _ _) rfl rfl

theorem gives_numerals (numbers : List Int) (heap : Heap) :
    Gives σ scope (.array (numbers.map .ofInt)) (need + 3) heap (numerals numbers) heap := by
  -- The values of the elements are handed on, so what is done with them is arbitrary.
  have each (next : Nat → List Value → Run σ Value) (result : Value)
      (rest : Delivers (next · (numbers.map .int)) (need + 2) heap result heap) :
      Delivers (fun limit => Evaluate.parts (Node.eval .silent limit) scope (numbers.map .ofInt)
        (next limit)) (need + 2) heap result heap := by
    induction numbers generalizing next with
    | nil => exact rest
    | cons number numbers ih => exact (gives_number number heap).andThen rfl (ih _ rest)
  exact .eval (each _ _ (.pure _ _))

theorem Bare.write {name : String} (bare : Bare heap scope) (inside : scope < heap.next)
    (apart : ∀ builtin : Builtin, name ≠ builtin.name) (value : Value) :
    Bare (heap.write scope name value) scope := by
  intro builtin
  rw [Heap.find?_write inside, if_neg (apart builtin), bare]

theorem Bare.frame (bare : Bare heap scope) (inside : scope < heap.next)
    (frame : heap.Frame none later) : Bare later scope := by
  intro builtin
  rw [frame.find?_eq inside, bare]

theorem fresh_bare : Bare Session.fresh.heap Session.fresh.scope := by
  intro builtin
  cases found : Session.fresh.heap.find? Session.fresh.scope builtin.name with
  | none => rfl
  | some value =>
    obtain ⟨_, bound⟩ := Heap.binds_of_find? found
    exact (Session.fresh_unbound bound).elim

/-- The numbers are doubled where `map` is defined. -/
theorem doubled_evals (inside : scope < heap.next) (bare : Bare heap scope)
    (defined : heap.find? scope "map" = some (.fn ["arr", "f"] mapBody scope)) (numbers : List Int) :
    Evals σ scope (.call (.ident "map") [.array (numbers.map .ofInt), .fn ["x"] doubleBody])
      (6 * numbers.length + 10) heap (numerals (numbers.map (· * 2))) := by
  have closure : Gives σ scope (.fn ["x"] doubleBody) (6 * numbers.length + 9) heap
      (.fn ["x"] doubleBody scope) heap := .fn _ _ _
  have doubles later number (frame : heap.Frame none later) :
      Calls σ (.fn ["x"] doubleBody scope) [.int number] 4 later (.int (number * 2)) :=
    double_calls (Nat.lt_of_lt_of_le inside frame.next_le) number
  have called := map_calls inside bare doubles rfl numbers
  exact .call (.ident defined) rfl (.cons_same (gives_numerals numbers heap) rfl
    (.cons_same closure rfl (.nil called)))

/-- The numbers are added up where `reduce` is defined. -/
theorem total_evals (inside : scope < heap.next) (bare : Bare heap scope)
    (defined : heap.find? scope "reduce" = some (.fn ["arr", "initial", "f"] reduceBody scope))
    (bound : heap.find? scope "doubled" = some (numerals numbers)) :
    Evals σ scope (.call (.ident "reduce") [.ident "doubled", .int 0, .fn ["a", "b"] addBody])
      (6 * numbers.length + 10) heap (.int numbers.sum) := by
  have closure : Gives σ scope (.fn ["a", "b"] addBody) (6 * numbers.length + 9) heap
      (.fn ["a", "b"] addBody scope) heap := .fn _ _ _
  have zero : Gives σ scope (.int 0) (6 * numbers.length + 9) heap (.int 0) heap := .int 0 heap
  have adds later total number (frame : heap.Frame none later) :
      Calls σ (.fn ["a", "b"] addBody scope) [.int total, .int number] 4 later
        (.int (total + number)) :=
    add_calls (Nat.lt_of_lt_of_le inside frame.next_le) total number
  have called := reduce_calls inside bare adds rfl numbers 0
  rw [← List.sum_eq_foldl] at called
  exact .call (.ident defined) rfl (.cons_same (.ident bound) rfl
    (.cons_same zero rfl (.cons_same closure rfl (.nil called))))

/-- The last two statements, where `map` and `reduce` are defined. -/
theorem doubles_add (inside : scope < heap.next) (bare : Bare heap scope)
    (mapped : heap.find? scope "map" = some (.fn ["arr", "f"] mapBody scope))
    (reduced : heap.find? scope "reduce" = some (.fn ["arr", "initial", "f"] reduceBody scope))
    (numbers : List Int) :
    ∃ later, Delivers (fun limit => (Evaluate.statements (Node.eval .silent limit) scope
      [.letStmt "doubled" (.call (.ident "map")
          [.array (numbers.map .ofInt), .fn ["x"] doubleBody]),
        .exprStmt (.call (.ident "reduce") [.ident "doubled", .int 0, .fn ["a", "b"] addBody])]
      .null : Run σ Value)) (6 * numbers.length + 11) heap (.int (2 * numbers.sum)) later := by
  obtain ⟨middle, frame, doubled⟩ := doubled_evals (σ := σ) inside bare mapped numbers
  have within : scope < middle.next := Nat.lt_of_lt_of_le inside frame.next_le
  have second : Evals σ scope (.call (.ident "reduce") [.ident "doubled", .int 0,
      .fn ["a", "b"] addBody]) (6 * (numbers.map (· * 2)).length + 10)
      (middle.write scope "doubled" (numerals (numbers.map (· * 2))))
      (.int (numbers.map (· * 2)).sum) := by
    refine total_evals (by rwa [Heap.next_write]) ?_ ?_ ?_
    · exact (bare.frame inside frame).write within (fun builtin => by cases builtin <;> decide) _
    · rw [Heap.find?_write within, if_neg (by decide), frame.find?_eq inside, reduced]
    · rw [Heap.find?_write within, if_pos rfl]
  rw [List.length_map, List.sum_map_mul_right, List.map_id', Int.mul_comm] at second
  obtain ⟨last, _, added⟩ := second
  have stated : Gives σ scope (.exprStmt _) (6 * numbers.length + 11) _ _ last := .eval added
  exact ⟨last, Gives.letStmt doubled rfl (stated.last .null) .null⟩

/-- The program can be run in any scope in which the built-in functions are found. -/
theorem program_gives (inside : scope < heap.next) (bare : Bare heap scope) (numbers : List Int) :
    ∃ later, Gives σ scope (.program (statements (numbers.map .ofInt))) (6 * numbers.length + 12) heap
      (.int (2 * numbers.sum)) later := by
  have within : scope < (heap.write scope "map" (.fn ["arr", "f"] mapBody scope)).next := by
    rwa [Heap.next_write]
  have builtins : Bare ((heap.write scope "map" (.fn ["arr", "f"] mapBody scope)).write scope "reduce"
      (.fn ["arr", "initial", "f"] reduceBody scope)) scope :=
    (bare.write inside (fun builtin => by cases builtin <;> decide) _).write within
      (fun builtin => by cases builtin <;> decide) _
  obtain ⟨later, added⟩ := doubles_add (σ := σ) (by rwa [Heap.next_write]) builtins
    (by simp [Heap.find?_write within, Heap.find?_write inside]) (by simp [Heap.find?_write within])
    numbers
  have defined := Gives.letStmt (.fn _ _ _) rfl (Gives.letStmt (.fn _ _ _) rfl added .null) .null
  exact ⟨later, .eval defined.unwrap⟩

end Program

/-- The program for any list of numbers ends with twice their sum, under every limit that is not below
a bound linear in the length of the list. -/
theorem doubled_sum_of_numbers (numbers : List Int) (limit : Nat)
    (room : 6 * numbers.length + 12 ≤ limit) :
    (Session.fresh.run limit (source numbers)).result = .ok (.int (2 * numbers.sum)) := by
  have parsed : Node.parse limit (source numbers) =
      .ok (.program (statements (numbers.map .ofInt))) := source_parse numbers (by omega)
  obtain ⟨later, gives⟩ := program_gives (σ := Transcript) Nat.zero_lt_one fresh_bare numbers
  rw [Session.run, parsed]
  simp only
  rw [Session.evaluate_eq (gives.ending room #[])]
  rfl

/-- The numbers of a list may be negative. -/
theorem doubled_sum_of_numbers_three :
    6 * [1, -20, 4].length + 12 ≤ 30 ∧
    (Session.fresh.run 30 (source [1, -20, 4])).result = .ok (.int (-30)) :=
  ⟨by decide, doubled_sum_of_numbers [1, -20, 4] 30 (by decide)⟩

end Capuchin.MapReduce
