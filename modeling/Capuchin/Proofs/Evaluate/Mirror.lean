import Capuchin.Proofs.Evaluate.Law
import Capuchin.Proofs.Value.Rename

/-! Two evaluations of one node side by side, in heaps that show each other up to the numbers of
scopes. They end alike, and all that happens in the first is lawful. With a heap as its own image
this says that an evaluation keeps every law. -/

namespace Capuchin

/-- What an event has to be where a law is kept. -/
def Law.Tells (law : Law) (heap : Heap) : Event → Prop
  | .enter node scope => law.admits heap scope node
  | .leave value => law.Yields heap value
  | .create _ _ => True
  | .write _ _ value => law.Allows heap value
  | .call callee args => law.Allows heap callee ∧ ∀ arg ∈ args, law.Allows heap arg

theorem Law.Tells.grows {law : Law} (tells : law.Tells before event) (grown : before.Grows after) :
    law.Tells after event := by
  cases event with
  | enter node scope => exact law.admits_grows tells grown
  | leave value => exact Yields.grows tells grown
  | create scope outer => trivial
  | write scope name value => exact Allows.grows tells grown
  | call callee args => exact ⟨tells.1.grows grown, fun arg member => (tells.2 arg member).grows grown⟩

/-- When a heap shows an image, with scopes under other numbers. -/
structure Mirror (law : Law) where
  number : ScopeId → ScopeId
  shows : Heap → Heap → Prop
  next : shows heap image → image.next = number heap.next
  finds : law.Kept heap → shows heap image → law.admits heap scope (.ident name) →
    image.find? (number scope) name = (heap.find? scope name).map (·.rename number)
  creates : shows heap image → law.holds heap (.fn params body outer) →
    shows (heap.create (some outer)) (image.create (some (number outer)))
  writes : shows heap image → law.admits heap scope node →
    shows (heap.write scope name value) (image.write (number scope) name (value.rename number))

/-- Notes that stay good while a monitor is told of lawful events only. -/
structure Audit (law : Law) (watch : Monitor σ) where
  good : Heap → σ → Prop
  grows : good before notes → before.Grows after → good after notes
  told : law.Tells heap event → good heap notes → watch limit event notes = .ok later →
    good heap later

namespace Mirror

/-- Every heap is its own image. -/
def self (law : Law) : Mirror law where
  number := id
  shows heap image := image = heap
  next shown := by rw [shown, id]
  finds _ shown _ := by simp [shown]
  creates shown _ := by rw [shown, id]
  writes shown _ := by rw [shown, Value.rename_id, id]

end Mirror

namespace Audit

/-- Any notes are good. -/
def none (law : Law) (watch : Monitor σ) : Audit law watch where
  good _ _ := True
  grows _ _ := trivial
  told _ _ _ := trivial

/-- The record of lawful events holds lawful events. -/
def record (law : Law) : Audit law .recorder where
  good heap events := ∀ event ∈ events, law.Tells heap event
  grows good grown event member := (good event member).grows grown
  told tells good done event member := by
    cases done
    rcases List.mem_append.mp member with old | new
    · exact good event old
    · rw [List.mem_singleton.mp new]
      exact tells

end Audit

/-- Two evaluations side by side under one monitor, which cannot tell them apart. -/
structure Comparison (law : Law) (watch : Monitor σ) extends Mirror law, Audit law watch where
  blind : watch.Blind number

/-- One evaluation beside itself. -/
def Comparison.self {law : Law} {watch : Monitor σ} (audit : Audit law watch) :
    Comparison law watch :=
  { Mirror.self law, audit with blind := watch.blind_id }

open Run Evaluate

namespace Comparison

variable {σ : Type} {law : Law} {watch : Monitor σ} (comparison : Comparison law watch)

/-- The law is kept, the image is shown, and the notes are good. -/
structure Sound (heap image : Heap) (notes : σ) : Prop where
  kept : law.Kept heap
  shown : comparison.shows heap image
  noted : comparison.good heap notes

/-- Two runs end with the same fault, or with values as in `same`, and soundly in both cases. -/
inductive Alike (same : Heap → α → β → Prop) (start : Heap) :
    EStateM.Result Fault (World σ) α → EStateM.Result Fault (World σ) β → Prop where
  | ok (grown : start.Grows heap) (sound : comparison.Sound heap image notes)
      (pair : same heap value other) :
      Alike same start (.ok value ⟨heap, notes⟩) (.ok other ⟨image, notes⟩)
  | error (grown : start.Grows heap) (sound : comparison.Sound heap image notes) :
      Alike same start (.error fault ⟨heap, notes⟩) (.error fault ⟨image, notes⟩)

/-- From the heap and its image the two runs end alike. -/
def Twins (same : Heap → α → β → Prop) (heap : Heap) (run : Run σ α) (other : Run σ β) : Prop :=
  ∀ image notes, comparison.Sound heap image notes →
    comparison.Alike same heap (run ⟨heap, notes⟩) (other ⟨image, notes⟩)

/-- The two runs end with lawful values that are the same up to numbers of scopes. -/
def Agrees (heap : Heap) (run other : Run σ Value) : Prop :=
  comparison.Twins
    (fun heap value image => law.Yields heap value ∧ image = value.rename comparison.number)
    heap run other

variable {comparison} {heap : Heap} {limit : Nat} {scope : ScopeId}

theorem Alike.after {same : Heap → α → β → Prop} {one : EStateM.Result Fault (World σ) α}
    {two : EStateM.Result Fault (World σ) β} (alike : comparison.Alike same middle one two)
    (grown : heap.Grows middle) : comparison.Alike same heap one two := by
  cases alike with
  | ok more sound pair => exact .ok (grown.trans more) sound pair
  | error more sound => exact .error (grown.trans more) sound

theorem Twins.bind {same : Heap → α → β → Prop} {last : Heap → γ → δ → Prop} {run : Run σ α}
    {other : Run σ β} {next : α → Run σ γ} {after : β → Run σ δ}
    (first : comparison.Twins same heap run other)
    (rest : ∀ middle value image, heap.Grows middle → same middle value image →
      comparison.Twins last middle (next value) (after image)) :
    comparison.Twins last heap (run >>= next) (other >>= after) := by
  intro image notes sound
  have both := first image notes sound
  simp only [Bind.bind, EStateM.bind]
  generalize run ⟨heap, notes⟩ = one at both
  generalize other ⟨image, notes⟩ = two at both
  cases both with
  | error grown ended => exact .error grown ended
  | ok grown reached pair => exact (rest _ _ _ grown pair _ _ reached).after grown

/-- What follows a run whose values are not compared as values. -/
theorem Twins.agrees {same : Heap → α → β → Prop} {run : Run σ α} {other : Run σ β}
    {next : α → Run σ Value} {after : β → Run σ Value}
    (first : comparison.Twins same heap run other)
    (rest : ∀ middle value image, heap.Grows middle → same middle value image →
      comparison.Agrees middle (next value) (after image)) :
    comparison.Agrees heap (run >>= next) (other >>= after) :=
  first.bind rest

theorem Twins.pure {same : Heap → α → β → Prop} (pair : same heap value image) :
    comparison.Twins same heap (pure value) (pure image) :=
  fun _ _ sound => .ok (.refl heap) sound pair

theorem Agrees.pure (yielded : law.Yields heap value) :
    comparison.Agrees heap (pure value) (pure (value.rename comparison.number)) :=
  Twins.pure ⟨yielded, rfl⟩

/-- A value without numbers of scopes. -/
theorem Agrees.leaf (allowed : law.Allows heap value)
    (fixed : value.rename comparison.number = value) :
    comparison.Agrees heap (Pure.pure value) (Pure.pure value) :=
  Twins.pure ⟨.inr allowed, fixed.symm⟩

theorem Agrees.settle {result : Except Complaint Value}
    (allowed : ∀ value, result = .ok value → law.Allows heap value) :
    comparison.Agrees heap (settle limit result)
      (settle limit (renameResult comparison.number result)) := by
  intro image notes sound
  cases result with
  | ok value => exact .ok (.refl heap) sound ⟨.inr (allowed value rfl), rfl⟩
  | error complaint =>
    simp only [Run.settle, renameResult, Complaint.settle, complaint.toValue_rename]
    unfold Complaint.toValue
    cases complaint.message limit with
    | error fault => exact .error (.refl heap) sound
    | ok message =>
      refine .ok (.refl heap) sound ⟨.inl ⟨complaint.kind, message, rfl⟩, ?_⟩
      rw [Value.rename]

theorem Agrees.complain (complaint : Complaint) :
    comparison.Agrees heap (complain limit complaint)
      (complain limit (complaint.rename comparison.number)) :=
  settle nofun

theorem Agrees.andThen {first second : Run σ Value} {next after : Value → Run σ Value}
    (agreed : comparison.Agrees heap first second)
    (rest : ∀ middle value, heap.Grows middle → law.Allows middle value →
      comparison.Agrees middle (next value) (after (value.rename comparison.number))) :
    comparison.Agrees heap (andThen first next) (andThen second after) := by
  have failed (middle : Heap) (kind : ErrorKind) (message : String) : comparison.Agrees middle
      (Pure.pure (.error kind message)) (Pure.pure (.error kind message)) :=
    Twins.pure ⟨.inl ⟨kind, message, rfl⟩, by rw [Value.rename]⟩
  refine Twins.agrees agreed ?_
  rintro middle value _ grown ⟨⟨kind, message, rfl⟩ | allowed, rfl⟩
  · rw [Value.rename]
    exact failed middle kind message
  · have go := rest middle value grown allowed
    cases value with
    | error kind message =>
      rw [Value.rename]
      exact failed middle kind message
    | _ => simpa only [Value.rename] using go

theorem Agrees.unwrap {first second : Run σ Value} (agreed : comparison.Agrees heap first second) :
    comparison.Agrees heap (do return (← first).unwrap) (do return (← second).unwrap) := by
  refine Twins.agrees agreed ?_
  rintro middle value _ _ ⟨yielded, rfl⟩
  rw [Value.unwrap_rename]
  exact .pure yielded.unwrap

section Effects

theorem Twins.notice (event : Event) (tells : law.Tells heap event) :
    comparison.Twins (fun _ _ _ => True) heap (notice (watch limit) event)
      (notice (watch limit) (event.rename comparison.number)) := by
  intro image notes sound
  simp only [Run.notice, comparison.blind limit event notes]
  cases told : watch limit event notes with
  | error fault => exact .error (.refl heap) sound
  | ok later =>
    exact .ok (.refl heap) ⟨sound.kept, sound.shown, comparison.told tells sound.noted told⟩ trivial

theorem Twins.find? (admitted : law.admits heap scope (.ident name)) :
    comparison.Twins
      (fun heap found image => image = found.map (·.rename comparison.number) ∧
        ∀ value, found = some value → law.Allows heap value)
      heap (find? scope name) (find? (comparison.number scope) name) := by
  intro image notes sound
  refine .ok (.refl heap) sound ⟨comparison.finds sound.kept sound.shown admitted, ?_⟩
  intro value found
  exact sound.kept.find? found

/-- The body of a function may be evaluated in the scope made for the call. -/
theorem Twins.create (held : law.holds heap (.fn params body outer)) :
    comparison.Twins
      (fun heap id image => image = comparison.number id ∧ law.admits heap id body)
      heap (create (watch limit) outer) (create (watch limit) (comparison.number outer)) := by
  have made : comparison.Twins
      (fun later id image => later = heap.create (some outer) ∧ id = heap.next ∧
        image = comparison.number heap.next)
      heap
      (modifyGet fun world =>
        (world.heap.next, { world with heap := world.heap.create (some outer) }))
      (modifyGet fun world => (world.heap.next,
        { world with heap := world.heap.create (some (comparison.number outer)) })) := by
    intro image notes sound
    have grown := heap.grows_create (some outer)
    exact .ok grown ⟨sound.kept.create held, comparison.creates sound.shown held,
      comparison.grows sound.noted grown⟩ ⟨rfl, rfl, comparison.next sound.shown⟩
  refine made.bind ?_
  rintro _ _ _ _ ⟨rfl, rfl, rfl⟩
  refine (Twins.notice (.create heap.next outer) trivial).bind ?_
  intro middle _ _ grown _
  exact .pure ⟨rfl, law.admits_grows (law.admits_body held) grown⟩

theorem Twins.write {owner : Node} (admitted : law.admits heap scope owner) (allowed : law.Allows heap value) :
    comparison.Twins (fun _ _ _ => True) heap (write (watch limit) scope name value)
      (write (watch limit) (comparison.number scope) name (value.rename comparison.number)) := by
  have made : comparison.Twins
      (fun later _ _ => later = heap.write scope name value) heap
      (modify fun world => { world with heap := world.heap.write scope name value })
      (modify fun world => { world with
        heap := world.heap.write (comparison.number scope) name
          (value.rename comparison.number) }) := by
    intro image notes sound
    have grown := heap.grows_write scope name value
    exact .ok grown ⟨sound.kept.write allowed scope name, comparison.writes sound.shown admitted,
      comparison.grows sound.noted grown⟩ rfl
  refine made.bind ?_
  rintro _ _ _ grown rfl
  exact .notice (.write scope name value) (allowed.grows grown)

end Effects

theorem twins_bindAll {owner : Node} (bindings : List (String × Value))
    (admitted : law.admits heap scope owner)
    (allowed : ∀ binding ∈ bindings, law.Allows heap binding.2) :
    comparison.Twins (fun _ _ _ => True) heap (bindAll watch limit scope bindings)
      (bindAll watch limit (comparison.number scope)
        (bindings.map (Prod.map id (·.rename comparison.number)))) := by
  induction bindings generalizing heap with
  | nil => exact .pure trivial
  | cons binding bindings ih =>
    refine (Twins.write admitted (allowed binding (by simp))).bind fun middle _ _ grown _ => ?_
    exact ih (law.admits_grows admitted grown) fun other member =>
      (allowed other (by simp [member])).grows grown

theorem agrees_identifier (admitted : law.admits heap scope (.ident name)) :
    comparison.Agrees heap (identifier limit scope name)
      (identifier limit (comparison.number scope) name) := by
  refine (Twins.find? admitted).agrees ?_
  rintro middle found _ grown ⟨rfl, allowed⟩
  cases found with
  | some value => exact .pure (.inr (allowed value rfl))
  | none =>
    simp only [Option.map_none]
    split
    · exact .leaf (Law.allows_builtin _) (by rw [Value.rename])
    · exact .complain (.unbound name)

section Constructs

variable {self : Node → ScopeId → Run σ Value}
  (each : ∀ heap node scope, law.admits heap scope node →
    comparison.Agrees heap (self node scope) (self node (comparison.number scope)))

include each

theorem agrees_parts {next after : List Value → Run σ Value} (nodes : List Node)
    (admitted : ∀ node ∈ nodes, law.admits heap scope node)
    (rest : ∀ middle values, heap.Grows middle → (∀ value ∈ values, law.Allows middle value) →
      comparison.Agrees middle (next values) (after (values.map (·.rename comparison.number)))) :
    comparison.Agrees heap (parts self scope nodes next)
      (parts self (comparison.number scope) nodes after) := by
  induction nodes generalizing heap next after with
  | nil => exact rest heap [] (.refl heap) (by simp)
  | cons node nodes ih =>
    refine (each heap node scope (admitted node (by simp))).andThen fun middle value grown allowed => ?_
    refine ih (fun other member => law.admits_grows (admitted other (by simp [member])) grown) ?_
    intro later values more others
    refine rest later (value :: values) (grown.trans more) ?_
    exact List.forall_mem_cons.mpr ⟨allowed.grows more, others⟩

theorem agrees_pairs (entries : List (Node × Node)) (table : Table Key Value)
    (admitted : ∀ pair ∈ entries, law.admits heap scope pair.1 ∧ law.admits heap scope pair.2)
    (allowed : law.Allows heap (.hash table)) :
    comparison.Agrees heap (pairs limit self scope entries table)
      (pairs limit self (comparison.number scope) entries
        (table.map fun entry => (entry.1, entry.2.rename comparison.number))) := by
  induction entries generalizing heap table with
  | nil =>
    have hashed : comparison.Agrees heap (pure (.hash table)) _ := .pure allowed.yields
    rwa [Value.rename] at hashed
  | cons pair entries ih =>
    have admits := admitted pair (by simp)
    refine (each heap pair.1 scope admits.1).andThen fun middle key grown keyed => ?_
    simp only [Value.key?_rename]
    cases found : key.key? with
    | none => exact .complain (.invalidKey key)
    | some key =>
      refine (each middle pair.2 scope (law.admits_grows admits.2 grown)).andThen ?_
      intro later value more stored
      rw [Table.insert_map]
      have whole := grown.trans more
      refine ih _ (fun other member => ?_) ?_
      · have both := admitted other (by simp [member])
        exact ⟨law.admits_grows both.1 whole, law.admits_grows both.2 whole⟩
      · refine (allowed.grows whole).insert ?_ stored
        rw [Value.toValue_of_key? found]
        exact keyed.grows more

theorem agrees_statements (nodes : List Node) (last : Value)
    (admitted : ∀ node ∈ nodes, law.admits heap scope node) (yielded : law.Yields heap last) :
    comparison.Agrees heap (statements self scope nodes last)
      (statements self (comparison.number scope) nodes (last.rename comparison.number)) := by
  induction nodes generalizing heap last with
  | nil => exact .pure yielded
  | cons node nodes ih =>
    refine Twins.agrees (each heap node scope (admitted node (by simp))) ?_
    rintro middle value _ grown ⟨yielded, rfl⟩
    rw [Value.stops_rename]
    split
    · exact .pure yielded
    · exact ih value (fun other member => law.admits_grows (admitted other (by simp [member])) grown)
        yielded

theorem agrees_apply (callee : Value) (args : List Value) (called : law.Allows heap callee)
    (given : ∀ arg ∈ args, law.Allows heap arg) :
    comparison.Agrees heap (apply watch limit self callee args)
      (apply watch limit self (callee.rename comparison.number)
        (args.map (·.rename comparison.number))) := by
  have told : comparison.Twins (fun _ _ _ => True) heap (notice (watch limit) (.call callee args))
      (notice (watch limit) (.call (callee.rename comparison.number)
        (args.map (·.rename comparison.number)))) :=
    Twins.notice (.call callee args) ⟨called, given⟩
  have refused : comparison.Agrees heap (complain limit (.notFunction callee)) _ := .complain _
  cases callee with
  | fn params body captured =>
    simp only [Value.rename] at told ⊢
    refine told.agrees fun middle _ _ grown _ => ?_
    refine (Twins.create (law.holds_grows called.here grown)).agrees ?_
    rintro later id _ more ⟨rfl, admitted⟩
    rw [List.zip_map_right]
    refine (twins_bindAll (params.zip args) admitted ?_).agrees ?_
    · intro binding member
      exact (given _ (List.of_mem_zip member).2).grows (grown.trans more)
    · intro last _ _ most _
      exact (each last body id (law.admits_grows admitted most)).unwrap
  | builtin builtin =>
    simp only [Value.rename] at told ⊢
    refine told.agrees fun middle _ _ grown _ => ?_
    rw [Builtin.apply_rename]
    exact .settle fun value =>
      Law.allows_made (fun arg member => (given arg member).grows grown) (builtin.apply_made args)
  | _ =>
    simp only [Complaint.rename, Value.rename] at refused ⊢
    exact refused

theorem agrees_node (node : Node) (admitted : law.admits heap scope node) :
    comparison.Agrees heap (Evaluate.node watch limit self scope node)
      (Evaluate.node watch limit self (comparison.number scope) node) := by
  -- A part may be evaluated in any heap that has come out of this one.
  have part {later : Heap} (part : Node) (member : part ∈ node.parts) (grown : heap.Grows later) :
      comparison.Agrees later (self part scope) (self part (comparison.number scope)) :=
    each later part scope (law.admits_grows (law.admits_part admitted member) grown)
  have still := Heap.Grows.refl heap
  cases node with
  | absent => exact .leaf Law.allows_null (by rw [Value.rename])
  | program nodes =>
    refine Agrees.unwrap ?_
    have run := agrees_statements each nodes .null
      (fun node member => law.admits_part admitted member) (.inr Law.allows_null)
    rwa [Value.rename] at run
  | block nodes =>
    have run := agrees_statements each nodes .null
      (fun node member => law.admits_part admitted member) (.inr Law.allows_null)
    rwa [Value.rename] at run
  | exprStmt expression => exact part expression (by simp [Node.parts]) still
  | letStmt name value =>
    refine (part value (by simp [Node.parts]) still).andThen fun middle value grown allowed => ?_
    refine (Twins.write (law.admits_grows admitted grown) allowed).agrees fun later _ _ _ _ => ?_
    exact .leaf Law.allows_null (by rw [Value.rename])
  | returnStmt value =>
    refine (part value (by simp [Node.parts]) still).andThen fun middle value grown allowed => ?_
    have wrapped : comparison.Agrees middle (pure (.returned value)) _ :=
      .pure allowed.returned.yields
    rwa [Value.rename] at wrapped
  | ident name => exact agrees_identifier admitted
  | int value => exact .leaf (Law.allows_int value) (by rw [Value.rename])
  | str text => exact .leaf (.leaf (law.holds_str admitted) rfl) (by rw [Value.rename])
  | bool value => exact .leaf (Law.allows_bool value) (by rw [Value.rename])
  | array elements =>
    refine agrees_parts each elements (fun node member => law.admits_part admitted member) ?_
    intro middle values grown allowed
    have made : comparison.Agrees middle (pure (.array values)) _ :=
      .pure (Law.allows_array allowed).yields
    rwa [Value.rename] at made
  | hash entries =>
    refine agrees_pairs each entries [] (fun pair member => ?_) (.leaf law.holds_empty rfl)
    have inside : pair.1 ∈ (Node.hash entries).parts ∧ pair.2 ∈ (Node.hash entries).parts :=
      ⟨List.mem_flatMap.mpr ⟨pair, member, by simp⟩, List.mem_flatMap.mpr ⟨pair, member, by simp⟩⟩
    exact ⟨law.admits_part admitted inside.1, law.admits_part admitted inside.2⟩
  | fn params body =>
    have made : comparison.Agrees heap (pure (.fn params body scope)) _ :=
      .pure (.inr (.leaf (law.holds_fn admitted) rfl))
    rwa [Value.rename] at made
  | unary op right =>
    refine (part right (by simp [Node.parts]) still).andThen fun middle value grown allowed => ?_
    rw [applyUnary_rename]
    exact .settle fun _ => Law.allows_made (by simpa using allowed) (applyUnary_made op value)
  | binary left op right =>
    refine (part left (by simp [Node.parts]) still).andThen fun middle first grown allowed => ?_
    refine (part right (by simp [Node.parts]) grown).andThen fun later second more also => ?_
    rw [applyBinary_rename]
    exact .settle fun _ => Law.allows_made (by simpa using ⟨allowed.grows more, also⟩)
      (applyBinary_made first op second)
  | index left position =>
    refine (part left (by simp [Node.parts]) still).andThen fun middle first grown allowed => ?_
    refine (part position (by simp [Node.parts]) grown).andThen fun later second more also => ?_
    rw [index_rename]
    exact .settle fun _ => Law.allows_made (by simpa using ⟨allowed.grows more, also⟩)
      (index_made first second)
  | call callee args =>
    refine (part callee (by simp [Node.parts]) still).andThen fun middle function grown allowed => ?_
    refine agrees_parts each args (fun arg member => ?_) fun later values more given => ?_
    · exact law.admits_grows (law.admits_part admitted (by simp [Node.parts, member])) grown
    · exact agrees_apply each function values (allowed.grows more) given
  | ifThen condition consequence =>
    refine (part condition (by simp [Node.parts]) still).andThen fun middle value grown _ => ?_
    rw [Value.truthy_rename]
    split
    · exact part consequence (by simp [Node.parts]) grown
    · exact .leaf Law.allows_null (by rw [Value.rename])
  | ifElse condition consequence alternative =>
    refine (part condition (by simp [Node.parts]) still).andThen fun middle value grown _ => ?_
    rw [Value.truthy_rename]
    split
    · exact part consequence (by simp [Node.parts]) grown
    · exact part alternative (by simp [Node.parts]) grown

end Constructs

/-- An evaluation and its image agree. -/
theorem agrees_eval (node : Node) (admitted : law.admits heap scope node) :
    comparison.Agrees heap (node.eval watch limit scope)
      (node.eval watch limit (comparison.number scope)) := by
  induction limit generalizing heap node scope with
  | zero => exact fun _ _ sound => .error (.refl _) sound
  | succ limit ih =>
    refine (Twins.notice (.enter node scope) admitted).agrees fun middle _ _ grown _ => ?_
    refine (agrees_node (fun heap node scope => ih node) node
      (law.admits_grows admitted grown)).agrees ?_
    rintro later value _ more ⟨yielded, rfl⟩
    refine (Twins.notice (.leave value) yielded).agrees fun last _ _ most _ => ?_
    exact .pure (yielded.grows most)

/-- Runs that agree end with the same result, up to numbers of scopes, and with the same notes;
where they end the law is kept and the image is shown again. -/
theorem Agrees.ending {run other : Run σ Value} (agreed : comparison.Agrees heap run other)
    (sound : comparison.Sound heap image notes) :
    ∃ result later shown marks,
      run.ending ⟨heap, notes⟩ = (result, ⟨later, marks⟩) ∧
      other.ending ⟨image, notes⟩ = (result.map (·.rename comparison.number), ⟨shown, marks⟩) ∧
      heap.Grows later ∧ comparison.Sound later shown marks ∧
      ∀ value, result = .ok value → law.Yields later value := by
  have alike := agreed image notes sound
  unfold Run.ending
  generalize run ⟨heap, notes⟩ = one at alike ⊢
  generalize other ⟨image, notes⟩ = two at alike ⊢
  cases alike with
  | @error later shown marks fault grown ended =>
    exact ⟨.error fault, later, shown, marks, rfl, rfl, grown, ended, nofun⟩
  | @ok later shown marks value _ grown ended pair =>
    obtain ⟨yielded, rfl⟩ := pair
    refine ⟨.ok value, later, shown, marks, rfl, rfl, grown, ended, ?_⟩
    rintro _ ⟨⟩
    exact yielded

/-- If scopes keep their numbers, then a run ends alike in any two images of one heap. -/
theorem Agrees.images {run : Run σ Value} (agreed : comparison.Agrees heap run run)
    (fixed : comparison.number = id) (first : comparison.Sound heap one notes)
    (second : comparison.Sound heap two notes) :
    ∃ result later laterOne laterTwo marks,
      run.ending ⟨one, notes⟩ = (result, ⟨laterOne, marks⟩) ∧
      run.ending ⟨two, notes⟩ = (result, ⟨laterTwo, marks⟩) ∧
      comparison.Sound later laterOne marks ∧ comparison.Sound later laterTwo marks := by
  have same (result : Except Fault Value) : result.map (·.rename comparison.number) = result := by
    rw [fixed]
    cases result <;> simp [Except.map]
  obtain ⟨result, later, laterOne, marks, ended, endedOne, _, soundOne, _⟩ := agreed.ending first
  obtain ⟨_, _, laterTwo, _, endedAgain, endedTwo, _, soundTwo, _⟩ := agreed.ending second
  cases ended.symm.trans endedAgain
  rw [same] at endedOne endedTwo
  exact ⟨result, later, laterOne, laterTwo, marks, endedOne, endedTwo, soundOne, soundTwo⟩

/-- An evaluation and its image end alike. -/
theorem eval_ending (tree : Node) (admitted : law.admits heap scope tree)
    (sound : comparison.Sound heap image notes) (limit : Nat) :
    ∃ result later shown marks,
      (tree.eval watch limit scope).ending ⟨heap, notes⟩ = (result, ⟨later, marks⟩) ∧
      (tree.eval watch limit (comparison.number scope)).ending ⟨image, notes⟩ =
        (result.map (·.rename comparison.number), ⟨shown, marks⟩) ∧
      heap.Grows later ∧ comparison.Sound later shown marks ∧
      ∀ value, result = .ok value → law.Yields later value :=
  (agrees_eval tree admitted).ending sound

end Comparison

/-- However an evaluation ends, the law is kept, and the value that it ends with, if any, is
lawful. -/
theorem Law.Kept.eval_ending {law : Law} {watch : Monitor σ} (kept : law.Kept heap)
    (audit : Audit law watch) (tree : Node) (admitted : law.admits heap scope tree)
    (noted : audit.good heap notes) (limit : Nat) :
    ∃ result later marks,
      (tree.eval watch limit scope).ending ⟨heap, notes⟩ = (result, ⟨later, marks⟩) ∧
      heap.Grows later ∧ law.Kept later ∧ audit.good later marks ∧
      ∀ value, result = .ok value → law.Yields later value := by
  have sound : (Comparison.self audit).Sound heap heap notes := ⟨kept, rfl, noted⟩
  obtain ⟨result, later, _, marks, ended, _, grown, reached, yielded⟩ :=
    Comparison.eval_ending tree admitted sound limit
  exact ⟨result, later, marks, ended, grown, reached.kept, reached.noted, yielded⟩

end Capuchin
