import Capuchin.Proofs.Grammar.Feeds
import Capuchin.Proofs.Limit.Cut

namespace Capuchin.Grammar

open Parse

section Productions

variable {tokens others inside : List Token} {node : Node} {nodes : List Node} {need : Nat}

theorem Feeds.letStmt (value : Feeds tokens need (.whole node)) :
    Feeds (.keyword .letWord :: .ident name :: .mark .assign :: tokens) (need + 1)
      (.statement (.letStmt name node)) := by
  intro limit site done room
  have asked : (State.statement site done).feed limit (.keyword .letWord) =
      .ok (.letName site done) := rfl
  have named : (State.letName site done).feed limit (.ident name) =
      .ok (.letAssign site done name) := rfl
  have opened : (State.letAssign site done name).feed limit (.mark .assign) =
      .ok (.operand (.letValue site done name)) := by
    simp only [State.feed, expect_self]
    exact enter_eq_ok (by simp only [Hole.depth]; omega)
  obtain ⟨state, fed, settled⟩ := value limit (.letValue site done name)
    (by simp only [Hole.depth]; omega) (Nat.le_refl _)
  refine ⟨state, ?_, ?_⟩
  · rw [feedAll_cons asked, feedAll_cons named, feedAll_cons opened, fed]
  · intro token other apart
    rw [settled token other (within_of_not_joins apart _)]
    simp [Hole.resume, tighter?, continuation?_eq_none apart]

theorem Feeds.returnStmt (value : Feeds tokens need (.whole node)) :
    Feeds (.keyword .returnWord :: tokens) (need + 1) (.statement (.returnStmt node)) := by
  intro limit site done room
  have opened : (State.statement site done).feed limit (.keyword .returnWord) =
      .ok (.operand (.returnValue site done)) :=
    enter_eq_ok (by simp only [Hole.depth]; omega)
  obtain ⟨state, fed, settled⟩ := value limit (.returnValue site done)
    (by simp only [Hole.depth]; omega) (Nat.le_refl _)
  refine ⟨state, ?_, ?_⟩
  · rw [feedAll_cons opened, fed]
  · intro token other apart
    rw [settled token other (within_of_not_joins apart _)]
    simp [Hole.resume, tighter?, continuation?_eq_none apart]

theorem Feeds.exprStmt (expression : Feeds tokens need (.whole node)) (nonempty : tokens ≠ []) :
    Feeds tokens (need + 1) (.statement (.exprStmt node)) := by
  intro limit site done room
  have space : (Hole.statement site done).depth + need ≤ limit := by
    simp only [Hole.depth]
    omega
  obtain ⟨state, fed, settled⟩ := expression limit (.statement site done) space (Nat.le_refl _)
  refine ⟨state, ?_, ?_⟩
  · exact feedAll_congr _ fed nonempty fun token middle begun =>
      start_of_begin (by omega) begun
  · intro token other apart
    rw [settled token other (within_of_not_joins apart _)]
    simp [Hole.resume, tighter?, continuation?_eq_none apart]

theorem Feeds.empty : Feeds [] 0 (.statements []) := by
  intro limit site done _
  refine ⟨.statement site done, rfl, ?_⟩
  intro token _
  simp only [List.append_nil]
  rfl

theorem Feeds.closed (first : Feeds tokens need (.statement node))
    (rest : Feeds others need (.statements nodes)) :
    Feeds (tokens ++ .mark .semicolon :: others) need (.statements (node :: nodes)) := by
  intro limit site done room
  obtain ⟨middle, fed, next⟩ := first limit site done room
  have sealed : middle.feed limit (.mark .semicolon) = .ok (.statement site (done ++ [node])) := by
    rw [next _ (by simp) rfl]
    simp [Site.next]
  obtain ⟨final, restFed, ready⟩ := rest limit site (done ++ [node]) room
  refine ⟨final, ?_, ?_⟩
  · rw [feedAll_append fed, feedAll_cons sealed, restFed]
  · simpa only [List.append_assoc, List.singleton_append] using ready

/-- A token that cannot begin a statement is no reason to end one either. -/
private theorem feed_apart (fed : (State.statement site done).feed limit token = .ok next) :
    token ≠ .keyword .elseWord ∧ token ≠ .mark .semicolon := by
  refine ⟨?_, ?_⟩ <;>
  · rintro rfl
    simp only [State.feed, Site.start, Hole.enterWith, Hole.begin] at fed
    split at fed <;> cases fed

theorem Feeds.unclosed (first : Feeds tokens need (.statement node))
    (rest : Feeds others need (.statements nodes))
    (apart : ∀ token ∈ others.head?, joins token = false) :
    Feeds (tokens ++ others) need (.statements (node :: nodes)) := by
  intro limit site done room
  obtain ⟨middle, fed, next⟩ := first limit site done room
  obtain ⟨final, restFed, ready⟩ := rest limit site (done ++ [node]) room
  cases others with
  | nil =>
    -- Nothing follows, so the statement meets the end of the list itself.
    cases restFed
    refine ⟨middle, by simpa using fed, ?_⟩
    intro token ending
    rw [next token (by rcases ending with rfl | rfl <;> simp)
      (by rcases ending with rfl | rfl <;> rfl)]
    have same := ready token ending
    have unsealed : token ≠ .mark .semicolon := by rcases ending with rfl | rfl <;> simp
    simp only [State.feed, List.append_assoc, List.singleton_append] at same
    simp only [Site.next, unsealed, if_false, same]
  | cons token others =>
    refine ⟨final, ?_, by simpa only [List.append_assoc, List.singleton_append] using ready⟩
    rw [feedAll_append fed]
    obtain ⟨start, begun, startFed⟩ := feedAll_cons_ok restFed
    obtain ⟨notElse, notSemicolon⟩ := feed_apart begun
    have met : middle.feed limit token = .ok start := by
      rw [next token notElse (apart token rfl)]
      simp only [Site.next, notSemicolon, if_false]
      exact begun
    rw [feedAll_cons met, startFed]

theorem Feeds.block (inner : Feeds tokens need (.statements nodes)) :
    Feeds (.mark .lbrace :: (tokens ++ [.mark .rbrace])) need (.block (.block nodes)) := by
  intro limit site state closed room opened closing
  obtain ⟨middle, fed, ready⟩ := inner limit site [] room
  rw [feedAll_cons opened, feedAll_concat fed, ready _ (.inr rfl)]
  simp [Site.start, closing nodes rfl]

theorem Feeds.noItems : Feeds [] 0 (.list []) := by
  intro limit row _
  rw [List.nil_append, feedAll_cons (row.feed_opened_bracket limit)]
  rfl

theorem Feeds.someItems (items : Feeds tokens need (.items nodes)) :
    Feeds tokens (need + 1) (.list nodes) := by
  intro limit row room
  have fed := items limit row [] (by omega)
  refine feedAll_congr _ fed (by simp) fun token middle begun => ?_
  exact row.feed_opened (by rw [row.slot_depth]; omega) begun

theorem Feeds.lastItem (item : Feeds tokens need (.whole node)) :
    Feeds tokens (need + 1) (.items [node]) := by
  intro limit row done room
  obtain ⟨state, fed, settled⟩ := item limit (row.slot done) (by rw [row.slot_depth]; omega)
    (Nat.le_of_eq (by rw [row.slot_tier]))
  have apart : joins (.mark row.bracket) = false := by cases row <;> rfl
  rw [feedAll_concat fed, settled _ (by simp) (within_of_not_joins apart _), row.resume_bracket]

theorem Feeds.moreItems (item : Feeds tokens need (.whole node))
    (rest : Feeds others need (.items nodes)) :
    Feeds (tokens ++ .mark .comma :: others) (need + 1) (.items (node :: nodes)) := by
  intro limit row done room
  obtain ⟨state, fed, settled⟩ := item limit (row.slot done) (by rw [row.slot_depth]; omega)
    (Nat.le_of_eq (by rw [row.slot_tier]))
  have again : state.feed limit (.mark .comma) = .ok (.operand (row.slot (done ++ [node]))) := by
    rw [settled _ (by simp) (within_of_not_joins rfl _), row.resume_comma]
    exact enter_eq_ok (by rw [row.slot_depth]; omega)
  rw [List.append_assoc, feedAll_append fed, List.cons_append, feedAll_cons again]
  simpa only [List.append_assoc, List.singleton_append] using
    rest limit row (done ++ [node]) (by omega)

theorem Feeds.noEntries : Feeds [] 0 (.entries []) := by
  intro limit hole done _
  have closed : (State.hashEntry hole done).feed limit (.mark .rbrace) =
      .ok (.operator hole (.hash done)) := rfl
  rw [List.nil_append, feedAll_cons closed, List.append_nil]
  rfl

/-- The key and the value of an entry, up to the token after them. -/
theorem feed_entry {keyNode : Node} (done : List (Node × Node)) (key : Feeds tokens need (.whole keyNode))
    (nonempty : tokens ≠ []) (value : Feeds others need (.whole node))
    (room : hole.depth + need + 1 ≤ limit) :
    ∃ state, (State.hashEntry hole done).feedAll limit (tokens ++ .mark .colon :: others) =
        .ok state ∧
      ∀ token, token ≠ .keyword .elseWord → joins token = false → state.feed limit token =
        (Hole.value hole done keyNode).resume limit token node := by
  obtain ⟨middle, keyFed, keySettled⟩ := key limit (.key hole done)
    (by simp only [Hole.depth]; omega) (Nat.le_refl _)
  have begun := feedAll_congr (.hashEntry hole done) keyFed nonempty
    fun token middle begun => hashEntry_of_begin (by simp only [Hole.depth]; omega) begun
  have turned : middle.feed limit (.mark .colon) =
      .ok (.operand (.value hole done keyNode)) := by
    rw [keySettled _ (by simp) (within_of_not_joins rfl _)]
    have opened : (Hole.value hole done keyNode).enter limit =
        .ok (.operand (.value hole done keyNode)) :=
      enter_eq_ok (by simp only [Hole.depth]; omega)
    simp [Hole.resume, tighter?, continuation?, expect, opened]
  obtain ⟨state, valueFed, valueSettled⟩ := value limit (.value hole done keyNode)
    (by simp only [Hole.depth]; omega) (Nat.le_refl _)
  refine ⟨state, ?_, fun token other apart =>
    valueSettled token other (within_of_not_joins apart _)⟩
  rw [feedAll_append begun, feedAll_cons turned, valueFed]

theorem Feeds.lastEntry (key : Feeds tokens need (.whole keyNode)) (nonempty : tokens ≠ [])
    (value : Feeds others need (.whole node)) :
    Feeds (tokens ++ .mark .colon :: others) (need + 1) (.entries [(keyNode, node)]) := by
  intro limit hole done room
  obtain ⟨state, fed, met⟩ := feed_entry done key nonempty value (by omega)
  rw [feedAll_concat fed, met _ (by simp) rfl]
  simp [Hole.resume, tighter?, continuation?]

theorem Feeds.moreEntries (key : Feeds tokens need (.whole keyNode)) (nonempty : tokens ≠ [])
    (value : Feeds inside need (.whole node)) (rest : Feeds others need (.entries pairs)) :
    Feeds (tokens ++ .mark .colon :: (inside ++ .mark .comma :: others)) (need + 1)
      (.entries ((keyNode, node) :: pairs)) := by
  intro limit hole done room
  obtain ⟨state, fed, met⟩ := feed_entry done key nonempty value (by omega)
  have again : state.feed limit (.mark .comma) =
      .ok (.hashEntry hole (done ++ [(keyNode, node)])) := by
    rw [met _ (by simp) rfl]
    simp [Hole.resume, tighter?, continuation?, expect]
  have split : tokens ++ .mark .colon :: (inside ++ .mark .comma :: others) ++ [.mark .rbrace] =
      (tokens ++ .mark .colon :: inside) ++ .mark .comma :: (others ++ [.mark .rbrace]) := by simp
  rw [split, feedAll_append fed, feedAll_cons again]
  simpa only [List.append_assoc, List.singleton_append] using
    rest limit hole (done ++ [(keyNode, node)]) (by omega)

theorem Feeds.noParams : Feeds [] 0 (.params []) := by
  intro limit hole
  rfl

theorem Feeds.someParams (names : Feeds tokens need (.names params)) :
    Feeds tokens need (.params params) := by
  intro limit hole
  have fed := names limit hole []
  refine feedAll_congr _ fed (by simp) fun token middle begun => ?_
  cases token with
  | ident name => exact begun
  | _ => cases begun

theorem Feeds.lastName : Feeds [.ident name] 0 (.names [name]) := by
  intro limit hole params
  rfl

theorem Feeds.moreNames (rest : Feeds others need (.names names)) :
    Feeds (.ident name :: .mark .comma :: others) need (.names (name :: names)) := by
  intro limit hole params
  have named : (State.nextParam hole params).feed limit (.ident name) =
      .ok (.paramDone hole (params ++ [name])) := rfl
  have again : (State.paramDone hole (params ++ [name])).feed limit (.mark .comma) =
      .ok (.nextParam hole (params ++ [name])) := rfl
  rw [List.cons_append, List.cons_append, feedAll_cons named, feedAll_cons again]
  simpa only [List.append_assoc, List.singleton_append] using rest limit hole (params ++ [name])

end Productions

/-- One bound serves two phrases. -/
private theorem Feeds.both {first second : List Token} {one two : Phrase}
    (left : ∃ need, Feeds first need one) (right : ∃ need, Feeds second need two) :
    ∃ need, Feeds first need one ∧ Feeds second need two := by
  obtain ⟨a, left⟩ := left
  obtain ⟨b, right⟩ := right
  exact ⟨a + b, left.mono (by omega), right.mono (by omega)⟩

/-- A derivation of a block derives a block. -/
private theorem Spells.block_shape (spelled : Spells tokens (.block node)) :
    ∃ nodes, node = .block nodes := by
  cases spelled with
  | block inside => exact ⟨_, rfl⟩

/-- Feeding reads every derivation, given room enough. -/
theorem Spells.feeds (spelled : Spells tokens phrase) : ∃ need, Feeds tokens need phrase := by
  induction spelled with
  | empty => exact ⟨0, .empty⟩
  | closed _ _ first rest =>
    obtain ⟨_, first, rest⟩ := Feeds.both first rest
    exact ⟨_, first.closed rest⟩
  | unclosed _ _ apart first rest =>
    obtain ⟨_, first, rest⟩ := Feeds.both first rest
    exact ⟨_, first.unclosed rest apart⟩
  | letStmt _ value =>
    obtain ⟨_, value⟩ := value
    exact ⟨_, value.letStmt⟩
  | returnStmt _ value =>
    obtain ⟨_, value⟩ := value
    exact ⟨_, value.returnStmt⟩
  | exprStmt spelled expression =>
    obtain ⟨_, expression⟩ := expression
    exact ⟨_, expression.exprStmt spelled.expression_ne_nil⟩
  | loosen _ inner =>
    obtain ⟨_, inner⟩ := inner
    exact ⟨_, inner.loosen⟩
  | binary _ written _ left right =>
    obtain ⟨_, left, right⟩ := Feeds.both left right
    exact ⟨_, left.binary written right⟩
  | bang _ operand =>
    obtain ⟨_, operand⟩ := operand
    exact ⟨_, operand.unary fun _ _ => rfl⟩
  | minus _ operand =>
    obtain ⟨_, operand⟩ := operand
    exact ⟨_, operand.unary fun _ _ => rfl⟩
  | call _ _ callee args =>
    obtain ⟨_, callee, args⟩ := Feeds.both callee args
    exact ⟨_, callee.call args⟩
  | index _ _ left position =>
    obtain ⟨_, left, position⟩ := Feeds.both left position
    exact ⟨_, left.index position⟩
  | ident => exact ⟨0, .ofOperator fun _ _ _ => rfl⟩
  | int => exact ⟨0, .ofOperator fun _ _ _ => rfl⟩
  | str => exact ⟨0, .ofOperator fun _ _ _ => rfl⟩
  | yes => exact ⟨0, .ofOperator fun _ _ _ => rfl⟩
  | no => exact ⟨0, .ofOperator fun _ _ _ => rfl⟩
  | group _ inner =>
    obtain ⟨_, inner⟩ := inner
    exact ⟨_, inner.group⟩
  | ifThen _ body condition consequence =>
    obtain ⟨nodes, rfl⟩ := body.block_shape
    obtain ⟨_, condition, consequence⟩ := Feeds.both condition consequence
    exact ⟨_, condition.ifThen consequence⟩
  | ifElse _ body other condition consequence alternative =>
    obtain ⟨nodes, rfl⟩ := body.block_shape
    obtain ⟨otherNodes, rfl⟩ := other.block_shape
    obtain ⟨a, consequence, alternative⟩ := Feeds.both consequence alternative
    obtain ⟨b, condition⟩ := condition
    exact ⟨_, (condition.mono (Nat.le_add_left b a)).ifElse
      (consequence.mono (Nat.le_add_right a b)) (alternative.mono (Nat.le_add_right a b))⟩
  | fn _ body params text =>
    obtain ⟨nodes, rfl⟩ := body.block_shape
    obtain ⟨_, params, text⟩ := Feeds.both params text
    exact ⟨_, params.fn text⟩
  | array _ elements =>
    obtain ⟨_, elements⟩ := elements
    exact ⟨_, elements.array⟩
  | hash _ entries =>
    obtain ⟨_, entries⟩ := entries
    exact ⟨_, entries.hash⟩
  | block _ inside =>
    obtain ⟨_, inside⟩ := inside
    exact ⟨_, inside.block⟩
  | noItems => exact ⟨0, .noItems⟩
  | someItems _ items =>
    obtain ⟨_, items⟩ := items
    exact ⟨_, items.someItems⟩
  | lastItem _ item =>
    obtain ⟨_, item⟩ := item
    exact ⟨_, item.lastItem⟩
  | moreItems _ _ item rest =>
    obtain ⟨_, item, rest⟩ := Feeds.both item rest
    exact ⟨_, item.moreItems rest⟩
  | noEntries => exact ⟨0, .noEntries⟩
  | lastEntry spelled _ key value =>
    obtain ⟨_, key, value⟩ := Feeds.both key value
    exact ⟨_, key.lastEntry spelled.expression_ne_nil value⟩
  | moreEntries spelled _ _ key value rest =>
    obtain ⟨a, value, rest⟩ := Feeds.both value rest
    obtain ⟨b, key⟩ := key
    exact ⟨_, (key.mono (Nat.le_add_left b a)).moreEntries spelled.expression_ne_nil
      (value.mono (Nat.le_add_right a b)) (rest.mono (Nat.le_add_right a b))⟩
  | noParams => exact ⟨0, .noParams⟩
  | someParams _ names =>
    obtain ⟨_, names⟩ := names
    exact ⟨_, names.someParams⟩
  | lastName => exact ⟨0, .lastName⟩
  | moreNames _ rest =>
    obtain ⟨_, rest⟩ := rest
    exact ⟨_, rest.moreNames⟩

/-- A derived program is read under every limit with enough room, whatever follows its end. -/
theorem Program.read (derived : Program tokens tree) (rest : List Token) :
    Reaches (Node.ofTokens · (tokens ++ .eof :: rest)) tree := by
  obtain ⟨nodes, rfl, spelled⟩ := derived
  obtain ⟨need, feeds⟩ := spelled.feeds
  refine ⟨need, fun limit room => ?_⟩
  obtain ⟨state, fed, ready⟩ := feeds limit .program [] (by simp only [Site.depth]; omega)
  have ended : state.feed limit .eof = .ok (.finished nodes) := ready _ (.inl rfl)
  have idle : (State.finished nodes).feedAll limit rest = .ok (.finished nodes) := by
    induction rest with
    | nil => rfl
    | cons token rest ih => exact ih
  have whole : State.start.feedAll limit (tokens ++ .eof :: rest) = .ok (.finished nodes) := by
    rw [State.start, feedAll_append fed, feedAll_cons ended, idle]
  simp only [Node.ofTokens, whole]
  rfl

end Capuchin.Grammar
