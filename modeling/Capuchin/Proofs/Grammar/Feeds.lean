import Capuchin.Proofs.Grammar.Feeding
import Capuchin.Proofs.Grammar.Strength

/-! What feeding the tokens of a phrase does. Under a limit with enough room, it leads from a place
that wants the phrase to where the place has its tree. An expression is then not yet put into its
hole, because the next token might bind it tighter; `Settled` says that any other token finds it
there. The productions of expressions are shown here, with what they are made of as given. -/

namespace Capuchin.Grammar

open Parse

/-- Lists of expressions inside brackets: the elements of an array and the arguments of a call. -/
inductive Row where
  | array (outer : Hole)
  | call (outer : Hole) (callee : Node)

namespace Row

def outer : Row → Hole
  | array outer => outer
  | call outer _ => outer

/-- The state after the opening bracket. -/
def opened : Row → State
  | array outer => .firstElement outer
  | call outer callee => .firstArgument outer callee

/-- Where the next expression stands. -/
def slot (done : List Node) : Row → Hole
  | array outer => .element outer done
  | call outer callee => .argument outer callee done

def bracket : Row → Mark
  | array _ => .rbracket
  | call _ _ => .rparen

def tree (nodes : List Node) : Row → Node
  | array _ => .array nodes
  | call _ callee => .call callee nodes

theorem slot_depth (row : Row) (done : List Node) : (row.slot done).depth = row.outer.depth + 1 := by
  cases row <;> rfl

theorem slot_tier (row : Row) (done : List Node) : holeTier (row.slot done) = .equality := by
  cases row <;> rfl

theorem feed_opened_bracket (row : Row) (limit : Nat) :
    row.opened.feed limit (.mark row.bracket) = .ok (.operator row.outer (row.tree [])) := by
  cases row <;> rfl

theorem feed_opened (row : Row) (room : (row.slot []).depth ≤ limit)
    (begun : (row.slot []).begin limit token = .ok next) :
    row.opened.feed limit token = .ok next := by
  cases row <;> cases token with
  | mark mark => cases mark <;> simp_all [opened, slot, State.feed, Hole.begin, Hole.enterWith]
  | _ => simp_all [opened, slot, State.feed, Hole.begin, Hole.enterWith]

theorem resume_comma (row : Row) (limit : Nat) (done : List Node) (node : Node) :
    (row.slot done).resume limit (.mark .comma) node = (row.slot (done ++ [node])).enter limit := by
  cases row <;> simp [slot, Hole.resume, tighter?, continuation?]

theorem resume_bracket (row : Row) (limit : Nat) (done : List Node) (node : Node) :
    (row.slot done).resume limit (.mark row.bracket) node =
      .ok (.operator row.outer (row.tree (done ++ [node]))) := by
  cases row <;> simp [slot, bracket, outer, tree, Hole.resume, tighter?, continuation?, expect]

end Row

/-- The state holds `node` for the hole: every token within its tier is met by the hole itself. -/
def Settled (limit : Nat) (hole : Hole) (tier : Tier) (node : Node) (state : State) : Prop :=
  ∀ token, token ≠ .keyword .elseWord → Within tier token →
    state.feed limit token = hole.resume limit token node

/-- What feeding the tokens of a phrase does, given room for `need` more open expressions. -/
def Feeds (tokens : List Token) (need : Nat) : Phrase → Prop
  | .expression tier node => ∀ limit hole, hole.depth + need ≤ limit →
      (holeTier hole).rank ≤ tier.rank →
      ∃ state, (State.operand hole).feedAll limit tokens = .ok state ∧
        Settled limit hole tier node state
  | .statement node => ∀ limit site done, site.depth + need ≤ limit →
      ∃ state, (State.statement site done).feedAll limit tokens = .ok state ∧
        ∀ token, token ≠ .keyword .elseWord → joins token = false →
          state.feed limit token = site.next limit (done ++ [node]) token
  | .statements nodes => ∀ limit site done, site.depth + need ≤ limit →
      ∃ state, (State.statement site done).feedAll limit tokens = .ok state ∧
        ∀ token, token = .eof ∨ token = .mark .rbrace →
          state.feed limit token = site.start limit (done ++ nodes) token
  | .block node => ∀ limit (site : Site) (state closed : State), site.depth + need ≤ limit →
      state.feed limit (.mark .lbrace) = .ok (.statement site []) →
      (∀ nodes, node = .block nodes → site.close? nodes = some closed) →
      state.feedAll limit tokens = .ok closed
  | .list nodes => ∀ limit (row : Row), row.outer.depth + need ≤ limit →
      row.opened.feedAll limit (tokens ++ [.mark row.bracket]) =
        .ok (.operator row.outer (row.tree nodes))
  | .items nodes => ∀ limit (row : Row) done, row.outer.depth + need ≤ limit →
      (State.operand (row.slot done)).feedAll limit (tokens ++ [.mark row.bracket]) =
        .ok (.operator row.outer (row.tree (done ++ nodes)))
  | .entries pairs => ∀ limit hole done, hole.depth + need ≤ limit →
      (State.hashEntry hole done).feedAll limit (tokens ++ [.mark .rbrace]) =
        .ok (.operator hole (.hash (done ++ pairs)))
  | .params names => ∀ limit hole,
      (State.firstParam hole).feedAll limit (tokens ++ [.mark .rparen]) =
        .ok (.bodyOpen hole names)
  | .names names => ∀ limit hole params,
      (State.nextParam hole params).feedAll limit (tokens ++ [.mark .rparen]) =
        .ok (.bodyOpen hole (params ++ names))

theorem Feeds.mono {need more : Nat} (feeds : Feeds tokens need phrase) (order : need ≤ more) :
    Feeds tokens more phrase := by
  cases phrase with
  | expression tier node =>
    intro limit hole room
    exact feeds limit hole (by omega)
  | statement node =>
    intro limit site done room
    exact feeds limit site done (by omega)
  | statements nodes =>
    intro limit site done room
    exact feeds limit site done (by omega)
  | block node =>
    intro limit site state closed room
    exact feeds limit site state closed (by omega)
  | list nodes =>
    intro limit row room
    exact feeds limit row (by omega)
  | items nodes =>
    intro limit row done room
    exact feeds limit row done (by omega)
  | entries pairs =>
    intro limit hole done room
    exact feeds limit hole done (by omega)
  | params names => exact feeds
  | names names => exact feeds

section Productions

variable {tokens others inside body : List Token} {node : Node} {nodes : List Node} {need : Nat}
  {tier : Tier}

/-- An expression that is read into the state `operator` at once. -/
theorem Feeds.ofOperator (fed : ∀ limit hole, hole.depth + need ≤ limit →
      (State.operand hole).feedAll limit tokens = .ok (.operator hole node)) :
    Feeds tokens need (.expression tier node) := by
  intro limit hole room _
  exact ⟨.operator hole node, fed limit hole room, fun _ _ _ => rfl⟩

theorem Feeds.loosen (inner : Feeds tokens need (.expression tier.above node)) :
    Feeds tokens need (.expression tier node) := by
  intro limit hole room takes
  have order := tier.rank_le_above
  obtain ⟨state, fed, settled⟩ := inner limit hole room (Nat.le_trans takes order)
  exact ⟨state, fed, fun token other within => settled token other (within.mono order)⟩

theorem Feeds.binary (left : Feeds tokens need (.expression tier node))
    (written : operator? mark = some (tier, op))
    (right : Feeds others need (.expression tier.above rightNode)) :
    Feeds (tokens ++ .mark mark :: others) (need + 1) (.expression tier (.binary node op rightNode)) := by
  intro limit hole room takes
  obtain ⟨state, fed, settled⟩ := left limit hole (by omega) takes
  have found := continuation?_operator written
  have strength := binaryLevel_operator written
  have within : Within tier (.mark mark) := by
    intro next same
    rw [found] at same
    cases same
    exact Nat.le_of_eq strength
  have opened : state.feed limit (.mark mark) = .ok (.operand (.right hole node op)) := by
    rw [settled _ (by simp) within, Hole.resume.eq_def,
      tighter?_eq_some found (level_lt_operator takes written)]
    exact enter_eq_ok (by simp only [Hole.depth]; omega)
  obtain ⟨final, rightFed, rightSettled⟩ := right limit (.right hole node op)
    (by simp only [Hole.depth]; omega)
    (Nat.le_of_eq (congrArg Tier.rank (holeTier_right hole node written)))
  refine ⟨final, ?_, ?_⟩
  · rw [feedAll_append fed, feedAll_cons opened, rightFed]
  · intro token other loose
    rw [rightSettled token other (loose.mono tier.rank_le_above), Hole.resume.eq_def]
    have free : tighter? (Hole.right hole node op).level token = none :=
      tighter?_eq_none (by simp only [Hole.level, strength]; exact loose)
    rw [free]

theorem Feeds.unary (begun : ∀ limit hole,
      Hole.begin limit hole (.mark mark) = (Hole.operand hole op).enter limit)
    (operand : Feeds tokens need (.expression .unary node)) :
    Feeds (.mark mark :: tokens) (need + 1) (.expression .unary (.unary op node)) := by
  intro limit hole room takes
  obtain ⟨state, fed, settled⟩ := operand limit (.operand hole op)
    (by simp only [Hole.depth]; omega) (Nat.le_refl _)
  have opened : (State.operand hole).feed limit (.mark mark) = .ok (.operand (.operand hole op)) := by
    simp only [State.feed, begun]
    exact enter_eq_ok (by simp only [Hole.depth]; omega)
  refine ⟨state, ?_, ?_⟩
  · rw [feedAll_cons opened, fed]
  · intro token other loose
    rw [settled token other loose, Hole.resume.eq_def]
    have free : tighter? (Hole.operand hole op).level token = none := tighter?_eq_none loose
    rw [free]

theorem Feeds.call (callee : Feeds tokens need (.expression .applied node))
    (args : Feeds inside need (.list nodes)) :
    Feeds (tokens ++ .mark .lparen :: (inside ++ [.mark .rparen])) need
      (.expression .applied (.call node nodes)) := by
  intro limit hole room takes
  obtain ⟨state, fed, settled⟩ := callee limit hole room takes
  have opened : state.feed limit (.mark .lparen) = .ok (.firstArgument hole node) := by
    have low := level_le hole
    rw [settled _ (by simp) (within_applied _), Hole.resume.eq_def,
      tighter?_eq_some rfl (by simp only [Continuation.level]; omega)]
    rfl
  refine ⟨.operator hole (.call node nodes), ?_, fun _ _ _ => rfl⟩
  rw [feedAll_append fed, feedAll_cons opened]
  exact args limit (.call hole node) room

theorem Feeds.index (left : Feeds tokens need (.expression .applied node))
    (position : Feeds inside need (.whole positionNode)) :
    Feeds (tokens ++ .mark .lbracket :: (inside ++ [.mark .rbracket])) (need + 1)
      (.expression .applied (.index node positionNode)) := by
  intro limit hole room takes
  obtain ⟨state, fed, settled⟩ := left limit hole (by omega) takes
  have opened : state.feed limit (.mark .lbracket) = .ok (.operand (.position hole node)) := by
    have low := level_le hole
    rw [settled _ (by simp) (within_applied _), Hole.resume.eq_def,
      tighter?_eq_some rfl (by simp only [Continuation.level]; omega)]
    exact enter_eq_ok (by simp only [Hole.depth]; omega)
  obtain ⟨final, positionFed, positionSettled⟩ := position limit (.position hole node)
    (by simp only [Hole.depth]; omega) (Nat.le_refl _)
  refine ⟨.operator hole (.index node positionNode), ?_, fun _ _ _ => rfl⟩
  rw [feedAll_append fed, feedAll_cons opened, feedAll_concat positionFed,
    positionSettled _ (by simp) (within_of_not_joins rfl _)]
  simp [Hole.resume, tighter?, continuation?, expect]

theorem Feeds.group (inner : Feeds tokens need (.whole node)) :
    Feeds (.mark .lparen :: (tokens ++ [.mark .rparen])) (need + 1) (.expression .primary node) := by
  apply Feeds.ofOperator
  intro limit hole room
  obtain ⟨state, fed, settled⟩ := inner limit (.group hole)
    (by simp only [Hole.depth]; omega) (Nat.le_refl _)
  have opened : (State.operand hole).feed limit (.mark .lparen) = .ok (.operand (.group hole)) :=
    enter_eq_ok (by simp only [Hole.depth]; omega)
  rw [feedAll_cons opened, feedAll_concat fed, settled _ (by simp) (within_of_not_joins rfl _)]
  simp [Hole.resume, tighter?, continuation?, expect]

/-- The head of a conditional leads to its first block. -/
theorem feed_condition {condition : Node} (test : Feeds tokens need (.whole condition))
    (room : hole.depth + need + 1 ≤ limit) (rest : List Token) :
    (State.operand hole).feedAll limit
        (.keyword .ifWord :: .mark .lparen :: (tokens ++ .mark .rparen :: rest)) =
      (State.thenOpen hole condition).feedAll limit rest := by
  have asked : (State.operand hole).feed limit (.keyword .ifWord) = .ok (.ifOpen hole) := rfl
  have opened : (State.ifOpen hole).feed limit (.mark .lparen) =
      .ok (.operand (.condition hole)) := by
    simp only [State.feed, expect_self]
    exact enter_eq_ok (by simp only [Hole.depth]; omega)
  obtain ⟨state, fed, settled⟩ := test limit (.condition hole)
    (by simp only [Hole.depth]; omega) (Nat.le_refl _)
  have closed : state.feed limit (.mark .rparen) = .ok (.thenOpen hole condition) := by
    rw [settled _ (by simp) (within_of_not_joins rfl _)]
    simp [Hole.resume, tighter?, continuation?, expect]
  rw [feedAll_cons asked, feedAll_cons opened, feedAll_append fed, feedAll_cons closed]

theorem feed_consequence (condition : Node) (consequence : Feeds body need (.block (.block nodes)))
    (room : hole.depth + need ≤ limit) :
    (State.thenOpen hole condition).feedAll limit body =
      .ok (.thenDone hole condition (.block nodes)) := by
  apply consequence limit (.thenBranch hole condition)
  · exact room
  · exact expect_self ..
  · rintro _ ⟨⟩
    rfl

theorem Feeds.ifThen (condition : Feeds tokens need (.whole node))
    (consequence : Feeds body need (.block (.block nodes))) :
    Feeds (.keyword .ifWord :: .mark .lparen :: (tokens ++ .mark .rparen :: body)) (need + 1)
      (.expression .primary (.ifThen node (.block nodes))) := by
  intro limit hole room _
  refine ⟨.thenDone hole node (.block nodes), ?_, ?_⟩
  · rw [feed_condition condition (by omega), feed_consequence node consequence (by omega)]
  · intro token other _
    simp [State.feed, other]

theorem Feeds.ifElse (condition : Feeds tokens need (.whole node))
    (consequence : Feeds body need (.block (.block nodes)))
    (alternative : Feeds others need (.block (.block otherNodes))) :
    Feeds (.keyword .ifWord :: .mark .lparen ::
        (tokens ++ .mark .rparen :: (body ++ .keyword .elseWord :: others))) (need + 1)
      (.expression .primary (.ifElse node (.block nodes) (.block otherNodes))) := by
  apply Feeds.ofOperator
  intro limit hole room
  have turned : (State.thenDone hole node (.block nodes)).feed limit (.keyword .elseWord) =
      .ok (.elseOpen hole node (.block nodes)) := rfl
  rw [feed_condition condition (by omega),
    feedAll_append (feed_consequence node consequence (by omega)), feedAll_cons turned]
  apply alternative limit (.elseBranch hole node (.block nodes))
  · simp only [Site.depth]
    omega
  · exact expect_self ..
  · rintro _ ⟨⟩
    rfl

theorem Feeds.fn (params : Feeds tokens need (.params names))
    (text : Feeds body need (.block (.block nodes))) :
    Feeds (.keyword .fnWord :: .mark .lparen :: (tokens ++ .mark .rparen :: body)) need
      (.expression .primary (.fn names (.block nodes))) := by
  apply Feeds.ofOperator
  intro limit hole room
  have named : (State.operand hole).feed limit (.keyword .fnWord) = .ok (.fnOpen hole) := rfl
  have opened : (State.fnOpen hole).feed limit (.mark .lparen) = .ok (.firstParam hole) :=
    expect_self ..
  have header : tokens ++ .mark .rparen :: body = (tokens ++ [.mark .rparen]) ++ body := by simp
  rw [feedAll_cons named, feedAll_cons opened, header, feedAll_append (params limit hole)]
  apply text limit (.body hole names)
  · simpa only [Site.depth] using room
  · exact expect_self ..
  · rintro _ ⟨⟩
    rfl

theorem Feeds.array (elements : Feeds inside need (.list nodes)) :
    Feeds (.mark .lbracket :: (inside ++ [.mark .rbracket])) need
      (.expression .primary (.array nodes)) := by
  apply Feeds.ofOperator
  intro limit hole room
  have opened : (State.operand hole).feed limit (.mark .lbracket) = .ok (.firstElement hole) := rfl
  rw [feedAll_cons opened]
  exact elements limit (.array hole) room

theorem Feeds.hash (entries : Feeds inside need (.entries pairs)) :
    Feeds (.mark .lbrace :: (inside ++ [.mark .rbrace])) need
      (.expression .primary (.hash pairs)) := by
  apply Feeds.ofOperator
  intro limit hole room
  have opened : (State.operand hole).feed limit (.mark .lbrace) = .ok (.hashEntry hole []) := rfl
  rw [feedAll_cons opened]
  exact entries limit hole [] room

end Productions

end Capuchin.Grammar
