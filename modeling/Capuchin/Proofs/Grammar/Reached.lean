import Capuchin.Proofs.Grammar.Strength

namespace Capuchin.Grammar

open Parse

/-- The tokens come before the rest of a list and add `done` in front of it. -/
def Leads (phrase : List α → Phrase) (tokens : List Token) (done : List α) : Prop :=
  ∀ more rest, Spells more (phrase rest) → Spells (tokens ++ more) (phrase (done ++ rest))

theorem Leads.nil {phrase : List α → Phrase} : Leads phrase [] [] :=
  fun _ _ spelled => spelled

/-- The tokens spell the statements `done`, and a statement may begin with `first` after them. -/
structure Fits (tokens : List Token) (done : List Node) (first : Token) : Prop where
  whole : Spells tokens (.statements done)
  extend : ∀ {more nodes}, Spells (first :: more) (.statements nodes) →
    Spells (tokens ++ first :: more) (.statements (done ++ nodes))

theorem Leads.fits (leads : Leads .statements tokens done) (first : Token) :
    Fits tokens done first :=
  ⟨by simpa using leads [] [] .empty, fun spelled => leads _ _ spelled⟩

/-- The tokens spell the statements `done`, the last of which may still get its semicolon. -/
structure Trails (tokens : List Token) (done : List Node) : Prop where
  closed : Leads .statements (tokens ++ [.mark .semicolon]) done
  fits : ∀ token, joins token = false → Fits tokens done token

theorem Fits.trails (fits : Fits own done first) (added : Spells (first :: tokens) (.statement node)) :
    Trails (own ++ first :: tokens) (done ++ [node]) := by
  constructor
  · intro more rest spelled
    simpa using fits.extend (added.closed spelled)
  · intro token apart
    constructor
    · have alone : Spells (first :: tokens) (.statements [node]) := by
        simpa using added.unclosed .empty (by simp)
      exact fits.extend alone
    · intro more nodes spelled
      simpa using fits.extend (added.unclosed spelled (by simp [apart]))

theorem Leads.add (leads : Leads .items own done) (item : Spells tokens (.whole node)) :
    Leads .items (own ++ (tokens ++ [.mark .comma])) (done ++ [node]) := by
  intro more rest spelled
  simpa using leads _ _ (item.moreItems spelled)

theorem Leads.addEntry (leads : Leads .entries own done) (key : Spells tokens (.whole keyNode))
    (value : Spells others (.whole node)) :
    Leads .entries (own ++ (tokens ++ .mark .colon :: (others ++ [.mark .comma])))
      (done ++ [(keyNode, node)]) := by
  intro more rest spelled
  simpa using leads _ _ (key.moreEntries value spelled)

theorem Leads.addName (leads : Leads .names own done) (name : String) :
    Leads .names (own ++ [.ident name, .mark .comma]) (done ++ [name]) := by
  intro more rest spelled
  simpa using leads _ _ (.moreNames spelled)

mutual

/-- The tokens lead to a place where a list of statements begins. -/
inductive SiteReached : List Token → Site → Prop where
  | program : SiteReached [] .program
  | thenBranch (outer : HoleReached before (.keyword .ifWord) hole)
      (condition : Spells test (.whole node)) :
      SiteReached (before ++ .keyword .ifWord :: .mark .lparen ::
          (test ++ [.mark .rparen, .mark .lbrace])) (.thenBranch hole node)
  | elseBranch (outer : HoleReached before (.keyword .ifWord) hole)
      (condition : Spells test (.whole node)) (consequence : Spells body (.block thenNode)) :
      SiteReached (before ++ .keyword .ifWord :: .mark .lparen ::
          (test ++ .mark .rparen :: (body ++ [.keyword .elseWord, .mark .lbrace])))
        (.elseBranch hole node thenNode)
  | body (outer : HoleReached before (.keyword .fnWord) hole)
      (params : Spells header (.params names)) :
      SiteReached (before ++ .keyword .fnWord :: .mark .lparen ::
          (header ++ [.mark .rparen, .mark .lbrace])) (.body hole names)

/-- The tokens lead to a place for an expression, provided that it begins with the given token. -/
inductive HoleReached : List Token → Token → Hole → Prop where
  | letValue (reached : SiteReached outside site) (fits : Fits own done (.keyword .letWord)) :
      HoleReached (outside ++ (own ++ [.keyword .letWord, .ident name, .mark .assign])) first
        (.letValue site done name)
  | returnValue (reached : SiteReached outside site) (fits : Fits own done (.keyword .returnWord)) :
      HoleReached (outside ++ (own ++ [.keyword .returnWord])) first (.returnValue site done)
  | statement (reached : SiteReached outside site) (fits : Fits own done first) :
      HoleReached (outside ++ own) first (.statement site done)
  | bang (outer : HoleReached before (.mark .bang) hole) :
      HoleReached (before ++ [.mark .bang]) first (.operand hole .bang)
  | minus (outer : HoleReached before (.mark .minus) hole) :
      HoleReached (before ++ [.mark .minus]) first (.operand hole .minus)
  | right (outer : HoleReached before start hole)
      (left : Spells (start :: tokens) (.expression tier node))
      (written : operator? mark = some (tier, op)) (takes : (holeTier hole).rank ≤ tier.rank) :
      HoleReached (before ++ start :: (tokens ++ [.mark mark])) first (.right hole node op)
  | group (outer : HoleReached before (.mark .lparen) hole) :
      HoleReached (before ++ [.mark .lparen]) first (.group hole)
  | condition (outer : HoleReached before (.keyword .ifWord) hole) :
      HoleReached (before ++ [.keyword .ifWord, .mark .lparen]) first (.condition hole)
  | element (outer : HoleReached before (.mark .lbracket) hole) (leads : Leads .items own done) :
      HoleReached (before ++ .mark .lbracket :: own) first (.element hole done)
  | argument (outer : HoleReached before start hole)
      (callee : Spells (start :: tokens) (.expression .applied node))
      (leads : Leads .items own done) :
      HoleReached (before ++ start :: (tokens ++ .mark .lparen :: own)) first
        (.argument hole node done)
  | key (outer : HoleReached before (.mark .lbrace) hole) (leads : Leads .entries own done) :
      HoleReached (before ++ .mark .lbrace :: own) first (.key hole done)
  | value (outer : HoleReached before (.mark .lbrace) hole) (leads : Leads .entries own done)
      (key : Spells tokens (.whole keyNode)) :
      HoleReached (before ++ .mark .lbrace :: (own ++ (tokens ++ [.mark .colon]))) first
        (.value hole done keyNode)
  | position (outer : HoleReached before start hole)
      (left : Spells (start :: tokens) (.expression .applied node)) :
      HoleReached (before ++ start :: (tokens ++ [.mark .lbracket])) first (.position hole node)

end

/-- The tokens spell what the state has read. -/
inductive Reached : List Token → State → Prop where
  | statement (reached : SiteReached outside site) (leads : Leads .statements own done) :
      Reached (outside ++ own) (.statement site done)
  | letName (reached : SiteReached outside site) (fits : Fits own done (.keyword .letWord)) :
      Reached (outside ++ (own ++ [.keyword .letWord])) (.letName site done)
  | letAssign (reached : SiteReached outside site) (fits : Fits own done (.keyword .letWord)) :
      Reached (outside ++ (own ++ [.keyword .letWord, .ident name])) (.letAssign site done name)
  | operand (reached : ∀ first, HoleReached before first hole) : Reached before (.operand hole)
  | operator (outer : HoleReached before first hole)
      (spelled : Spells (first :: tokens) (.expression .applied node)) :
      Reached (before ++ first :: tokens) (.operator hole node)
  | ifOpen (outer : HoleReached before (.keyword .ifWord) hole) :
      Reached (before ++ [.keyword .ifWord]) (.ifOpen hole)
  | thenOpen (outer : HoleReached before (.keyword .ifWord) hole)
      (condition : Spells test (.whole node)) :
      Reached (before ++ .keyword .ifWord :: .mark .lparen :: (test ++ [.mark .rparen]))
        (.thenOpen hole node)
  | thenDone (outer : HoleReached before (.keyword .ifWord) hole)
      (condition : Spells test (.whole node)) (consequence : Spells body (.block thenNode)) :
      Reached (before ++ .keyword .ifWord :: .mark .lparen :: (test ++ .mark .rparen :: body))
        (.thenDone hole node thenNode)
  | elseOpen (outer : HoleReached before (.keyword .ifWord) hole)
      (condition : Spells test (.whole node)) (consequence : Spells body (.block thenNode)) :
      Reached (before ++ .keyword .ifWord :: .mark .lparen ::
          (test ++ .mark .rparen :: (body ++ [.keyword .elseWord])))
        (.elseOpen hole node thenNode)
  | fnOpen (outer : HoleReached before (.keyword .fnWord) hole) :
      Reached (before ++ [.keyword .fnWord]) (.fnOpen hole)
  | firstParam (outer : HoleReached before (.keyword .fnWord) hole) :
      Reached (before ++ [.keyword .fnWord, .mark .lparen]) (.firstParam hole)
  | nextParam (outer : HoleReached before (.keyword .fnWord) hole)
      (leads : Leads .names own params) :
      Reached (before ++ .keyword .fnWord :: .mark .lparen :: own) (.nextParam hole params)
  | paramDone (outer : HoleReached before (.keyword .fnWord) hole)
      (whole : Spells own (.names params)) (leads : Leads .names (own ++ [.mark .comma]) params) :
      Reached (before ++ .keyword .fnWord :: .mark .lparen :: own) (.paramDone hole params)
  | bodyOpen (outer : HoleReached before (.keyword .fnWord) hole)
      (params : Spells header (.params names)) :
      Reached (before ++ .keyword .fnWord :: .mark .lparen :: (header ++ [.mark .rparen]))
        (.bodyOpen hole names)
  | firstElement (outer : HoleReached before (.mark .lbracket) hole) :
      Reached (before ++ [.mark .lbracket]) (.firstElement hole)
  | firstArgument (outer : HoleReached before start hole)
      (callee : Spells (start :: tokens) (.expression .applied node)) :
      Reached (before ++ start :: (tokens ++ [.mark .lparen])) (.firstArgument hole node)
  | hashEntry (outer : HoleReached before (.mark .lbrace) hole) (leads : Leads .entries own done) :
      Reached (before ++ .mark .lbrace :: own) (.hashEntry hole done)
  | finished (spelled : Spells own (.statements done)) :
      Reached (own ++ .eof :: rest) (.finished done)

end Capuchin.Grammar
