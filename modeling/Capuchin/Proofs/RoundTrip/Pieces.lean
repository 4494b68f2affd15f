import Capuchin.Decimal
import Capuchin.Proofs.Decimal
import Capuchin.Proofs.RoundTrip.WellFormed
import Mathlib.Data.List.Forall2

/-! Texts that spell phrases. For every form in which a tree is written there is one lemma, which
puts the texts of its parts together; the marks and blanks between them keep the tokens apart. -/

namespace Capuchin.Grammar

open Token

/-- The text spells the phrase wherever a delimited text follows. -/
def Prints (text : List Char) (phrase : Phrase) : Prop :=
  ∃ tokens, Scans text tokens ∧ Spells tokens phrase

/-- The text spells the phrase whatever follows. -/
def Encloses (text : List Char) (phrase : Phrase) : Prop :=
  ∃ tokens, Seals text tokens ∧ Spells tokens phrase

/-- The text spells an expression of any tier. -/
abbrev PrintsWhole (text : List Char) (node : Node) : Prop :=
  Prints text (.whole node)

/-- The text spells an expression that can be called and indexed as it stands, and an exclamation
mark may come before it. -/
def Expresses (text : List Char) (node : Node) : Prop :=
  Prints text (.expression .applied node) ∧ text.head? ≠ some '='

/-- The text spells a statement with its semicolon. -/
def States (text : List Char) (node : Node) : Prop :=
  ∃ tokens, Seals text (tokens ++ [.mark .semicolon]) ∧ Spells tokens (.statement node)

theorem Encloses.prints (enclosed : Encloses text phrase) : Prints text phrase := by
  obtain ⟨tokens, sealed, spelled⟩ := enclosed
  exact ⟨tokens, sealed.scans, spelled⟩

theorem Encloses.expresses (enclosed : Encloses text (.expression .primary node))
    (apart : text.head? ≠ some '=') : Expresses text node := by
  obtain ⟨tokens, sealed, spelled⟩ := enclosed
  exact ⟨⟨tokens, sealed.scans, .loosen spelled⟩, apart⟩

theorem Expresses.whole (expressed : Expresses text node) : PrintsWhole text node := by
  obtain ⟨⟨tokens, scanned, spelled⟩, _⟩ := expressed
  exact ⟨tokens, scanned, spelled.loosen_to (by decide)⟩

theorem delimited (apart : (isLetter c || c.isDigit || c == '=') = false) : Delimited [c] := by
  simp only [Bool.or_eq_false_iff, beq_eq_false_iff_ne] at apart
  intro other same
  cases same
  exact ⟨apart.1.1, apart.1.2, apart.2⟩

section Marks

variable {text more : List Char} {tokens others : List Token} {c : Char} {mark : Mark}

/-- A mark before a text. -/
theorem seals_open (found : Mark.single? c = some mark) (rest : Seals text tokens) :
    Seals (c :: text) (.mark mark :: tokens) :=
  (Seals.mark found).append rest

/-- A mark after a text. -/
theorem seals_close (found : Mark.single? c = some mark) (first : Scans text tokens)
    (apart : (isLetter c || c.isDigit || c == '=') = false) :
    Seals (text ++ [c]) (tokens ++ [.mark mark]) :=
  first.append_seals (Seals.mark found) (delimited apart)

/-- A mark between two texts. -/
theorem seals_between (found : Mark.single? c = some mark) (first : Scans text tokens)
    (apart : (isLetter c || c.isDigit || c == '=') = false) (rest : Seals more others) :
    Seals (text ++ c :: more) (tokens ++ .mark mark :: others) :=
  first.append_seals (seals_open found rest) (delimited apart)

theorem scans_between (found : Mark.single? c = some mark) (first : Scans text tokens)
    (apart : (isLetter c || c.isDigit || c == '=') = false) (rest : Scans more others) :
    Scans (text ++ c :: more) (tokens ++ .mark mark :: others) := by
  have marked := (seals_close found first apart).append_scans rest
  simpa using marked

/-- A blank before a text. -/
theorem seals_blank (blank : isBlank c = true) (rest : Seals text tokens) :
    Seals (c :: text) tokens :=
  (Seals.blank blank).append rest

theorem scans_blank (blank : isBlank c = true) (rest : Scans text tokens) :
    Scans (c :: text) tokens :=
  (Seals.blank blank).append_scans rest

theorem scans_keyword (keyword : Keyword) : Scans keyword.text.toList [.keyword keyword] := by
  cases keyword <;> exact Scans.word (List.all_eq_true.mp (by decide)) (by decide)

/-- A keyword and the delimiter after it. -/
theorem seals_keyword (keyword : Keyword) (rest : Seals (c :: text) tokens)
    (apart : (isLetter c || c.isDigit || c == '=') = false) :
    Seals (keyword.text.toList ++ c :: text) (.keyword keyword :: tokens) :=
  (scans_keyword keyword).append_seals rest (delimited apart)

end Marks

section Literals

theorem scans_name (named : IsName name) : Scans name.toList [.ident name] := by
  have word := Scans.word named.2.1 named.1
  rwa [String.ofList_toList, ofWord_name named] at word

/-- A text of a class without the equals sign does not begin with one. -/
private theorem head_ne {text : List Char} {keep : Char → Bool} (whole : ∀ c ∈ text, keep c = true)
    (outside : keep '=' = false) : text.head? ≠ some '=' := by
  intro head
  have kept := whole '=' (List.mem_of_mem_head? head)
  simp [outside] at kept

theorem Expresses.ident (named : IsName name) : Expresses name.toList (.ident name) := by
  refine ⟨⟨[.ident name], scans_name named, .loosen .ident⟩, ?_⟩
  exact head_ne named.2.1 (by decide)

theorem isDigit_of_mem_write (n : Nat) : ∀ c ∈ (Decimal.write n).toList, c.isDigit = true := by
  intro c member
  rw [show (Decimal.write n).toList = Decimal.digits n from String.toList_ofList] at member
  exact Decimal.isDigit_of_mem_digits member

theorem scans_numeral (n : Nat) : Scans (Decimal.write n).toList [.int (Decimal.write n)] := by
  have digits : (Decimal.write n).toList = Decimal.digits n := String.toList_ofList
  have scanned := Scans.number (isDigit_of_mem_write n) (by rw [digits]; exact Decimal.digits_ne_nil n)
  rwa [String.ofList_toList] at scanned

theorem Expresses.int (n : Nat) : Expresses (Decimal.write n).toList (.int n) := by
  refine ⟨⟨[.int (Decimal.write n)], scans_numeral n, .loosen ?_⟩,
    head_ne (isDigit_of_mem_write n) (by decide)⟩
  have spelled := @Spells.int (Decimal.write n)
  rwa [Decimal.read_write] at spelled

theorem Expresses.str (plain : '"' ∉ text.toList) :
    Expresses ('"' :: (text.toList ++ ['"'])) (.str text) := by
  have sealed := Seals.str plain
  rw [String.ofList_toList] at sealed
  exact Encloses.expresses ⟨_, sealed, .str⟩ (by simp)

theorem Expresses.bool (value : Bool) :
    Expresses (if value then "true" else "false").toList (.bool value) := by
  cases value with
  | false => exact ⟨⟨_, scans_keyword .falseWord, .loosen .no⟩, by decide⟩
  | true => exact ⟨⟨_, scans_keyword .trueWord, .loosen .yes⟩, by decide⟩

end Literals

section Operators

theorem Expresses.group (printed : PrintsWhole text node) :
    Expresses ('(' :: (text ++ [')'])) node := by
  obtain ⟨tokens, scanned, spelled⟩ := printed
  have sealed := seals_open (c := '(') rfl (seals_close (c := ')') rfl scanned rfl)
  exact Encloses.expresses ⟨_, sealed, .group spelled⟩ (by simp)

/-- A minus sign needs no parentheses where any expression may stand. -/
theorem Prints.minus (right : Expresses text node) :
    PrintsWhole ('-' :: text) (.unary .minus node) := by
  obtain ⟨⟨tokens, scanned, spelled⟩, _⟩ := right
  refine ⟨.mark .minus :: tokens, ?_, (Spells.minus (.loosen spelled)).loosen_to (by decide)⟩
  exact (Seals.mark (c := '-') rfl).append_scans scanned

theorem Expresses.unary (written : op ∈ [UnaryOp.bang, .minus]) (right : Expresses text node) :
    Expresses ('(' :: (op.symbol.toList ++ text ++ [')'])) (.unary op node) := by
  apply Expresses.group
  simp only [List.mem_cons, List.not_mem_nil, or_false] at written
  rcases written with rfl | rfl
  · obtain ⟨⟨tokens, scanned, spelled⟩, apart⟩ := right
    have operand : Spells tokens (.expression .unary node) := .loosen spelled
    -- The operand does not begin with an equals sign, which the exclamation mark would take.
    refine ⟨.mark .bang :: tokens, ?_, (Spells.bang operand).loosen_to (by decide)⟩
    intro rest delimited
    have alone : (text ++ rest).head? ≠ some '=' := by
      cases text with
      | nil => exact fun same => (delimited '=' same).2.2 rfl
      | cons c text => simpa using apart
    rw [List.cons_append, ← scanned rest delimited]
    exact scan_bang alone
  · exact Prints.minus right

/-- The symbol of an infix operator is one token. -/
theorem seals_symbol (written : op ∈ BinaryOp.written) :
    ∃ mark tier, Seals op.symbol.toList [.mark mark] ∧ operator? mark = some (tier, op) := by
  simp only [BinaryOp.written, List.mem_cons, List.not_mem_nil, or_false] at written
  rcases written with rfl | rfl | rfl | rfl | rfl | rfl | rfl | rfl
  · exact ⟨.plus, .sum, Seals.mark rfl, rfl⟩
  · exact ⟨.minus, .sum, Seals.mark rfl, rfl⟩
  · exact ⟨.asterisk, .product, Seals.mark rfl, rfl⟩
  · exact ⟨.slash, .product, Seals.mark rfl, rfl⟩
  · exact ⟨.lt, .comparison, Seals.mark rfl, rfl⟩
  · exact ⟨.gt, .comparison, Seals.mark rfl, rfl⟩
  · exact ⟨.eq, .equality, Seals.eq, rfl⟩
  · exact ⟨.notEq, .equality, Seals.notEq, rfl⟩

theorem operator?_rank {mark : Mark} (written : operator? mark = some (tier, op)) : tier.rank ≤ 3 := by
  cases mark <;> simp [operator?] at written <;> obtain ⟨rfl, _⟩ := written <;> decide

theorem Expresses.binary (left : Expresses leftText leftNode) (written : op ∈ BinaryOp.written)
    (right : Expresses rightText rightNode) :
    Expresses ('(' :: (leftText ++ ' ' :: (op.symbol.toList ++ ' ' :: rightText) ++ [')']))
      (.binary leftNode op rightNode) := by
  obtain ⟨⟨before, scannedLeft, spelledLeft⟩, _⟩ := left
  obtain ⟨⟨after, scannedRight, spelledRight⟩, _⟩ := right
  obtain ⟨mark, tier, symbol, found⟩ := seals_symbol written
  have bound := operator?_rank found
  have rank := tier.rank_above (by omega)
  refine Expresses.group ⟨before ++ .mark mark :: after, ?_, ?_⟩
  · have opened : Seals (leftText ++ [' ']) (before ++ []) :=
      scannedLeft.append_seals (Seals.blank rfl) (delimited rfl)
    have closed := symbol.append_scans (scans_blank (c := ' ') rfl scannedRight)
    simpa using opened.append_scans closed
  · have looseLeft : Spells before (.expression tier leftNode) :=
      spelledLeft.loosen_to (Nat.le_trans bound (by decide))
    have looseRight : Spells after (.expression tier.above rightNode) :=
      spelledRight.loosen_to (by rw [rank]; exact Nat.le_trans (Nat.succ_le_succ bound) (by decide))
    exact (Spells.binary looseLeft found looseRight).loosen_to (Nat.zero_le _)

theorem Expresses.index (left : Expresses text node) (position : Expresses more positionNode) :
    Expresses ('(' :: (text ++ '[' :: (more ++ [']']) ++ [')'])) (.index node positionNode) := by
  obtain ⟨⟨tokens, scannedLeft, spelledLeft⟩, _⟩ := left
  obtain ⟨inside, scannedInside, spelledInside⟩ := position.whole
  refine Expresses.group ⟨_, ?_, (Spells.index spelledLeft spelledInside).loosen_to (by decide)⟩
  have closed := seals_close (c := ']') rfl scannedInside rfl
  exact (seals_between (c := '[') rfl scannedLeft rfl closed).scans

theorem Expresses.call (callee : Expresses text node) (args : Prints more (.list nodes)) :
    Expresses (text ++ '(' :: (more ++ [')'])) (.call node nodes) := by
  obtain ⟨⟨tokens, scanned, spelled⟩, apart⟩ := callee
  obtain ⟨inside, scannedInside, spelledInside⟩ := args
  have closed := seals_close (c := ')') rfl scannedInside rfl
  refine ⟨⟨_, (seals_between (c := '(') rfl scanned rfl closed).scans,
    .call spelled spelledInside⟩, ?_⟩
  cases text with
  | nil => simp
  | cons c text => simpa using apart

end Operators

section Lists

theorem Prints.items (first : PrintsWhole text node)
    (rest : List.Forall₂ PrintsWhole texts nodes) :
    Prints ([',', ' '].intercalate (text :: texts)) (.items (node :: nodes)) := by
  induction rest generalizing text node with
  | nil =>
    obtain ⟨tokens, scanned, spelled⟩ := first
    exact ⟨tokens, by simpa using scanned, .lastItem spelled⟩
  | cons second rest ih =>
    obtain ⟨tokens, scanned, spelled⟩ := first
    obtain ⟨others, scannedOthers, spelledOthers⟩ := ih second
    refine ⟨_, ?_, .moreItems spelled spelledOthers⟩
    have spaced := scans_blank (c := ' ') rfl scannedOthers
    simpa using scans_between (c := ',') rfl scanned rfl spaced

theorem Prints.list (each : List.Forall₂ PrintsWhole texts nodes) :
    Prints ([',', ' '].intercalate texts) (.list nodes) := by
  cases each with
  | nil => exact ⟨[], Seals.nil.scans, .noItems⟩
  | cons first rest =>
    obtain ⟨tokens, scanned, spelled⟩ := Prints.items first rest
    exact ⟨tokens, scanned, .someItems spelled⟩

theorem Prints.names {names : List String} (named : ∀ other ∈ name :: names, IsName other) :
    Prints ([',', ' '].intercalate ((name :: names).map String.toList))
      (.names (name :: names)) := by
  have scanned := scans_name (named name (by simp))
  induction names generalizing name with
  | nil => exact ⟨[.ident name], by simpa using scanned, .lastName⟩
  | cons second names ih =>
    have later : ∀ other ∈ second :: names, IsName other := fun other member =>
      named other (List.mem_cons_of_mem _ member)
    obtain ⟨others, scannedOthers, spelledOthers⟩ := ih later (scans_name (later second (by simp)))
    refine ⟨_, ?_, .moreNames spelledOthers⟩
    have spaced := scans_blank (c := ' ') rfl scannedOthers
    simpa using scans_between (c := ',') rfl scanned rfl spaced

theorem Prints.params {names : List String} (named : ∀ name ∈ names, IsName name) :
    Prints ([',', ' '].intercalate (names.map String.toList)) (.params names) := by
  cases names with
  | nil => exact ⟨[], Seals.nil.scans, .noParams⟩
  | cons name names =>
    obtain ⟨tokens, scanned, spelled⟩ := Prints.names named
    exact ⟨tokens, scanned, .someParams spelled⟩

/-- The text spells a key and its value. -/
def Pairs (text : List Char) (pair : Node × Node) : Prop :=
  ∃ keyText valueText, text = keyText ++ ':' :: ' ' :: valueText ∧
    PrintsWhole keyText pair.1 ∧ PrintsWhole valueText pair.2

theorem Pairs.split (paired : Pairs text pair) :
    ∃ tokens others, Scans text (tokens ++ .mark .colon :: others) ∧
      Spells tokens (.whole pair.1) ∧ Spells others (.whole pair.2) := by
  obtain ⟨keyText, valueText, rfl, key, value⟩ := paired
  obtain ⟨tokens, scanned, spelled⟩ := key
  obtain ⟨others, scannedOthers, spelledOthers⟩ := value
  have spaced := scans_blank (c := ' ') rfl scannedOthers
  exact ⟨tokens, others, scans_between (c := ':') rfl scanned rfl spaced, spelled, spelledOthers⟩

theorem Prints.entries (each : List.Forall₂ Pairs texts pairs) :
    Prints ([',', ' '].intercalate texts) (.entries pairs) := by
  induction each with
  | nil => exact ⟨[], Seals.nil.scans, .noEntries⟩
  | @cons text pair texts pairs first rest ih =>
    obtain ⟨tokens, others, scanned, key, value⟩ := first.split
    cases rest with
    | nil => exact ⟨_, by simpa using scanned, .lastEntry key value⟩
    | cons second rest =>
      obtain ⟨later, scannedLater, spelledLater⟩ := ih
      refine ⟨_, ?_, .moreEntries key value spelledLater⟩
      have spaced := scans_blank (c := ' ') rfl scannedLater
      simpa using scans_between (c := ',') rfl scanned rfl spaced

theorem Expresses.array (elements : Prints text (.list nodes)) :
    Expresses ('[' :: (text ++ [']'])) (.array nodes) := by
  obtain ⟨tokens, scanned, spelled⟩ := elements
  have sealed := seals_open (c := '[') rfl (seals_close (c := ']') rfl scanned rfl)
  exact Encloses.expresses ⟨_, sealed, .array spelled⟩ (by simp)

theorem Expresses.hash (entries : Prints text (.entries pairs)) :
    Expresses ('\x7b' :: (text ++ ['\x7d'])) (.hash pairs) := by
  obtain ⟨tokens, scanned, spelled⟩ := entries
  have sealed := seals_open (c := '\x7b') rfl (seals_close (c := '\x7d') rfl scanned rfl)
  exact Encloses.expresses ⟨_, sealed, .hash spelled⟩ (by simp)

end Lists

section Bodies

theorem Encloses.block (inside : Encloses text (.statements nodes)) :
    Encloses ('\x7b' :: ' ' :: (text ++ [' ', '\x7d'])) (.block (.block nodes)) := by
  obtain ⟨tokens, sealed, spelled⟩ := inside
  refine ⟨_, ?_, .block spelled⟩
  have closed := sealed.append (seals_blank (c := ' ') rfl (Seals.mark (c := '\x7d') rfl))
  exact seals_open (c := '\x7b') rfl (seals_blank (c := ' ') rfl closed)

theorem Encloses.emptyBlock : Encloses ['\x7b', ' ', '\x7d'] (.block (.block [])) := by
  refine ⟨_, ?_, .block .empty⟩
  have closed := seals_blank (c := ' ') rfl (Seals.mark (c := '\x7d') rfl)
  exact seals_open (c := '\x7b') rfl closed

theorem Expresses.fn (params : Prints text (.params names)) (body : Encloses more (.block node)) :
    Expresses ("fn".toList ++ '(' :: (text ++ ')' :: ' ' :: more)) (.fn names node) := by
  obtain ⟨tokens, scanned, spelled⟩ := params
  obtain ⟨others, sealed, spelledBody⟩ := body
  have after := seals_between (c := ')') rfl scanned rfl (seals_blank (c := ' ') rfl sealed)
  have opened := seals_keyword .fnWord (seals_open (c := '(') rfl after) rfl
  exact Encloses.expresses ⟨_, opened, .fn spelled spelledBody⟩ (by simp)

theorem Expresses.ifThen (condition : Expresses text node)
    (consequence : Encloses more (.block thenNode)) :
    Expresses ("if".toList ++ ' ' :: '(' :: (text ++ ')' :: ' ' :: more))
      (.ifThen node thenNode) := by
  obtain ⟨tokens, scanned, spelled⟩ := condition.whole
  obtain ⟨others, sealed, spelledThen⟩ := consequence
  have after := seals_between (c := ')') rfl scanned rfl (seals_blank (c := ' ') rfl sealed)
  have opened := seals_keyword .ifWord
    (seals_blank (c := ' ') rfl (seals_open (c := '(') rfl after)) rfl
  exact Encloses.expresses ⟨_, opened, .ifThen spelled spelledThen⟩ (by simp)

theorem Expresses.ifElse (condition : Expresses text node)
    (consequence : Encloses more (.block thenNode)) (alternative : Encloses last (.block elseNode)) :
    Expresses ("if".toList ++ ' ' :: '(' ::
        (text ++ ')' :: ' ' :: (more ++ ' ' :: ("else".toList ++ ' ' :: last))))
      (.ifElse node thenNode elseNode) := by
  obtain ⟨tokens, scanned, spelled⟩ := condition.whole
  obtain ⟨others, sealed, spelledThen⟩ := consequence
  obtain ⟨rest, sealedElse, spelledElse⟩ := alternative
  have otherwise := seals_keyword .elseWord (seals_blank (c := ' ') rfl sealedElse) rfl
  have bodies := sealed.append (seals_blank (c := ' ') rfl otherwise)
  have after := seals_between (c := ')') rfl scanned rfl (seals_blank (c := ' ') rfl bodies)
  have opened := seals_keyword .ifWord
    (seals_blank (c := ' ') rfl (seals_open (c := '(') rfl after)) rfl
  exact Encloses.expresses ⟨_, opened, .ifElse spelled spelledThen spelledElse⟩ (by simp)

end Bodies

section Statements

theorem States.letStmt (named : IsName name) (value : Expresses text node) :
    States ("let".toList ++ ' ' :: (name.toList ++ ' ' :: '=' :: ' ' :: (text ++ [';'])))
      (.letStmt name node) := by
  obtain ⟨tokens, scanned, spelled⟩ := value.whole
  refine ⟨_, ?_, .letStmt spelled⟩
  have ended := seals_blank (c := ' ') rfl (seals_close (c := ';') rfl scanned rfl)
  have assigned := seals_blank (c := ' ') rfl (Scans.assign.append_seals ended (delimited rfl))
  have bound := (scans_name named).append_seals assigned (delimited rfl)
  exact seals_keyword .letWord (seals_blank (c := ' ') rfl bound) rfl

theorem States.returnStmt (value : Expresses text node) :
    States ("return".toList ++ ' ' :: (text ++ [';'])) (.returnStmt node) := by
  obtain ⟨tokens, scanned, spelled⟩ := value.whole
  refine ⟨_, ?_, .returnStmt spelled⟩
  have ended := seals_close (c := ';') rfl scanned rfl
  exact seals_keyword .returnWord (seals_blank (c := ' ') rfl ended) rfl

theorem States.exprStmt (expression : Expresses text node) :
    States (text ++ [';']) (.exprStmt node) := by
  obtain ⟨tokens, scanned, spelled⟩ := expression.whole
  exact ⟨tokens, seals_close (c := ';') rfl scanned rfl, .exprStmt spelled⟩

theorem Encloses.statements (each : List.Forall₂ States texts nodes) :
    Encloses (['\n'].intercalate texts) (.statements nodes) := by
  induction each with
  | nil => exact ⟨[], Seals.nil, .empty⟩
  | cons first rest ih =>
    obtain ⟨tokens, sealed, spelled⟩ := first
    obtain ⟨others, sealedOthers, spelledOthers⟩ := ih
    refine ⟨_, ?_, .closed spelled spelledOthers⟩
    cases rest with
    | nil =>
      have none : others = [] := by
        cases spelledOthers
        rfl
      simpa [none] using sealed
    | cons second rest =>
      have joined := sealed.append (seals_blank (c := '\n') rfl sealedOthers)
      simpa using joined

end Statements

end Capuchin.Grammar
