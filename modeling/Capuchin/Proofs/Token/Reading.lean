import Capuchin.Proofs.Token.Scan
import Mathlib.Data.Stream.Init

namespace Capuchin

namespace Token

/-- The tokens of a text and then the end, again and again. -/
def stream (text : List Char) : Stream' Token :=
  scan text ++ₛ Stream'.const .eof

/-- These tokens, taken singly, lead from the one text to the other. -/
inductive Reads : List Char → List Token → List Char → Prop
  | nil : Reads text [] text
  | cons (taken : next text = (token, rest)) (further : Reads rest tokens left) :
      Reads text (token :: tokens) left

/-- The end comes last if it comes at all. -/
def EndIsLast (tokens : List Token) : Prop :=
  .eof ∉ tokens.dropLast

variable {text rest left : List Char} {token : Token} {tokens others : List Token}

theorem next_cases (taken : next text = (token, rest)) :
    (token = .eof ∧ rest = [] ∧ scan text = [.eof]) ∨
      (token ≠ .eof ∧ scan text = token :: scan rest) := by
  rw [scan_eq]
  unfold next at taken
  cases visible : text.dropWhile isBlank with
  | nil =>
    rw [visible] at taken
    cases taken
    exact .inl ⟨rfl, rfl, rfl⟩
  | cons first others =>
    have cut : lexeme first others = (token, rest) := by
      rw [visible] at taken
      exact taken
    have lexical := lexeme_lexical first others
    rw [cut] at lexical
    refine .inr ⟨?_, by simp only [cut]⟩
    rintro rfl
    exact lexical

theorem scan_nil : scan [] = [.eof] := by
  rw [scan_eq]
  rfl

theorem stream_nil : stream [] = Stream'.const .eof := by
  rw [stream, scan_nil]
  exact (Stream'.const_eq _).symm

/-- The step lemma: a single token is the head of the stream, and its tail is left. -/
theorem stream_next (taken : next text = (token, rest)) :
    stream text = Stream'.cons token (stream rest) := by
  rcases next_cases taken with ⟨rfl, rfl, ended⟩ | ⟨_, goes⟩
  · rw [stream_nil, stream, ended]
    rfl
  · rw [stream, goes]
    rfl

namespace Reads

theorem append (first : Reads text tokens rest) (second : Reads rest others left) :
    Reads text (tokens ++ others) left := by
  induction first with
  | nil => exact second
  | cons taken _ ih => exact .cons taken (ih second)

/-- The run lemma: tokens taken singly are a first part of the stream, and the other part is left. -/
theorem stream_eq (reads : Reads text tokens rest) : stream text = tokens ++ₛ stream rest := by
  induction reads with
  | nil => rfl
  | cons taken _ ih =>
    rw [stream_next taken, ih]
    rfl

theorem eq_take (reads : Reads text tokens rest) : tokens = (stream text).take tokens.length := by
  rw [reads.stream_eq, Stream'.take_append_of_le_length _ _ _ (Nat.le_refl _), List.take_length]

end Reads

theorem EndIsLast.cons (other : token ≠ .eof) (ends : EndIsLast tokens) :
    EndIsLast (token :: tokens) := by
  cases tokens with
  | nil => simp [EndIsLast]
  | cons next tokens => simpa [EndIsLast, Ne.symm other] using ends

theorem take_goes (count : Nat) (taken : next text = (token, rest)) (other : token ≠ .eof) :
    take (count + 1) text = (token :: (take count rest).1, (take count rest).2) := by
  rw [take, taken]
  split
  · rename_i ended
    exact absurd (congrArg Prod.fst ended) other
  · rename_i goes
    cases goes
    rfl

end Token

namespace Reading

open Token

/-- What a reading is to deliver: one token, or the tokens up to the end, or so many of these. -/
def Delivers : Reading → List Token → Prop
  | next, tokens => tokens.length = 1
  | all, tokens => EndIsLast tokens ∧ tokens.getLast? = some .eof
  | upTo count, tokens => EndIsLast tokens ∧ tokens.length ≤ count ∧
      (tokens.length < count → tokens.getLast? = some .eof)

/-- A course of readings. Each delivers what it is to deliver, and takes just these tokens from the
text that the readings before it have left. -/
inductive Course : List Char → List Reading → List (List Token) → Prop
  | nil : Course text [] []
  | cons (reads : Reads text tokens rest) (delivers : Delivers reading tokens)
      (further : Course rest readings delivered) :
      Course text (reading :: readings) (tokens :: delivered)

variable {text : List Char} {readings : List Reading} {delivered : List (List Token)}

theorem all_delivers (text : List Char) : Delivers all (scan text) := by
  obtain ⟨tokens, ends, _⟩ := scan_split text
  have before := eof_notMem_of_scan ends
  rw [ends]
  exact ⟨by simpa [EndIsLast] using before, by simp⟩

theorem all_reads (text : List Char) : Reads text (scan text) [] := by
  induction text using scan.induct with
  | case1 text blanks =>
    have taken : Token.next text = (.eof, []) := by rw [Token.next, blanks]
    rw [scan_eq, blanks]
    exact .cons taken .nil
  | case2 text first others visible _ ih =>
    have taken : Token.next text = lexeme first others := by rw [Token.next, visible]
    rw [scan_eq, visible]
    exact .cons taken ih

theorem upTo_delivers (count : Nat) (text : List Char) :
    Delivers (upTo count) (take count text).1 ∧
      Reads text (take count text).1 (take count text).2 := by
  induction count generalizing text with
  | zero => exact ⟨by simp [Delivers, EndIsLast, take], .nil⟩
  | succ count ih =>
    rcases taken : Token.next text with ⟨token, rest⟩
    by_cases last : token = .eof
    · -- Nothing is taken after the end, however many tokens were asked for.
      subst last
      rw [take, taken]
      exact ⟨by simp [Delivers, EndIsLast], .cons taken .nil⟩
    · obtain ⟨⟨ends, short, ended⟩, reads⟩ := ih rest
      rw [take_goes count taken last]
      refine ⟨⟨ends.cons last, by simpa using short, ?_⟩, .cons taken reads⟩
      intro shorter
      have before := ended (by simpa using shorter)
      simp [List.getLast?_cons, before]

/-- The step lemma: a reading delivers what it is to deliver, and takes no token more or less. -/
theorem perform_delivers (reading : Reading) (text : List Char) :
    reading.Delivers (reading.perform text).1 ∧
      Reads text (reading.perform text).1 (reading.perform text).2 := by
  cases reading with
  | next => exact ⟨rfl, .cons rfl .nil⟩
  | all => exact ⟨all_delivers text, all_reads text⟩
  | upTo count => exact upTo_delivers count text

/-- The run lemma: readings of one text are a course. -/
theorem course_performAll (readings : List Reading) (text : List Char) :
    Course text readings (performAll readings text) := by
  induction readings generalizing text with
  | nil => exact .nil
  | cons reading readings ih =>
    obtain ⟨delivers, reads⟩ := perform_delivers reading text
    exact .cons reads delivers (ih _)

theorem Course.reads (course : Course text readings delivered) :
    ∃ rest, Reads text delivered.flatten rest := by
  induction course with
  | nil => exact ⟨_, .nil⟩
  | cons reads _ _ ih =>
    obtain ⟨rest, further⟩ := ih
    exact ⟨rest, reads.append further⟩

end Reading

/-- However a text is read, by readings in any order and beyond its end, it delivers one stream: what
they deliver, one after the other, is a first part of the tokens of the text with the end for ever
after them. Readings of several tokens deliver the end at most once, as their last token, and every
reading takes from the text just the tokens that it delivers. -/
theorem readings_share_one_stream (source : String) (readings : List Reading) :
    let delivered := Reading.performAll readings source.toList
    delivered.flatten =
      (Token.ofSource source ++ₛ Stream'.const .eof).take delivered.flatten.length ∧
    Reading.Course source.toList readings delivered := by
  intro delivered
  have course := Reading.course_performAll readings source.toList
  obtain ⟨rest, reads⟩ := course.reads
  exact ⟨reads.eq_take, course⟩

example : Reading.performAll [.upTo 2, .next, .upTo 0, .all, .next, .upTo 3] "let a = b".toList =
    [[.keyword .letWord, .ident "a"], [.mark .assign], [], [.ident "b", .eof], [.eof], [.eof]] := by
  cbv

end Capuchin
