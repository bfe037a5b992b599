import SourceScan.Text.CharClass

/-!
# Patterns

A pattern describes pieces of a text: `Pattern` is its form, `Pattern.Spans t p i j` says that `p`
describes the piece of `t` from place `i` to place `j`. A place is a gap between two characters;
a text of `n` characters has the places `0` to `n`.

A pattern is used in two ways. A rule asks whether it spans any piece of a line at all, so how many
times a part repeats beyond what is required makes no difference there. A header or a counted token
asks which piece it spans from a given place; the patterns used for that leave no choice.

The relation is by recursion on the pattern, one equation to a constructor. Repetition is a finite
chain of pieces (`Chain`), and the exclusion of what follows (`notAhead`) is a negation, which is
why the relation is not one inductive family.
-/

namespace SourceScan

/-- A set of characters, as a pattern names it. -/
inductive CharSet
  | any
  | single (c : Char)
  | range (first last : Char)
  | word
  | digit
  | blank
  | union (a b : CharSet)
  | compl (a : CharSet)
  deriving Repr, DecidableEq

namespace CharSet

/-- Whether the character is in the set. -/
def contains : CharSet → Char → Bool
  | any, _ => true
  | single x, c => c == x
  | range first last, c => first ≤ c && c ≤ last
  | word, c => Text.isWord c
  | digit, c => Text.isDigit c
  | blank, c => Text.isBlank c
  | union a b, c => a.contains c || b.contains c
  | compl a, c => !a.contains c

/-- The set of the characters listed; the empty list gives the empty set. -/
def ofList : List Char → CharSet
  | [] => compl any
  | [c] => single c
  | c :: cs => union (single c) (ofList cs)

/-- The set of the characters of a string. -/
def ofString (s : String) : CharSet := ofList s.toList

/-- The characters that differ from `c` in case only. Besides the two cases of an ASCII letter these
are the dotted and the dotless i, the long s and the Kelvin sign; `c` is an ASCII character. -/
def eitherCase (c : Char) : CharSet :=
  let lower := c.toLower
  let upper := c.toUpper
  let both := if upper == lower then single c else union (single lower) (single upper)
  if lower == 'i' then union both (ofList ['\u0130', '\u0131'])
  else if lower == 's' then union both (single '\u017F')
  else if lower == 'k' then union both (single '\u212A')
  else both

end CharSet

/-- The form of a pattern. -/
inductive Pattern
  /-- The empty piece, anywhere. -/
  | empty
  /-- One character of a set. -/
  | char (s : CharSet)
  /-- A piece of the first pattern, then one of the second. -/
  | seq (p q : Pattern)
  /-- A piece of either pattern. -/
  | alt (p q : Pattern)
  /-- Any number of characters of a set. -/
  | run (s : CharSet)
  /-- Any number of pieces, one after the other. -/
  | many (p : Pattern)
  /-- The empty piece, where a word begins or ends. -/
  | boundary
  /-- The empty piece at the start of the text. -/
  | atStart
  /-- The empty piece at the end of the text, or before a line feed that ends it. -/
  | atEnd
  /-- The empty piece, where no piece of the pattern follows. -/
  | notAhead (p : Pattern)
  deriving Repr, DecidableEq

/-- A finite chain of steps. -/
inductive Chain (step : Nat → Nat → Prop) : Nat → Nat → Prop
  | nil (i : Nat) : Chain step i i
  | cons {i j k : Nat} : step i j → Chain step j k → Chain step i k

namespace Pattern

/-- Whether the character after place `i` is a word character; there is none at the end. -/
def wordAfter (t : Array Char) (i : Nat) : Bool :=
  if h : i < t.size then Text.isWord t[i] else false

/-- Whether the character before place `i` is a word character; there is none at the start. -/
def wordBefore (t : Array Char) (i : Nat) : Bool :=
  if i == 0 then false else wordAfter t (i - 1)

/-- Whether a word begins or ends at place `i`. -/
def isBoundary (t : Array Char) (i : Nat) : Bool := wordBefore t i != wordAfter t i

/-- Whether place `i` is the end of the text, or the last place before a line feed that ends it. -/
def isEnd (t : Array Char) (i : Nat) : Bool :=
  i == t.size || (i + 1 == t.size && t.back? == some '\n')

/-- Whether the character after place `i` is in the set. -/
def charAt (t : Array Char) (s : CharSet) (i : Nat) : Bool :=
  if h : i < t.size then s.contains t[i] else false

/-- The pattern spans the piece of `t` from place `i` to place `j`. -/
def Spans (t : Array Char) : Pattern → Nat → Nat → Prop
  | empty, i, j => i = j
  | char s, i, j => charAt t s i = true ∧ j = i + 1
  | seq p q, i, k => ∃ j, Spans t p i j ∧ Spans t q j k
  | alt p q, i, j => Spans t p i j ∨ Spans t q i j
  | run s, i, j => i ≤ j ∧ ∀ k, i ≤ k → k < j → charAt t s k = true
  | many p, i, j => Chain (Spans t p) i j
  | boundary, i, j => isBoundary t i = true ∧ i = j
  | atStart, i, j => i = 0 ∧ i = j
  | atEnd, i, j => isEnd t i = true ∧ i = j
  | notAhead p, i, j => (∀ k, ¬ Spans t p i k) ∧ i = j

/-- The pattern spans some piece of `t`. -/
def OccursIn (t : Array Char) (p : Pattern) : Prop :=
  ∃ i j, i ≤ t.size ∧ Spans t p i j

/-! ## Writing patterns -/

/-- `p ++ q` is `p` followed by `q`. -/
instance : Append Pattern := ⟨seq⟩

/-- `p ||| q` is either of the two. -/
instance : OrOp Pattern := ⟨alt⟩

/-- One after the other. -/
def inOrder : List Pattern → Pattern
  | [] => empty
  | [p] => p
  | p :: ps => seq p (inOrder ps)

/-- Any one of the alternatives; none of no alternatives. -/
def oneOf : List Pattern → Pattern
  | [] => char (CharSet.compl .any)
  | [p] => p
  | p :: ps => alt p (oneOf ps)

/-- The characters of the string, as they are written. -/
def lit (s : String) : Pattern := inOrder (s.toList.map fun c => char (.single c))

/-- The characters of the string, letters in either case. -/
def caseless (s : String) : Pattern := inOrder (s.toList.map fun c => char (.eitherCase c))

/-- The pattern or nothing. -/
def opt (p : Pattern) : Pattern := alt p empty

/-- Exactly `n` pieces. -/
def times : Nat → Pattern → Pattern
  | 0, _ => empty
  | 1, p => p
  | n + 1, p => seq p (times n p)

/-- At least `n` characters of a set. -/
def atLeast (n : Nat) (s : CharSet) : Pattern := seq (times n (char s)) (run s)

/-- One or more pieces. -/
def many1 (p : Pattern) : Pattern := seq p (many p)

/-- Optional blanks. -/
def blanks : Pattern := run .blank

/-- At least one blank. -/
def blanks1 : Pattern := atLeast 1 .blank

/-- A whole word's characters, one or more. -/
def word1 : Pattern := atLeast 1 .word

/-- The rest of the line, or any part of it. -/
def sameLine : Pattern := run (.compl (.single '\n'))

end Pattern

end SourceScan
