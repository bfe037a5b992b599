import SourceScan.Pattern.Basic

/-!
# Searching with patterns

`Pattern.reach t p is` is the places that `p` can lead to from the places `is`: whether a rule fires
is whether this set, from every place of the line, is empty or not. Working on sets of places keeps
the search from trying the same place twice, so its cost stays in proportion to the line whatever
the pattern; the places are kept in increasing order and, as far as that order shows it, without
repetition.

A search begins only at places whose next character can begin a piece (`first`); the others cost
one comparison.

The search and the relation `Pattern.Spans` are two accounts of one thing: the places reached are
the ends of the pieces spanned (`mem_reach` and `found_iff` in `Pattern.Lemmas`).
-/

namespace SourceScan.Pattern

/-- Merges two increasing lists, writing a place that heads both once. The places merged so far are
in `done`, in reverse; `fuel` is the number of places left. -/
def unionFrom : (fuel : Nat) → List Nat → List Nat → (done : List Nat) → List Nat
  | 0, is, js, done => done.reverse ++ (is ++ js)
  | _ + 1, [], js, done => done.reverse ++ js
  | _ + 1, i :: is, [], done => done.reverse ++ (i :: is)
  | fuel + 1, i :: is, j :: js, done =>
    if i < j then unionFrom fuel is (j :: js) (i :: done)
    else if j < i then unionFrom fuel (i :: is) js (j :: done)
    else unionFrom fuel is js (i :: done)

/-- The places of either list. -/
def union (is js : List Nat) : List Nat := unionFrom (is.length + js.length) is js []

/-- Where the longest run of characters of `s` that begins at place `i` ends; `fuel` is the number
of characters from `i` on. -/
def runEnd (t : Array Char) (s : CharSet) : (fuel i : Nat) → Nat
  | 0, i => i
  | fuel + 1, i => if charAt t s i then runEnd t s fuel (i + 1) else i

/-- The state of `spread`: the places found so far in reverse, and the bounds of the last run. A
place inside that run leads nowhere new. -/
structure Spreading where
  done : List Nat
  first : Nat
  after : Nat

/-- Adds the places that a run of characters of `s` leads to from place `i`. -/
def Spreading.add (t : Array Char) (s : CharSet) (x : Spreading) (i : Nat) : Spreading :=
  if x.first ≤ i && i < x.after then x
  else
    let last := runEnd t s (t.size - i) i
    ⟨(List.range' i (last + 1 - i)).reverse ++ x.done, i, last + 1⟩

/-- The places that any number of characters of `s` leads to. -/
def spread (t : Array Char) (s : CharSet) (is : List Nat) : List Nat :=
  (is.foldl (Spreading.add t s) ⟨[], 0, 0⟩).done.reverse

/-- All places that some number of steps leads to, collected in reverse: those passed, then those of
the frontier, then those one step further. -/
def closure (step : List Nat → List Nat) : (fuel : Nat) → (frontier done : List Nat) → List Nat
  | 0, frontier, done => (frontier.reverse ++ done).reverse
  | _ + 1, [], done => done.reverse
  | fuel + 1, i :: is, done =>
    closure step fuel (step (i :: is)) ((i :: is).reverse ++ done)

/-- The places that a pattern leads to from the places given. -/
def reach (t : Array Char) : Pattern → List Nat → List Nat
  | empty, is => is
  | char s, is => is.filterMap fun i => if charAt t s i then some (i + 1) else none
  | seq p q, is =>
    match reach t p is with
    | [] => []
    | j :: js => reach t q (j :: js)
  | alt p q, is => union (reach t p is) (reach t q is)
  | run s, is => spread t s is
  | many p, is => closure (reach t p) (t.size + 1) is []
  | boundary, is => is.filter (isBoundary t)
  | atStart, is => is.filter (· == 0)
  | atEnd, is => is.filter (isEnd t)
  | notAhead p, is => is.filter fun i => (reach t p [i]).isEmpty

/-- Whether the pattern may span an empty piece. -/
def nullable : Pattern → Bool
  | char _ => false
  | seq p q => p.nullable && q.nullable
  | alt p q => p.nullable || q.nullable
  | _ => true

/-- The characters of either set, where `none` is the empty set. -/
def joinSets : Option CharSet → Option CharSet → Option CharSet
  | none, b => b
  | a, none => a
  | some a, some b => some (.union a b)

/-- The characters that a piece of the pattern can begin with, where `none` is the empty set. -/
def first : Pattern → Option CharSet
  | char s => some s
  | run s => some s
  | seq p q => if p.nullable then joinSets p.first q.first else p.first
  | alt p q => joinSets p.first q.first
  | many p => p.first
  | _ => none

/-- The places up to `i` before a character of the set, in front of those already found. -/
def startsUpTo (s : CharSet) (t : Array Char) : (i : Nat) → (done : List Nat) → List Nat
  | 0, done => if charAt t s 0 then 0 :: done else done
  | i + 1, done => startsUpTo s t i (if charAt t s (i + 1) then (i + 1) :: done else done)

/-- The places where a piece of the pattern can begin, as far as the next character tells. -/
def starts (p : Pattern) (t : Array Char) : List Nat :=
  if p.nullable then List.range (t.size + 1)
  else
    match p.first with
    | some s => startsUpTo s t t.size []
    | none => []

/-- Whether the pattern spans some piece of the text. -/
def found (p : Pattern) (t : Array Char) : Bool :=
  match starts p t with
  | [] => false
  | i :: is => !(reach t p (i :: is)).isEmpty

/-- How many pieces the pattern spans when it is tried at each of the places and a place before the
end of the last piece found is left out. `after` is where that piece ended, `count` how many were
found. -/
def countFrom (p : Pattern) (t : Array Char) : (places : List Nat) → (after count : Nat) → Nat
  | [], _, count => count
  | i :: is, after, count =>
    if i < after then countFrom p t is after count
    else
      match reach t p [i] with
      | [] => countFrom p t is after count
      | j :: _ => countFrom p t is (max j (i + 1)) (count + 1)

/-- How many pieces of the text the pattern spans, counted from the left without overlap. -/
def count (p : Pattern) (t : Array Char) : Nat := countFrom p t (starts p t) 0 0

end SourceScan.Pattern
