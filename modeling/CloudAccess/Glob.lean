import CloudAccess.Text.Case

/-!
# Shell-style patterns

A pattern is a text in which `*` stands for any run of characters, `?` for any one character and
`[…]` for one character of a set; there is no escape character.  `Glob.fits` decides whether
a pattern matches the whole of a text.

* `Glob.ofText` reads a pattern into a list of tokens; every text is a pattern.
* `Glob.accepts` decides whether tokens match: one row of answers per token, with one answer
  for each end of the text, so that stars cost no search.

## Sets

After `[`, a `!` and then a `]` belong to the set; the next `]` ends it, and without one the `[`
stands for itself.  A hyphen between two characters makes a range; one that is first or last, or
that follows a range at once, is a member.  A range whose ends are reversed is removed together
with its ends.  A set that then starts with `!` holds the characters it does not name.
-/

namespace CloudAccess

namespace Glob

/-! ## Tokens -/

/-- A member of a set: a range of characters, both ends included. -/
structure Span where
  low : Char
  high : Char
deriving DecidableEq

def Span.holds (s : Span) (c : Char) : Bool := s.low.toNat ≤ c.toNat && c.toNat ≤ s.high.toNat

def Span.one (c : Char) : Span := ⟨c, c⟩

inductive Token where
  | star
  | any
  | char (c : Char)
  | set (negated : Bool) (spans : List Span)
deriving DecidableEq

/-- Whether a token other than a star stands for a character. -/
def Token.admits : Token → Char → Bool
  | .star, _ => false
  | .any, _ => true
  | .char d, c => c = d
  | .set negated spans, c => (spans.any (·.holds c)) != negated

/-! ## Matching -/

/-- The answers for a token before each end of a text, given those for what follows it.  An end
list has one answer for each character and one for the empty end. -/
def row (t : Token) : List Char → List Bool → List Bool
  | [], next =>
    match t with
    | .star => next
    | _ => [false]
  | c :: rest, next =>
    let tail := row t rest next.tail
    let here := match t with
      | .star => next.headD false || tail.headD false
      | _ => t.admits c && next.tail.headD false
    here :: tail

/-- For each end of a text, longest first, whether the tokens match it. -/
def table : List Token → List Char → List Bool
  | [], text => text.map (fun _ => false) ++ [true]
  | t :: ts, text => row t text (table ts text)

/-- Whether tokens match the whole of a text. -/
def accepts (ts : List Token) (text : List Char) : Bool := (table ts text).headD false

/-! ## Reading sets -/

/-- Cuts the body of a set at the hyphens that make ranges.  `skip` characters are passed over
before the next hyphen counts: one at the start (two after a `!`), and two after each cut. -/
def pieces (skip : Nat) : List Char → List (List Char)
  | [] => [[]]
  | c :: rest =>
    match skip with
    | 0 =>
      if c = '-' then [] :: pieces 2 rest
      else match pieces 0 rest with
        | [] => [[c]]
        | p :: ps => (c :: p) :: ps
    | skip + 1 =>
      match pieces skip rest with
      | [] => [[c]]
      | p :: ps => (c :: p) :: ps

/-- A hyphen that came last belongs to the piece before it. -/
def closeLast : List (List Char) → List (List Char)
  | [p, []] => [p ++ ['-']]
  | p :: ps => p :: closeLast ps
  | [] => []

/-- Removes reversed ranges, the last one first: the pieces on both sides become one, without
the two ends. -/
def dropReversed : List (List Char) → List (List Char)
  | [] => []
  | p :: ps =>
    match dropReversed ps with
    | [] => [p]
    | q :: qs =>
      match p.getLast?, q.head? with
      | some a, some b => if b.toNat < a.toNat then (p.dropLast ++ q.drop 1) :: qs else p :: q :: qs
      | _, _ => p :: q :: qs

/-- A character of a set, or the hyphen of a range. -/
inductive Mark where
  | char (c : Char)
  | hyphen
deriving DecidableEq

/-- The pieces in a row, with a range hyphen between two of them. -/
def marks : List (List Char) → List Mark
  | [] => []
  | [p] => p.map .char
  | p :: ps => p.map .char ++ .hyphen :: marks ps

/-- The members that marks denote; a hyphen with nothing before it is a member. -/
def spans : List Mark → List Span
  | .char a :: .hyphen :: .char b :: rest => ⟨a, b⟩ :: spans rest
  | .char a :: rest => .one a :: spans rest
  | .hyphen :: rest => .one '-' :: spans rest
  | [] => []

/-- The set that a body denotes. -/
def setOf (body : List Char) : Token :=
  let skip := if body.head? = some '!' then 2 else 1
  match marks (dropReversed (closeLast (pieces skip body))) with
  | .char '!' :: rest => .set true (spans rest)
  | ms => .set false (spans ms)

/-! ## Reading patterns -/

/-- The body of a set and what follows its closing bracket, from just after the opening one. -/
def body? (cs : List Char) : Option (List Char × List Char) :=
  let (lead, rest) := match cs with
    | '!' :: ']' :: rest => (['!', ']'], rest)
    | '!' :: rest => (['!'], rest)
    | ']' :: rest => ([']'], rest)
    | rest => ([], rest)
  match rest.dropWhile (· ≠ ']') with
  | [] => none
  | _ :: after => some (lead ++ rest.takeWhile (· ≠ ']'), after)

/-- Reads a pattern; `fuel` is at least the number of its characters. -/
def tokensFrom : Nat → List Char → List Token
  | 0, _ => []
  | _, [] => []
  | fuel + 1, c :: rest =>
    if c = '*' then .star :: tokensFrom fuel rest
    else if c = '?' then .any :: tokensFrom fuel rest
    else if c = '[' then
      match body? rest with
      | none => .char '[' :: tokensFrom fuel rest
      | some (body, after) => setOf body :: tokensFrom fuel after
    else .char c :: tokensFrom fuel rest

/-- The tokens of a pattern. -/
def ofText (pattern : List Char) : List Token := tokensFrom pattern.length pattern

/-- Whether a pattern matches the whole of a text. -/
def fits (pattern text : String) : Bool := accepts (ofText pattern.toList) text.toList

end Glob

/-! ## Actions -/

/-- Whether an action pattern covers an action; case does not matter to patterns. -/
def actionMatches (pattern action : String) : Bool :=
  pattern = action || pattern = "*" || Glob.fits (Text.lower pattern) (Text.lower action)

/-- Whether a resource pattern covers a resource. -/
def resourceMatches (pattern resource : String) : Bool :=
  pattern = resource || pattern = "*" || Glob.fits pattern resource

end CloudAccess
