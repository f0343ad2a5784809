import Mathlib.Algebra.Group.Nat.Defs
import Mathlib.Data.List.Infix

/-!
# Streaming parser combinators

The combinators of the `nom` 3.2.1 parsing library, over byte strings. A parser
either finishes with the unread input and a value, asks for more input, or
rejects the input. A fourth outcome stands for a panic inside a user function;
every combinator passes it on, because nothing catches it.

The amount of missing input that nom reports with `Incomplete` and the error
kinds it reports with `Error` are left out: they never influence a parse.
-/
namespace Nom

abbrev Bytes := List UInt8

/-- The bytes of a literal made of ASCII characters. -/
def ascii (s : String) : Bytes := s.toList.map fun c => UInt8.ofNat c.toNat

inductive IResult (α : Type) where
  | done (rest : Bytes) (value : α)
  | incomplete
  | error
  | panic
  deriving Repr, DecidableEq

def Parser (α : Type) : Type := Bytes → IResult α

variable {α β : Type}

/-- Continue after a finished parse; every other outcome is final. -/
def IResult.andThen (r : IResult α) (f : Bytes → α → IResult β) : IResult β :=
  match r with
  | .done rest value => f rest value
  | .incomplete => .incomplete
  | .error => .error
  | .panic => .panic

/-- `do_parse!`, `tuple!`, `preceded!` and `map!` are sequencing in this monad. -/
instance : Monad Parser where
  pure a := fun input => .done input a
  bind p f := fun input => (p input).andThen fun rest a => f a rest

/-! ### Recognisers -/

/-- `tag!`: compares byte by byte, so a proper prefix of the tag is incomplete. -/
def tag (t : Bytes) : Parser Bytes := fun input =>
  if t.isPrefixOf input then .done (input.drop t.length) t
  else if input.isPrefixOf t then .incomplete
  else .error

/-- A tag written as a literal. -/
def literal (s : String) : Parser Bytes := tag (ascii s)

def take (count : Nat) : Parser Bytes := fun input =>
  if count ≤ input.length then .done (input.drop count) (input.take count) else .incomplete

def takeWhile1 (accept : UInt8 → Bool) : Parser Bytes := fun input =>
  match input with
  | [] => .incomplete
  | b :: _ =>
    if accept b then .done (input.dropWhile accept) (input.takeWhile accept) else .error

/-- `take_till!(|_| false)`: the whole remaining input. -/
def takeRest : Parser Bytes := fun input => .done [] input

/-- `is_not!`: the longest non-empty prefix without the given bytes. It also
finishes at the end of the input, where it may return the empty string. -/
def isNot (stop : Bytes) : Parser Bytes := fun input =>
  match input with
  | [] => .done [] []
  | b :: _ =>
    if stop.contains b then .error
    else .done (input.dropWhile fun c => !stop.contains c) (input.takeWhile fun c => !stop.contains c)

/-- `take_until!` for a one-byte delimiter, which stays unread. -/
def takeUntil (delimiter : UInt8) : Parser Bytes := fun input =>
  if input = [] then .incomplete
  else if input.contains delimiter then
    .done (input.dropWhile (· != delimiter)) (input.takeWhile (· != delimiter))
  else .error

def oneOf (set : Bytes) : Parser UInt8 := fun input =>
  match input with
  | [] => .incomplete
  | b :: rest => if set.contains b then .done rest b else .error

def eof : Parser Bytes := fun input => if input = [] then .done [] [] else .error

/-! ### Modifiers -/

def opt (p : Parser α) : Parser (Option α) := fun input =>
  match p input with
  | .done rest a => .done rest (some a)
  | .error => .done input none
  | .incomplete => .incomplete
  | .panic => .panic

def complete (p : Parser α) : Parser α := fun input =>
  match p input with
  | .incomplete => .error
  | other => other

/-- `map_res!`: a value that the conversion refuses is an error. -/
def mapRes (p : Parser α) (f : α → Option β) : Parser β := fun input =>
  (p input).andThen fun rest a =>
    match f a with
    | some b => .done rest b
    | none => .error

/-- `flat_map!`: the second parser runs on the first one's output, and what it
leaves unread is dropped. -/
def flatMap (p : Parser Bytes) (q : Parser α) : Parser α := fun input =>
  (p input).andThen fun rest inner => (q inner).andThen fun _ a => .done rest a

def preceded (p : Parser α) (q : Parser β) : Parser β := do
  let _ ← p
  q

def separatedPair {γ : Type} (p : Parser α) (sep : Parser γ) (q : Parser β) : Parser (α × β) := do
  let a ← p
  let _ ← sep
  let b ← q
  return (a, b)

/-! ### Alternatives -/

/-- `alt!`: only an error moves on to the next alternative. -/
def alt : List (Parser α) → Parser α
  | [], _ => .error
  | p :: ps, input =>
    match p input with
    | .error => alt ps input
    | other => other

/-- `alt_complete!`: an incomplete alternative counts as an error, unless it is the last one. -/
def altComplete : List (Parser α) → Parser α
  | [], _ => .error
  | [p], input => p input
  | p :: q :: ps, input =>
    match p input with
    | .error => altComplete (q :: ps) input
    | .incomplete => altComplete (q :: ps) input
    | other => other

/-! ### Repetition

A round of a repetition that reads nothing ends it, so as many rounds as there
are input bytes are enough; the first argument counts them. -/

/-- The rounds of `many0!`. Reading nothing is an error there. -/
def many0Loop (p : Parser α) : Nat → Parser (List α)
  | 0, input => .done input []
  | rounds + 1, input =>
    if input = [] then .done input []
    else match p input with
    | .error => .done input []
    | .incomplete => .incomplete
    | .panic => .panic
    | .done rest a =>
      if rest = input then .error
      else (many0Loop p rounds rest).andThen fun final as => .done final (a :: as)

def many0 (p : Parser α) : Parser (List α) := fun input => many0Loop p input.length input

/-- The rounds of `many1!` after the first element. Reading nothing ends them. -/
def many1Loop (p : Parser α) : Nat → Parser (List α)
  | 0, input => .done input []
  | rounds + 1, input =>
    if input = [] then .done input []
    else match p input with
    | .error => .done input []
    | .incomplete => .incomplete
    | .panic => .panic
    | .done rest a =>
      if rest.length = input.length then .done input []
      else (many1Loop p rounds rest).andThen fun final as => .done final (a :: as)

def many1 (p : Parser α) : Parser (List α) := fun input =>
  (p input).andThen fun rest a =>
    (many1Loop p rest.length rest).andThen fun final as => .done final (a :: as)

/-- The rounds of `separated_list_complete!` after the first element: a
separator with no element after it stays unread. -/
def separatedLoop (sep : Parser β) (p : Parser α) : Nat → Parser (List α)
  | 0, input => .done input []
  | rounds + 1, input =>
    match complete sep input with
    | .panic => .panic
    | .done afterSep _ =>
      if afterSep.length = input.length then .done input []
      else
        match complete p afterSep with
        | .panic => .panic
        | .done rest a =>
          if rest.length = afterSep.length then .done input []
          else (separatedLoop sep p rounds rest).andThen fun final as => .done final (a :: as)
        | _ => .done input []
    | _ => .done input []

def separatedNonemptyListComplete (sep : Parser β) (p : Parser α) : Parser (List α) := fun input =>
  (complete p input).andThen fun rest a =>
    if rest.length = input.length then .error
    else (separatedLoop sep p rest.length rest).andThen fun final as => .done final (a :: as)

def separatedListComplete (sep : Parser β) (p : Parser α) : Parser (List α) := fun input =>
  match complete p input with
  | .error => .done input []
  | .incomplete => .incomplete
  | .panic => .panic
  | .done rest a =>
    if rest.length = input.length then .error
    else (separatedLoop sep p rest.length rest).andThen fun final as => .done final (a :: as)

end Nom
