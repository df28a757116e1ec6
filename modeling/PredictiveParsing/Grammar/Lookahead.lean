import PredictiveParsing.Lexing.Token

/-!
# Lookaheads and FIRST sets

A lookahead is what a parser can begin with: an ordinary token of some type, or the end of the
input. A FIRST set holds the lookaheads of a parser in ascending order, and whether the parser can
succeed without consuming anything.
-/

namespace PredictiveParsing

/-- What a parser can begin with. -/
inductive Lookahead
  | token (type : TokenType)
  | endOfInput
deriving DecidableEq, Repr

namespace Lookahead

/-- What a token stands for. An error token begins nothing. -/
def ofToken? (t : Token) : Option Lookahead :=
  match t.kind with
  | .ordinary => some (.token t.type)
  | .endOfInput => some .endOfInput
  | .error => none

/-- Token types in byte order, then the end of the input. -/
def before : Lookahead → Lookahead → Bool
  | token a, token b => a < b
  | token _, endOfInput => true
  | endOfInput, _ => false

/-- The lookahead as error messages call it. -/
protected def toString : Lookahead → String
  | token type => "'" ++ type ++ "'"
  | endOfInput => "end of input"

instance : ToString Lookahead := ⟨Lookahead.toString⟩

/-- Adds a lookahead to an ascending list without repetitions. -/
def insert (l : Lookahead) : List Lookahead → List Lookahead
  | [] => [l]
  | m :: ms => if l = m then m :: ms else if l.before m then l :: m :: ms else m :: insert l ms

/-- The ascending list of the lookaheads of both lists. -/
def union (ls ms : List Lookahead) : List Lookahead :=
  ls.foldr insert ms

@[simp] theorem mem_insert {l m : Lookahead} {ms : List Lookahead} :
    m ∈ insert l ms ↔ m = l ∨ m ∈ ms := by
  induction ms with
  | nil => simp [insert]
  | cons n ns ih =>
    unfold insert
    split
    · simp_all
    · split
      · simp
      · simp [ih, or_left_comm]

@[simp] theorem mem_union {m : Lookahead} {ls ms : List Lookahead} :
    m ∈ union ls ms ↔ m ∈ ls ∨ m ∈ ms := by
  induction ls with
  | nil => simp [union]
  | cons l ls ih =>
    simp only [union, List.foldr_cons, mem_insert, List.mem_cons] at ih ⊢
    rw [ih, or_assoc]

end Lookahead

/-- The lookaheads of a parser, and whether it can be empty. -/
structure FirstSet where
  tokens : List Lookahead
  nullable : Bool
deriving DecidableEq, Repr

namespace FirstSet

/-- The parser that begins with one lookahead and is never empty. -/
def single (l : Lookahead) : FirstSet := ⟨[l], false⟩

/-- True if a parser can begin with the lookahead. -/
def contains (f : FirstSet) (l : Lookahead) : Bool := f.tokens.contains l

/-- True if a parser can begin with the token. -/
def accepts (f : FirstSet) (t : Token) : Bool :=
  (Lookahead.ofToken? t).any f.contains

/-- The lookaheads of both sets. -/
def overlap (f g : FirstSet) : List Lookahead :=
  f.tokens.filter g.contains

end FirstSet

end PredictiveParsing
