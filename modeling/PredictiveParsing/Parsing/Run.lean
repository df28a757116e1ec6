import PredictiveParsing.Parsing.Combinators
import PredictiveParsing.Expression.Climbing
import PredictiveParsing.Grammar.FirstSets

/-!
# Running parsers

`Parser.runWithin` runs a parser in a grammar down to a given depth; `Parser.run` allows every depth
that can be reached without meeting a rule twice in front of the same token. A choice is decided by
the next token and the FIRST sets of its alternatives, without ever going back. `Grammar.parse` runs
a grammar from its entry.
-/

namespace PredictiveParsing

open ParseM

variable {V : Type}

/-- The FIRST sets of the alternatives of a choice, taken from the journal where it keeps them. -/
def predict (g : Grammar V) (slot : Nat) (alternatives : List (Parser V)) :
    ParseM (List FirstSet) := do
  match (← get).journal.kept? slot g.stamp with
  | some firsts => return firsts
  | none =>
    match alternatives.mapM g.first with
    | .ok firsts =>
      note (.predicted firsts.length)
      modify fun c => { c with journal := c.journal.keep slot g.stamp firsts }
      return firsts
    | .error e => throw (.fault (.unpredictable e))

/-- The place and the parser of the first alternative whose FIRST set has a property. -/
def alternative? (alternatives : List (Parser V)) (firsts : List FirstSet)
    (property : FirstSet → Bool) : Option (Nat × Parser V) :=
  ((alternatives.zip firsts).zipIdx.find? fun entry => property entry.1.2).map fun entry =>
    (entry.2, entry.1.1)

/-- Runs the first alternative that can begin with the next token, or else the first one that can be
empty. -/
def chooseAlternative (g : Grammar V) (run : Parser V → ParseM (Result V)) (slot : Nat)
    (alternatives : List (Parser V)) : ParseM (Result V) := do
  let token ← peek
  let firsts ← predict g slot alternatives
  match alternative? alternatives firsts fun f => f.accepts token with
  | some (index, p) =>
    note (.selected index token)
    run p
  | none =>
    match alternative? alternatives firsts FirstSet.nullable with
    | some (index, p) =>
      note (.selectedEmpty index)
      run p
    | none => reject ("unexpected " ++ token.describe ++ " for any alternative") token.span

namespace Parser

/-- Runs a parser at the cursor. The number bounds how deep parsers nest. -/
def runWithin (g : Grammar V) : Nat → Parser V → ParseM (Result V)
  | 0, _ => throw .exhausted
  | depth + 1, p =>
    match p with
    | token type => expectToken type
    | endOfInput => expectEnd
    | tuple members action => sequence (runWithin g depth) members action
    | choice slot alternatives => chooseAlternative g (runWithin g depth) slot alternatives
    | many body minimum => repetition (runWithin g depth body) minimum
    | embed body => runWithin g depth body
    | expr operators => operators.expression (runWithin g depth)
    | ref name => do runWithin g depth (← trust (g.resolve name))

/-- The depth that is enough: in front of each token, every combinator of the parser and of the
rules once. -/
def depthFor (g : Grammar V) (p : Parser V) (unread : Nat) : Nat :=
  (unread + 1) * (p.size + g.size + 1)

/-- Runs a parser at the cursor. -/
def run (g : Grammar V) (p : Parser V) : ParseM (Result V) := do
  runWithin g (p.depthFor g (← unread)) p

/-- Runs the expression of an operator table from a given least priority on. -/
def runExpression (g : Grammar V) (operators : Operators V (Parser V)) (minimum : Nat) :
    ParseM (Result V) := do
  let depth := (expr operators).depthFor g (← unread)
  operators.expressionAbove (runWithin g depth) minimum

end Parser

namespace Grammar

/-- Runs the entry at the cursor. An entry that was chosen runs as a fresh copy, for whose choices
nothing is kept yet. -/
def parse (g : Grammar V) : ParseM (Result V) := do
  match g.entry? with
  | none => throw (.fault (.incompleteGrammar .missingEntry))
  | some entry =>
    modify fun c => { c with journal := c.journal.forget entry.slots }
    let c ← get
    note (.starting c.tokenizer.position c.tokenizer.cursor.input.byteLength)
    match ← attempt (entry.run g) with
    | .ok result =>
      note (.succeeded result.span)
      return result
    | .error e =>
      note (.failed e)
      throw (.rejected e)

/-- The outcome of running the entry over an input, and the context behind it. -/
def parseText (g : Grammar V) (t : Tokenizer) (input : Text) :
    Except Failure (Result V) × Context :=
  g.parse ⟨t.withInput input, .forgetful⟩

end Grammar

end PredictiveParsing
