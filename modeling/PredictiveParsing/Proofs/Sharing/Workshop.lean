import PredictiveParsing.Parsing.Run
import PredictiveParsing.Proofs.Grammar.Reaching

/-!
# Workshops

A workshop holds several grammars, and at hand the parsers that they are made of. A parser that is
found at some place and put to another one is shared between them, with what is kept for its
choices. A copy has choices of its own, for which at first the same is kept as for the originals,
except that operator tables are shared with the copy. All grammars draw their stamps from one
supply, which starts over after all words have been drawn. One journal keeps the FIRST sets that the
choices have computed, of whichever grammar.

Steps change the workshop or run a parser. `Workshop.answer` says what a run comes to with what is
kept, and `Workshop.recomputed` what it comes to if nothing is kept, so that all choices compute
their FIRST sets from the present rules.
-/

namespace PredictiveParsing

variable {V P Q : Type}

/-- Changes the embedded parser of a role. -/
def Role.map (f : P → Q) : Role V P → Role V Q
  | atom action => .atom action
  | prefixOp priority action => .prefixOp priority action
  | infixOp priority associativity action => .infixOp priority associativity action
  | mixfix prefixPriority infixPriority associativity onPrefix onInfix =>
    .mixfix prefixPriority infixPriority associativity onPrefix onInfix
  | bracket opening closing => .bracket opening closing
  | embed p => .embed (f p)

/-- One combinator over parts of type `P`. -/
inductive Layer (V P : Type)
  | token (type : TokenType)
  | endOfInput
  | tuple (members : List (Member P)) (action : Option (TupleAction V))
  | choice (alternatives : List P)
  | many (body : P) (minimum : Nat)
  | embed (body : P)
  | expr (operators : Operators V P)
  | ref (name : String)

/-- The parser of a combinator and of the parts that are found. A choice takes the slot. -/
def Layer.fill (find : P → Parser V) (slot : Nat) : Layer V P → Parser V
  | token type => .token type
  | endOfInput => .endOfInput
  | tuple members action => .tuple (members.map fun m => ⟨m.mark, find m.parser⟩) action
  | choice alternatives => .choice slot (alternatives.map find)
  | many body minimum => .many (find body) minimum
  | embed body => .embed (find body)
  | expr ⟨roles, skip⟩ => .expr ⟨roles.map fun (key, role) => (key, role.map find), skip⟩
  | ref name => .ref name

/-- Keeps for the second slot of each pair what is kept for the first one. -/
def Journal.copy (j : Journal) (pairs : List (Nat × Nat)) : Journal :=
  { j with memo := j.memo.map fun entries =>
      pairs.filterMap (fun (slot, copied) =>
        (entries.find? fun e => e.slot == slot).map fun e => { e with slot := copied }) ++ entries }

/-- Grammars, and the parsers at hand. -/
structure Workshop (V : Type) where
  grammars : List (Grammar V)
  parsers : List (Parser V)
  /-- The number of stamps drawn so far. -/
  drawn : Nat
  /-- The next slot for a choice. -/
  freshSlot : Nat
  journal : Journal

namespace Workshop

/-- Where a parser is found: among the parts of one at hand, of a rule, or of a chosen entry. A
parser is the first of its parts. -/
inductive Place
  | atHand (parser part : Nat)
  | rule (grammar : Nat) (name : String) (part : Nat)
  | entry (grammar part : Nat)
deriving DecidableEq, Repr

/-- How a workshop can be changed. -/
inductive Change (V : Type)
  /-- A grammar without rules. -/
  | newGrammar
  /-- A parser at hand, put together from others. -/
  | make (layer : Layer V Place)
  /-- A copy at hand, with what is kept for the original. -/
  | copy (place : Place)
  /-- A rule for a name, in the place of an earlier one. -/
  | register (grammar : Nat) (name : String) (place : Place)
  /-- A parser for a grammar to start from. -/
  | setEntry (grammar : Nat) (place : Place)

/-- What can be run in a workshop, with a tokenizer. -/
inductive Run
  /-- A grammar, from a copy of its entry. -/
  | parse (grammar : Nat) (t : Tokenizer)
  /-- A parser, in a grammar. -/
  | parser (grammar : Nat) (place : Place) (t : Tokenizer)

/-- What is done in a workshop. -/
inductive Step (V : Type)
  | change (change : Change V)
  | run (run : Run)

/-- True if the step runs nothing. -/
def Step.isChange : Step V → Bool
  | change _ => true
  | run _ => false

/-- What a run comes to: its outcome, and the tokenizer behind it. -/
abbrev Outcome (V : Type) := Except Failure (Result V) × Tokenizer

/-- The workshop in which nothing has been done. -/
def start : Workshop V := ⟨[], [], 0, 0, .retentive⟩

/-- The stamp that is drawn next. -/
def nextStamp (w : Workshop V) : Nat := w.drawn % wordLimit

/-- The parser at a place, if there is one. -/
def find? (w : Workshop V) : Place → Option (Parser V)
  | .atHand n part => do
    let p ← w.parsers[n]?
    p.parts[part]?
  | .rule n name part => do
    let g ← w.grammars[n]?
    let p ← g.rule? name
    p.parts[part]?
  | .entry n part => do
    let g ← w.grammars[n]?
    let p ← g.entry
    p.parts[part]?

/-- The parser at a place, or that of the end of the input where there is none. -/
def find (w : Workshop V) (place : Place) : Parser V := (w.find? place).getD .endOfInput

/-- A copy of a parser, and the workshop that has it at hand. -/
def copyOf (w : Workshop V) (p : Parser V) : Parser V × Workshop V :=
  let (copy, freshSlot) := p.relabel w.freshSlot
  (copy, { w with
    parsers := w.parsers ++ [copy], freshSlot, journal := w.journal.copy (p.slots.zip copy.slots) })

/-- A further grammar, without rules. -/
def newGrammar (w : Workshop V) : Workshop V :=
  { w with
    grammars := w.grammars ++ [{ Grammar.empty with stamp := w.nextStamp }], drawn := w.drawn + 1 }

/-- A further parser at hand, put together from others. -/
def make (w : Workshop V) (layer : Layer V Place) : Workshop V :=
  { w with
    parsers := w.parsers ++ [layer.fill w.find w.freshSlot], freshSlot := w.freshSlot + 1 }

/-- A rule for a name in a grammar, if there is such a grammar. -/
def register (w : Workshop V) (n : Nat) (name : String) (p : Parser V) : Workshop V :=
  match w.grammars[n]? with
  | some g =>
    { w with
      grammars := w.grammars.set n { g.register name p with stamp := w.nextStamp },
      drawn := w.drawn + 1 }
  | none => w

/-- A parser for a grammar to start from, if there is such a grammar. -/
def setEntry (w : Workshop V) (n : Nat) (p : Parser V) : Workshop V :=
  match w.grammars[n]? with
  | some g => { w with grammars := w.grammars.set n (g.withEntry p) }
  | none => w

/-- The workshop behind a change. -/
def change (w : Workshop V) : Change V → Workshop V
  | .newGrammar => w.newGrammar
  | .make layer => w.make layer
  | .copy place => (w.copyOf (w.find place)).2
  | .register n name place => w.register n name (w.find place)
  | .setEntry n place => w.setEntry n (w.find place)

/-- What something comes to that is run with a journal, and the journal behind it. -/
def execute (j : Journal) (x : ParseM (Result V)) (t : Tokenizer) : Outcome V × Journal :=
  let (outcome, c) := x ⟨t, j⟩
  ((outcome, c.tokenizer), c.journal)

/-- What a run comes to if there is such a grammar, and the workshop behind it. The copy of an entry
is lost after its run, with all that is kept for it. -/
def answer (w : Workshop V) : Run → Option (Outcome V) × Workshop V
  | .parse n t =>
    match w.grammars[n]? with
    | none => (none, w)
    | some g =>
      match g.entry? with
      | none => (some (.error (.fault (.incompleteGrammar .missingEntry)), t), w)
      | some entry =>
        let (copy, w') := w.copyOf entry
        let (outcome, journal) := execute w'.journal (copy.run g) t
        (some outcome, { w with journal := journal.forget copy.slots })
  | .parser n place t =>
    match w.grammars[n]? with
    | none => (none, w)
    | some g =>
      let (outcome, journal) := execute w.journal ((w.find place).run g) t
      (some outcome, { w with journal })

/-- What a run comes to if nothing is kept. -/
def recomputed (w : Workshop V) : Run → Option (Outcome V)
  | .parse n t => w.grammars[n]?.map fun g => (execute .forgetful g.parse t).1
  | .parser n place t =>
    w.grammars[n]?.map fun g => (execute .forgetful ((w.find place).run g) t).1

/-- The workshop behind a step. -/
def step (w : Workshop V) : Step V → Workshop V
  | .change c => w.change c
  | .run r => (w.answer r).2

/-- The workshop behind several steps. -/
def after (w : Workshop V) (steps : List (Step V)) : Workshop V := steps.foldl step w

end Workshop

end PredictiveParsing
