import PredictiveParsing.Grammar.Lookahead
import PredictiveParsing.Parsing.ParseError

/-!
# Journals

A journal notes the events of a parse, and it may keep the FIRST sets that choices have computed. A
kept entry is good for one state of the grammar, named by a stamp; `Journal.kept?` answers only
entries of the present stamp.
-/

namespace PredictiveParsing

/-- An event of a parse. -/
inductive Event
  /-- A parse begins. -/
  | starting (position : Position) (bytes : Nat)
  /-- A parse ends with a result. -/
  | succeeded (span : Span)
  /-- A parse ends with an error. -/
  | failed (error : ParseError)
  /-- A choice has computed the FIRST sets of its alternatives. -/
  | predicted (alternatives : Nat)
  /-- A choice takes the alternative that can begin with the token. -/
  | selected (index : Nat) (token : Token)
  /-- A choice takes an alternative that can be empty. -/
  | selectedEmpty (index : Nat)
  /-- A repetition is over. -/
  | repeated (items minimum : Nat)
  /-- The tokenizer has moved over a token. -/
  | committed (token : Token)
  /-- An expression has consumed an operand of one token. -/
  | atom (token : Token)
  /-- An expression has consumed an infix operator. -/
  | infixOp (token : Token) (priority : Nat)
  /-- An expression has consumed a prefix operator. -/
  | prefixOp (token : Token) (priority : Nat)
  /-- An expression hands over to an embedded parser. -/
  | embedded (token : Token)
  /-- A semantic action has rejected its arguments. -/
  | refused (error : ParseError)
deriving DecidableEq, Repr

namespace Event

/-- The line that reports an event. An action's rejection has none of its own. -/
def line? : Event → Option String
  | starting position bytes =>
    some ("DEBUG parse: starting at " ++ toString position ++ " (" ++ toString bytes ++
      " bytes of input)")
  | succeeded span => some ("DEBUG parse: succeeded over " ++ toString span)
  | failed error => some ("DEBUG parse: failed: " ++ toString error)
  | predicted n =>
    some ("DEBUG choice: FIRST sets computed for " ++ toString n ++ " alternative(s)")
  | selected i token =>
    some ("DEBUG choice: alternative " ++ toString i ++ " selected by " ++ token.describe)
  | selectedEmpty i => some ("DEBUG choice: empty alternative " ++ toString i ++ " selected")
  | repeated items minimum =>
    some ("DEBUG repeat: " ++ toString items ++ " item(s), minimum " ++ toString minimum)
  | committed token =>
    some ("TRACE commit " ++ token.describe ++ " -> " ++ toString token.span.stop)
  | atom token => some ("TRACE atom " ++ token.describe)
  | infixOp token priority =>
    some ("TRACE infix " ++ token.describe ++ " (priority " ++ toString priority ++ ")")
  | prefixOp token priority =>
    some ("TRACE prefix " ++ token.describe ++ " (priority " ++ toString priority ++ ")")
  | embedded token => some ("TRACE embed at " ++ token.describe)
  | refused _ => none

end Event

/-- The FIRST sets of the alternatives of one choice, in one state of the grammar. -/
structure MemoEntry where
  slot : Nat
  stamp : Nat
  firsts : List FirstSet
deriving DecidableEq, Repr

/-- What a run remembers. -/
structure Journal where
  /-- The latest event comes first. -/
  events : List Event
  /-- The kept FIRST sets, or nothing if every choice computes them each time. -/
  memo : Option (List MemoEntry)
deriving DecidableEq, Repr

namespace Journal

/-- A journal that keeps no FIRST sets. -/
def forgetful : Journal := ⟨[], none⟩

/-- A journal that keeps FIRST sets. -/
def retentive : Journal := ⟨[], some []⟩

/-- Notes an event. -/
def note (j : Journal) (e : Event) : Journal := { j with events := e :: j.events }

/-- The kept FIRST sets of a choice for the present state of the grammar. -/
def kept? (j : Journal) (slot stamp : Nat) : Option (List FirstSet) :=
  match j.memo with
  | none => none
  | some entries =>
    match entries.find? fun e => e.slot == slot with
    | some e => if e.stamp = stamp then some e.firsts else none
    | none => none

/-- Keeps the FIRST sets of a choice in place of those it had. -/
def keep (j : Journal) (slot stamp : Nat) (firsts : List FirstSet) : Journal :=
  { j with memo := j.memo.map fun entries =>
      ⟨slot, stamp, firsts⟩ :: entries.filter fun e => e.slot != slot }

/-- Drops what is kept for some choices. -/
def forget (j : Journal) (slots : List Nat) : Journal :=
  { j with memo := j.memo.map fun entries => entries.filter fun e => !slots.contains e.slot }

/-- The lines of the noted events, the earliest first. -/
def lines (j : Journal) : List String :=
  j.events.reverse.filterMap Event.line?

end Journal

end PredictiveParsing
