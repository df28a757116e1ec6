import PredictiveParsing.Regex.Matcher

/-!
# Spelling out patterns

A pattern becomes a matcher by writing out the rounds of its counted repetitions and by numbering
the points of all copies differently.
-/

namespace PredictiveParsing.Regex

/-- The function applied `n` times. -/
def iterate {α : Type} (f : α → α) : Nat → α → α
  | 0, a => a
  | n + 1, a => iterate f n (f a)

/-- The matcher, or nothing; a greedy one prefers the matcher. -/
def Matcher.orSkip (label : Nat) (greedy : Bool) (m : Matcher) : Matcher :=
  if greedy then alt label m empty else alt label empty m

namespace Pattern

/-- Spells a pattern out with numbers from `next` on, and answers the first number that is free
then. The choice between no round and one is a choice of its own if a round may consume nothing:
such a first round is taken, and only a repeated one is not. -/
def spellOut : (p : Pattern) → (next : Nat) → Matcher × Nat
  | empty, next => (.empty, next)
  | one cls, next => (.one next cls, next + 1)
  | holds a, next => (.holds a, next)
  | group body, next => body.spellOut next
  | seq first second, next =>
    let (second, next) := second.spellOut next
    let (first, next) := first.spellOut next
    (.seq first second, next)
  | alt left right, next =>
    let (right, next) := right.spellOut next
    let (left, next) := left.spellOut next
    (.alt next left right, next + 1)
  | times greedy least most body, next =>
    let inFront := fun ((rest, next) : Matcher × Nat) =>
      let (round, next) := body.spellOut next
      (Matcher.seq round rest, next)
    let perhaps := fun ((round, next) : Matcher × Nat) => (round.orSkip next greedy, next + 1)
    match least, most with
    | 0, none =>
      let (round, next) := body.spellOut next
      if body.isNullable then perhaps (.plus next greedy round, next + 1)
      else (.rounds next greedy round, next + 1)
    | n + 1, none =>
      let (round, next) := body.spellOut next
      iterate inFront n (.plus next greedy round, next + 1)
    | least, some most =>
      if least < most then
        let further := iterate (fun s => perhaps (inFront s)) (most - least - 1)
          (perhaps (body.spellOut next))
        iterate inFront least further
      else
        match least with
        | 0 => (.empty, next)
        | n + 1 => iterate inFront n (body.spellOut next)

/-- The matcher of a pattern. -/
def matcher (p : Pattern) : Matcher :=
  (p.spellOut 0).1

end Pattern

end PredictiveParsing.Regex
