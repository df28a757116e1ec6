import PredictiveParsing.Regex.Symbol

/-!
# Written patterns

A written pattern is read in two steps. `Symbol.read?` splits it into symbols, and
`Pattern.ofSymbols?` folds the symbols over a stack of open groups. Both answer nothing for a text
that is not a pattern. A pattern that nests too deeply is refused as well.
-/

namespace PredictiveParsing.Regex

/-- A part of a pattern, and how deeply it nests: each group, repetition and class, each sequence of
several parts and each alternative of several branches counts. -/
structure Piece where
  pattern : Pattern
  depth : Nat
  /-- True for flags, which cannot be repeated. -/
  isFlags : Bool
deriving DecidableEq, Repr

namespace Piece

/-- A part that is not flags. -/
def of (pattern : Pattern) (depth : Nat) : Piece := ⟨pattern, depth, false⟩

/-- Parts put together. Several parts nest one level deeper than the deepest of them. -/
def join (build : List Pattern → Pattern) (pieces : List Piece) : Piece :=
  let deepest := pieces.foldl (fun d p => max d p.depth) 0
  of (build (pieces.map Piece.pattern)) (if 1 < pieces.length then deepest + 1 else deepest)

end Piece

/-- An open group: its finished branches and the items of its last branch, both in reverse. -/
structure OpenGroup where
  /-- True for a group with a number or a name. -/
  numbered : Bool
  branches : List Piece
  items : List Piece
deriving DecidableEq, Repr

namespace OpenGroup

/-- A group without a branch or item. -/
def fresh (numbered : Bool) : OpenGroup := ⟨numbered, [], []⟩

/-- Adds an item to the last branch. -/
def push (g : OpenGroup) (p : Piece) : OpenGroup := { g with items := p :: g.items }

/-- Ends the last branch and begins another. -/
def branch (g : OpenGroup) : OpenGroup :=
  { g with branches := .join .sequence g.items.reverse :: g.branches, items := [] }

/-- What stands in the group. -/
def content (g : OpenGroup) : Piece := .join .choice g.branch.branches.reverse

/-- The whole group. -/
def close (g : OpenGroup) : Piece :=
  let content := g.content
  .of (if g.numbered then .group content.pattern else content.pattern) (content.depth + 1)

end OpenGroup

/-- Takes one symbol into the innermost of the open groups. -/
def takeSymbol : List OpenGroup → Symbol → Option (List OpenGroup)
  | g :: outer, .atom p depth => some (g.push (.of p depth) :: outer)
  | g :: outer, .flags => some (g.push ⟨.empty, 0, true⟩ :: outer)
  | g :: outer, .bar => some (g.branch :: outer)
  | outer, .openGroup numbered => some (.fresh numbered :: outer)
  | g :: next :: outer, .closeGroup => some (next.push g.close :: outer)
  | ⟨numbered, branches, p :: items⟩ :: outer, .times greedy least most =>
    if p.isFlags then none
    else
      let repeated := Piece.of (p.pattern.repeated greedy least most) (p.depth + 1)
      some (⟨numbered, branches, repeated :: items⟩ :: outer)
  | _, _ => none

/-- The number of levels that a pattern may nest. -/
def depthLimit : Nat := 250

/-- The pattern of a sequence of symbols in which every group is closed. -/
def Pattern.ofSymbols? (symbols : List Symbol) : Option Pattern :=
  match symbols.foldlM takeSymbol [.fresh false] with
  | some [g] => if g.content.depth ≤ depthLimit then some g.content.pattern else none
  | _ => none

/-- The pattern that a text writes. -/
def Pattern.read? (text : Text) : Option Pattern :=
  (Symbol.read? text).bind ofSymbols?

example : Pattern.read? "ab|(c*)".toList =
    some (.alt (.text ['a', 'b']) (.group (.star (.text ['c'])))) := by
  decide +kernel

example : ["a**", "(?:)", "[]a]", "a\x7b2,\x7d", "\\<a", "()|"].all fun written =>
    (Pattern.read? written.toList).isSome := by
  decide +kernel

example : ["*a", "(a", "a)", "[a", "a\x7b2", "a\x7b3,2\x7d", "\\q", "(?=a)"].all fun written =>
    (Pattern.read? written.toList).isNone := by
  decide +kernel

end PredictiveParsing.Regex
