import PredictiveParsing.Proofs.Regex.Enclosing
import PredictiveParsing.Proofs.Regex.Matching
import PredictiveParsing.Regex.LeftmostFirst

/-!
# Patterns behind the anchor

A written pattern is compiled between the anchor with an opening bracket and a closing bracket. What
the documentation of an engine says of such a text, it says of a pattern that is an expression by
itself (`Regex.Engine.Documented`): the group is matched behind the anchor. So with every such
engine the lexeme of a rule is the text of the match that is found, which begins at the cursor
(`Rule.ofPattern_matches_at_cursor`).

The engine of matchers keeps what is documented (`Regex.documented_leftmostFirst`). If a text is a
pattern by itself, then what is compiled is the anchor followed by a group with this pattern in it
(`Pattern.read?_anchor`): its symbols are read in brackets as they are read alone, and they leave
the groups around them as they are (`takeSymbols_append`). So the compiled matcher is anchored.

A text that is no pattern by itself can become one between the brackets, with branches that stand
outside of them and are not anchored (`Rule.matchLength?_of_unanchored_branch`).
-/

namespace PredictiveParsing

namespace Regex

/-- What the documentation of an engine says of the texts that it compiles; `Matches` tells what a
text matches as an expression. -/
structure Engine.Documented (engine : Engine) (Matches : String → Match → Prop) : Prop where
  /-- A search finds matches of the text that it was compiled from. -/
  found : ∀ written search text found, engine.compile written = .ok search →
    search.find? text = some found → Matches written found
  /-- The caret matches at the start of the searched text, and takes nothing of it. -/
  caret : ∀ found, Matches "^" found → found.before = [] ∧ found.lexeme = []
  /-- An expression in a group behind the caret is matched behind what the caret matches. -/
  behindCaret : ∀ written whole pasted found, engine.compile written = .ok whole →
    engine.compile (anchor written) = .ok pasted → Matches (anchor written) found →
      ∃ first second, found.lexeme = first ++ second ∧
        Matches "^" ⟨found.before, first, second ++ found.after⟩

variable {stack stack' more : List OpenGroup} {symbols : List Symbol} {written : String}

/-! ## Groups below -/

theorem takeSymbol_openGroup (stack : List OpenGroup) (numbered : Bool) :
    takeSymbol stack (.openGroup numbered) = some (.fresh numbered :: stack) := by
  cases stack <;> rfl

/-- What can be taken into some open groups can be taken with more of them around. -/
theorem takeSymbol_append {symbol : Symbol} (h : takeSymbol stack symbol = some stack')
    (more : List OpenGroup) : takeSymbol (stack ++ more) symbol = some (stack' ++ more) := by
  unfold takeSymbol at h
  split at h
  case h_4 =>
    cases h
    exact takeSymbol_openGroup _ _
  case h_6 =>
    split at h
    · cases h
    · next hflags =>
      cases h
      simp only [List.cons_append, takeSymbol, if_neg hflags]
  case h_7 => cases h
  all_goals
    cases h
    rfl

theorem takeSymbols_append (h : symbols.foldlM takeSymbol stack = some stack')
    (more : List OpenGroup) :
    symbols.foldlM takeSymbol (stack ++ more) = some (stack' ++ more) := by
  induction symbols generalizing stack with
  | nil =>
    cases h
    rfl
  | cons symbol symbols ih =>
    rw [List.foldlM_cons] at h ⊢
    obtain ⟨middle, hsymbol, h⟩ := Option.bind_eq_some_iff.1 h
    rw [takeSymbol_append hsymbol]
    exact ih h

/-- The group around all symbols, when the anchor has been taken into it. -/
def behindAnchor : OpenGroup := ⟨false, [], [.of (.holds .textStart) 0]⟩

/-- The symbols of the anchor and the opening bracket. -/
def anchorSymbols : List Symbol := [.atom (.holds .textStart) 0, .openGroup false]

/-- Behind the anchor and the opening bracket, symbols fill the group that they fill alone. -/
theorem takeSymbols_anchorSymbols {g : OpenGroup}
    (h : symbols.foldlM takeSymbol [.fresh false] = some [g]) (tail : List Symbol) :
    (anchorSymbols ++ (symbols ++ tail)).foldlM takeSymbol [.fresh false] =
      tail.foldlM takeSymbol [g, behindAnchor] := by
  have hanchor : anchorSymbols.foldlM takeSymbol [.fresh false] =
      some ([.fresh false] ++ [behindAnchor]) := rfl
  rw [List.foldlM_append, hanchor, Option.bind_eq_bind, Option.bind_some, List.foldlM_append,
    takeSymbols_append h [behindAnchor]]
  rfl

theorem exists_group_of_ofSymbols? {p : Pattern} (h : Pattern.ofSymbols? symbols = some p) :
    ∃ g : OpenGroup, symbols.foldlM takeSymbol [.fresh false] = some [g] ∧
      p = g.content.pattern := by
  unfold Pattern.ofSymbols? at h
  split at h
  · next g hg =>
    obtain ⟨-, hp⟩ := Option.ite_none_right_eq_some.1 h
    exact ⟨g, hg, (Option.some.inj hp).symm⟩
  · cases h

/-! ## The pasted text -/

/-- The anchor and the opening bracket are read as such, and the text behind them in a group. -/
theorem Symbol.read?_anchor (written : String) :
    Symbol.read? (anchor written).toList =
      (readFrom? (written.toList.length + 3) ⟨.plain, [.plain], []⟩ (written.toList ++ [')'])).map
        (anchorSymbols ++ ·) := by
  have hpasted : (anchor written).toList =
      '^' :: '(' :: '?' :: ':' :: (written.toList ++ [')']) := by
    simp only [anchor, String.toList_append]
    rfl
  have hlength : (anchor written).toList.length = written.toList.length + 3 + 2 := by
    simp [hpasted]
  have hanchor (cs : Text) : next? ⟨.plain, [], []⟩ '^' cs =
      some (.atom (.holds .textStart) 0, ⟨.plain, [], []⟩, cs) := rfl
  have hgroup (cs : Text) : next? ⟨.plain, [], []⟩ '(' ('?' :: ':' :: cs) =
      some (.openGroup false, ⟨.plain, [.plain], []⟩, cs) := rfl
  rw [read?, hlength, hpasted, readFrom?_succ_of_skip_cons _ rfl, hanchor, Option.bind_some]
  dsimp only
  rw [readFrom?_succ_of_skip_cons (written.toList.length + 3) rfl, hgroup, Option.bind_some,
    Option.map_map]
  rfl

/-- The anchor in front of a pattern. -/
def Pattern.anchored (p : Pattern) : Pattern := .choice [.sequence [.holds .textStart, p]]

theorem Pattern.isAnchored_matcher_anchored (p : Pattern) :
    p.anchored.matcher.isAnchored = true := by
  cases p <;> rfl

/-- A text that is a pattern by itself is a group behind the anchor once it is pasted, if a pattern
comes out at all. -/
theorem Pattern.read?_anchor {p : Pattern} (hwhole : (Pattern.read? written.toList).isSome = true)
    (h : Pattern.read? (anchor written).toList = some p) : ∃ q : Pattern, p = q.anchored := by
  obtain ⟨whole, hwhole⟩ := Option.isSome_iff_exists.1 hwhole
  obtain ⟨symbols, hread, hsymbols⟩ := Option.bind_eq_some_iff.1 hwhole
  obtain ⟨g, hg, -⟩ := exists_group_of_ofSymbols? hsymbols
  have hroom : written.toList.length < written.toList.length + 3 := by omega
  obtain ⟨tail, htail, hread'⟩ := Symbol.readFrom?_closed hroom .bracket hread
  have hpasted : Symbol.read? (anchor written).toList =
      some (anchorSymbols ++ (symbols ++ tail)) := by
    rw [Symbol.read?_anchor]
    exact Option.map_eq_some_iff.2 ⟨_, hread', rfl⟩
  unfold Pattern.read? at h
  rw [hpasted, Option.bind_some] at h
  obtain ⟨all, hall, rfl⟩ := exists_group_of_ofSymbols? h
  rw [takeSymbols_anchorSymbols hg] at hall
  rcases htail with rfl | rfl
  · -- A comment has taken the bracket, and a group is left open.
    cases hall
  · cases hall
    exact ⟨g.close.pattern, rfl⟩

/-! ## The engine of matchers -/

/-- What the text matches with the matcher of the pattern that it writes. -/
def WrittenMatches (written : String) (found : Match) : Prop :=
  ∃ p, Pattern.read? written.toList = some p ∧ p.matcher.Yields found

theorem compile_leftmostFirst {search : Search}
    (h : Engine.leftmostFirst.compile written = .ok search) :
    ∃ p, Pattern.read? written.toList = some p ∧ search = p.matcher.search := by
  unfold Engine.leftmostFirst at h
  dsimp only at h
  split at h
  · cases h
  · next p hread =>
    split at h
    · cases h
    · cases h
      exact ⟨p, hread, rfl⟩

/-- The engine of matchers keeps what is documented. -/
theorem documented_leftmostFirst : Engine.leftmostFirst.Documented WrittenMatches where
  found written search text found hcompile hfound := by
    obtain ⟨p, hread, rfl⟩ := compile_leftmostFirst hcompile
    exact ⟨p, hread, Matcher.yields_of_find? hfound⟩
  caret found hmatches := by
    obtain ⟨p, hread, hyields⟩ := hmatches
    obtain rfl : Pattern.holds .textStart = p := Option.some.inj hread
    exact ⟨hyields.before_of_isAnchored rfl, hyields.lexeme_of_holds⟩
  behindCaret written whole pasted found hwhole hpasted hmatches := by
    obtain ⟨p, hread, hyields⟩ := hmatches
    obtain ⟨_, hwritten, -⟩ := compile_leftmostFirst hwhole
    obtain ⟨q, rfl⟩ := Pattern.read?_anchor (by rw [hwritten]; rfl) hread
    have hbefore := hyields.before_of_isAnchored q.isAnchored_matcher_anchored
    refine ⟨[], found.lexeme, rfl, .holds .textStart, rfl, ?_⟩
    rw [hbefore]
    exact .holds rfl

end Regex

/-! ## Rules -/

namespace Rule

open Regex

variable {engine : Engine} {Matches : String → Match → Prop} {written : String} {rule : Rule}
  {input : Text} {n : Nat}

/-- The lexeme of a rule for a text that is an expression by itself is the text of the match that is
found, and this begins at the cursor, as every match does. -/
theorem ofPattern_matches_at_cursor (hengine : engine.Documented Matches)
    (hwhole : ∃ whole, engine.compile written = .ok whole)
    (hrule : ofPattern engine written = .ok rule) (hmatch : rule.matchLength? input = some n) :
    ∃ regex lexeme rest, rule = .regexp regex none ∧ regex.anchored = anchor written ∧
      input = lexeme ++ rest ∧ lexeme.byteLength = n ∧
      regex.search.find? input = some ⟨[], lexeme, rest⟩ ∧
      ∀ found, Matches (anchor written) found → found.before = [] := by
  obtain ⟨whole, hwhole⟩ := hwhole
  unfold ofPattern Regex.compile at hrule
  cases hpasted : engine.compile (anchor written) with
  | error reason => rw [hpasted] at hrule; cases hrule
  | ok search =>
    rw [hpasted] at hrule
    cases hrule
    have at_start (found : Match) (h : Matches (anchor written) found) : found.before = [] := by
      obtain ⟨first, second, -, hcaret⟩ := hengine.behindCaret _ _ _ found hwhole hpasted h
      exact (hengine.caret _ hcaret).1
    have hend : matchEnd? ⟨anchor written, search⟩ input = some n := by
      cases input with
      | nil => cases hmatch
      | cons c cs => exact (Option.filter_eq_some_iff.1 hmatch).1
    obtain ⟨⟨before, lexeme, rest⟩, hfind, rfl⟩ := Option.map_eq_some_iff.1 hend
    obtain rfl : before = [] := at_start _ (hengine.found _ _ _ _ hpasted hfind)
    exact ⟨_, lexeme, rest, rfl, rfl, (search.whole _ _ hfind).symm, rfl, hfind, at_start⟩

/-- The rule for a run of one letter, with the engine of matchers. -/
theorem letters_match_at_cursor :
    ∃ rule : Rule, ofPattern .leftmostFirst "a+" = .ok rule ∧
      (∃ whole, Engine.leftmostFirst.compile "a+" = .ok whole) ∧
      rule.matchLength? ['a', 'a', 'b'] = some 2 ∧
      ∃ (regex : Regex) (lexeme rest : Text), rule = .regexp regex none ∧
        regex.anchored = anchor "a+" ∧ ['a', 'a', 'b'] = lexeme ++ rest ∧ lexeme.byteLength = 2 ∧
        regex.search.find? ['a', 'a', 'b'] = some ⟨[], lexeme, rest⟩ ∧
        ∀ found, WrittenMatches (anchor "a+") found → found.before = [] :=
  ⟨_, rfl, ⟨_, rfl⟩, rfl,
    ofPattern_matches_at_cursor documented_leftmostFirst ⟨_, rfl⟩ rfl rfl⟩

/-- A text that closes the brackets and opens other ones has a branch without the anchor: the match
that is found begins behind the cursor, and still there is a lexeme, from the cursor to its end. -/
theorem matchLength?_of_unanchored_branch :
    Engine.leftmostFirst.compile "a)|(?:b" = .error "regex parse error:" ∧
      ∃ regex : Regex, ofRegex "a)|(?:b" = .ok (.regexp regex none) ∧
        regex.search.find? ['x', 'b'] = some ⟨['x'], ['b'], []⟩ ∧
        (regexp regex none).matchLength? ['x', 'b'] = some 2 :=
  ⟨rfl, _, rfl, rfl, rfl⟩

end Rule

end PredictiveParsing
