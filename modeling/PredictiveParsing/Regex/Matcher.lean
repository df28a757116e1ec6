import PredictiveParsing.Regex.Engine
import PredictiveParsing.Regex.Pattern
import PredictiveParsing.Text.Word

/-!
# Matchers and their matches

A matcher is a pattern whose counted repetitions are spelled out and whose choices are numbered. A
number stands for a point of the matcher, and so for all that may follow behind it.

A text is searched place by place. What may still have to be matched from a place on are remainders,
sequences of matchers, preferred ones first. `Matcher.explore` takes a remainder apart until it is
exhausted, which completes a match, or waits for a scalar. A point that comes up again at the same
place is dropped, so no repetition goes round at a place (`Front.consider`).

`Matcher.find?` looks for the first place of a text where a match can start, and answers the
preferred match from there. It is a piece of the text (`Matcher.text_of_find?`), and an anchored
matcher can match at the start of the text only (`Matcher.find?_eq_searchFrom?`).
-/

namespace PredictiveParsing.Regex

/-- A pattern spelled out, with numbered points. -/
inductive Matcher
  | empty
  /-- One scalar of a class. -/
  | one (label : Nat) (cls : ScalarSet)
  | holds (assertion : Assertion)
  | seq (first second : Matcher)
  | alt (label : Nat) (left right : Matcher)
  /-- One round of a repetition and then further rounds, or none. -/
  | plus (label : Nat) (greedy : Bool) (body : Matcher)
  /-- Further rounds of a repetition, or none. -/
  | rounds (label : Nat) (greedy : Bool) (body : Matcher)
deriving DecidableEq, Repr

/-- A place of the searched text. -/
structure Place where
  /-- The scalar in front of the place. -/
  before : Option Char
  /-- The text from the place on. -/
  rest : Text
  /-- Bytes from the start of the text. -/
  offset : Nat
deriving DecidableEq, Repr

/-- True if the scalars in front and behind, which are of words or not, make the edge. -/
def WordEdge.isBetween : WordEdge → (front behind : Bool) → Bool
  | boundary, front, behind => front != behind
  | interior, front, behind => front == behind
  | start, front, behind => !front && behind
  | stop, front, behind => front && !behind
  | startHalf, front, _ => !front
  | stopHalf, _, behind => !behind

/-- True if the assertion holds at the place. -/
def Assertion.holdsAt (a : Assertion) (p : Place) : Bool :=
  let after := p.rest.head?
  match a with
  | textStart => p.before.isNone
  | textEnd => p.rest.isEmpty
  | lineStart false => p.before.isNone || p.before == some '\n'
  | lineEnd false => p.rest.isEmpty || after == some '\n'
  | lineStart true =>
    p.before.isNone || p.before == some '\n' || (p.before == some '\r' && after != some '\n')
  | lineEnd true =>
    p.rest.isEmpty || after == some '\r' || (after == some '\n' && p.before != some '\r')
  | word edge ascii =>
    let isWord := if ascii then Text.isAsciiWordScalar else Text.isWordScalar
    edge.isBetween (p.before.any isWord) (after.any isWord)

/-- What remains to be matched, one matcher after the other. -/
abbrev Remainder := List Matcher

/-- What the search holds at a place. -/
structure Front where
  /-- Whether the point with a label has been considered at the place. Points behind the end of the
  array have not. -/
  considered : Array Bool
  /-- The classes that the next scalar has to be of, each with what remains behind the scalar. The
  less preferred come first. -/
  waiting : List (ScalarSet × Remainder)
  /-- True if a match ends at the place. All that waits is preferred to it. -/
  complete : Bool
deriving DecidableEq, Repr

namespace Front

/-- The front before anything is considered. -/
def fresh : Front := ⟨#[], [], false⟩

/-- Marks a point as considered. -/
def mark (label : Nat) : Front → Front
  | ⟨considered, waiting, complete⟩ =>
    let room := considered ++ Array.replicate (label + 1 - considered.size) false
    ⟨room.setIfInBounds label true, waiting, complete⟩

@[simp] theorem waiting_mark (label : Nat) (f : Front) : (f.mark label).waiting = f.waiting := rfl

@[simp] theorem complete_mark (label : Nat) (f : Front) :
    (f.mark label).complete = f.complete := rfl

/-- Goes on from a point, unless it has been considered or a preferred match ends here. -/
def consider (label : Nat) (goOn : Front → Front) (f : Front) : Front :=
  if f.complete || f.considered.getD label false then f else goOn (f.mark label)

/-- Waits for a scalar of the class. -/
def await (cls : ScalarSet) (r : Remainder) (f : Front) : Front :=
  { f with waiting := (cls, r) :: f.waiting }

/-- A match ends here. -/
def finish (f : Front) : Front := { f with complete := true }

/-- Decides between another round and what is next, the preferred one first. -/
def decideRound (label : Nat) (greedy : Bool) (round next : Front → Front) : Front → Front :=
  consider label fun f => if greedy then next (round f) else round (next f)

/-- What remains behind a scalar, preferred remainders first. -/
def remainders (c : Char) (f : Front) : List Remainder :=
  f.waiting.foldl (fun rs (cls, r) => if cls.contains c then r :: rs else rs) []

end Front

/-- Explores the matcher and then the remainder `r` behind it at a place; `next` explores `r`. -/
def Matcher.explore : Matcher → Place → (next : Front → Front) → (r : Remainder) → Front → Front
  | empty, _, next, _ => next
  | one label cls, _, _, r => Front.consider label (Front.await cls r)
  | holds a, place, next, _ => if a.holdsAt place then next else id
  | seq first second, place, next, r =>
    first.explore place (second.explore place next r) (second :: r)
  | alt label left right, place, next, r =>
    Front.consider label fun f => right.explore place next r (left.explore place next r f)
  | plus label greedy body, place, next, r =>
    let again : Remainder := rounds label greedy body :: r
    body.explore place (Front.decideRound label greedy (body.explore place id again) next) again
  | rounds label greedy body, place, next, r =>
    Front.decideRound label greedy (body.explore place id (rounds label greedy body :: r)) next

/-- Explores a remainder at a place. -/
def Remainder.explore (place : Place) : Remainder → Front → Front
  | [] => Front.finish
  | m :: r => m.explore place (Remainder.explore place r) r

/-- The front at a place where the given remainders are left. -/
def Front.ofRemainders (place : Place) (rs : List Remainder) : Front :=
  rs.foldl (fun f r => Remainder.explore place r f) .fresh

/-- The place where the preferred match ends that begins with one of the given remainders, or else
the place `best`. The text from the place on is given apart. -/
def endFrom? (best : Option Place) (before : Option Char) (offset : Nat) :
    Text → List Remainder → Option Place
  | _, [] => best
  | [], rs =>
    let place : Place := ⟨before, [], offset⟩
    if (Front.ofRemainders place rs).complete then some place else best
  | c :: cs, rs =>
    let place : Place := ⟨before, c :: cs, offset⟩
    let front := Front.ofRemainders place rs
    let best := if front.complete then some place else best
    endFrom? best (some c) (offset + c.utf8Size) cs (front.remainders c)

/-- A match ends between two scalars of the text. -/
theorem endFrom?_eq_some {best : Option Place} {before : Option Char} {offset : Nat} {text : Text}
    {rs : List Remainder} {stop : Place} (h : endFrom? best before offset text rs = some stop) :
    best = some stop ∨
      ∃ passed, text = passed ++ stop.rest ∧ stop.offset = offset + passed.byteLength := by
  induction text generalizing best before offset rs with
  | nil =>
    cases rs with
    | nil => exact .inl h
    | cons r rs =>
      simp only [endFrom?] at h
      split at h
      · cases h; exact .inr ⟨[], rfl, rfl⟩
      · exact .inl h
  | cons c cs ih =>
    cases rs with
    | nil => exact .inl h
    | cons r rs =>
      rcases ih h with hbest | ⟨passed, hcs, ho⟩
      · split at hbest
        · cases hbest; exact .inr ⟨[], rfl, rfl⟩
        · exact .inl hbest
      · refine .inr ⟨c :: passed, by rw [hcs, List.cons_append], ?_⟩
        rw [ho, Text.byteLength_cons]
        omega

namespace Matcher

/-- True if every match begins with the assertion that the text starts there. -/
def isAnchored : Matcher → Bool
  | holds .textStart => true
  | seq first _ => first.isAnchored
  | alt _ left right => left.isAnchored && right.isAnchored
  | _ => false

/-- The preferred match that starts between the two parts of a text. -/
def matchFrom? (m : Matcher) (before rest : Text) : Option Match :=
  (endFrom? none before.getLast? before.byteLength rest [[m]]).map fun stop =>
    ⟨before, rest.take (rest.length - stop.rest.length), stop.rest⟩

/-- The preferred match that starts earliest in the second part of a text. -/
def searchFrom? (m : Matcher) (before : Text) : Text → Option Match
  | [] => m.matchFrom? before []
  | c :: cs => (m.matchFrom? before (c :: cs)).or (m.searchFrom? (before ++ [c]) cs)

/-- The preferred match that starts earliest in a text. An anchored matcher is tried at the start of
the text only (`find?_eq_searchFrom?`). -/
def find? (m : Matcher) (text : Text) : Option Match :=
  if m.isAnchored then m.matchFrom? [] text else m.searchFrom? [] text

/-- What is matched is the text up to the place where the search ends. -/
theorem matchFrom?_eq_some {m : Matcher} {before rest : Text} {found : Match}
    (h : m.matchFrom? before rest = some found) :
    ∃ stop, endFrom? none before.getLast? before.byteLength rest [[m]] = some stop ∧
      found.before = before ∧ rest = found.lexeme ++ found.after ∧ found.after = stop.rest ∧
      found.stop = stop.offset := by
  obtain ⟨stop, hstop, rfl⟩ := Option.map_eq_some_iff.1 h
  obtain ⟨passed, rfl, ho⟩ := (endFrom?_eq_some hstop).resolve_left nofun
  refine ⟨stop, hstop, rfl, ?_⟩
  simp [Match.stop, ho]

theorem text_of_searchFrom? {m : Matcher} {before rest : Text} {found : Match}
    (h : m.searchFrom? before rest = some found) : found.text = before ++ rest := by
  have from_here {before rest : Text} (h : m.matchFrom? before rest = some found) :
      found.text = before ++ rest := by
    obtain ⟨_, -, rfl, rfl, -⟩ := matchFrom?_eq_some h
    rfl
  induction rest generalizing before with
  | nil => exact from_here h
  | cons c cs ih =>
    rcases Option.or_eq_some_iff.1 h with h | ⟨-, h⟩
    · exact from_here h
    · rw [ih h, List.append_assoc]
      rfl

/-- Behind a scalar, an anchored matcher neither waits nor completes a match. -/
theorem explore_of_isAnchored {m : Matcher} (h : m.isAnchored = true) {place : Place}
    (hb : place.before.isSome = true) (next : Front → Front) (r : Remainder) (f : Front) :
    (m.explore place next r f).waiting = f.waiting ∧
      (m.explore place next r f).complete = f.complete := by
  induction m generalizing next r f with
  | empty | one | plus | rounds => simp [isAnchored] at h
  | holds a =>
    cases a with
    | textStart => simp [explore, Assertion.holdsAt, Option.isSome_iff_ne_none.1 hb]
    | textEnd | lineStart | lineEnd | word => simp [isAnchored] at h
  | seq first second ih _ => exact ih h _ _ f
  | alt label left right ihl ihr =>
    simp only [isAnchored, Bool.and_eq_true] at h
    unfold explore Front.consider
    split
    · exact ⟨rfl, rfl⟩
    · simp [ihr h.2, ihl h.1]

/-- Behind a scalar, nothing that an anchored matcher matches begins. -/
theorem matchFrom?_of_isAnchored {m : Matcher} (h : m.isAnchored = true) {before : Text}
    (hb : before ≠ []) (rest : Text) : m.matchFrom? before rest = none := by
  have barren (place : Place) (hbefore : place.before.isSome = true) :
      (Front.ofRemainders place [[m]]).waiting = [] ∧
        (Front.ofRemainders place [[m]]).complete = false :=
    explore_of_isAnchored h hbefore (Remainder.explore place []) [] .fresh
  obtain ⟨hw, hc⟩ := barren ⟨before.getLast?, rest, before.byteLength⟩ (by simpa using hb)
  unfold matchFrom?
  cases rest with
  | nil => simp [endFrom?, hc]
  | cons c cs => simp [endFrom?, Front.remainders, hw, hc]

theorem searchFrom?_of_isAnchored {m : Matcher} (h : m.isAnchored = true) {before : Text}
    (hb : before ≠ []) (rest : Text) : m.searchFrom? before rest = none := by
  induction rest generalizing before with
  | nil => exact matchFrom?_of_isAnchored h hb []
  | cons c cs ih =>
    unfold searchFrom?
    rw [matchFrom?_of_isAnchored h hb, ih (by simp)]
    rfl

/-- Trying an anchored matcher at the start of the text only loses no match. -/
theorem find?_eq_searchFrom? (m : Matcher) (text : Text) :
    m.find? text = m.searchFrom? [] text := by
  unfold find?
  split
  · next h =>
    cases text with
    | nil => rfl
    | cons c cs =>
      have hlater : m.searchFrom? ([] ++ [c]) cs = none :=
        searchFrom?_of_isAnchored h (List.cons_ne_nil c []) cs
      unfold searchFrom?
      rw [hlater, Option.or_none]
  · rfl

/-- A match is a piece of the text. -/
theorem text_of_find? {m : Matcher} {text : Text} {found : Match}
    (h : m.find? text = some found) : found.text = text := by
  rw [find?_eq_searchFrom?] at h
  exact text_of_searchFrom? h

/-- The search for what a matcher matches. -/
def search (m : Matcher) : Search := ⟨m.find?, fun _ _ => text_of_find?⟩

end Matcher

end PredictiveParsing.Regex
