import PredictiveParsing.Regex.Matcher

/-!
# What a matcher matches

`Matcher.Matches` says from where to where a matcher matches, rule by rule, without preferences and
without a search. The search is sound for it (`Matcher.yields_of_find?`): what it answers is matched
from where it begins to where it ends. The invariant is that whatever is left at a place, and
whatever waits for the next scalar, leads to ends of matches only (`Front.Sound`).

A matcher that begins with the anchor matches from the start of the text only
(`Matcher.Matches.before_of_isAnchored`).
-/

namespace PredictiveParsing.Regex

/-- The place behind the text `passed` and in front of the text `rest`. -/
def Place.behind (passed rest : Text) : Place := ⟨passed.getLast?, rest, passed.byteLength⟩

theorem Place.behind_append_singleton (passed : Text) (c : Char) (rest : Text) :
    behind (passed ++ [c]) rest = ⟨some c, rest, passed.byteLength + c.utf8Size⟩ := by
  simp [behind]

/-- The matcher matches from the first place to the second. -/
inductive Matcher.Matches : Matcher → Place → Place → Prop
  | empty {p : Place} : Matches .empty p p
  | one {label : Nat} {cls : ScalarSet} {before : Option Char} {c : Char} {rest : Text}
      {offset : Nat} (member : cls.contains c = true) :
      Matches (.one label cls) ⟨before, c :: rest, offset⟩ ⟨some c, rest, offset + c.utf8Size⟩
  | holds {a : Assertion} {p : Place} (met : a.holdsAt p = true) : Matches (.holds a) p p
  | seq {first second : Matcher} {p q s : Place} (front : Matches first p q)
      (back : Matches second q s) : Matches (.seq first second) p s
  | left {label : Nat} {left right : Matcher} {p q : Place} (branch : Matches left p q) :
      Matches (.alt label left right) p q
  | right {label : Nat} {left right : Matcher} {p q : Place} (branch : Matches right p q) :
      Matches (.alt label left right) p q
  | plus {label : Nat} {greedy : Bool} {body : Matcher} {p q s : Place} (round : Matches body p q)
      (further : Matches (.rounds label greedy body) q s) : Matches (.plus label greedy body) p s
  | done {label : Nat} {greedy : Bool} {body : Matcher} {p : Place} :
      Matches (.rounds label greedy body) p p
  | again {label : Nat} {greedy : Bool} {body : Matcher} {p q s : Place} (round : Matches body p q)
      (further : Matches (.rounds label greedy body) q s) : Matches (.rounds label greedy body) p s

/-- The matchers of the remainder match one after the other. -/
inductive Remainder.Matches : Remainder → Place → Place → Prop
  | nil {p : Place} : Matches [] p p
  | cons {m : Matcher} {r : Remainder} {p q s : Place} (front : m.Matches p q)
      (back : Matches r q s) : Matches (m :: r) p s

/-- From the place, what the remainder matches ends in one of the given places. -/
def Remainder.EndsIn (place : Place) (ends : Place → Prop) (r : Remainder) : Prop :=
  ∀ stop, r.Matches place stop → ends stop

namespace Remainder.EndsIn

variable {place : Place} {ends : Place → Prop} {first second body : Matcher}
  {label : Nat} {greedy : Bool} {r : Remainder}

theorem empty (h : EndsIn place ends (.empty :: r)) : EndsIn place ends r :=
  fun stop hr => h stop (.cons .empty hr)

theorem holds {a : Assertion} (h : EndsIn place ends (.holds a :: r))
    (ha : a.holdsAt place = true) : EndsIn place ends r :=
  fun stop hr => h stop (.cons (.holds ha) hr)

theorem seq (h : EndsIn place ends (.seq first second :: r)) :
    EndsIn place ends (first :: second :: r) := by
  intro stop hr
  cases hr with
  | cons hfirst hr =>
    cases hr with
    | cons hsecond hr => exact h stop (.cons (.seq hfirst hsecond) hr)

theorem left (h : EndsIn place ends (.alt label first second :: r)) :
    EndsIn place ends (first :: r) := by
  intro stop hr
  cases hr with
  | cons hleft hr => exact h stop (.cons (.left hleft) hr)

theorem right (h : EndsIn place ends (.alt label first second :: r)) :
    EndsIn place ends (second :: r) := by
  intro stop hr
  cases hr with
  | cons hright hr => exact h stop (.cons (.right hright) hr)

theorem plus (h : EndsIn place ends (.plus label greedy body :: r)) :
    EndsIn place ends (body :: .rounds label greedy body :: r) := by
  intro stop hr
  cases hr with
  | cons hround hr =>
    cases hr with
    | cons hfurther hr => exact h stop (.cons (.plus hround hfurther) hr)

theorem done (h : EndsIn place ends (.rounds label greedy body :: r)) : EndsIn place ends r :=
  fun stop hr => h stop (.cons .done hr)

theorem again (h : EndsIn place ends (.rounds label greedy body :: r)) :
    EndsIn place ends (body :: .rounds label greedy body :: r) := by
  intro stop hr
  cases hr with
  | cons hround hr =>
    cases hr with
    | cons hfurther hr => exact h stop (.cons (.again hround hfurther) hr)

end Remainder.EndsIn

/-! ## Fronts -/

/-- What the front holds at a place leads to the given places only. -/
structure Front.Sound (passed rest : Text) (ends : Place → Prop) (f : Front) : Prop where
  complete : f.complete = true → ends (.behind passed rest)
  waiting : ∀ cls r, (cls, r) ∈ f.waiting → ∀ c cs, rest = c :: cs → cls.contains c = true →
    Remainder.EndsIn (.behind (passed ++ [c]) cs) ends r

/-- The step takes sound fronts to sound fronts. -/
def Front.Keeps (passed rest : Text) (ends : Place → Prop) (step : Front → Front) : Prop :=
  ∀ f, f.Sound passed rest ends → (step f).Sound passed rest ends

section
variable {passed rest : Text} {ends : Place → Prop} {step round next : Front → Front}
  {label : Nat} {greedy : Bool}

theorem Front.sound_fresh : Front.fresh.Sound passed rest ends :=
  ⟨nofun, nofun⟩

theorem Front.keeps_id : Front.Keeps passed rest ends id := fun _ h => h

theorem Front.keeps_consider (h : Keeps passed rest ends step) :
    Keeps passed rest ends (consider label step) := by
  intro f hf
  unfold consider
  split
  · exact hf
  · exact h _ ⟨hf.complete, hf.waiting⟩

theorem Front.keeps_decideRound (hround : Keeps passed rest ends round)
    (hnext : Keeps passed rest ends next) :
    Keeps passed rest ends (decideRound label greedy round next) := by
  refine keeps_consider fun f hf => ?_
  split
  · exact hnext _ (hround f hf)
  · exact hround _ (hnext f hf)

/-- Exploring a matcher keeps a front sound, if exploring what remains behind it does. -/
theorem Matcher.keeps_explore (m : Matcher) {r : Remainder}
    (hm : Remainder.EndsIn (.behind passed rest) ends (m :: r))
    (hnext : Remainder.EndsIn (.behind passed rest) ends r → Front.Keeps passed rest ends next) :
    Front.Keeps passed rest ends (m.explore (.behind passed rest) next r) := by
  induction m generalizing next r with
  | empty => exact hnext hm.empty
  | one label cls =>
    refine Front.keeps_consider fun f hf => ⟨hf.complete, fun cls' r' hmem c cs hrest hc => ?_⟩
    rcases List.mem_cons.1 hmem with hfirst | hmem
    · cases hfirst
      subst hrest
      rw [Place.behind_append_singleton]
      exact fun stop hr => hm stop (.cons (.one hc) hr)
    · exact hf.waiting cls' r' hmem c cs hrest hc
  | holds a =>
    show Front.Keeps passed rest ends (if a.holdsAt (.behind passed rest) then next else id)
    split
    · next ha => exact hnext (hm.holds ha)
    · exact Front.keeps_id
  | seq first second ihf ihs => exact ihf hm.seq fun hsecond => ihs hsecond hnext
  | alt label left right ihl ihr =>
    exact Front.keeps_consider fun f hf => ihr hm.right hnext _ (ihl hm.left hnext f hf)
  | plus label greedy body ih =>
    refine ih hm.plus fun hagain => Front.keeps_decideRound ?_ (hnext hagain.done)
    exact ih hagain.again fun _ => Front.keeps_id
  | rounds label greedy body ih =>
    exact Front.keeps_decideRound (ih hm.again fun _ => Front.keeps_id) (hnext hm.done)

theorem Remainder.keeps_explore {r : Remainder}
    (h : Remainder.EndsIn (.behind passed rest) ends r) :
    Front.Keeps passed rest ends (r.explore (.behind passed rest)) := by
  induction r with
  | nil => exact fun f hf => ⟨fun _ => h _ .nil, hf.waiting⟩
  | cons m r ih => exact m.keeps_explore h ih

theorem Front.sound_ofRemainders {rs : List Remainder}
    (h : ∀ r ∈ rs, Remainder.EndsIn (.behind passed rest) ends r) :
    (Front.ofRemainders (.behind passed rest) rs).Sound passed rest ends := by
  suffices from_here : ∀ f : Front, f.Sound passed rest ends →
      (rs.foldl (fun f r => Remainder.explore (.behind passed rest) r f) f).Sound passed rest ends
    from from_here .fresh Front.sound_fresh
  induction rs with
  | nil => exact fun f hf => hf
  | cons r rs ih =>
    obtain ⟨hr, hrs⟩ := List.forall_mem_cons.1 h
    exact fun f hf => ih hrs _ (Remainder.keeps_explore hr f hf)

/-- What remains behind a scalar has waited for it. -/
theorem Front.mem_remainders {f : Front} {c : Char} {r : Remainder} (h : r ∈ f.remainders c) :
    ∃ cls, (cls, r) ∈ f.waiting ∧ cls.contains c = true := by
  suffices from_here : ∀ (waiting : List (ScalarSet × Remainder)) (rs : List Remainder),
      r ∈ waiting.foldl (fun rs entry => if entry.1.contains c then entry.2 :: rs else rs) rs →
        r ∈ rs ∨ ∃ cls, (cls, r) ∈ waiting ∧ cls.contains c = true
    from (from_here f.waiting [] h).resolve_left List.not_mem_nil
  intro waiting
  induction waiting with
  | nil => exact fun rs hr => .inl hr
  | cons entry waiting ih =>
    intro rs hr
    rcases ih _ hr with hmem | ⟨cls, hmem, hc⟩
    · dsimp only at hmem
      split at hmem
      · next hc =>
        rcases List.mem_cons.1 hmem with rfl | hmem
        · exact .inr ⟨entry.1, .head _, hc⟩
        · exact .inl hmem
      · exact .inl hmem
    · exact .inr ⟨cls, .tail _ hmem, hc⟩

theorem Front.Sound.remainders {f : Front} {c : Char} {cs : Text}
    (h : f.Sound passed (c :: cs) ends) :
    ∀ r ∈ f.remainders c, Remainder.EndsIn (.behind (passed ++ [c]) cs) ends r := by
  intro r hr
  obtain ⟨cls, hmem, hc⟩ := mem_remainders hr
  exact h.waiting cls r hmem c cs rfl hc

/-! ## The search -/

/-- The search ends in one of the given places, if all that is left does. -/
theorem endFrom?_endsIn {rs : List Remainder} {best : Option Place} {stop : Place}
    (hrs : ∀ r ∈ rs, Remainder.EndsIn (.behind passed rest) ends r)
    (h : endFrom? best passed.getLast? passed.byteLength rest rs = some stop) :
    best = some stop ∨ ends stop := by
  induction rest generalizing best passed rs with
  | nil =>
    cases rs with
    | nil => exact .inl h
    | cons r rs =>
      have hfront := Front.sound_ofRemainders hrs
      simp only [endFrom?] at h
      split at h
      · next hcomplete =>
        cases h
        exact .inr (hfront.complete hcomplete)
      · exact .inl h
  | cons c cs ih =>
    cases rs with
    | nil => exact .inl h
    | cons r rs =>
      have hfront : (Front.ofRemainders ⟨passed.getLast?, c :: cs, passed.byteLength⟩
          (r :: rs)).Sound passed (c :: cs) ends := Front.sound_ofRemainders hrs
      have hbefore : some c = (passed ++ [c]).getLast? := List.getLast?_concat.symm
      have hoffset : passed.byteLength + c.utf8Size = (passed ++ [c]).byteLength := by simp
      simp only [endFrom?] at h
      rw [hbefore, hoffset] at h
      rcases ih hfront.remainders h with hbest | hends
      · split at hbest
        · next hcomplete =>
          cases hbest
          exact .inr (hfront.complete hcomplete)
        · exact .inl hbest
      · exact .inr hends

end

namespace Matcher

variable {m : Matcher} {passed rest text : Text} {p stop : Place}

/-- A match goes over a piece of the text. -/
theorem Matches.eq_behind (h : m.Matches p stop) (hp : p = .behind passed rest) :
    ∃ lexeme rest', rest = lexeme ++ rest' ∧ stop = .behind (passed ++ lexeme) rest' := by
  induction h generalizing passed rest with
  | empty | holds | done => exact ⟨[], rest, rfl, by rw [hp, List.append_nil]⟩
  | @one _ _ _ c cs _ _ =>
    cases hp
    exact ⟨[c], cs, rfl, (Place.behind_append_singleton passed c cs).symm⟩
  | left _ ih | right _ ih => exact ih hp
  | seq _ _ ihf ihs | plus _ _ ihf ihs | again _ _ ihf ihs =>
    obtain ⟨lexeme, rest', rfl, hmiddle⟩ := ihf hp
    obtain ⟨lexeme', rest'', rfl, hstop⟩ := ihs hmiddle
    exact ⟨lexeme ++ lexeme', rest'', (List.append_assoc ..).symm, by rw [hstop, List.append_assoc]⟩

/-- The match is one of the matcher. -/
def Yields (m : Matcher) (found : Match) : Prop :=
  m.Matches (.behind found.before (found.lexeme ++ found.after))
    (.behind (found.before ++ found.lexeme) found.after)

theorem yields_of_matchFrom? {found : Match} (h : m.matchFrom? passed rest = some found) :
    m.Yields found := by
  obtain ⟨stop, hend, rfl, rfl, hafter, -⟩ := matchFrom?_eq_some h
  have hmatches : m.Matches (.behind found.before (found.lexeme ++ found.after)) stop := by
    refine (endFrom?_endsIn (fun r hr stop hstop => ?_) hend).resolve_left nofun
    obtain rfl := List.mem_singleton.1 hr
    cases hstop with
    | cons hm hnil =>
      cases hnil
      exact hm
  obtain ⟨lexeme, rest', hrest, rfl⟩ := hmatches.eq_behind rfl
  obtain rfl : found.after = rest' := hafter
  cases List.append_cancel_right hrest
  exact hmatches

theorem yields_of_searchFrom? {found : Match} (h : m.searchFrom? passed rest = some found) :
    m.Yields found := by
  induction rest generalizing passed with
  | nil => exact yields_of_matchFrom? h
  | cons c cs ih =>
    rcases Option.or_eq_some_iff.1 h with h | ⟨-, h⟩
    · exact yields_of_matchFrom? h
    · exact ih h

/-- What the search finds is matched. -/
theorem yields_of_find? {found : Match} (h : m.find? text = some found) : m.Yields found := by
  rw [find?_eq_searchFrom?] at h
  exact yields_of_searchFrom? h

/-- An anchored matcher matches from the start of a text only. -/
theorem Matches.before_of_isAnchored (h : m.Matches p stop) (hanchored : m.isAnchored = true) :
    p.before = none := by
  induction h with
  | empty | one | plus | done | again => cases hanchored
  | @holds a p met =>
    cases a with
    | textStart => exact Option.isNone_iff_eq_none.1 met
    | textEnd | lineStart | lineEnd | word => cases hanchored
  | seq _ _ ih _ => exact ih hanchored
  | left _ ih => exact ih (Bool.and_eq_true_iff.1 hanchored).1
  | right _ ih => exact ih (Bool.and_eq_true_iff.1 hanchored).2

theorem Yields.before_of_isAnchored {found : Match} (h : m.Yields found)
    (hanchored : m.isAnchored = true) : found.before = [] :=
  List.getLast?_eq_none_iff.1 (Matches.before_of_isAnchored h hanchored)

/-- An assertion takes nothing of the text. -/
theorem Yields.lexeme_of_holds {a : Assertion} {found : Match} (h : (holds a).Yields found) :
    found.lexeme = [] := by
  have stays {p stop : Place} (h : (holds a).Matches p stop) : stop = p := by
    cases h
    rfl
  have hrest : found.after = found.lexeme ++ found.after := congrArg Place.rest (stays h)
  exact List.self_eq_append_left.1 hrest

end Matcher

end PredictiveParsing.Regex
