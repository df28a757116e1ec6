import PredictiveParsing.Regex.Matcher

/-!
# Running an anchored matcher

What a matcher without assertions waits for at a place does not depend on the place. The remainders
that are left at a place are then the state of an automaton: a scalar steps from some remainders to
others (`Steps`), and a text leads from state to state (`Leads`). Remainders that are explored alike
are the same state (`Same`).

An anchored matcher that the text leads to a state in which it is complete, and that stops there,
matches just this text (`matchEnd?_of_leads`). Conversely, what an anchored matcher matches leads to
a complete state (`accepts_of_matchEnd?`), here also from states that depend on the place.
-/

namespace PredictiveParsing.Regex

variable {r : Remainder} {rs rs' rs'' : List Remainder} {c : Char} {cs text rest : Text}
  {m : Matcher} {anchored : String}

/-- The remainders are explored alike, wherever they are left. -/
def Same (rs rs' : List Remainder) : Prop :=
  (rs = [] ↔ rs' = []) ∧ ∀ place, Front.ofRemainders place rs = Front.ofRemainders place rs'

/-- Wherever the remainders `rs` are left, the remainders `rs'` are left behind the scalar. -/
def Steps (rs : List Remainder) (c : Char) (rs' : List Remainder) : Prop :=
  ∀ place, Same ((Front.ofRemainders place rs).remainders c) rs'

/-- Wherever the remainders are left, no remainder is left behind the scalar. -/
def Blocks (rs : List Remainder) (c : Char) : Prop :=
  ∀ place, (Front.ofRemainders place rs).remainders c = []

/-- Wherever the remainders are left, a match ends. -/
def Completes (rs : List Remainder) : Prop :=
  ∀ place, (Front.ofRemainders place rs).complete = true

/-- The text leads from the remainders `rs` to the remainders `rs'`. -/
inductive Leads : List Remainder → Text → List Remainder → Prop
  | nil {rs : List Remainder} : Leads rs [] rs
  | cons {r : Remainder} {rs rs' rs'' : List Remainder} {c : Char} {cs : Text}
      (step : Steps (r :: rs) c rs') (rest : Leads rs' cs rs'') : Leads (r :: rs) (c :: cs) rs''

theorem Same.refl (rs : List Remainder) : Same rs rs := ⟨.rfl, fun _ => rfl⟩

theorem Leads.append (h : Leads rs cs rs') (h' : Leads rs' text rs'') :
    Leads rs (cs ++ text) rs'' := by
  induction h with
  | nil => exact h'
  | cons hstep _ ih => exact .cons hstep (ih h')

/-- A loop takes all scalars that lead back to it. -/
theorem Leads.loop (h : ∀ c ∈ text, Steps (r :: rs) c (r :: rs)) :
    Leads (r :: rs) text (r :: rs) := by
  induction text with
  | nil => exact .nil
  | cons c cs ih => exact .cons (h c (.head _)) (ih fun d hd => h d (.tail _ hd))

theorem Completes.ne_nil (h : Completes rs) : rs ≠ [] := by
  rintro rfl
  cases h ⟨none, [], 0⟩

/-- Over a scalar a match that ends in front of it becomes the best one. -/
theorem endFrom?_cons (best : Option Place) (before : Option Char) (offset : Nat) :
    endFrom? best before offset (c :: cs) (r :: rs) =
      endFrom? (if (Front.ofRemainders ⟨before, c :: cs, offset⟩ (r :: rs)).complete
          then some ⟨before, c :: cs, offset⟩ else best)
        (some c) (offset + c.utf8Size) cs
        ((Front.ofRemainders ⟨before, c :: cs, offset⟩ (r :: rs)).remainders c) := rfl

/-- What an anchored matcher matches in a text ends where the search from its start ends. -/
theorem matchEnd?_of_isAnchored (hanchored : m.isAnchored = true) (text : Text) :
    Regex.matchEnd? ⟨anchored, m.search⟩ text =
      (endFrom? none none 0 text [[m]]).map Place.offset := by
  show (m.find? text).map Match.stop = _
  unfold Matcher.find?
  rw [if_pos hanchored]
  cases hmatch : m.matchFrom? [] text with
  | none =>
    have hend : endFrom? none none 0 text [[m]] = none := Option.map_eq_none_iff.1 hmatch
    rw [hend]
    rfl
  | some found =>
    obtain ⟨stop, hend, -, -, -, hstop⟩ := Matcher.matchFrom?_eq_some hmatch
    have hend : endFrom? none none 0 text [[m]] = some stop := hend
    rw [hend]
    exact congrArg some hstop

/-- The same remainders end the same match. -/
theorem endFrom?_same (h : Same rs rs') (best : Option Place) (before : Option Char)
    (offset : Nat) :
    endFrom? best before offset text rs = endFrom? best before offset text rs' := by
  obtain ⟨hnil, hfronts⟩ := h
  cases rs with
  | nil => rw [hnil.1 rfl]
  | cons r rs =>
    obtain ⟨r', rs', rfl⟩ := List.exists_cons_of_ne_nil fun h => List.cons_ne_nil r rs (hnil.2 h)
    cases text with
    | nil => simp only [endFrom?, hfronts]
    | cons c cs => rw [endFrom?_cons, endFrom?_cons, hfronts]

/-- If no scalar goes on from where a text leads to and a match ends, then the match ends there. -/
theorem endFrom?_of_leads (h : Leads rs text rs') (hcomplete : Completes rs')
    (hblocks : ∀ c ∈ rest.head?, Blocks rs' c) (best : Option Place) (before : Option Char)
    (offset : Nat) :
    (endFrom? best before offset (text ++ rest) rs).map Place.offset =
      some (offset + text.byteLength) := by
  induction h generalizing best before offset with
  | @nil rs =>
    obtain ⟨r, rs, rfl⟩ := List.exists_cons_of_ne_nil hcomplete.ne_nil
    cases rest with
    | nil => simp [endFrom?, hcomplete _]
    | cons c cs => simp [endFrom?, hcomplete _, hblocks c rfl _]
  | @cons r rs rs' rs'' c cs hstep _ ih =>
    rw [List.cons_append, endFrom?_cons, endFrom?_same (hstep _), Text.byteLength_cons,
      ← Nat.add_assoc]
    exact ih hcomplete hblocks _ _ _

/-- An anchored matcher matches what leads from its first step to where it is complete and stops. -/
theorem matchEnd?_of_leads (hanchored : m.isAnchored = true)
    (hfirst : ∀ text, Same ((Front.ofRemainders ⟨none, text, 0⟩ [[m]]).remainders c) rs)
    (h : Leads rs text rs') (hcomplete : Completes rs')
    (hblocks : ∀ c ∈ rest.head?, Blocks rs' c) :
    Regex.matchEnd? ⟨anchored, m.search⟩ (c :: text ++ rest) =
      some (Text.byteLength (c :: text)) := by
  rw [matchEnd?_of_isAnchored hanchored, List.cons_append, endFrom?_cons,
    endFrom?_same (hfirst _), endFrom?_of_leads h hcomplete hblocks, Nat.zero_add,
    Text.byteLength_cons]

/-- An anchored matcher matches nothing, if it waits for another scalar. -/
theorem matchEnd?_eq_none (hanchored : m.isAnchored = true)
    (hfirst : ∀ text, (Front.ofRemainders ⟨none, text, 0⟩ [[m]]).remainders c = [])
    (hcomplete : ∀ text, (Front.ofRemainders ⟨none, text, 0⟩ [[m]]).complete = false) :
    Regex.matchEnd? ⟨anchored, m.search⟩ (c :: text) = none := by
  rw [matchEnd?_of_isAnchored hanchored, endFrom?_cons, hfirst, hcomplete,
    if_neg Bool.false_ne_true]
  cases text <;> rfl

/-! ## What is matched -/

/-- Left at some places one behind the other, the remainders come to a complete match behind the
text. -/
inductive Accepts : List Remainder → Text → Prop
  | nil {rs : List Remainder} (place : Place)
      (complete : (Front.ofRemainders place rs).complete = true) : Accepts rs []
  | cons {rs : List Remainder} {c : Char} {cs : Text} (place : Place)
      (rest : Accepts ((Front.ofRemainders place rs).remainders c) cs) : Accepts rs (c :: cs)

/-- Where nothing is left, nothing is matched. -/
theorem not_accepts_nil : ¬ Accepts [] text := by
  intro h
  induction text with
  | nil =>
    cases h with
    | nil _ hcomplete => cases hcomplete
  | cons c cs ih =>
    cases h with
    | cons _ hrest => exact ih hrest

theorem Accepts.same (h : Accepts rs text) (hsame : Same rs rs') : Accepts rs' text := by
  cases h with
  | nil place hcomplete => exact .nil place (by rwa [← hsame.2 place])
  | cons place hrest => exact .cons place (by rwa [← hsame.2 place])

/-- What the remainders match, they accept. -/
theorem endFrom?_accepts {best : Option Place} {before : Option Char} {offset : Nat} {stop : Place}
    (h : endFrom? best before offset text rs = some stop) :
    best = some stop ∨ ∃ passed, text = passed ++ stop.rest ∧
      stop.offset = offset + passed.byteLength ∧ Accepts rs passed := by
  induction text generalizing best before offset rs with
  | nil =>
    cases rs with
    | nil => exact .inl h
    | cons r rs =>
      simp only [endFrom?] at h
      split at h
      · next hcomplete =>
        cases h
        exact .inr ⟨[], rfl, rfl, .nil _ hcomplete⟩
      · exact .inl h
  | cons c cs ih =>
    cases rs with
    | nil => exact .inl h
    | cons r rs =>
      rw [endFrom?_cons] at h
      rcases ih h with hbest | ⟨passed, hcs, hoffset, haccepts⟩
      · split at hbest
        · next hcomplete =>
          cases hbest
          exact .inr ⟨[], rfl, rfl, .nil _ hcomplete⟩
        · exact .inl hbest
      · refine .inr ⟨c :: passed, by rw [hcs, List.cons_append], ?_, .cons _ haccepts⟩
        rw [hoffset, Text.byteLength_cons, Nat.add_assoc]

/-- Behind the first scalar of what an anchored matcher matches, the matcher accepts the others. -/
theorem accepts_of_matchEnd? (hanchored : m.isAnchored = true) {n : Nat}
    (h : Regex.matchEnd? ⟨anchored, m.search⟩ (c :: text) = some n) (hn : 0 < n) :
    ∃ passed rest, text = passed ++ rest ∧ n = Text.byteLength (c :: passed) ∧
      Accepts ((Front.ofRemainders ⟨none, c :: text, 0⟩ [[m]]).remainders c) passed := by
  rw [matchEnd?_of_isAnchored hanchored, endFrom?_cons] at h
  obtain ⟨stop, hstop, rfl⟩ := Option.map_eq_some_iff.1 h
  rcases endFrom?_accepts hstop with hbest | ⟨passed, htext, hoffset, haccepts⟩
  · -- the empty match at the start is no match
    split at hbest
    · cases hbest
      exact absurd hn (Nat.lt_irrefl 0)
    · cases hbest
  · refine ⟨passed, stop.rest, htext, ?_, haccepts⟩
    rw [hoffset, Text.byteLength_cons, Nat.zero_add]

end PredictiveParsing.Regex
