import PredictiveParsing.Proofs.Grammar.Depth
import PredictiveParsing.Proofs.Grammar.Standstill
import PredictiveParsing.Proofs.Nesting

/-!
# Choices that lose nothing

A choice looks at one token and never goes back. If the FIRST sets of its alternatives tell them
apart, nothing is lost by that: an alternative that would succeed and consume something is the one
that is run (`Parser.choice_consumes`), so that the choice finds what running all alternatives from
the same place would find. The next token selects at most one alternative (`Selects.unique`), so
their order is of no importance either.
-/

namespace PredictiveParsing

open ParseM

variable {V : Type}

/-- From the context, the parser succeeds with the result and leaves the tokenizer, having consumed
something. -/
def Parser.Consumes (g : Grammar V) (c : Context) (r : Result V) (t : Tokenizer) (p : Parser V) :
    Prop :=
  (∃ j, p.run g c = (.ok r, ⟨t, j⟩)) ∧ t ≠ c.tokenizer

/-- Runs all alternatives from the same place, one after the other, until one succeeds and has
consumed something. -/
def firstConsuming? (g : Grammar V) (c : Context) :
    List (Parser V) → Option (Result V × Tokenizer)
  | [] => none
  | p :: alternatives =>
    match p.run g c with
    | (.ok r, d) =>
      if d.tokenizer.position.offset = c.tokenizer.position.offset then
        firstConsuming? g c alternatives
      else some (r, d.tokenizer)
    | (.error _, _) => firstConsuming? g c alternatives

/-- The token selects the alternative: it accepts the token, or it can be empty and no alternative
accepts the token. -/
def Selects (g : Grammar V) (alternatives : List (Parser V)) (token : Token) (q : Parser V) :
    Prop :=
  q ∈ alternatives ∧ ∃ f, g.first q = .ok f ∧ (f.accepts token = true ∨ f.nullable = true ∧
    ∀ q' ∈ alternatives, ∀ f', g.first q' = .ok f' → f'.accepts token = false)

section

variable {g : Grammar V} {slot : Nat} {alternatives alternatives' : List (Parser V)}
  {firsts : List FirstSet} {c d : Context} {token : Token} {p p₀ q : Parser V} {r : Result V}
  {t : Tokenizer}

/-! ## Selection -/

/-- Alternatives that the FIRST sets tell apart are not selected by the same token. -/
theorem Selects.unique (hfirsts : alternatives.mapM g.first = .ok firsts)
    (hapart : FirstSet.TellApart firsts) {q' : Parser V} (h : Selects g alternatives token q)
    (h' : Selects g alternatives token q') : q = q' := by
  obtain ⟨hq, f, hf, hcase⟩ := h
  obtain ⟨hq', f', hf', hcase'⟩ := h'
  have hmem := mem_zip_mapM hfirsts hq hf
  have hmem' := mem_zip_mapM hfirsts hq' hf'
  rcases hcase with ha | ⟨hempty, hnone⟩
  · rcases hcase' with ha' | ⟨-, hnone'⟩
    · exact eq_of_mem_zip (hapart.accepts token) hmem hmem' ha ha'
    · rw [hnone' q hq f hf] at ha
      cases ha
  · rcases hcase' with ha' | ⟨hempty', -⟩
    · rw [hnone q' hq' f' hf'] at ha'
      cases ha'
    · exact eq_of_mem_zip hapart.empty hmem hmem' hempty hempty'

/-- Selection does not depend on the order of the alternatives. -/
theorem Selects.perm (hperm : alternatives.Perm alternatives')
    (h : Selects g alternatives token q) : Selects g alternatives' token q := by
  obtain ⟨hq, f, hf, hcase⟩ := h
  refine ⟨hperm.mem_iff.1 hq, f, hf, hcase.imp_right fun ⟨hempty, hnone⟩ => ⟨hempty, ?_⟩⟩
  exact fun q' hq' => hnone q' (hperm.mem_iff.2 hq')

/-- A choice runs an alternative that the next token selects, or rejects the token if it selects
none. -/
theorem chooseAlternative_selects (run : Parser V → ParseM (Result V))
    (hpeek : c.tokenizer.peek = .ok token) (hj : c.journal.Faithful g p₀)
    (hreach : g.Reaches p₀ (.choice slot alternatives))
    (hfirsts : alternatives.mapM g.first = .ok firsts) :
    ∃ j, j.Faithful g p₀ ∧
      ((∃ q, Selects g alternatives token q ∧
          chooseAlternative g run slot alternatives c = run q ⟨c.tokenizer, j⟩) ∨
        (∀ q, ¬Selects g alternatives token q) ∧ chooseAlternative g run slot alternatives c =
          (.error (.rejected (noAlternative token)), ⟨c.tokenizer, j⟩)) := by
  obtain ⟨j, hj', hcases⟩ := chooseAlternative_cases run hpeek hj hreach hfirsts
  -- what holds of no FIRST set in the list holds of that of no alternative
  have none_of_any {property : FirstSet → Bool} (h : firsts.any property = false) :
      ∀ q ∈ alternatives, ∀ f, g.first q = .ok f → property f = false := fun q hq f hf =>
    Bool.eq_false_iff.2 (List.any_eq_false.1 h f (List.of_mem_zip (mem_zip_mapM hfirsts hq hf)).2)
  refine ⟨j, hj', ?_⟩
  rcases hcases with ⟨q, f, hmem, hf, hrun⟩ | ⟨hnone, ⟨q, f, hmem, hf, hrun⟩ | ⟨hempty, hreject⟩⟩
  · exact .inl ⟨q, ⟨(List.of_mem_zip hmem).1, f, of_mem_zip_mapM hfirsts hmem, .inl hf⟩, hrun⟩
  · exact .inl ⟨q, ⟨(List.of_mem_zip hmem).1, f, of_mem_zip_mapM hfirsts hmem,
      .inr ⟨hf, none_of_any hnone⟩⟩, hrun⟩
  · refine .inr ⟨fun q ⟨hq, f, hf, hcase⟩ => ?_, hreject⟩
    rcases hcase with ha | ⟨hnullable, -⟩
    · rw [none_of_any hnone q hq f hf] at ha
      cases ha
    · rw [none_of_any hempty q hq f hf] at hnullable
      cases hnullable

/-! ## Runs of choices -/

/-- A choice runs its alternatives one level below itself. -/
theorem Parser.run_choice (g : Grammar V) (slot : Nat) (alternatives : List (Parser V))
    (c : Context) :
    ∃ depth, (choice slot alternatives).depthFor g c.tokenizer.cursor.rest.length = depth + 1 ∧
      (choice slot alternatives).run g c =
        chooseAlternative g (runWithin g depth) slot alternatives c := by
  obtain ⟨depth, hdepth⟩ : ∃ depth,
      (choice slot alternatives).depthFor g c.tokenizer.cursor.rest.length = depth + 1 :=
    Nat.exists_eq_add_one.2 (Nat.mul_pos (Nat.succ_pos _) (Nat.succ_pos _))
  refine ⟨depth, hdepth, ?_⟩
  show runWithin g _ _ c = _
  rw [hdepth]
  rfl

/-- The depth of a choice leaves enough for its alternatives. -/
theorem Parser.depthFor_lt_choice (g : Grammar V) (slot : Nat) (hq : q ∈ alternatives) (n : Nat) :
    q.depthFor g n < (choice slot alternatives).depthFor g n := by
  have hsize : q.size < (choice slot alternatives).size :=
    Nat.lt_succ_of_le (size_le_alternativesSize hq)
  exact Nat.mul_lt_mul_of_pos_left (by omega) (Nat.succ_pos n)

theorem Parser.alternativesSize_perm (hperm : alternatives.Perm alternatives') :
    alternativesSize alternatives = alternativesSize alternatives' := by
  induction hperm with
  | nil => rfl
  | cons p _ ih => exact congrArg (p.size + ·) ih
  | swap p q alternatives => exact Nat.add_left_comm _ _ _
  | trans _ _ ih ih' => exact ih.trans ih'

theorem Parser.depthFor_choice_perm {slot' : Nat} (hperm : alternatives.Perm alternatives')
    (n : Nat) :
    (choice slot alternatives).depthFor g n = (choice slot' alternatives').depthFor g n := by
  unfold depthFor size
  rw [alternativesSize_perm hperm]

/-- Without a token to look at, a choice is at fault. -/
theorem chooseAlternative_of_peek_error {run : Parser V → ParseM (Result V)} {e : Fault}
    (hpeek : c.tokenizer.peek = .error e) :
    chooseAlternative g run slot alternatives c = (.error (.fault e), c) := by
  show (trust c.tokenizer.peek >>= _) c = _
  rw [hpeek]
  rfl

/-- A run that consumes something begins in front of a token. -/
theorem Parser.Consumes.peek (h : p.Consumes g c r t) (hj : c.journal.Faithful g p) :
    ∃ token, c.tokenizer.peek = .ok token := by
  obtain ⟨⟨j, hrun⟩, hmoved⟩ := h
  have halike : Alike c.tokenizer (.trusted g p) (.trusted g p) c c :=
    ⟨rfl, .refl _, hj, hj⟩
  obtain ⟨outcome, c', d', hc, -, hbehind⟩ := (run_follows .refl).ends_alike halike False.elim
  cases hrun.symm.trans hc
  obtain ⟨tokens, hcommits, -⟩ := hbehind.behind
  cases hcommits with
  | nil => exact absurd rfl hmoved
  | cons hm _ => exact ⟨_, hm.peeked⟩

/-- If an alternative alone would consume something, the choice does the same: the next token
selects that alternative. -/
theorem Parser.choice_consumes_of_alternative (hfirsts : alternatives.mapM g.first = .ok firsts)
    (hapart : FirstSet.TellApart firsts) (hj : c.journal.Faithful g (.choice slot alternatives))
    (hq : q ∈ alternatives) (h : q.Consumes g c r t) :
    (choice slot alternatives).Consumes g c r t := by
  have hreach : g.Reaches (.choice slot alternatives) q := .child .refl (.alternative hq)
  obtain ⟨token, hpeek⟩ := h.peek (hj.below hreach)
  obtain ⟨⟨jq, hrun⟩, hmoved⟩ := h
  obtain ⟨f, hf⟩ := exists_mapM_iff.1 ⟨firsts, hfirsts⟩ q hq
  have hselects : Selects g alternatives token q :=
    ⟨hq, f, hf, .inl (accepts_of_run hf (hj.below hreach) hpeek hrun hmoved)⟩
  obtain ⟨depth, hdepth, hchoice⟩ := run_choice g slot alternatives c
  obtain ⟨j, hj', ⟨q', hselects', hchoose⟩ | ⟨hnone, -⟩⟩ :=
    chooseAlternative_selects (runWithin g depth) hpeek hj .refl hfirsts
  · cases hselects'.unique hfirsts hapart hselects
    -- the choice runs the alternative at another depth, at which it answers the same
    have hle : q.depthFor g c.tokenizer.cursor.rest.length ≤ depth := by
      have hlt := depthFor_lt_choice g slot hq c.tokenizer.cursor.rest.length
      omega
    have halike : Alike c.tokenizer (.trusted g q) (.trusted g q) c ⟨c.tokenizer, j⟩ :=
      ⟨rfl, .refl _, hj.below hreach, hj'.below hreach⟩
    obtain ⟨outcome, c', d', hc, hd, hend⟩ :=
      (runWithin_follows (.inr ⟨trivial, hle⟩) .refl).ends_alike halike fun _ => by
        change (q.run g c).1 ≠ _
        rw [hrun]
        nofun
    cases hrun.symm.trans hc
    have htokenizer : d'.tokenizer = t := hend.tokenizer
    refine ⟨⟨d'.journal, ?_⟩, hmoved⟩
    rw [hchoice, hchoose, hd, ← htokenizer]
  · exact absurd hselects (hnone q)

/-- A choice that consumes something does what one of its alternatives alone would. -/
theorem Parser.alternative_consumes_of_choice (hfirsts : alternatives.mapM g.first = .ok firsts)
    (hj : c.journal.Faithful g (.choice slot alternatives))
    (h : (choice slot alternatives).Consumes g c r t) :
    ∃ q ∈ alternatives, q.Consumes g c r t := by
  obtain ⟨token, hpeek⟩ := h.peek hj
  obtain ⟨⟨jr, hrun⟩, hmoved⟩ := h
  obtain ⟨depth, -, hchoice⟩ := run_choice g slot alternatives c
  rw [hchoice] at hrun
  obtain ⟨j, hj', ⟨q, hselects, hchoose⟩ | ⟨-, hreject⟩⟩ :=
    chooseAlternative_selects (runWithin g depth) hpeek hj .refl hfirsts
  · rw [hchoose] at hrun
    have hreach : g.Reaches (.choice slot alternatives) q := .child .refl (.alternative hselects.1)
    have halike : Alike c.tokenizer (.trusted g q) (.trusted g q) ⟨c.tokenizer, j⟩ c :=
      ⟨rfl, .refl _, hj'.below hreach, hj.below hreach⟩
    obtain ⟨outcome, c', d', hc, hd, hend⟩ := run_of_runWithin halike <| by
      unfold ParseM.Answers
      rw [hrun]
      nofun
    cases hrun.symm.trans hc
    have htokenizer : d'.tokenizer = t := hend.tokenizer
    exact ⟨q, hselects.1, ⟨d'.journal, by rw [hd, ← htokenizer]⟩, hmoved⟩
  · rw [hreject] at hrun
    cases hrun

/-- Choices with the same alternatives in another order end alike. -/
theorem Parser.choice_perm {slot' : Nat} (hfirsts : alternatives.mapM g.first = .ok firsts)
    (hapart : FirstSet.TellApart firsts) (hperm : alternatives.Perm alternatives')
    (hj : c.journal.Faithful g (.choice slot alternatives))
    (hj' : d.journal.Faithful g (.choice slot' alternatives'))
    (hsame : d.tokenizer = c.tokenizer) :
    ((choice slot' alternatives').run g d).1 = ((choice slot alternatives).run g c).1 ∧
      ((choice slot' alternatives').run g d).2.tokenizer =
        ((choice slot alternatives).run g c).2.tokenizer := by
  obtain ⟨depth, hdepth, hchoice⟩ := run_choice g slot alternatives c
  obtain ⟨depth', hdepth', hchoice'⟩ := run_choice g slot' alternatives' d
  have hlevel : depth' = depth := by
    rw [hsame, depthFor_choice_perm hperm.symm, hdepth] at hdepth'
    exact (Nat.succ.inj hdepth').symm
  rw [hchoice, hchoice', hlevel]
  cases hpeek : c.tokenizer.peek with
  | error e =>
    rw [chooseAlternative_of_peek_error hpeek,
      chooseAlternative_of_peek_error (by rw [hsame, hpeek])]
    exact ⟨rfl, hsame⟩
  | ok token =>
    obtain ⟨firsts', hfirsts'⟩ : ∃ firsts', alternatives'.mapM g.first = .ok firsts' :=
      exists_mapM_iff.2 fun q hq => exists_mapM_iff.1 ⟨firsts, hfirsts⟩ q (hperm.mem_iff.2 hq)
    obtain ⟨j, hfaithful, hcase⟩ :=
      chooseAlternative_selects (runWithin g depth) hpeek hj .refl hfirsts
    obtain ⟨j', hfaithful', hcase'⟩ :=
      chooseAlternative_selects (runWithin g depth) (by rw [hsame, hpeek]) hj' .refl hfirsts'
    rcases hcase with ⟨q, hq, hrun⟩ | ⟨hnone, hreject⟩
    · rcases hcase' with ⟨q', hq', hrun'⟩ | ⟨hnone', -⟩
      · cases (hq'.perm hperm.symm).unique hfirsts hapart hq
        have halike : Alike c.tokenizer (.trusted g q) (.trusted g q) ⟨c.tokenizer, j⟩
            ⟨d.tokenizer, j'⟩ :=
          ⟨hsame, .refl _, hfaithful.below (.child .refl (.alternative hq.1)),
            hfaithful'.below (.child .refl (.alternative hq'.1))⟩
        obtain ⟨outcome, c', d', hc, hd, hend⟩ :=
          (runWithin_follows (.inl rfl) .refl).ends_alike halike False.elim
        rw [hrun, hrun', hc, hd]
        exact ⟨rfl, hend.tokenizer⟩
      · exact absurd (hq.perm hperm) (hnone' q)
    · rcases hcase' with ⟨q', hq', -⟩ | ⟨-, hreject'⟩
      · exact absurd (hq'.perm hperm.symm) (hnone q')
      · rw [hreject, hreject']
        exact ⟨rfl, hsame⟩

/-! ## Backtracking -/

/-- What running the alternatives one after the other finds is what one of them does. -/
theorem consumes_of_firstConsuming? (h : firstConsuming? g c alternatives = some (r, t)) :
    ∃ q ∈ alternatives, q.Consumes g c r t := by
  induction alternatives with
  | nil => cases h
  | cons p alternatives ih =>
    have later (h : firstConsuming? g c alternatives = some (r, t)) :
        ∃ q ∈ p :: alternatives, q.Consumes g c r t := by
      obtain ⟨q, hq, hconsumes⟩ := ih h
      exact ⟨q, .tail _ hq, hconsumes⟩
    unfold firstConsuming? at h
    split at h
    · next r' d hrun =>
      split at h
      · exact later h
      · next hmoved =>
        cases h
        refine ⟨p, .head _, ⟨d.journal, hrun⟩, fun hsame => hmoved ?_⟩
        rw [hsame]
    · exact later h

/-- Running the alternatives one after the other finds one that consumes something, if there is
one. -/
theorem firstConsuming?_isSome (hq : q ∈ alternatives) (h : q.Consumes g c r t) :
    ∃ found, firstConsuming? g c alternatives = some found := by
  induction alternatives with
  | nil => cases hq
  | cons p alternatives ih =>
    unfold firstConsuming?
    rcases List.mem_cons.1 hq with rfl | hq
    · obtain ⟨⟨j, hrun⟩, hmoved⟩ := h
      rw [hrun]
      have hleads := (Parser.runWithin_advances g _ q).leadsTo hrun
      exact ⟨(r, t), if_neg fun hsame => hmoved (hleads.eq_of_offset hsame)⟩
    · split
      · split
        · exact ih hq
        · exact ⟨_, rfl⟩
      · exact ih hq

/-- Where FIRST sets tell the alternatives apart, prediction loses nothing. What an alternative alone
would consume the choice consumes, with the same result. The same alternatives in another order end
alike. And the choice consumes what running all alternatives from the same place would find. -/
theorem Parser.choice_consumes (hfirsts : alternatives.mapM g.first = .ok firsts)
    (hapart : FirstSet.TellApart firsts) (hj : c.journal.Faithful g (.choice slot alternatives)) :
    (∀ q ∈ alternatives, ∀ r t, q.Consumes g c r t →
      (choice slot alternatives).Consumes g c r t) ∧
    (∀ slot' alternatives' d, alternatives.Perm alternatives' → d.tokenizer = c.tokenizer →
      d.journal.Faithful g (.choice slot' alternatives') →
      ((choice slot' alternatives').run g d).1 = ((choice slot alternatives).run g c).1 ∧
        ((choice slot' alternatives').run g d).2.tokenizer =
          ((choice slot alternatives).run g c).2.tokenizer) ∧
    ∀ r t, (choice slot alternatives).Consumes g c r t ↔
      firstConsuming? g c alternatives = some (r, t) := by
  have hall : ∀ q ∈ alternatives, ∀ r t, q.Consumes g c r t →
      (choice slot alternatives).Consumes g c r t := fun q hq r t =>
    choice_consumes_of_alternative hfirsts hapart hj hq
  refine ⟨hall, fun slot' alternatives' d hperm hsame hj' => ?_, fun r t => ⟨fun h => ?_, fun h => ?_⟩⟩
  · exact choice_perm hfirsts hapart hperm hj hj' hsame
  · obtain ⟨q, hq, hconsumes⟩ := alternative_consumes_of_choice hfirsts hj h
    obtain ⟨⟨r', t'⟩, hfound⟩ := firstConsuming?_isSome hq hconsumes
    -- what is found is also what the choice does, and that is one thing only
    obtain ⟨q', hq', hconsumes'⟩ := consumes_of_firstConsuming? hfound
    obtain ⟨⟨j, hrun⟩, -⟩ := h
    obtain ⟨⟨j', hrun'⟩, -⟩ := hall q' hq' r' t' hconsumes'
    cases hrun.symm.trans hrun'
    exact hfound
  · obtain ⟨q, hq, hconsumes⟩ := consumes_of_firstConsuming? h
    exact hall q hq r t hconsumes

end

/-- A sign in front of a digit. -/
def signedDigit : Tokenizer := unsignedDigit.withInput ['-', '7']

/-- In front of a sign, an optional sign consumes it, because the alternative for the sign alone
would, and it does so in whichever order the alternatives stand. -/
theorem optionalSign_choice_consumes :
    ∃ r t, (Parser.choice 0 [.token "-", .tuple [] none]).Consumes optionalSign
        ⟨signedDigit, .forgetful⟩ r t ∧
      ((Parser.choice 1 [.tuple [] none, .token "-"]).run optionalSign
        ⟨signedDigit, .forgetful⟩).2.tokenizer =
      ((Parser.choice 0 [.token "-", .tuple [] none]).run optionalSign
        ⟨signedDigit, .forgetful⟩).2.tokenizer := by
  have hfirsts : [Parser.token "-", .tuple [] none].mapM optionalSign.first =
      .ok [⟨[.token "-"], false⟩, ⟨[], true⟩] := rfl
  have hapart : FirstSet.TellApart [⟨[.token "-"], false⟩, ⟨[], true⟩] :=
    ⟨by simp, by simp⟩
  have hj : (Context.mk signedDigit .forgetful).journal.Faithful optionalSign
      (.choice 0 [.token "-", .tuple [] none]) := .forgetful
  obtain ⟨hall, hperm, -⟩ := Parser.choice_consumes hfirsts hapart hj
  refine ⟨_, _, hall (.token "-") (.head _) _ _ ⟨⟨_, rfl⟩, fun h => ?_⟩, ?_⟩
  · cases congrArg Tokenizer.cursor h
  exact (hperm 1 _ _ (.swap _ _ _) rfl .forgetful).2

end PredictiveParsing
