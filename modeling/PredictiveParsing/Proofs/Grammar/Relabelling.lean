import PredictiveParsing.Proofs.Grammar.FirstSets
import PredictiveParsing.Proofs.Grammar.Reaching

/-!
# Copies of parsers

A copy of a parser has choices of its own: `Parser.relabel` gives them consecutive slots
(`Parser.ownChoices_relabel`). Only the choices in operator tables are shared with the original
(`Parser.mem_parts_relabel`). Slots do not count for FIRST sets, so that a copy has those of the
original (`Parser.first_relabel`).
-/

namespace PredictiveParsing

namespace Parser

variable {V : Type}

/-! ## The choices that are copied -/

mutual

/-- The choices outside of operator tables, each with its slot and its alternatives. -/
def ownChoices : Parser V → List (Nat × List (Parser V))
  | tuple members _ => membersOwnChoices members
  | choice slot alternatives => (slot, alternatives) :: alternativesOwnChoices alternatives
  | many body _ | embed body => body.ownChoices
  | _ => []

/-- The choices outside of tables in the members of a sequence. -/
def membersOwnChoices : List (Member (Parser V)) → List (Nat × List (Parser V))
  | [] => []
  | ⟨_, p⟩ :: members => p.ownChoices ++ membersOwnChoices members

/-- The choices outside of tables in the alternatives of a choice. -/
def alternativesOwnChoices : List (Parser V) → List (Nat × List (Parser V))
  | [] => []
  | p :: alternatives => p.ownChoices ++ alternativesOwnChoices alternatives

end

mutual

theorem slots_eq (p : Parser V) : p.slots = p.ownChoices.map Prod.fst := by
  cases p with
  | token | endOfInput | ref | expr => rfl
  | tuple members => exact membersSlots_eq members
  | choice slot alternatives => exact congrArg (slot :: ·) (alternativesSlots_eq alternatives)
  | many body | embed body => exact slots_eq body

theorem membersSlots_eq (members : List (Member (Parser V))) :
    membersSlots members = (membersOwnChoices members).map Prod.fst := by
  cases members with
  | nil => rfl
  | cons m members =>
    show m.parser.slots ++ membersSlots members = (m.parser.ownChoices ++ _).map Prod.fst
    rw [List.map_append, slots_eq m.parser, membersSlots_eq members]

theorem alternativesSlots_eq (alternatives : List (Parser V)) :
    alternativesSlots alternatives = (alternativesOwnChoices alternatives).map Prod.fst := by
  cases alternatives with
  | nil => rfl
  | cons p alternatives =>
    show p.slots ++ alternativesSlots alternatives = (p.ownChoices ++ _).map Prod.fst
    rw [List.map_append, slots_eq p, alternativesSlots_eq alternatives]

end

mutual

theorem mem_parts_of_ownChoices {slot : Nat} {alternatives : List (Parser V)} (p : Parser V)
    (h : (slot, alternatives) ∈ p.ownChoices) : .choice slot alternatives ∈ p.parts := by
  cases p with
  | token | endOfInput | ref | expr => cases h
  | tuple members => exact .tail _ (mem_membersParts_of_ownChoices members h)
  | choice slot' alternatives' =>
    rcases List.mem_cons.1 h with h | h
    · cases h
      exact .head _
    · exact .tail _ (mem_alternativesParts_of_ownChoices alternatives' h)
  | many body | embed body => exact .tail _ (mem_parts_of_ownChoices body h)

theorem mem_membersParts_of_ownChoices {slot : Nat} {alternatives : List (Parser V)}
    (members : List (Member (Parser V))) (h : (slot, alternatives) ∈ membersOwnChoices members) :
    .choice slot alternatives ∈ membersParts members := by
  cases members with
  | nil => cases h
  | cons m members =>
    rcases List.mem_append.1 h with h | h
    · exact List.mem_append_left _ (mem_parts_of_ownChoices m.parser h)
    · exact List.mem_append_right _ (mem_membersParts_of_ownChoices members h)

theorem mem_alternativesParts_of_ownChoices {slot : Nat} {alternatives : List (Parser V)}
    (ps : List (Parser V)) (h : (slot, alternatives) ∈ alternativesOwnChoices ps) :
    .choice slot alternatives ∈ alternativesParts ps := by
  cases ps with
  | nil => cases h
  | cons p ps =>
    rcases List.mem_append.1 h with h | h
    · exact List.mem_append_left _ (mem_parts_of_ownChoices p h)
    · exact List.mem_append_right _ (mem_alternativesParts_of_ownChoices ps h)

end

/-! ## Slots of copies -/

/-- The copy of a choice that is given a slot; its alternatives take the slots behind it. -/
def copiedChoice (c : (Nat × List (Parser V)) × Nat) : Nat × List (Parser V) :=
  (c.2, (relabelAlternatives (c.2 + 1) c.1.2).1)

mutual

/-- A copy takes as many slots as the original has choices. -/
theorem relabel_next (n : Nat) (p : Parser V) : (p.relabel n).2 = n + p.ownChoices.length := by
  cases p with
  | token | endOfInput | ref | expr => rfl
  | tuple members => exact relabelMembers_next n members
  | choice slot alternatives =>
    show (relabelAlternatives (n + 1) alternatives).2 = n + (_ + 1)
    rw [relabelAlternatives_next (n + 1) alternatives]
    omega
  | many body | embed body => exact relabel_next n body

theorem relabelMembers_next (n : Nat) (members : List (Member (Parser V))) :
    (relabelMembers n members).2 = n + (membersOwnChoices members).length := by
  cases members with
  | nil => rfl
  | cons m members =>
    show (relabelMembers (m.parser.relabel n).2 members).2 = n + (m.parser.ownChoices ++ _).length
    rw [relabelMembers_next _ members, relabel_next n m.parser, List.length_append, Nat.add_assoc]

theorem relabelAlternatives_next (n : Nat) (alternatives : List (Parser V)) :
    (relabelAlternatives n alternatives).2 = n + (alternativesOwnChoices alternatives).length := by
  cases alternatives with
  | nil => rfl
  | cons p alternatives =>
    show (relabelAlternatives (p.relabel n).2 alternatives).2 = n + (p.ownChoices ++ _).length
    rw [relabelAlternatives_next _ alternatives, relabel_next n p, List.length_append,
      Nat.add_assoc]

end

mutual

/-- The choices of a copy are those of the original, with consecutive slots. -/
theorem ownChoices_relabel (n : Nat) (p : Parser V) :
    (p.relabel n).1.ownChoices = (p.ownChoices.zipIdx n).map copiedChoice := by
  cases p with
  | token | endOfInput | ref | expr => rfl
  | tuple members => exact membersOwnChoices_relabel n members
  | choice slot alternatives =>
    exact congrArg (_ :: ·) (alternativesOwnChoices_relabel (n + 1) alternatives)
  | many body | embed body => exact ownChoices_relabel n body

theorem membersOwnChoices_relabel (n : Nat) (members : List (Member (Parser V))) :
    membersOwnChoices (relabelMembers n members).1 =
      ((membersOwnChoices members).zipIdx n).map copiedChoice := by
  cases members with
  | nil => rfl
  | cons m members =>
    show (m.parser.relabel n).1.ownChoices ++
        membersOwnChoices (relabelMembers (m.parser.relabel n).2 members).1 =
      ((m.parser.ownChoices ++ _).zipIdx n).map copiedChoice
    rw [List.zipIdx_append, List.map_append, ownChoices_relabel n m.parser,
      membersOwnChoices_relabel _ members, relabel_next]

theorem alternativesOwnChoices_relabel (n : Nat) (alternatives : List (Parser V)) :
    alternativesOwnChoices (relabelAlternatives n alternatives).1 =
      ((alternativesOwnChoices alternatives).zipIdx n).map copiedChoice := by
  cases alternatives with
  | nil => rfl
  | cons p alternatives =>
    show (p.relabel n).1.ownChoices ++
        alternativesOwnChoices (relabelAlternatives (p.relabel n).2 alternatives).1 =
      ((p.ownChoices ++ _).zipIdx n).map copiedChoice
    rw [List.zipIdx_append, List.map_append, ownChoices_relabel n p,
      alternativesOwnChoices_relabel _ alternatives, relabel_next]

end

theorem slots_relabel (n : Nat) (p : Parser V) :
    (p.relabel n).1.slots = (p.ownChoices.zipIdx n).map Prod.snd := by
  rw [slots_eq, ownChoices_relabel, List.map_map]
  rfl

/-- The slots of a copy are all those that it takes. -/
theorem mem_slots_relabel {n slot : Nat} {p : Parser V} :
    slot ∈ (p.relabel n).1.slots ↔ n ≤ slot ∧ slot < (p.relabel n).2 := by
  rw [slots_relabel, List.zipIdx_map_snd, List.mem_range'_1, relabel_next]

/-- The slots of a copy beside those of the original. -/
theorem zip_slots_relabel (n : Nat) (p : Parser V) :
    p.slots.zip (p.relabel n).1.slots = (p.ownChoices.zipIdx n).map fun c => (c.1.1, c.2) := by
  have hp : p.slots = (p.ownChoices.zipIdx n).map fun c => c.1.1 := by
    show _ = (p.ownChoices.zipIdx n).map (Prod.fst ∘ Prod.fst)
    rw [← List.map_map, List.zipIdx_map_fst, slots_eq]
  rw [hp, slots_relabel, List.zip_map']

section

variable {n slot : Nat} {p : Parser V} {alternatives : List (Parser V)}

/-- A choice of a copy is the copy of a choice. -/
theorem copied_of_mem (h : (slot, alternatives) ∈ (p.relabel n).1.ownChoices) :
    n ≤ slot ∧ ∃ original, p.ownChoices[slot - n]? = some original ∧
      alternatives = (relabelAlternatives (slot + 1) original.2).1 := by
  rw [ownChoices_relabel] at h
  obtain ⟨⟨original, slot'⟩, hmem, heq⟩ := List.mem_map.1 h
  obtain ⟨hle, hget⟩ := List.mk_mem_zipIdx_iff_le_and_getElem?_sub.1 hmem
  cases heq
  exact ⟨hle, original, hget, rfl⟩

/-- The slots of a copy are those that were free. -/
theorem slot_of_mem_copy (h : (slot, alternatives) ∈ (p.relabel n).1.ownChoices) :
    n ≤ slot ∧ slot < (p.relabel n).2 := by
  obtain ⟨hle, original, hget, -⟩ := copied_of_mem h
  have hlt := (List.getElem?_eq_some_iff.1 hget).1
  rw [relabel_next]
  omega

/-- A copy tells its choices apart. -/
theorem eq_of_mem_copy {alternatives' : List (Parser V)}
    (h : (slot, alternatives) ∈ (p.relabel n).1.ownChoices)
    (h' : (slot, alternatives') ∈ (p.relabel n).1.ownChoices) : alternatives = alternatives' := by
  obtain ⟨-, original, hget, rfl⟩ := copied_of_mem h
  obtain ⟨-, original', hget', rfl⟩ := copied_of_mem h'
  rw [hget] at hget'
  cases hget'
  rfl

/-- Beside the slot of a choice stands that of its copy. -/
theorem copied_of_mem_zip {slot' : Nat} (h : (slot, slot') ∈ p.slots.zip (p.relabel n).1.slots) :
    ∃ alternatives, .choice slot alternatives ∈ p.parts ∧
      (slot', (relabelAlternatives (slot' + 1) alternatives).1) ∈ (p.relabel n).1.ownChoices := by
  rw [zip_slots_relabel] at h
  obtain ⟨⟨⟨_, alternatives⟩, _⟩, hmem, heq⟩ := List.mem_map.1 h
  cases heq
  refine ⟨alternatives, mem_parts_of_ownChoices p ?_, ?_⟩
  · exact List.fst_mem_of_mem_zipIdx hmem
  · rw [ownChoices_relabel]
    exact List.mem_map.2 ⟨_, hmem, rfl⟩

end

mutual

/-- A choice in a copy is one of those that have been copied, or is shared with the original. -/
theorem mem_parts_relabel {slot : Nat} {alternatives : List (Parser V)} (n : Nat) (p : Parser V)
    (h : .choice slot alternatives ∈ (p.relabel n).1.parts) :
    (slot, alternatives) ∈ (p.relabel n).1.ownChoices ∨ .choice slot alternatives ∈ p.parts := by
  cases p with
  | token | endOfInput | ref | expr => exact .inr h
  | tuple members =>
    rcases List.mem_cons.1 h with h | h
    · cases h
    · exact (mem_membersParts_relabel n members h).imp_right (.tail _)
  | choice slot' alternatives' =>
    rcases List.mem_cons.1 h with h | h
    · cases h
      exact .inl (.head _)
    · exact (mem_alternativesParts_relabel (n + 1) alternatives' h).imp (.tail _) (.tail _)
  | many body | embed body =>
    rcases List.mem_cons.1 h with h | h
    · cases h
    · exact (mem_parts_relabel n body h).imp_right (.tail _)

theorem mem_membersParts_relabel {slot : Nat} {alternatives : List (Parser V)} (n : Nat)
    (members : List (Member (Parser V)))
    (h : .choice slot alternatives ∈ membersParts (relabelMembers n members).1) :
    (slot, alternatives) ∈ membersOwnChoices (relabelMembers n members).1 ∨
      .choice slot alternatives ∈ membersParts members := by
  cases members with
  | nil => cases h
  | cons m members =>
    rcases List.mem_append.1 h with h | h
    · exact (mem_parts_relabel n m.parser h).imp (List.mem_append_left _) (List.mem_append_left _)
    · exact (mem_membersParts_relabel _ members h).imp (List.mem_append_right _)
        (List.mem_append_right _)

theorem mem_alternativesParts_relabel {slot : Nat} {alternatives : List (Parser V)} (n : Nat)
    (ps : List (Parser V))
    (h : .choice slot alternatives ∈ alternativesParts (relabelAlternatives n ps).1) :
    (slot, alternatives) ∈ alternativesOwnChoices (relabelAlternatives n ps).1 ∨
      .choice slot alternatives ∈ alternativesParts ps := by
  cases ps with
  | nil => cases h
  | cons p ps =>
    rcases List.mem_append.1 h with h | h
    · exact (mem_parts_relabel n p h).imp (List.mem_append_left _) (List.mem_append_left _)
    · exact (mem_alternativesParts_relabel _ ps h).imp (List.mem_append_right _)
        (List.mem_append_right _)

end

/-! ## FIRST sets of copies -/

section

variable {rule : String → Except GrammarError FirstSet}

mutual

/-- A copy has the FIRST set of the original, or the same error. -/
theorem first_relabel (n : Nat) (p : Parser V) : (p.relabel n).1.first rule = p.first rule := by
  cases p with
  | token | endOfInput | ref | expr => rfl
  | tuple members => exact membersFirst_relabel n members
  | choice slot alternatives => exact alternativesFirst_relabel (n + 1) alternatives
  | many body minimum =>
    show ((body.relabel n).1.first rule >>= _) = (body.first rule >>= _)
    rw [first_relabel n body]
  | embed body => exact first_relabel n body

theorem membersFirst_relabel (n : Nat) (members : List (Member (Parser V))) :
    membersFirst rule (relabelMembers n members).1 = membersFirst rule members := by
  cases members with
  | nil => rfl
  | cons m members =>
    show ((m.parser.relabel n).1.first rule >>= fun f =>
        if f.nullable then
          membersFirst rule (relabelMembers (m.parser.relabel n).2 members).1 >>= _
        else _) = (m.parser.first rule >>= fun f =>
        if f.nullable then membersFirst rule members >>= _ else _)
    rw [first_relabel n m.parser, membersFirst_relabel _ members]

theorem alternativesFirst_relabel (n : Nat) (alternatives : List (Parser V)) :
    alternativesFirst rule (relabelAlternatives n alternatives).1 =
      alternativesFirst rule alternatives := by
  cases alternatives with
  | nil => rfl
  | cons p alternatives =>
    show ((p.relabel n).1.first rule >>= fun f =>
        alternativesFirst rule (relabelAlternatives (p.relabel n).2 alternatives).1 >>= _) =
      (p.first rule >>= fun f => alternativesFirst rule alternatives >>= _)
    rw [first_relabel n p, alternativesFirst_relabel _ alternatives]

end

/-- The copies of alternatives have the same FIRST sets one by one. -/
theorem mapM_first_relabel (n : Nat) (alternatives : List (Parser V)) :
    (relabelAlternatives n alternatives).1.mapM (first rule) =
      alternatives.mapM (first rule) := by
  induction alternatives generalizing n with
  | nil => rfl
  | cons p alternatives ih =>
    show ((p.relabel n).1 :: (relabelAlternatives (p.relabel n).2 alternatives).1).mapM _ = _
    rw [List.mapM_cons, List.mapM_cons, first_relabel n p, ih]

end

end Parser

end PredictiveParsing
