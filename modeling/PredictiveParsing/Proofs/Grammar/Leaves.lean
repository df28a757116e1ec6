import PredictiveParsing.Proofs.Expression.Leaves
import PredictiveParsing.Proofs.Grammar.Depth

/-!
# No token is lost

Where no action is installed below a parser, the leaves of its result are tokens that its run has
committed, in the same order and each at most once: rounds that fail, members that are skipped and
operands that an operator takes never make a token appear twice. Where sequences keep all of their
members, and tables have neither brackets nor skipped types, the leaves are all the committed
tokens, so that their texts make what has been read (`Parser.run_leaves`).
-/

namespace PredictiveParsing

open ParseM

variable {V : Type}

/-- The combinator at the top has no action. -/
def Parser.Passive : Parser V → Prop
  | tuple _ action => action = none
  | expr o => o.Passive
  | _ => True

/-- The combinator at the top drops no token that its parts keep. -/
def Parser.Preserving : Parser V → Prop
  | tuple members _ => ∀ m ∈ members, m.mark = .element
  | expr o => o.Preserving
  | _ => True

section

variable {g : Grammar V} {p q : Parser V} {whole : Prop} {c d : Context} {r : Result V}

/-- A combinator without actions gathers leaves if its parts do. -/
theorem Parser.top_gathers {run : Parser V → ParseM (Result V)}
    (hpassive : ∀ q, g.Reaches p q → q.Passive)
    (hpreserving : whole → ∀ q, g.Reaches p q → q.Preserving)
    (hrun : ∀ q, g.Reaches p q → (run q).Gathers whole) (hq : g.Reaches p q) :
    (q.top g run).Gathers whole := by
  cases q with
  | token type => exact expectToken_gathers type
  | endOfInput => exact expectEnd_gathers
  | tuple members action =>
    obtain rfl : action = none := hpassive _ hq
    exact sequence_gathers (fun m hm => hrun _ (hq.child (.member hm)))
      fun hw => hpreserving hw _ hq
  | choice slot alternatives =>
    exact choice_gathers fun r hr => hrun r (hq.child (.alternative hr))
  | many body minimum => exact repetition_gathers (hrun body (hq.child .repeated)) minimum
  | embed body => exact hrun body (hq.child .embedded)
  | expr o =>
    refine Operators.expression_gathers ⟨hpassive _ hq, fun hw => hpreserving hw _ hq, ?_⟩
    exact fun type r hr => hrun r (hq.child (.role (Operators.mem_of_role? hr)))
  | ref name =>
    intro c
    refine .bind (.trusting (fun r hr => ?_) fun _ => ⟨[], .refl c⟩)
    exact hrun r (hq.rule (Grammar.rule?_of_resolve hr)) c

/-- Below a parser without actions every run gathers leaves, at every depth. -/
theorem Parser.runWithin_gathers (hpassive : ∀ q, g.Reaches p q → q.Passive)
    (hpreserving : whole → ∀ q, g.Reaches p q → q.Preserving) (depth : Nat)
    (hq : g.Reaches p q) : (q.runWithin g depth).Gathers whole := by
  induction depth generalizing q with
  | zero => exact fun c => .throw ⟨[], .refl c⟩
  | succ depth ih =>
    rw [runWithin_succ]
    exact top_gathers hpassive hpreserving (fun _ => ih) hq

/-- Without actions, the leaves of a result are committed tokens: in order, and each used at most
once. If nothing is dropped either, they are all of them, and their texts are what the run has
read. -/
theorem Parser.run_leaves (hpassive : ∀ q, g.Reaches p q → q.Passive)
    (h : p.run g c = (.ok r, d)) :
    ∃ tokens, c.tokenizer.Commits tokens d.tokenizer ∧
      d.journal.commits = tokens.reverse ++ c.journal.commits ∧ r.leaves.Sublist tokens ∧
      ((∀ q, g.Reaches p q → q.Preserving) → r.leaves = tokens ∧
        c.tokenizer.cursor.rest =
          (r.leaves.map Token.text).flatten ++ d.tokenizer.cursor.rest) := by
  have hgathers : (p.runWithin g (p.depthFor g c.tokenizer.cursor.rest.length)).Gathers
      (∀ q, g.Reaches p q → q.Preserving) := runWithin_gathers hpassive id _ .refl
  obtain ⟨tokens, htakes, hsub, hwhole⟩ := (hgathers c).result h
  refine ⟨tokens, htakes.commits, htakes.noted, hsub, fun hpreserving => ?_⟩
  have hleaves := hwhole hpreserving
  rw [hleaves]
  exact ⟨rfl, htakes.commits.texts⟩

end

/-! ## Products of differences -/

/-- Differences and negations of names, without brackets or blanks. -/
def Operators.differences (V P : Type) : Operators V P :=
  ⟨[("n", .atom none), ("-", .mixfix 2 1 .left none none)], []⟩

theorem Operators.differences_passive (V P : Type) : (differences V P).Passive := by
  intro type role h
  have hmem := mem_of_role? h
  simp only [differences, List.mem_cons, Prod.mk.injEq, List.not_mem_nil, or_false] at hmem
  rcases hmem with ⟨-, rfl⟩ | ⟨-, rfl⟩ <;> trivial

theorem Operators.differences_preserving (V P : Type) : (differences V P).Preserving := by
  refine ⟨rfl, fun type opening closing h => ?_⟩
  have hmem := mem_of_role? h
  simp [differences] at hmem

/-- Products of differences, up to the end of the input. -/
def Parser.products : Parser Unit :=
  .tuple [.element (.expr (.differences _ _)),
    .element (.many (.tuple [.element (.token "*"), .element (.expr (.differences _ _))] none) 0),
    .element .endOfInput] none

theorem Parser.products_keep {q : Parser Unit} (h : Grammar.empty.Reaches products q) :
    q.Passive ∧ q.Preserving := by
  have hmem := h.mem_parts
  simp only [products, Operators.differences, parts, membersParts, rolesParts, Member.element,
    Grammar.parts, Grammar.empty, List.flatMap_nil, List.append_nil, List.nil_append,
    List.cons_append, List.mem_cons, List.not_mem_nil, or_false] at hmem
  have hexpr := Operators.differences_passive Unit (Parser Unit)
  have hexpr' := Operators.differences_preserving Unit (Parser Unit)
  rcases hmem with rfl | rfl | rfl | rfl | rfl | rfl | rfl
  · exact ⟨rfl, by simp [Preserving]⟩
  · exact ⟨hexpr, hexpr'⟩
  · exact ⟨trivial, trivial⟩
  · exact ⟨rfl, by simp [Preserving]⟩
  · exact ⟨trivial, trivial⟩
  · exact ⟨hexpr, hexpr'⟩
  · exact ⟨trivial, trivial⟩

/-- The leaves of a product of differences are all that was read. -/
theorem Parser.products_run_leaves :
    ∃ r d, products.run .empty (Operators.arithmeticStart "n--n*n".toList) = (.ok r, d) ∧
      ∃ tokens, (Operators.arithmeticTokens "n--n*n".toList).Commits tokens d.tokenizer ∧
        d.journal.commits = tokens.reverse ∧ r.leaves = tokens ∧
        "n--n*n".toList = (r.leaves.map Token.text).flatten ++ d.tokenizer.cursor.rest := by
  obtain ⟨r, d, h⟩ := succeeds_iff.1 (by decide +kernel :
    succeeds (products.run .empty) (Operators.arithmeticStart "n--n*n".toList) = true)
  obtain ⟨tokens, hcommits, hnoted, -, hwhole⟩ := run_leaves (fun q hq => (products_keep hq).1) h
  obtain ⟨hleaves, hrest⟩ := hwhole fun q hq => (products_keep hq).2
  exact ⟨r, d, h, tokens, hcommits, hnoted.trans (List.append_nil _), hleaves, hrest⟩

end PredictiveParsing
