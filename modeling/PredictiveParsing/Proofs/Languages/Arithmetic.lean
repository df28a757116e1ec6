import PredictiveParsing.Proofs.Expression.Evaluation
import PredictiveParsing.Proofs.Languages.Numbers
import PredictiveParsing.Proofs.Lexing.Scanning

/-!
# Arithmetic expressions and how they are written

An expression is written with blanks and parentheses (`Rendering`). What is written scans to symbols
(`Rendering.scans`), and the tokens of these are those of a syntax tree (`Rendering.solid_symbols`).
With sufficient parentheses the tree is grouped as the expression is (`Rendering.grouped_tree`), and
it evaluates to the value of the expression, unless a divisor is zero (`Rendering.evaluate_tree`).
-/

namespace PredictiveParsing.Calculator

open Tokenizer

/-! ## Expressions -/

/-- The signs. -/
inductive Sign
  | plus
  | minus
deriving DecidableEq

/-- The operations. -/
inductive Operation
  | add
  | sub
  | mul
  | div
deriving DecidableEq

/-- Arithmetic expressions. -/
inductive Expression
  | number (literal : Literal)
  | signed (sign : Sign) (operand : Expression)
  | binary (operation : Operation) (left right : Expression)

/-- What a sign makes of a number. -/
def Sign.apply : Sign → Float → Float
  | plus, x => x
  | minus, x => -x

/-- What an operation makes of two numbers. -/
def Operation.apply : Operation → Float → Float → Float
  | add, x, y => x + y
  | sub, x, y => x - y
  | mul, x, y => x * y
  | div, x, y => x / y

/-- The operation does not have the number as its right operand. -/
def Operation.refuses : Operation → Float → Bool
  | div, y => y == 0
  | _, _ => false

/-- The operation is a sum or a difference. -/
def Operation.isSum : Operation → Bool
  | add | sub => true
  | mul | div => false

/-- The value of an expression, computed bottom-up and from left to right. There is none if a
divisor is zero. -/
def Expression.value : Expression → Option Float
  | number literal => some literal.value
  | signed sign operand => do
    let x ← operand.value
    return sign.apply x
  | binary operation left right => do
    let x ← left.value
    let y ← right.value
    if operation.refuses y then none else return operation.apply x y

/-! ## Renderings -/

/-- The blanks. -/
inductive Blank
  | space
  | tab
  | carriageReturn
  | newline
deriving DecidableEq

/-- The ways to write an operation. -/
inductive Glyph
  | plus
  | hyphen
  | asterisk
  | cross
  | slash
  | obelus
deriving DecidableEq

/-- How a blank is written. -/
def Blank.scalar : Blank → Char
  | space => ' '
  | tab => '\t'
  | carriageReturn => '\r'
  | newline => '\n'

/-- How a sign is written. -/
def Sign.scalar : Sign → Char
  | plus => '+'
  | minus => '-'

/-- How a glyph is written. -/
def Glyph.scalar : Glyph → Char
  | plus => '+'
  | hyphen => '-'
  | asterisk => '*'
  | cross => '×'
  | slash => '/'
  | obelus => '÷'

/-- The operation that a glyph stands for. -/
def Glyph.operation : Glyph → Operation
  | plus => .add
  | hyphen => .sub
  | asterisk | cross => .mul
  | slash | obelus => .div

/-- The text of blanks in a row. -/
def gapText (gap : List Blank) : Text := gap.map Blank.scalar

/-- An expression as it is written: each token with the blanks in front of it, and parentheses. -/
inductive Rendering
  | number (gap : List Blank) (literal : Literal)
  | signed (gap : List Blank) (sign : Sign) (operand : Rendering)
  | binary (left : Rendering) (gap : List Blank) (glyph : Glyph) (right : Rendering)
  | enclosed (gap : List Blank) (inside : Rendering) (gap' : List Blank)

namespace Rendering

/-- The expression that is written. -/
def expression : Rendering → Expression
  | number _ literal => .number literal
  | signed _ sign operand => .signed sign operand.expression
  | binary left _ glyph right => .binary glyph.operation left.expression right.expression
  | enclosed _ inside _ => inside.expression

/-- The text of a rendering. -/
def written : Rendering → Text
  | number gap literal => gapText gap ++ literal.written
  | signed gap sign operand => gapText gap ++ sign.scalar :: operand.written
  | binary left gap glyph right =>
    left.written ++ (gapText gap ++ glyph.scalar :: right.written)
  | enclosed gap inside gap' => gapText gap ++ '(' :: (inside.written ++ (gapText gap' ++ [')']))

/-- The operation, if the rendering is one without parentheses around it. -/
def operation? : Rendering → Option Operation
  | binary _ _ glyph _ => some glyph.operation
  | number .. | signed .. | enclosed .. => none

/-- There are parentheses around every operation that is the operand of a sign, around every sum
that is an operand of a product, and around every operation that is a right operand, but products
that are right operands of sums. -/
def Sufficient : Rendering → Prop
  | number .. => True
  | signed _ _ operand => operand.operation? = none ∧ operand.Sufficient
  | binary left _ glyph right =>
    (∀ o ∈ left.operation?, o.isSum = true → glyph.operation.isSum = true) ∧
      (∀ o ∈ right.operation?, glyph.operation.isSum = true ∧ o.isSum = false) ∧
      left.Sufficient ∧ right.Sufficient
  | enclosed _ inside _ => inside.Sufficient

/-- Whether the parentheses are sufficient can be checked. -/
def decidableSufficient : (r : Rendering) → Decidable r.Sufficient
  | number .. => .isTrue trivial
  | signed _ _ operand =>
    have := operand.decidableSufficient
    inferInstanceAs (Decidable (_ ∧ _))
  | binary left _ _ right =>
    have := left.decidableSufficient
    have := right.decidableSufficient
    inferInstanceAs (Decidable (_ ∧ _ ∧ _ ∧ _))
  | enclosed _ inside _ => inside.decidableSufficient

instance : DecidablePred Sufficient := decidableSufficient

/-- The value that is computed behind the text that has been passed, or the region of the first
division by zero: from its glyph to the end of its divisor. -/
def outcome : Rendering → Text → Except Span Float
  | number _ literal, _ => .ok literal.value
  | signed gap sign operand, passed => do
    let x ← operand.outcome (passed ++ (gapText gap ++ [sign.scalar]))
    return sign.apply x
  | binary left gap glyph right, passed => do
    let x ← left.outcome passed
    let y ← right.outcome (passed ++ (left.written ++ (gapText gap ++ [glyph.scalar])))
    if glyph.operation.refuses y then
      throw ⟨Position.start.after (passed ++ (left.written ++ gapText gap)),
        Position.start.after (passed ++ (binary left gap glyph right).written)⟩
    else return glyph.operation.apply x y
  | enclosed gap inside _, passed => inside.outcome (passed ++ (gapText gap ++ ['(']))

/-- What is computed is the value of the expression that is written. -/
theorem toOption_outcome (r : Rendering) (passed : Text) :
    (r.outcome passed).toOption = r.expression.value := by
  induction r generalizing passed with
  | number gap l => rfl
  | signed gap sign r ih =>
    rw [expression, Expression.value, ← ih (passed ++ (gapText gap ++ [sign.scalar])), outcome]
    cases r.outcome (passed ++ (gapText gap ++ [sign.scalar])) <;> rfl
  | binary left gap glyph right ihl ihr =>
    rw [expression, Expression.value, ← ihl passed,
      ← ihr (passed ++ (left.written ++ (gapText gap ++ [glyph.scalar]))), outcome]
    cases left.outcome passed with
    | error region => rfl
    | ok x =>
      cases right.outcome (passed ++ (left.written ++ (gapText gap ++ [glyph.scalar]))) with
      | error region => rfl
      | ok y =>
        show Except.toOption (if glyph.operation.refuses y then _ else _) =
          if glyph.operation.refuses y then _ else _
        split <;> rfl
  | enclosed gap r gap' ih => exact ih _

end Rendering

/-! ## From renderings to symbols -/

/-- The symbol of a blank. -/
def Blank.symbol : Blank → TokenType × Text
  | newline => ("newline", ['\n'])
  | blank => ("space", [blank.scalar])

/-- The symbol of a sign. -/
def Sign.symbol : Sign → TokenType × Text
  | plus => ("add", ['+'])
  | minus => ("sub", ['-'])

/-- The symbol of a glyph. -/
def Glyph.symbol (glyph : Glyph) : TokenType × Text :=
  (match glyph.operation with
    | .add => "add"
    | .sub => "sub"
    | .mul => "mult"
    | .div => "div", [glyph.scalar])

/-- Blanks and a symbol behind them. -/
def spaced (gap : List Blank) (symbol : TokenType × Text) : List (TokenType × Text) :=
  gap.map Blank.symbol ++ [symbol]

namespace Rendering

/-- The symbols that a rendering is written with. -/
def symbols : Rendering → List (TokenType × Text)
  | number gap literal => spaced gap ("number", literal.written)
  | signed gap sign operand => spaced gap sign.symbol ++ operand.symbols
  | binary left gap glyph right => left.symbols ++ (spaced gap glyph.symbol ++ right.symbols)
  | enclosed gap inside gap' =>
    spaced gap ("lparen", ['(']) ++ (inside.symbols ++ spaced gap' ("rparen", [')']))

end Rendering

variable {c : Char} {rest passed : Text} {r : Rendering} {l : Literal}

/-- Only the rule of numbers applies to a digit that is not zero. -/
theorem scan_of_isNonzero {cs : Text} (h : isNonzero c = true) :
    scan rules (c :: cs) =
      scan [("number", (Rule.regexp numberRegex none).withLookups "0123456789".toList)]
        (c :: cs) := by
  have hne (d : Char) (hd : isNonzero d = false) : c ≠ d := by
    rintro rfl
    rw [hd] at h
    cases h
  have hset {ds : List Char} (hds : ds.any isNonzero = false) : c ∉ ds :=
    fun hmem => List.any_eq_false.1 hds c hmem h
  have hpassed : ∀ entry ∈ rules.take 9, entry.2.quickCheck (some c) = some false := by
    simp only [rules, List.take_succ_cons, List.take_zero, List.forall_mem_cons]
    exact ⟨Rule.quickCheck_exactChar (hne '(' rfl), Rule.quickCheck_exactChar (hne ')' rfl),
      Rule.quickCheck_exactChar (hne '+' rfl), Rule.quickCheck_exactChar (hne '-' rfl),
      Rule.quickCheck_charSet (hset rfl), Rule.quickCheck_charSet (hset rfl),
      Rule.quickCheck_charSet (hset rfl), Rule.quickCheck_exactChar (hne '\n' rfl),
      Rule.quickCheck_exactChar (hne '0' rfl), List.forall_mem_nil _⟩
  exact scan_append hpassed

/-- The digits are listed. -/
theorem mem_digits (h : c.isDigit = true) : c ∈ "0123456789".toList := by
  have hall : ∀ n ≤ 57, 48 ≤ n → Char.ofNat n ∈ "0123456789".toList := by decide
  obtain ⟨hlow, hhigh⟩ := Char.isDigit_iff_toNat.1 h
  have hmem := hall c.toNat hhigh hlow
  rwa [Char.ofNat_toNat] at hmem

/-- A literal is scanned up to where it ends. -/
theorem scan_literal (hrest : EndsNumber rest) :
    scan rules (l.written ++ rest) = some ("number", l.written.byteLength) := by
  by_cases hl : l = .zero
  · subst hl
    rfl
  · have hmatch := matchEnd?_literal hl hrest
    obtain ⟨c, cs, hwritten, hc⟩ : ∃ c cs, l.written = c :: cs ∧ isNonzero c = true := by
      cases l with
      | zero => exact absurd rfl hl
      | integer first | decimal first => exact ⟨_, _, rfl, first.2⟩
    have hpos : 0 < Text.byteLength (c :: cs) :=
      Nat.pos_of_ne_zero fun h => List.cons_ne_nil c cs (Text.byteLength_eq_zero.1 h)
    have hlookup : (Rule.sortChars "0123456789".toList).contains c = true :=
      List.contains_iff_mem.2 (mem_digits (isDigit_of_isNonzero hc))
    rw [hwritten, List.cons_append] at hmatch ⊢
    rw [scan_of_isNonzero hc]
    simp only [scan, List.findSome?_cons, Rule.withLookups, Rule.quickCheck, List.head?_cons,
      Option.map_some, hlookup, Rule.matchLength?, hmatch, Option.filter_some, hpos]
    rfl

/-- Blanks are scanned one by one. -/
theorem scans_gap (gap : List Blank) :
    Scans rules (gapText gap ++ rest) (gap.map Blank.symbol) rest := by
  induction gap with
  | nil => exact .nil
  | cons blank gap ih =>
    have hfirst : Scans rules ([blank.scalar] ++ (gapText gap ++ rest)) [blank.symbol]
        (gapText gap ++ rest) := by
      cases blank <;> exact .single rfl
    exact hfirst.append ih

theorem scans_spaced (gap : List Blank) (symbol : TokenType × Text)
    (h : scan rules (symbol.2 ++ rest) = some (symbol.1, symbol.2.byteLength)) :
    Scans rules (gapText gap ++ (symbol.2 ++ rest)) (spaced gap symbol) rest :=
  (scans_gap gap).append (.single h)

theorem endsNumber_nil : EndsNumber [] := by
  rintro _ ⟨⟩

theorem endsNumber_cons (hdigit : c.isDigit = false) (hpoint : c ≠ '.') :
    EndsNumber (c :: rest) := by
  rintro _ ⟨⟩
  exact ⟨hdigit, hpoint⟩

/-- A literal ends in front of blanks, and what ends it behind these. -/
theorem endsNumber_gap (gap : List Blank) (hrest : EndsNumber rest) :
    EndsNumber (gapText gap ++ rest) := by
  cases gap with
  | nil => exact hrest
  | cons blank gap => cases blank <;> exact endsNumber_cons rfl (by decide)

theorem scan_sign (sign : Sign) : scan rules (sign.symbol.2 ++ rest) =
    some (sign.symbol.1, sign.symbol.2.byteLength) := by
  cases sign <;> rfl

theorem scan_glyph (glyph : Glyph) : scan rules (glyph.symbol.2 ++ rest) =
    some (glyph.symbol.1, glyph.symbol.2.byteLength) := by
  cases glyph <;> rfl

namespace Rendering

/-- What is written scans to the symbols of the rendering. -/
theorem scans (hrest : EndsNumber rest) : Scans rules (r.written ++ rest) r.symbols rest := by
  induction r generalizing rest with
  | number gap l =>
    rw [written, List.append_assoc]
    exact scans_spaced gap ("number", l.written) (scan_literal hrest)
  | signed gap sign r ih =>
    have hwritten : (signed gap sign r).written ++ rest =
        gapText gap ++ (sign.symbol.2 ++ (r.written ++ rest)) := by
      cases sign <;> simp [written, Sign.symbol, Sign.scalar]
    rw [hwritten]
    exact (scans_spaced gap sign.symbol (scan_sign sign)).append (ih hrest)
  | binary left gap glyph right ihl ihr =>
    have hwritten : (binary left gap glyph right).written ++ rest =
        left.written ++ (gapText gap ++ (glyph.symbol.2 ++ (right.written ++ rest))) := by
      simp [written, Glyph.symbol]
    rw [hwritten]
    have hleft : EndsNumber (gapText gap ++ (glyph.symbol.2 ++ (right.written ++ rest))) :=
      endsNumber_gap gap (endsNumber_cons (by cases glyph <;> rfl) (by cases glyph <;> decide))
    exact (ihl hleft).append
      ((scans_spaced gap glyph.symbol (scan_glyph glyph)).append (ihr hrest))
  | enclosed gap r gap' ih =>
    have hwritten : (enclosed gap r gap').written ++ rest =
        gapText gap ++ (['('] ++ (r.written ++ (gapText gap' ++ ([')'] ++ rest)))) := by
      simp [written]
    rw [hwritten]
    have hinside : EndsNumber (gapText gap' ++ ([')'] ++ rest)) :=
      endsNumber_gap gap' (endsNumber_cons rfl (by decide))
    exact (scans_spaced gap ("lparen", ['(']) rfl).append
      ((ih hinside).append (scans_spaced gap' ("rparen", [')']) rfl))

end Rendering

/-! ## From symbols to syntax trees -/

/-- The tokens without blanks. -/
def solid (tokens : List Token) : List Token :=
  tokens.filter fun token => !operators.skips token

theorem solid_append (tokens tokens' : List Token) :
    solid (tokens ++ tokens') = solid tokens ++ solid tokens' :=
  List.filter_append ..

theorem lexemes_gap (gap : List Blank) : lexemes (gap.map Blank.symbol) = gapText gap := by
  induction gap with
  | nil => rfl
  | cons blank gap ih =>
    rw [List.map_cons, ← List.singleton_append, lexemes_append, ih]
    cases blank <;> rfl

theorem lexemes_spaced (gap : List Blank) (symbol : TokenType × Text) :
    lexemes (spaced gap symbol) = gapText gap ++ symbol.2 := by
  rw [spaced, lexemes_append, lexemes_gap]
  simp [lexemes]

/-- Blanks make no tokens. -/
theorem solid_gap (gap : List Blank) (passed : Text) :
    solid (Token.inRow passed (gap.map Blank.symbol)) = [] := by
  induction gap generalizing passed with
  | nil => rfl
  | cons blank gap ih => cases blank <;> exact ih _

theorem solid_spaced (gap : List Blank) {symbol : TokenType × Text}
    (h : operators.skip.contains symbol.1 = false) (passed : Text) :
    solid (Token.inRow passed (spaced gap symbol)) =
      [.ofSymbol (passed ++ gapText gap) symbol] := by
  have hkept : operators.skips (.ofSymbol (passed ++ gapText gap) symbol) = false := h
  rw [spaced, Token.inRow_append, solid_append, solid_gap, lexemes_gap, List.nil_append]
  exact List.filter_cons_of_pos (by rw [hkept]; rfl)

/-- How strongly an operation binds its operands. -/
def Operation.priority : Operation → Nat
  | add | sub => 40
  | mul | div => 80

/-- No operation binds as strongly as a sign. -/
theorem Operation.priority_lt_sign (o : Operation) : o.priority < 100 := by
  cases o <;> decide

/-- A sum binds less strongly than a product. -/
theorem Operation.priority_lt {o o' : Operation} (h : o.isSum = true) (h' : o'.isSum = false) :
    o.priority < o'.priority := by
  cases o <;> cases h <;> cases o' <;> cases h' <;> decide

/-- Where sums are left operands of sums only, left operands bind as strongly as it takes. -/
theorem Operation.priority_le {o o' : Operation} (h : o'.isSum = true → o.isSum = true) :
    o.priority ≤ o'.priority := by
  cases o <;> cases o' <;> first | decide | cases h rfl

namespace Rendering

/-- The syntax tree of a rendering behind the text that has been passed. -/
def tree : Rendering → Text → SyntaxTree
  | number gap literal, passed =>
    .atom (.ofSymbol (passed ++ gapText gap) ("number", literal.written))
  | signed gap sign operand, passed =>
    .prefixed 100 (.ofSymbol (passed ++ gapText gap) sign.symbol)
      (operand.tree (passed ++ (gapText gap ++ [sign.scalar])))
  | binary left gap glyph right, passed =>
    .infixed glyph.operation.priority .left (left.tree passed)
      (.ofSymbol (passed ++ (left.written ++ gapText gap)) glyph.symbol)
      (right.tree (passed ++ (left.written ++ (gapText gap ++ [glyph.scalar]))))
  | enclosed gap inside gap', passed =>
    .bracketed (.ofSymbol (passed ++ gapText gap) ("lparen", ['(']))
      (inside.tree (passed ++ (gapText gap ++ ['('])))
      (.ofSymbol (passed ++ (gapText gap ++ '(' :: (inside.written ++ gapText gap')))
        ("rparen", [')']))

theorem lexemes_symbols (r : Rendering) : lexemes r.symbols = r.written := by
  induction r with
  | number gap l => rw [symbols, lexemes_spaced, written]
  | signed gap sign r ih =>
    rw [symbols, lexemes_append, lexemes_spaced, ih, written]
    cases sign <;> simp [Sign.symbol, Sign.scalar]
  | binary left gap glyph right ihl ihr =>
    rw [symbols, lexemes_append, lexemes_append, lexemes_spaced, ihl, ihr, written]
    simp [Glyph.symbol]
  | enclosed gap r gap' ih =>
    rw [symbols, lexemes_append, lexemes_append, lexemes_spaced, lexemes_spaced, ih, written]
    simp

/-- But for blanks the tokens of a rendering are those of its syntax tree. -/
theorem solid_symbols (r : Rendering) (passed : Text) :
    solid (Token.inRow passed r.symbols) = (r.tree passed).tokens := by
  induction r generalizing passed with
  | number gap l => exact solid_spaced gap rfl passed
  | signed gap sign r ih =>
    have hsign : operators.skip.contains sign.symbol.1 = false := by cases sign <;> rfl
    have hscalar : sign.symbol.2 = [sign.scalar] := by cases sign <;> rfl
    rw [symbols, Token.inRow_append, solid_append, solid_spaced gap hsign, ih, lexemes_spaced,
      hscalar]
    rfl
  | binary left gap glyph right ihl ihr =>
    have hglyph : operators.skip.contains glyph.symbol.1 = false := by cases glyph <;> rfl
    rw [symbols, Token.inRow_append, Token.inRow_append, solid_append, solid_append, ihl,
      solid_spaced gap hglyph, ihr, lexemes_symbols, lexemes_spaced, tree, SyntaxTree.tokens]
    simp only [Glyph.symbol, List.append_assoc, List.singleton_append]
  | enclosed gap r gap' ih =>
    rw [symbols, Token.inRow_append, Token.inRow_append, solid_append, solid_append,
      solid_spaced gap rfl, ih, solid_spaced gap' rfl, lexemes_symbols, lexemes_spaced, tree,
      SyntaxTree.tokens]
    simp only [List.append_assoc, List.cons_append, List.nil_append]

/-- The tokens have the roles that the tree gives them. -/
theorem over_tree (r : Rendering) (passed : Text) : (r.tree passed).Over operators := by
  induction r generalizing passed with
  | number gap l => exact rfl
  | signed gap sign r ih => exact ⟨by cases sign <;> rfl, ih _⟩
  | binary left gap glyph right ihl ihr => exact ⟨by cases glyph <;> rfl, ihl _, ihr _⟩
  | enclosed gap r gap' ih => exact ⟨⟨_, rfl, rfl⟩, ih _⟩

/-- The operators on the left spine of a tree bind at least as strongly as the operation of the
rendering, and those on the right spine ask more of their right operands than it does, or are
signs. -/
theorem spines_tree (h : r.Sufficient) (passed : Text) :
    (∀ q ∈ (r.tree passed).leftPriorities, ∃ o ∈ r.operation?, o.priority ≤ q) ∧
      ∀ m ∈ (r.tree passed).rightMinima, m = 100 ∨ ∃ o ∈ r.operation?, o.priority < m := by
  induction r generalizing passed with
  | number | enclosed => exact ⟨nofun, nofun⟩
  | signed gap sign r ih =>
    obtain ⟨hnone, hr⟩ := h
    refine ⟨nofun, fun m hm => .inl ?_⟩
    rcases List.mem_cons.1 hm with rfl | hm
    · rfl
    · rcases (ih hr _).2 m hm with rfl | ⟨o, ho, -⟩
      · rfl
      · rw [hnone] at ho
        cases ho
  | binary left gap glyph right ihl ihr =>
    obtain ⟨hleft, hright, hl, hr⟩ := h
    refine ⟨fun q hq => ⟨_, rfl, ?_⟩, fun m hm => ?_⟩
    · rcases List.mem_cons.1 hq with rfl | hq
      · exact Nat.le_refl _
      · obtain ⟨o, ho, hle⟩ := (ihl hl _).1 q hq
        exact Nat.le_trans (Operation.priority_le (hleft o ho)) hle
    · rcases List.mem_cons.1 hm with rfl | hm
      · exact .inr ⟨_, rfl, Nat.lt_succ_self _⟩
      · rcases (ihr hr _).2 m hm with rfl | ⟨o, ho, hlt⟩
        · exact .inl rfl
        · obtain ⟨hsum, hproduct⟩ := hright o ho
          exact .inr ⟨_, rfl, Nat.lt_trans (Operation.priority_lt hsum hproduct) hlt⟩

/-- With sufficient parentheses the tree is grouped by the table. -/
theorem grouped_tree (h : r.Sufficient) (passed : Text) : (r.tree passed).Grouped := by
  induction r generalizing passed with
  | number => trivial
  | signed gap sign r ih =>
    obtain ⟨hnone, hr⟩ := h
    refine ⟨fun q hq => ?_, ih hr _⟩
    obtain ⟨o, ho, -⟩ := (spines_tree hr _).1 q hq
    rw [hnone] at ho
    cases ho
  | binary left gap glyph right ihl ihr =>
    obtain ⟨hleft, hright, hl, hr⟩ := h
    refine ⟨fun m hm => ?_, fun q hq => ?_, ihl hl _, ihr hr _⟩
    · rcases (spines_tree hl _).2 m hm with rfl | ⟨o, ho, hlt⟩
      · exact Operation.priority_lt_sign _
      · exact Nat.lt_of_le_of_lt (Operation.priority_le (hleft o ho)) hlt
    · obtain ⟨o, ho, hle⟩ := (spines_tree hr _).1 q hq
      obtain ⟨hsum, hproduct⟩ := hright o ho
      exact Nat.le_trans (Operation.priority_lt hsum hproduct) hle
  | enclosed gap r gap' ih => exact ih h _

end Rendering

/-! ## Values of syntax trees -/

section
variable {x y : Float} {s s' span region : Span}

theorem signed_value {sign : Float → Float} (op : Token)
    (hcover : Span.cover op.span s = .ok span) :
    signed sign op (.value x s) = .ok (.value (sign x) span) := by
  unfold signed
  rw [show (Result.value x s).span = s from rfl, hcover]
  rfl

theorem arithmetic_value {operation : Float → Float → Float} (op : Token)
    (hcover : Span.cover s s' = .ok span) :
    arithmetic operation (.value x s) op (.value y s') = .ok (.value (operation x y) span) := by
  unfold arithmetic
  rw [show (Result.value x s).span = s from rfl, show (Result.value y s').span = s' from rfl,
    hcover]
  rfl

theorem divide_value (op : Token) (hcover : Span.cover s s' = .ok span)
    (hregion : Span.cover op.span span = .ok region) :
    divide (.value x s) op (.value y s') =
      if y == 0 then .error (.rejected ⟨"Division by zero", region⟩)
      else .ok (.value (x / y) span) := by
  unfold divide
  rw [show (Result.value x s).span = s from rfl, show (Result.value y s').span = s' from rfl,
    hcover]
  show (if y == 0 then _ else _) = _
  split
  · show (Answer.ofChecked (Span.cover op.span span) >>= _) = _
    rw [hregion]
    rfl
  · rfl

/-- What the action of a sign makes of a value. -/
theorem prefixAnswer_value (sign : Sign) (passed : Text)
    (hcover : Span.cover (Token.ofSymbol passed sign.symbol).span s = .ok span) :
    operators.prefixAnswer (.ofSymbol passed sign.symbol) (.value x s) =
      .ok (.value (sign.apply x) span) := by
  cases sign <;> exact signed_value _ hcover

/-- What the action of an operation makes of two values. -/
theorem infixAnswer_value (glyph : Glyph) (passed : Text) (hcover : Span.cover s s' = .ok span)
    (hregion : Span.cover (Token.ofSymbol passed glyph.symbol).span span = .ok region) :
    operators.infixAnswer (.value x s) (.ofSymbol passed glyph.symbol) (.value y s') =
      if glyph.operation.refuses y then .error (.rejected ⟨"Division by zero", region⟩)
      else .ok (.value (glyph.operation.apply x y) span) := by
  cases glyph with
  | plus => exact arithmetic_value (.ofSymbol passed Glyph.plus.symbol) hcover
  | hyphen => exact arithmetic_value (.ofSymbol passed Glyph.hyphen.symbol) hcover
  | asterisk => exact arithmetic_value (.ofSymbol passed Glyph.asterisk.symbol) hcover
  | cross => exact arithmetic_value (.ofSymbol passed Glyph.cross.symbol) hcover
  | slash | obelus => exact divide_value _ hcover hregion

end

namespace Rendering

/-- The tree ends where the rendering does. -/
theorem stop_tree (r : Rendering) (passed : Text) :
    (r.tree passed).span.stop = Position.start.after (passed ++ r.written) := by
  induction r generalizing passed with
  | number gap l =>
    rw [written, ← List.append_assoc]
    rfl
  | signed gap sign r ih =>
    show (r.tree _).span.stop = _
    simp only [ih, written, List.append_assoc, List.singleton_append]
  | binary left gap glyph right _ ihr =>
    show (right.tree _).span.stop = _
    simp only [ihr, written, List.append_assoc, List.singleton_append]
  | enclosed gap r gap' =>
    show Position.start.after _ = _
    simp only [written, List.append_assoc, List.cons_append]

/-- The tree stands for a region in the text of the rendering. -/
theorem within_tree (r : Rendering) (passed : Text) :
    (r.tree passed).span.Within passed.byteLength (passed ++ r.written).byteLength := by
  induction r generalizing passed with
  | number gap l =>
    have hwithin := Token.within_ofSymbol (passed ++ gapText gap) ("number", l.written)
    exact hwithin.mono (by simp) (by simp [written])
  | signed gap sign r ih =>
    have hop := Token.within_ofSymbol (passed ++ gapText gap) sign.symbol
    have hscalar : sign.symbol.2 = [sign.scalar] := by cases sign <;> rfl
    have hoperand := ih (passed ++ (gapText gap ++ [sign.scalar]))
    obtain ⟨-, hwithin⟩ := hop.cover hoperand (by simp [hscalar])
    exact hwithin.mono (by simp) (by simp [written])
  | binary left gap glyph right ihl ihr =>
    have hright := ihr (passed ++ (left.written ++ (gapText gap ++ [glyph.scalar])))
    obtain ⟨-, hwithin⟩ := (ihl passed).cover hright (by simp)
    exact hwithin.mono (Nat.le_refl _) (by simp [written])
  | enclosed gap r gap' =>
    have hopening := Token.within_ofSymbol (passed ++ gapText gap) ("lparen", ['('])
    have hclosing := Token.within_ofSymbol
      (passed ++ (gapText gap ++ '(' :: (r.written ++ gapText gap'))) ("rparen", [')'])
    obtain ⟨-, hwithin⟩ := hopening.cover hclosing (by simp)
    exact hwithin.mono (by simp) (by simp [written])

/-- The region from a glyph to the end of its right operand. -/
theorem cover_glyph (left : Rendering) (gap : List Blank) (glyph : Glyph) (right : Rendering)
    (passed : Text) :
    Span.cover (Token.ofSymbol (passed ++ (left.written ++ gapText gap)) glyph.symbol).span
        ((binary left gap glyph right).tree passed).span =
      .ok ⟨Position.start.after (passed ++ (left.written ++ gapText gap)),
        Position.start.after (passed ++ (binary left gap glyph right).written)⟩ := by
  unfold Span.cover
  rw [stop_tree]
  refine Span.between_eq_ok.2 ⟨?_, rfl⟩
  show (Position.start.after _).offset ≤ _
  rw [Position.offset_after_start, Position.offset_after_start]
  simp [written]

/-- The region of a sign with its operand. -/
theorem cover_signed (gap : List Blank) (sign : Sign) (r : Rendering) (passed : Text) :
    Span.cover (Token.ofSymbol (passed ++ gapText gap) sign.symbol).span
        (r.tree (passed ++ (gapText gap ++ [sign.scalar]))).span =
      .ok ((signed gap sign r).tree passed).span :=
  Span.between_eq_ok.2 ⟨(within_tree (signed gap sign r) passed).forward, rfl⟩

/-- The region of an operation with its operands. -/
theorem cover_binary (left : Rendering) (gap : List Blank) (glyph : Glyph) (right : Rendering)
    (passed : Text) :
    Span.cover (left.tree passed).span
        (right.tree (passed ++ (left.written ++ (gapText gap ++ [glyph.scalar])))).span =
      .ok ((binary left gap glyph right).tree passed).span :=
  Span.between_eq_ok.2 ⟨(within_tree (binary left gap glyph right) passed).forward, rfl⟩

/-- The region from one parenthesis to the other. -/
theorem cover_enclosed (gap gap' : List Blank) (r : Rendering) (passed : Text) :
    Span.cover (Token.ofSymbol (passed ++ gapText gap) ("lparen", ['('])).span
        (Token.ofSymbol (passed ++ (gapText gap ++ '(' :: (r.written ++ gapText gap')))
          ("rparen", [')'])).span =
      .ok ((enclosed gap r gap').tree passed).span :=
  Span.between_eq_ok.2 ⟨(within_tree (enclosed gap r gap') passed).forward, rfl⟩

/-- A syntax tree evaluates to what is computed, or an action refuses the first division by zero. -/
theorem evaluate_tree (r : Rendering) (passed : Text) :
    (r.tree passed).evaluate operators =
      match r.outcome passed with
      | .ok x => .ok (.value x (r.tree passed).span)
      | .error region => .error (.rejected ⟨"Division by zero", region⟩) := by
  induction r generalizing passed with
  | number gap l =>
    show Calculator.number (.ofSymbol (passed ++ gapText gap) ("number", l.written)) = _
    unfold Calculator.number
    rw [show Token.text (.ofSymbol _ ("number", l.written)) = l.written from rfl, l.read_written]
    rfl
  | signed gap sign r ih =>
    rw [tree, SyntaxTree.evaluate, ih, outcome]
    cases r.outcome (passed ++ (gapText gap ++ [sign.scalar])) with
    | error region => rfl
    | ok x => exact prefixAnswer_value sign _ (cover_signed gap sign r passed)
  | binary left gap glyph right ihl ihr =>
    have hcover := cover_binary left gap glyph right passed
    have hregion := cover_glyph left gap glyph right passed
    rw [tree, SyntaxTree.evaluate, ihl, ihr, outcome]
    cases left.outcome passed with
    | error region => rfl
    | ok x =>
      cases right.outcome (passed ++ (left.written ++ (gapText gap ++ [glyph.scalar]))) with
      | error region => rfl
      | ok y =>
        show operators.infixAnswer (.value x _) _ (.value y _) = _
        rw [infixAnswer_value glyph _ hcover hregion, ok_bind, ok_bind]
        cases glyph.operation.refuses y <;> rfl
  | enclosed gap r gap' ih =>
    rw [tree, SyntaxTree.evaluate, ih, outcome]
    cases r.outcome (passed ++ (gapText gap ++ ['('])) with
    | error region => rfl
    | ok x =>
      show (Answer.ofChecked (Span.cover _ _) >>= _) = _
      rw [cover_enclosed]
      rfl

end Rendering

end PredictiveParsing.Calculator
