import PredictiveParsing.Expression.Operators
import PredictiveParsing.Parsing.Context

/-!
# Precedence climbing

`Operators.above` reads the longest expression whose infix operators have at least a given priority:
an operand, and then operators of sufficient priority with what they take as their right operands.
The right operand of an operator may hold operators of higher priority, and of equal priority if the
operator groups to the right. `Operators.expression` starts from the lowest priority.
-/

namespace PredictiveParsing.Operators

open ParseM

variable {V P : Type}

/-- Steps over skipped tokens and answers the token behind them. The number bounds their count. -/
def skipTo (o : Operators V P) : Nat → ParseM Token
  | 0 => throw .exhausted
  | n + 1 => do
    let token ← peek
    if o.skips token then
      commit token
      o.skipTo n
    else return token

/-- The next token that is not skipped. -/
def current (o : Operators V P) : ParseM Token := do
  o.skipTo ((← unread) + 1)

/-- The result of an operand of one token. -/
def atomResult (action : Option (AtomAction V)) (token : Token) : ParseM (Result V) :=
  match action with
  | some f => perform (f token)
  | none => return .ofToken token

/-- The result of a prefix operator and its operand. -/
def prefixResult (action : Option (PrefixAction V)) (op : Token) (operand : Result V) :
    ParseM (Result V) :=
  match action with
  | some f => perform (f op operand)
  | none => do
    let span ← trust (Span.cover op.span operand.span)
    return .list [.ofToken op, operand] span

/-- The result of an infix operator and its operands. -/
def infixResult (action : Option (InfixAction V)) (left : Result V) (op : Token)
    (right : Result V) : ParseM (Result V) :=
  match action with
  | some f => perform (f left op right)
  | none => do
    let span ← trust (Span.cover left.span right.span)
    return .list [left, .ofToken op, right] span

/-- Reads the operand that begins with `token`. Embedded parsers run by `embedded`, expressions
inside of the operand by `inner`, which takes their least priority. -/
def operand (o : Operators V P) (embedded : P → ParseM (Result V)) (inner : Nat → ParseM (Result V))
    (token : Token) : ParseM (Result V) :=
  match o.roleOf? token with
  | some (.atom action) => do
    commit token
    note (.atom token)
    atomResult action token
  | some (.bracket _ closing) => do
    commit token
    let result ← inner 0
    let last ← o.current
    if last.is closing then
      commit last
      let span ← trust (Span.cover token.span last.span)
      return result.withSpan span
    else
      unexpected (closing ++ " to balance the bracket at " ++ toString token.span.start) last
  | some (.prefixOp priority action) => do
    commit token
    note (.prefixOp token priority)
    let result ← inner priority
    prefixResult action token result
  | some (.mixfix priority _ _ action _) => do
    commit token
    note (.prefixOp token priority)
    let result ← inner priority
    prefixResult action token result
  | some (.embed parser) => do
    note (.embedded token)
    embedded parser
  | some (.infixOp ..) | none => unexpected "an expression" token

/-- Takes operators of at least the given priority and their right operands behind the operand
`left`. The number bounds the operators taken. -/
def climb (o : Operators V P) (inner : Nat → ParseM (Result V)) (minimum : Nat) :
    Nat → Result V → ParseM (Result V)
  | 0, _ => throw .exhausted
  | n + 1, left => do
    let token ← o.current
    match (o.roleOf? token).bind Role.infixRole? with
    | none => return left
    | some (priority, associativity, action) =>
      if priority < minimum then return left
      else do
        commit token
        note (.infixOp token priority)
        let right ← inner (associativity.rightMinimum priority)
        let result ← infixResult action left token right
        o.climb inner minimum n result

/-- Reads an expression whose infix operators have at least the given priority. The first number
bounds how deep expressions nest. -/
def above (o : Operators V P) (embedded : P → ParseM (Result V)) : Nat → Nat → ParseM (Result V)
  | 0, _ => throw .exhausted
  | depth + 1, minimum => do
    let token ← o.current
    let left ← o.operand embedded (o.above embedded depth) token
    o.climb (o.above embedded depth) minimum ((← unread) + 1) left

/-- Reads an expression whose infix operators have at least the given priority. Each nested
expression begins behind a token of its own. -/
def expressionAbove (o : Operators V P) (embedded : P → ParseM (Result V)) (minimum : Nat) :
    ParseM (Result V) := do
  o.above embedded ((← unread) + 1) minimum

/-- Reads an expression. -/
def expression (o : Operators V P) (embedded : P → ParseM (Result V)) : ParseM (Result V) :=
  o.expressionAbove embedded 0

end PredictiveParsing.Operators
