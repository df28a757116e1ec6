import PredictiveParsing.Grammar.Basic
import PredictiveParsing.Grammar.Lookahead

/-!
# Computing FIRST sets

The FIRST set of a parser is found by walking its tree, and through references the trees of rules. A
rule that is met again while its own FIRST set is being computed is left-recursive. The parsers
embedded in an operator table begin at the token they are registered under, so they count towards
left recursion, although the table alone decides what the expression begins with.
-/

namespace PredictiveParsing

variable {V : Type}

/-- The FIRST set of a sequence whose first member has the FIRST set `f` and can be empty. -/
def FirstSet.andThen (f g : FirstSet) : FirstSet :=
  ⟨Lookahead.union f.tokens g.tokens, g.nullable⟩

/-- The FIRST set of a choice between two parsers. -/
def FirstSet.orElse (f g : FirstSet) : FirstSet :=
  ⟨Lookahead.union f.tokens g.tokens, f.nullable || g.nullable⟩

namespace Parser

mutual

/-- The FIRST set of a parser, given those of the rules. -/
def first (rule : String → Except GrammarError FirstSet) :
    Parser V → Except GrammarError FirstSet
  | token type => .ok (.single (.token type))
  | endOfInput => .ok (.single .endOfInput)
  | tuple members _ => membersFirst rule members
  | choice _ alternatives => alternativesFirst rule alternatives
  | many body minimum => do
    let f ← body.first rule
    return { f with nullable := f.nullable || minimum == 0 }
  | embed body => body.first rule
  | expr ⟨roles, skip⟩ => do
    rolesFirst rule roles
    let leading := Operators.leadingTypes ⟨roles, skip⟩
    return ⟨Lookahead.union (leading.map .token) [], false⟩
  | ref name => rule name

/-- The FIRST set of a sequence: that of its first member, and of what follows if that member can be
empty. -/
def membersFirst (rule : String → Except GrammarError FirstSet) :
    List (Member (Parser V)) → Except GrammarError FirstSet
  | [] => .ok ⟨[], true⟩
  | ⟨_, p⟩ :: members => do
    let f ← p.first rule
    if f.nullable then
      let g ← membersFirst rule members
      return f.andThen g
    else return f

/-- The FIRST set of a choice. -/
def alternativesFirst (rule : String → Except GrammarError FirstSet) :
    List (Parser V) → Except GrammarError FirstSet
  | [] => .ok ⟨[], false⟩
  | p :: alternatives => do
    let f ← p.first rule
    let g ← alternativesFirst rule alternatives
    return f.orElse g

/-- The embedded parsers of a table have to have FIRST sets. -/
def rolesFirst (rule : String → Except GrammarError FirstSet) :
    List (TokenType × Role V (Parser V)) → Except GrammarError Unit
  | [] => .ok ()
  | (_, .embed p) :: roles => do
    let _ ← p.first rule
    rolesFirst rule roles
  | _ :: roles => rolesFirst rule roles

end

end Parser

namespace Grammar

/-- The FIRST set of a rule, while those of the rules `active` are being computed. Each of these is
another rule of the grammar, so there are fewer of them than the number allows. -/
def firstOfRule (g : Grammar V) : Nat → List String → String → Except GrammarError FirstSet
  | 0, _, name => .error (.leftRecursion name)
  | n + 1, active, name =>
    if active.contains name then .error (.leftRecursion name)
    else
      match g.rule? name with
      | none => .error (.unregisteredRule name)
      | some p => p.first (g.firstOfRule n (name :: active))

/-- The FIRST set of the rule of a name. -/
def ruleFirst (g : Grammar V) (name : String) : Except GrammarError FirstSet :=
  g.firstOfRule (g.rules.length + 1) [] name

/-- The FIRST set of a parser in a grammar. -/
def first (g : Grammar V) (p : Parser V) : Except GrammarError FirstSet :=
  p.first g.ruleFirst

end Grammar

end PredictiveParsing
