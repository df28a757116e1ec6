import PredictiveParsing.Grammar.FirstSets

/-!
# Validation of grammars

A grammar is valid if everything reachable from its entry is registered and not left-recursive, if
the alternatives of every choice begin with different tokens and at most one of them can be empty,
and if every embedded parser can begin with the type it is registered under. `Grammar.validate`
visits what is reachable, each rule once, and answers the first error it meets.
-/

namespace PredictiveParsing

variable {V : Type}

/-- The first pair of FIRST sets with a common lookahead, by their places in the list. -/
def firstOverlap (firsts : List FirstSet) : Option (Nat × Nat × Lookahead) :=
  go 0 firsts
where
  /-- The first set after `f`, from place `j` on, that shares a lookahead with it. -/
  against (f : FirstSet) (j : Nat) : List FirstSet → Option (Nat × Lookahead)
    | [] => none
    | g :: gs =>
      match (f.overlap g).head? with
      | some l => some (j, l)
      | none => against f (j + 1) gs
  /-- The first pair from place `i` on. -/
  go (i : Nat) : List FirstSet → Option (Nat × Nat × Lookahead)
    | [] => none
    | f :: fs =>
      match against f (i + 1) fs with
      | some (j, l) => some (i, j, l)
      | none => go (i + 1) fs

namespace Grammar

/-- The alternatives of a choice have FIRST sets that tell them apart. -/
def checkChoice (g : Grammar V) (rule : String) (alternatives : List (Parser V)) :
    Except GrammarError Unit := do
  let firsts ← alternatives.mapM g.first
  if 1 < (firsts.filter FirstSet.nullable).length then throw (.ambiguousEmptyChoice rule)
  match firstOverlap firsts with
  | some (i, j, l) => throw (.ambiguousChoice rule i j (toString l))
  | none => return ()

/-- An embedded parser can begin with the type it is registered under. -/
def checkEmbedded (g : Grammar V) (rule : String) (key : TokenType) (p : Parser V) :
    Except GrammarError Unit := do
  let f ← g.first p
  if f.contains (.token key) then return () else throw (.embedMismatch rule key)

end Grammar

namespace Parser

mutual

/-- Visits a parser of the rule that `rule` describes. Rules reached by reference are visited by
`follow`, which takes the names visited so far and answers them with the new ones. -/
def visit (g : Grammar V) (follow : String → List String → Except GrammarError (List String))
    (rule : String) : Parser V → List String → Except GrammarError (List String)
  | token _, visited | endOfInput, visited => .ok visited
  | tuple members _, visited => visitMembers g follow rule members visited
  | choice _ alternatives, visited => do
    g.checkChoice rule alternatives
    visitAlternatives g follow rule alternatives visited
  | many body _, visited | embed body, visited => body.visit g follow rule visited
  | expr ⟨roles, _⟩, visited => visitRoles g follow rule roles visited
  | ref name, visited => follow name visited

/-- Visits the members of a sequence. -/
def visitMembers (g : Grammar V) (follow : String → List String → Except GrammarError (List String))
    (rule : String) : List (Member (Parser V)) → List String → Except GrammarError (List String)
  | [], visited => .ok visited
  | ⟨_, p⟩ :: members, visited => do
    let visited ← p.visit g follow rule visited
    visitMembers g follow rule members visited

/-- Visits the alternatives of a choice. -/
def visitAlternatives (g : Grammar V)
    (follow : String → List String → Except GrammarError (List String)) (rule : String) :
    List (Parser V) → List String → Except GrammarError (List String)
  | [], visited => .ok visited
  | p :: alternatives, visited => do
    let visited ← p.visit g follow rule visited
    visitAlternatives g follow rule alternatives visited

/-- Visits the parsers embedded in a table. -/
def visitRoles (g : Grammar V) (follow : String → List String → Except GrammarError (List String))
    (rule : String) :
    List (TokenType × Role V (Parser V)) → List String → Except GrammarError (List String)
  | [], visited => .ok visited
  | (key, .embed p) :: roles, visited => do
    g.checkEmbedded rule key p
    let visited ← p.visit g follow rule visited
    visitRoles g follow rule roles visited
  | _ :: roles, visited => visitRoles g follow rule roles visited

end

end Parser

namespace Grammar

/-- Visits the rule of a name, unless it has been visited before. Each visit is of another rule of
the grammar, so there are fewer of them than the number allows. -/
def visitRule (g : Grammar V) : Nat → String → List String → Except GrammarError (List String)
  | 0, _, visited => .ok visited
  | n + 1, name, visited =>
    if visited.contains name then .ok visited
    else do
      let _ ← g.ruleFirst name
      match g.rule? name with
      | none => throw (.unregisteredRule name)
      | some p => p.visit g (g.visitRule n) ("rule '" ++ name ++ "'") (name :: visited)

/-- Checks everything that is reachable from the entry. -/
def validate (g : Grammar V) : Except GrammarError Unit := do
  let follow := g.visitRule (g.rules.length + 1)
  match g.entry, g.names.head? with
  | some entry, _ =>
    let _ ← entry.visit g follow "the entry" []
    return ()
  | none, some name =>
    let _ ← follow name []
    return ()
  | none, none => throw .missingEntry

end Grammar

end PredictiveParsing
