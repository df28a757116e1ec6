import PredictiveParsing.Session.Step

/-!
# Sessions

`Session.step` answers a step and gives the session behind it. A step that ends in a fault changes
nothing but the journal.
-/

namespace PredictiveParsing

/-- A grammar, a tokenizer, and what was made with them so far. -/
structure Session (V : Type) where
  grammar : Grammar V
  tokenizer : Tokenizer
  /-- The events of the last step, and the FIRST sets kept so far. -/
  journal : Journal
  /-- The saved tokens by number. -/
  saved : List (Nat × Token)
  /-- The results in the order they were made. -/
  results : List (Result V)
  /-- The next slot for a choice. -/
  freshSlot : Nat

namespace Session

variable {V : Type}

/-- Gives the choices of rules slots of their own, and answers the next free slot. -/
def relabelRules (fresh : Nat) : List (String × Parser V) → List (String × Parser V) × Nat
  | [] => ([], fresh)
  | (name, p) :: rules =>
    let (p, fresh) := p.relabelAll fresh
    let (rules, fresh) := relabelRules fresh rules
    ((name, p) :: rules, fresh)

/-- A session with a grammar and a tokenizer. -/
def start (grammar : Grammar V) (tokenizer : Tokenizer) : Session V :=
  let (rules, fresh) := relabelRules 0 grammar.rules
  let (entry, fresh) :=
    match grammar.entry with
    | some p =>
      let (p, fresh) := p.relabelAll fresh
      (some p, fresh)
    | none => (none, fresh)
  ⟨{ grammar with rules, entry }, tokenizer, .retentive, [], [], fresh⟩

/-- Where the tokenizer is. -/
def stateReply (s : Session V) : Reply V :=
  .state s.tokenizer.position s.tokenizer.atEnd s.tokenizer.cursor.input

/-- A parser with slots of its own, and the session in which they are taken. -/
def own (s : Session V) (p : Parser V) : Parser V × Session V :=
  let (p, freshSlot) := p.relabelAll s.freshSlot
  (p, { s with freshSlot })

/-- The session in which a token has been committed. -/
def commit (s : Session V) (token : Token) (tokenizer : Tokenizer) : Session V :=
  { s with tokenizer, journal := s.journal.note (.committed token) }

/-- Reads the token at the cursor and moves over it. -/
def advance (s : Session V) (reply : Token → Tokenizer → Reply V) : Reply V × Session V :=
  match s.tokenizer.next with
  | .ok (token, tokenizer) => (reply token tokenizer, s.commit token tokenizer)
  | .error f => (.fault f, s)

/-- Moves over a given token. -/
def forward (s : Session V) (token : Token) : Reply V × Session V :=
  match s.tokenizer.forward token with
  | .ok tokenizer =>
    let s := s.commit token tokenizer
    (s.stateReply, s)
  | .error f => (.fault f, s)

/-- Reads all further tokens. -/
def tokenize (s : Session V) : Reply V × Session V :=
  match s.tokenizer.remainingTokens with
  | .ok (tokens, tokenizer) =>
    let journal := tokens.foldl (fun j token => j.note (.committed token)) s.journal
    (.tokens (tokens.filter fun token => !token.isEndOfInput) tokenizer.position,
      { s with tokenizer, journal })
  | .error f => (.fault f, s)

/-- The tokenizer for a run, over another input if one is given. -/
def tokenizerFor (s : Session V) (input : Option Text) : Tokenizer :=
  match input with
  | some text => s.tokenizer.withInput text
  | none => s.tokenizer

/-- Runs a parser and keeps what it made. -/
def execute (s : Session V) (tokenizer : Tokenizer) (p : ParseM (Result V)) :
    Reply V × Session V :=
  match p ⟨tokenizer, s.journal⟩ with
  | (.ok result, c) =>
    (.parsed result c.tokenizer.position,
      { s with
        tokenizer := c.tokenizer, journal := c.journal, results := s.results ++ [result] })
  | (.error (.rejected e), c) =>
    match e.report c.tokenizer.cursor.input with
    | .ok report =>
      (.failed e report c.tokenizer.position,
        { s with tokenizer := c.tokenizer, journal := c.journal })
    | .error f => (.fault f, { s with journal := c.journal })
  | (.error (.fault f), c) => (.fault f, { s with journal := c.journal })
  | (.error .exhausted, c) => (.exhausted, { s with journal := c.journal })

/-- Keeps a result and answers it. -/
def keep (s : Session V) (result : Result V) : Reply V × Session V :=
  (.result result, { s with results := s.results ++ [result] })

/-- The reply to a demand on a result. -/
def demandReply {α : Type} (s : Session V) (reply : α → Reply V) :
    Except ParseError α → Reply V
  | .ok a => reply a
  | .error e =>
    match e.report s.tokenizer.cursor.input with
    | .ok report => .refused e report
    | .error f => .fault f

/-- The parts of a parser. -/
def partsOf : Parser V → Parts
  | .tuple members _ => .tuple (members.map Member.mark)
  | .choice _ alternatives => .choice alternatives.length
  | .expr operators =>
    let handlers := (operators.roles.zip (Parser.inspectRoles operators.roles)).map
      fun ((type, role), (_, words)) => (type, role.startsOperand, words)
    .expr ((Parser.sortByKey (operators.leadingTypes.map fun t => (t, ()))).map Prod.fst)
      (Parser.sortByKey handlers)
  | _ => .other

/-- The reply of a computation that may find an error in the grammar. -/
def grammarReply {α : Type} (reply : α → Reply V) : Except GrammarError α → Reply V
  | .ok a => reply a
  | .error e => .grammarError e

/-- Answers a step about the last result. -/
def withLast (s : Session V) (reply : Result V → Reply V × Session V) : Reply V × Session V :=
  match s.results.getLast? with
  | some result => reply result
  | none => (.nothing, s)

/-- Answers a step. -/
def answer [BEq V] (s : Session V) : Step V → Reply V × Session V
  | .addRule type rule =>
    let tokenizer := s.tokenizer.addRule type rule
    (.count tokenizer.rules.length, { s with tokenizer })
  | .rules => (.rules s.tokenizer.rules, s)
  | .input text =>
    let s := { s with tokenizer := s.tokenizer.withInput text }
    (s.stateReply, s)
  | .state => (s.stateReply, s)
  | .peek save =>
    match s.tokenizer.peek with
    | .ok token =>
      let saved :=
        match save with
        | some n => (n, token) :: s.saved
        | none => s.saved
      (.token token s.tokenizer.position, { s with saved })
    | .error f => (.fault f, s)
  | .next => s.advance fun token t => .token token t.position
  | .iterate => s.advance fun token t =>
    if token.isEndOfInput then .noToken t.position else .token token t.position
  | .tokenize => s.tokenize
  | .forward token => s.forward token
  | .forwardSaved n =>
    match s.saved.lookup n with
    | some token => s.forward token
    | none => (.nothing, s)
  | .sameToken a b =>
    match s.saved.lookup a, s.saved.lookup b with
    | some x, some y => (.flag (x == y), s)
    | _, _ => (.nothing, s)
  | .commitNext => s.advance fun token t =>
    .committed token t.position t.cursor.input.byteLength
  | .register name p =>
    let (p, s) := s.own p
    let grammar := s.grammar.register name p
    (.names grammar.names, { s with grammar })
  | .copy source name =>
    match s.grammar.rule? source with
    | some p =>
      let (p, freshSlot) := p.relabel s.freshSlot
      let grammar := s.grammar.register name p
      (.names grammar.names, { s with grammar, freshSlot })
    | none => (.nothing, s)
  | .setEntry p =>
    let (p, s) := s.own p
    (.flag true, { s with grammar := s.grammar.withEntry p })
  | .entry =>
    match s.grammar.entry? with
    | some p => (.words p.inspect, s)
    | none => (.nothing, s)
  | .get name => (.found ((s.grammar.rule? name).map Parser.inspect), s)
  | .resolve name =>
    match s.grammar.resolve name with
    | .ok p => (.words p.inspect, s)
    | .error f => (.fault f, s)
  | .reference name => (.words (Parser.ref (V := V) name).inspect, s)
  | .inspect => (.words s.grammar.inspect, s)
  | .validate => (grammarReply (fun _ => .valid) s.grammar.validate, s)
  | .firstSet p => (grammarReply .firstSet (s.grammar.first p), s)
  | .overlap a b =>
    (grammarReply .lookaheads (do
      let f ← s.grammar.first a
      let g ← s.grammar.first b
      return f.overlap g), s)
  | .accepts p =>
    match s.tokenizer.peek with
    | .ok token =>
      (grammarReply
        (fun f => .acceptance (f.accepts token) (f.contains (.token token.type))
          (f.contains .endOfInput))
        (s.grammar.first p), s)
    | .error f => (.fault f, s)
  | .describe p => (.parts p.inspect (partsOf p), s)
  | .parse input => s.execute (s.tokenizerFor input) s.grammar.parse
  | .run p input =>
    let (p, s) := s.own p
    s.execute (s.tokenizerFor input) (p.run s.grammar)
  | .runAbove operators minimum input =>
    let (roles, freshSlot) := Parser.relabelAllRoles s.freshSlot operators.roles
    { s with freshSlot }.execute (s.tokenizerFor input)
      (Parser.runExpression s.grammar { operators with roles } minimum)
  | .demand content => s.withLast fun result =>
    match content with
    | .value => (s.demandReply .value result.getValue, s)
    | .token => (s.demandReply .plainToken result.getToken, s)
    | .list => (s.demandReply .items result.getList, s)
  | .view => s.withLast fun result =>
    (.content result.toValue? result.toToken? (result.toList?.map List.length), s)
  | .withSpan span => s.withLast fun result => s.keep (result.withSpan span)
  | .wrap => s.withLast fun result => s.keep result.wrap
  | .pick index => s.withLast fun result =>
    match result.toList?.bind fun items => items[index]? with
    | some item => s.keep item
    | none => (.nothing, s)
  | .equal a b =>
    match s.results[a]?, s.results[b]? with
    | some x, some y => (.flag (x.same y), s)
    | _, _ => (.nothing, s)

/-- Answers a step; the journal holds the events of this step alone. -/
def step [BEq V] (s : Session V) (request : Step V) : Reply V × Session V :=
  { s with journal := { s.journal with events := [] } }.answer request

end Session

end PredictiveParsing
