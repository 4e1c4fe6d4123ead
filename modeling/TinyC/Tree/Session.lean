import TinyC.Tree.Parser

namespace TinyC.Parser

-- The rules of the grammar from which a reading may start.
inductive Rule where
  | program
  | function
  | statement
  | expression
  | term
  | factor
deriving DecidableEq, Repr

def Rule.read (rule : Rule) (limit : Int) (depth : Nat) (tokens : List Token) (log : Log) :
    Except Stop (Reading tokens.length) × Log :=
  match rule with
  | .program => Parser.program limit depth tokens log
  | .function => Parser.function limit depth tokens log
  | .statement => (Parser.statement limit depth tokens, log)
  | .expression => (Parser.expression limit depth tokens, log)
  | .term => (Parser.term limit depth tokens, log)
  | .factor => (Parser.factor limit depth tokens, log)

-- A parser between two readings. What a failed reading took stays taken, and what it had
-- entered still counts as open.
structure Session where
  tokens : List Token
  depth : Nat
  limit : Int

def defaultLimit : Int := 128

namespace Session

def ofTokens (tokens : List Token) (limit : Int) : Session := ⟨tokens, 0, limit⟩

def feed (session : Session) (tokens : List Token) : Session :=
  { session with tokens := session.tokens ++ tokens }

-- Drops one token.
def skip (session : Session) : Option Token × Session :=
  match session.tokens with
  | [] => (none, session)
  | token :: rest => (some token, { session with tokens := rest })

def read (session : Session) (rule : Rule) (log : Log) :
    Except ParseError Node × Session × Log :=
  match rule.read session.limit session.depth session.tokens log with
  | (.ok reading, log) => (.ok reading.node, { session with tokens := reading.left }, log)
  | (.error stop, log) =>
    (.error stop.error, { session with tokens := stop.left, depth := stop.depth }, log)

end Session

end TinyC.Parser

namespace TinyC

-- The program that the tokens spell.
def parse (tokens : List Token) (limit : Int) (log : Log) : Except ParseError Node × Log :=
  let (result, _, log) := (Parser.Session.ofTokens tokens limit).read .program log
  (result, log)

end TinyC
