import TinyC.Assembly.Render
import TinyC.Code.Generator
import TinyC.Token.Lexer
import TinyC.Tree.Session

namespace TinyC

-- The fault of the first stage that failed.
inductive CompileError where
  | lex (error : LexError)
  | parse (error : ParseError)
  | generate (error : GenerateError)
  | render (error : RenderError)
deriving DecidableEq, Repr

def CompileError.message : CompileError → String
  | lex error => error.message
  | parse error => error.message
  | generate error => error.message
  | render error => error.message

-- The tree of a source text.
def parseSource (source : String) (limit : Int) (log : Log) : Except CompileError Node × Log :=
  match tokenize source log with
  | (.error error, log) => (.error (.lex error), log)
  | (.ok tokens, log) =>
    match parse tokens limit log with
    | (.error error, log) => (.error (.parse error), log)
    | (.ok program, log) => (.ok program, log)

-- The assembly text of a source text. The target is looked up when all else has succeeded.
def compile (source : String) (targetName : String) (log : Log) :
    Except CompileError String × Log :=
  match parseSource source Parser.defaultLimit log with
  | (.error error, log) => (.error error, log)
  | (.ok program, log) =>
    match generate program log with
    | (.error error, log) => (.error (.generate error), log)
    | (.ok code, log) =>
      match Target.named targetName >>= fun target => render target code with
      | .error error => (.error (.render error), log)
      | .ok text => (.ok text, log)

end TinyC
