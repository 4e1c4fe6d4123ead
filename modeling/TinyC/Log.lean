namespace TinyC

-- How much a message of the log matters.
inductive Level where
  | debug
  | info
  | warning
deriving DecidableEq, Repr

def Level.name : Level → String
  | debug => "DEBUG"
  | info => "INFO"
  | warning => "WARNING"

-- What a run has reported so far, newest line first. A silent log stays empty.
inductive Log where
  | silent
  | recording (newestFirst : List String)
deriving DecidableEq, Repr

namespace Log

def empty (isTraced : Bool) : Log := if isTraced then .recording [] else .silent

def isSilent (log : Log) : Bool := log == .silent

-- The line is made only if it is kept.
def note (log : Log) (line : Unit → String) : Log :=
  match log with
  | .silent => .silent
  | .recording lines => .recording (line () :: lines)

-- The lines in the order of their events.
def lines : Log → List String
  | .silent => []
  | .recording newestFirst => newestFirst.reverse

-- The log after more lines, in the order of their events.
def after (log : Log) (lines : List String) : Log :=
  match log with
  | .silent => .silent
  | .recording newestFirst => .recording (lines.reverse ++ newestFirst)

@[simp] theorem after_nil (log : Log) : log.after [] = log := by
  cases log <;> rfl

@[simp] theorem after_after (log : Log) (first second : List String) :
    (log.after first).after second = log.after (first ++ second) := by
  cases log with
  | silent => rfl
  | recording newestFirst => simp only [after, List.reverse_append, List.append_assoc]

theorem note_eq_after (log : Log) (line : Unit → String) : log.note line = log.after [line ()] := by
  cases log <;> rfl

end Log

end TinyC
