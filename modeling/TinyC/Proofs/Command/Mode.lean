import TinyC.Proofs.Command.Effects
import TinyC.Proofs.Compile
import TinyC.Proofs.File.Tree

namespace TinyC.Command

-- What a run is to bring about.
inductive Mode where
  | tokens
  | tree
  | printed
  | saved (assembly : String)
  | linked (assembly executable : String)
deriving DecidableEq, Repr

namespace Mode

-- A dump shows what the compiler has read, and compiles nothing.
def isDump : Mode → Bool
  | tokens | tree => true
  | _ => false

def assembly? : Mode → Option String
  | saved assembly | linked assembly _ => some assembly
  | _ => none

-- The files that are to be written, by the run or by the driver.
def paths : Mode → List String
  | saved assembly => [assembly]
  | linked assembly executable => [assembly, executable]
  | _ => []

-- What is to be done with an assembly text, in order.
def plan (driver : Option String) (text : String) : Mode → List Effect
  | tokens | tree => []
  | printed => [.printed text]
  | saved assembly => [.wrote (Path.normal assembly) text]
  | linked assembly executable =>
    .wrote (Path.normal assembly) text ::
      driver.toList.map fun driver => .ran [driver, Path.normal assembly, "-o", executable]

variable {mode : Mode} {driver : Option String} {path text content : String}
  {command : List String}

theorem mem_paths_of_assembly? (h : mode.assembly? = some path) : path ∈ mode.paths := by
  cases mode <;> simp_all [assembly?, paths]

theorem wrote_mem_plan (h : .wrote path content ∈ mode.plan driver text) :
    ∃ assembly, mode.assembly? = some assembly ∧ path = Path.normal assembly ∧ content = text := by
  cases mode <;> simp_all [plan, assembly?]

theorem ran_mem_plan (h : .ran command ∈ mode.plan driver text) :
    ∃ driver assembly executable, command = [driver, assembly, "-o", executable] ∧
      executable ∈ mode.paths := by
  cases mode with
  | linked assembly executable =>
    obtain ⟨name, _, rfl⟩ : ∃ name, driver = some name ∧
        [name, Path.normal assembly, "-o", executable] = command := by simpa [plan] using h
    exact ⟨name, _, executable, rfl, by simp [paths]⟩
  | _ => simp [plan] at h

end Mode

namespace Options

variable (options : Options)

def mode : Mode :=
  let beside := Path.stem options.input ++ ".s"
  if options.tokens then .tokens
  else if options.tree || options.pretty then .tree
  else if options.assemblyOnly then
    match options.output with
    | none => .saved beside
    | some path => if path = "-" then .printed else .saved path
  else .linked beside (options.output.getD (Path.stem options.input))

-- The mode in the terms in which a run asks for it.
theorem mode_eq : options.mode =
    if options.tokens then .tokens
    else if options.tree || options.pretty then .tree
    else if options.isToStandardOutput then .printed
    else if options.assemblyOnly then .saved options.assemblyPath
    else .linked options.assemblyPath options.executablePath := by
  unfold mode isToStandardOutput assemblyPath executablePath
  cases options.tokens <;> cases options.tree <;> cases options.pretty <;>
    cases options.assemblyOnly <;> try rfl
  cases options.output with
  | none => rfl
  | some path => by_cases hdash : path = "-" <;> simp [hdash]

-- The files that are looked at before a run are those that its mode writes.
theorem outputs_eq_paths : options.outputs = options.mode.paths := by
  rw [mode_eq, outputs, isDump]
  cases options.tokens <;> cases options.tree <;> cases options.pretty <;>
    cases options.isToStandardOutput <;> cases options.assemblyOnly <;> rfl

-- The parts of the compiler that the mode starts from do not take the source.
def Rejects (source : String) : Prop :=
  match options.mode with
  | .tokens => ∃ error, (tokenize source .silent).1 = .error error
  | _ => ∃ error, (parseSource source Parser.defaultLimit .silent).1 = .error error

theorem isOk_eq_false_iff {ε α : Type} {result : Except ε α} :
    result.isOk = false ↔ ∃ error, result = .error error := by
  cases result <;> simp [Except.isOk, Except.toBool]

instance (source : String) : Decidable (options.Rejects source) :=
  decidable_of_iff
    ((match options.mode with
      | .tokens => (tokenize source .silent).1.isOk
      | _ => (parseSource source Parser.defaultLimit .silent).1.isOk) = false)
    (by unfold Rejects; split <;> exact isOk_eq_false_iff)

theorem exists_error_iff {ε α : Type} {first second : Except ε α}
    (h : ∀ value, first = .ok value ↔ second = .ok value) :
    (∃ error, first = .error error) ↔ ∃ error, second = .error error := by
  cases first with
  | error error =>
    cases second with
    | error other => simp
    | ok value => cases (h value).mpr rfl
  | ok value => simp [(h value).mp rfl]

variable {options} in
-- Whether the source is taken does not depend on whether a trace is wanted.
theorem rejects_iff_of_tokens (hmode : options.mode = .tokens) (source : String) (log : Log) :
    options.Rejects source ↔ ∃ error, (tokenize source log).1 = .error error := by
  unfold Rejects
  rw [hmode]
  exact exists_error_iff fun tokens =>
    ⟨fun h => tokenize_ok_of_log h log, fun h => tokenize_ok_of_log h .silent⟩

variable {options} in
theorem rejects_iff_of_tree (hmode : options.mode ≠ .tokens) (source : String) (log : Log) :
    options.Rejects source ↔
      ∃ error, (parseSource source Parser.defaultLimit log).1 = .error error := by
  unfold Rejects
  split
  · next htokens => exact absurd htokens hmode
  · exact exists_error_iff fun tree =>
      ⟨fun h => parseSource_ok_of_log h log, fun h => parseSource_ok_of_log h .silent⟩

-- The first file to be written that is the input file, or that no path can denote.
def obstacle? (current : Location) : Option String :=
  options.mode.paths.find? fun path =>
    '\x00' ∈ path.toList ∨ Path.resolve current path = Path.resolve current options.input

-- The driver has a name, and answers that it has made the executable.
def IsDriven (answer : DriverAnswer) : Prop :=
  options.driver ≠ none ∧ ∃ errors, answer = .finished 0 errors

-- When a run ends in a fault that nothing answers for: a path cannot be one, the input is no
-- text, or the target has been taken away.
def Escapes (files : FileTree) (current : Location) : Prop :=
  '\x00' ∈ options.input.toList ∨
    ∃ bytes, files.read current options.input = .ok bytes ∧
      ((∃ fault, Text.Utf8.decode bytes = .error fault) ∨
        ∃ text, Text.Utf8.decode bytes = .ok text ∧
          (options.target = none ∨
            ∃ path, options.obstacle? current = some path ∧ '\x00' ∈ path.toList))

end Options

end TinyC.Command
