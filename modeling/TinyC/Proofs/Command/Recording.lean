import TinyC.Command.Run

namespace TinyC.Command

-- What a run does that lasts: a file is written, the driver is run, or something is printed.
inductive Effect where
  | wrote (path text : String)
  | ran (command : List String)
  | printed (text : String)
deriving DecidableEq, Repr

-- A host that also keeps what has been done so far, in order. A file that could not be written
-- is not counted, and a command is, whatever the driver answers.
def Host.recorded {m : Type → Type} [Monad m] (host : Host m) : Host (StateT (List Effect) m) where
  readFile path := host.readFile path
  writeFile path text := do
    let answer ← host.writeFile path text
    if answer matches .ok () then modify (· ++ [.wrote path text])
    return answer
  resolve path := host.resolve path
  runDriver command := do
    modify (· ++ [.ran command])
    host.runDriver command
  print text := do
    modify (· ++ [.printed text])
    host.print text
  report text := host.report text

section Forgets

variable {m : Type → Type} [Monad m] {α β : Type}

-- Without what it keeps, the recorded action is the plain one.
def Forgets (recorded : StateT (List Effect) m α) (plain : m α) : Prop :=
  ∀ before, Prod.fst <$> recorded.run before = plain

theorem Forgets.ite (p : Prop) [Decidable p] {first second : StateT (List Effect) m α}
    {plain other : m α} (hfirst : Forgets first plain) (hsecond : Forgets second other) :
    Forgets (if p then first else second) (if p then plain else other) := by
  split
  · exact hfirst
  · exact hsecond

variable [LawfulMonad m]

theorem Forgets.pure (value : α) :
    Forgets (Pure.pure value : StateT (List Effect) m α) (Pure.pure value) := by
  intro before
  simp

theorem Forgets.bind {recorded : StateT (List Effect) m α} {plain : m α}
    {next : α → StateT (List Effect) m β} {rest : α → m β} (h : Forgets recorded plain)
    (hnext : ∀ value, Forgets (next value) (rest value)) :
    Forgets (recorded >>= next) (plain >>= rest) := by
  intro before
  have hrest : ∀ result : α × List Effect, Prod.fst <$> (next result.1).run result.2 =
      rest result.1 := fun result => hnext result.1 result.2
  rw [StateT.run_bind, map_bind, ← h before, bind_map_left]
  exact bind_congr hrest

theorem Forgets.lift (plain : m α) : Forgets (StateT.lift plain) plain := by
  intro before
  simp [StateT.run, StateT.lift]

-- To keep something is no part of the plain action.
theorem Forgets.modify_bind (keep : List Effect → List Effect)
    {recorded : Unit → StateT (List Effect) m α} {plain : m α} (h : Forgets (recorded ()) plain) :
    Forgets (modify keep >>= recorded) plain := by
  intro before
  rw [StateT.run_bind, StateT.run_modify, pure_bind]
  exact h (keep before)

theorem Forgets.forM {recorded : α → StateT (List Effect) m PUnit} {plain : α → m PUnit}
    (items : List α) (h : ∀ item, Forgets (recorded item) (plain item)) :
    Forgets (items.forM recorded) (items.forM plain) := by
  induction items with
  | nil => exact .pure _
  | cons item rest ih => exact (h item).bind fun _ => ih

variable (host : Host m) (choices : Choices) (options : Options)

theorem forgets_readFile (path : String) :
    Forgets (host.recorded.readFile path) (host.readFile path) := .lift _

theorem forgets_resolve (path : String) :
    Forgets (host.recorded.resolve path) (host.resolve path) := .lift _

theorem forgets_report (text : String) :
    Forgets (host.recorded.report text) (host.report text) := .lift _

theorem forgets_runDriver (command : List String) :
    Forgets (host.recorded.runDriver command) (host.runDriver command) :=
  .modify_bind _ (.lift _)

theorem forgets_print (text : String) :
    Forgets (host.recorded.print text) (host.print text) := .modify_bind _ (.lift _)

theorem forgets_writeFile (path text : String) :
    Forgets (host.recorded.writeFile path text) (host.writeFile path text) := by
  have hkeep : Forgets (host.recorded.writeFile path text) (host.writeFile path text >>= pure) := by
    refine (Forgets.lift (host.writeFile path text)).bind fun answer => ?_
    cases answer with
    | error error => exact .pure _
    | ok done => exact .modify_bind _ (.pure _)
  rwa [bind_pure] at hkeep

theorem forgets_note (logger : String) (level : Level) (message : String) :
    Forgets (note host.recorded choices logger level message)
      (note host choices logger level message) :=
  .ite _ (forgets_report host _) (.pure _)

theorem forgets_traced {ε : Type} (stage : Log → Except ε α × Log) :
    Forgets (traced host.recorded choices stage) (traced host choices stage) :=
  (Forgets.forM _ fun line => forgets_note host choices _ _ line).bind fun _ => .pure _

theorem forgets_readInput (input : String) :
    Forgets (readInput host.recorded input) (readInput host input) := by
  refine (forgets_readFile host input).bind fun answer => ?_
  cases answer with
  | error error =>
    cases error with
    | mk fault path =>
      cases fault with
      | nullInPath => exact .pure _
      | _ => exact (forgets_report host _).bind fun _ => .pure _
  | ok bytes =>
    dsimp only
    cases Text.Utf8.decode bytes <;> exact .pure _

theorem forgets_guardInput (input : String) (paths : List String) :
    Forgets (guardInput host.recorded input paths) (guardInput host input paths) := by
  induction paths with
  | nil => exact .pure _
  | cons path rest ih =>
    refine (forgets_resolve host path).bind fun first => ?_
    refine (forgets_resolve host input).bind fun second => ?_
    cases first with
    | none => exact .pure _
    | some place =>
      cases second with
      | none => exact .pure _
      | some inputPlace => exact .ite _ ((forgets_report host _).bind fun _ => .pure _) ih

theorem forgets_showTokens (source : String) :
    Forgets (showTokens host.recorded options source) (showTokens host options source) := by
  refine (forgets_traced host _ _).bind fun result => ?_
  cases result with
  | error error => exact .pure _
  | ok tokens => exact (Forgets.forM _ fun token => forgets_print host _).bind fun _ => .pure _

theorem forgets_showTree (source : String) :
    Forgets (showTree host.recorded options source) (showTree host options source) := by
  refine (forgets_traced host _ _).bind fun result => ?_
  cases result with
  | error error => exact .pure _
  | ok program =>
    dsimp only
    split
    · exact .pure _
    · exact (forgets_print host _).bind fun _ => .pure _

theorem forgets_save (text : String) :
    Forgets (save host.recorded options text) (save host options text) := by
  have hsave : Forgets
      (Link.save host.recorded.writeFile (noteToolchain host.recorded options.toChoices)
        options.assemblyPath text)
      (Link.save host.writeFile (noteToolchain host options.toChoices)
        options.assemblyPath text) := by
    refine (forgets_writeFile host _ _).bind fun answer => ?_
    cases answer with
    | error error => exact .pure _
    | ok done => exact (forgets_note host _ _ _ _).bind fun _ => .pure _
  refine hsave.bind fun result => ?_
  cases result <;> exact .pure _

theorem forgets_link (assembly : String) :
    Forgets (link host.recorded options assembly) (link host options assembly) := by
  unfold link
  split
  · exact .pure _
  · next driver _ =>
    have hlink : Forgets
        (Link.link host.recorded.runDriver (noteToolchain host.recorded options.toChoices)
          driver assembly options.executablePath)
        (Link.link host.runDriver (noteToolchain host options.toChoices)
          driver assembly options.executablePath) := by
      refine (forgets_note host _ _ _ _).bind fun _ => ?_
      refine (forgets_runDriver host _).bind fun answer => ?_
      cases answer with
      | missing | unusable => exact .pure _
      | finished status errors =>
        refine .ite _ (.pure _) ?_
        exact .ite _ ((forgets_note host _ _ _ _).bind fun _ => .pure _) (.pure _)
    refine hlink.bind fun result => ?_
    cases result with
    | error error => exact .pure _
    | ok executable => exact (forgets_note host _ _ _ _).bind fun _ => .pure _

theorem forgets_build (target : Target) (source : String) :
    Forgets (build host.recorded options target source) (build host options target source) := by
  refine (forgets_traced host _ _).bind fun result => ?_
  cases result with
  | error error => exact .pure _
  | ok text =>
    refine (forgets_note host _ _ _ _).bind fun _ => ?_
    refine .ite _ ((forgets_print host _).bind fun _ => .pure _) ?_
    refine (forgets_save host options text).bind fun saved => ?_
    cases saved with
    | error failure => exact .pure _
    | ok assembly => exact .ite _ (.pure _) (forgets_link host options assembly)

theorem forgets_perform (target : Target) (source : String) :
    Forgets (perform host.recorded options target source) (perform host options target source) :=
  .ite _ (forgets_showTokens host options source) (.ite _ (forgets_showTree host options source)
    (forgets_build host options target source))

theorem forgets_fail (failure : Failure) :
    Forgets (fail host.recorded options failure) (fail host options failure) := by
  refine (forgets_report host _).bind fun _ => ?_
  cases failure with
  | internal message =>
    exact .ite _ ((forgets_report host _).bind fun _ => .pure _) (.pure _)
  | _ => exact .pure _

theorem forgets_runOptions :
    Forgets (runOptions host.recorded options) (runOptions host options) := by
  refine (forgets_readInput host options.input).bind fun result => ?_
  cases result with
  | error outcome => exact .pure _
  | ok source =>
    refine (forgets_note host _ _ _ _).bind fun _ => ?_
    split
    · exact .pure _
    · next target _ =>
      refine (forgets_note host _ _ _ _).bind fun _ => ?_
      refine (forgets_guardInput host options.input options.outputs).bind fun guarded => ?_
      cases guarded with
      | error outcome => exact .pure _
      | ok done =>
        refine (forgets_perform host options target source).bind fun performed => ?_
        cases performed with
        | error failure => exact forgets_fail host options failure
        | ok done => exact .pure _

-- A run is the same whether or not its effects are kept.
theorem forgets_run (arguments : List String) :
    Forgets (run host.recorded arguments) (run host arguments) := by
  unfold run
  split
  · exact forgets_runOptions host _
  · exact (forgets_print host _).bind fun _ => .pure _
  · exact (forgets_print host _).bind fun _ => .pure _
  · exact (forgets_report host _).bind fun _ => .pure _

end Forgets

end TinyC.Command
