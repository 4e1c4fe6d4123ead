import TinyC.Proofs.Command.Recording
import TinyC.Proofs.File.Tree

namespace TinyC.Command

-- The command that the driver is run with.
def Effect.command? : Effect → Option (List String)
  | .ran command => some command
  | _ => none

namespace World

-- The world once an effect has come about.
def take (world : World) : Effect → World
  | .wrote path text =>
    { world with files :=
        match world.files.write world.current path (Text.Utf8.encode text) with
        | .ok files => files
        | .error _ => world.files }
  | .ran command => { world with calls := command :: world.calls }
  | .printed text => { world with output := world.output ++ text }

-- The world after a run that has done this and has reported the message.
def after (world : World) (done : List Effect) (message : String) : World :=
  { done.foldl take world with errors := world.errors ++ message }

@[simp]
theorem after_nil (world : World) : world.after [] "" = world := by
  simp [after]

theorem take_errors (world : World) (effect : Effect) (errors : String) :
    { world with errors := errors }.take effect = { world.take effect with errors := errors } := by
  cases effect <;> rfl

theorem foldl_take_errors (world : World) (done : List Effect) (errors : String) :
    done.foldl take { world with errors := errors } =
      { done.foldl take world with errors := errors } := by
  induction done generalizing world with
  | nil => rfl
  | cons effect rest ih => rw [List.foldl_cons, List.foldl_cons, take_errors, ih]

theorem after_after (world : World) (done later : List Effect) (message more : String) :
    (world.after done message).after later more =
      world.after (done ++ later) (message ++ more) := by
  simp only [after, foldl_take_errors, List.foldl_append, String.append_assoc]

variable {world : World} {effect : Effect} {done : List Effect} {input : String}
  {bytes : List UInt8}

theorem current_take (world : World) (effect : Effect) :
    (world.take effect).current = world.current := by
  cases effect <;> rfl

theorem driver_after (world : World) (done : List Effect) (message : String) :
    (world.after done message).driver = world.driver := by
  show (done.foldl take world).driver = world.driver
  induction done generalizing world with
  | nil => rfl
  | cons effect rest ih =>
    rw [List.foldl_cons, ih]
    cases effect <;> rfl

theorem calls_take (world : World) (effect : Effect) :
    (world.take effect).calls = effect.command?.toList ++ world.calls := by
  cases effect <;> rfl

-- Only the entry of a file that is written changes, and then it holds the text.
theorem entry?_take (world : World) (effect : Effect) (place : Location) :
    FileTree.entry? (world.take effect).files place = world.files.entry? place ∨
      ∃ path text, effect = .wrote path text ∧ place = Path.resolve world.current path ∧
        FileTree.entry? (world.take effect).files place = some (.file (Text.Utf8.encode text)) := by
  cases effect with
  | wrote path text =>
    cases hwrite : world.files.write world.current path (Text.Utf8.encode text) with
    | error error => simp [take, hwrite]
    | ok files =>
      by_cases hplace : place = Path.resolve world.current path
      · subst hplace
        right
        refine ⟨path, text, rfl, rfl, ?_⟩
        simpa [take, hwrite] using FileTree.entry?_write_self hwrite
      · simp [take, hwrite, FileTree.entry?_write_of_ne hwrite hplace]
  | _ => exact .inl rfl

theorem read_take (hread : world.files.read world.current input = .ok bytes)
    (hapart : ∀ path text, effect = .wrote path text →
      Path.resolve world.current path ≠ Path.resolve world.current input) :
    (world.take effect).files.read world.current input = .ok bytes := by
  cases effect with
  | wrote path text =>
    cases hwrite : world.files.write world.current path (Text.Utf8.encode text) with
    | error error => simpa [take, hwrite] using hread
    | ok files =>
      simpa [take, hwrite] using
        FileTree.read_write_of_ne hwrite (hapart path text rfl).symm hread
  | _ => exact hread

theorem calls_after (world : World) (done : List Effect) (message : String) :
    (world.after done message).calls =
      (done.filterMap Effect.command?).reverse ++ world.calls := by
  show (done.foldl take world).calls = _
  induction done generalizing world with
  | nil => rfl
  | cons effect rest ih =>
    rw [List.foldl_cons, ih, calls_take, List.filterMap_cons]
    cases effect <;> simp [Effect.command?]

theorem entry?_after (world : World) (done : List Effect) (message : String) (place : Location) :
    FileTree.entry? (world.after done message).files place = world.files.entry? place ∨
      ∃ path text, .wrote path text ∈ done ∧ place = Path.resolve world.current path ∧
        FileTree.entry? (world.after done message).files place =
          some (.file (Text.Utf8.encode text)) := by
  show FileTree.entry? (done.foldl take world).files place = _ ∨ ∃ path text, _ ∧ _ ∧
    FileTree.entry? (done.foldl take world).files place = _
  induction done generalizing world with
  | nil => exact .inl rfl
  | cons effect rest ih =>
    rw [List.foldl_cons]
    rcases ih (world.take effect) with hsame | ⟨path, text, hmem, hplace, hentry⟩
    · rcases entry?_take world effect place with hfirst | ⟨path, text, rfl, hplace, hentry⟩
      · exact .inl (hsame.trans hfirst)
      · exact .inr ⟨path, text, List.mem_cons_self, hplace, hsame.trans hentry⟩
    · rw [current_take] at hplace
      exact .inr ⟨path, text, List.mem_cons_of_mem _ hmem, hplace, hentry⟩

-- What is not written over can be read as before.
theorem read_after (hread : world.files.read world.current input = .ok bytes)
    (hapart : ∀ path text, .wrote path text ∈ done →
      Path.resolve world.current path ≠ Path.resolve world.current input) (message : String) :
    (world.after done message).files.read world.current input = .ok bytes := by
  show (done.foldl take world).files.read world.current input = .ok bytes
  induction done generalizing world with
  | nil => exact hread
  | cons effect rest ih =>
    have hfirst := read_take hread fun path text heffect =>
      hapart path text (heffect ▸ List.mem_cons_self)
    rw [← current_take world effect] at hfirst hapart ⊢
    exact ih hfirst fun path text hmem => hapart path text (List.mem_cons_of_mem _ hmem)

end World

section Does

variable {α β : Type} {world : World} {done later : List Effect} {message more : String}

-- The recorded run from a world: its result, what it adds to the effects, and what it reports.
def Does (action : StateT (List Effect) (StateM World) α) (world : World) (result : α)
    (done : List Effect) (message : String) : Prop :=
  ∀ before, (action.run before).run world = ((result, before ++ done), world.after done message)

theorem Does.pure (value : α) (world : World) : Does (Pure.pure value) world value [] "" := by
  intro before
  rw [World.after_nil, List.append_nil]
  rfl

theorem Does.bind {action : StateT (List Effect) (StateM World) α}
    {next : α → StateT (List Effect) (StateM World) β} {value : α} {result : β}
    (h : Does action world value done message)
    (hnext : Does (next value) (world.after done message) result later more) :
    Does (action >>= next) world result (done ++ later) (message ++ more) := by
  intro before
  rw [StateT.run_bind, StateT.run_bind, h before, ← List.append_assoc, ← World.after_after]
  exact hnext (before ++ done)

-- An action that reports nothing, before another one.
theorem Does.andThen {action : StateT (List Effect) (StateM World) α}
    {next : α → StateT (List Effect) (StateM World) β} {value : α} {result : β}
    (h : Does action world value done "")
    (hnext : Does (next value) (world.after done "") result later message) :
    Does (action >>= next) world result (done ++ later) message := by
  have hboth := h.bind hnext
  rwa [String.empty_append] at hboth

-- An action that only looks at the world, before another one.
theorem Does.peek {action : StateT (List Effect) (StateM World) α}
    {next : α → StateT (List Effect) (StateM World) β} {value : α} {result : β}
    (h : Does action world value [] "") (hnext : Does (next value) world result done message) :
    Does (action >>= next) world result done message := by
  rw [← World.after_nil world] at hnext
  exact h.andThen hnext

theorem Does.exists_ite {p : Prop} [Decidable p] {value : α}
    {first second : StateT (List Effect) (StateM World) α}
    (hfirst : ∃ message, Does first world value done message)
    (hsecond : ∃ message, Does second world value done message) :
    ∃ message, Does (if p then first else second) world value done message := by
  split
  · exact hfirst
  · exact hsecond

theorem does_readFile (path : String) (world : World) :
    Does (World.host.recorded.readFile path) world (world.files.read world.current path) [] "" := by
  intro before
  rw [World.after_nil, List.append_nil]
  rfl

theorem does_resolve (path : String) (world : World) :
    Does (World.host.recorded.resolve path) world
      (if path.toList.contains '\x00' then none else some (Path.resolve world.current path))
      [] "" := by
  intro before
  rw [World.after_nil, List.append_nil]
  rfl

theorem does_report (text : String) (world : World) :
    Does (World.host.recorded.report text) world () [] text := by
  intro before
  rw [List.append_nil]
  rfl

theorem does_report_pure (text : String) (value : α) (world : World) :
    Does (do World.host.recorded.report text; return value) world value [] text := by
  intro before
  rw [List.append_nil]
  rfl

theorem does_print (text : String) (world : World) :
    Does (World.host.recorded.print text) world () [.printed text] "" := by
  intro before
  rw [World.after, String.append_empty]
  rfl

theorem does_runDriver (command : List String) (world : World) :
    Does (World.host.recorded.runDriver command) world world.driver [.ran command] "" := by
  intro before
  rw [World.after, String.append_empty]
  rfl

theorem run_lift_bind (action : StateM World α)
    (next : α → StateT (List Effect) (StateM World) β) (before : List Effect) (world : World) :
    ((StateT.lift action >>= next).run before).run world =
      ((next (action.run world).1).run before).run (action.run world).2 := rfl

theorem World.run_writeFile (path text : String) (world : World) :
    (World.writeFile path text).run world =
      match world.files.write world.current path (Text.Utf8.encode text) with
      | .error error => (.error error, world)
      | .ok files => (.ok (), { world with files := files }) := by
  show StateT.run (match world.files.write world.current path (Text.Utf8.encode text) with
    | .error error => (return .error error : StateM World (Except FileError Unit))
    | .ok files => do
      set { world with files := files }
      return .ok ()) world = _
  cases world.files.write world.current path (Text.Utf8.encode text) <;> rfl

theorem does_writeFile_ok {path text : String} {files : FileTree}
    (h : world.files.write world.current path (Text.Utf8.encode text) = .ok files) :
    Does (World.host.recorded.writeFile path text) world (.ok ()) [.wrote path text] "" := by
  intro before
  have hanswer := World.run_writeFile path text world
  rw [h] at hanswer
  refine (run_lift_bind (World.writeFile path text) _ before world).trans ?_
  rw [hanswer, World.after, String.append_empty, List.foldl_cons, World.take, h]
  rfl

theorem does_writeFile_error {path text : String} {error : FileError}
    (h : world.files.write world.current path (Text.Utf8.encode text) = .error error) :
    Does (World.host.recorded.writeFile path text) world (.error error) [] "" := by
  intro before
  have hanswer := World.run_writeFile path text world
  rw [h] at hanswer
  refine (run_lift_bind (World.writeFile path text) _ before world).trans ?_
  rw [hanswer, World.after_nil, List.append_nil]
  rfl

-- Actions that print do so in turn.
theorem does_forM_print (text : α → String) (items : List α) (world : World) :
    Does (items.forM fun item => World.host.recorded.print (text item)) world ()
      (items.map fun item => .printed (text item)) "" := by
  induction items generalizing world with
  | nil => exact .pure _ _
  | cons item rest ih => exact (does_print (text item) world).andThen (ih _)

theorem does_note (choices : Choices) (logger : String) (level : Level) (text : String)
    (world : World) :
    ∃ message, Does (note World.host.recorded choices logger level text) world () [] message :=
  Does.exists_ite ⟨_, does_report _ _⟩ ⟨_, .pure _ _⟩

theorem does_traced {ε : Type} (choices : Choices) (stage : Log → Except ε α × Log)
    (world : World) :
    ∃ message, Does (traced World.host.recorded choices stage) world
      (stage (.empty choices.trace)).1 [] message := by
  have hlines : ∀ (lines : List String) (world : World), ∃ message,
      Does (lines.forM (noteMain World.host.recorded choices .debug)) world () [] message := by
    intro lines
    induction lines with
    | nil => exact fun world => ⟨_, .pure _ _⟩
    | cons line rest ih =>
      intro world
      obtain ⟨first, hfirst⟩ := does_note choices "x64cc" .debug line world
      obtain ⟨second, hsecond⟩ := ih (world.after [] first)
      exact ⟨_, hfirst.bind hsecond⟩
  obtain ⟨message, hmessage⟩ := hlines (stage (.empty choices.trace)).2.lines world
  exact ⟨_, hmessage.bind (.pure _ _)⟩

end Does

end TinyC.Command
