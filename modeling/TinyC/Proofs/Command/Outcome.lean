import TinyC.Proofs.Command.Ending

namespace TinyC.Command

section Options

variable {options : Options} {current : Location} {path : String}

theorem Options.apart_of_obstacle?_eq_none (h : options.obstacle? current = none)
    (hpath : path ∈ options.mode.paths) :
    Path.resolve current path ≠ Path.resolve current options.input := by
  have hfree := List.find?_eq_none.mp h path hpath
  simp only [decide_eq_true_eq, not_or] at hfree
  exact hfree.2

-- The assembly of an executable is beside the input, whose path is one.
theorem Options.not_mem_null_of_linked {assembly executable : String}
    (hmode : options.mode = .linked assembly executable) (hinput : '\x00' ∉ options.input.toList) :
    '\x00' ∉ assembly.toList := by
  have hassembly : assembly = Path.stem options.input ++ ".s" := by
    simp only [mode] at hmode
    grind
  rw [hassembly, String.toList_append, List.mem_append]
  rintro (hmem | hmem)
  · exact hinput (Path.mem_of_mem_stem hmem)
  · revert hmem
    decide

-- If a file to be written is the input, then what is in the way can be denoted.
theorem Options.exists_obstacle (hinput : '\x00' ∉ options.input.toList)
    (hpath : path ∈ options.mode.paths) (hnull : '\x00' ∉ path.toList)
    (hsame : Path.resolve current path = Path.resolve current options.input) :
    ∃ first, options.obstacle? current = some first ∧ '\x00' ∉ first.toList := by
  unfold obstacle?
  cases hmode : options.mode with
  | saved assembly =>
    rw [hmode] at hpath
    obtain rfl := List.mem_singleton.mp hpath
    exact ⟨path, List.find?_cons_of_pos (by simp [hsame]), hnull⟩
  | linked assembly executable =>
    rw [hmode] at hpath
    have hassembly := Options.not_mem_null_of_linked hmode hinput
    by_cases hfirst : Path.resolve current assembly = Path.resolve current options.input
    · exact ⟨assembly, List.find?_cons_of_pos (by simp [hfirst]), hassembly⟩
    obtain rfl : path = executable := by
      rcases List.mem_cons.mp hpath with rfl | hmem
      · exact absurd hsame hfirst
      · exact List.mem_singleton.mp hmem
    refine ⟨path, ?_, hnull⟩
    rw [Mode.paths, List.find?_cons_of_neg (by simp [hassembly, hfirst])]
    exact List.find?_cons_of_pos (by simp [hsame])
  | _ =>
    rw [hmode] at hpath
    cases hpath

end Options

section Ends

variable {options : Options} {target : Target} {source : String} {files : FileTree}
  {current : Location} {answer : DriverAnswer} {outcome : Outcome}
  {result : Except Failure Unit} {done : List Effect} {effect : Effect}

theorem Performs.mem_plan (h : Performs options files current answer target source result done)
    (hmem : effect ∈ done) :
    (∃ text, effect = .printed text) ∨ ∃ text, effect ∈ options.mode.plan options.driver text := by
  cases h with
  | rejected _ _ => cases hmem
  | unshown _ _ _ => cases hmem
  | shown texts _ _ =>
    obtain ⟨text, _, rfl⟩ := List.mem_map.mp hmem
    exact .inl ⟨text, rfl⟩
  | unsaved _ _ _ _ => cases hmem
  | undriven _ _ _ _ => exact .inr ⟨_, hmem⟩
  | completed _ _ _ => exact .inr ⟨_, hmem⟩

-- Whatever is done has been planned, and nothing was in the way.
theorem Ends.mem_plan (h : Ends options files current answer outcome done) (hmem : effect ∈ done) :
    options.obstacle? current = none ∧ ((∃ text, effect = .printed text) ∨
      ∃ text, effect ∈ options.mode.plan options.driver text) := by
  cases h with
  | unread _ => cases hmem
  | untargeted _ _ => cases hmem
  | refused _ _ _ => cases hmem
  | failed _ _ hclear hperforms => exact ⟨hclear, hperforms.mem_plan hmem⟩
  | finished _ _ hclear hperforms => exact ⟨hclear, hperforms.mem_plan hmem⟩

theorem Ends.wrote_apart {path text : String} (h : Ends options files current answer outcome done)
    (hmem : .wrote path text ∈ done) :
    Path.resolve current path ≠ Path.resolve current options.input := by
  obtain ⟨hclear, ⟨_, ⟨⟩⟩ | ⟨text, hplan⟩⟩ := h.mem_plan hmem
  obtain ⟨assembly, hassembly, rfl, _⟩ := Mode.wrote_mem_plan hplan
  rw [Path.resolve_normal]
  exact Options.apart_of_obstacle?_eq_none hclear (Mode.mem_paths_of_assembly? hassembly)

theorem Ends.ran_apart {command : List String} (h : Ends options files current answer outcome done)
    (hmem : .ran command ∈ done) :
    ∃ driver assembly executable, command = [driver, assembly, "-o", executable] ∧
      Path.resolve current executable ≠ Path.resolve current options.input := by
  obtain ⟨hclear, ⟨_, ⟨⟩⟩ | ⟨text, hplan⟩⟩ := h.mem_plan hmem
  obtain ⟨driver, assembly, executable, rfl, hpath⟩ := Mode.ran_mem_plan hplan
  exact ⟨driver, assembly, executable, rfl, Options.apart_of_obstacle?_eq_none hclear hpath⟩

-- Once the input has been read, only a target or a file to be written can be at fault.
theorem Reads.escapes_iff (h : Reads files current options.input (.ok source)) :
    options.Escapes files current ↔ options.target = none ∨
      ∃ path, options.obstacle? current = some path ∧ '\x00' ∈ path.toList := by
  have hnull := h.not_mem_null
  cases h with
  | source hread htext => simp [Options.Escapes, hread, htext, hnull]

theorem Reads.escapes_iff_of_error (h : Reads files current options.input (.error outcome)) :
    options.Escapes files current ↔ ∃ fault, outcome = .escaped fault := by
  cases h with
  | unreadable hread hnull => simp [Options.Escapes, hread, hnull]
  | nullInPath hnull => simp [Options.Escapes, hnull]
  | notText hread htext => simp [Options.Escapes, hread, htext]

-- A run ends in a fault that nothing answers for exactly when its options say so.
theorem Ends.escapes_iff (h : Ends options files current answer outcome done) :
    options.Escapes files current ↔ ∃ fault, outcome = .escaped fault := by
  cases h with
  | unread hread => exact hread.escapes_iff_of_error
  | untargeted hread htarget => simp [hread.escapes_iff, htarget]
  | refused hread htarget hguard =>
    cases hguard with
    | nullInPath hpath hnull => simp [hread.escapes_iff, hpath, hnull]
    | isInput hpath hnull => simp [hread.escapes_iff, htarget, hpath, hnull]
  | failed hread htarget hclear _ => simp [hread.escapes_iff, htarget, hclear]
  | finished hread htarget hclear _ => simp [hread.escapes_iff, htarget, hclear]

theorem Failure.exitCode_cases (failure : Failure) :
    failure.exitCode = 1 ∨ failure.exitCode = 2 := by
  cases failure <;> simp [exitCode]

theorem Ends.exit_cases (h : Ends options files current answer outcome done) :
    (∃ fault, outcome = .escaped fault) ∨ ∃ code ∈ [0, 1, 2], outcome = .exit code := by
  cases h with
  | unread hread => cases hread <;> simp
  | untargeted _ _ => simp
  | refused _ _ hguard => cases hguard <;> simp
  | @failed _ _ failure _ _ _ _ _ =>
    rcases failure.exitCode_cases with hcode | hcode <;> simp [hcode]
  | finished _ _ _ _ => simp

theorem Ends.fails_iff (h : Ends options files current answer outcome done)
    (hne : outcome ≠ .exit 0) :
    (∃ code, outcome = .exit code ∧ code ≠ 0) ↔ ¬ options.Escapes files current := by
  rw [h.escapes_iff]
  rcases h.exit_cases with ⟨fault, rfl⟩ | ⟨code, _, rfl⟩
  · simp
  · have hcode : code ≠ 0 := by simpa using hne
    simp [hcode]

theorem Reads.functional {input : String} {first second : Except Outcome String}
    (h : Reads files current input first) (hother : Reads files current input second) :
    first = second := by
  have hpath : ∀ bytes, files.read current input = .ok bytes → '\x00' ∉ input.toList :=
    fun bytes => FileTree.not_mem_null_of_read
  cases h <;> cases hother <;> simp_all

theorem Ends.of_unreadable {error : FileError} (h : Ends options files current answer outcome done)
    (hread : files.read current options.input = .error error)
    (hnull : '\x00' ∉ options.input.toList) : outcome = .exit 1 ∧ done = [] := by
  cases h with
  | unread hreads =>
    cases hreads.functional (.unreadable hread hnull)
    exact ⟨rfl, rfl⟩
  | untargeted hreads _ => cases hreads.functional (.unreadable hread hnull)
  | refused hreads _ _ => cases hreads.functional (.unreadable hread hnull)
  | failed hreads _ _ _ => cases hreads.functional (.unreadable hread hnull)
  | finished hreads _ _ _ => cases hreads.functional (.unreadable hread hnull)

-- With a source at hand, a run ends for want of a target, at an obstacle, or with what the mode
-- comes to.
theorem Ends.of_source {bytes : List UInt8} {text : List Char}
    (h : Ends options files current answer outcome done)
    (hread : files.read current options.input = .ok bytes)
    (htext : Text.Utf8.decode bytes = .ok text) :
    (options.target = none ∧ outcome = .escaped .noTarget ∧ done = []) ∨
      (options.target ≠ none ∧ Guards (options.obstacle? current) (.error outcome) ∧ done = []) ∨
      ∃ target result, options.target = some target ∧ options.obstacle? current = none ∧
        Performs options files current answer target
          (String.ofList (Text.unifyNewlines text)) result done ∧
        (outcome = .exit 0 ↔ result = .ok ()) := by
  cases h with
  | unread hreads => cases hreads.functional (.source hread htext)
  | untargeted _ htarget => exact .inl ⟨htarget, rfl, rfl⟩
  | refused _ htarget hguard => exact .inr (.inl ⟨htarget, hguard, rfl⟩)
  | @failed _ target failure _ hreads htarget hclear hperforms =>
    cases hreads.functional (.source hread htext)
    refine .inr (.inr ⟨target, _, htarget, hclear, hperforms, ?_⟩)
    rcases failure.exitCode_cases with hcode | hcode <;> simp [hcode]
  | finished hreads htarget hclear hperforms =>
    cases hreads.functional (.source hread htext)
    exact .inr (.inr ⟨_, _, htarget, hclear, hperforms, by simp⟩)

-- The parts that compile a source take it.
theorem Options.not_rejects_of_compile {text : String} (hmode : options.mode.isDump = false)
    (h : (compile source target.name .silent).1 = .ok text) : ¬ options.Rejects source := by
  have hne : options.mode ≠ .tokens := by
    intro htokens
    rw [htokens] at hmode
    cases hmode
  obtain ⟨tree, _, _, htree, _⟩ := exists_code_of_compile h
  simp [Options.rejects_iff_of_tree hne source .silent, htree]

theorem Performs.of_rejects (h : Performs options files current answer target source result done)
    (hsource : options.Rejects source) : done = [] ∧ result ≠ .ok () := by
  cases h with
  | rejected _ _ => simp
  | unshown _ _ htaken => exact absurd hsource htaken
  | shown _ _ htaken => exact absurd hsource htaken
  | unsaved _ _ _ _ => simp
  | undriven _ hmode htext _ =>
    exact absurd hsource (Options.not_rejects_of_compile (by rw [hmode]; rfl) htext)
  | completed hmode htext _ => exact absurd hsource (Options.not_rejects_of_compile hmode htext)

-- What is done with a source that is taken and is not only to be shown: all that is planned, unless
-- the assembly file cannot be written.
theorem Performs.of_taken (h : Performs options files current answer target source result done)
    (hsource : ¬ options.Rejects source) (hmode : options.mode.isDump = false) :
    ∃ text, (compile source target.name .silent).1 = .ok text ∧
      ((∃ path error, options.mode.assembly? = some path ∧
          files.write current (Path.normal path) (Text.Utf8.encode text) = .error error ∧
          done = [] ∧ result ≠ .ok ()) ∨
        done = options.mode.plan options.driver text ∧
          (result = .ok () ↔ ∀ assembly executable,
            options.mode = .linked assembly executable → options.IsDriven answer)) := by
  cases h with
  | rejected _ hrejects => exact absurd hrejects hsource
  | unshown _ hdump _ =>
    rw [hmode] at hdump
    cases hdump
  | shown _ hdump _ =>
    rw [hmode] at hdump
    cases hdump
  | unsaved _ hassembly htext hwrite =>
    exact ⟨_, htext, .inl ⟨_, _, hassembly, hwrite, rfl, nofun⟩⟩
  | undriven _ hlinked htext hdriver =>
    exact ⟨_, htext, .inr ⟨rfl, nofun, fun hall => absurd (hall _ _ hlinked) hdriver⟩⟩
  | completed _ htext hdriver => exact ⟨_, htext, .inr ⟨rfl, fun _ => hdriver, fun _ => rfl⟩⟩

end Ends

-- A world with one file, at the root, and without a driver.
def World.oneFile (name : String) (bytes : List UInt8) : World :=
  .ofFiles ⟨[([name], .file bytes)]⟩ [] .missing

-- A run from a world, whether or not its effects are kept.
theorem exists_ends {arguments : List String} {options : Options}
    (hoptions : Options.ofArguments arguments = .ok options) (world : World) :
    ∃ outcome done message,
      (run World.host arguments).run world = (outcome, world.after done message) ∧
      ((run World.host.recorded arguments).run []).run world =
        ((outcome, done), world.after done message) ∧
      Ends options world.files world.current world.driver outcome done ∧
      ((∃ code, outcome = .exit code ∧ code ≠ 0) → message ≠ "") := by
  obtain ⟨outcome, done, message, hdoes, hends, hmessage⟩ := does_runOptions options world
  have hrecorded : ((run World.host.recorded arguments).run []).run world =
      ((outcome, done), world.after done message) := by
    simp only [run, hoptions]
    exact hdoes []
  have hplain : (run World.host arguments).run world = (outcome, world.after done message) := by
    rw [← forgets_run World.host arguments [], StateT.run_map, hrecorded]
    rfl
  exact ⟨outcome, done, message, hplain, hrecorded, hends, hmessage⟩

section Runs

variable {arguments : List String} {options : Options} {world : World} {bytes : List UInt8}
  {text : List Char}

-- The input file is as it was after every run, and the driver is never to write over it. If the
-- run was to write over it, nothing is done, and that is an error unless there is no target.
theorem input_survives (hoptions : Options.ofArguments arguments = .ok options)
    (hread : world.files.read world.current options.input = .ok bytes)
    (htext : Text.Utf8.decode bytes = .ok text) :
    ∃ outcome after, (run World.host arguments).run world = (outcome, after) ∧
      after.files.read world.current options.input = .ok bytes ∧
      (∃ commands, after.calls = commands ++ world.calls ∧ ∀ command ∈ commands,
        ∃ driver assembly executable, command = [driver, assembly, "-o", executable] ∧
          Path.resolve world.current executable ≠ Path.resolve world.current options.input) ∧
      ∀ path ∈ options.mode.paths, '\x00' ∉ path.toList →
        Path.resolve world.current path = Path.resolve world.current options.input →
        after.files = world.files ∧ after.calls = world.calls ∧
          outcome = if options.target = none then .escaped .noTarget else .exit 1 := by
  obtain ⟨outcome, done, message, hrun, _, hends, _⟩ := exists_ends hoptions world
  have hinput := (Reads.source hread htext).not_mem_null
  refine ⟨outcome, world.after done message, hrun,
    World.read_after hread (fun path text => hends.wrote_apart) message,
    ⟨_, World.calls_after world done message, ?_⟩, ?_⟩
  · intro command hmem
    obtain ⟨effect, heffect, hcommand⟩ := List.mem_filterMap.mp (List.mem_reverse.mp hmem)
    cases effect with
    | ran command' =>
      cases hcommand
      exact hends.ran_apart heffect
    | _ => cases hcommand
  · intro path hpath hnull hsame
    obtain ⟨first, hfirst, hname⟩ := Options.exists_obstacle hinput hpath hnull hsame
    rcases hends.of_source hread htext with
      ⟨htarget, rfl, rfl⟩ | ⟨htarget, hguard, rfl⟩ | ⟨_, _, _, hclear, _⟩
    · exact ⟨rfl, rfl, by rw [if_pos htarget]⟩
    · refine ⟨rfl, rfl, ?_⟩
      rw [if_neg htarget]
      cases hguard with
      | nullInPath hobstacle hother =>
        rw [hfirst] at hobstacle
        cases hobstacle
        exact absurd hother hname
      | isInput _ _ => rfl
    · rw [hfirst] at hclear
      cases hclear

-- The assembly file is the input by another path.
theorem input_survives_dotted :
    let world := World.oneFile "prog.c" (Text.Utf8.encode "int f() { return 7; }")
    Options.ofArguments ["prog.c", "-S", "-o", "./prog.c"] =
        .ok ⟨{ Choices.initial with assemblyOnly := true, output := some "./prog.c" }, "prog.c"⟩ ∧
      ∃ after, (run World.host ["prog.c", "-S", "-o", "./prog.c"]).run world = (.exit 1, after) ∧
        after.files = world.files ∧ after.calls = [] := by
  intro world
  have hoptions : Options.ofArguments ["prog.c", "-S", "-o", "./prog.c"] =
      .ok ⟨{ Choices.initial with assemblyOnly := true, output := some "./prog.c" }, "prog.c"⟩ := by
    decide +kernel
  have hread : world.files.read world.current "prog.c" =
      .ok (Text.Utf8.encode "int f() { return 7; }") := by decide +kernel
  have htext : Text.Utf8.decode (Text.Utf8.encode "int f() { return 7; }") =
      .ok "int f() { return 7; }".toList := by decide +kernel
  obtain ⟨outcome, after, hrun, _, _, hobstacle⟩ := input_survives hoptions hread htext
  obtain ⟨hfiles, hcalls, rfl⟩ := hobstacle "./prog.c" (by decide +kernel) (by decide)
    (by decide +kernel)
  exact ⟨hoptions, after, hrun, hfiles, hcalls⟩

-- Without a target, an executable that is the input is no error, but a fault.
theorem overwriting_without_target_escapes :
    let world := World.oneFile "prog" (Text.Utf8.encode "int main() { return 7; }")
    ∃ options, Options.ofArguments ["--target=--", "prog"] = .ok options ∧
      (∃ path ∈ options.mode.paths, '\x00' ∉ path.toList ∧
        Path.resolve world.current path = Path.resolve world.current options.input) ∧
      ((run World.host ["--target=--", "prog"]).run world).1 = .escaped .noTarget := by
  exact ⟨⟨{ Choices.initial with target := none }, "prog"⟩, by decide +kernel,
    ⟨"prog", by decide +kernel, by decide, by decide +kernel⟩, by decide +kernel⟩

-- A rejected source leaves nothing behind but messages. One that is taken leaves what its mode
-- plans for its assembly text, in order: the driver is run after the file is written, and no other
-- file changes. Only a target, an obstacle or a file that cannot be written prevents this.
theorem effects_follow_source (hoptions : Options.ofArguments arguments = .ok options)
    (hread : world.files.read world.current options.input = .ok bytes)
    (htext : Text.Utf8.decode bytes = .ok text) :
    let source := String.ofList (Text.unifyNewlines text)
    ∃ outcome done message,
      (run World.host arguments).run world = (outcome, world.after done message) ∧
      ((run World.host.recorded arguments).run []).run world =
        ((outcome, done), world.after done message) ∧
      (options.Rejects source → done = [] ∧
        ((∃ code, outcome = .exit code ∧ code ≠ 0) ↔
          ¬ options.Escapes world.files world.current)) ∧
      (¬ options.Rejects source → options.mode.isDump = true →
        ∀ effect ∈ done, ∃ shown, effect = .printed shown) ∧
      (¬ options.Rejects source → options.mode.isDump = false →
        (done = [] ∧ outcome ≠ .exit 0 ∧
          (options.target = none ∨ options.obstacle? world.current ≠ none)) ∨
        ∃ target assembly, options.target = some target ∧
          options.obstacle? world.current = none ∧
          (compile source target.name .silent).1 = .ok assembly ∧
          ((∃ path error, options.mode.assembly? = some path ∧
              world.files.write world.current (Path.normal path) (Text.Utf8.encode assembly) =
                .error error ∧ done = [] ∧ outcome ≠ .exit 0) ∨
            done = options.mode.plan options.driver assembly ∧
              (outcome = .exit 0 ↔ ∀ assembly executable,
                options.mode = .linked assembly executable → options.IsDriven world.driver)) ∧
          ∀ place,
            FileTree.entry? (world.after done message).files place = world.files.entry? place ∨
              ∃ path, options.mode.assembly? = some path ∧
                place = Path.resolve world.current path ∧
                FileTree.entry? (world.after done message).files place =
                  some (.file (Text.Utf8.encode assembly))) := by
  intro source
  obtain ⟨outcome, done, message, hrun, hrecorded, hends, _⟩ := exists_ends hoptions world
  refine ⟨outcome, done, message, hrun, hrecorded, ?_, ?_, ?_⟩
  · intro hrejects
    rcases hends.of_source hread htext with
      ⟨_, rfl, rfl⟩ | ⟨_, hguard, rfl⟩ | ⟨_, _, _, _, hperforms, houtcome⟩
    · exact ⟨rfl, hends.fails_iff nofun⟩
    · exact ⟨rfl, hends.fails_iff (by cases hguard <;> simp)⟩
    · obtain ⟨rfl, hresult⟩ := hperforms.of_rejects hrejects
      exact ⟨rfl, hends.fails_iff fun hzero => hresult (houtcome.mp hzero)⟩
  · intro _ hmode effect hmem
    obtain ⟨_, hshown | ⟨assembly, hplan⟩⟩ := hends.mem_plan hmem
    · exact hshown
    · cases hkind : options.mode <;> simp_all [Mode.isDump, Mode.plan]
  · intro htaken hmode
    rcases hends.of_source hread htext with
      ⟨htarget, rfl, rfl⟩ | ⟨_, hguard, rfl⟩ | ⟨target, _, htarget, hclear, hperforms, houtcome⟩
    · exact .inl ⟨rfl, nofun, .inl htarget⟩
    · have hobstacle : options.obstacle? world.current ≠ none ∧ outcome ≠ .exit 0 := by
        cases hguard <;> simp_all
      exact .inl ⟨rfl, hobstacle.2, .inr hobstacle.1⟩
    · obtain ⟨assembly, hcompile, hdone⟩ := hperforms.of_taken htaken hmode
      simp only [ne_eq, ← houtcome] at hdone
      refine .inr ⟨target, assembly, htarget, hclear, hcompile, hdone, fun place => ?_⟩
      have hplanned : ∀ effect ∈ done, effect ∈ options.mode.plan options.driver assembly := by
        rcases hdone with ⟨_, _, _, _, rfl, _⟩ | ⟨rfl, _⟩
        · simp
        · exact fun _ hmem => hmem
      rcases World.entry?_after world done message place with
        hsame | ⟨path, content, hmem, hplace, hentry⟩
      · exact .inl hsame
      · obtain ⟨name, hname, rfl, rfl⟩ := Mode.wrote_mem_plan (hplanned _ hmem)
        rw [Path.resolve_normal] at hplace
        exact .inr ⟨name, hname, hplace, hentry⟩

-- A source with a token too many.
theorem effects_follow_source_trailing :
    let world := World.oneFile "bad.c" (Text.Utf8.encode "int f() { return 1; } 2")
    let options : Options := ⟨{ Choices.initial with assemblyOnly := true }, "bad.c"⟩
    Options.ofArguments ["-S", "bad.c"] = .ok options ∧
      options.Rejects "int f() { return 1; } 2" ∧
      ∃ code message, (run World.host ["-S", "bad.c"]).run world =
        (.exit code, world.after [] message) ∧ code ≠ 0 := by
  intro world options
  have hoptions : Options.ofArguments ["-S", "bad.c"] = .ok options := by decide +kernel
  have hread : world.files.read world.current "bad.c" =
      .ok (Text.Utf8.encode "int f() { return 1; } 2") := by decide +kernel
  have htext : Text.Utf8.decode (Text.Utf8.encode "int f() { return 1; } 2") =
      .ok "int f() { return 1; } 2".toList := by decide +kernel
  have hrejects : options.Rejects "int f() { return 1; } 2" := by decide +kernel
  have hclear : options.obstacle? world.current = none := by decide +kernel
  have hexits : ¬ options.Escapes world.files world.current := by
    rw [(Reads.source hread htext).escapes_iff, hclear]
    decide +kernel
  obtain ⟨outcome, done, message, hrun, _, hrejected, _⟩ :=
    effects_follow_source hoptions hread htext
  obtain ⟨rfl, hstatus⟩ := hrejected hrejects
  obtain ⟨code, rfl, hcode⟩ := hstatus.mpr hexits
  exact ⟨hoptions, hrejects, code, message, hrun, hcode⟩

-- A source that is no text of the language is no error without a target, but a fault.
theorem rejecting_without_target_escapes :
    let world := World.oneFile "bad.c" (Text.Utf8.encode "$")
    ∃ options, Options.ofArguments ["--target=--", "bad.c", "-S"] = .ok options ∧
      options.Rejects "$" ∧
      ((run World.host ["--target=--", "bad.c", "-S"]).run world).1 = .escaped .noTarget := by
  exact ⟨⟨{ Choices.initial with target := none, assemblyOnly := true }, "bad.c"⟩,
    by decide +kernel, by decide +kernel, by decide +kernel⟩

-- A run ends with one of three statuses exactly unless it meets a fault that nothing answers for,
-- which leaves nothing behind but messages. An input that cannot be read is reported.
theorem run_exits_iff (hoptions : Options.ofArguments arguments = .ok options) (world : World) :
    ∃ outcome after, (run World.host arguments).run world = (outcome, after) ∧
      ((∃ code ∈ [0, 1, 2], outcome = .exit code) ↔
        ¬ options.Escapes world.files world.current) ∧
      (∀ fault, outcome = .escaped fault →
        ∃ message, after = { world with errors := world.errors ++ message }) ∧
      ∀ error, world.files.read world.current options.input = .error error →
        '\x00' ∉ options.input.toList → outcome = .exit 1 ∧
          ∃ message, message ≠ "" ∧ after = { world with errors := world.errors ++ message } := by
  obtain ⟨outcome, done, message, hrun, _, hends, hmessage⟩ := exists_ends hoptions world
  refine ⟨outcome, world.after done message, hrun, ?_, ?_, ?_⟩
  · rw [hends.escapes_iff]
    rcases hends.exit_cases with ⟨fault, rfl⟩ | ⟨code, hcode, rfl⟩
    · simp
    · simpa using hcode
  · rintro fault rfl
    refine ⟨message, ?_⟩
    cases hends <;> rfl
  · intro error herror hnull
    obtain ⟨rfl, rfl⟩ := hends.of_unreadable herror hnull
    exact ⟨rfl, message, hmessage ⟨1, rfl, nofun⟩, rfl⟩

-- The input is missing.
theorem run_exits_iff_missing :
    let world := World.oneFile "prog.c" (Text.Utf8.encode "int f() { return 7; }")
    Options.ofArguments ["prog"] = .ok ⟨Choices.initial, "prog"⟩ ∧
      ∃ message, message ≠ "" ∧ (run World.host ["prog"]).run world =
        (.exit 1, { world with errors := world.errors ++ message }) := by
  intro world
  have hoptions : Options.ofArguments ["prog"] = .ok ⟨Choices.initial, "prog"⟩ := by
    decide +kernel
  obtain ⟨outcome, after, hrun, _, _, hunreadable⟩ := run_exits_iff hoptions world
  obtain ⟨rfl, message, hmessage, rfl⟩ :=
    hunreadable ⟨.notFound, "prog"⟩ (by decide +kernel) (by decide)
  exact ⟨hoptions, message, hmessage, hrun⟩

-- An input that is no text ends a run in a fault.
theorem undecodable_input_escapes :
    Options.ofArguments ["bad.c"] = .ok ⟨Choices.initial, "bad.c"⟩ ∧
      ((run World.host ["bad.c"]).run (World.oneFile "bad.c" [0xff])).1 =
        .escaped (.notText ⟨.invalidStart, 0, 1, 0xff⟩) := by
  exact ⟨by decide +kernel, by decide +kernel⟩

end Runs

end TinyC.Command
