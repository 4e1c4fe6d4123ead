import TinyC.Proofs.Command.Mode

namespace TinyC.Command

-- What comes of reading the input file.
inductive Reads (files : FileTree) (current : Location) (input : String) :
    Except Outcome String → Prop where
  | unreadable {error : FileError} (hread : files.read current input = .error error)
      (hnull : '\x00' ∉ input.toList) : Reads files current input (.error (.exit 1))
  | nullInPath (hnull : '\x00' ∈ input.toList) :
      Reads files current input (.error (.escaped .nullInPath))
  | notText {bytes : List UInt8} {fault : Text.Utf8.Fault}
      (hread : files.read current input = .ok bytes)
      (htext : Text.Utf8.decode bytes = .error fault) :
      Reads files current input (.error (.escaped (.notText fault)))
  | source {bytes : List UInt8} {text : List Char} (hread : files.read current input = .ok bytes)
      (htext : Text.Utf8.decode bytes = .ok text) :
      Reads files current input (.ok (String.ofList (Text.unifyNewlines text)))

-- What comes of looking at the files to be written, by the first that is in the way.
inductive Guards (obstacle : Option String) : Except Outcome Unit → Prop where
  | clear (hpath : obstacle = none) : Guards obstacle (.ok ())
  | nullInPath {path : String} (hpath : obstacle = some path) (hnull : '\x00' ∈ path.toList) :
      Guards obstacle (.error (.escaped .nullInPath))
  | isInput {path : String} (hpath : obstacle = some path) (hnull : '\x00' ∉ path.toList) :
      Guards obstacle (.error (.exit 1))

-- What a mode comes to for a source, and what it has done by then. All that can fail without the
-- surroundings does so before anything is done.
inductive Performs (options : Options) (files : FileTree) (current : Location)
    (answer : DriverAnswer) (target : Target) (source : String) :
    Except Failure Unit → List Effect → Prop where
  | rejected (failure : Failure) (hsource : options.Rejects source) :
      Performs options files current answer target source (.error failure) []
  | unshown (failure : Failure) (hmode : options.mode.isDump) (hsource : ¬ options.Rejects source) :
      Performs options files current answer target source (.error failure) []
  | shown (texts : List String) (hmode : options.mode.isDump)
      (hsource : ¬ options.Rejects source) :
      Performs options files current answer target source (.ok ()) (texts.map .printed)
  | unsaved {text path : String} {error : FileError} (failure : Failure)
      (hmode : options.mode.assembly? = some path)
      (htext : (compile source target.name .silent).1 = .ok text)
      (hwrite : files.write current (Path.normal path) (Text.Utf8.encode text) = .error error) :
      Performs options files current answer target source (.error failure) []
  | undriven {text assembly executable : String} (failure : Failure)
      (hmode : options.mode = .linked assembly executable)
      (htext : (compile source target.name .silent).1 = .ok text)
      (hdriver : ¬ options.IsDriven answer) :
      Performs options files current answer target source (.error failure)
        (options.mode.plan options.driver text)
  | completed {text : String} (hmode : options.mode.isDump = false)
      (htext : (compile source target.name .silent).1 = .ok text)
      (hdriver : ∀ assembly executable, options.mode = .linked assembly executable →
        options.IsDriven answer) :
      Performs options files current answer target source (.ok ())
        (options.mode.plan options.driver text)

-- How a run ends, and what it has done by then.
inductive Ends (options : Options) (files : FileTree) (current : Location)
    (answer : DriverAnswer) : Outcome → List Effect → Prop where
  | unread {outcome : Outcome} (hread : Reads files current options.input (.error outcome)) :
      Ends options files current answer outcome []
  | untargeted {source : String} (hread : Reads files current options.input (.ok source))
      (htarget : options.target = none) :
      Ends options files current answer (.escaped .noTarget) []
  | refused {source : String} {outcome : Outcome}
      (hread : Reads files current options.input (.ok source)) (htarget : options.target ≠ none)
      (hguard : Guards (options.obstacle? current) (.error outcome)) :
      Ends options files current answer outcome []
  | failed {source : String} {target : Target} {failure : Failure} {done : List Effect}
      (hread : Reads files current options.input (.ok source))
      (htarget : options.target = some target) (hclear : options.obstacle? current = none)
      (hperforms : Performs options files current answer target source (.error failure) done) :
      Ends options files current answer (.exit failure.exitCode) done
  | finished {source : String} {target : Target} {done : List Effect}
      (hread : Reads files current options.input (.ok source))
      (htarget : options.target = some target) (hclear : options.obstacle? current = none)
      (hperforms : Performs options files current answer target source (.ok ()) done) :
      Ends options files current answer (.exit 0) done

section

variable {options : Options} {world : World} {target : Target} {source : String}

theorem does_readInput (input : String) (world : World) :
    ∃ result message, Does (readInput World.host.recorded input) world result [] message ∧
      Reads world.files world.current input result ∧
      (result = .error (.exit 1) → message ≠ "") := by
  have hread := does_readFile input world
  cases hanswer : world.files.read world.current input with
  | error error =>
    rw [hanswer] at hread
    have hnull := FileTree.read_error_nullInPath_iff hanswer
    obtain ⟨fault, path⟩ := error
    cases fault with
    | nullInPath => exact ⟨_, _, hread.peek (.pure _ _), .nullInPath (hnull.mp rfl), nofun⟩
    | _ =>
      refine ⟨_, _, hread.peek (does_report_pure _ _ _), .unreadable hanswer fun hmem => ?_,
        fun _ => ?_⟩
      · cases hnull.mpr hmem
      · simp
  | ok bytes =>
    rw [hanswer] at hread
    cases htext : Text.Utf8.decode bytes with
    | error fault =>
      refine ⟨_, "", hread.peek ?_, .notText hanswer htext, nofun⟩
      simp only [htext]
      exact .pure _ _
    | ok text =>
      refine ⟨_, "", hread.peek ?_, .source hanswer htext, nofun⟩
      simp only [htext]
      exact .pure _ _

theorem does_guardInput {input : String} (hinput : '\x00' ∉ input.toList) (paths : List String)
    (world : World) :
    ∃ result message, Does (guardInput World.host.recorded input paths) world result [] message ∧
      Guards (paths.find? fun path => '\x00' ∈ path.toList ∨
        Path.resolve world.current path = Path.resolve world.current input) result ∧
      (result = .error (.exit 1) → message ≠ "") := by
  induction paths with
  | nil => exact ⟨_, _, .pure _ _, .clear rfl, nofun⟩
  | cons path rest ih =>
    have hpath := does_resolve path world
    have hplace := does_resolve input world
    by_cases hnull : '\x00' ∈ path.toList
    · rw [if_pos (by simpa using hnull)] at hpath
      exact ⟨_, _, hpath.peek (hplace.peek (.pure _ _)),
        .nullInPath (List.find?_cons_of_pos (by simp [hnull])) hnull, nofun⟩
    rw [if_neg (by simpa using hnull)] at hpath
    rw [if_neg (by simpa using hinput)] at hplace
    by_cases hsame : Path.resolve world.current path = Path.resolve world.current input
    · refine ⟨.error (.exit 1),
        "Error: output " ++ path ++ " would overwrite input file " ++ input ++ "\n",
        hpath.peek (hplace.peek ?_),
        .isInput (List.find?_cons_of_pos (by simp [hsame])) hnull, fun _ => by simp⟩
      simp only [if_pos hsame]
      exact does_report_pure _ _ _
    · obtain ⟨result, message, hdoes, hguards, hmessage⟩ := ih
      refine ⟨result, message, hpath.peek (hplace.peek ?_), ?_, hmessage⟩
      · simp only [if_neg hsame]
        exact hdoes
      · rwa [List.find?_cons_of_neg (by simp [hnull, hsame])]

theorem does_showTokens (hmode : options.mode = .tokens) (target : Target) (source : String)
    (world : World) :
    ∃ result done message,
      Does (showTokens World.host.recorded options source) world result done message ∧
        Performs options world.files world.current world.driver target source result done := by
  obtain ⟨message, htraced⟩ := does_traced options.toChoices (tokenize source) world
  have hdump : options.mode.isDump := by rw [hmode]; rfl
  have hrejects := Options.rejects_iff_of_tokens hmode source (.empty options.trace)
  cases htokens : (tokenize source (.empty options.trace)).1 with
  | error error =>
    rw [htokens] at htraced hrejects
    exact ⟨_, _, _, htraced.bind (.pure _ _), .rejected _ (hrejects.mpr ⟨_, rfl⟩)⟩
  | ok tokens =>
    rw [htokens] at htraced hrejects
    refine ⟨_, _, _, htraced.bind ((does_forM_print _ tokens _).andThen (.pure _ _)), ?_⟩
    have hshown : Performs options world.files world.current world.driver target source (.ok ())
        ((tokens.map fun token => token.shown ++ "\n").map .printed) :=
      .shown _ hdump (by simp [hrejects])
    simpa [Function.comp_def] using hshown

theorem does_showTree (hmode : options.mode = .tree) (target : Target) (source : String)
    (world : World) :
    ∃ result done message,
      Does (showTree World.host.recorded options source) world result done message ∧
        Performs options world.files world.current world.driver target source result done := by
  obtain ⟨message, htraced⟩ := does_traced options.toChoices
    (parseSource source Parser.defaultLimit) world
  have hdump : options.mode.isDump := by rw [hmode]; rfl
  have hne : options.mode ≠ .tokens := by rw [hmode]; nofun
  have hrejects := Options.rejects_iff_of_tree hne source (.empty options.trace)
  cases htree : (parseSource source Parser.defaultLimit (.empty options.trace)).1 with
  | error error =>
    rw [htree] at htraced hrejects
    exact ⟨_, _, _, htraced.bind (.pure _ _), .rejected _ (hrejects.mpr ⟨_, rfl⟩)⟩
  | ok program =>
    rw [htree] at htraced hrejects
    have htaken : ¬ options.Rejects source := by simp [hrejects]
    cases htext : (if options.tree then (outline (.node program) 0).mapError Numeral.Fault.message
        else (program.programSource "    ").mapError FormatError.message) with
    | error fault =>
      refine ⟨.error (.internal fault), [], message ++ "", htraced.bind ?_,
        .unshown _ hdump htaken⟩
      simp only [htext]
      exact .pure _ _
    | ok text =>
      refine ⟨.ok (), [.printed text], message ++ "", htraced.bind ?_,
        .shown [text] hdump htaken⟩
      simp only [htext]
      exact (does_print text _).andThen (.pure _ _)

theorem does_save (options : Options) (text : String) (world : World) :
    ∃ result done message, Does (save World.host.recorded options text) world result done message ∧
      ((∃ failure error, result = .error failure ∧ done = [] ∧
        world.files.write world.current (Path.normal options.assemblyPath)
          (Text.Utf8.encode (Link.withFinalNewline text)) = .error error) ∨
        result = .ok (Path.normal options.assemblyPath) ∧
          done = [.wrote (Path.normal options.assemblyPath) (Link.withFinalNewline text)]) := by
  cases hwrite : world.files.write world.current (Path.normal options.assemblyPath)
      (Text.Utf8.encode (Link.withFinalNewline text)) with
  | error error =>
    have hsave : Does (Link.save World.host.recorded.writeFile
        (noteToolchain World.host.recorded options.toChoices) options.assemblyPath text) world
        (.error error) [] "" :=
      (does_writeFile_error hwrite).peek (.pure _ _)
    exact ⟨_, _, _, hsave.peek (.pure _ _), .inl ⟨_, error, rfl, rfl, rfl⟩⟩
  | ok files =>
    obtain ⟨message, hnote⟩ := does_note options.toChoices "x64_compiler.toolchain" .info
      ("Wrote " ++ Path.normal options.assemblyPath)
      (world.after [.wrote (Path.normal options.assemblyPath) (Link.withFinalNewline text)] "")
    have hsave : Does (Link.save World.host.recorded.writeFile
        (noteToolchain World.host.recorded options.toChoices) options.assemblyPath text) world
        (.ok (Path.normal options.assemblyPath)) _ _ :=
      (does_writeFile_ok hwrite).andThen (hnote.bind (.pure _ _))
    exact ⟨_, _, _, hsave.bind (.pure _ _), .inr ⟨rfl, rfl⟩⟩

-- Whatever the driver answers, its command is given once.
theorem does_runLink (options : Options) (driver assembly executable : String)
    (world : World) :
    ∃ result message, Does (Link.link World.host.recorded.runDriver
      (noteToolchain World.host.recorded options.toChoices) driver assembly executable) world
      result [.ran [driver, assembly, "-o", executable]] message ∧
      ((∃ path, result = .ok path) ↔ ∃ errors, world.driver = .finished 0 errors) := by
  let words := Link.command driver assembly executable
  obtain ⟨first, hnote⟩ := does_note options.toChoices "x64_compiler.toolchain" .info
    (" ".intercalate words) world
  have hrun : Does (World.host.recorded.runDriver words) (world.after [] first) world.driver
      [.ran words] "" := does_runDriver words (world.after [] first)
  cases hanswer : world.driver with
  | missing | unusable =>
    rw [hanswer] at hrun
    exact ⟨_, _, hnote.bind (hrun.andThen (.pure _ _)), by simp⟩
  | finished status errors =>
    rw [hanswer] at hrun
    by_cases hstatus : status ≠ 0
    · refine ⟨.error (.driverFailed driver status errors), first ++ "",
        hnote.bind (hrun.andThen ?_), by simp [hstatus]⟩
      simp only [if_pos hstatus]
      exact .pure _ _
    have hmade : (∃ path, (.ok (Path.normal executable) : Except LinkError String) = .ok path) ↔
        ∃ others, DriverAnswer.finished status errors = .finished 0 others := by
      simpa using hstatus
    by_cases hremark : (Text.trim errors.toList).isEmpty
    · refine ⟨.ok (Path.normal executable), first ++ "", hnote.bind (hrun.andThen ?_), hmade⟩
      simp only [if_neg hstatus, hremark]
      exact .pure _ _
    · obtain ⟨second, hsecond⟩ := does_note options.toChoices "x64_compiler.toolchain" .warning
        (driver ++ ": " ++ String.ofList (Text.trim errors.toList))
        ((world.after [] first).after [.ran words] "")
      refine ⟨.ok (Path.normal executable), first ++ (second ++ ""),
        hnote.bind (hrun.andThen ?_), hmade⟩
      simp only [if_neg hstatus, hremark]
      exact hsecond.bind (.pure _ _)

theorem does_link (options : Options) (assembly : String) (world : World) :
    ∃ result message, Does (link World.host.recorded options assembly) world result
      (options.driver.toList.map fun driver =>
        .ran [driver, assembly, "-o", options.executablePath]) message ∧
      (result = .ok () ↔ options.IsDriven world.driver) := by
  unfold link Options.IsDriven
  cases hdriver : options.driver with
  | none => exact ⟨_, _, .pure _ _, by simp⟩
  | some driver =>
    obtain ⟨result, message, hlink, hmade⟩ :=
      does_runLink options driver assembly options.executablePath world
    cases result with
    | error error => exact ⟨_, _, hlink.bind (.pure _ _), by simpa using hmade⟩
    | ok executable =>
      obtain ⟨last, hnote⟩ := does_note options.toChoices "x64cc" .info ("Output: " ++ executable) _
      exact ⟨_, _, hlink.bind (hnote.bind (.pure _ _)), by simpa using hmade⟩

theorem getLast?_of_render {code : List Instruction} {text : String}
    (h : render target code = .ok text) : text.toList.getLast? = some '\n' := by
  unfold render at h
  cases hlines : code.mapM fun instruction => instruction.rendered target with
  | error error =>
    rw [hlines] at h
    cases h
  | ok lines =>
    rw [hlines] at h
    cases h
    simp

-- Assembly text is written as it is, since its last line is complete.
theorem withFinalNewline_of_compile {log : Log} {text : String}
    (h : (compile source target.name log).1 = .ok text) : Link.withFinalNewline text = text := by
  obtain ⟨_, name, value, _, _, hrender⟩ := exists_code_of_compile h
  rw [Link.withFinalNewline, if_pos (getLast?_of_render hrender)]

-- A text is brought where the mode wants it.
theorem does_deliver {text : String} (hdump : options.mode.isDump = false)
    (hmode : options.mode = if options.isToStandardOutput then .printed
      else if options.assemblyOnly then .saved options.assemblyPath
      else .linked options.assemblyPath options.executablePath)
    (htext : (compile source target.name .silent).1 = .ok text) (world : World) :
    ∃ result done message, Does (do
      if options.isToStandardOutput then
        World.host.recorded.print text
        return .ok ()
      else
        match ← save World.host.recorded options text with
        | .error failure => return .error failure
        | .ok assembly =>
          if options.assemblyOnly then return .ok ()
          else link World.host.recorded options assembly) world result done message ∧
        Performs options world.files world.current world.driver target source result done := by
  have hcompleted : ∀ {mode : Mode}, options.mode = mode →
      (∀ assembly executable, mode = .linked assembly executable →
        options.IsDriven world.driver) →
      Performs options world.files world.current world.driver target source (.ok ())
        (mode.plan options.driver text) := by
    rintro mode rfl hdriver
    exact .completed hdump htext hdriver
  by_cases hprinted : options.isToStandardOutput
  · rw [if_pos hprinted] at hmode
    simp only [if_pos hprinted]
    exact ⟨_, _, _, (does_print _ _).andThen (.pure _ _), hcompleted hmode nofun⟩
  rw [if_neg hprinted] at hmode
  simp only [if_neg hprinted]
  obtain ⟨saved, done, message, hsave, houtcome⟩ := does_save options text world
  rw [withFinalNewline_of_compile htext] at houtcome
  have hassembly : options.mode.assembly? = some options.assemblyPath := by
    rw [hmode]
    split <;> rfl
  rcases houtcome with ⟨failure, error, rfl, rfl, hwrite⟩ | ⟨rfl, rfl⟩
  · exact ⟨_, _, _, hsave.bind (.pure _ _), .unsaved failure hassembly htext hwrite⟩
  by_cases honly : options.assemblyOnly
  · rw [if_pos honly] at hmode
    simp only [if_pos honly]
    exact ⟨_, _, _, hsave.bind (.pure _ _), hcompleted hmode nofun⟩
  · rw [if_neg honly] at hmode
    simp only [if_neg honly]
    obtain ⟨result, last, hlink, hdriven⟩ := does_link options (Path.normal options.assemblyPath)
      (world.after [.wrote (Path.normal options.assemblyPath) text] message)
    rw [World.driver_after] at hdriven
    refine ⟨_, _, _, hsave.bind hlink, ?_⟩
    cases result with
    | error failure =>
      have hundriven : Performs options world.files world.current world.driver target source
          (.error failure) _ :=
        .undriven failure hmode htext fun hlinks => nomatch hdriven.mpr hlinks
      rw [hmode] at hundriven
      exact hundriven
    | ok _ => exact hcompleted hmode fun _ _ _ => hdriven.mp rfl

theorem does_build (htokens : options.tokens = false)
    (htree : (options.tree || options.pretty) = false) (target : Target) (source : String)
    (world : World) :
    ∃ result done message,
      Does (build World.host.recorded options target source) world result done message ∧
        Performs options world.files world.current world.driver target source result done := by
  have hmode : options.mode = if options.isToStandardOutput then .printed
      else if options.assemblyOnly then .saved options.assemblyPath
      else .linked options.assemblyPath options.executablePath := by
    simp [Options.mode_eq, htokens, htree]
  have hdump : options.mode.isDump = false := by
    rw [hmode]
    split
    · rfl
    · split <;> rfl
  obtain ⟨first, htraced⟩ := does_traced options.toChoices (compile source target.name) world
  cases hcompile : (compile source target.name (.empty options.trace)).1 with
  | error error =>
    rw [hcompile] at htraced
    refine ⟨_, _, _, htraced.bind (.pure _ _), .rejected _ ?_⟩
    have hne : options.mode ≠ .tokens := by
      intro hmode
      rw [hmode] at hdump
      cases hdump
    rw [Options.rejects_iff_of_tree hne source (.empty options.trace)]
    exact exists_error_of_compile hcompile
  | ok text =>
    rw [hcompile] at htraced
    obtain ⟨second, hnote⟩ := does_note options.toChoices "x64cc" .info
      ("Generated " ++ Numeral.decimal (text.toList.count '\n') ++ " lines of assembly")
      (world.after [] first)
    obtain ⟨result, done, last, hdeliver, hperforms⟩ := does_deliver hdump hmode
      (compile_ok_of_log hcompile .silent) ((world.after [] first).after [] second)
    exact ⟨_, _, _, htraced.bind (hnote.bind hdeliver), hperforms⟩

theorem does_perform (options : Options) (target : Target) (source : String) (world : World) :
    ∃ result done message,
      Does (perform World.host.recorded options target source) world result done message ∧
        Performs options world.files world.current world.driver target source result done := by
  unfold perform
  by_cases htokens : options.tokens
  · rw [if_pos htokens]
    exact does_showTokens (by simp [Options.mode_eq, htokens]) target source world
  rw [if_neg htokens]
  by_cases htree : options.tree || options.pretty
  · rw [if_pos htree]
    exact does_showTree (by simp [Options.mode_eq, htokens, htree]) target source world
  · rw [if_neg htree]
    exact does_build (by simpa using htokens) (by simpa using htree) target source world

theorem Failure.line_ne_empty (failure : Failure) : failure.line ≠ "" := by
  intro hempty
  have hnewline : "\n" = "" := by
    cases failure <;> exact (String.append_eq_empty_iff.mp hempty).2
  exact absurd hnewline (by decide)

theorem does_fail (options : Options) (failure : Failure) (world : World) :
    ∃ message, Does (fail World.host.recorded options failure) world (.exit failure.exitCode) []
      message ∧ message ≠ "" := by
  have hspeaks : ∀ more, failure.line ++ more ≠ "" :=
    fun more hempty => failure.line_ne_empty (String.append_eq_empty_iff.mp hempty).1
  have hreport := does_report failure.line world
  cases failure with
  | internal text =>
    obtain ⟨trace, htrace⟩ : ∃ trace, Does (if options.verbose || options.trace then do
        World.host.recorded.report "<traceback>\n"
        return .exit 2 else return .exit 2) (world.after [] (Failure.internal text).line)
        (Outcome.exit 2) [] trace :=
      Does.exists_ite ⟨_, does_report_pure _ _ _⟩ ⟨_, .pure _ _⟩
    exact ⟨_, hreport.bind htrace, hspeaks _⟩
  | _ => exact ⟨_, hreport.bind (.pure _ _), hspeaks _⟩

theorem append_ne_empty (first : String) {second : String} (h : second ≠ "") :
    first ++ second ≠ "" :=
  fun hempty => h (String.append_eq_empty_iff.mp hempty).2

theorem Reads.not_mem_null {files : FileTree} {current : Location} {input source : String}
    (h : Reads files current input (.ok source)) : '\x00' ∉ input.toList := by
  cases h with
  | source hread _ => exact FileTree.not_mem_null_of_read hread

-- What is done with a source for a target, once the input has been read.
theorem does_guarded (hreads : Reads world.files world.current options.input (.ok source))
    (htarget : options.target = some target) :
    ∃ outcome done message, Does (do
      match ← guardInput World.host.recorded options.input options.outputs with
      | .error outcome => return outcome
      | .ok () =>
        match ← perform World.host.recorded options target source with
        | .error failure => fail World.host.recorded options failure
        | .ok () => return .exit 0) world outcome done message ∧
        Ends options world.files world.current world.driver outcome done ∧
        ((∃ code, outcome = .exit code ∧ code ≠ 0) → message ≠ "") := by
  obtain ⟨guarded, first, hguard, hguards, hfirst⟩ :=
    does_guardInput hreads.not_mem_null options.outputs world
  rw [Options.outputs_eq_paths] at hguard hguards
  rw [Options.outputs_eq_paths]
  cases guarded with
  | error outcome =>
    refine ⟨_, _, _, hguard.bind (.pure _ _), .refused hreads (by simp [htarget]) hguards, ?_⟩
    rintro ⟨code, rfl, _⟩
    rw [String.append_empty]
    cases hguards with
    | isInput _ _ => exact hfirst rfl
  | ok _ =>
    have hclear : options.obstacle? world.current = none := by
      cases hguards with
      | clear hpath => exact hpath
    obtain ⟨result, done, second, hperform, hperforms⟩ :=
      does_perform options target source (world.after [] first)
    cases result with
    | error failure =>
      obtain ⟨third, hfail, hthird⟩ :=
        does_fail options failure ((world.after [] first).after done second)
      refine ⟨.exit failure.exitCode, done, first ++ (second ++ third), hguard.bind ?_,
        .failed hreads htarget hclear hperforms,
        fun _ => append_ne_empty _ (append_ne_empty _ hthird)⟩
      rw [← List.append_nil done]
      exact hperform.bind hfail
    | ok _ =>
      refine ⟨.exit 0, done, first ++ (second ++ ""), hguard.bind ?_,
        .finished hreads htarget hclear hperforms, ?_⟩
      · rw [← List.append_nil done]
        exact hperform.bind (.pure _ _)
      · rintro ⟨code, ⟨⟩, hzero⟩
        exact absurd rfl hzero

-- The run of the options of a command line, from any world.
theorem does_runOptions (options : Options) (world : World) :
    ∃ outcome done message,
      Does (runOptions World.host.recorded options) world outcome done message ∧
        Ends options world.files world.current world.driver outcome done ∧
        ((∃ code, outcome = .exit code ∧ code ≠ 0) → message ≠ "") := by
  obtain ⟨result, first, hread, hreads, hfirst⟩ := does_readInput options.input world
  cases result with
  | error outcome =>
    refine ⟨_, _, _, hread.bind (.pure _ _), .unread hreads, ?_⟩
    rintro ⟨code, rfl, _⟩
    rw [String.append_empty]
    cases hreads with
    | unreadable _ _ => exact hfirst rfl
  | ok source =>
    obtain ⟨second, hinput⟩ := does_note options.toChoices "x64cc" .info
      ("Input:  " ++ options.input) (world.after [] first)
    cases htarget : options.target with
    | none =>
      refine ⟨.escaped .noTarget, [], first ++ (second ++ ""), hread.bind (hinput.bind ?_),
        .untargeted hreads htarget, nofun⟩
      simp only [htarget]
      exact .pure _ _
    | some target =>
      obtain ⟨third, hchosen⟩ := does_note options.toChoices "x64cc" .info
        ("Target: " ++ target.name ++ " (" ++ target.description ++ ")")
        ((world.after [] first).after [] second)
      -- what has been reported so far changes neither the files nor the place
      have hsame : Reads (((world.after [] first).after [] second).after [] third).files
          world.current options.input (.ok source) := hreads
      obtain ⟨outcome, done, last, hguarded, hends, hlast⟩ := does_guarded hsame htarget
      refine ⟨outcome, done, first ++ (second ++ (third ++ last)),
        hread.bind (hinput.bind ?_), hends, ?_⟩
      · simp only [htarget]
        exact hchosen.bind hguarded
      · intro hfailed
        exact append_ne_empty _ (append_ne_empty _ (append_ne_empty _ (hlast hfailed)))

end

end TinyC.Command
