import TwoPhase.CommandLine.Command
import TwoPhase.Proofs.CommandLine.Files

/-!
# What a command leaves behind

A command that is asked to solve touches no file but its result file.  It leaves everything as it
was if there is no text to read or no result file to create.  From then on the result file is empty
until there is a result to write.
-/

namespace TwoPhase.CommandLine

open FileView

variable {σ : Type} [FileView σ] [Files (StateM σ)]

/-- The text that a file holds, if it can be read and is text. -/
def readText? (state : σ) (path : String) : Option String :=
  match ((Files.read path : StateM σ _) state).1 with
  | .ok bytes => String.fromUTF8? bytes
  | .error _ => none

/-- Whether the result file can be created. -/
def Creatable (state : σ) (path : String) : Prop :=
  ((Files.create path : StateM σ _) state).1 = .ok ()

/-- A text that is read is the text of the file that the path leads to. -/
theorem holds_of_readText?_eq_some [LawfulFiles σ] {state : σ} {path text : String}
    (read : readText? state path = some text) :
    ∃ content, Holds state path content ∧ String.fromUTF8? content = some text := by
  unfold readText? at read
  split at read
  · next content returned => exact ⟨content, LawfulFiles.read_ok returned, read⟩
  · cases read

/-- What a command that is asked to solve comes to: its exit code, and the files afterwards. -/
structure Settles (options : Options) (before after : σ) (exitCode : Nat) : Prop where
  original {text : String} :
    readText? before options.input = some text →
      ∃ content, Holds before options.input content ∧ String.fromUTF8? content = some text
  others {file : File σ} :
    file? after options.output ≠ some file → content? after file = content? before file
  unavailable :
    readText? before options.input = none ∨ ¬Creatable before options.output →
      exitCode = 1 ∧ after = before
  malformed {text : String} {error : ProblemError} :
    readText? before options.input = some text → Creatable before options.output →
      Problem.parse text = .error error →
        exitCode = 1 ∧ Holds after options.output ByteArray.empty
  capped {text : String} {problem : Problem Float} {objective : Option Float} :
    readText? before options.input = some text → Creatable before options.output →
      Problem.parse text = .ok problem →
      (problem.solve options.cap).result = .ok (.capped objective) →
        exitCode = 1 ∧ Holds after options.output ByteArray.empty
  solved {text : String} {problem : Problem Float} {outcome : Outcome Float} :
    readText? before options.input = some text → Creatable before options.output →
      Problem.parse text = .ok problem → (problem.solve options.cap).result = .ok outcome →
      (∀ objective, outcome ≠ .capped objective) →
        ∃ rendered, Report.render outcome = some rendered ∧ exitCode = 0 ∧
          Holds after options.output rendered.toUTF8

theorem run_bind {σ β γ : Type} (first : StateM σ β) (next : β → StateM σ γ) (state : σ) :
    (first >>= next) state = next (first state).1 (first state).2 :=
  rfl

section SolveText

omit [FileView σ]

variable {options : Options} {text rendered : String} {problem : Problem Float} {state after : σ}
  {outcome : Outcome Float}

theorem run_solveText_malformed {error : ProblemError}
    (malformed : Problem.parse text = .error error) :
    (solveText options text : StateM σ _) state = ((.error (.noProblem error), #[]), state) := by
  unfold solveText
  rw [malformed]
  rfl

theorem run_solveText_broken {fault : Fault Float} (parsed : Problem.parse text = .ok problem)
    (broken : (problem.solve options.cap).result = .error fault) :
    ((solveText options text : StateM σ _) state).2 = state := by
  simp only [solveText, parsed, broken]
  rfl

theorem run_solveText_capped (parsed : Problem.parse text = .ok problem)
    (returned : (problem.solve options.cap).result = .ok outcome)
    (silent : Report.render outcome = none) :
    ((solveText options text : StateM σ _) state).1.1 = .error (.noResult options.cap) ∧
      ((solveText options text : StateM σ _) state).2 = state := by
  simp only [solveText, parsed, returned, silent]
  exact ⟨rfl, rfl⟩

theorem run_solveText_rendered (parsed : Problem.parse text = .ok problem)
    (returned : (problem.solve options.cap).result = .ok outcome)
    (spoken : Report.render outcome = some rendered)
    (written : (Files.write options.output rendered.toUTF8 : StateM σ _) state = (.ok (), after)) :
    ((solveText options text : StateM σ _) state).1.1 = .ok () ∧
      ((solveText options text : StateM σ _) state).2 = after := by
  simp only [solveText, parsed, returned, spoken]
  simp only [bind, StateT.bind, written]
  exact ⟨rfl, rfl⟩

end SolveText

section SolveFile

variable [LawfulFiles σ] {options : Options} {text : String} {before : σ}

theorem run_solveFile_unreadable (unreadable : readText? before options.input = none) :
    (∃ error, ((solveFile options : StateM σ _) before).1.1 = .error error ∧
        error.exitCode = 1) ∧
      ((solveFile options : StateM σ _) before).2 = before := by
  have same := LawfulFiles.read_after options.input before
  unfold readText? at unreadable
  rw [solveFile, run_bind, same]
  cases read : ((Files.read options.input : StateM σ _) before).1 with
  | error error => exact ⟨⟨_, rfl, rfl⟩, rfl⟩
  | ok bytes =>
      rw [read] at unreadable
      dsimp only at unreadable ⊢
      rw [unreadable]
      exact ⟨⟨_, rfl, rfl⟩, rfl⟩

theorem run_solveFile_readable (read : readText? before options.input = some text) :
    (solveFile options : StateM σ _) before =
      (do
        match ← Files.create options.output with
        | .error error => return (.error (.outputUnavailable options.output error), #[])
        | .ok () => solveText options text : StateM σ _) before := by
  have same := LawfulFiles.read_after options.input before
  unfold readText? at read
  rw [solveFile, run_bind, same]
  cases result : ((Files.read options.input : StateM σ _) before).1 with
  | error error =>
      rw [result] at read
      cases read
  | ok bytes =>
      rw [result] at read
      dsimp only at read ⊢
      generalize String.fromUTF8? bytes = decoded at read ⊢
      subst read
      rfl

theorem run_solveFile_refused (refused : ¬Creatable before options.output) :
    (∃ error, ((solveFile options : StateM σ _) before).1.1 = .error error ∧
        error.exitCode = 1) ∧
      ((solveFile options : StateM σ _) before).2 = before := by
  cases read : readText? before options.input with
  | none => exact run_solveFile_unreadable read
  | some text =>
      rw [run_solveFile_readable read, run_bind]
      cases result : ((Files.create options.output : StateM σ _) before).1 with
      | ok created => exact absurd result refused
      | error error =>
          rw [LawfulFiles.create_error result]
          exact ⟨⟨_, rfl, rfl⟩, rfl⟩

theorem run_solveFile_ready (read : readText? before options.input = some text)
    (creatable : Creatable before options.output) :
    (solveFile options : StateM σ _) before =
      (solveText options text : StateM σ _)
        ((Files.create options.output : StateM σ _) before).2 := by
  rw [run_solveFile_readable read, run_bind]
  unfold Creatable at creatable
  rw [creatable]

end SolveFile

section Settling

variable [LawfulFiles σ] {options : Options} {text : String} {before after : σ} {exitCode : Nat}

theorem Settles.of_unavailable
    (unavailable : readText? before options.input = none ∨ ¬Creatable before options.output)
    (code : exitCode = 1) : Settles options before before exitCode where
  original := holds_of_readText?_eq_some
  others _ := rfl
  unavailable _ := ⟨code, rfl⟩
  malformed read creatable := by simp [read, creatable] at unavailable
  capped read creatable := by simp [read, creatable] at unavailable
  solved read creatable := by simp [read, creatable] at unavailable

/-- Where there is a text and a result file, the text decides. -/
theorem Settles.of_ready {content : ByteArray} (read : readText? before options.input = some text)
    (creatable : Creatable before options.output)
    (replaces : Replaces before after options.output content)
    (malformed : ∀ error, Problem.parse text = .error error →
      exitCode = 1 ∧ content = ByteArray.empty)
    (capped : ∀ problem objective, Problem.parse text = .ok problem →
      (problem.solve options.cap).result = .ok (.capped objective) →
        exitCode = 1 ∧ content = ByteArray.empty)
    (solved : ∀ problem outcome, Problem.parse text = .ok problem →
      (problem.solve options.cap).result = .ok outcome →
      (∀ objective, outcome ≠ .capped objective) →
        ∃ rendered, Report.render outcome = some rendered ∧ exitCode = 0 ∧
          content = rendered.toUTF8) :
    Settles options before after exitCode where
  original := holds_of_readText?_eq_some
  others apart := replaces.content?_eq apart
  unavailable unavailable := by simp [read, creatable] at unavailable
  malformed readAgain _ refused := by
    rw [read] at readAgain
    cases readAgain
    obtain ⟨code, rfl⟩ := malformed _ refused
    exact ⟨code, replaces.holds⟩
  capped readAgain _ parsed returned := by
    rw [read] at readAgain
    cases readAgain
    obtain ⟨code, rfl⟩ := capped _ _ parsed returned
    exact ⟨code, replaces.holds⟩
  solved readAgain _ parsed returned finished := by
    rw [read] at readAgain
    cases readAgain
    obtain ⟨rendered, spoken, code, rfl⟩ := solved _ _ parsed returned finished
    exact ⟨rendered, spoken, code, replaces.holds⟩

theorem Settles.of_malformed {error : ProblemError}
    (read : readText? before options.input = some text)
    (creatable : Creatable before options.output) (parsed : Problem.parse text = .error error)
    (replaces : Replaces before after options.output ByteArray.empty) :
    Settles options before after 1 := by
  refine .of_ready read creatable replaces (fun _ _ => ⟨rfl, rfl⟩) ?_ ?_
  · intro problem objective again
    cases parsed.symm.trans again
  · intro problem outcome again
    cases parsed.symm.trans again

/-- Where the text is a problem, the outcome decides. -/
theorem Settles.of_parsed {problem : Problem Float} {content : ByteArray}
    (read : readText? before options.input = some text)
    (creatable : Creatable before options.output) (parsed : Problem.parse text = .ok problem)
    (replaces : Replaces before after options.output content)
    (capped : ∀ objective, (problem.solve options.cap).result = .ok (.capped objective) →
      exitCode = 1 ∧ content = ByteArray.empty)
    (solved : ∀ outcome, (problem.solve options.cap).result = .ok outcome →
      (∀ objective, outcome ≠ .capped objective) →
        ∃ rendered, Report.render outcome = some rendered ∧ exitCode = 0 ∧
          content = rendered.toUTF8) :
    Settles options before after exitCode := by
  refine .of_ready read creatable replaces ?_ ?_ ?_
  · intro error again
    cases parsed.symm.trans again
  · intro other objective again
    cases parsed.symm.trans again
    exact capped objective
  · intro other outcome again
    cases parsed.symm.trans again
    exact solved outcome

/-- The result file stays empty without an outcome to write. -/
theorem Settles.of_silent {problem : Problem Float}
    {result : Except (Fault Float) (Outcome Float)}
    (read : readText? before options.input = some text)
    (creatable : Creatable before options.output) (parsed : Problem.parse text = .ok problem)
    (replaces : Replaces before after options.output ByteArray.empty)
    (returned : (problem.solve options.cap).result = result)
    (silent : ∀ outcome, result = .ok outcome →
      (∃ objective, outcome = .capped objective) ∧ exitCode = 1) :
    Settles options before after exitCode := by
  refine .of_parsed read creatable parsed replaces ?_ ?_
  · intro objective capped
    exact ⟨(silent _ (returned.symm.trans capped)).2, rfl⟩
  · intro outcome finished notCapped
    obtain ⟨objective, isCapped⟩ := (silent _ (returned.symm.trans finished)).1
    exact absurd isCapped (notCapped objective)

theorem Settles.of_rendered {problem : Problem Float} {outcome : Outcome Float} {rendered : String}
    (read : readText? before options.input = some text)
    (creatable : Creatable before options.output) (parsed : Problem.parse text = .ok problem)
    (replaces : Replaces before after options.output rendered.toUTF8)
    (returned : (problem.solve options.cap).result = .ok outcome)
    (spoken : Report.render outcome = some rendered) : Settles options before after 0 := by
  refine .of_parsed read creatable parsed replaces ?_ ?_
  · intro objective capped
    cases returned.symm.trans capped
    cases spoken
  · intro other finished _
    cases returned.symm.trans finished
    exact ⟨rendered, spoken, rfl, rfl⟩

end Settling

section Execute

variable {arguments : List String} {options : Options}

omit [FileView σ] in
theorem run_execute (asked : request arguments = .solve options) (before : σ) :
    ((execute arguments : StateM σ _) before).1.result =
        ((solveFile options : StateM σ _) before).1.1 ∧
      ((execute arguments : StateM σ _) before).2 =
        ((solveFile options : StateM σ _) before).2 := by
  simp only [execute, asked]
  exact ⟨rfl, rfl⟩

theorem render_eq_none_iff {outcome : Outcome Float} :
    Report.render outcome = none ↔ ∃ objective, outcome = .capped objective := by
  cases outcome <;> simp [Report.render]

variable [LawfulFiles σ]

/-- What solving the text comes to once the result file is created. -/
theorem solveText_settles {text : String} {before : σ}
    (read : readText? before options.input = some text)
    (creatable : Creatable before options.output) :
    let run := (solveText options text : StateM σ _)
      ((Files.create options.output : StateM σ _) before).2
    Settles options before run.2 (CommandReport.exitCode ⟨.nothing, run.1.1, #[]⟩) := by
  intro run
  have created := LawfulFiles.create_ok creatable
  cases parsed : Problem.parse text with
  | error error =>
      have isRun : run = ((.error (.noProblem error), #[]), _) := run_solveText_malformed parsed
      rw [isRun]
      exact .of_malformed read creatable parsed created
  | ok problem =>
      cases returned : (problem.solve options.cap).result with
      | error fault =>
          have isState : run.2 = _ := run_solveText_broken parsed returned
          rw [isState]
          exact .of_silent read creatable parsed created returned nofun
      | ok outcome =>
          cases spoken : Report.render outcome with
          | none =>
              obtain ⟨isResult, isState⟩ : run.1.1 = _ ∧ run.2 = _ :=
                run_solveText_capped parsed returned spoken
              rw [isResult, isState]
              apply Settles.of_silent read creatable parsed created returned
              rintro _ ⟨⟩
              exact ⟨render_eq_none_iff.mp spoken, rfl⟩
          | some rendered =>
              obtain ⟨after, written, same, replaces⟩ :=
                LawfulFiles.write_created rendered.toUTF8 creatable
              obtain ⟨isResult, isState⟩ : run.1.1 = .ok () ∧ run.2 = after :=
                run_solveText_rendered parsed returned spoken written
              rw [isResult, isState]
              exact .of_rendered read creatable parsed (created.trans replaces same) returned spoken

/-- A command that is asked to solve changes the result file and nothing else. -/
theorem execute_settles (asked : request arguments = .solve options) (before : σ) :
    Settles options before ((execute arguments : StateM σ _) before).2
      ((execute arguments : StateM σ _) before).1.exitCode := by
  obtain ⟨result, state⟩ := run_execute asked before
  rw [CommandReport.exitCode, result, state]
  by_cases creatable : Creatable before options.output
  case neg =>
    obtain ⟨⟨error, failed, code⟩, same⟩ := run_solveFile_refused creatable
    rw [failed, same]
    exact .of_unavailable (.inr creatable) code
  cases read : readText? before options.input with
  | none =>
      obtain ⟨⟨error, failed, code⟩, same⟩ := run_solveFile_unreadable read
      rw [failed, same]
      exact .of_unavailable (.inl read) code
  | some text =>
      rw [run_solveFile_ready read creatable]
      exact solveText_settles read creatable

end Execute

/-- A single file in the working directory. -/
def FileSystem.single (name text : String) : FileSystem where
  nodes := [(["work"], .directory), (["work", name], .file text.toUTF8)]
  workingDirectory := ["work"]

theorem readText?_single (text : String) :
    readText? (FileSystem.single "IN" text) "IN" = some text := by
  -- Splitting is by well-founded recursion, which does not compute: once for each character.
  have names : "IN".splitOn "/" = ["IN"] := by
    rw [String.splitOn, if_neg (by decide)]
    iterate 3 rw [String.splitOnAux]; simp +decide only [↓reduceIte]
  have leads : (FileSystem.single "IN" text).locate "IN" = .ok ["work", "IN"] := by
    rw [FileSystem.locate, names]
    with_unfolding_all rfl
  have reads : (FileSystem.single "IN" text).readFile "IN" = .ok text.toUTF8 := by
    simp only [FileSystem.readFile, leads]
    with_unfolding_all rfl
  simp only [readText?, Files.read, reads]
  exact dif_pos text.isValidUTF8

theorem creatable_single (text : String) : Creatable (FileSystem.single "IN" text) "./IN" := by
  have names : "./IN".splitOn "/" = [".", "IN"] := by
    rw [String.splitOn, if_neg (by decide)]
    iterate 5 rw [String.splitOnAux]; simp +decide only [↓reduceIte]
  have leads : (FileSystem.single "IN" text).locate "./IN" = .ok ["work", "IN"] := by
    rw [FileSystem.locate, names]
    with_unfolding_all rfl
  simp only [Creatable, Files.create, FileSystem.attempt, FileSystem.writeFile, leads]
  with_unfolding_all rfl

/-- Two paths to one file: the result takes the place of the problem. -/
theorem execute_settles_in_place :
    request ["IN", "./IN", "--max-iter=5"] = .solve ⟨"IN", "./IN", ⟨5⟩, 0⟩ ∧
      let before := FileSystem.single "IN" "1 1\n1\n1 5\n"
      let run := (execute ["IN", "./IN", "--max-iter=5"] : StateM FileSystem _) before
      readText? before "IN" = some "1 1\n1\n1 5\n" ∧ Creatable before "./IN" ∧
        Settles ⟨"IN", "./IN", ⟨5⟩, 0⟩ before run.2 run.1.exitCode :=
  have asked : request ["IN", "./IN", "--max-iter=5"] = .solve ⟨"IN", "./IN", ⟨5⟩, 0⟩ := by rfl
  ⟨asked, readText?_single _, creatable_single _, execute_settles asked _⟩

end TwoPhase.CommandLine
