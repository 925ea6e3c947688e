import TwoPhase.CommandLine.Files

/-!
# Files that keep to themselves

What a command relies on when it reads, creates and writes files: reading changes nothing, what
fails changes nothing, and what succeeds changes the one file that the path leads to.  The tree of
files keeps these laws, since a path leads through directories and only files are replaced.
-/

namespace TwoPhase.CommandLine

/-- Which file a path leads to, and what a file holds if it is there.  Several paths may lead to one
file. -/
class FileView (σ : Type) where
  File : Type
  file? : σ → String → Option File
  content? : σ → File → Option ByteArray

open FileView

section Laws

variable {σ : Type} [FileView σ]

/-- The path leads to a file with this content. -/
def Holds (state : σ) (path : String) (content : ByteArray) : Prop :=
  ∃ file, file? state path = some file ∧ content? state file = some content

/-- The content of the file that the path leads to is replaced, and no other one. -/
def Replaces (before after : σ) (path : String) (content : ByteArray) : Prop :=
  ∃ file, file? after path = some file ∧ content? after file = some content ∧
    ∀ other, other ≠ file → content? after other = content? before other

/-- Reading, creating and writing do what they are there for, to the file that the path leads to, or
fail and change nothing. -/
class LawfulFiles (σ : Type) [FileView σ] [Files (StateM σ)] : Prop where
  read_after (path : String) (state : σ) : ((Files.read path : StateM σ _) state).2 = state
  read_ok {path : String} {state : σ} {content : ByteArray} :
    ((Files.read path : StateM σ _) state).1 = .ok content → Holds state path content
  create_error {path : String} {state : σ} {error : SystemError} :
    ((Files.create path : StateM σ _) state).1 = .error error →
      ((Files.create path : StateM σ _) state).2 = state
  create_ok {path : String} {state : σ} :
    ((Files.create path : StateM σ _) state).1 = .ok () →
      Replaces state ((Files.create path : StateM σ _) state).2 path ByteArray.empty
  /-- A file that was just created can be written, and is still where it was. -/
  write_created {path : String} {state : σ} (content : ByteArray) :
    ((Files.create path : StateM σ _) state).1 = .ok () →
      ∃ after, (Files.write path content : StateM σ _)
          ((Files.create path : StateM σ _) state).2 = (.ok (), after) ∧
        file? after path = file? ((Files.create path : StateM σ _) state).2 path ∧
        Replaces ((Files.create path : StateM σ _) state).2 after path content

theorem Replaces.holds {before after : σ} {path : String} {content : ByteArray}
    (replaces : Replaces before after path content) : Holds after path content := by
  obtain ⟨file, leads, holds, _⟩ := replaces
  exact ⟨file, leads, holds⟩

theorem Replaces.content?_eq {before after : σ} {path : String} {content : ByteArray}
    (replaces : Replaces before after path content) {other : File σ}
    (apart : file? after path ≠ some other) : content? after other = content? before other := by
  obtain ⟨file, leads, _, others⟩ := replaces
  apply others
  rintro rfl
  exact apart leads

theorem Replaces.trans {before middle after : σ} {path : String} {first last : ByteArray}
    (created : Replaces before middle path first) (written : Replaces middle after path last)
    (same : file? after path = file? middle path) : Replaces before after path last := by
  obtain ⟨file, leads, _, others⟩ := created
  obtain ⟨again, leadsAgain, holds, othersAgain⟩ := written
  rw [same, leads] at leadsAgain
  cases leadsAgain
  exact ⟨file, same.trans leads, holds, fun other apart =>
    (othersAgain other apart).trans (others other apart)⟩

end Laws

namespace FileSystem

variable {fs changed : FileSystem} {location : Location} {path : String} {content : ByteArray}

instance : FileView FileSystem where
  File := Location
  file? fs path := (fs.locate path).toOption
  content? fs location :=
    match fs.node? location with
    | some (.file content) => some content
    | _ => none

theorem content?_eq_some_iff :
    content? fs location = some content ↔ fs.node? location = some (.file content) := by
  change (match fs.node? location with
    | some (.file content) => some content
    | _ => none) = some content ↔ _
  split
  · next isFile => simp [isFile]
  · next notFile => simpa using notFile content

theorem file?_eq_some_iff : file? fs path = some location ↔ fs.locate path = .ok location := by
  change (fs.locate path).toOption = some location ↔ _
  cases fs.locate path <;> simp [Except.toOption]

theorem content?_congr {other : FileSystem} (same : other.node? location = fs.node? location) :
    content? other location = content? fs location := by
  change (match other.node? location with
    | some (.file content) => some content
    | _ => none) = _
  rw [same]
  rfl

section Put

theorem lookup_filter_ne {other : Location} (apart : other ≠ location)
    (nodes : List (Location × Node)) :
    (nodes.filter fun entry => entry.1 ≠ location).lookup other = nodes.lookup other := by
  induction nodes with
  | nil => rfl
  | cons entry rest inductionHypothesis =>
      obtain ⟨place, node⟩ := entry
      by_cases removed : place = location
      · have passed : (other == place) = false := by simpa [removed] using apart
        rw [List.filter_cons_of_neg (by simp [removed]), inductionHypothesis, List.lookup_cons,
          passed]
      · rw [List.filter_cons_of_pos (by simpa using removed), List.lookup_cons, List.lookup_cons,
          inductionHypothesis]

theorem node?_put_self (notDirectory : fs.node? location ≠ some .directory) :
    (fs.put location content).node? location = some (.file content) := by
  have notRoot : location ≠ [] := by
    rintro rfl
    exact notDirectory (if_pos rfl)
  simp [node?, put, notRoot]

theorem node?_put_other {other : Location} (apart : other ≠ location) :
    (fs.put location content).node? other = fs.node? other := by
  have passed : (other == location) = false := by simpa using apart
  simp only [node?, put, List.lookup_cons, passed]
  rw [lookup_filter_ne apart]

/-- A step leads through a directory, which no replaced file is. -/
theorem step_put {place next : Location} {name : String}
    (notDirectory : fs.node? location ≠ some .directory) (step : fs.step place name = .ok next) :
    (fs.put location content).step place name = .ok next := by
  by_cases same : place = location
  · subst same
    unfold FileSystem.step at step
    split at step
    · cases step
    · cases step
    · next isDirectory => exact absurd isDirectory notDirectory
  · unfold FileSystem.step at step ⊢
    rwa [node?_put_other same]

theorem foldlM_step_put {names : List String} {place target : Location}
    (notDirectory : fs.node? location ≠ some .directory)
    (leads : names.foldlM fs.step place = .ok target) :
    names.foldlM (fs.put location content).step place = .ok target := by
  induction names generalizing place with
  | nil => exact leads
  | cons name names inductionHypothesis =>
      rw [List.foldlM_cons] at leads ⊢
      cases first : fs.step place name with
      | error failure =>
          rw [first] at leads
          cases leads
      | ok next =>
          rw [first] at leads
          rw [step_put notDirectory first]
          exact inductionHypothesis leads

theorem locate_put {target : Location} (notDirectory : fs.node? location ≠ some .directory)
    (leads : fs.locate path = .ok target) :
    (fs.put location content).locate path = .ok target := by
  unfold locate at leads ⊢
  split at leads
  · cases leads
  · split at leads
    · cases leads
    · next notEmpty notLong =>
        rw [if_neg notEmpty, if_neg notLong]
        exact foldlM_step_put notDirectory leads

end Put

section Write

theorem writeFile_eq_ok_iff :
    fs.writeFile path content = .ok changed ↔
      ∃ location, fs.locate path = .ok location ∧ fs.node? location ≠ some .directory ∧
        asksDirectory path = false ∧ changed = fs.put location content := by
  unfold writeFile
  split
  · next error failed => simp [failed]
  · next location leads =>
      split
      · next isDirectory => simp [leads, isDirectory]
      · next notDirectory =>
          split
          · next asks => simp [asks]
          · next asksNot =>
              simp [leads, asksNot, @eq_comm _ changed]
              exact fun _ => notDirectory

theorem replaces_of_writeFile (written : fs.writeFile path content = .ok changed) :
    Replaces fs changed path content := by
  obtain ⟨location, leads, notDirectory, _, rfl⟩ := writeFile_eq_ok_iff.mp written
  refine ⟨location, file?_eq_some_iff.mpr (locate_put notDirectory leads),
    content?_eq_some_iff.mpr (node?_put_self notDirectory), fun other apart => ?_⟩
  exact content?_congr (node?_put_other apart)

end Write

theorem write_eq_ok (written : fs.writeFile path content = .ok changed) :
    (Files.write path content : StateM FileSystem _) fs = (.ok (), changed) := by
  change attempt _ fs = _
  simp only [attempt, written]

/-- A file is created by writing nothing to it. -/
theorem create_cases (fs : FileSystem) (path : String) :
    (∃ error, (Files.create path : StateM FileSystem _) fs = (.error error, fs)) ∨
      ∃ changed, fs.writeFile path ByteArray.empty = .ok changed ∧
        (Files.create path : StateM FileSystem _) fs = (.ok (), changed) := by
  change (∃ error, attempt _ fs = _) ∨ ∃ changed, _ ∧ attempt _ fs = _
  cases written : fs.writeFile path ByteArray.empty with
  | error error => exact .inl ⟨error, by simp only [attempt, written]⟩
  | ok changed => exact .inr ⟨changed, rfl, by simp only [attempt, written]⟩

/-- Writing goes to the same place as the creation before it. -/
theorem exists_writeFile_of_writeFile {first : ByteArray}
    (written : fs.writeFile path first = .ok changed) (content : ByteArray) :
    ∃ after, changed.writeFile path content = .ok after ∧
      file? after path = file? changed path := by
  obtain ⟨location, leads, notDirectory, asksNot, rfl⟩ := writeFile_eq_ok_iff.mp written
  have leadsAgain := @locate_put _ _ _ first _ notDirectory leads
  have notDirectoryAgain : (fs.put location first).node? location ≠ some .directory := by
    rw [node?_put_self notDirectory]
    exact nofun
  refine ⟨_, writeFile_eq_ok_iff.mpr ⟨location, leadsAgain, notDirectoryAgain, asksNot, rfl⟩, ?_⟩
  rw [file?_eq_some_iff.mpr leadsAgain]
  exact file?_eq_some_iff.mpr (locate_put notDirectoryAgain leadsAgain)

instance : LawfulFiles FileSystem where
  read_after _ _ := rfl
  read_ok {path fs content} read := by
    change fs.readFile path = .ok content at read
    unfold readFile at read
    split at read
    · cases read
    · next location leads =>
        split at read
        · cases read
        · cases read
        · next isFile =>
            split at read
            · cases read
            · cases read
              exact ⟨location, file?_eq_some_iff.mpr leads, content?_eq_some_iff.mpr isFile⟩
  create_error {path fs error} failed := by
    rcases create_cases fs path with ⟨_, created⟩ | ⟨_, _, created⟩
    · rw [created]
    · rw [created] at failed
      cases failed
  create_ok {path fs} succeeded := by
    rcases create_cases fs path with ⟨_, created⟩ | ⟨changed, written, created⟩
    · rw [created] at succeeded
      cases succeeded
    · rw [created]
      exact replaces_of_writeFile written
  write_created {path fs} content succeeded := by
    rcases create_cases fs path with ⟨_, created⟩ | ⟨changed, written, created⟩
    · rw [created] at succeeded
      cases succeeded
    · rw [created]
      obtain ⟨after, again, same⟩ := exists_writeFile_of_writeFile written content
      exact ⟨after, write_eq_ok again, same, replaces_of_writeFile again⟩

end FileSystem

end TwoPhase.CommandLine
