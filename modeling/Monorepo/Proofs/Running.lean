import Monorepo.Command.Init
import Monorepo.Proofs.Keeping
import Monorepo.Proofs.Putting

/-!
# What runs of commands write

The commands that make files, but for the one that makes a repository, leave the directories and
links of the disk as they are.  So what a run of them has done can be told from where each writes:

* `Disk.FilesWritten` — one disk is another after files were written, and paths lead where they led;
* `Init.exists_of_writeTemplate` — the file that a template is written to, and its text;
* `Init.lastAt` — the last call that writes to a location;
* `Init.holdsLast_of_runAll` — after a run, each location holds what the last call that writes there
  has written, or what it held before.
-/

namespace Monorepo

namespace Disk

open FileTree

variable {d d' d'' : Disk} {p : Path} {location : Location} {bytes : List UInt8}

/-! ### Files that are written -/

/-- The disk with a file at a location. -/
def withFile (d : Disk) (location : Location) (bytes : List UInt8) : Disk :=
  { d with tree := d.tree.put location (.file bytes) }

/-- The second disk is the first after files were written: its directories and links are the same,
what else is there is a file that was written or was there before, and it is still well-formed. -/
structure FilesWritten (d d' : Disk) : Prop where
  ways : d.tree.SameWays d'.tree
  workingDir : d'.workingDir = d.workingDir
  entries : ∀ location entry, d'.tree.entry? location = some entry →
    (∃ bytes, entry = .file bytes) ∨ d.tree.entry? location = some entry
  wellFormed : d.tree.WellFormed → d.tree.LinksProper → d'.tree.WellFormed

theorem FilesWritten.refl (d : Disk) : d.FilesWritten d :=
  ⟨.refl _, rfl, fun _ _ hentry => .inr hentry, fun ht _ => ht⟩

theorem FilesWritten.trans (h : d.FilesWritten d') (h' : d'.FilesWritten d'') :
    d.FilesWritten d'' :=
  ⟨h.ways.trans h'.ways, h'.workingDir.trans h.workingDir,
    fun location entry hentry => (h'.entries location entry hentry).elim .inl (h.entries location entry),
    fun ht hlinks => h'.wellFormed (h.wellFormed ht hlinks) (h.ways.linksProper hlinks)⟩

theorem FilesWritten.locate_eq_ok (h : d.FilesWritten d') {keepLast : Bool} :
    d'.locate p keepLast = .ok location ↔ d.locate p keepLast = .ok location := by
  rw [Disk.locate_eq_ok, Disk.locate_eq_ok, startOf, startOf, h.workingDir]
  exact and_congr_right fun _ => ⟨.of_sameWays h.ways.symm, .of_sameWays h.ways⟩

theorem FilesWritten.find_directory (h : d.FilesWritten d') :
    d'.find p = .ok (location, .directory) ↔ d.find p = .ok (location, .directory) := by
  rw [find_eq_ok, find_eq_ok, h.locate_eq_ok, h.ways.directories]

/-- A path leads to an entry, or to where there could be one. -/
theorem placeable_of_locate (ht : d.tree.WellFormed) (hlinks : d.tree.LinksProper)
    {keepLast : Bool} (h : d.locate p keepLast = .ok location) : d.tree.Placeable location := by
  obtain ⟨hcheck, hleads⟩ := Disk.locate_eq_ok.mp h
  obtain ⟨hzero, -, -⟩ := checkText_eq_ok.mp hcheck
  have hsegments : p.segments ≠ [] := by
    simpa [Path.segments] using Path.splitSegments_ne_nil p.text.toList
  obtain ⟨segment, rest, hcons⟩ := List.exists_cons_of_ne_nil hsegments
  have hstart : d.tree.Placeable (d.startOf p) := by
    rw [hcons] at hleads
    exact .inl ⟨_, hleads.directory_of_cons⟩
  exact hleads.placeable ht hlinks (Path.textOfNames_segments hzero) hstart

theorem lookup_withFile (hfree : d.tree.Free location) (other : Location) :
    FileTree.entry? (d.withFile location bytes).tree other =
      if other = location then some (.file bytes) else d.tree.entry? other :=
  lookup_put hfree.ne_root _ other

theorem filesWritten_withFile (hlocate : d.locate p false = .ok location)
    (hfree : d.tree.Free location) (bytes : List UInt8) :
    d.FilesWritten (d.withFile location bytes) where
  ways := sameWays_put hfree bytes
  workingDir := rfl
  entries other entry hentry := by
    rw [lookup_withFile hfree] at hentry
    split at hentry
    · exact .inl ⟨bytes, (Option.some.inj hentry).symm⟩
    · exact .inr hentry
  wellFormed ht hlinks := ht.put (placeable_of_locate ht hlinks hlocate) hfree.not_directory _

/-- Where a file is written, the path leads over links, even if a new file is asked for. -/
theorem exists_of_write {α : Type} [OnDisk α] {value : α} {overwrite : Bool}
    (h : ConfigFile.write d value p overwrite = .ok d') :
    ∃ location text, d.locate p false = .ok location ∧ d.tree.Free location ∧
      (FileFormat.ofPath p).render (toDocument value) = .ok text ∧
      d' = d.withFile location (Utf8.encode text) := by
  rw [ConfigFile.write, FileFormat.encode] at h
  cases hencode : (FileFormat.ofPath p).render (toDocument value) with
  | error fault =>
    rw [hencode] at h
    cases h
  | ok text =>
    have hmode : (if overwrite then Disk.WriteMode.replace else .createNew) ≠ .extend := by
      cases overwrite <;> decide
    cases hwrite : d.writeFile p (if overwrite then .replace else .createNew)
        (Utf8.encode text) with
    | error fault =>
      simp only [hencode, hwrite] at h
      cases h
    | ok written =>
      simp only [hencode, hwrite] at h
      cases h
      obtain ⟨location, hlocate, hfree, rfl⟩ := exists_of_writeFile hmode hwrite
      obtain ⟨hcheck, hleads⟩ := Disk.locate_eq_ok.mp hlocate
      have hfollowed := hleads.of_keepsWays (SameWays.refl d.tree).keepsWays hfree.not_link
      exact ⟨location, text, Disk.locate_eq_ok.mpr ⟨hcheck, hfollowed⟩, hfree, rfl, rfl⟩

end Disk

/-! ### What the commands write -/

/-- The file that a command makes when it is run from a directory, with the document that it writes
there.  Commands that make a repository make several, and are left out. -/
def Command.made? (cwd : Path) : Command → Option (Path × Document)
  | .initApp name dir? format _ =>
    some ((Init.targetDir cwd dir?).join (Init.appFileName format), toDocument (Template.app name))
  | .initInclude file _ => some (cwd.join file, toDocument Template.includeFile)
  | _ => none

namespace Init

variable {d d' d₁ : Disk} {location : Location}

/-- A template is written like a value, unless something is there that may not be overwritten. -/
theorem writeTemplate_eq_ok {α : Type} [OnDisk α] {value : α} {file : Path} {force : Bool} :
    writeTemplate d value file force = (.ok (), d') ↔
      (force = false → d.pathExists file = false) ∧
        ConfigFile.write d value file force = .ok d' := by
  have hrefused : (!force && d.pathExists file) = true ↔
      ¬ (force = false → d.pathExists file = false) := by simp
  rw [writeTemplate]
  by_cases hfree : force = false → d.pathExists file = false
  · rw [if_neg (mt hrefused.mp (not_not.mpr hfree))]
    refine Iff.trans ?_ (and_iff_right hfree).symm
    cases ConfigFile.write d value file force with
    | ok written => simp
    | error e => simp
  · rw [if_pos (hrefused.mpr hfree)]
    exact ⟨nofun, fun h => absurd h.1 hfree⟩

/-- Or nothing has changed. -/
theorem unchanged_of_writeTemplate {α : Type} [OnDisk α] {value : α} {file : Path} {force : Bool}
    {failure : Failure} (h : writeTemplate d value file force = (.error failure, d')) :
    d' = d := by
  rw [writeTemplate] at h
  split at h
  · exact (congrArg Prod.snd h).symm
  · split at h
    · cases h
    · exact (congrArg Prod.snd h).symm

/-- **What a template that was written has done.** -/
theorem exists_of_writeTemplate {α : Type} [OnDisk α] {value : α} {file : Path} {force : Bool}
    (h : writeTemplate d value file force = (.ok (), d')) :
    ∃ location text, d.locate file false = .ok location ∧ d.tree.Free location ∧
      (FileFormat.ofPath file).render (toDocument value) = .ok text ∧
      d' = d.withFile location (Utf8.encode text) :=
  Disk.exists_of_write (writeTemplate_eq_ok.mp h).2

theorem exists_of_oneFile {α : Type} [OnDisk α] {value : α} {file : Path} {force : Bool}
    {files : List Path} (h : oneFile d value file force = (.ok files, d')) :
    ∃ location text, d.locate file false = .ok location ∧ d.tree.Free location ∧
      (FileFormat.ofPath file).render (toDocument value) = .ok text ∧
      d' = d.withFile location (Utf8.encode text) := by
  rw [oneFile] at h
  split at h
  · rename_i hwrite
    cases h
    exact exists_of_writeTemplate hwrite
  · cases h

/-- A command, and the directory it is run from. -/
structure Call where
  cwd : Path
  command : Command
  deriving DecidableEq, Repr

namespace Call

/-- The file that a call makes, with what it writes there. -/
def made? (call : Call) : Option (Path × Document) :=
  call.command.made? call.cwd

/-- Where a call writes. -/
def goal? (call : Call) (d : Disk) : Option Location :=
  call.made?.bind fun made => (d.locate made.1 false).toOption

/-- **What a call has done** that does not make a repository and reports success: it has written the
file that it makes, if it makes one. -/
theorem run_spec {call : Call} {files : List Path}
    (hcommand : ∀ dir? force, call.command ≠ .initRepository dir? force)
    (h : call.command.runInit d call.cwd = (.ok files, d')) :
    call.made? = none ∧ d' = d ∨
      ∃ file document location text, call.made? = some (file, document) ∧
        d.locate file false = .ok location ∧ d.tree.Free location ∧
        (FileFormat.ofPath file).render document = .ok text ∧
        d' = d.withFile location (Utf8.encode text) := by
  obtain ⟨cwd, command⟩ := call
  cases command with
  | initRepository dir? force => exact absurd rfl (hcommand dir? force)
  | initApp name dir? format force =>
    obtain ⟨location, text, hwritten⟩ := exists_of_oneFile h
    exact .inr ⟨_, _, location, text, rfl, hwritten⟩
  | initInclude file force =>
    obtain ⟨location, text, hwritten⟩ := exists_of_oneFile h
    exact .inr ⟨_, _, location, text, rfl, hwritten⟩
  | check format =>
    cases h
    exact .inl ⟨rfl, rfl⟩
  | showApp name format =>
    cases h
    exact .inl ⟨rfl, rfl⟩

theorem goal?_eq_some {call : Call} {file : Path} {document : Document}
    (hmade : call.made? = some (file, document)) :
    call.goal? d = some location ↔ d.locate file false = .ok location := by
  rw [goal?, hmade, Option.bind_some]
  cases d.locate file false with
  | error fault => exact ⟨nofun, nofun⟩
  | ok found => simp [Except.toOption]

theorem goal?_filesWritten (h : d.FilesWritten d') (call : Call) :
    call.goal? d' = call.goal? d := by
  cases hmade : call.made? with
  | none => rw [goal?, goal?, hmade, Option.bind_none, Option.bind_none]
  | some made =>
    apply Option.ext
    intro location
    rw [goal?_eq_some hmade, goal?_eq_some hmade, h.locate_eq_ok]

end Call

/-! ### Runs of commands -/

/-- The disk after calls that all report success. -/
def runAll (d : Disk) : List Call → Option Disk
  | [] => some d
  | call :: rest =>
    match call.command.runInit d call.cwd with
    | (.ok _, d) => runAll d rest
    | (.error _, _) => none

/-- The last of some calls that writes to a location. -/
def lastAt (d : Disk) (location : Location) : List Call → Option Call
  | [] => none
  | call :: rest =>
    (lastAt d location rest).or (if call.goal? d = some location then some call else none)

theorem lastAt_filesWritten (h : d.FilesWritten d') (location : Location) (calls : List Call) :
    lastAt d' location calls = lastAt d location calls := by
  induction calls with
  | nil => rfl
  | cons call rest ih => rw [lastAt, lastAt, ih, call.goal?_filesWritten h]

/-- The last call that writes to a location is one of the calls, and writes there. -/
theorem of_lastAt {call : Call} {calls : List Call} (h : lastAt d location calls = some call) :
    call ∈ calls ∧ call.goal? d = some location := by
  induction calls with
  | nil => cases h
  | cons first rest ih =>
    rw [lastAt, Option.or_eq_some_iff] at h
    rcases h with hrest | ⟨-, hfirst⟩
    · obtain ⟨hmem, hgoal⟩ := ih hrest
      exact ⟨List.mem_cons_of_mem _ hmem, hgoal⟩
    · split at hfirst
      · rename_i hgoal
        cases hfirst
        exact ⟨List.mem_cons_self, hgoal⟩
      · cases hfirst

/-- A file at a location is the text of a document in a format. -/
def HoldsText (d : Disk) (location : Location) (format : FileFormat) (document : Document) :
    Prop :=
  ∃ text, format.render document = .ok text ∧
    d.tree.entry? location = some (.file (Utf8.encode text))

/-- What is at a location after calls: what the last of them that writes there has written, or what
was there before. -/
def HoldsLast (d d' : Disk) (calls : List Call) (location : Location) : Prop :=
  match lastAt d location calls with
  | none => d'.tree.entry? location = d.tree.entry? location
  | some call => ∃ file document, call.made? = some (file, document) ∧
      HoldsText d' location (FileFormat.ofPath file) document

/-- **What a run has done.**  Files were written, and each location holds what the last call that
writes there has written. -/
theorem holdsLast_of_runAll {calls : List Call}
    (hcalls : ∀ call ∈ calls, ∀ dir? force, call.command ≠ .initRepository dir? force)
    (h : runAll d calls = some d') :
    d.FilesWritten d' ∧ ∀ location, HoldsLast d d' calls location := by
  induction calls generalizing d with
  | nil =>
    cases h
    exact ⟨.refl d', fun _ => rfl⟩
  | cons call rest ih =>
    rw [List.forall_mem_cons] at hcalls
    rw [runAll] at h
    split at h
    swap
    · cases h
    rename_i files next hnext
    obtain ⟨hrest, hlast⟩ := ih hcalls.2 h
    rcases call.run_spec hcalls.1 hnext with ⟨hnone, rfl⟩ |
      ⟨file, document, goal, text, hmade, hlocate, hfree, hrender, rfl⟩
    · refine ⟨hrest, fun location => ?_⟩
      have hgoal : call.goal? next ≠ some location := by
        rw [Call.goal?, hnone]
        exact nofun
      have hlocation := hlast location
      rw [HoldsLast] at hlocation ⊢
      rwa [lastAt, if_neg hgoal, Option.or_none]
    · have hstep := Disk.filesWritten_withFile hlocate hfree (Utf8.encode text)
      refine ⟨hstep.trans hrest, fun location => ?_⟩
      have hlocation := hlast location
      rw [HoldsLast, lastAt_filesWritten hstep, Disk.lookup_withFile hfree] at hlocation
      rw [HoldsLast, lastAt, (Call.goal?_eq_some hmade).mpr hlocate]
      cases hafter : lastAt d location rest with
      | some later =>
        rw [hafter] at hlocation
        exact hlocation
      | none =>
        rw [hafter] at hlocation
        rw [Option.none_or]
        by_cases hgoal : location = goal
        · rw [if_pos (congrArg some hgoal.symm)]
          exact ⟨file, document, hmade, text, hrender, by rw [hlocation, if_pos hgoal]⟩
        · rw [if_neg fun heq => hgoal (Option.some.inj heq).symm]
          rw [hlocation, if_neg hgoal]

theorem HoldsLast.entry?_eq {calls : List Call} (h : HoldsLast d d' calls location)
    (hlast : lastAt d location calls = none) :
    d'.tree.entry? location = d.tree.entry? location := by
  rwa [HoldsLast, hlast] at h

theorem HoldsLast.holdsText {calls : List Call} {call : Call} {file : Path} {document : Document}
    (h : HoldsLast d d' calls location) (hlast : lastAt d location calls = some call)
    (hmade : call.made? = some (file, document)) :
    HoldsText d' location (FileFormat.ofPath file) document := by
  rw [HoldsLast, hlast] at h
  obtain ⟨other, found, hfound, hholds⟩ := h
  cases hmade.symm.trans hfound
  exact hholds

end Init

end Monorepo
