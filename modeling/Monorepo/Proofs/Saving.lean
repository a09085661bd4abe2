import Monorepo.Proofs.Running

/-!
# Saving a value

A value is saved in three steps: its text is made, a file is opened, and the text is put into the
file.  An opened file is there at once, and one that is to be replaced is empty from then on, so the
order of the steps matters when one of them fails:

* `Disk.openFile`, `Disk.appendAt` — opening a file and putting bytes into it, each with the disk that
  it leaves behind; `Disk.writeFile_eq`, that writing a file is the one after the other;
* `ConfigFile.save` — the three steps, with the disk that is left behind where one fails;
  `ConfigFile.save_eq`, that this is how a value is written;
* `ConfigFile.saves_whole` — a value is saved as a whole, or nothing has changed.

Putting bytes into an open file is taken not to fail.
-/

namespace Monorepo

namespace FileTree

/-- Of two entries at one location the second one stays. -/
theorem put_put (t : FileTree) (at_ : Location) (first second : Entry) :
    (t.put at_ first).put at_ second = t.put at_ second := by
  have hentries : ∀ entries : List (Location × Entry),
      putEntry at_ second (putEntry at_ first entries) = putEntry at_ second entries := by
    intro entries
    induction entries with
    | nil => simp [putEntry]
    | cons e rest ih =>
      obtain ⟨location, old⟩ := e
      by_cases hplace : location = at_
      · simp [putEntry, hplace]
      · simp [putEntry, hplace, ih]
  exact congrArg FileTree.mk (hentries t.entries)

end FileTree

namespace Disk

open FileTree

variable {d d' : Disk} {p : Path} {location : Location} {mode : WriteMode} {bytes : List UInt8}

/-! ### Opening a file -/

/-- The bytes of the file at a location. -/
def bytesAt (d : Disk) (location : Location) : List UInt8 :=
  match d.tree.entry? location with
  | some (.file bytes) => bytes
  | _ => []

/-- Where a file can be opened to be written. -/
def openable (d : Disk) (p : Path) (mode : WriteMode) : Except FileFault Location := do
  checkText p
  if p.endsInSlash && endsInName p then
    d.tree.enter (← d.locate (enclosing p) false)
    throw .isDirectory
  let location ← d.locate p (mode = .createNew)
  match d.tree.entry? location, mode with
  | some _, .createNew => throw .alreadyExists
  | some .directory, _ | some .closedDirectory, _ => throw .isDirectory
  | some (.link _), _ => throw .tooManyLinks
  | some .closedFile, _ => throw .accessDenied
  | some (.file _), _ => return location
  | none, _ => return location

/-- Opens a file to be written.  It is there from then on, with the bytes that it keeps. -/
def openFile (d : Disk) (p : Path) (mode : WriteMode) : Except FileFault Location × Disk :=
  match d.openable p mode with
  | .ok location =>
    (.ok location, d.withFile location (if mode = .extend then d.bytesAt location else []))
  | .error fault => (.error fault, d)

/-- Puts bytes behind those of an open file. -/
def appendAt (d : Disk) (location : Location) (bytes : List UInt8) : Disk :=
  d.withFile location (d.bytesAt location ++ bytes)

theorem bytesAt_withFile (hroot : location ≠ []) (bytes : List UInt8) :
    (d.withFile location bytes).bytesAt location = bytes := by
  have hentry : FileTree.entry? (d.tree.put location (.file bytes)) location =
      some (.file bytes) := by
    rw [lookup_put hroot, if_pos rfl]
  rw [bytesAt, withFile, hentry]

theorem appendAt_withFile (hroot : location ≠ []) (kept bytes : List UInt8) :
    (d.withFile location kept).appendAt location bytes = d.withFile location (kept ++ bytes) := by
  rw [appendAt, bytesAt_withFile hroot, withFile, withFile, withFile, put_put]

/-- A file is opened where there is one or nothing, and a new one where there is nothing. -/
theorem free_of_openable (h : d.openable p mode = .ok location) :
    d.tree.Free location ∧ d.locate p (mode = .createNew) = .ok location ∧
      (mode = .createNew → d.tree.entry? location = none) := by
  rw [openable, Except.bind_eq_ok_iff] at h
  obtain ⟨⟨⟩, -, hopen⟩ := h
  by_cases hslash : (p.endsInSlash && endsInName p) = true
  · rw [if_pos hslash] at hopen
    obtain ⟨above, -, henter⟩ := Except.bind_eq_ok_iff.mp hopen
    obtain ⟨-, -, hthrow⟩ := Except.bind_eq_ok_iff.mp henter
    cases hthrow
  rw [if_neg hslash] at hopen
  obtain ⟨found, hlocate, hfound⟩ := Except.bind_eq_ok_iff.mp hopen
  cases hentry : d.tree.entry? found with
  | none =>
    simp only [hentry] at hfound
    cases hfound
    exact ⟨.of_none hentry, hlocate, fun _ => hentry⟩
  | some entry =>
    simp only [hentry] at hfound
    cases mode with
    | createNew => cases entry <;> cases hfound
    | replace | extend =>
      cases entry with
      | directory | link | closedFile | closedDirectory => cases hfound
      | file old =>
        cases hfound
        refine ⟨fun entry he => ⟨old, ?_⟩, hlocate, nofun⟩
        exact Option.some.inj (he.symm.trans hentry)

/-- Where a file can be opened, writing puts the bytes behind those that it keeps. -/
theorem writeFile_eq_map (d : Disk) (p : Path) (mode : WriteMode) (bytes : List UInt8) :
    d.writeFile p mode bytes = (d.openable p mode).map fun location =>
      d.withFile location ((if mode = .extend then d.bytesAt location else []) ++ bytes) := by
  rw [writeFile, openable]
  cases checkText p with
  | error fault => rfl
  | ok u =>
    by_cases hslash : (p.endsInSlash && endsInName p) = true
    · rw [if_pos hslash, if_pos hslash]
      cases d.locate (enclosing p) false with
      | error fault => rfl
      | ok above =>
        cases henter : d.tree.enter above <;> simp only [bind, Except.bind, henter] <;> rfl
    · rw [if_neg hslash, if_neg hslash]
      cases d.locate p (mode = .createNew) with
      | error fault => rfl
      | ok location =>
        have hwritten (kept : List UInt8) {kept' : List UInt8} (hkept : kept = kept') :
            (.ok (d.withFile location (kept ++ bytes)) : Except FileFault Disk) =
              .ok (d.withFile location (kept' ++ bytes)) := by
          rw [hkept]
        cases hentry : d.tree.entry? location with
        | none =>
          simp only [bind, Except.bind, hentry]
          refine hwritten [] ?_
          rw [bytesAt, hentry]
          exact (ite_self []).symm
        | some entry =>
          cases entry with
          | directory | link | closedFile | closedDirectory =>
            cases mode <;> simp only [bind, Except.bind, hentry] <;> rfl
          | file old =>
            cases mode with
            | createNew | replace =>
              simp only [bind, Except.bind, hentry]
              rfl
            | extend =>
              simp only [bind, Except.bind, hentry]
              refine hwritten old ?_
              rw [if_pos trivial, bytesAt, hentry]

/-- **Writing a file is opening it and putting bytes into it.** -/
theorem writeFile_eq (d : Disk) (p : Path) (mode : WriteMode) (bytes : List UInt8) :
    d.writeFile p mode bytes =
      match d.openFile p mode with
      | (.ok location, opened) => .ok (opened.appendAt location bytes)
      | (.error fault, _) => .error fault := by
  rw [writeFile_eq_map, openFile]
  cases hopen : d.openable p mode with
  | error fault => rfl
  | ok location =>
    obtain ⟨hfree, -⟩ := free_of_openable hopen
    exact congrArg Except.ok (appendAt_withFile hfree.ne_root _ _).symm

/-! ### Changing one file -/

/-- The second disk is the first with bytes in the file that a path leads to, at a location where
there was a file or nothing.  All other entries are the same. -/
structure WritesOnly (d d' : Disk) (p : Path) (location : Location) (bytes : List UInt8) :
    Prop where
  workingDir : d'.workingDir = d.workingDir
  free : d.tree.Free location
  leads : d.locate p false = .ok location
  found : d'.find p = .ok (location, .file bytes)
  others : ∀ other, other ≠ location → d'.tree.entry? other = d.tree.entry? other

theorem writesOnly_withFile (hlocate : d.locate p false = .ok location)
    (hfree : d.tree.Free location) (bytes : List UInt8) :
    d.WritesOnly (d.withFile location bytes) p location bytes where
  workingDir := rfl
  free := hfree
  leads := hlocate
  found := by
    refine find_eq_ok.mpr ⟨(filesWritten_withFile hlocate hfree bytes).locate_eq_ok.mpr hlocate, ?_⟩
    rw [lookup_withFile hfree, if_pos rfl]
  others other hother := by rw [lookup_withFile hfree, if_neg hother]

/-- What can be opened is found over links too. -/
theorem locate_of_openable (h : d.openable p mode = .ok location) :
    d.locate p false = .ok location := by
  obtain ⟨hfree, hlocate, -⟩ := free_of_openable h
  obtain ⟨hcheck, hleads⟩ := Disk.locate_eq_ok.mp hlocate
  exact Disk.locate_eq_ok.mpr
    ⟨hcheck, hleads.of_keepsWays (SameWays.refl d.tree).keepsWays hfree.not_link⟩

/-- Nothing is opened as new where something is, be it a link that leads nowhere. -/
theorem not_openable_of_linkEntry {entry : Entry} (h : d.linkEntry p = .ok entry) :
    d.openable p .createNew ≠ .ok location := by
  intro hopen
  obtain ⟨-, hlocate, hnew⟩ := free_of_openable hopen
  obtain ⟨found, hfound, hentry⟩ := linkEntry_eq_ok.mp h
  obtain rfl : location = found := Except.ok.inj (hlocate.symm.trans hfound)
  rw [hnew rfl] at hentry
  cases hentry

end Disk

/-! ### Saving -/

namespace ConfigFile

variable {α : Type} [OnDisk α] {d d' : Disk} {value : α} {file : Path} {overwrite : Bool}
  {e : LoadError}

/-- How a file is opened to save a value in it. -/
def modeOf (overwrite : Bool) : Disk.WriteMode :=
  if overwrite then .replace else .createNew

/-- Saves a value in a file, step by step.  Gives the disk that is left behind, also where a step
fails. -/
def save (d : Disk) (value : α) (file : Path) (overwrite : Bool) : Except LoadError Unit × Disk :=
  match (FileFormat.ofPath file).encode value with
  | .error fault => (.error (.parse file fault), d)
  | .ok text =>
    match d.openFile file (modeOf overwrite) with
    | (.error fault, d) => (.error (.io file fault), d)
    | (.ok location, d) => (.ok (), d.appendAt location (Utf8.encode text))

/-- The disk that is left behind is the one that writing gives, or the former one. -/
theorem save_eq (d : Disk) (value : α) (file : Path) (overwrite : Bool) :
    save d value file overwrite =
      match write d value file overwrite with
      | .ok written => (.ok (), written)
      | .error e => (.error e, d) := by
  rw [save, write]
  cases (FileFormat.ofPath file).encode value with
  | error fault => rfl
  | ok text =>
    simp only [Disk.writeFile_eq, modeOf, Disk.openFile]
    cases d.openable file (if overwrite then .replace else .createNew) with
    | error fault => rfl
    | ok location => rfl

theorem save_eq_ok : save d value file overwrite = (.ok (), d') ↔
    ∃ text location, (FileFormat.ofPath file).encode value = .ok text ∧
      d.openable file (modeOf overwrite) = .ok location ∧
      d' = d.withFile location (Utf8.encode text) := by
  rw [save]
  cases (FileFormat.ofPath file).encode value with
  | error fault => simp
  | ok text =>
    rw [Disk.openFile]
    cases hopen : d.openable file (modeOf overwrite) with
    | error fault => simp
    | ok location =>
      obtain ⟨hfree, -⟩ := Disk.free_of_openable hopen
      have hmode : modeOf overwrite ≠ .extend := by cases overwrite <;> decide
      simp [hmode, Disk.appendAt_withFile hfree.ne_root, eq_comm]

theorem save_eq_error : save d value file overwrite = (.error e, d') ↔
    d' = d ∧ ((∃ fault, (FileFormat.ofPath file).encode value = .error fault ∧
        e = .parse file fault) ∨
      ∃ text fault, (FileFormat.ofPath file).encode value = .ok text ∧
        d.openable file (modeOf overwrite) = .error fault ∧ e = .io file fault) := by
  rw [save]
  cases (FileFormat.ofPath file).encode value with
  | error fault => simp [eq_comm, and_comm]
  | ok text =>
    rw [Disk.openFile]
    cases d.openable file (modeOf overwrite) with
    | error fault => simp [eq_comm, and_comm]
    | ok location => simp

/-- The second disk is the first with the text of a value in one file, which is a new one if nothing
may be overwritten. -/
def Saves (d d' : Disk) (value : α) (file : Path) (overwrite : Bool) : Prop :=
  ∃ location text, (FileFormat.ofPath file).encode value = .ok text ∧
    d.WritesOnly d' file location (Utf8.encode text) ∧
    (overwrite = false → d.tree.entry? location = none)

theorem saves_of_save (h : save d value file overwrite = (.ok (), d')) :
    Saves d d' value file overwrite := by
  obtain ⟨text, location, hencode, hopen, rfl⟩ := save_eq_ok.mp h
  obtain ⟨hfree, -, hnone⟩ := Disk.free_of_openable hopen
  refine ⟨location, text, hencode,
    Disk.writesOnly_withFile (Disk.locate_of_openable hopen) hfree _, fun hnew => ?_⟩
  subst hnew
  exact hnone rfl

/-- What becomes of a disk on which a value is saved: the value is there as a whole, or nothing has
changed. -/
structure SavesWhole (d : Disk) (value : α) (file : Path) (overwrite : Bool) : Prop where
  /-- Writing the value comes to the same. -/
  write_eq : write d value file overwrite =
    match save d value file overwrite with
    | (.ok (), written) => .ok written
    | (.error e, _) => .error e
  /-- A failure changes nothing, whichever step fails. -/
  failed : ∀ e d', save d value file overwrite = (.error e, d') → d' = d
  /-- Without a text no file is opened, so an existing one keeps its bytes. -/
  unwritable : ∀ fault, (FileFormat.ofPath file).encode value = .error fault →
    save d value file overwrite = (.error (.parse file fault), d)
  /-- What exists is overwritten only if this is wanted, be it a link that leads nowhere. -/
  occupied : overwrite = false → ∀ entry, d.linkEntry file = .ok entry →
    ∃ e, save d value file overwrite = (.error e, d)
  /-- A success changes one file, which holds the text of the value then. -/
  saved : ∀ d', save d value file overwrite = (.ok (), d') → Saves d d' value file overwrite

/-- **A value is saved as a whole, or nothing has changed.** -/
theorem saves_whole (d : Disk) (value : α) (file : Path) (overwrite : Bool) :
    SavesWhole d value file overwrite where
  write_eq := by
    rw [save_eq]
    cases write d value file overwrite with
    | ok written => rfl
    | error e => rfl
  failed e d' h := (save_eq_error.mp h).1
  unwritable fault hencode := save_eq_error.mpr ⟨rfl, .inl ⟨fault, hencode, rfl⟩⟩
  occupied hnew entry hentry := by
    subst hnew
    rcases hsave : save d value file false with ⟨e | ⟨⟩, d'⟩
    · obtain ⟨rfl, -⟩ := save_eq_error.mp hsave
      exact ⟨e, rfl⟩
    · obtain ⟨-, location, -, hopen, -⟩ := save_eq_ok.mp hsave
      exact absurd hopen (Disk.not_openable_of_linkEntry hentry)
  saved _ h := saves_of_save h

/-- A file, and a link that leads to no file yet. -/
def linkedDisk : Disk where
  tree := ⟨[(["keep.toml"], .file [107]), (["new.toml"], .link "fresh.toml")]⟩

/-- Settings with a number that has no text in one of the formats do not touch the file that they
are to replace.  The link keeps other settings from being saved as a new file, and leads to their file
if they may replace one. -/
theorem saves_whole_linked :
    let big : Settings := { searchDepth := Nat.pow 2 63 }
    FileFormat.toml.encode big = .error (.unwritable .toml) ∧
      save linkedDisk big ⟨"keep.toml"⟩ true =
        (.error (.parse ⟨"keep.toml"⟩ (.unwritable .toml)), linkedDisk) ∧
      linkedDisk.linkEntry ⟨"new.toml"⟩ = .ok (.link "fresh.toml") ∧
      (∃ e, save linkedDisk ({} : Settings) ⟨"new.toml"⟩ false = (.error e, linkedDisk)) ∧
      ∃ d' bytes, save linkedDisk ({} : Settings) ⟨"new.toml"⟩ true = (.ok (), d') ∧
        linkedDisk.WritesOnly d' ⟨"new.toml"⟩ ["fresh.toml"] bytes := by
  intro big
  have hencode : FileFormat.toml.encode big = .error (.unwritable .toml) := by decide +kernel
  have hlink : linkedDisk.linkEntry ⟨"new.toml"⟩ = .ok (.link "fresh.toml") := by decide +kernel
  have hleads : linkedDisk.locate ⟨"new.toml"⟩ false = .ok ["fresh.toml"] := by decide +kernel
  have hsave : (save linkedDisk ({} : Settings) ⟨"new.toml"⟩ true).1 = .ok () := by decide +kernel
  refine ⟨hencode, (saves_whole _ big ⟨"keep.toml"⟩ true).unwritable _ hencode, hlink,
    (saves_whole _ _ _ _).occupied rfl _ hlink, ?_⟩
  rcases hresult : save linkedDisk ({} : Settings) ⟨"new.toml"⟩ true with ⟨result, d'⟩
  rw [hresult] at hsave
  obtain rfl : result = .ok () := hsave
  obtain ⟨location, text, -, hwrites, -⟩ := (saves_whole _ _ _ _).saved d' hresult
  obtain rfl : location = ["fresh.toml"] := Except.ok.inj (hwrites.leads.symm.trans hleads)
  exact ⟨d', _, rfl, hwrites⟩

end ConfigFile

end Monorepo
