import Monorepo.Proofs.Initialising

/-!
# What commands add

A command that makes files leaves what exists as it is, unless it is told to overwrite it.  It may
fail on the way, and then leaves behind what it has made so far:

* `Disk.OnlyAdds` — nothing is lost, and all that is new are files that are named and directories
  that may be made;
* `FileTree.Leads.beside` — a path leads on to another name in the directory of its last one, so
  where a file was written no directory is missing above another one beside it;
* `Init.makeIncludeDir_cases` — the directory of include files is made at once or not at all;
* `Init.onlyAdds_writeTemplate`, `Init.onlyAdds_makeIncludeDir` — what the steps of a command add;
* `Command.onlyAdds_runInit` — what a command adds, in order, as far as it comes.
-/

namespace Monorepo

/-- Whether a path starts at the root does not depend on the name that is joined to it. -/
theorem Path.isAbsolute_join_congr (dir : Path) {name other : String} (hname : '/' ∉ name.toList)
    (hother : '/' ∉ other.toList) :
    (dir.join ⟨name⟩).isAbsolute = (dir.join ⟨other⟩).isAbsolute := by
  by_cases hdir : dir.text = ""
  · have hjoin : ∀ {last : String}, '/' ∉ last.toList → dir.join ⟨last⟩ = ⟨last⟩ := by
      intro last hlast
      rw [join, isAbsolute_name hlast]
      simp [hdir]
    rw [hjoin hname, hjoin hother, isAbsolute_name hname, isAbsolute_name hother]
  · rw [isAbsolute_join hdir hname, isAbsolute_join hdir hother]

namespace FileTree

variable {t : FileTree} {here found : Location} {links : Nat}

/-- **Where another name in last place leads.**  It is looked up in the same directory, and is not
followed if it is a link. -/
theorem Leads.beside {stem : List String} {last name : String}
    (h : t.Leads false links here (stem ++ [last]) found) (hname : NamesEntry name) :
    ∃ location, t.Leads true links here (stem ++ [name]) location := by
  generalize hsegments : stem ++ [last] = all at h
  have hend : ∀ {links : Nat} {here : Location}, t.entry? here = some .directory →
      ∃ location, t.Leads true links here ([] ++ [name]) location :=
    fun hdirectory => ⟨_, .next hdirectory hname (.inl rfl)⟩
  induction h generalizing stem with
  | done links here => simp at hsegments
  | stay hdirectory hblank _ ih =>
    cases stem with
    | nil => exact hend hdirectory
    | cons first stem =>
      cases hsegments
      obtain ⟨location, hleads⟩ := ih rfl
      exact ⟨location, .stay hdirectory hblank hleads⟩
  | above hdirectory _ ih =>
    cases stem with
    | nil => exact hend hdirectory
    | cons first stem =>
      cases hsegments
      obtain ⟨location, hleads⟩ := ih rfl
      exact ⟨location, .above hdirectory hleads⟩
  | name hdirectory hsegment hplain _ ih =>
    cases stem with
    | nil => exact hend hdirectory
    | cons first stem =>
      cases hsegments
      obtain ⟨location, hleads⟩ := ih rfl
      exact ⟨location, .name hdirectory hsegment hplain hleads⟩
  | kept _ _ _ hkeep => cases hkeep
  | link hdirectory hsegment htarget _ _ ih =>
    cases stem with
    | nil => exact hend hdirectory
    | cons first stem =>
      cases hsegments
      obtain ⟨location, hleads⟩ := ih (List.append_assoc (Path.segments ⟨_⟩) stem [last])
      rw [List.append_assoc] at hleads
      exact ⟨location, .link hdirectory hsegment htarget (by simp) hleads⟩

end FileTree

namespace Disk

open FileTree

variable {d d' d'' : Disk} {p dir file : Path} {location : Location} {name : String}

/-! ### Disks that only gain entries -/

/-- The second disk is the first with more entries: a new file where each of `made` leads, and new
directories where paths among `dirs` lead. -/
structure OnlyAdds (d d' : Disk) (made : List (Path × Location)) (dirs : List Path) : Prop where
  workingDir : d'.workingDir = d.workingDir
  kept : ∀ location entry, d.tree.entry? location = some entry →
    d'.tree.entry? location = some entry
  files : ∀ file location, (file, location) ∈ made → d.tree.entry? location = none ∧
    ∃ bytes, d'.find file = .ok (location, .file bytes)
  added : ∀ location entry, d'.tree.entry? location = some entry → d.tree.entry? location = none →
    location ∈ made.map Prod.snd ∨
      entry = .directory ∧ ∃ dir ∈ dirs, d'.find dir = .ok (location, .directory)
  distinct : (made.map Prod.snd).Nodup

namespace OnlyAdds

variable {made made' : List (Path × Location)} {dirs dirs' : List Path}

theorem refl (d : Disk) : d.OnlyAdds d [] [] where
  workingDir := rfl
  kept _ _ h := h
  files _ _ h := nomatch h
  added location entry h hnone := by
    rw [hnone] at h
    cases h
  distinct := List.nodup_nil

theorem mono (h : d.OnlyAdds d' made dirs) (hdirs : dirs ⊆ dirs') : d.OnlyAdds d' made dirs' where
  workingDir := h.workingDir
  kept := h.kept
  files := h.files
  added location entry hentry hnone := by
    refine (h.added location entry hentry hnone).imp id fun hdir => ?_
    obtain ⟨hdirectory, dir, hmem, hfind⟩ := hdir
    exact ⟨hdirectory, dir, hdirs hmem, hfind⟩
  distinct := h.distinct

theorem entry?_of_made (h : d.OnlyAdds d' made dirs) (hmade : location ∈ made.map Prod.snd) :
    d.tree.entry? location = none ∧ ∃ bytes, d'.tree.entry? location = some (.file bytes) := by
  obtain ⟨⟨file, location⟩, hmem, rfl⟩ := List.mem_map.mp hmade
  obtain ⟨hnone, bytes, hfind⟩ := h.files file location hmem
  exact ⟨hnone, bytes, (find_eq_ok.mp hfind).2⟩

/-- There are no other links, so paths lead where they led. -/
theorem keepsWays (h : d.OnlyAdds d' made dirs) : d.tree.KeepsWays d'.tree := by
  refine ⟨fun location => h.kept location .directory, fun location target => ?_⟩
  refine ⟨fun hlink => ?_, h.kept location (.link target)⟩
  cases hentry : d.tree.entry? location with
  | some entry => rw [← h.kept location entry hentry, hlink]
  | none =>
    rcases h.added location _ hlink hentry with hmade | ⟨hdirectory, -⟩
    · obtain ⟨-, bytes, hfile⟩ := h.entry?_of_made hmade
      rw [hlink] at hfile
      cases hfile
    · cases hdirectory

theorem find (h : d.OnlyAdds d' made dirs) {entry : Entry}
    (hfind : d.find p = .ok (location, entry)) (hplain : ∀ target, entry ≠ .link target) :
    d'.find p = .ok (location, entry) := by
  obtain ⟨hlocate, hentry⟩ := find_eq_ok.mp hfind
  obtain ⟨hcheck, hleads⟩ := Disk.locate_eq_ok.mp hlocate
  have hnot : ∀ target, d.tree.entry? location ≠ some (.link target) := by
    intro target htarget
    exact hplain target (Option.some.inj (hentry.symm.trans htarget))
  refine find_eq_ok.mpr ⟨Disk.locate_eq_ok.mpr ⟨hcheck, ?_⟩, h.kept location entry hentry⟩
  rw [startOf, h.workingDir]
  exact hleads.of_keepsWays h.keepsWays hnot

/-- **What two steps add** is what each of them adds. -/
theorem trans (h : d.OnlyAdds d' made dirs) (h' : d'.OnlyAdds d'' made' dirs) :
    d.OnlyAdds d'' (made ++ made') dirs where
  workingDir := h'.workingDir.trans h.workingDir
  kept location entry hentry := h'.kept location entry (h.kept location entry hentry)
  files file location hmem := by
    rcases List.mem_append.mp hmem with hmade | hmade
    · obtain ⟨hnone, bytes, hfind⟩ := h.files file location hmade
      exact ⟨hnone, bytes, h'.find hfind nofun⟩
    · obtain ⟨hnone, bytes, hfind⟩ := h'.files file location hmade
      refine ⟨Option.eq_none_iff_forall_ne_some.mpr fun entry hentry => ?_, bytes, hfind⟩
      rw [h.kept location entry hentry] at hnone
      cases hnone
  added location entry hentry hnone := by
    rw [List.map_append, List.mem_append]
    cases hbetween : d'.tree.entry? location with
    | some between =>
      obtain rfl : between = entry :=
        Option.some.inj ((h'.kept location between hbetween).symm.trans hentry)
      rcases h.added location between hbetween hnone with hmade | ⟨rfl, dir, hdir, hfind⟩
      · exact .inl (.inl hmade)
      · exact .inr ⟨rfl, dir, hdir, h'.find hfind nofun⟩
    | none => exact (h'.added location entry hentry hbetween).imp .inr id
  distinct := by
    rw [List.map_append, List.nodup_append']
    refine ⟨h.distinct, h'.distinct, fun location hmade hmade' => ?_⟩
    obtain ⟨-, bytes, hfile⟩ := h.entry?_of_made hmade
    rw [(h'.entry?_of_made hmade').1] at hfile
    cases hfile

end OnlyAdds

/-! ### One entry more -/

/-- A path that leads to where there is nothing leads to what is put there. -/
theorem find_put {keepLast : Bool} {entry : Entry} (hlocate : d.locate p keepLast = .ok location)
    (hnone : d.tree.entry? location = none) (hways : d.tree.KeepsWays (d.tree.put location entry)) :
    Disk.find { d with tree := d.tree.put location entry } p = .ok (location, entry) := by
  obtain ⟨hcheck, hleads⟩ := Disk.locate_eq_ok.mp hlocate
  have hroot : location ≠ [] := by
    intro hempty
    rw [hempty] at hnone
    cases hnone
  have hnot : ∀ target, d.tree.entry? location ≠ some (.link target) := by
    rw [hnone]
    exact nofun
  refine find_eq_ok.mpr ⟨Disk.locate_eq_ok.mpr ⟨hcheck, hleads.of_keepsWays hways hnot⟩, ?_⟩
  show FileTree.entry? (d.tree.put location entry) location = _
  rw [lookup_put hroot, if_pos rfl]

/-- What an entry that is put where there is nothing changes. -/
theorem lookup_put_of_none (hnone : d.tree.entry? location = none) (entry : Entry)
    (other : Location) : FileTree.entry? (d.tree.put location entry) other =
      if other = location then some entry else d.tree.entry? other := by
  refine lookup_put ?_ entry other
  rintro rfl
  cases hnone

theorem kept_of_put (hnone : d.tree.entry? location = none) {entry found : Entry}
    {other : Location} (h : d.tree.entry? other = some found) :
    FileTree.entry? (d.tree.put location entry) other = some found := by
  rw [lookup_put_of_none hnone, if_neg, h]
  rintro rfl
  rw [h] at hnone
  cases hnone

/-- A new file is all that is added with it. -/
theorem onlyAdds_withFile {keepLast : Bool} (hlocate : d.locate file keepLast = .ok location)
    (hnone : d.tree.entry? location = none) (bytes : List UInt8) (dirs : List Path) :
    d.OnlyAdds (d.withFile location bytes) [(file, location)] dirs where
  workingDir := rfl
  kept _ _ h := kept_of_put hnone h
  files other found hmem := by
    cases List.mem_singleton.mp hmem
    exact ⟨hnone, bytes, find_put hlocate hnone (keepsWays_put (.of_none hnone) bytes)⟩
  added other entry hentry hnew := by
    have hput := lookup_put_of_none hnone (.file bytes) other
    by_cases hother : other = location
    · exact .inl (by simp [hother])
    · rw [if_neg hother, hnew] at hput
      cases hput.symm.trans hentry
  distinct := List.nodup_singleton _

/-- A new directory is all that is added with it. -/
theorem onlyAdds_withDirectory {keepLast : Bool} (hlocate : d.locate dir keepLast = .ok location)
    (hnone : d.tree.entry? location = none) :
    d.OnlyAdds (d.withDirectory location) [] [dir] where
  workingDir := rfl
  kept _ _ h := kept_of_put hnone h
  files _ _ hmem := nomatch hmem
  added other entry hentry hnew := by
    have hput := lookup_put_of_none hnone .directory other
    by_cases hother : other = location
    · rw [if_pos hother] at hput
      obtain rfl := Option.some.inj (hput.symm.trans hentry)
      rw [hother]
      exact .inr ⟨rfl, dir, List.mem_singleton_self dir,
        find_put hlocate hnone (keepsWays_put_directory hnone)⟩
    · rw [if_neg hother, hnew] at hput
      cases hput.symm.trans hentry
  distinct := List.nodup_nil

/-! ### Making a directory -/

theorem text_ne_empty_of_segments {stem : List String} (h : p.segments = stem ++ [name])
    (hname : ProperName name) : p.text ≠ "" := by
  intro hempty
  have hsegments : p.segments = [""] := by
    rw [Path.segments, hempty]
    rfl
  have hlast := congrArg List.getLast? (h.symm.trans hsegments)
  rw [List.getLast?_concat] at hlast
  exact hname.nonempty (Option.some.inj hlast)

/-- **A directory can be made where nothing is missing above it**, unless something is in its place
or its path is no path. -/
theorem makeDirectory_cases {stem : List String} (h : dir.segments = stem ++ [name])
    (hname : ProperName name)
    (hleads : d.tree.Leads true linkLimit (d.startOf dir) dir.segments location) :
    (d.makeDirectory dir = .ok (d.withDirectory location) ∧ d.locate dir true = .ok location ∧
        d.tree.entry? location = none) ∨
      ∃ fault, d.makeDirectory dir = .error fault ∧ fault ≠ .notFound := by
  cases hcheck : checkText dir with
  | ok =>
    have hlocate : d.locate dir true = .ok location := Disk.locate_eq_ok.mpr ⟨hcheck, hleads⟩
    rw [makeDirectory_of_locate h hname hlocate]
    cases hentry : d.tree.entry? location with
    | some entry => exact .inr ⟨_, rfl, by decide⟩
    | none => exact .inl ⟨rfl, hlocate, rfl⟩
  | error fault =>
    refine .inr ⟨fault, by rw [makeDirectory, hcheck]; rfl, ?_⟩
    rintro rfl
    rw [checkText, if_neg (text_ne_empty_of_segments h hname)] at hcheck
    split at hcheck
    · cases hcheck
    · split at hcheck <;> cases hcheck

/-- Then no directory above it is made either. -/
theorem makeDirectoryPath_eq (htext : dir.text ≠ "")
    (h : d.makeDirectory dir ≠ .error .notFound) :
    d.makeDirectoryPath dir = match d.makeDirectory dir with
      | .ok made => (.ok (), made)
      | .error fault => (d.settleDirectory dir fault, d) := by
  rw [makeDirectoryPath, makeDirectoryPathWithin.eq_def]
  simp only [if_neg htext]
  cases hmake : d.makeDirectory dir with
  | ok made => rfl
  | error fault =>
    cases fault with
    | notFound => exact absurd hmake h
    | _ => rfl

end Disk

/-! ### The steps of a command -/

namespace Init

open FileTree

variable {d d' : Disk} {file dir root : Path}

/-- **Writing a template without force** adds its file, or changes nothing. -/
theorem onlyAdds_writeTemplate {α : Type} [OnDisk α] (d : Disk) (value : α) (file : Path)
    (dirs : List Path) :
    (∃ d' location, writeTemplate d value file false = (.ok (), d') ∧
        d'.locate file false = .ok location ∧ d.OnlyAdds d' [(file, location)] dirs) ∨
      ∃ failure, writeTemplate d value file false = (.error failure, d) := by
  rcases hresult : writeTemplate d value file false with ⟨failure | ⟨⟩, d'⟩
  · rw [unchanged_of_writeTemplate hresult]
    exact .inr ⟨failure, rfl⟩
  · obtain ⟨hexists, hwrite⟩ := writeTemplate_eq_ok.mp hresult
    obtain ⟨location, text, hlocate, hfree, -, rfl⟩ := Disk.exists_of_write hwrite
    have hnone : d.tree.entry? location = none := by
      cases hentry : d.tree.entry? location with
      | none => rfl
      | some entry =>
        have hfind := Disk.find_eq_ok.mpr ⟨hlocate, hentry⟩
        have hthere : d.pathExists file = true := by rw [Disk.pathExists, Disk.entry, hfind]; rfl
        rw [hexists rfl] at hthere
        cases hthere
    have hwritten := Disk.filesWritten_withFile hlocate hfree (Utf8.encode text)
    exact .inl ⟨_, location, rfl, hwritten.locate_eq_ok.mpr hlocate,
      Disk.onlyAdds_withFile hlocate hnone _ dirs⟩

/-- **Making the directory of include files** puts one directory where there is nothing, finds it
there already, or fails and changes nothing, if the path of the directory leads as far as its last
name. -/
theorem makeIncludeDir_cases {stem : List String} {name : String} {location : Location}
    (h : dir.segments = stem ++ [name]) (hname : ProperName name)
    (hleads : d.tree.Leads true linkLimit (d.startOf dir) dir.segments location) :
    (makeIncludeDir d dir = (.ok (), d.withDirectory location) ∧
        d.locate dir true = .ok location ∧ d.tree.entry? location = none) ∨
      (makeIncludeDir d dir = (.ok (), d) ∧ d.isDirectory dir = true) ∨
      ∃ failure, makeIncludeDir d dir = (.error failure, d) := by
  have htext := Disk.text_ne_empty_of_segments h hname
  rcases Disk.makeDirectory_cases h hname hleads with
    ⟨hmake, hlocate, hnone⟩ | ⟨fault, hmake, hfault⟩
  · have hnot : d.makeDirectory dir ≠ .error .notFound := by
      rw [hmake]
      intro heq
      cases heq
    have hpath := Disk.makeDirectoryPath_eq htext hnot
    rw [hmake] at hpath
    refine .inl ⟨?_, hlocate, hnone⟩
    rw [makeIncludeDir, hpath]
  · have hnot : d.makeDirectory dir ≠ .error .notFound := by
      rw [hmake]
      exact fun heq => hfault (Except.error.inj heq)
    have hpath : d.makeDirectoryPath dir = (d.settleDirectory dir fault, d) := by
      rw [Disk.makeDirectoryPath_eq htext hnot, hmake]
    rw [makeIncludeDir, hpath, Disk.settleDirectory]
    by_cases hdirectory : d.isDirectory dir = true
    · rw [if_pos hdirectory]
      exact .inr (.inl ⟨rfl, hdirectory⟩)
    · rw [if_neg hdirectory]
      exact .inr (.inr ⟨_, rfl⟩)

theorem onlyAdds_makeIncludeDir {stem : List String} {name : String}
    {location : Location} (h : dir.segments = stem ++ [name]) (hname : ProperName name)
    (hleads : d.tree.Leads true linkLimit (d.startOf dir) dir.segments location) :
    d.OnlyAdds (makeIncludeDir d dir).2 [] [dir] := by
  rcases makeIncludeDir_cases h hname hleads with
    ⟨hmake, hlocate, hnone⟩ | ⟨hmake, -⟩ | ⟨failure, hmake⟩
  · rw [hmake]
    exact Disk.onlyAdds_withDirectory hlocate hnone
  · rw [hmake]
    exact (Disk.OnlyAdds.refl d).mono (List.nil_subset _)
  · rw [hmake]
    exact (Disk.OnlyAdds.refl d).mono (List.nil_subset _)

/-- Where a file can be found, the path of another name beside it leads as far as that name. -/
theorem exists_leads_beside {last name : String} {location : Location}
    (hlast : '/' ∉ last.toList) (hname : ProperName name)
    (hlocate : d.locate (root.join ⟨last⟩) false = .ok location) :
    ∃ stem found, (root.join ⟨name⟩).segments = stem ++ [name] ∧
      d.tree.Leads true linkLimit (d.startOf (root.join ⟨name⟩)) (root.join ⟨name⟩).segments
        found := by
  obtain ⟨stem, hjoin, -⟩ := Path.exists_stem root
  have hleads := (Disk.locate_eq_ok.mp hlocate).2
  have hstart : d.startOf (root.join ⟨name⟩) = d.startOf (root.join ⟨last⟩) := by
    rw [Disk.startOf, Disk.startOf, Path.isAbsolute_join_congr root hname.no_slash hlast]
  rw [hjoin last hlast] at hleads
  obtain ⟨found, hbeside⟩ := hleads.beside hname.toNamesEntry
  rw [hstart, hjoin name hname.no_slash]
  exact ⟨stem, found, rfl, hbeside⟩

/-- **Making a repository without force** adds its files in order, as far as it comes, and the
directory of include files. -/
theorem onlyAdds_repository (d : Disk) (root : Path) :
    ∃ made, d.OnlyAdds (repository d root false).2 made [root.join Template.includeDir] ∧
      made.map Prod.fst <+: [root.join settingsFileName, includeFileOf root] ∧
      ∀ files, (repository d root false).1 = .ok files →
        files = [root.join settingsFileName, includeFileOf root] ∧ made.map Prod.fst = files := by
  have hincludes : FileTree.ProperName "includes" := by decide
  rw [repository]
  rcases onlyAdds_writeTemplate d Template.settings (root.join settingsFileName)
    [root.join Template.includeDir] with
    ⟨d₁, location₁, hwrite₁, hlocate₁, hadds₁⟩ | ⟨failure, hwrite₁⟩
  swap
  · simp only [hwrite₁]
    refine ⟨[], (Disk.OnlyAdds.refl d).mono (List.nil_subset _), List.nil_prefix,
      fun files hfiles => ?_⟩
    cases hfiles
  obtain ⟨stem, found, hsegments, hleads⟩ :=
    exists_leads_beside (by decide) hincludes hlocate₁
  have hadds₂ := hadds₁.trans (onlyAdds_makeIncludeDir hsegments hincludes hleads)
  rcases hmake : makeIncludeDir d₁ (root.join Template.includeDir) with ⟨failure | ⟨⟩, d₂⟩
  · simp only [hwrite₁, hmake]
    rw [hmake] at hadds₂
    refine ⟨_, hadds₂, ⟨[includeFileOf root], rfl⟩, fun files hfiles => ?_⟩
    cases hfiles
  rw [hmake] at hadds₂
  rcases onlyAdds_writeTemplate d₂ Template.includeFile (includeFileOf root)
    [root.join Template.includeDir] with
    ⟨d₃, location₃, hwrite₃, -, hadds₃⟩ | ⟨failure, hwrite₃⟩
  · rw [includeFileOf] at hwrite₃
    simp only [hwrite₁, hmake, hwrite₃]
    refine ⟨_, hadds₂.trans hadds₃, List.prefix_rfl, fun files hfiles => ?_⟩
    cases hfiles
    exact ⟨rfl, rfl⟩
  · rw [includeFileOf] at hwrite₃
    simp only [hwrite₁, hmake, hwrite₃]
    refine ⟨_, hadds₂, ⟨[includeFileOf root], rfl⟩, fun files hfiles => ?_⟩
    cases hfiles

/-- Making one file without force adds it, or changes nothing. -/
theorem onlyAdds_oneFile {α : Type} [OnDisk α] (d : Disk) (value : α) (file : Path) :
    ∃ made, d.OnlyAdds (oneFile d value file false).2 made [] ∧ made.map Prod.fst <+: [file] ∧
      ∀ files, (oneFile d value file false).1 = .ok files →
        files = [file] ∧ made.map Prod.fst = files := by
  rw [oneFile]
  rcases onlyAdds_writeTemplate d value file [] with
    ⟨d₁, location, hwrite, -, hadds⟩ | ⟨failure, hwrite⟩
  · simp only [hwrite]
    refine ⟨_, hadds, List.prefix_rfl, fun files hfiles => ?_⟩
    cases hfiles
    exact ⟨rfl, rfl⟩
  · simp only [hwrite]
    refine ⟨[], .refl d, List.nil_prefix, fun files hfiles => ?_⟩
    cases hfiles

end Init

/-! ### What a command adds -/

namespace Command

/-- Whether a command may overwrite files. -/
def forces : Command → Bool
  | .initRepository _ force => force
  | .initApp _ _ _ force => force
  | .initInclude _ force => force
  | _ => false

/-- The files that a command makes when it is run from a directory, in order. -/
def targets (cwd : Path) : Command → List Path
  | .initRepository dir? _ =>
    let root := Init.targetDir cwd dir?
    [root.join settingsFileName, Init.includeFileOf root]
  | .initApp _ dir? format _ => [(Init.targetDir cwd dir?).join (Init.appFileName format)]
  | .initInclude file _ => [cwd.join file]
  | _ => []

/-- The directories that it makes for them. -/
def directories (cwd : Path) : Command → List Path
  | .initRepository dir? _ => [(Init.targetDir cwd dir?).join Template.includeDir]
  | _ => []

/-- **A command that is not forced only adds files.**  Whether it succeeds or fails, all that was
there is still there, and all that is new are the first of its files, and directories that it makes
for them.  If it succeeds these are all of its files, and it gives them. -/
theorem onlyAdds_runInit {command : Command} (hforce : command.forces = false) (d : Disk)
    (cwd : Path) :
    ∃ made, d.OnlyAdds (command.runInit d cwd).2 made (command.directories cwd) ∧
      made.map Prod.fst <+: command.targets cwd ∧
      ∀ files, (command.runInit d cwd).1 = .ok files →
        files = command.targets cwd ∧ made.map Prod.fst = files := by
  cases command with
  | initRepository dir? force =>
    cases hforce
    exact Init.onlyAdds_repository d (Init.targetDir cwd dir?)
  | initApp name dir? format force =>
    cases hforce
    exact Init.onlyAdds_oneFile d (Template.app name) _
  | initInclude file force =>
    cases hforce
    exact Init.onlyAdds_oneFile d Template.includeFile _
  | check format =>
    refine ⟨[], .refl d, List.prefix_rfl, fun files hfiles => ?_⟩
    cases hfiles
    exact ⟨rfl, rfl⟩
  | showApp name format =>
    refine ⟨[], .refl d, List.prefix_rfl, fun files hfiles => ?_⟩
    cases hfiles
    exact ⟨rfl, rfl⟩

/-- A directory whose includes are to be in another one, with a file there. -/
def sharedDisk : Disk where
  tree := ⟨[
    (["shared"], .directory),
    (["shared", "own.toml"], .file []),
    (["shop"], .directory),
    (["shop", "includes"], .link "../shared")]⟩

/-- A repository is made around the link: its files are new, and the other one is untouched. -/
theorem onlyAdds_runInit_shared :
    let command : Command := .initRepository (some ⟨"shop"⟩) false
    let d' := (command.runInit sharedDisk ⟨"/"⟩).2
    command.forces = false ∧
      (command.runInit sharedDisk ⟨"/"⟩).1 =
        .ok [⟨"/shop/.monobuild.yaml"⟩, ⟨"/shop/includes/example.toml"⟩] ∧
      d'.tree.entry? ["shared", "own.toml"] = some (.file []) ∧
      d'.tree.entry? ["shop", "includes"] = some (.link "../shared") ∧
      ∃ location bytes, sharedDisk.tree.entry? location = none ∧
        d'.find ⟨"/shop/includes/example.toml"⟩ = .ok (location, .file bytes) := by
  intro command d'
  have hforce : command.forces = false := rfl
  have hfiles : (command.runInit sharedDisk ⟨"/"⟩).1 =
      .ok [⟨"/shop/.monobuild.yaml"⟩, ⟨"/shop/includes/example.toml"⟩] := by decide +kernel
  obtain ⟨made, hadds, -, hall⟩ := onlyAdds_runInit hforce sharedDisk ⟨"/"⟩
  obtain ⟨-, hmade⟩ := hall _ hfiles
  have hlisted : ⟨"/shop/includes/example.toml"⟩ ∈ made.map Prod.fst := by
    rw [hmade]
    decide
  obtain ⟨⟨file, location⟩, hmem, rfl⟩ := List.mem_map.mp hlisted
  obtain ⟨hnone, bytes, hfind⟩ := hadds.files _ location hmem
  exact ⟨hforce, hfiles, hadds.kept _ _ (by decide), hadds.kept _ _ (by decide), location, bytes,
    hnone, hfind⟩

end Command

end Monorepo
