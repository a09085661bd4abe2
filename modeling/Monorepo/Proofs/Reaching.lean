import Monorepo.Proofs.AppFiles

/-!
# Directories below a directory

A search goes down by what it lists.  It comes to every directory that a path of names leads to from
where it starts, since the system follows such a path only over directories that it finds open and
that have an entry of the next name:

* `FileTree.Leads.split` — where segments lead, those behind lead on;
* `Disk.exists_find_of_join` — a joined path leads to something only if the directory has an entry
  of the name;
* `Disk.reaches_iff_descend` — the directories that are reached are those that names lead to;
* `Repository.isAppFile_iff_descend` — the app files, told by the names that lead to them.

A path that the system refuses leads nowhere, however it is come by.
-/

namespace Monorepo

namespace FileTree

variable {t : FileTree} {links : Nat} {here found : Location}

/-- **Where segments lead, those behind them lead on.**  The links that are left there are those
that the first segments have not used up. -/
theorem Leads.split {segments more : List String} (hmore : more ≠ [])
    (h : t.Leads false links here (segments ++ more) found) :
    ∃ left mid, t.Leads false links here segments mid ∧ t.Leads false left mid more found := by
  generalize hall : segments ++ more = all at h
  induction h generalizing segments with
  | done links here => exact absurd (List.append_eq_nil_iff.mp hall).2 hmore
  | @stay links here found segment rest hdirectory hblank hrest ih =>
    cases segments with
    | nil =>
      obtain rfl : more = segment :: rest := hall
      exact ⟨links, here, .done links here, .stay hdirectory hblank hrest⟩
    | cons first others =>
      obtain ⟨rfl, hothers⟩ := List.cons.inj hall
      obtain ⟨left, mid, hbefore, hbehind⟩ := ih hothers
      exact ⟨left, mid, .stay hdirectory hblank hbefore, hbehind⟩
  | @above links here found rest hdirectory hrest ih =>
    cases segments with
    | nil =>
      obtain rfl : more = ".." :: rest := hall
      exact ⟨links, here, .done links here, .above hdirectory hrest⟩
    | cons first others =>
      obtain ⟨rfl, hothers⟩ := List.cons.inj hall
      obtain ⟨left, mid, hbefore, hbehind⟩ := ih hothers
      exact ⟨left, mid, .above hdirectory hbefore, hbehind⟩
  | @name links here found segment rest hdirectory hname hplain hrest ih =>
    cases segments with
    | nil =>
      obtain rfl : more = segment :: rest := hall
      exact ⟨links, here, .done links here, .name hdirectory hname hplain hrest⟩
    | cons first others =>
      obtain ⟨rfl, hothers⟩ := List.cons.inj hall
      obtain ⟨left, mid, hbefore, hbehind⟩ := ih hothers
      exact ⟨left, mid, .name hdirectory hname hplain hbefore, hbehind⟩
  | kept _ _ _ hkeep => cases hkeep
  | @link links here found segment target rest hdirectory hname htarget hlast hrest ih =>
    cases segments with
    | nil =>
      obtain rfl : more = segment :: rest := hall
      exact ⟨links + 1, here, .done _ here, .link hdirectory hname htarget hlast hrest⟩
    | cons first others =>
      obtain ⟨rfl, rfl⟩ := List.cons.inj hall
      -- the target takes the place of the link, in front of what is behind it
      obtain ⟨left, mid, hbefore, hbehind⟩ := ih (List.append_assoc ..)
      exact ⟨left, mid, .link hdirectory hname htarget nofun hbefore, hbehind⟩

/-- A name leads to something only in a directory that has an entry of the name, which may be a
link. -/
theorem Leads.exists_entry {name : String} (hname : NamesEntry name)
    (h : t.Leads false links here [name] found) {entry : Entry}
    (hfound : t.entry? found = some entry) :
    t.entry? here = some .directory ∧ ∃ entry, t.entry? (here ++ [name]) = some entry := by
  cases h with
  | stay _ hblank _ => exact absurd hblank (not_or.mpr ⟨hname.nonempty, hname.not_here⟩)
  | above _ _ => exact absurd rfl hname.not_above
  | name hdirectory _ _ hrest =>
    cases hrest
    exact ⟨hdirectory, entry, hfound⟩
  | kept _ _ _ hkeep => cases hkeep
  | link hdirectory _ htarget _ _ => exact ⟨hdirectory, _, htarget⟩

end FileTree

namespace Disk

open FileTree

variable {d : Disk} {dir inner p : Path} {name : String} {names : List String} {depth : Nat}

/-- **What a joined path needs.**  It leads to something only if the directory is there and has an
entry of the name. -/
theorem exists_find_of_join (hdir : dir.text ≠ "") (hname : ProperName name)
    {found : Location × Entry} (h : d.find (dir.join ⟨name⟩) = .ok found) :
    ∃ top entry, d.find dir = .ok (top, .directory) ∧
      d.tree.entry? (top ++ [name]) = some entry := by
  obtain ⟨location, foundEntry⟩ := found
  obtain ⟨hlocate, hentry⟩ := find_eq_ok.mp h
  obtain ⟨hcheck, hleads⟩ := locate_eq_ok.mp hlocate
  obtain ⟨stem, hjoin, hstem⟩ := Path.segments_join hdir hname.no_slash
  rw [startOf, Path.isAbsolute_join hdir hname.no_slash, hjoin] at hleads
  obtain ⟨left, top, hbefore, hbehind⟩ := hleads.split (List.cons_ne_nil _ _)
  obtain ⟨hdirectory, inside, hinside⟩ := hbehind.exists_entry hname.toNamesEntry hentry
  have hdirLeads : d.tree.Leads false linkLimit (d.startOf dir) dir.segments top := by
    rcases hstem with hstem | hstem
    · rwa [hstem]
    · have hblank : Path.Thins (stem ++ [""]) (stem ++ []) :=
        Path.Thins.append_left stem (.drop (.inl rfl) .nil)
      rw [List.append_nil] at hblank
      rw [hstem]
      exact hbefore.thicken hdirectory hblank
  have hdirCheck : checkText dir = .ok () := by
    obtain ⟨hzero, -, hshort⟩ := checkText_eq_ok.mp hcheck
    have hle := Path.le_utf8ByteSize_join hdir hname.no_slash
    refine checkText_eq_ok.mpr ⟨fun hmem => hzero ?_, hdir, by omega⟩
    rw [Path.join_name hdir hname.no_slash]
    split <;> simp [hmem]
  exact ⟨top, inside, find_eq_ok.mpr ⟨locate_eq_ok.mpr ⟨hdirCheck, hdirLeads⟩, hdirectory⟩, hinside⟩

/-- The directory that a joined path is below lists it. -/
theorem exists_list_of_join (ht : d.tree.WellFormed) (hdir : dir.text ≠ "")
    (hname : ProperName name) {found : Location × Entry}
    (h : d.find (dir.join ⟨name⟩) = .ok found) :
    ∃ entries, d.list dir = .ok entries ∧ dir.join ⟨name⟩ ∈ entries := by
  obtain ⟨top, entry, hfind, hentry⟩ := exists_find_of_join hdir hname h
  exact ⟨_, list_eq_ok.mpr ⟨top, hfind, rfl⟩,
    List.mem_map_of_mem (ht.mem_namesIn.mpr ⟨entry, hentry⟩)⟩

/-- Names lead to something only from a directory. -/
theorem isDirectory_of_descend (hdir : dir.text ≠ "") (hnames : ∀ name ∈ names, ProperName name)
    (h : d.isDirectory (dir.descend names) = true) : d.isDirectory dir = true := by
  induction names generalizing dir with
  | nil => exact h
  | cons name rest ih =>
    rw [List.forall_mem_cons] at hnames
    obtain ⟨location, entry, hfind, -⟩ :=
      isDirectory_eq_true.mp (ih (Path.text_join_ne_empty hdir ⟨name⟩) hnames.2 h)
    obtain ⟨top, -, hdirFind, -⟩ := exists_find_of_join hdir hnames.1 hfind
    exact isDirectory_eq_true.mpr ⟨top, .directory, hdirFind, rfl⟩

theorem reaches_descend (ht : d.tree.WellFormed) (hdir : dir.text ≠ "")
    (hnames : ∀ name ∈ names, ProperName name) (h : d.isDirectory (dir.descend names) = true) :
    d.Reaches names.length dir (dir.descend names) := by
  induction names generalizing dir with
  | nil => exact .here 0 dir
  | cons name rest ih =>
    rw [List.forall_mem_cons] at hnames
    have hjoin := Path.text_join_ne_empty hdir ⟨name⟩
    have hsub := isDirectory_of_descend hjoin hnames.2 h
    obtain ⟨location, entry, hfind, -⟩ := isDirectory_eq_true.mp hsub
    obtain ⟨entries, hlist, hmem⟩ := exists_list_of_join ht hdir hnames.1 hfind
    exact .down hlist hmem hsub (ih hjoin hnames.2 h)

theorem exists_descend_of_reaches (ht : d.tree.WellFormed) (h : d.Reaches depth dir inner) :
    ∃ names, names.length ≤ depth ∧ (∀ name ∈ names, ProperName name) ∧
      inner = dir.descend names := by
  induction h with
  | here depth dir => exact ⟨[], Nat.zero_le depth, nofun, rfl⟩
  | @down depth dir sub inner entries hlist hsub _ _ ih =>
    obtain ⟨names, hlength, hnames, rfl⟩ := ih
    obtain ⟨location, -, rfl⟩ := list_eq_ok.mp hlist
    obtain ⟨name, hname, rfl⟩ := List.mem_map.mp hsub
    obtain ⟨entry, hentry⟩ := ht.mem_namesIn.mp hname
    have hproper := ht.properNames_of_entry hentry name List.mem_cons_self
    exact ⟨name :: names, Nat.succ_le_succ hlength, List.forall_mem_cons.mpr ⟨hproper, hnames⟩, rfl⟩

/-- **What is reached by going down is what names lead to.** -/
theorem reaches_iff_descend (ht : d.tree.WellFormed) (hdir : dir.text ≠ "")
    (h : d.isDirectory inner = true) : d.Reaches depth dir inner ↔
      ∃ names, names.length ≤ depth ∧ (∀ name ∈ names, ProperName name) ∧
        inner = dir.descend names := by
  constructor
  · exact exists_descend_of_reaches ht
  · rintro ⟨names, hlength, hnames, rfl⟩
    exact (reaches_descend ht hdir hnames h).mono hlength

theorem text_ne_empty_of_absolute {a : Path} (h : d.absolute p = .ok a) : a.text ≠ "" := by
  obtain ⟨base, rfl, hbase⟩ := exists_of_absolute h
  have htext : base.text ≠ "" := by
    split at hbase
    · rcases hbase with rfl | rfl <;> decide
    · rw [hbase]
      simp [workingPath, pathOf]
  have hdescend := Path.text_descend_ne_empty htext p.names
  split
  · exact Path.text_join_ne_empty hdescend _
  · exact hdescend

end Disk

namespace Repository

open Disk FileTree

/-- **The app files, told by the names that lead to them.**  They are the files under one of the
names, at most as many directories down as the depth says.  That there is a way to such a file need
not be asked. -/
theorem isAppFile_iff_descend {d : Disk} {root p : Path} {s : Settings} (ht : d.tree.WellFormed)
    (hproper : ∀ name ∈ s.appFileNames, ProperName name) :
    IsAppFile d root s p ↔
      ∃ dir ∈ s.discoverDirsBelow root, ∃ name ∈ s.appFileNames, ∃ start names,
        d.absolute dir = .ok start ∧ names.length ≤ s.searchDepth ∧
          (∀ above ∈ names, ProperName above) ∧ p = (start.descend names).join ⟨name⟩ ∧
            d.isFile p = true := by
  constructor
  · rintro ⟨dir, hdir, name, hname, start, inner, hstart, hreaches, hjoin, hfile⟩
    obtain ⟨names, hlength, hnames, rfl⟩ := exists_descend_of_reaches ht hreaches
    exact ⟨dir, hdir, name, hname, start, names, hstart, hlength, hnames, hjoin, hfile⟩
  · rintro ⟨dir, hdir, name, hname, start, names, hstart, hlength, hnames, rfl, hfile⟩
    have htext := text_ne_empty_of_absolute hstart
    obtain ⟨location, entry, hfind, -⟩ := isFile_eq_true.mp hfile
    obtain ⟨top, -, habove, -⟩ :=
      exists_find_of_join (Path.text_descend_ne_empty htext names) (hproper name hname) hfind
    have hdirectory := isDirectory_eq_true.mpr ⟨top, .directory, habove, rfl⟩
    exact ⟨dir, hdir, name, hname, start, _, hstart,
      (reaches_descend ht htext hnames hdirectory).mono hlength, rfl, hfile⟩

end Repository

end Monorepo
