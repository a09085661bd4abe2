import Monorepo.Proofs.WalkOrder

/-!
# What a walk meets

A walk that refuses links goes into every directory below the one it starts in.  What becomes of it
can be told from the entries below that directory, without the walk:

* `Disk.Visitable` — an entry that is no link and no closed directory, under a path that is not too
  long to be looked at;
* `Walk.cases_of_along` — a walk passes over all that can be visited, and ends at the first entry that
  can not;
* `Disk.ending_walk`, `Disk.paths_walk` — a walk completes exactly where all can be visited, and then
  it has met each file once.

Since no link is followed, a walk is never endless: it only goes down, and the tree is not deeper
than it has entries.
-/

namespace Monorepo

/-- The entry at a path can be visited: its path is not too long, it is no link, and if it is a
directory, it can be listed. -/
structure Disk.Visitable (e : Path × Entry) : Prop where
  short : e.1.text.utf8ByteSize < FileTree.pathLimit
  noLink : ∀ target, e.2 ≠ .link target
  opens : e.2 ≠ .closedDirectory

/-- A file can be visited whether it can be read or not. -/
theorem Disk.visitable_of_isFile {p : Path} {entry : Entry}
    (hshort : p.text.utf8ByteSize < FileTree.pathLimit) (h : entry.isFile = true) :
    Disk.Visitable (p, entry) := by
  refine ⟨hshort, ?_, ?_⟩
  · rintro target rfl
    cases h
  · rintro rfl
    cases h

namespace Walk

/-- The paths of the files among entries. -/
def filePaths (entries : List (Path × Entry)) : List Path :=
  (entries.filter fun e => e.2.isFile).map Prod.fst

theorem along_cons_of_visitable {e : Path × Entry} (h : Disk.Visitable e)
    (rest : List (Path × Entry)) :
    along (e :: rest) = ⟨filePaths [e] ++ (along rest).paths, (along rest).ending⟩ := by
  obtain ⟨p, entry⟩ := e
  obtain ⟨hshort, hlink, hopens⟩ := h
  rw [along, passing, if_neg (Nat.not_le_of_lt hshort)]
  cases entry with
  | file | directory | closedFile => exact if_pos rfl
  | link target => exact absurd rfl (hlink target)
  | closedDirectory => exact absurd rfl hopens

/-- A walk that can not pass over an entry fails there. -/
theorem exists_of_not_visitable {e : Path × Entry} (h : ¬ Disk.Visitable e) :
    ∃ error, (∀ rest, along (e :: rest) = failing error) ∧
      ((∃ fault, error = .io e.1 fault) ∨ ∃ target, e.2 = .link target ∧ error = .symlink e.1) := by
  obtain ⟨p, entry⟩ := e
  by_cases hlong : FileTree.pathLimit ≤ p.text.utf8ByteSize
  · refine ⟨.io p .nameTooLong, fun rest => ?_, .inl ⟨_, rfl⟩⟩
    rw [along, passing, if_pos hlong, failing_andThen]
  · have hshort := Nat.lt_of_not_le hlong
    cases entry with
    | file | closedFile => exact absurd (Disk.visitable_of_isFile hshort rfl) h
    | directory => exact absurd ⟨hshort, by simp, by simp⟩ h
    | link target =>
      refine ⟨.symlink p, fun rest => ?_, .inr ⟨target, rfl, rfl⟩⟩
      rw [along, passing, if_neg hlong, failing_andThen]
    | closedDirectory =>
      refine ⟨.io p .accessDenied, fun rest => ?_, .inl ⟨_, rfl⟩⟩
      rw [along, passing, if_neg hlong, failing_andThen]

/-- **What becomes of a walk along entries.**  It passes over all of them, or up to the first that can
not be visited. -/
theorem cases_of_along (entries : List (Path × Entry)) :
    (∀ e ∈ entries, Disk.Visitable e) ∧ along entries = ⟨filePaths entries, .complete⟩ ∨
      ∃ before e rest error, entries = before ++ e :: rest ∧ ¬ Disk.Visitable e ∧
        along entries = ⟨filePaths before, .failed error⟩ ∧
        ((∃ fault, error = .io e.1 fault) ∨
          ∃ target, e.2 = .link target ∧ error = .symlink e.1) := by
  induction entries with
  | nil => exact .inl ⟨nofun, rfl⟩
  | cons e rest ih =>
    by_cases hvisitable : Disk.Visitable e
    · have hpaths : ∀ others, filePaths [e] ++ filePaths others = filePaths (e :: others) := by
        intro others
        rw [filePaths, filePaths, filePaths, ← List.map_append, ← List.filter_append]
        rfl
      rw [along_cons_of_visitable hvisitable]
      rcases ih with ⟨hall, halong⟩ | ⟨before, e', after, error, rfl, hnot, halong, hcause⟩
      · refine .inl ⟨List.forall_mem_cons.mpr ⟨hvisitable, hall⟩, ?_⟩
        rw [halong, hpaths]
      · refine .inr ⟨e :: before, e', after, error, rfl, hnot, ?_, hcause⟩
        rw [halong, hpaths]
    · obtain ⟨error, halong, hcause⟩ := exists_of_not_visitable hvisitable
      exact .inr ⟨[], e, rest, error, rfl, hvisitable, halong rest, hcause⟩

end Walk

namespace Disk

open FileTree

variable {d : Disk} {dir base : Path} {start : Location} {e : Path × Entry}

/-! ### What can be listed -/

/-- By names, a path leads to what stands there, unless it is a link or the path is too long. -/
theorem find_descend (ht : d.tree.WellFormed) (h : d.find base = .ok (start, .directory))
    {names : List String} {entry : Entry} (hentry : d.tree.entry? (start ++ names) = some entry)
    (hlink : ∀ target, entry ≠ .link target)
    (hshort : (base.descend names).text.utf8ByteSize < pathLimit) :
    d.find (base.descend names) = .ok (start ++ names, entry) := by
  induction names generalizing base start with
  | nil =>
    rw [List.append_nil, (find_eq_ok.mp h).2] at hentry
    cases hentry
    rw [List.append_nil]
    exact h
  | cons name rest ih =>
    have hbase := text_ne_empty_of_find h
    have hproper := ht.properNames_of_entry hentry
    rw [List.forall_mem_cons] at hproper
    have hnext : (base.join ⟨name⟩).text.utf8ByteSize < pathLimit := by
      have hle := Path.utf8ByteSize_le_descend (Path.text_join_ne_empty hbase ⟨name⟩)
        fun other hother => (hproper.2 other hother).no_slash
      exact Nat.lt_of_le_of_lt hle hshort
    have hsplit : start ++ name :: rest = start ++ [name] ++ rest := by simp
    rw [hsplit] at hentry ⊢
    by_cases hrest : rest = []
    · subst hrest
      rw [List.append_nil] at hentry ⊢
      exact find_join h hproper.1 hnext hentry hlink
    · have hdirectory := ht.above_of_entry hrest hentry
      exact ih (find_join h hproper.1 hnext hdirectory nofun) hentry hshort

/-- A directory below another can be listed unless it is closed or its path is too long. -/
theorem exists_list_iff_of_below (ht : d.tree.WellFormed) (he : e ∈ d.below dir)
    (hshort : e.1.text.utf8ByteSize < pathLimit) (hdirectory : e.2.isDirectory = true) :
    (∃ entries, d.list e.1 = .ok entries) ↔ e.2 ≠ .closedDirectory := by
  obtain ⟨p, entry⟩ := e
  rw [below] at he
  split at he
  · rename_i top topEntry hfind
    obtain ⟨⟨names, placed⟩, hplaced, heq⟩ := List.mem_map.mp he
    cases heq
    obtain ⟨hnames, hentry⟩ := ht.mem_below.mp hplaced
    have htop : topEntry = .directory := by
      have habove := ht.above_of_entry hnames hentry
      rw [(find_eq_ok.mp hfind).2] at habove
      exact Option.some.inj habove
    subst htop
    have hfound := find_descend ht hfind hentry (by rintro target rfl; cases hdirectory) hshort
    constructor
    · rintro ⟨entries, hlist⟩ rfl
      rw [list_of_closed hfound] at hlist
      cases hlist
    · intro hopen
      cases placed with
      | directory => exact ⟨_, list_eq_ok.mpr ⟨_, hfound, rfl⟩⟩
      | closedDirectory => exact absurd rfl hopen
      | file | link | closedFile => cases hdirectory
  · cases he

/-! ### The walk, told by the tree -/

/-- **When a walk completes.**  The directory can be listed, and all entries below it can be
visited. -/
theorem ending_walk (ht : d.tree.WellFormed) (dir : Path) :
    (d.walk .refuse dir).ending = .complete ↔
      (∃ entries, d.list dir = .ok entries) ∧ ∀ e ∈ d.below dir, Visitable e := by
  rcases cases_of_walk ht dir with ⟨fault, hlist, hwalk⟩ | ⟨entries, paths, hlist, hperm, hwalk⟩
  · rw [hlist, hwalk]
    exact ⟨nofun, fun h => nomatch h.1.choose_spec⟩
  · have hbelow : (∀ e ∈ d.below dir, Visitable e) ↔ ∀ e ∈ entries, Visitable e :=
      forall_congr' fun e => by rw [hperm.mem_iff]
    rw [hlist, hwalk, hbelow]
    rcases Walk.cases_of_along entries with ⟨hall, halong⟩ | ⟨before, e, rest, error, rfl, hnot, halong, -⟩
    · rw [halong]
      exact ⟨fun _ => ⟨⟨paths, rfl⟩, hall⟩, fun _ => rfl⟩
    · rw [halong]
      exact ⟨nofun, fun h => absurd (h.2 e (by simp)) hnot⟩

/-- **What a complete walk has met.**  Every file below the directory, each once. -/
theorem paths_walk (ht : d.tree.WellFormed) {dir : Path}
    (h : (d.walk .refuse dir).ending = .complete) :
    (d.walk .refuse dir).paths.Perm (d.filesBelow dir) := by
  rcases cases_of_walk ht dir with ⟨fault, hlist, hwalk⟩ | ⟨entries, paths, hlist, hperm, hwalk⟩
  · rw [hwalk] at h
    cases h
  · rw [hwalk] at h ⊢
    rcases Walk.cases_of_along entries with ⟨hall, halong⟩ | ⟨before, e, rest, error, -, -, halong, -⟩
    · rw [halong]
      exact (hperm.filter _).map _
    · rw [halong] at h
      cases h

end Disk

end Monorepo
