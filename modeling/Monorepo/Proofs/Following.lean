import Monorepo.Disk
import Monorepo.Proofs.Check

/-!
# Where paths lead

A path is followed segment by segment, over links to the segments of their targets.  The relation
`FileTree.Leads` has one case for each thing that a step can do, so that what holds of every path is
shown step by step:

* `FileTree.follow_eq_ok` — following a path succeeds exactly where the path leads;
* `Disk.locate_eq_ok`, `Disk.find_eq_ok`, `Disk.linkEntry_eq_ok` — the same for the operations that
  start with a path.

Errors have no case: what is shown of paths that lead nowhere is only that they do not lead
anywhere.
-/

namespace Monorepo

namespace FileTree

/-- What stands at a location other than the root is listed among the entries. -/
theorem lookup_of_ne_root {t : FileTree} {at_ : Location} (hroot : at_ ≠ []) :
    t.entry? at_ = t.entries.lookup at_ :=
  if_neg hroot

/-- A segment that names an entry. -/
structure NamesEntry (segment : String) : Prop where
  nonempty : segment ≠ ""
  not_here : segment ≠ "."
  not_above : segment ≠ ".."
  short : segment.utf8ByteSize ≤ nameLimit

/-- Segments lead from one location to another, over at most so many links.  With `keepLast` a link
in last place is not followed. -/
inductive Leads (t : FileTree) (keepLast : Bool) :
    Nat → Location → List String → Location → Prop
  /-- Nothing is left to follow. -/
  | done (links : Nat) (here : Location) : Leads t keepLast links here [] here
  /-- An empty segment and `.` stay where they are. -/
  | stay {links : Nat} {here found : Location} {segment : String} {rest : List String} :
      t.entry? here = some .directory → segment = "" ∨ segment = "." →
      Leads t keepLast links here rest found → Leads t keepLast links here (segment :: rest) found
  /-- `..` goes to the directory above. -/
  | above {links : Nat} {here found : Location} {rest : List String} :
      t.entry? here = some .directory →
      Leads t keepLast links here.dropLast rest found →
      Leads t keepLast links here (".." :: rest) found
  /-- A name goes to the entry of the name, or to where it would be. -/
  | name {links : Nat} {here found : Location} {segment : String} {rest : List String} :
      t.entry? here = some .directory → NamesEntry segment →
      (∀ target, t.entry? (here ++ [segment]) ≠ some (.link target)) →
      Leads t keepLast links (here ++ [segment]) rest found →
      Leads t keepLast links here (segment :: rest) found
  /-- A link in last place may be what is looked for. -/
  | kept {links : Nat} {here : Location} {segment target : String} :
      t.entry? here = some .directory → NamesEntry segment →
      t.entry? (here ++ [segment]) = some (.link target) → keepLast = true →
      Leads t keepLast links here [segment] (here ++ [segment])
  /-- Any other link leads to its target, from where the rest is followed. -/
  | link {links : Nat} {here found : Location} {segment target : String} {rest : List String} :
      t.entry? here = some .directory → NamesEntry segment →
      t.entry? (here ++ [segment]) = some (.link target) → ¬ (keepLast = true ∧ rest = []) →
      Leads t keepLast links (if Path.isAbsolute ⟨target⟩ then [] else here)
        (Path.segments ⟨target⟩ ++ rest) found →
      Leads t keepLast (links + 1) here (segment :: rest) found

variable {t : FileTree} {keepLast : Bool} {links : Nat} {here found : Location}

theorem enter_eq_ok : t.enter here = .ok () ↔ t.entry? here = some .directory := by
  rw [enter]
  cases t.entry? here with
  | none => simp
  | some entry => cases entry <;> simp

/-- Goes on at the target of a link, if a link is left. -/
def followLink (t : FileTree) (keepLast : Bool) (links : Nat) (here : Location) (target : String)
    (rest : List String) : Except FileFault Location :=
  match links with
  | 0 => .error .tooManyLinks
  | links + 1 =>
    t.follow keepLast links (if Path.isAbsolute ⟨target⟩ then [] else here)
      (Path.segments ⟨target⟩ ++ rest)

theorem follow_nil : t.follow keepLast links here [] = .ok here := by
  cases links <;> rfl

/-- One step, whatever the number of links that are left. -/
theorem follow_cons (segment : String) (rest : List String) :
    t.follow keepLast links here (segment :: rest) =
      (t.enter here >>= fun _ =>
        if segment = "" || segment = "." then t.follow keepLast links here rest
        else if segment = ".." then t.follow keepLast links here.dropLast rest
        else if nameLimit < segment.utf8ByteSize then .error .nameTooLong
        else
          match t.entry? (here ++ [segment]) with
          | some (.link target) =>
            if keepLast && rest.isEmpty then .ok (here ++ [segment])
            else t.followLink keepLast links here target rest
          | _ => t.follow keepLast links (here ++ [segment]) rest) := by
  cases links <;> rfl

/-- The step at a name. -/
theorem follow_cons_name {segment : String} {rest : List String}
    (hdirectory : t.entry? here = some .directory) (hname : NamesEntry segment) :
    t.follow keepLast links here (segment :: rest) =
      match t.entry? (here ++ [segment]) with
      | some (.link target) =>
        if keepLast && rest.isEmpty then .ok (here ++ [segment])
        else t.followLink keepLast links here target rest
      | _ => t.follow keepLast links (here ++ [segment]) rest := by
  rw [follow_cons, enter_eq_ok.mpr hdirectory]
  show ite _ _ _ = _
  rw [if_neg (by simp [hname.nonempty, hname.not_here]), if_neg hname.not_above,
    if_neg (Nat.not_lt.mpr hname.short)]

theorem leads_of_follow {segments : List String}
    (h : t.follow keepLast links here segments = .ok found) :
    t.Leads keepLast links here segments found := by
  induction links using Nat.strongRecOn generalizing here segments with
  | ind links ihLinks =>
    induction segments generalizing here with
    | nil =>
      rw [follow_nil] at h
      cases h
      exact .done _ _
    | cons segment rest ih =>
      rw [follow_cons, Except.bind_eq_ok_iff] at h
      obtain ⟨u, henter, hstep⟩ := h
      have hdirectory := enter_eq_ok.mp henter
      by_cases hblank : segment = "" ∨ segment = "."
      · exact .stay hdirectory hblank (ih (by simpa [hblank] using hstep))
      by_cases habove : segment = ".."
      · subst habove
        exact .above hdirectory (ih (by simpa using hstep))
      rw [if_neg (by simpa using hblank), if_neg habove] at hstep
      by_cases hlong : nameLimit < segment.utf8ByteSize
      · rw [if_pos hlong] at hstep
        cases hstep
      rw [if_neg hlong] at hstep
      have hname : NamesEntry segment :=
        ⟨fun he => hblank (.inl he), fun he => hblank (.inr he), habove, Nat.not_lt.mp hlong⟩
      by_cases hlink : ∃ target, t.entry? (here ++ [segment]) = some (.link target)
      · obtain ⟨target, htarget⟩ := hlink
        simp only [htarget] at hstep
        by_cases hlast : keepLast = true ∧ rest = []
        · obtain ⟨hkeep, rfl⟩ := hlast
          rw [if_pos (by simp [hkeep])] at hstep
          cases hstep
          exact .kept hdirectory hname htarget hkeep
        · rw [if_neg (by simpa using hlast)] at hstep
          cases links with
          | zero => cases hstep
          | succ links =>
            exact .link hdirectory hname htarget hlast (ihLinks links (Nat.lt_succ_self _) hstep)
      · have hnot : ∀ target, t.entry? (here ++ [segment]) ≠ some (.link target) :=
          fun target htarget => hlink ⟨target, htarget⟩
        refine .name hdirectory hname hnot (ih ?_)
        split at hstep
        · exact absurd ‹_› (hnot _)
        · exact hstep

theorem follow_of_leads {segments : List String}
    (h : t.Leads keepLast links here segments found) :
    t.follow keepLast links here segments = .ok found := by
  induction h with
  | done links here => exact follow_nil
  | stay hdirectory hblank _ ih =>
    rw [follow_cons, enter_eq_ok.mpr hdirectory]
    show ite _ _ _ = _
    rw [if_pos (by simpa using hblank)]
    exact ih
  | above hdirectory _ ih =>
    rw [follow_cons, enter_eq_ok.mpr hdirectory]
    exact ih
  | name hdirectory hname hnot _ ih =>
    rw [follow_cons_name hdirectory hname]
    split
    · exact absurd ‹_› (hnot _)
    · exact ih
  | kept hdirectory hname htarget hkeep =>
    rw [follow_cons_name hdirectory hname]
    simp [htarget, hkeep]
  | link hdirectory hname htarget hlast _ ih =>
    rw [follow_cons_name hdirectory hname]
    simp only [htarget]
    rw [if_neg (by simpa using hlast)]
    exact ih

/-- **Following a path succeeds exactly where it leads.** -/
theorem follow_eq_ok {segments : List String} :
    t.follow keepLast links here segments = .ok found ↔
      t.Leads keepLast links here segments found :=
  ⟨leads_of_follow, follow_of_leads⟩

end FileTree

namespace Disk

open FileTree

variable {d : Disk} {p : Path} {keepLast : Bool} {location : Location} {entry : Entry}

/-- Where a program starts to follow a path. -/
def startOf (d : Disk) (p : Path) : Location :=
  if p.isAbsolute then [] else d.workingDir

theorem locate_eq_ok : d.locate p keepLast = .ok location ↔
    checkText p = .ok () ∧
      d.tree.Leads keepLast linkLimit (d.startOf p) p.segments location := by
  rw [locate, Except.bind_eq_ok_iff, ← follow_eq_ok]
  exact ⟨fun ⟨_, h⟩ => h, fun h => ⟨(), h⟩⟩

theorem find_eq_ok : d.find p = .ok (location, entry) ↔
    d.locate p false = .ok location ∧ d.tree.entry? location = some entry := by
  rw [find, Except.bind_eq_ok_iff]
  constructor
  · rintro ⟨found, hlocate, hentry⟩
    split at hentry
    · cases hentry
      exact ⟨hlocate, ‹_›⟩
    · cases hentry
  · rintro ⟨hlocate, hentry⟩
    refine ⟨location, hlocate, ?_⟩
    simp only [hentry]
    rfl

theorem isDirectory_eq_true : d.isDirectory p = true ↔
    ∃ location entry, d.find p = .ok (location, entry) ∧ entry.isDirectory = true := by
  rw [isDirectory, entry]
  cases d.find p with
  | error fault => exact ⟨nofun, nofun⟩
  | ok found =>
    refine ⟨fun h => ⟨found.1, found.2, rfl, h⟩, ?_⟩
    rintro ⟨location, entry, ⟨⟩, h⟩
    exact h

theorem isFile_eq_true : d.isFile p = true ↔
    ∃ location entry, d.find p = .ok (location, entry) ∧ entry.isFile = true := by
  rw [isFile, entry]
  cases d.find p with
  | error fault => exact ⟨nofun, nofun⟩
  | ok found =>
    refine ⟨fun h => ⟨found.1, found.2, rfl, h⟩, ?_⟩
    rintro ⟨location, entry, ⟨⟩, h⟩
    exact h

theorem find_of_none (hlocate : d.locate p false = .ok location)
    (hnone : d.tree.entry? location = none) : d.find p = .error .notFound := by
  rw [find, hlocate]
  refine Except.bind_eq_error_iff.mpr (.inr ⟨location, rfl, ?_⟩)
  simp only [hnone]
  rfl

theorem linkEntry_eq_ok : d.linkEntry p = .ok entry ↔
    ∃ location, d.locate p true = .ok location ∧ d.tree.entry? location = some entry := by
  rw [linkEntry, Except.bind_eq_ok_iff]
  refine exists_congr fun location => and_congr_right fun _ => ?_
  cases d.tree.entry? location with
  | none => simp
  | some found => exact ⟨fun h => by cases h; rfl, fun h => by cases h; rfl⟩

theorem readFile_eq_ok {bytes : List UInt8} : d.readFile p = .ok bytes ↔
    ∃ location, d.find p = .ok (location, .file bytes) := by
  rw [readFile, Except.bind_eq_ok_iff]
  constructor
  · rintro ⟨entry, hentry, hbytes⟩
    obtain ⟨⟨location, found⟩, hfind, hfound⟩ := Except.bind_eq_ok_iff.mp hentry
    cases hfound
    cases found with
    | file content =>
      cases hbytes
      exact ⟨location, hfind⟩
    | directory | link | closedFile | closedDirectory => cases hbytes
  · rintro ⟨location, hfind⟩
    exact ⟨.file bytes, Except.bind_eq_ok_iff.mpr ⟨_, hfind, rfl⟩, rfl⟩

theorem list_eq_ok {paths : List Path} : d.list p = .ok paths ↔
    ∃ location, d.find p = .ok (location, .directory) ∧
      paths = (d.tree.namesIn location).map fun name => p.join ⟨name⟩ := by
  rw [list, Except.bind_eq_ok_iff]
  constructor
  · rintro ⟨⟨location, found⟩, hfind, hpaths⟩
    cases found with
    | directory =>
      cases hpaths
      exact ⟨location, hfind, rfl⟩
    | file | link | closedFile | closedDirectory => cases hpaths
  · rintro ⟨location, hfind, rfl⟩
    exact ⟨_, hfind, rfl⟩

theorem list_of_closed (h : d.find p = .ok (location, .closedDirectory)) :
    d.list p = .error .accessDenied := by
  rw [list, h]
  rfl

end Disk

end Monorepo
