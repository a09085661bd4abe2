import Monorepo.Proofs.Putting
import Monorepo.Proofs.Stages
import Monorepo.Proofs.Walking

/-!
# Where a visit stops

A walk that refuses links comes to all that is below its directory in the order of the paths.  A
visitor who goes along sees the entries that are no directories, up to the first that is a link or
that he rejects:

* `Walk.Outcome` — what becomes of a visit, told by the entries in turn, and `Walk.outcome_along`,
  that this is what becomes of it;
* `Disk.WalkedInOrder` — the entries in their order and what follows for a visit, for another order of
  listing, and for a builder that stops on the way;
* `Disk.exists_walkedInOrder` — every directory is walked like that, if all below it is
  `Disk.Readable`.
-/

namespace Monorepo

/-- Whether an entry is a link. -/
def Entry.isLink : Entry → Bool
  | .link _ => true
  | _ => false

namespace Walk

variable {σ : Type} {visitor : σ → Path → Except LoadError σ} {state passed after : σ}
  {rest : List (Path × Entry)} {e : Path × Entry} {error : LoadError}

/-- A visitor passes over entries: none of them is a link, and he accepts each in turn. -/
structure Passes (visitor : σ → Path → Except LoadError σ) (entries : List (Path × Entry))
    (state after : σ) : Prop where
  noLinks : ∀ e ∈ entries, e.2.isLink = false
  accepted : visitPaths visitor (entries.map Prod.fst) state = (after, .ok ())

/-- A visitor stops at an entry: it is a link, or he rejects it. -/
def StopsAt (visitor : σ → Path → Except LoadError σ) (reached : σ) (e : Path × Entry)
    (error : LoadError) : Prop :=
  if e.2.isLink then error = .symlink e.1 else visitor reached e.1 = .error error

/-- What becomes of a visit to entries in turn: the visitor passes over all of them, or up to the first
that he stops at. -/
inductive Outcome (visitor : σ → Path → Except LoadError σ) (entries : List (Path × Entry))
    (state : σ) : σ × Ending → Prop where
  | completed {after : σ} (hpasses : Passes visitor entries state after) :
      Outcome visitor entries state (after, .complete)
  | stopped {before rest : List (Path × Entry)} {e : Path × Entry} {reached : σ}
      {error : LoadError} (hentries : entries = before ++ e :: rest)
      (hpasses : Passes visitor before state reached) (hstops : StopsAt visitor reached e error) :
      Outcome visitor entries state (reached, .failed error)

theorem Passes.nil : Passes visitor [] state state :=
  ⟨nofun, rfl⟩

theorem Passes.cons (hlink : e.2.isLink = false) (hvisit : visitor state e.1 = .ok passed)
    (h : Passes visitor rest passed after) : Passes visitor (e :: rest) state after where
  noLinks := List.forall_mem_cons.mpr ⟨hlink, h.noLinks⟩
  accepted := by
    rw [List.map_cons, visitPaths, hvisit]
    exact h.accepted

/-- A visit that stops at once. -/
theorem Outcome.head (h : StopsAt visitor state e error) :
    Outcome visitor (e :: rest) state (state, .failed error) :=
  .stopped (List.nil_append _).symm .nil h

/-- A visit that goes on behind an entry. -/
theorem Outcome.cons (hlink : e.2.isLink = false) (hvisit : visitor state e.1 = .ok passed)
    {outcome : σ × Ending} (h : Outcome visitor rest passed outcome) :
    Outcome visitor (e :: rest) state outcome := by
  cases h with
  | completed hpasses => exact .completed (hpasses.cons hlink hvisit)
  | @stopped before others e' reached error hentries hpasses hstops =>
    have hsplit : e :: rest = (e :: before) ++ e' :: others := congrArg (e :: ·) hentries
    exact .stopped hsplit (hpasses.cons hlink hvisit) hstops

theorem visit_cons_of_ok {p : Path} (h : visitor state p = .ok passed) (paths : List Path)
    (ending : Ending) : visit visitor ⟨p :: paths, ending⟩ state =
      visit visitor ⟨paths, ending⟩ passed := by
  rw [visit, visit, visitPaths, h]

theorem visit_cons_of_error {p : Path} (h : visitor state p = .error error) (paths : List Path)
    (ending : Ending) : visit visitor ⟨p :: paths, ending⟩ state = (state, .failed error) := by
  rw [visit, visitPaths, h]

/-- **What becomes of a visit to a walk along entries.**  Directories do not count. -/
theorem outcome_along (visitor : σ → Path → Except LoadError σ) {entries : List (Path × Entry)}
    (hreadable : ∀ e ∈ entries, e.1.text.utf8ByteSize < FileTree.pathLimit ∧
      e.2 ≠ .closedDirectory) (state : σ) :
    Outcome visitor (entries.filter fun e => e.2 ≠ .directory) state
      ((along entries).visit visitor state) := by
  induction entries generalizing state with
  | nil => exact .completed .nil
  | cons e rest ih =>
    rw [List.forall_mem_cons] at hreadable
    have hrest := ih hreadable.2
    obtain ⟨p, entry⟩ := e
    obtain ⟨hshort, hopens⟩ := hreadable.1
    cases entry with
    | directory =>
      have halong : along ((p, .directory) :: rest) = along rest := by
        rw [along, passing, if_neg (Nat.not_le_of_lt hshort), nothing_andThen]
      rw [halong, List.filter_cons_of_neg (by simp)]
      exact hrest state
    | link target =>
      have halong : along ((p, .link target) :: rest) = failing (.symlink p) := by
        rw [along, passing, if_neg (Nat.not_le_of_lt hshort), failing_andThen]
      rw [halong, List.filter_cons_of_pos (by simp)]
      exact .head rfl
    | closedDirectory => exact absurd rfl hopens
    | file | closedFile =>
      rw [along_cons_of_visitable (Disk.visitable_of_isFile hshort rfl),
        List.filter_cons_of_pos (by simp)]
      show Outcome visitor _ state (visit visitor ⟨p :: (along rest).paths, _⟩ state)
      cases hresult : visitor state p with
      | ok passed =>
        rw [visit_cons_of_ok hresult]
        exact (hrest passed).cons rfl hresult
      | error error =>
        rw [visit_cons_of_error hresult]
        exact .head hresult

end Walk

namespace Disk

open FileTree

variable {d : Disk} {dir : Path} {top : Location}

/-- All that is below a directory can be looked at, each entry under its path, and no directory
there is closed. -/
def Readable (d : Disk) (dir : Path) : Prop :=
  ∀ e ∈ d.below dir, d.linkEntry e.1 = .ok e.2 ∧ e.2 ≠ .closedDirectory

instance (d : Disk) (dir : Path) : Decidable (d.Readable dir) :=
  inferInstanceAs (Decidable
    (∀ e ∈ d.below dir, d.linkEntry e.1 = .ok e.2 ∧ e.2 ≠ .closedDirectory))

/-- Where an entry can be looked at, its path is not too long. -/
theorem Readable.short (h : d.Readable dir) :
    ∀ e ∈ d.below dir, e.1.text.utf8ByteSize < pathLimit := by
  intro e he
  obtain ⟨location, hlocate, -⟩ := linkEntry_eq_ok.mp (h e he).1
  exact (checkText_eq_ok.mp (locate_eq_ok.mp hlocate).1).2.2

/-- The entries that a walk comes to below a directory, and what becomes of it at them. -/
structure WalkedInOrder (d : Disk) (dir : Path) (met : List (Path × Entry)) : Prop where
  /-- They are the entries below that are no directories, -/
  entries : met.Perm ((d.below dir).filter fun e => e.2 ≠ .directory)
  /-- each once, in the order of their components. -/
  ascending : met.Pairwise fun e e' => e.1.compare e'.1 = .lt
  /-- Whoever visits them sees them in turn, up to the first that he stops at. -/
  visited : ∀ {σ : Type} (visitor : σ → Path → Except LoadError σ) (state : σ),
    Walk.Outcome visitor met state ((d.walk .refuse dir).visit visitor state)
  /-- The order in which entries are listed does not count. -/
  anyListing : ∀ entries : List (Location × Entry), entries.Perm d.tree.entries →
    Disk.walk { d with tree := ⟨entries⟩ } .refuse dir = d.walk .refuse dir
  /-- A builder that fails has registered what the configuration files before the stop hold. -/
  registered : ∀ (b left : IncludeBuilder) (error : LoadError),
    b.loadDir d dir = (left, .error error) →
      ∃ before e rest held, met = before ++ e :: rest ∧
        Walk.Passes (IncludeBuilder.visitFile d) before b left ∧
        Walk.StopsAt (IncludeBuilder.visitFile d) left e error ∧
        IncludeFile.AllHeldBy d (configFiles (before.map Prod.fst)) held ∧
        IncludeBuilder.addAll b held = .ok left ∧
        ∀ files, b.registered.ConsistsOf files → left.registered.ConsistsOf (files ++ held)

/-- A path to a directory leads there, in whatever order the entries of the tree are listed. -/
theorem find_of_perm (ht : d.tree.WellFormed) {entries : List (Location × Entry)}
    (hperm : entries.Perm d.tree.entries) (h : d.find dir = .ok (top, .directory)) :
    find { d with tree := ⟨entries⟩ } dir = .ok (top, .directory) := by
  have hways : d.tree.SameWays ⟨entries⟩ :=
    ⟨fun location => by rw [ht.entry?_of_perm hperm],
      fun location target => by rw [ht.entry?_of_perm hperm]⟩
  obtain ⟨hlocate, hdirectory⟩ := find_eq_ok.mp h
  obtain ⟨hcheck, hleads⟩ := locate_eq_ok.mp hlocate
  have hleads' := hleads.of_sameWays hways
  exact find_eq_ok.mpr ⟨locate_eq_ok.mpr ⟨hcheck, hleads'⟩, (hways.directories top).mpr hdirectory⟩

theorem walk_of_perm (ht : d.tree.WellFormed) {entries : List (Location × Entry)}
    (hperm : entries.Perm d.tree.entries) (h : d.find dir = .ok (top, .directory)) :
    walk { d with tree := ⟨entries⟩ } .refuse dir = d.walk .refuse dir := by
  have ht' : WellFormed ⟨entries⟩ := ht.of_perm hperm
  have hsame : inOrder ⟨entries⟩ top = d.tree.inOrder top := by
    apply ht.eq_inOrder _ (ht'.pairwise_inOrder top)
    intro names entry
    rw [ht'.mem_inOrder, ht.entry?_of_perm hperm]
  rw [walk_eq_along ht h, walk_eq_along ht' (find_of_perm ht hperm h), hsame]

/-- A builder that fails in a directory has passed over what comes before the stop. -/
theorem exists_of_outcome {met : List (Path × Entry)} {b left : IncludeBuilder} {error : LoadError}
    (hmet : Walk.Outcome (IncludeBuilder.visitFile d) met b
      ((d.walk .refuse dir).visit (IncludeBuilder.visitFile d) b))
    (h : b.loadDir d dir = (left, .error error)) :
    ∃ before e rest, met = before ++ e :: rest ∧
      Walk.Passes (IncludeBuilder.visitFile d) before b left ∧
      Walk.StopsAt (IncludeBuilder.visitFile d) left e error := by
  rw [IncludeBuilder.loadDir] at h
  generalize (d.walk .refuse dir).visit (IncludeBuilder.visitFile d) b = outcome at hmet h
  cases hmet with
  | completed hpasses => cases h
  | stopped hentries hpasses hstops =>
    cases h
    exact ⟨_, _, _, hentries, hpasses, hstops⟩

/-- **A walk visits what is below its directory in the order of the paths**, each entry once, and
stops at the first link or at the first path that is rejected, with all before it done. -/
theorem exists_walkedInOrder (ht : d.tree.WellFormed) (h : d.find dir = .ok (top, .directory))
    (hreadable : d.Readable dir) : ∃ met, d.WalkedInOrder dir met := by
  obtain ⟨entries, hperm, hascending, hwalk⟩ := exists_walk_eq_along ht h
  have hvisited : ∀ {σ : Type} (visitor : σ → Path → Except LoadError σ) (state : σ),
      Walk.Outcome visitor (entries.filter fun e => e.2 ≠ .directory) state
        ((d.walk .refuse dir).visit visitor state) := by
    intro σ visitor state
    rw [hwalk]
    refine Walk.outcome_along visitor (fun e he => ?_) state
    have hbelow := hperm.mem_iff.mp he
    exact ⟨hreadable.short e hbelow, (hreadable e hbelow).2⟩
  refine ⟨entries.filter fun e => e.2 ≠ .directory, ?_⟩
  constructor
  case entries => exact hperm.filter _
  case ascending => exact hascending.filter _
  case visited => exact hvisited
  case anyListing => exact fun listed hlisted => walk_of_perm ht hlisted h
  case registered =>
    intro b left error hload
    obtain ⟨before, e, rest, hmet, hpasses, hstops⟩ := exists_of_outcome (hvisited _ b) hload
    obtain ⟨held, hheld, hadd⟩ := IncludeBuilder.visitPaths_eq_ok.mp hpasses.accepted
    refine ⟨before, e, rest, held, hmet, hpasses, hstops, hheld, hadd, fun files hfiles => ?_⟩
    obtain ⟨hnodup, hfresh, rfl⟩ := IncludeBuilder.addAll_eq_ok.mp hadd
    exact IncludeBuilder.consistsOf_registerAll hfiles hnodup hfresh

/-- A directory, a file whose name starts like that of the directory, a file that is no configuration
file, and a link, listed in no order. -/
def mixedDisk : Disk where
  tree := ⟨[
    (["inc", "z"], .link "b"),
    (["inc", "b.toml"], .file (asciiLines ["[[Input]]", "id='i'", "GolangSources.paths=['p']"])),
    (["inc", "notes.txt"], .file (asciiLines ["none"])),
    (["inc"], .directory),
    (["inc", "b", "x.toml"], .file (asciiLines ["[[Output]]", "id='o'", "[[Output.File]]",
      "path='f'"])),
    (["inc", "b"], .directory)]⟩

/-- The entries below `inc` in the order of their paths.  The file below `b` comes before `b.toml`, though
its text does not. -/
def mixedEntries : List (Path × Entry) := [
  (⟨"inc/b"⟩, .directory),
  (⟨"inc/b/x.toml"⟩, .file (asciiLines ["[[Output]]", "id='o'", "[[Output.File]]", "path='f'"])),
  (⟨"inc/b.toml"⟩, .file (asciiLines ["[[Input]]", "id='i'", "GolangSources.paths=['p']"])),
  (⟨"inc/notes.txt"⟩, .file (asciiLines ["none"])),
  (⟨"inc/z"⟩, .link "b")]

/-- A builder stops at the link, with both configuration files registered. -/
theorem exists_walkedInOrder_mixed :
    let loaded := IncludeBuilder.loadDir mixedDisk {} ⟨"inc"⟩
    mixedDisk.tree.WellFormed ∧ mixedDisk.find ⟨"inc"⟩ = .ok (["inc"], .directory) ∧
      mixedDisk.Readable ⟨"inc"⟩ ∧
      mixedDisk.WalkedInOrder ⟨"inc"⟩ (mixedEntries.drop 1) ∧
      loaded.2 = .error (.symlink ⟨"inc/z"⟩) ∧
      loaded.1.registered.ids .input = ["i"] ∧ loaded.1.registered.ids .output = ["o"] := by
  intro loaded
  have ht : mixedDisk.tree.WellFormed := by decide +kernel
  have hfind : mixedDisk.find ⟨"inc"⟩ = .ok (["inc"], .directory) := by decide +kernel
  have hreadable : mixedDisk.Readable ⟨"inc"⟩ := by decide +kernel
  have hbelow : (mixedDisk.below ⟨"inc"⟩).Perm mixedEntries := by decide +kernel
  have hsorted : mixedEntries.Pairwise fun e e' => e.1.compare e'.1 = .lt := by decide +kernel
  have hloaded : loaded = IncludeBuilder.loadDir mixedDisk {} ⟨"inc"⟩ := rfl
  obtain ⟨entries, hperm, hascending, hwalk⟩ := exists_walk_eq_along ht hfind
  obtain rfl := Path.eq_of_ascending (hperm.trans hbelow) hascending hsorted
  rw [IncludeBuilder.loadDir, hwalk] at hloaded
  obtain ⟨met, hmet⟩ := exists_walkedInOrder ht hfind hreadable
  have hdropped : (mixedEntries.filter fun e => e.2 ≠ .directory) = mixedEntries.drop 1 := by
    decide +kernel
  have hmetPerm := hmet.entries.trans (hbelow.filter _)
  rw [hdropped] at hmetPerm
  obtain rfl := Path.eq_of_ascending hmetPerm hmet.ascending (hsorted.drop)
  refine ⟨ht, hfind, hreadable, hmet, ?_⟩
  rw [hloaded]
  decide +kernel

end Disk

end Monorepo
