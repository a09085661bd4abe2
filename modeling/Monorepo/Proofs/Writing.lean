import Monorepo.Disk.Write
import Monorepo.Proofs.Following

/-!
# What a file holds after it was written

Writing puts one file into the tree, at a location where there was a file or nothing.

* `FileTree.Free` — there is a file at a location, or nothing, so a file can be put there;
* `FileTree.KeepsWays` — the directories of a tree and its links, and no other links, are those of
  another;
* `FileTree.Leads.of_keepsWays` — a path that leads to no link leads to the same location then;
* `Disk.exists_of_writeFile` — what a write without an error has done;
* `Disk.readFile_of_writeFile` — what is written can be read at the same path.
-/

namespace Monorepo

namespace FileTree

/-! ### Putting an entry -/

theorem lookup_putEntry (at_ : Location) (entry : Entry) (entries : List (Location × Entry))
    (other : Location) :
    (putEntry at_ entry entries).lookup other =
      if other = at_ then some entry else entries.lookup other := by
  induction entries with
  | nil =>
    by_cases h : other = at_
    · simp [putEntry, h]
    · simp [putEntry, List.lookup_cons, beq_false_of_ne h, h]
  | cons e rest ih =>
    obtain ⟨location, old⟩ := e
    rw [putEntry]
    by_cases hplace : location = at_
    · subst hplace
      by_cases h : other = location
      · simp [h]
      · simp [List.lookup_cons, beq_false_of_ne h, h]
    · rw [if_neg hplace, List.lookup_cons, List.lookup_cons]
      by_cases h : other = location
      · have hother : other ≠ at_ := fun he => hplace (h ▸ he)
        simp [h, hplace]
      · simpa [beq_false_of_ne h] using ih

variable {t t' : FileTree}

theorem lookup_put {at_ : Location} (hroot : at_ ≠ []) (entry : Entry) (other : Location) :
    FileTree.entry? (t.put at_ entry) other =
      if other = at_ then some entry else t.entry? other := by
  by_cases hother : other = []
  · rw [hother, if_neg hroot.symm]
    rfl
  · rw [lookup_of_ne_root hother, lookup_of_ne_root hother]
    exact lookup_putEntry at_ entry t.entries other

/-- Another tree has the directories of a tree, and the same links. -/
structure KeepsWays (t t' : FileTree) : Prop where
  directories : ∀ location, t.entry? location = some .directory →
    t'.entry? location = some .directory
  links : ∀ location target, t'.entry? location = some (.link target) ↔
    t.entry? location = some (.link target)

/-- A path that does not lead to a link leads where it did, whether or not links in last place are
followed. -/
theorem Leads.of_keepsWays (hways : t.KeepsWays t') {keepLast : Bool} {links : Nat}
    {here found : Location} {segments : List String}
    (h : t.Leads keepLast links here segments found)
    (hnot : ∀ target, t.entry? found ≠ some (.link target)) :
    t'.Leads false links here segments found := by
  induction h with
  | done links here => exact .done links here
  | stay hdirectory hblank _ ih => exact .stay (hways.directories _ hdirectory) hblank (ih hnot)
  | above hdirectory _ ih => exact .above (hways.directories _ hdirectory) (ih hnot)
  | name hdirectory hname hplain _ ih =>
    exact .name (hways.directories _ hdirectory) hname
      (fun target htarget => hplain target ((hways.links _ target).mp htarget)) (ih hnot)
  | kept _ _ htarget _ => exact absurd htarget (hnot _)
  | link hdirectory hname htarget _ _ ih =>
    exact .link (hways.directories _ hdirectory) hname ((hways.links _ _).mpr htarget) (by simp)
      (ih hnot)

/-- A file can be put at a location: there is a file, or nothing. -/
def Free (t : FileTree) (at_ : Location) : Prop :=
  ∀ entry, t.entry? at_ = some entry → ∃ old, entry = .file old

theorem Free.of_none {at_ : Location} (h : t.entry? at_ = none) : t.Free at_ := by
  intro entry hentry
  rw [h] at hentry
  cases hentry

theorem Free.not_directory {at_ : Location} (h : t.Free at_) :
    t.entry? at_ ≠ some .directory := by
  intro hdirectory
  obtain ⟨old, hold⟩ := h _ hdirectory
  cases hold

theorem Free.not_link {at_ : Location} (h : t.Free at_) (target : String) :
    t.entry? at_ ≠ some (.link target) := by
  intro hlink
  obtain ⟨old, hold⟩ := h _ hlink
  cases hold

/-- The root is a directory. -/
theorem Free.ne_root {at_ : Location} (h : t.Free at_) : at_ ≠ [] := by
  rintro rfl
  exact h.not_directory rfl

/-- Putting a file where there was a file or nothing changes no way. -/
theorem keepsWays_put {at_ : Location} (hfree : t.Free at_) (bytes : List UInt8) :
    t.KeepsWays (t.put at_ (.file bytes)) := by
  have hentry := lookup_put (t := t) hfree.ne_root (.file bytes)
  constructor
  · intro location hdirectory
    rw [hentry, if_neg, hdirectory]
    rintro rfl
    exact hfree.not_directory hdirectory
  · intro location target
    rw [hentry]
    by_cases hlocation : location = at_
    · subst hlocation
      rw [if_pos rfl]
      exact ⟨nofun, fun hlink => absurd hlink (hfree.not_link target)⟩
    · rw [if_neg hlocation]

end FileTree

namespace Disk

open FileTree

variable {d d' : Disk} {p : Path} {mode : WriteMode} {bytes : List UInt8}

/-- **What a write has done.**  The file is at the location that its path leads to, where there was
a file or nothing before. -/
theorem exists_of_writeFile (hmode : mode ≠ .extend) (h : d.writeFile p mode bytes = .ok d') :
    ∃ location, d.locate p (mode = .createNew) = .ok location ∧
      d.tree.Free location ∧ d' = { d with tree := d.tree.put location (.file bytes) } := by
  rw [writeFile, Except.bind_eq_ok_iff] at h
  obtain ⟨⟨⟩, -, hopen⟩ := h
  by_cases hslash : (p.endsInSlash && endsInName p) = true
  · rw [if_pos hslash] at hopen
    obtain ⟨above, -, henter⟩ := Except.bind_eq_ok_iff.mp hopen
    obtain ⟨-, -, hthrow⟩ := Except.bind_eq_ok_iff.mp henter
    cases hthrow
  rw [if_neg hslash] at hopen
  obtain ⟨location, hlocate, hwritten⟩ := Except.bind_eq_ok_iff.mp hopen
  clear hopen
  refine ⟨location, hlocate, ?_⟩
  unfold Free
  cases hentry : d.tree.entry? location with
  | none =>
    simp only [hentry] at hwritten
    cases hwritten
    exact ⟨nofun, rfl⟩
  | some entry =>
    simp only [hentry] at hwritten
    cases entry with
    | directory | link | closedFile | closedDirectory => cases mode <;> cases hwritten
    | file old =>
      cases mode with
      | createNew => cases hwritten
      | extend => exact absurd rfl hmode
      | replace =>
        cases hwritten
        exact ⟨fun _ hfound => ⟨old, (Option.some.inj hfound).symm⟩, rfl⟩

/-- **What is written can be read.** -/
theorem readFile_of_writeFile (hmode : mode ≠ .extend) (h : d.writeFile p mode bytes = .ok d') :
    d'.readFile p = .ok bytes := by
  obtain ⟨location, hlocate, hfree, rfl⟩ := exists_of_writeFile hmode h
  obtain ⟨hcheck, hleads⟩ := locate_eq_ok.mp hlocate
  have hsame : FileTree.entry? (d.tree.put location (.file bytes)) location =
      some (.file bytes) := by
    rw [lookup_put hfree.ne_root, if_pos rfl]
  exact readFile_eq_ok.mpr ⟨location, find_eq_ok.mpr ⟨locate_eq_ok.mpr
    ⟨hcheck, hleads.of_keepsWays (keepsWays_put hfree bytes) hfree.not_link⟩, hsame⟩⟩

end Disk

end Monorepo
