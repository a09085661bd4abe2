import Monorepo.Proofs.Following

/-!
# Paths below a directory

The entries of a directory are reached by joining their names to its path.  A path may end in
slashes, may go up again, and may lead over links; where it leads to a directory, the joined path
leads to the entry of the name in that directory:

* `Path.segments_join` — joining adds a segment, in place of the empty one behind a last slash;
* `FileTree.ProperName` — which names entries have;
* `FileTree.Leads.join` — where a joined path leads;
* `Disk.linkEntry_join`, `Disk.find_join` — what is found there, unless the text of the path is too
  long.
-/

namespace Monorepo

/-! ### Segments of joined paths -/

namespace Path

theorem splitSegments_ne_nil (cs : List Char) : splitSegments cs ≠ [] := by
  induction cs with
  | nil => simp [splitSegments]
  | cons c rest ih =>
    rw [splitSegments]
    split
    · simp
    · split <;> simp

theorem splitSegments_append_slash (cs ds : List Char) :
    splitSegments (cs ++ '/' :: ds) = splitSegments cs ++ splitSegments ds := by
  induction cs with
  | nil => simp [splitSegments]
  | cons c rest ih =>
    rw [List.cons_append, splitSegments, splitSegments, ih]
    by_cases hslash : c = '/'
    · rw [if_pos hslash, if_pos hslash, List.cons_append]
    · rw [if_neg hslash, if_neg hslash]
      obtain ⟨segment, segments, hrest⟩ := List.exists_cons_of_ne_nil (splitSegments_ne_nil rest)
      rw [hrest]
      rfl

theorem splitSegments_of_notMem {cs : List Char} (h : '/' ∉ cs) : splitSegments cs = [cs] := by
  induction cs with
  | nil => rfl
  | cons c rest ih =>
    rw [List.mem_cons, not_or] at h
    rw [splitSegments, if_neg (Ne.symm h.1), ih h.2]

theorem isAbsolute_name {name : String} (hname : '/' ∉ name.toList) :
    Path.isAbsolute ⟨name⟩ = false := by
  apply decide_eq_false
  intro hhead
  exact hname (List.mem_of_mem_head? hhead)

/-- The text of a joined path. -/
theorem join_name {dir : Path} (hdir : dir.text ≠ "") {name : String} (hname : '/' ∉ name.toList) :
    dir.join ⟨name⟩ =
      if dir.endsInSlash then ⟨dir.text ++ name⟩ else ⟨dir.text ++ "/" ++ name⟩ := by
  rw [join, isAbsolute_name hname]
  simp [hdir]

/-- What stands before a joined name does not depend on the name: the segments of the directory,
without an empty one behind a last slash. -/
theorem exists_stem (dir : Path) : ∃ stem,
    (∀ name : String, '/' ∉ name.toList → (dir.join ⟨name⟩).segments = stem ++ [name]) ∧
      (dir.text ≠ "" → dir.segments = stem ∨ dir.segments = stem ++ [""]) := by
  have hlast : ∀ {name : String}, '/' ∉ name.toList → splitSegments name.toList = [name.toList] :=
    splitSegments_of_notMem
  by_cases hdir : dir.text = ""
  · refine ⟨[], fun name hname => ?_, fun hne => absurd hdir hne⟩
    rw [join, isAbsolute_name hname, hdir]
    simp [segments, hlast hname]
  · by_cases hslash : dir.endsInSlash = true
    · obtain ⟨cs, hcs⟩ := List.getLast?_eq_some_iff.mp (of_decide_eq_true hslash)
      refine ⟨(splitSegments cs).map String.ofList, fun name hname => ?_, fun _ => .inr ?_⟩
      · rw [join_name hdir hname, if_pos hslash, segments, String.toList_append, hcs,
          List.append_assoc, List.singleton_append, splitSegments_append_slash, hlast hname,
          List.map_append]
        simp
      · rw [segments, hcs, splitSegments_append_slash, List.map_append]
        rfl
    · refine ⟨dir.segments, fun name hname => ?_, fun _ => .inl rfl⟩
      have htext : (dir.text ++ "/" ++ name).toList = dir.text.toList ++ '/' :: name.toList := by
        simp
      rw [join_name hdir hname, if_neg hslash, segments, htext, splitSegments_append_slash,
        hlast hname, List.map_append]
      simp [segments]

/-- **Joining a name adds a segment.**  An empty segment behind a last slash makes way for it. -/
theorem segments_join {dir : Path} (hdir : dir.text ≠ "") {name : String}
    (hname : '/' ∉ name.toList) : ∃ stem, (dir.join ⟨name⟩).segments = stem ++ [name] ∧
      (dir.segments = stem ∨ dir.segments = stem ++ [""]) := by
  obtain ⟨stem, hjoin, hstem⟩ := exists_stem dir
  exact ⟨stem, hjoin name hname, hstem hdir⟩

/-- The path of an entry below a directory, by the names that lead to it. -/
def descend (dir : Path) (names : List String) : Path :=
  names.foldl (fun above name => above.join ⟨name⟩) dir

/-- A joined path is as long as its two parts, or longer. -/
theorem le_utf8ByteSize_join {dir : Path} (hdir : dir.text ≠ "") {name : String}
    (hname : '/' ∉ name.toList) :
    dir.text.utf8ByteSize + name.utf8ByteSize ≤ (dir.join ⟨name⟩).text.utf8ByteSize := by
  rw [join_name hdir hname]
  split
  · exact Nat.le_of_eq String.utf8ByteSize_append.symm
  · rw [String.utf8ByteSize_append, String.utf8ByteSize_append]
    omega

/-- It is no longer than its two parts with a slash between them. -/
theorem utf8ByteSize_join_le {dir : Path} (hdir : dir.text ≠ "") {name : String}
    (hname : '/' ∉ name.toList) :
    (dir.join ⟨name⟩).text.utf8ByteSize ≤ dir.text.utf8ByteSize + 1 + name.utf8ByteSize := by
  have hslash : "/".utf8ByteSize = 1 := by decide
  rw [join_name hdir hname]
  split
  · rw [String.utf8ByteSize_append]
    omega
  · rw [String.utf8ByteSize_append, String.utf8ByteSize_append]
    omega

theorem isAbsolute_join {dir : Path} (hdir : dir.text ≠ "") {name : String}
    (hname : '/' ∉ name.toList) : (dir.join ⟨name⟩).isAbsolute = dir.isAbsolute := by
  have hchars : dir.text.toList ≠ [] := by simpa using hdir
  obtain ⟨c, rest, hcons⟩ := List.exists_cons_of_ne_nil hchars
  rw [join_name hdir hname]
  split <;> simp [isAbsolute, hcons]

end Path

/-! ### Names of entries -/

namespace FileTree

/-- A name that an entry can have. -/
structure ProperName (name : String) : Prop extends NamesEntry name where
  no_slash : '/' ∉ name.toList
  no_zero : '\x00' ∉ name.toList

instance (name : String) : Decidable (ProperName name) :=
  decidable_of_iff ((name ≠ "" ∧ name ≠ "." ∧ name ≠ ".." ∧ name.utf8ByteSize ≤ nameLimit) ∧
      '/' ∉ name.toList ∧ '\x00' ∉ name.toList)
    ⟨fun ⟨⟨h₁, h₂, h₃, h₄⟩, h₅, h₆⟩ => ⟨⟨h₁, h₂, h₃, h₄⟩, h₅, h₆⟩,
      fun ⟨⟨h₁, h₂, h₃, h₄⟩, h₅, h₆⟩ => ⟨⟨h₁, h₂, h₃, h₄⟩, h₅, h₆⟩⟩

/-! ### Following one more segment -/

variable {t : FileTree} {keepLast : Bool} {links : Nat} {here found : Location}

/-- What is left to follow behind segments can be followed from where they lead, with the links that
are left then. -/
theorem Leads.append {segments : List String} (h : t.Leads false links here segments found) :
    ∃ left, ∀ {keepLast : Bool} {more : List String} {goal : Location}, more ≠ [] →
      t.Leads keepLast left found more goal →
      t.Leads keepLast links here (segments ++ more) goal := by
  induction h with
  | done links here => exact ⟨links, fun _ hmore => hmore⟩
  | stay hdirectory hblank _ ih =>
    obtain ⟨left, ih⟩ := ih
    exact ⟨left, fun hne hmore => .stay hdirectory hblank (ih hne hmore)⟩
  | above hdirectory _ ih =>
    obtain ⟨left, ih⟩ := ih
    exact ⟨left, fun hne hmore => .above hdirectory (ih hne hmore)⟩
  | name hdirectory hname hplain _ ih =>
    obtain ⟨left, ih⟩ := ih
    exact ⟨left, fun hne hmore => .name hdirectory hname hplain (ih hne hmore)⟩
  | kept _ _ _ hkeep => cases hkeep
  | link hdirectory hname htarget _ _ ih =>
    obtain ⟨left, ih⟩ := ih
    refine ⟨left, fun {keepLast more goal} hne hmore => .link hdirectory hname htarget ?_ ?_⟩
    · exact fun hlast => hne (List.append_eq_nil_iff.mp hlast.2).2
    · have hrest := ih hne hmore
      rwa [List.append_assoc] at hrest

/-- An empty segment in front of others changes nothing. -/
theorem Leads.drop_blank {stem more : List String} (hmore : more ≠ [])
    (h : t.Leads keepLast links here (stem ++ "" :: more) found) :
    t.Leads keepLast links here (stem ++ more) found := by
  generalize hsegments : stem ++ "" :: more = segments at h
  induction h generalizing stem with
  | done links here => exact absurd hsegments (by simp)
  | stay hdirectory hblank hrest ih =>
    cases stem with
    | nil =>
      cases hsegments
      exact hrest
    | cons first stem =>
      cases hsegments
      exact .stay hdirectory hblank (ih rfl)
  | above hdirectory hrest ih =>
    cases stem with
    | nil => simp at hsegments
    | cons first stem =>
      cases hsegments
      exact .above hdirectory (ih rfl)
  | name hdirectory hname hplain hrest ih =>
    cases stem with
    | nil =>
      cases hsegments
      exact absurd rfl hname.nonempty
    | cons first stem =>
      cases hsegments
      exact .name hdirectory hname hplain (ih rfl)
  | kept hdirectory hname htarget hkeep =>
    cases stem with
    | nil =>
      cases hsegments
      exact absurd rfl hname.nonempty
    | cons first stem => simp at hsegments
  | link hdirectory hname htarget hlast hrest ih =>
    cases stem with
    | nil =>
      cases hsegments
      exact absurd rfl hname.nonempty
    | cons first stem =>
      cases hsegments
      refine .link hdirectory hname htarget (fun hkept => hmore ?_) ?_
      · exact (List.append_eq_nil_iff.mp hkept.2).2
      · have hrest := ih (List.append_assoc (Path.segments ⟨_⟩) stem ("" :: more))
        rwa [List.append_assoc] at hrest

/-- One more name leads to the entry of that name. -/
theorem Leads.next (hdirectory : t.entry? here = some .directory) {name : String}
    (hname : NamesEntry name)
    (hlink : keepLast = true ∨ ∀ target, t.entry? (here ++ [name]) ≠ some (.link target)) :
    t.Leads keepLast links here [name] (here ++ [name]) := by
  by_cases htarget : ∃ target, t.entry? (here ++ [name]) = some (.link target)
  · obtain ⟨target, htarget⟩ := htarget
    exact .kept hdirectory hname htarget (hlink.resolve_right fun hplain => hplain target htarget)
  · exact .name hdirectory hname (fun target h => htarget ⟨target, h⟩) (.done _ _)

/-- **Where a joined path leads.**  If a path leads to a directory, the path with a name joined to
it leads to the entry of the name there. -/
theorem Leads.join {dir : Path} (hdir : dir.text ≠ "")
    (h : t.Leads false links here dir.segments found)
    (hdirectory : t.entry? found = some .directory) {name : String} (hname : ProperName name)
    (hlink : keepLast = true ∨ ∀ target, t.entry? (found ++ [name]) ≠ some (.link target)) :
    t.Leads keepLast links here (dir.join ⟨name⟩).segments (found ++ [name]) := by
  obtain ⟨stem, hjoin, hstem⟩ := Path.segments_join hdir hname.no_slash
  obtain ⟨left, happend⟩ := h.append
  have hnext : t.Leads keepLast links here (dir.segments ++ [name]) (found ++ [name]) :=
    happend (List.cons_ne_nil _ _) (.next hdirectory hname.toNamesEntry hlink)
  rw [hjoin]
  obtain hstem | hstem := hstem
  · rwa [hstem] at hnext
  · rw [hstem, List.append_assoc] at hnext
    exact hnext.drop_blank (List.cons_ne_nil _ _)

end FileTree

/-! ### What stands there -/

namespace Disk

open FileTree

variable {d : Disk} {dir : Path} {top : Location} {name : String}

theorem text_ne_empty_of_checkText {p : Path} (h : checkText p = .ok ()) : p.text ≠ "" := by
  intro hempty
  simp [checkText, hempty] at h

theorem checkText_of_find {p : Path} {found : Location × Entry} (h : d.find p = .ok found) :
    checkText p = .ok () :=
  (locate_eq_ok.mp (find_eq_ok.mp h).1).1

theorem text_ne_empty_of_find {p : Path} {found : Location × Entry} (h : d.find p = .ok found) :
    p.text ≠ "" :=
  text_ne_empty_of_checkText (checkText_of_find h)

/-- What the file system asks of the text of a path. -/
theorem checkText_eq_ok {p : Path} : checkText p = .ok () ↔
    '\x00' ∉ p.text.toList ∧ p.text ≠ "" ∧ p.text.utf8ByteSize < pathLimit := by
  rw [checkText]
  split
  · simp_all
  · split
    · simp_all
    · split <;> simp_all

theorem checkText_of_long {p : Path} (hzero : '\x00' ∉ p.text.toList) (htext : p.text ≠ "")
    (hlong : pathLimit ≤ p.text.utf8ByteSize) : checkText p = .error .nameTooLong := by
  rw [checkText, if_neg (by simpa using hzero), if_neg htext, if_pos hlong]

/-- With a proper name joined to it, the text of a path stays one of a path. -/
theorem text_join (hzero : '\x00' ∉ dir.text.toList) (hempty : dir.text ≠ "")
    (hname : ProperName name) :
    '\x00' ∉ (dir.join ⟨name⟩).text.toList ∧ (dir.join ⟨name⟩).text ≠ "" := by
  rw [Path.join_name hempty hname.no_slash]
  split <;> simp [hzero, hname.no_zero, hempty]

/-- It can only become too long. -/
theorem checkText_join (hdir : checkText dir = .ok ()) (hname : ProperName name) :
    checkText (dir.join ⟨name⟩) = .ok () ↔ (dir.join ⟨name⟩).text.utf8ByteSize < pathLimit := by
  obtain ⟨hdirZero, hdirText, -⟩ := checkText_eq_ok.mp hdir
  obtain ⟨hzero, htext⟩ := text_join hdirZero hdirText hname
  rw [checkText_eq_ok]
  exact ⟨fun h => h.2.2, fun h => ⟨hzero, htext, h⟩⟩

theorem locate_join (h : d.find dir = .ok (top, .directory)) (hname : ProperName name)
    (hshort : (dir.join ⟨name⟩).text.utf8ByteSize < pathLimit) {keepLast : Bool}
    (hlink : keepLast = true ∨ ∀ target, d.tree.entry? (top ++ [name]) ≠ some (.link target)) :
    d.locate (dir.join ⟨name⟩) keepLast = .ok (top ++ [name]) := by
  obtain ⟨hlocate, hdirectory⟩ := find_eq_ok.mp h
  obtain ⟨hcheck, hleads⟩ := locate_eq_ok.mp hlocate
  have hdir := text_ne_empty_of_checkText hcheck
  have hstart : d.startOf (dir.join ⟨name⟩) = d.startOf dir := by
    rw [startOf, startOf, Path.isAbsolute_join hdir hname.no_slash]
  rw [locate_eq_ok, hstart]
  exact ⟨(checkText_join hcheck hname).mpr hshort, hleads.join hdir hdirectory hname hlink⟩

/-- **What is found under a joined path.**  Unless its text is too long, it is the entry of the
name, which may be a link. -/
theorem linkEntry_join (h : d.find dir = .ok (top, .directory)) (hname : ProperName name)
    {entry : Entry} : d.linkEntry (dir.join ⟨name⟩) = .ok entry ↔
      (dir.join ⟨name⟩).text.utf8ByteSize < pathLimit ∧
        d.tree.entry? (top ++ [name]) = some entry := by
  obtain ⟨hlocate, hdirectory⟩ := find_eq_ok.mp h
  obtain ⟨hcheck, -⟩ := locate_eq_ok.mp hlocate
  rw [linkEntry_eq_ok]
  constructor
  · rintro ⟨location, hfound, hentry⟩
    have hshort := (checkText_join hcheck hname).mp (locate_eq_ok.mp hfound).1
    obtain rfl : location = top ++ [name] :=
      Except.ok.inj (hfound.symm.trans (locate_join h hname hshort (.inl rfl)))
    exact ⟨hshort, hentry⟩
  · rintro ⟨hshort, hentry⟩
    exact ⟨_, locate_join h hname hshort (.inl rfl), hentry⟩

/-- What stands under a path that is too long can not be told. -/
theorem linkEntry_join_of_long (h : d.find dir = .ok (top, .directory)) (hname : ProperName name)
    (hlong : pathLimit ≤ (dir.join ⟨name⟩).text.utf8ByteSize) :
    d.linkEntry (dir.join ⟨name⟩) = .error .nameTooLong := by
  have hcheck : checkText (dir.join ⟨name⟩) = .error .nameTooLong := by
    obtain ⟨hdirZero, hdirText, -⟩ := checkText_eq_ok.mp (checkText_of_find h)
    obtain ⟨hzero, htext⟩ := text_join hdirZero hdirText hname
    exact checkText_of_long hzero htext hlong
  rw [linkEntry, locate, hcheck]
  rfl

/-- What is no link is found under a joined path as what it is. -/
theorem find_join (h : d.find dir = .ok (top, .directory)) (hname : ProperName name)
    (hshort : (dir.join ⟨name⟩).text.utf8ByteSize < pathLimit) {entry : Entry}
    (hentry : d.tree.entry? (top ++ [name]) = some entry) (hlink : ∀ target, entry ≠ .link target) :
    d.find (dir.join ⟨name⟩) = .ok (top ++ [name], entry) := by
  refine find_eq_ok.mpr ⟨locate_join h hname hshort (.inr fun target htarget => ?_), hentry⟩
  rw [hentry] at htarget
  exact hlink target (Option.some.inj htarget)

end Disk

end Monorepo
