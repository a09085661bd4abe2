import Monorepo.Format
import Monorepo.Proofs.Below

/-!
# Spellings of a path

A path may be written with empty segments and with `.`, which stand for no step.  Where it leads to
a directory they may be left out or put in, and so the path leads to the same place once it is made
absolute:

* `Path.Blank`, `Path.names` — the segments that stand for no step, and those that do;
* `Path.Thins` — leaving some blank segments out; `FileTree.Leads.thin` and `FileTree.Leads.thicken`
  say that this changes nothing;
* `Path.ofSegments_segments` — a path is its segments;
* `Path.fileName?_join`, `FileFormat.ofPath?_join` — what a joined path ends in;
* `Disk.find_of_names`, `Disk.find_absolute` — another spelling of a path to a directory leads
  there, and so does its absolute form.
-/

namespace Monorepo

namespace Path

/-- A segment that stands for no step. -/
def Blank (segment : String) : Prop :=
  segment = "" ∨ segment = "."

instance (segment : String) : Decidable (Blank segment) :=
  inferInstanceAs (Decidable (_ ∨ _))

/-- The segments of a path that stand for a step. -/
def names (p : Path) : List String :=
  p.segments.filter fun segment => ¬ Blank segment

theorem mem_names {p : Path} {name : String} :
    name ∈ p.names ↔ name ∈ p.segments ∧ ¬ Blank name := by
  rw [names, List.mem_filter, decide_eq_true_iff]

/-- The second list is the first without some of its blank segments. -/
inductive Thins : List String → List String → Prop where
  | nil : Thins [] []
  | keep (segment : String) {segments kept : List String} :
    Thins segments kept → Thins (segment :: segments) (segment :: kept)
  | drop {segment : String} {segments kept : List String} :
    Blank segment → Thins segments kept → Thins (segment :: segments) kept

namespace Thins

variable {segments kept : List String}

theorem append_left (before : List String) (h : Thins segments kept) :
    Thins (before ++ segments) (before ++ kept) := by
  induction before with
  | nil => exact h
  | cons segment rest ih => exact .keep segment ih

theorem filter (segments : List String) :
    Thins segments (segments.filter fun segment => ¬ Blank segment) := by
  induction segments with
  | nil => exact .nil
  | cons segment rest ih =>
    by_cases hblank : Blank segment
    · rw [List.filter_cons_of_neg (by simpa using hblank)]
      exact .drop hblank ih
    · rw [List.filter_cons_of_pos (by simpa using hblank)]
      exact .keep segment ih

theorem blank_of_nil (h : Thins segments []) : ∀ segment ∈ segments, Blank segment := by
  generalize hkept : ([] : List String) = kept at h
  induction h with
  | nil => exact nofun
  | keep segment _ _ => cases hkept
  | drop hblank _ ih => exact List.forall_mem_cons.mpr ⟨hblank, ih hkept⟩

/-- In front of a segment that was kept, only blank ones were left out. -/
theorem exists_of_cons {segment : String} (h : Thins segments (segment :: kept)) :
    ∃ blanks rest, segments = blanks ++ segment :: rest ∧ (∀ b ∈ blanks, Blank b) ∧
      Thins rest kept := by
  generalize hkept : segment :: kept = all at h
  induction h with
  | nil => cases hkept
  | keep first hrest _ =>
    cases hkept
    exact ⟨[], _, rfl, nofun, hrest⟩
  | @drop first others all hblank _ ih =>
    obtain ⟨blanks, rest, rfl, hblanks, hrest⟩ := ih hkept
    exact ⟨first :: blanks, rest, rfl, List.forall_mem_cons.mpr ⟨hblank, hblanks⟩, hrest⟩

end Thins

end Path

/-! ### Blank segments lead nowhere else -/

namespace FileTree

open Monorepo.Path

variable {t : FileTree} {links : Nat} {here found : Location}

/-- A segment that is followed by name is not blank. -/
theorem NamesEntry.not_blank {segment : String} (h : NamesEntry segment) : ¬ Blank segment :=
  fun hblank => hblank.elim h.nonempty h.not_here

/-- Blank segments may be left out. -/
theorem Leads.thin {segments : List String} (h : t.Leads false links here segments found)
    {kept : List String} (hthin : Thins segments kept) : t.Leads false links here kept found := by
  induction h generalizing kept with
  | done links here =>
    cases hthin
    exact .done _ _
  | stay hdirectory hblank _ ih =>
    cases hthin with
    | keep _ hrest => exact .stay hdirectory hblank (ih hrest)
    | drop _ hrest => exact ih hrest
  | above hdirectory _ ih =>
    cases hthin with
    | keep _ hrest => exact .above hdirectory (ih hrest)
    | drop hblank _ => exact absurd hblank (by decide)
  | name hdirectory hname hplain _ ih =>
    cases hthin with
    | keep _ hrest => exact .name hdirectory hname hplain (ih hrest)
    | drop hblank _ => exact absurd hblank hname.not_blank
  | kept _ _ _ hkeep => cases hkeep
  | link hdirectory hname htarget _ _ ih =>
    cases hthin with
    | keep _ hrest =>
      exact .link hdirectory hname htarget (by simp) (ih (hrest.append_left _))
    | drop hblank _ => exact absurd hblank hname.not_blank

theorem Leads.stays {keepLast : Bool} {blanks segments : List String}
    (h : t.Leads keepLast links here segments found)
    (hdirectory : t.entry? here = some .directory) (hblanks : ∀ b ∈ blanks, Blank b) :
    t.Leads keepLast links here (blanks ++ segments) found := by
  induction blanks with
  | nil => exact h
  | cons b rest ih =>
    rw [List.forall_mem_cons] at hblanks
    exact .stay hdirectory hblanks.1 (ih hblanks.2)

/-- Blank segments may be put in where a path leads to a directory. -/
theorem Leads.thicken {kept : List String} (h : t.Leads false links here kept found)
    (hfound : t.entry? found = some .directory) {segments : List String}
    (hthin : Thins segments kept) : t.Leads false links here segments found := by
  induction h generalizing segments with
  | done links here =>
    have hdone : t.Leads false links here [] here := .done links here
    have hall := hdone.stays hfound hthin.blank_of_nil
    rwa [List.append_nil] at hall
  | stay hdirectory hblank _ ih =>
    obtain ⟨blanks, rest, rfl, hblanks, hrest⟩ := hthin.exists_of_cons
    exact (Leads.stay hdirectory hblank (ih hfound hrest)).stays hdirectory hblanks
  | above hdirectory _ ih =>
    obtain ⟨blanks, rest, rfl, hblanks, hrest⟩ := hthin.exists_of_cons
    exact (Leads.above hdirectory (ih hfound hrest)).stays hdirectory hblanks
  | name hdirectory hname hplain _ ih =>
    obtain ⟨blanks, rest, rfl, hblanks, hrest⟩ := hthin.exists_of_cons
    exact (Leads.name hdirectory hname hplain (ih hfound hrest)).stays hdirectory hblanks
  | kept _ _ _ hkeep => cases hkeep
  | link hdirectory hname htarget _ _ ih =>
    obtain ⟨blanks, rest, rfl, hblanks, hrest⟩ := hthin.exists_of_cons
    have hlink := Leads.link hdirectory hname htarget (by simp) (ih hfound (hrest.append_left _))
    exact hlink.stays hdirectory hblanks

theorem Leads.directory_of_cons {keepLast : Bool} {segment : String} {rest : List String}
    (h : t.Leads keepLast links here (segment :: rest) found) :
    t.entry? here = some .directory := by
  cases h with
  | stay hdirectory _ _ => exact hdirectory
  | above hdirectory _ => exact hdirectory
  | name hdirectory _ _ _ => exact hdirectory
  | kept hdirectory _ _ _ => exact hdirectory
  | link hdirectory _ _ _ _ => exact hdirectory

/-- The names of a directory lead there, from the directory that they start in. -/
theorem Leads.through (ht : t.WellFormed) {names more : List String} {keepLast : Bool}
    (hdirectory : t.entry? (here ++ names) = some .directory)
    (h : t.Leads keepLast links (here ++ names) more found) :
    t.Leads keepLast links here (names ++ more) found := by
  induction names generalizing here with
  | nil =>
    rw [List.append_nil] at h
    exact h
  | cons name rest ih =>
    have hhere := ht.above_of_entry (List.cons_ne_nil _ _) hdirectory
    have hname := ht.properName_of_entry hdirectory
    have hsplit : here ++ name :: rest = here ++ [name] ++ rest := by simp
    rw [hsplit] at hdirectory h
    refine .name hhere hname.toNamesEntry (fun target htarget => ?_) (ih hdirectory h)
    by_cases hrest : rest = []
    · rw [hrest, List.append_nil, htarget] at hdirectory
      cases hdirectory
    · rw [ht.above_of_entry hrest hdirectory] at htarget
      cases htarget

end FileTree

/-! ### Texts and segments -/

namespace Path

theorem intercalate_splitSegments (cs : List Char) :
    ['/'].intercalate (splitSegments cs) = cs := by
  induction cs with
  | nil => rfl
  | cons c rest ih =>
    rw [splitSegments]
    split
    · rename_i hslash
      rw [List.intercalate_cons_of_ne_nil (splitSegments_ne_nil rest), ih, hslash]
      rfl
    · split
      · exact absurd ‹_› (splitSegments_ne_nil rest)
      · rename_i segment segments hsplit
        rw [hsplit] at ih
        cases segments with
        | nil =>
          rw [List.intercalate_singleton] at ih ⊢
          rw [ih]
        | cons next others =>
          rw [List.intercalate_cons_cons] at ih ⊢
          rw [← ih]
          rfl

/-- A path is its segments. -/
theorem ofSegments_segments (p : Path) : ofSegments p.segments = p := by
  have htext : "/".intercalate p.segments = p.text := by
    rw [← String.toList_inj, String.toList_intercalate, segments, List.map_map]
    have hinverse : String.toList ∘ String.ofList = id := funext fun _ => String.toList_ofList
    rw [hinverse, List.map_id]
    exact intercalate_splitSegments _
  rw [ofSegments, htext]

theorem splitSegments_intercalate {names : List (List Char)} (hne : names ≠ [])
    (h : ∀ name ∈ names, '/' ∉ name) : splitSegments (['/'].intercalate names) = names := by
  induction names with
  | nil => exact absurd rfl hne
  | cons name rest ih =>
    rw [List.forall_mem_cons] at h
    cases rest with
    | nil =>
      rw [List.intercalate_singleton]
      exact splitSegments_of_notMem h.1
    | cons next others =>
      rw [List.intercalate_cons_cons, List.append_assoc, List.singleton_append,
        splitSegments_append_slash, splitSegments_of_notMem h.1, ih (List.cons_ne_nil _ _) h.2]
      rfl

/-- Segments without a separator are those of their path. -/
theorem segments_ofSegments {segments : List String} (hne : segments ≠ [])
    (h : ∀ segment ∈ segments, '/' ∉ segment.toList) :
    (ofSegments segments).segments = segments := by
  have hsplit : splitSegments (['/'].intercalate (segments.map String.toList)) =
      segments.map String.toList :=
    splitSegments_intercalate (by simpa using hne) (List.forall_mem_map.mpr h)
  have hinverse : String.ofList ∘ String.toList = id := funext fun _ => String.ofList_toList
  have hchars : (ofSegments segments).text.toList =
      ['/'].intercalate (segments.map String.toList) := String.toList_intercalate
  rw [Path.segments, hchars, hsplit, List.map_map, hinverse, List.map_id]

/-- A path from the root has an empty first segment. -/
theorem segments_of_isAbsolute {p : Path} (h : p.isAbsolute = true) :
    ∃ rest, rest ≠ [] ∧ p.segments = "" :: rest := by
  have hhead : p.text.toList.head? = some '/' := of_decide_eq_true h
  obtain ⟨cs, hcs⟩ := List.head?_eq_some_iff.mp hhead
  refine ⟨(splitSegments cs).map String.ofList, ?_, ?_⟩
  · simpa using splitSegments_ne_nil cs
  · rw [segments, hcs, splitSegments, if_pos rfl]
    rfl

/-- Any other path has not, unless it is empty. -/
theorem segments_of_not_isAbsolute {p : Path} (h : p.isAbsolute = false) (htext : p.text ≠ "") :
    ∃ first rest, first ≠ "" ∧ p.segments = first :: rest := by
  have hchars : p.text.toList ≠ [] := by simpa using htext
  obtain ⟨c, cs, hcs⟩ := List.exists_cons_of_ne_nil hchars
  have hslash : c ≠ '/' := by
    rintro rfl
    rw [isAbsolute, hcs] at h
    simp at h
  rw [segments, hcs, splitSegments, if_neg hslash]
  split
  · exact ⟨_, _, by simp, rfl⟩
  · exact ⟨_, _, by simp, rfl⟩

/-- Segments that are names as far as their characters are concerned. -/
def TextOfNames (segments : List String) : Prop :=
  ∀ segment ∈ segments, '/' ∉ segment.toList ∧ '\x00' ∉ segment.toList

/-- The segments of a path hold no separator, and no character that the path does not. -/
theorem textOfNames_segments {p : Path} (hzero : '\x00' ∉ p.text.toList) :
    TextOfNames p.segments := by
  have hall : ∀ cs : List Char, '\x00' ∉ cs → ∀ segment ∈ splitSegments cs,
      '/' ∉ segment ∧ '\x00' ∉ segment := by
    intro cs hcs
    induction cs with
    | nil => simp [splitSegments]
    | cons c rest ih =>
      rw [List.mem_cons, not_or] at hcs
      have hrest := ih hcs.2
      rw [splitSegments]
      split
      · exact List.forall_mem_cons.mpr ⟨by simp, hrest⟩
      · rename_i hslash
        split
        · exact absurd ‹_› (splitSegments_ne_nil rest)
        · rename_i segment segments hsplit
          rw [hsplit, List.forall_mem_cons] at hrest
          refine List.forall_mem_cons.mpr ⟨⟨?_, ?_⟩, hrest.2⟩
          · rw [List.mem_cons, not_or]
            exact ⟨fun h => hslash h.symm, hrest.1.1⟩
          · rw [List.mem_cons, not_or]
            exact ⟨hcs.1, hrest.1.2⟩
  intro segment hsegment
  obtain ⟨chars, hchars, rfl⟩ := List.mem_map.mp hsegment
  rw [String.toList_ofList]
  exact hall _ hzero chars hchars

/-! ### Components -/

theorem ofSegment?_eq (segment : String) :
    Component.ofSegment? segment =
      if Blank segment then none
      else some (if segment = ".." then .parent else .name segment) := by
  rw [Component.ofSegment?]
  by_cases hempty : segment = ""
  · simp [hempty, Blank]
  · by_cases hdot : segment = "."
    · simp [hdot, Blank]
    · by_cases hdots : segment = ".."
      · simp [hdots, Blank]
      · simp [hempty, hdot, hdots, Blank]

/-- Blank segments stand for no component, the others for one of the same text. -/
theorem map_text_filterMap (segments : List String) :
    ((segments.filterMap Component.ofSegment?).filter (· ≠ .current)).map Component.text =
      segments.filter fun segment => ¬ Blank segment := by
  induction segments with
  | nil => rfl
  | cons segment rest ih =>
    rw [List.filterMap_cons, ofSegment?_eq]
    by_cases hblank : Blank segment
    · rw [if_pos hblank, List.filter_cons_of_neg (by simpa using hblank)]
      exact ih
    · have hkept : (segment :: rest).filter (fun segment => ¬ Blank segment) =
          segment :: rest.filter fun segment => ¬ Blank segment :=
        List.filter_cons_of_pos (by simpa using hblank)
      rw [if_neg hblank, hkept, ← ih]
      by_cases hdots : segment = ".."
      · simp [hdots, Component.text]
      · simp [hdots, Component.text]

/-- The steps of a path from the root are those of its names, behind the one to the root. -/
theorem steps_of_isAbsolute {p : Path} (h : p.isAbsolute = true) :
    ∃ steps, p.components.filter (· ≠ .current) = .root :: steps ∧
      steps.map Component.text = p.names := by
  obtain ⟨rest, hne, hsegments⟩ := segments_of_isAbsolute h
  refine ⟨(rest.filterMap Component.ofSegment?).filter (· ≠ .current), ?_, ?_⟩
  · rw [components, hsegments, componentsOfSegments, if_pos rfl, if_neg (by simpa using hne)]
    rfl
  · rw [map_text_filterMap, names, hsegments, List.filter_cons_of_neg (by simp [Blank])]

theorem steps_of_not_isAbsolute {p : Path} (h : p.isAbsolute = false) (htext : p.text ≠ "") :
    (p.components.filter (· ≠ .current)).map Component.text = p.names := by
  obtain ⟨first, rest, hne, hsegments⟩ := segments_of_not_isAbsolute h htext
  rw [names, hsegments, ← map_text_filterMap, components, hsegments, componentsOfSegments,
    if_neg hne]
  by_cases hdot : first = "."
  · rw [if_pos hdot, List.filterMap_cons, ofSegment?_eq, if_pos (.inr hdot)]
    rfl
  · rw [if_neg hdot, List.filterMap_cons]
    cases Component.ofSegment? first with
    | none => rfl
    | some c => rfl

/-! ### Joined names -/

/-- The names of a joined path are those of the directory and the name. -/
theorem names_join {dir : Path} (hdir : dir.text ≠ "") {name : String} (hname : '/' ∉ name.toList)
    (hblank : ¬ Blank name) : (dir.join ⟨name⟩).names = dir.names ++ [name] := by
  obtain ⟨stem, hjoin, hstem⟩ := segments_join hdir hname
  have hlast : [name].filter (fun segment => ¬ Blank segment) = [name] :=
    List.filter_cons_of_pos (by simpa using hblank)
  rw [names, hjoin, List.filter_append, hlast, names]
  rcases hstem with hstem | hstem
  · rw [hstem]
  · rw [hstem, List.filter_append]
    simp [Blank]

/-- Joining a blank segment adds no name. -/
theorem names_join_blank {dir : Path} (hdir : dir.text ≠ "") {segment : String}
    (hsegment : '/' ∉ segment.toList) (hblank : Blank segment) :
    (dir.join ⟨segment⟩).names = dir.names := by
  obtain ⟨stem, hjoin, hstem⟩ := segments_join hdir hsegment
  have hlast : [segment].filter (fun segment => ¬ Blank segment) = [] :=
    List.filter_cons_of_neg (by simpa using hblank)
  rw [names, hjoin, List.filter_append, hlast, List.append_nil, names]
  rcases hstem with hstem | hstem
  · rw [hstem]
  · rw [hstem, List.filter_append]
    simp [Blank]

theorem text_join_ne_empty {dir : Path} (hdir : dir.text ≠ "") (p : Path) :
    (dir.join p).text ≠ "" := by
  rw [join]
  split
  · rename_i habsolute
    intro hempty
    simp [isAbsolute, hempty] at habsolute
  · split <;> simp [hdir]

theorem text_descend_ne_empty {dir : Path} (hdir : dir.text ≠ "") (names : List String) :
    (dir.descend names).text ≠ "" := by
  induction names generalizing dir with
  | nil => exact hdir
  | cons name rest ih => exact ih (text_join_ne_empty hdir ⟨name⟩)

/-- No slash stands behind a joined name. -/
theorem endsInSlash_join {dir : Path} (hdir : dir.text ≠ "") {name : String}
    (hname : '/' ∉ name.toList) (hne : name ≠ "") : (dir.join ⟨name⟩).endsInSlash = false := by
  have hchars : name.toList ≠ [] := by simpa using hne
  have hlast : ∀ before : String, endsInSlash ⟨before ++ name⟩ = false := by
    intro before
    apply decide_eq_false
    rw [String.toList_append, List.getLast?_append_of_ne_nil _ hchars]
    intro hslash
    exact hname (List.mem_of_getLast? hslash)
  rw [join_name hdir hname]
  split
  · exact hlast _
  · exact hlast _

theorem descend_append (dir : Path) (names more : List String) :
    dir.descend (names ++ more) = (dir.descend names).descend more :=
  List.foldl_append

theorem utf8ByteSize_le_descend {dir : Path} (hdir : dir.text ≠ "") {names : List String}
    (hnames : ∀ name ∈ names, '/' ∉ name.toList) :
    dir.text.utf8ByteSize ≤ (dir.descend names).text.utf8ByteSize := by
  induction names generalizing dir with
  | nil => exact Nat.le_refl _
  | cons name rest ih =>
    rw [List.forall_mem_cons] at hnames
    have hjoin := le_utf8ByteSize_join hdir hnames.1
    have hrest := ih (text_join_ne_empty hdir ⟨name⟩) hnames.2
    show dir.text.utf8ByteSize ≤ ((dir.join ⟨name⟩).descend rest).text.utf8ByteSize
    omega

/-- What a path is like that names are joined to, one after the other. -/
theorem descend_spec {dir : Path} (hdir : dir.text ≠ "") {more : List String}
    (hmore : ∀ name ∈ more, ('/' ∉ name.toList ∧ '\x00' ∉ name.toList) ∧ ¬ Blank name) :
    (dir.descend more).text ≠ "" ∧ (dir.descend more).names = dir.names ++ more ∧
      (dir.descend more).isAbsolute = dir.isAbsolute ∧
      ('\x00' ∉ dir.text.toList → '\x00' ∉ (dir.descend more).text.toList) := by
  induction more generalizing dir with
  | nil =>
    rw [List.append_nil]
    exact ⟨hdir, rfl, rfl, id⟩
  | cons name rest ih =>
    rw [List.forall_mem_cons] at hmore
    obtain ⟨⟨hslash, hzero⟩, hblank⟩ := hmore.1
    obtain ⟨htext, hnames, habsolute, hzeros⟩ := ih (text_join_ne_empty hdir ⟨name⟩) hmore.2
    refine ⟨htext, ?_, ?_, fun hdirZero => hzeros ?_⟩
    · show ((dir.join ⟨name⟩).descend rest).names = _
      rw [hnames, names_join hdir hslash hblank, List.append_assoc]
      rfl
    · show ((dir.join ⟨name⟩).descend rest).isAbsolute = _
      rw [habsolute, isAbsolute_join hdir hslash]
    · rw [join_name hdir hslash]
      split <;> simp [hdirZero, hzero]

/-- **Joining a name adds a component.** -/
theorem components_join {dir : Path} (hdir : dir.text ≠ "") {name : String}
    (hname : FileTree.ProperName name) :
    (dir.join ⟨name⟩).components = dir.components ++ [.name name] := by
  obtain ⟨stem, hjoin, hstem⟩ := segments_join hdir hname.no_slash
  have hlast : [name].filterMap Component.ofSegment? = [.name name] := by
    have hsome : Component.ofSegment? name = some (.name name) := by
      rw [ofSegment?_eq, if_neg hname.toNamesEntry.not_blank, if_neg hname.not_above]
    rw [List.filterMap_cons_some hsome]
    rfl
  cases stem with
  | nil =>
    rw [List.nil_append] at hstem
    rcases hstem with hnil | hblank
    · exact absurd (by simpa [segments] using hnil) (splitSegments_ne_nil dir.text.toList)
    · have htext := ofSegments_segments dir
      rw [hblank] at htext
      exact absurd (congrArg Path.text htext.symm) hdir
  | cons first rest =>
    rw [components, hjoin, List.cons_append, componentsOfSegments, List.filterMap_append, hlast,
      ← List.append_assoc, if_neg (by simp : ¬ (rest ++ [name]).isEmpty = true)]
    congr 1
    rcases hstem with hsame | hslash
    · have hrest : first = "" → rest ≠ [] := by
        rintro rfl rfl
        have htext := ofSegments_segments dir
        rw [hsame] at htext
        exact hdir (congrArg Path.text htext.symm)
      rw [components, hsame, componentsOfSegments]
      by_cases hfirst : first = ""
      · rw [if_pos hfirst, if_pos hfirst, if_neg (by simpa using hrest hfirst)]
      · rw [if_neg hfirst, if_neg hfirst]
    · have hblank : [""].filterMap Component.ofSegment? = [] := rfl
      rw [components, hslash, List.cons_append, componentsOfSegments, List.filterMap_append, hblank,
        List.append_nil, if_neg (by simp : ¬ (rest ++ [""]).isEmpty = true)]

theorem components_descend {dir : Path} (hdir : dir.text ≠ "") {names : List String}
    (hnames : ∀ name ∈ names, FileTree.ProperName name) :
    (dir.descend names).components = dir.components ++ names.map .name := by
  induction names generalizing dir with
  | nil => exact (List.append_nil _).symm
  | cons name rest ih =>
    rw [List.forall_mem_cons] at hnames
    have hnext := ih (text_join_ne_empty hdir ⟨name⟩) hnames.2
    rw [components_join hdir hnames.1, List.append_assoc] at hnext
    exact hnext

/-- A joined name is what the path ends in. -/
theorem fileName?_join {dir : Path} (hdir : dir.text ≠ "") {name : String}
    (hname : FileTree.ProperName name) : (dir.join ⟨name⟩).fileName? = some name := by
  rw [fileName?, components_join hdir hname, List.getLast?_append]
  rfl

/-- The name alone is a path that ends in it. -/
theorem fileName?_name {name : String} (hname : FileTree.ProperName name) :
    fileName? ⟨name⟩ = some name := by
  have hsegments : segments ⟨name⟩ = [name] := by
    rw [segments, splitSegments_of_notMem hname.no_slash, List.map_singleton,
      String.ofList_toList]
  rw [fileName?, components, hsegments, componentsOfSegments, if_neg hname.nonempty,
    if_neg hname.not_here, ofSegment?_eq, if_neg hname.toNamesEntry.not_blank,
    if_neg hname.not_above]
  rfl

theorem extension?_congr {p q : Path} (h : p.fileName? = q.fileName?) :
    p.extension? = q.extension? := by
  rw [extension?, extension?, h]

end Path

/-- The format of a file is that of its name, whatever directory it is in. -/
theorem FileFormat.ofPath?_join (dir : Path) {name : String} (hname : FileTree.ProperName name) :
    ofPath? (dir.join ⟨name⟩) = ofPath? ⟨name⟩ := by
  by_cases hdir : dir.text = ""
  · have hjoin : dir.join ⟨name⟩ = ⟨name⟩ := by
      rw [Path.join, Path.isAbsolute_name hname.no_slash]
      simp [hdir]
    rw [hjoin]
  · have hsame := (Path.fileName?_join hdir hname).trans (Path.fileName?_name hname).symm
    rw [ofPath?, ofPath?, Path.extension?_congr hsame]

theorem FileFormat.ofPath_join (dir : Path) {name : String} (hname : FileTree.ProperName name) :
    ofPath (dir.join ⟨name⟩) = ofPath ⟨name⟩ := by
  rw [ofPath, ofPath, ofPath?_join dir hname]

/-! ### Absolute paths -/

namespace Disk

open FileTree

variable {d : Disk} {p a base : Path} {top : Location}

theorem names_pathOf {location : Location} (h : ∀ name ∈ location, ProperName name) :
    (pathOf location).names = location := by
  cases location with
  | nil => rfl
  | cons first rest =>
    have hpath : pathOf (first :: rest) = Path.ofSegments ("" :: first :: rest) := by
      rw [pathOf, Path.ofSegments, String.intercalate_cons_cons, String.empty_append]
    have hslash : ∀ segment ∈ "" :: first :: rest, '/' ∉ segment.toList :=
      List.forall_mem_cons.mpr ⟨by decide, fun name hname => (h name hname).no_slash⟩
    rw [hpath, Path.names, Path.segments_ofSegments (List.cons_ne_nil _ _) hslash,
      List.filter_cons_of_neg (by decide), List.filter_eq_self]
    exact fun name hname => by simpa using (h name hname).toNamesEntry.not_blank

theorem zero_notMem_pathOf {location : Location} (h : ∀ name ∈ location, ProperName name) :
    '\x00' ∉ (pathOf location).text.toList := by
  have hjoined : ∀ names : List (List Char), (∀ name ∈ names, '\x00' ∉ name) →
      '\x00' ∉ ['/'].intercalate names := by
    intro names hnames
    induction names with
    | nil => simp
    | cons name rest ih =>
      rw [List.forall_mem_cons] at hnames
      cases rest with
      | nil =>
        rw [List.intercalate_singleton]
        exact hnames.1
      | cons next others =>
        have hothers := ih hnames.2
        rw [List.intercalate_cons_cons]
        simp [hnames.1, hothers]
  have hnames : '\x00' ∉ ['/'].intercalate (location.map String.toList) :=
    hjoined _ (List.forall_mem_map.mpr fun name hname => (h name hname).no_zero)
  rw [pathOf, String.toList_append, String.toList_intercalate]
  simpa using hnames

theorem exists_absolute (hp : p.text ≠ "") : ∃ a, d.absolute p = .ok a := by
  rw [absolute, Path.absolute?, if_neg hp]
  exact ⟨_, rfl⟩

/-- The absolute form of a path: its names, joined to the root or to the working directory.  A slash
behind them is kept. -/
theorem exists_of_absolute (h : d.absolute p = .ok a) :
    ∃ base : Path,
      a = (if p.endsInSlash then (base.descend p.names).join ⟨""⟩ else base.descend p.names) ∧
        if p.isAbsolute then base = ⟨"/"⟩ ∨ base = ⟨"//"⟩ else base = d.workingPath := by
  rw [absolute] at h
  split at h
  · rename_i path hpath
    cases h
    rw [Path.absolute?] at hpath
    split at hpath
    · cases hpath
    · rename_i htext
      cases habsolute : p.isAbsolute with
      | true =>
        obtain ⟨steps, hsteps, hnames⟩ := Path.steps_of_isAbsolute habsolute
        by_cases hdouble : (p.text.startsWith "//" && !p.text.startsWith "///") = true
        · simp only [habsolute, hsteps, hdouble, if_true] at hpath
          refine ⟨⟨"//"⟩, ?_, .inr rfl⟩
          rw [← hnames, Path.descend, List.foldl_map]
          exact (Option.some.inj hpath).symm
        · simp only [habsolute, hsteps, hdouble, if_true, if_false, Bool.false_eq_true] at hpath
          refine ⟨⟨"/"⟩, ?_, .inl rfl⟩
          rw [← hnames, Path.descend, List.foldl_map]
          exact (Option.some.inj hpath).symm
      | false =>
        have hnames := Path.steps_of_not_isAbsolute habsolute htext
        simp only [habsolute, if_false, Bool.false_eq_true] at hpath
        refine ⟨d.workingPath, ?_, rfl⟩
        rw [← hnames, Path.descend, List.foldl_map]
        exact (Option.some.inj hpath).symm
  · cases h

/-- The names of the absolute form of a path are the path's own, behind those that lead to where it
starts. -/
theorem absolute_spec (hbase : base.text ≠ "") (hroot : base.isAbsolute = true)
    (hzero : '\x00' ∉ base.text.toList)
    (hnames : ∀ name ∈ p.names,
      ('/' ∉ name.toList ∧ '\x00' ∉ name.toList) ∧ ¬ Path.Blank name)
    (ha : a = if p.endsInSlash then (base.descend p.names).join ⟨""⟩ else base.descend p.names) :
    a.text ≠ "" ∧ a.names = base.names ++ p.names ∧ a.isAbsolute = true ∧
      '\x00' ∉ a.text.toList := by
  obtain ⟨htext, hdescend, habsolute, hzeros⟩ := Path.descend_spec hbase hnames
  split at ha
  · subst ha
    have hslash : '/' ∉ "".toList := by decide
    refine ⟨Path.text_join_ne_empty htext _, ?_, ?_, ?_⟩
    · rw [Path.names_join_blank htext hslash (.inl rfl), hdescend]
    · rw [Path.isAbsolute_join htext hslash, habsolute, hroot]
    · rw [Path.join_name htext hslash]
      split <;> simp [hzeros hzero]
  · subst ha
    exact ⟨htext, hdescend, habsolute.trans hroot, hzeros hzero⟩

/-- **The absolute form of a path to a directory leads there from the root.**  It is a proper path,
but for its length. -/
theorem leads_of_absolute (ht : d.tree.WellFormed) (h : d.find p = .ok (top, .directory))
    (habsolute : d.absolute p = .ok a) :
    a.text ≠ "" ∧ a.names = d.startOf p ++ p.names ∧ a.isAbsolute = true ∧
      '\x00' ∉ a.text.toList ∧ d.tree.Leads false linkLimit [] a.names top := by
  obtain ⟨hcheck, hleads⟩ := locate_eq_ok.mp (find_eq_ok.mp h).1
  obtain ⟨hzero, htext, -⟩ := checkText_eq_ok.mp hcheck
  have hthin : d.tree.Leads false linkLimit (d.startOf p) p.names top :=
    hleads.thin (Path.Thins.filter _)
  have hnames : ∀ name ∈ p.names,
      ('/' ∉ name.toList ∧ '\x00' ∉ name.toList) ∧ ¬ Path.Blank name := by
    intro name hname
    obtain ⟨hsegment, hblank⟩ := Path.mem_names.mp hname
    exact ⟨Path.textOfNames_segments hzero name hsegment, hblank⟩
  obtain ⟨base, ha, hcase⟩ := exists_of_absolute habsolute
  suffices hbase : base.text ≠ "" ∧ base.isAbsolute = true ∧ '\x00' ∉ base.text.toList ∧
      base.names = d.startOf p ∧ d.tree.Leads false linkLimit [] (d.startOf p ++ p.names) top by
    obtain ⟨hbaseText, hbaseRoot, hbaseZero, hbaseNames, hbaseLeads⟩ := hbase
    obtain ⟨haText, haNames, haRoot, haZero⟩ :=
      absolute_spec hbaseText hbaseRoot hbaseZero hnames ha
    rw [hbaseNames] at haNames
    exact ⟨haText, haNames, haRoot, haZero, haNames ▸ hbaseLeads⟩
  cases hroot : p.isAbsolute with
  | true =>
    have hstart : d.startOf p = [] := if_pos hroot
    rw [if_pos hroot] at hcase
    rw [hstart] at hthin ⊢
    rcases hcase with rfl | rfl
    · exact ⟨by decide, by decide, by decide, by decide, hthin⟩
    · exact ⟨by decide, by decide, by decide, by decide, hthin⟩
  | false =>
    have hstart : d.startOf p = d.workingDir := if_neg (by simp [hroot])
    rw [if_neg (by simp [hroot])] at hcase
    rw [hstart] at hleads hthin ⊢
    have hworking : d.tree.entry? d.workingDir = some .directory := by
      obtain ⟨first, rest, -, hsegments⟩ := Path.segments_of_not_isAbsolute hroot htext
      rw [hsegments] at hleads
      exact hleads.directory_of_cons
    rw [← List.nil_append d.workingDir] at hworking hthin
    have hproper := ht.properNames_of_entry hworking
    subst hcase
    refine ⟨by simp [workingPath, pathOf], by simp [workingPath, pathOf, Path.isAbsolute],
      zero_notMem_pathOf hproper, names_pathOf hproper, ?_⟩
    exact .through ht hworking hthin

/-- **Spellings of one path lead to the same directory.**  They have the same names, and start in
the same place. -/
theorem find_of_names {q : Path} (h : d.find p = .ok (top, .directory))
    (hcheck : checkText q = .ok ()) (hroot : q.isAbsolute = p.isAbsolute)
    (hnames : q.names = p.names) :
    d.find q = .ok (top, .directory) := by
  obtain ⟨hlocate, hdirectory⟩ := find_eq_ok.mp h
  have hleads : d.tree.Leads false linkLimit (d.startOf p) p.names top :=
    (locate_eq_ok.mp hlocate).2.thin (Path.Thins.filter _)
  have hstart : d.startOf q = d.startOf p := by
    rw [startOf, startOf, hroot]
  rw [← hnames, ← hstart] at hleads
  exact find_eq_ok.mpr ⟨locate_eq_ok.mpr ⟨hcheck, hleads.thicken hdirectory (Path.Thins.filter _)⟩,
    hdirectory⟩

/-- **The absolute form of a path to a directory leads to the same directory.** -/
theorem find_absolute (ht : d.tree.WellFormed) (h : d.find p = .ok (top, .directory))
    (habsolute : d.absolute p = .ok a) (hshort : a.text.utf8ByteSize < pathLimit) :
    d.find a = .ok (top, .directory) := by
  have hdirectory := (find_eq_ok.mp h).2
  obtain ⟨haText, -, haRoot, haZero, haLeads⟩ := leads_of_absolute ht h habsolute
  refine find_eq_ok.mpr ⟨locate_eq_ok.mpr ⟨?_, ?_⟩, hdirectory⟩
  · exact checkText_eq_ok.mpr ⟨haZero, haText, hshort⟩
  · rw [startOf, if_pos haRoot]
    exact haLeads.thicken hdirectory (Path.Thins.filter _)

end Disk

end Monorepo
