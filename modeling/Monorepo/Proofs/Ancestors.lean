import Mathlib.Data.List.Infix
import Monorepo.Disk.Search
import Monorepo.Proofs.Spelling
import Monorepo.Proofs.Stopping

/-!
# Searching upwards

A search upwards takes the last component off the absolute form of its path, again and again.  The
paths it comes to are the prefixes of the path's names, longest first, and where no links are these
lead to where the names do when they are taken one by one:

* `Path.parent?_spec` — the path without its last component has all names but the last;
* `Path.ancestors_spec` — the paths that contain a path;
* `FileTree.via` — where names lead if no link is on the way, and `FileTree.Leads.of_prefix`, that
  each prefix of names that lead to a directory leads to one;
* `Disk.FindsFirst` — what a search in directories in turn gives;
* `Disk.findUp_via_names` — the directories that a search upwards looks in.

Only the names decide.  With `..` among them the search comes to directories that do not contain the
one it starts from, and finds what is there: `Disk.not_findsFirst_behind_parent`.
-/

namespace Monorepo

/-! ### The path without its last component -/

namespace Path

variable {p q : Path} {first last : String} {kept blanks : List String}

/-- Segments are some that end in a step, if there is one, and blank ones behind them. -/
theorem exists_trimmed (segments : List String) :
    ∃ kept blanks, segments = kept ++ blanks ∧ (∀ b ∈ blanks, Blank b) ∧
      ∀ last ∈ kept.getLast?, ¬ Blank last := by
  induction segments using List.reverseRecOn with
  | nil => exact ⟨[], [], rfl, nofun, nofun⟩
  | append_singleton before last ih =>
    by_cases hblank : Blank last
    · obtain ⟨kept, blanks, rfl, hblanks, hkept⟩ := ih
      refine ⟨kept, blanks ++ [last], List.append_assoc _ _ _, fun b hb => ?_, hkept⟩
      rcases List.mem_append.mp hb with hb | hb
      · exact hblanks b hb
      · rw [List.mem_singleton.mp hb]
        exact hblank
    · refine ⟨before ++ [last], [], (List.append_nil _).symm, nofun, fun segment hsegment => ?_⟩
      rw [List.getLast?_concat, Option.mem_some_iff] at hsegment
      rw [← hsegment]
      exact hblank

theorem trimReversed_cons (segment : String) {rest : List String} (hrest : rest ≠ []) :
    trimReversed (segment :: rest) =
      if Blank segment then trimReversed rest else segment :: rest := by
  cases rest with
  | nil => exact absurd rfl hrest
  | cons next others =>
    simp only [trimReversed, ofSegment?_eq]
    by_cases hblank : Blank segment
    · simp [hblank]
    · simp [hblank]

/-- **What is trimmed from the end** are the blank segments behind the last step. -/
theorem trimReversed_reverse (hblanks : ∀ b ∈ blanks, Blank b)
    (hkept : ∀ last ∈ kept.getLast?, ¬ Blank last) :
    trimReversed (first :: (kept ++ blanks)).reverse = (first :: kept).reverse := by
  induction blanks using List.reverseRecOn with
  | nil =>
    rw [List.append_nil]
    cases kept using List.reverseRecOn with
    | nil => rfl
    | append_singleton before last =>
      rw [← List.cons_append, List.reverse_concat, trimReversed_cons _ (by simp),
        if_neg (hkept last (by simp))]
  | append_singleton before b ih =>
    rw [← List.append_assoc, ← List.cons_append, List.reverse_concat, trimReversed_cons _ (by simp),
      if_pos (hblanks b (by simp))]
    exact ih fun b hb => hblanks b (List.mem_append_left _ hb)

theorem filter_append_blanks (hblanks : ∀ b ∈ blanks, Blank b) (kept : List String) :
    (kept ++ blanks).filter (fun segment => ¬ Blank segment) =
      kept.filter fun segment => ¬ Blank segment := by
  have hnone : blanks.filter (fun segment => ¬ Blank segment) = [] := by
    rw [List.filter_eq_nil_iff]
    exact fun b hb => by simpa using hblanks b hb
  rw [List.filter_append, hnone, List.append_nil]

/-- The path in front of the last step. -/
theorem parent?_of_segments {blanks' : List String}
    (hsegments : p.segments = "" :: ((kept ++ blanks) ++ [last] ++ blanks'))
    (hkept : ∀ last ∈ kept.getLast?, ¬ Blank last) (hblanks : ∀ b ∈ blanks, Blank b)
    (hlast : ¬ Blank last) (hblanks' : ∀ b ∈ blanks', Blank b) :
    p.parent? = some (if kept = [] then ⟨"/"⟩ else ofSegments ("" :: kept)) := by
  have hend : ∀ segment ∈ (kept ++ blanks ++ [last]).getLast?, ¬ Blank segment := by
    intro segment hsegment
    rw [List.getLast?_concat, Option.mem_some_iff] at hsegment
    rwa [← hsegment]
  have htrim : trimReversed p.segments.reverse = last :: ("" :: (kept ++ blanks)).reverse := by
    rw [hsegments, trimReversed_reverse hblanks' hend, ← List.cons_append, List.reverse_concat]
  have hbefore : ("" :: (kept ++ blanks)).reverse ≠ [] := by simp
  rw [parent?, htrim]
  split
  · rename_i heq
    cases heq
  · rename_i heq
    exact absurd (List.cons.inj heq).2 hbefore
  · rename_i heq
    obtain ⟨rfl, rfl⟩ := List.cons.inj heq
    rw [trimReversed_reverse hblanks hkept]
    split
    · rename_i hroot
      have hnil : kept = [] := by simpa using hroot
      rw [if_pos hnil]
    · rename_i hroot
      have hne : kept ≠ [] := fun hnil => hroot (by rw [hnil]; rfl)
      rw [if_neg hne, List.reverse_reverse]

/-- **The path without its last component** is the path with all names but the last, from the root.
The root has none. -/
theorem parent?_spec (habsolute : p.isAbsolute = true) (hzero : '\x00' ∉ p.text.toList) :
    (p.parent? = none ∧ p.names = []) ∨
      ∃ q last rest, p.parent? = some q ∧ p.names = q.names ++ [last] ∧ q.isAbsolute = true ∧
        p.text = q.text ++ rest := by
  obtain ⟨rest, -, hsegments⟩ := segments_of_isAbsolute habsolute
  obtain ⟨steps, blanks', rfl, hblanks', hsteps⟩ := exists_trimmed rest
  have hnames : p.names = steps.filter fun segment => ¬ Blank segment := by
    rw [names, hsegments, List.filter_cons_of_neg (by decide), filter_append_blanks hblanks']
  cases steps using List.reverseRecOn with
  | nil =>
    refine .inl ⟨?_, hnames⟩
    rw [parent?, hsegments, trimReversed_reverse hblanks' hsteps]
    rfl
  | append_singleton before last =>
    have hlast : ¬ Blank last := hsteps last (by simp)
    obtain ⟨kept, blanks, rfl, hblanks, hkept⟩ := exists_trimmed before
    have hparent := parent?_of_segments hsegments hkept hblanks hlast hblanks'
    rw [List.filter_append, filter_append_blanks hblanks,
      List.filter_cons_of_pos (by simpa using hlast)] at hnames
    have htext : p.text =
        "/".intercalate ("" :: kept) ++ ("/" ++ "/".intercalate (blanks ++ [last] ++ blanks')) := by
      have hsplit : p.segments = ("" :: kept) ++ (blanks ++ [last] ++ blanks') := by
        rw [hsegments]
        simp
      rw [← congrArg Path.text (ofSegments_segments p), hsplit, ofSegments,
        String.intercalate_append_of_ne_nil (List.cons_ne_nil _ _) (by simp), String.append_assoc]
    by_cases hempty : kept = []
    · subst hempty
      exact .inr ⟨⟨"/"⟩, last, _, hparent, hnames, by decide, htext⟩
    · rw [if_neg hempty] at hparent
      have hslash : ∀ segment ∈ "" :: kept, '/' ∉ segment.toList := by
        intro segment hsegment
        refine (textOfNames_segments hzero segment ?_).1
        rw [hsegments, List.append_assoc, List.append_assoc, ← List.cons_append]
        exact List.mem_append_left _ hsegment
      have hkeptSegments := segments_ofSegments (List.cons_ne_nil "" kept) hslash
      refine .inr ⟨_, last, _, hparent, ?_, ?_, htext⟩
      · rw [hnames, names, hkeptSegments, List.filter_cons_of_neg (by decide)]
        rfl
      · obtain ⟨next, others, rfl⟩ := List.exists_cons_of_ne_nil hempty
        rw [isAbsolute, ofSegments, String.intercalate_cons_cons]
        simp

/-! ### The paths that contain a path -/

theorem length_splitSegments_le (cs : List Char) : (splitSegments cs).length ≤ cs.length + 1 := by
  induction cs with
  | nil => simp [splitSegments]
  | cons c rest ih =>
    rw [splitSegments]
    split
    · simpa using ih
    · split
      · simp
      · rename_i segment segments hsplit
        rw [hsplit] at ih
        simp only [List.length_cons] at ih ⊢
        omega

/-- A path from the root has no more names than characters. -/
theorem length_names_le (habsolute : p.isAbsolute = true) : p.names.length ≤ p.text.length := by
  obtain ⟨rest, -, hsegments⟩ := segments_of_isAbsolute habsolute
  have hlength : p.segments.length ≤ p.text.length + 1 := by
    rw [Path.segments, List.length_map, ← String.length_toList]
    exact length_splitSegments_le _
  have hnames : p.names.length ≤ rest.length := by
    rw [names, hsegments, List.filter_cons_of_neg (by decide)]
    exact List.length_filter_le _ _
  rw [hsegments, List.length_cons] at hlength
  omega

/-- A path from the root that another one starts with. -/
structure Leading (p q : Path) : Prop where
  isAbsolute : q.isAbsolute = true
  text : ∃ rest, p.text = q.text ++ rest

theorem Leading.trans {q' : Path} (h : Leading p q) (h' : Leading q q') : Leading p q' := by
  obtain ⟨rest, hrest⟩ := h.text
  obtain ⟨rest', hrest'⟩ := h'.text
  exact ⟨h'.isAbsolute, rest' ++ rest, by rw [hrest, hrest', String.append_assoc]⟩

theorem Leading.no_zero (h : Leading p q) (hzero : '\x00' ∉ p.text.toList) :
    '\x00' ∉ q.text.toList := by
  obtain ⟨rest, hrest⟩ := h.text
  rw [hrest, String.toList_append, List.mem_append, not_or] at hzero
  exact hzero.1

theorem Leading.text_ne_empty (h : Leading p q) : q.text ≠ "" := by
  intro hempty
  have hroot := h.isAbsolute
  rw [Path.isAbsolute, hempty] at hroot
  exact absurd hroot (by decide)

/-- With the same name joined to them, the path is not the shorter of the two. -/
theorem Leading.utf8ByteSize_join_le (h : Leading p q) (hp : p.text ≠ "") {name : String}
    (hname : '/' ∉ name.toList) :
    (q.join ⟨name⟩).text.utf8ByteSize ≤ (p.join ⟨name⟩).text.utf8ByteSize := by
  obtain ⟨rest, hrest⟩ := h.text
  by_cases hsame : rest = ""
  · have hpq : q = p := by
      rw [hsame, String.append_empty] at hrest
      exact congrArg Path.mk hrest.symm
    rw [hpq]
  · have hpos : 0 < rest.utf8ByteSize := by
      rw [Nat.pos_iff_ne_zero, Ne, String.utf8ByteSize_eq_zero_iff]
      exact hsame
    have hq := Path.utf8ByteSize_join_le h.text_ne_empty hname
    have hjoin := le_utf8ByteSize_join hp hname
    rw [hrest, String.utf8ByteSize_append] at hjoin
    omega

/-- **The paths that contain a path** have the prefixes of its names, longest first. -/
theorem ancestorsWithin_spec {steps : Nat} (habsolute : p.isAbsolute = true)
    (hzero : '\x00' ∉ p.text.toList) (hsteps : p.names.length ≤ steps) :
    (ancestorsWithin steps p).map names = p.names.inits.reverse ∧
      ∀ q ∈ ancestorsWithin steps p, Leading p q := by
  have hself : Leading p p := ⟨habsolute, "", String.append_empty.symm⟩
  induction steps generalizing p with
  | zero =>
    have hempty : p.names = [] := List.length_eq_zero_iff.mp (Nat.le_zero.mp hsteps)
    rw [ancestorsWithin, List.map_singleton, hempty]
    exact ⟨rfl, by simpa using hself⟩
  | succ steps ih =>
    rw [ancestorsWithin]
    rcases parent?_spec habsolute hzero with
      ⟨hparent, hempty⟩ | ⟨q, last, rest, hparent, hnames, hq, htext⟩
    · rw [hparent, List.map_singleton, hempty]
      exact ⟨rfl, by simpa using hself⟩
    · have hlead : Leading p q := ⟨hq, rest, htext⟩
      have hfewer : q.names.length ≤ steps := by
        rw [hnames, List.length_append, List.length_singleton] at hsteps
        omega
      obtain ⟨hmap, hall⟩ := ih hq (hlead.no_zero hzero) hfewer ⟨hq, "", String.append_empty.symm⟩
      rw [hparent]
      refine ⟨?_, List.forall_mem_cons.mpr ⟨hself, fun q' hq' => hlead.trans (hall q' hq')⟩⟩
      rw [List.map_cons, hmap, hnames, List.inits_append]
      simp

theorem ancestors_spec (habsolute : p.isAbsolute = true) (hzero : '\x00' ∉ p.text.toList) :
    p.ancestors.map names = p.names.inits.reverse ∧ ∀ q ∈ p.ancestors, Leading p q :=
  ancestorsWithin_spec habsolute hzero (length_names_le habsolute)

end Path

/-! ### Where names lead -/

namespace FileTree

/-- Where names lead from a location if no link is on the way. -/
def via (here : Location) (names : List String) : Location :=
  names.foldl (fun here name => if name = ".." then here.dropLast else here ++ [name]) here

/-- No entry is a link. -/
def LinkFree (t : FileTree) : Prop :=
  ∀ e ∈ t.entries, e.2.isLink = false

instance (t : FileTree) : Decidable t.LinkFree :=
  inferInstanceAs (Decidable (∀ e ∈ t.entries, e.2.isLink = false))

variable {t : FileTree} {here found : Location} {links : Nat}

theorem LinkFree.not_link (ht : t.WellFormed) (hfree : t.LinkFree) (at_ : Location)
    (target : String) : t.entry? at_ ≠ some (.link target) := by
  intro hlink
  by_cases hroot : at_ = []
  · rw [hroot, entry?, if_pos rfl] at hlink
    cases hlink
  · have hplain := hfree _ (ht.mem_entries.mpr ⟨hroot, hlink⟩)
    cases hplain

theorem via_eq_append {names : List String} (h : ".." ∉ names) (here : Location) :
    via here names = here ++ names := by
  induction names generalizing here with
  | nil => exact (List.append_nil here).symm
  | cons name rest ih =>
    rw [List.mem_cons, not_or] at h
    have hrest := ih h.2 (here ++ [name])
    rw [List.append_assoc] at hrest
    rw [via, List.foldl_cons, if_neg (Ne.symm h.1)]
    exact hrest

theorem via_append (here : Location) (names more : List String) :
    via here (names ++ more) = via (via here names) more :=
  List.foldl_append

/-- **Each prefix of names that lead to a directory leads to one**, if there are no links. -/
theorem Leads.of_prefix (ht : t.WellFormed) (hfree : t.LinkFree) {names more : List String}
    (h : t.Leads false links here (names ++ more) found)
    (hblank : ∀ name ∈ names, ¬ Path.Blank name) (hfound : t.entry? found = some .directory) :
    t.Leads false links here names (via here names) ∧
      t.entry? (via here names) = some .directory := by
  induction names generalizing here with
  | nil =>
    refine ⟨.done links here, ?_⟩
    cases more with
    | nil =>
      cases h
      exact hfound
    | cons next others => exact h.directory_of_cons
  | cons name rest ih =>
    rw [List.forall_mem_cons] at hblank
    rw [List.cons_append] at h
    generalize hbehind : rest ++ more = behind at h
    cases h with
    | stay hdirectory hblank' _ => exact absurd hblank' hblank.1
    | above hdirectory hrest =>
      obtain ⟨hleads, hend⟩ := ih (hbehind ▸ hrest) hblank.2
      exact ⟨.above hdirectory hleads, hend⟩
    | name hdirectory hname hplain hrest =>
      obtain ⟨hleads, hend⟩ := ih (hbehind ▸ hrest) hblank.2
      have hvia : via here (name :: rest) = via (here ++ [name]) rest := by
        rw [via, List.foldl_cons, if_neg hname.not_above]
        rfl
      rw [hvia]
      exact ⟨.name hdirectory hname hplain hleads, hend⟩
    | kept _ _ _ hkeep => cases hkeep
    | link _ _ htarget _ _ => exact absurd htarget (hfree.not_link ht _ _)

/-- Names pass through every directory above the one that they lead to. -/
theorem exists_prefix_via {above : Location} {names : List String} (h : above <+: via [] names) :
    ∃ before, before <+: names ∧ via [] before = above := by
  induction names using List.reverseRecOn with
  | nil => exact ⟨[], List.prefix_rfl, (List.prefix_nil.mp h).symm⟩
  | append_singleton before last ih =>
    have hlonger : above <+: via [] before →
        ∃ shorter, shorter <+: before ++ [last] ∧ via [] shorter = above := by
      intro hbefore
      obtain ⟨shorter, hshorter, hvia⟩ := ih hbefore
      exact ⟨shorter, hshorter.trans (List.prefix_append _ _), hvia⟩
    rw [via_append, via, List.foldl_cons, List.foldl_nil] at h
    split at h
    · exact hlonger (h.trans (List.dropLast_prefix _))
    · rename_i hlast
      rcases List.prefix_concat_iff.mp h with heq | hshorter
      · refine ⟨before ++ [last], List.prefix_rfl, ?_⟩
        rw [heq, via_append, via, List.foldl_cons, if_neg hlast, List.foldl_nil]
      · exact hlonger hshorter

end FileTree

/-! ### The search -/

namespace Disk

open FileTree

variable {d : Disk} {start dir : Path} {top : Location} {name : String}

/-- What a search for a name in directories in turn gives: the entry of that name in the first of
them that has one. -/
inductive FindsFirst (d : Disk) (name : String) (dirs : List Location) :
    Except LoadError (Option Path) → Prop where
  | found {before after : List Location} {dir : Location} {p : Path} {entry : Entry}
      (hdirs : dirs = before ++ dir :: after)
      (hbefore : ∀ passed ∈ before, d.tree.entry? (passed ++ [name]) = none)
      (hfind : d.find p = .ok (dir ++ [name], entry)) : FindsFirst d name dirs (.ok (some p))
  | nothing (hnone : ∀ dir ∈ dirs, d.tree.entry? (dir ++ [name]) = none) :
      FindsFirst d name dirs (.ok none)

/-- Nothing is found only if nothing is there. -/
theorem FindsFirst.exists_some {dirs : List Location} {outcome : Except LoadError (Option Path)}
    (h : d.FindsFirst name dirs outcome) (hdir : top ∈ dirs) {entry : Entry}
    (hentry : d.tree.entry? (top ++ [name]) = some entry) : ∃ p, outcome = .ok (some p) := by
  cases h with
  | found _ _ _ => exact ⟨_, rfl⟩
  | nothing hnone =>
    rw [hnone top hdir] at hentry
    cases hentry

theorem FindsFirst.cons {dirs : List Location} {outcome : Except LoadError (Option Path)}
    (hnone : d.tree.entry? (top ++ [name]) = none) (h : d.FindsFirst name dirs outcome) :
    d.FindsFirst name (top :: dirs) outcome := by
  cases h with
  | @found before after dir p entry hdirs hbefore hfind =>
    have hsplit : top :: dirs = (top :: before) ++ dir :: after := congrArg (top :: ·) hdirs
    exact .found hsplit (List.forall_mem_cons.mpr ⟨hnone, hbefore⟩) hfind
  | nothing hall => exact .nothing (List.forall_mem_cons.mpr ⟨hnone, hall⟩)

/-- What is looked at under a name in a directory, if there are no links. -/
theorem find_join_of_linkFree (ht : d.tree.WellFormed) (hfree : d.tree.LinkFree)
    (h : d.find dir = .ok (top, .directory)) (hname : ProperName name)
    (hshort : (dir.join ⟨name⟩).text.utf8ByteSize < pathLimit) :
    (∃ entry, d.find (dir.join ⟨name⟩) = .ok (top ++ [name], entry)) ∨
      d.find (dir.join ⟨name⟩) = .error .notFound ∧ d.tree.entry? (top ++ [name]) = none := by
  have hlocate : d.locate (dir.join ⟨name⟩) false = .ok (top ++ [name]) :=
    locate_join h hname hshort (.inr (hfree.not_link ht _))
  cases hentry : d.tree.entry? (top ++ [name]) with
  | some entry => exact .inl ⟨entry, find_eq_ok.mpr ⟨hlocate, hentry⟩⟩
  | none => exact .inr ⟨find_of_none hlocate hentry, rfl⟩

theorem firstWith_cons (candidate dir : Path) (rest : List Path) :
    d.firstWith candidate (dir :: rest) =
      match d.entry (dir.join candidate) with
      | .ok _ => .ok (some (dir.join candidate))
      | .error .notFound => d.firstWith candidate rest
      | .error fault => .error (.io (dir.join candidate) fault) :=
  (firstWith.eq_def d candidate (dir :: rest)).trans rfl

/-- **What is found in directories in turn**, each given by a path that leads there. -/
theorem findsFirst_firstWith (ht : d.tree.WellFormed) (hfree : d.tree.LinkFree)
    (hname : ProperName name) {paths : List Path} {located : Path → Location}
    (h : ∀ dir ∈ paths, d.find dir = .ok (located dir, .directory) ∧
      (dir.join ⟨name⟩).text.utf8ByteSize < pathLimit) :
    d.FindsFirst name (paths.map located) (d.firstWith ⟨name⟩ paths) := by
  induction paths with
  | nil => exact .nothing (List.forall_mem_nil _)
  | cons dir rest ih =>
    rw [List.forall_mem_cons] at h
    rw [List.map_cons]
    rcases find_join_of_linkFree ht hfree h.1.1 hname h.1.2 with ⟨entry, hfind⟩ | ⟨hfind, hnone⟩
    · have hentry : d.entry (dir.join ⟨name⟩) = .ok entry := by
        rw [Disk.entry, hfind]
        rfl
      rw [firstWith_cons, hentry]
      exact .found (List.nil_append _).symm (List.forall_mem_nil _) hfind
    · have hentry : d.entry (dir.join ⟨name⟩) = .error .notFound := by
        rw [Disk.entry, hfind]
        rfl
      rw [firstWith_cons, hentry]
      exact (ih h.2).cons hnone

/-- The first path that a search upwards looks at must not be too long. -/
theorem findUp_of_long {a : Path} (ha : d.absolute start = .ok a) (hzero : '\x00' ∉ a.text.toList)
    (htext : a.text ≠ "") (hname : ProperName name)
    (hlong : pathLimit ≤ (a.join ⟨name⟩).text.utf8ByteSize) :
    d.findUp start ⟨name⟩ = .error (.io (a.join ⟨name⟩) .nameTooLong) := by
  obtain ⟨hjoinZero, hjoinText⟩ := text_join hzero htext hname
  have hentry : d.entry (a.join ⟨name⟩) = .error .nameTooLong := by
    rw [Disk.entry, find, locate, checkText_of_long hjoinZero hjoinText hlong]
    rfl
  obtain ⟨rest, hrest⟩ : ∃ rest, a.ancestors = a :: rest := by
    rw [Path.ancestors]
    cases a.text.length with
    | zero => exact ⟨[], rfl⟩
    | succ steps => exact ⟨_, rfl⟩
  rw [findUp, ha]
  show d.firstWith ⟨name⟩ a.ancestors = _
  rw [hrest, firstWith_cons, hentry]

/-- A path that a path to a directory starts with leads where its names do, if there are no
links. -/
theorem find_of_leading (ht : d.tree.WellFormed) (hfree : d.tree.LinkFree) {a q : Path}
    (hleads : d.tree.Leads false linkLimit [] a.names top)
    (hdirectory : d.tree.entry? top = some .directory) (hzero : '\x00' ∉ a.text.toList)
    (hlead : Path.Leading a q) (hnames : q.names <+: a.names)
    (hshort : q.text.utf8ByteSize < pathLimit) :
    d.find q = .ok (via [] q.names, .directory) := by
  obtain ⟨more, hmore⟩ := hnames
  rw [← hmore] at hleads
  have hblank : ∀ name ∈ q.names, ¬ Path.Blank name :=
    fun name hname => (Path.mem_names.mp hname).2
  obtain ⟨hahead, hend⟩ := hleads.of_prefix ht hfree hblank hdirectory
  have hcheck : checkText q = .ok () :=
    checkText_eq_ok.mpr ⟨hlead.no_zero hzero, hlead.text_ne_empty, hshort⟩
  have hstart : d.startOf q = [] := if_pos hlead.isAbsolute
  refine find_eq_ok.mpr ⟨locate_eq_ok.mpr ⟨hcheck, ?_⟩, hend⟩
  rw [hstart]
  exact hahead.thicken hend (Path.Thins.filter _)

/-- The directories that a search upwards looks in. -/
theorem findsFirst_findUp (ht : d.tree.WellFormed) (hfree : d.tree.LinkFree)
    (hstart : d.find start = .ok (top, .directory)) (hname : ProperName name) {a : Path}
    (ha : d.absolute start = .ok a) (hshort : (a.join ⟨name⟩).text.utf8ByteSize < pathLimit) :
    d.FindsFirst name (a.names.inits.reverse.map (via [])) (d.findUp start ⟨name⟩) := by
  obtain ⟨htext, -, hroot, hzero, hleads⟩ := leads_of_absolute ht hstart ha
  obtain ⟨hmap, hleading⟩ := Path.ancestors_spec hroot hzero
  have hall : ∀ q ∈ a.ancestors, d.find q = .ok (via [] q.names, .directory) ∧
      (q.join ⟨name⟩).text.utf8ByteSize < pathLimit := by
    intro q hq
    have hjoin := (hleading q hq).utf8ByteSize_join_le htext hname.no_slash
    have hlonger := Path.le_utf8ByteSize_join (hleading q hq).text_ne_empty hname.no_slash
    have hahead : q.names <+: a.names := by
      have hmem := List.mem_map_of_mem (f := Path.names) hq
      rw [hmap, List.mem_reverse, List.mem_inits] at hmem
      exact hmem
    have hdirectory := (find_eq_ok.mp hstart).2
    refine ⟨find_of_leading ht hfree hleads hdirectory hzero (hleading q hq) hahead ?_, ?_⟩
    · omega
    · omega
  have hsearch : d.findUp start ⟨name⟩ = d.firstWith ⟨name⟩ a.ancestors := by
    rw [findUp, ha]
  rw [hsearch, ← hmap, List.map_map]
  exact findsFirst_firstWith ht hfree hname hall

/-- Where a path starts there is a directory, if the path leads anywhere. -/
theorem entry?_startOf {found : Location × Entry} (h : d.find start = .ok found) :
    d.tree.entry? (d.startOf start) = some .directory := by
  have hleads := (locate_eq_ok.mp (find_eq_ok.mp h).1).2
  have hne : start.segments ≠ [] := by
    simpa [Path.segments] using Path.splitSegments_ne_nil start.text.toList
  obtain ⟨first, rest, hsegments⟩ := List.exists_cons_of_ne_nil hne
  rw [hsegments] at hleads
  exact hleads.directory_of_cons

/-- The names that lead to where a path starts do not lead up again. -/
theorem above_notMem_startOf (ht : d.tree.WellFormed) {found : Location × Entry}
    (h : d.find start = .ok found) : ".." ∉ d.startOf start := by
  intro habove
  have hentry := entry?_startOf h
  rw [← List.nil_append (d.startOf start)] at hentry
  exact (ht.properNames_of_entry hentry _ habove).not_above rfl

/-- Names that lead to a directory lead there without a link, if there are none. -/
theorem via_of_leads (ht : d.tree.WellFormed) (hfree : d.tree.LinkFree) {a : Path}
    (hleads : d.tree.Leads false linkLimit [] a.names top)
    (hdirectory : d.tree.entry? top = some .directory) : via [] a.names = top := by
  have hvia : d.tree.Leads false linkLimit [] a.names (via [] a.names) := by
    rw [← List.append_nil a.names] at hleads
    exact (hleads.of_prefix ht hfree (fun name hname => (Path.mem_names.mp hname).2) hdirectory).1
  exact Except.ok.inj ((follow_eq_ok.mpr hvia).symm.trans (follow_eq_ok.mpr hleads))

/-- **What a search upwards finds.**  Without links it looks in turn where the prefixes of the names
lead, longest first, those of the path and before them those that lead to where it starts.  So it
finds an entry if the directory it starts from or one above it has one, and the nearest such entry
if `..` is not among the names.  The first path it looks at must not be too long. -/
theorem findUp_via_names (ht : d.tree.WellFormed) (hfree : d.tree.LinkFree)
    (hstart : d.find start = .ok (top, .directory)) (hname : ProperName name) :
    ∃ a, d.absolute start = .ok a ∧
      (pathLimit ≤ (a.join ⟨name⟩).text.utf8ByteSize →
        d.findUp start ⟨name⟩ = .error (.io (a.join ⟨name⟩) .nameTooLong)) ∧
      ((a.join ⟨name⟩).text.utf8ByteSize < pathLimit →
        d.FindsFirst name ((d.startOf start ++ start.names).inits.reverse.map (via []))
            (d.findUp start ⟨name⟩) ∧
          (∀ above entry, above <+: top → d.tree.entry? (above ++ [name]) = some entry →
            ∃ p, d.findUp start ⟨name⟩ = .ok (some p)) ∧
          (".." ∉ start.names → d.FindsFirst name top.inits.reverse (d.findUp start ⟨name⟩))) := by
  obtain ⟨a, ha⟩ := exists_absolute (d := d) (text_ne_empty_of_find hstart)
  obtain ⟨htext, hnames, -, hzero, hleads⟩ := leads_of_absolute ht hstart ha
  refine ⟨a, ha, findUp_of_long ha hzero htext hname, fun hshort => ?_⟩
  have hfirst := findsFirst_findUp ht hfree hstart hname ha hshort
  have htop : via [] a.names = top := via_of_leads ht hfree hleads (find_eq_ok.mp hstart).2
  refine ⟨hnames ▸ hfirst, fun above entry habove hentry => ?_, fun hnot => ?_⟩
  · rw [← htop] at habove
    obtain ⟨before, hbefore, rfl⟩ := exists_prefix_via habove
    refine hfirst.exists_some (List.mem_map_of_mem ?_) hentry
    rw [List.mem_reverse, List.mem_inits]
    exact hbefore
  · have hnames' : ".." ∉ a.names := by
      rw [hnames, List.mem_append, not_or]
      exact ⟨above_notMem_startOf ht hstart, hnot⟩
    have hplain : ∀ before ∈ a.names.inits.reverse, via [] before = before := by
      intro before hbefore
      rw [List.mem_reverse, List.mem_inits] at hbefore
      exact via_eq_append (fun habove => hnames' (hbefore.subset habove)) []
    rw [List.map_congr_left hplain, List.map_id'] at hfirst
    rw [via_eq_append hnames', List.nil_append] at htop
    rw [← htop]
    exact hfirst

/-- A working directory with a file, and directories below it. -/
def markedDisk : Disk where
  tree := ⟨[
    (["w"], .directory),
    (["w", "marker"], .file []),
    (["w", "b"], .directory),
    (["w", "b", "c"], .directory)]⟩
  workingDir := ["w"]

/-- The nearest directory with the name is found, however the path is written. -/
theorem findUp_via_names_marked :
    markedDisk.tree.WellFormed ∧ markedDisk.tree.LinkFree ∧
      markedDisk.find ⟨"./b//c/"⟩ = .ok (["w", "b", "c"], .directory) ∧ ProperName "marker" ∧
      markedDisk.FindsFirst "marker" [["w", "b", "c"], ["w", "b"], ["w"], []]
        (markedDisk.findUp ⟨"./b//c/"⟩ ⟨"marker"⟩) ∧
      markedDisk.findUp ⟨"./b//c/"⟩ ⟨"marker"⟩ = .ok (some ⟨"/w/marker"⟩) := by
  have ht : markedDisk.tree.WellFormed := by decide +kernel
  have hfree : markedDisk.tree.LinkFree := by decide +kernel
  have hstart : markedDisk.find ⟨"./b//c/"⟩ = .ok (["w", "b", "c"], .directory) := by
    decide +kernel
  have hname : ProperName "marker" := by decide +kernel
  obtain ⟨a, ha, -, hsearch⟩ := findUp_via_names ht hfree hstart hname
  have habsolute : markedDisk.absolute ⟨"./b//c/"⟩ = .ok ⟨"/w/b/c/"⟩ := by decide +kernel
  cases habsolute.symm.trans ha
  have hnearest := (hsearch (by decide +kernel)).2.2 (by decide +kernel)
  exact ⟨ht, hfree, hstart, hname, hnearest, by decide +kernel⟩

/-- A directory with a directory in it that has a file. -/
def besideDisk : Disk where
  tree := ⟨[
    (["a"], .directory),
    (["a", "b"], .directory),
    (["a", "b", "marker"], .file [])]⟩

/-- **With `..` in its path a search comes to directories that do not contain the one it starts
from**, and finds what is there.  Here that is the only entry of the name. -/
theorem not_findsFirst_behind_parent :
    besideDisk.tree.WellFormed ∧ besideDisk.tree.LinkFree ∧
      besideDisk.find ⟨"a/b/.."⟩ = .ok (["a"], .directory) ∧ ProperName "marker" ∧
      besideDisk.findUp ⟨"a/b/.."⟩ ⟨"marker"⟩ = .ok (some ⟨"/a/b/marker"⟩) ∧
      ¬ besideDisk.FindsFirst "marker" [["a"], []] (besideDisk.findUp ⟨"a/b/.."⟩ ⟨"marker"⟩) := by
  have hfound : besideDisk.findUp ⟨"a/b/.."⟩ ⟨"marker"⟩ = .ok (some ⟨"/a/b/marker"⟩) := by
    decide +kernel
  refine ⟨by decide +kernel, by decide +kernel, by decide +kernel, by decide +kernel, hfound, ?_⟩
  rw [hfound]
  intro hfirst
  have hthere : besideDisk.find ⟨"/a/b/marker"⟩ = .ok (["a", "b", "marker"], .file []) := by
    decide +kernel
  cases hfirst with
  | @found before after dir p entry hdirs hbefore hfind =>
    have hlocation : dir ++ ["marker"] = ["a", "b"] ++ ["marker"] :=
      (congrArg Prod.fst (Except.ok.inj (hthere.symm.trans hfind))).symm
    obtain rfl := List.append_cancel_right hlocation
    have hmem : ["a", "b"] ∈ [["a"], []] := by
      rw [hdirs]
      simp
    exact absurd hmem (by decide)

end Disk

end Monorepo
