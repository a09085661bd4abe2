import Monorepo.Disk.Walk
import Monorepo.Proofs.Spelling

/-!
# The order of a walk

A walk sorts one directory at a time and goes into each directory where it meets it.  For a walk that
refuses links this is the same as sorting everything below the directory once:

* `Path.compare_descend` — below one directory, paths are ordered as the names that lead there;
* `FileTree.inOrder` — all that is below a location, sorted once, and
  `FileTree.WellFormed.inOrder_eq`, the same sorted directory by directory: a directory comes right
  before what is below it, and before a name that only starts like its own;
* `Walk.along` — going through entries one after the other, up to the first that can not be passed;
* `Disk.walk_eq_along`, `Disk.exists_walk_eq_along` — a walk comes to all that is below its directory,
  in the order of the paths.
-/

namespace Monorepo

/-! ### Comparing paths below one directory -/

namespace Component

theorem compare_self (c : Component) : c.compare c = .eq := by
  cases c with
  | name text => exact Std.ReflOrd.compare_self
  | root => rfl
  | current => rfl
  | parent => rfl

theorem swap_compare (c c' : Component) : (c.compare c').swap = c'.compare c := by
  cases c with
  | name text =>
    cases c' with
    | name text' => exact Std.OrientedOrd.eq_swap.symm
    | root => rfl
    | current => rfl
    | parent => rfl
  | root => cases c' <;> rfl
  | current => cases c' <;> rfl
  | parent => cases c' <;> rfl

theorem swap_compareLists (as bs : List Component) :
    (compareLists as bs).swap = compareLists bs as := by
  induction as generalizing bs with
  | nil => cases bs <;> rfl
  | cons a as ih =>
    cases bs with
    | nil => rfl
    | cons b bs =>
      show ((a.compare b).then (compareLists as bs)).swap = _
      rw [Ordering.swap_then, swap_compare, ih]
      rfl

/-- What two paths start with in common does not count. -/
theorem compareLists_append (common as bs : List Component) :
    compareLists (common ++ as) (common ++ bs) = compareLists as bs := by
  induction common with
  | nil => rfl
  | cons c rest ih =>
    show (c.compare c).then (compareLists (rest ++ as) (rest ++ bs)) = compareLists as bs
    rw [compare_self, ih]
    rfl

theorem compareLists_map_name (as bs : List String) :
    compareLists (as.map .name) (bs.map .name) = Ord.compare as bs := by
  induction as generalizing bs with
  | nil => cases bs <;> rfl
  | cons a as ih =>
    cases bs with
    | nil => rfl
    | cons b bs =>
      show (Ord.compare a b).then (compareLists (as.map .name) (bs.map .name)) = _
      rw [ih, List.compare_cons_cons]

end Component

/-- There is only one order of entries in which their paths ascend. -/
theorem Path.eq_of_ascending {entries sorted : List (Path × Entry)} (hperm : entries.Perm sorted)
    (h : entries.Pairwise fun e e' => e.1.compare e'.1 = .lt)
    (hsorted : sorted.Pairwise fun e e' => e.1.compare e'.1 = .lt) : entries = sorted := by
  refine hperm.eq_of_pairwise (fun e e' _ _ hlt hgt => ?_) h hsorted
  rw [compare, ← Component.swap_compareLists] at hgt
  rw [compare] at hlt
  rw [hlt] at hgt
  cases hgt

/-- Below one directory, paths are in the order of the names.  This is not the order of their texts. -/
theorem Path.compare_descend {dir : Path} (hdir : dir.text ≠ "") {names names' : List String}
    (hnames : ∀ name ∈ names, FileTree.ProperName name)
    (hnames' : ∀ name ∈ names', FileTree.ProperName name) :
    (dir.descend names).compare (dir.descend names') = Ord.compare names names' := by
  rw [compare, components_descend hdir hnames, components_descend hdir hnames',
    Component.compareLists_append, Component.compareLists_map_name]

example : Path.compare ⟨"inc/b/x"⟩ ⟨"inc/b.toml"⟩ = .lt ∧ "inc/b.toml" < "inc/b/x" := by decide

/-- **The paths of the entries of a directory are sorted by the names.** -/
theorem Path.sort_join {dir : Path} (hdir : dir.text ≠ "") {names : List String}
    (hnames : ∀ name ∈ names, FileTree.ProperName name) :
    Path.sort (names.map fun name => dir.join ⟨name⟩) =
      (names.mergeSort fun a b => (Ord.compare a b).isLE).map fun name => dir.join ⟨name⟩ := by
  have hsingle : ∀ name ∈ names, ∀ other ∈ [name], FileTree.ProperName other := by
    intro name hname other hother
    rw [List.mem_singleton.mp hother]
    exact hnames name hname
  rw [sort, List.map_mergeSort]
  intro a ha b hb
  have hcompare : (dir.descend [a]).compare (dir.descend [b]) = Ord.compare [a] [b] :=
    compare_descend hdir (hsingle a ha) (hsingle b hb)
  show (Ord.compare a b).isLE = ((dir.descend [a]).compare (dir.descend [b])).isLE
  rw [hcompare, List.compare_cons_cons]
  show (Ord.compare a b).isLE = ((Ord.compare a b).then .eq).isLE
  rw [Ordering.then_eq]

/-- What has different keys and is sorted by them is in strict order. -/
theorem pairwise_lt_mergeSort {α β : Type} [Ord β] [Std.TransOrd β] [Std.LawfulEqOrd β]
    (key : α → β) {l : List α} (h : (l.map key).Nodup) :
    (l.mergeSort fun a b => (Ord.compare (key a) (key b)).isLE).Pairwise
      fun a b => Ord.compare (key a) (key b) = .lt := by
  have hswap : ∀ a b, Ord.compare (key a) (key b) = (Ord.compare (key b) (key a)).swap :=
    fun _ _ => Std.OrientedOrd.eq_swap
  have hsorted : (l.mergeSort fun a b => (Ord.compare (key a) (key b)).isLE).Pairwise
      fun a b => (Ord.compare (key a) (key b)).isLE = true := by
    refine List.pairwise_mergeSort (fun a b c hab hbc => ?_) (fun a b => ?_) l
    · exact Std.TransOrd.isLE_trans hab hbc
    · rw [hswap b a]
      cases Ord.compare (key a) (key b) <;> rfl
  have hdistinct := ((List.mergeSort_perm l
    fun a b => (Ord.compare (key a) (key b)).isLE).map key).nodup_iff.mpr h
  refine (hsorted.and (List.pairwise_map.mp hdistinct)).imp fun {a b} hab => ?_
  obtain ⟨hle, hne⟩ := hab
  cases hcompare : Ord.compare (key a) (key b) with
  | lt => rfl
  | eq => exact absurd (Std.LawfulEqOrd.eq_of_compare hcompare) hne
  | gt =>
    rw [hcompare] at hle
    cases hle

/-! ### What is below a location, in order -/

namespace FileTree

/-- An entry comes before another if its names do. -/
def Before (e e' : List String × Entry) : Prop :=
  Ord.compare e.1 e'.1 = .lt

/-- The entries below a location, each with the names that lead to it, in the order of the names. -/
def inOrder (t : FileTree) (top : Location) : List (List String × Entry) :=
  (t.below top).mergeSort fun e e' => (Ord.compare e.1 e'.1).isLE

/-- The entry of a name and, behind it, what is below it. -/
def startingWith (t : FileTree) (top : Location) (name : String) : List (List String × Entry) :=
  match t.entry? (top ++ [name]) with
  | some entry =>
    ([name], entry) :: (t.inOrder (top ++ [name])).map fun e => (name :: e.1, e.2)
  | none => []

theorem inOrder_perm (t : FileTree) (top : Location) : (t.inOrder top).Perm (t.below top) :=
  List.mergeSort_perm _ _

namespace WellFormed

variable {t : FileTree} {top : Location}

theorem pairwise_inOrder (ht : t.WellFormed) (top : Location) :
    (t.inOrder top).Pairwise Before :=
  pairwise_lt_mergeSort Prod.fst (ht.nodup_below top)

theorem mem_inOrder (ht : t.WellFormed) {names : List String} {entry : Entry} :
    (names, entry) ∈ t.inOrder top ↔ names ≠ [] ∧ t.entry? (top ++ names) = some entry := by
  rw [(t.inOrder_perm top).mem_iff, ht.mem_below]

/-- There is one order only in which each entry comes before all that follow it. -/
theorem eq_inOrder (ht : t.WellFormed) {l : List (List String × Entry)}
    (hmem : ∀ names entry, (names, entry) ∈ l ↔
      names ≠ [] ∧ t.entry? (top ++ names) = some entry)
    (hbefore : l.Pairwise Before) : l = t.inOrder top := by
  have hnodup : ∀ {l : List (List String × Entry)}, l.Pairwise Before → l.Nodup := by
    intro l h
    refine h.imp fun {e e'} hlt heq => ?_
    rw [Before, heq, Std.ReflOrd.compare_self] at hlt
    cases hlt
  have hperm : l.Perm (t.inOrder top) := by
    rw [List.perm_ext_iff_of_nodup (hnodup hbefore) (hnodup (ht.pairwise_inOrder top))]
    intro e
    rw [hmem, ht.mem_inOrder]
  refine hperm.eq_of_pairwise (fun e e' _ _ h h' => ?_) hbefore (ht.pairwise_inOrder top)
  have hswap : Ord.compare e.1 e'.1 = (Ord.compare e'.1 e.1).swap := Std.OrientedOrd.eq_swap
  rw [Before, hswap, h'] at h
  cases h

/-- Nothing is below what is no directory. -/
theorem inOrder_eq_nil (ht : t.WellFormed) {entry : Entry} (hentry : t.entry? top = some entry)
    (hnot : entry ≠ .directory) : t.inOrder top = [] := by
  rw [List.eq_nil_iff_forall_not_mem]
  rintro ⟨names, found⟩ hmem
  obtain ⟨hnames, hfound⟩ := ht.mem_inOrder.mp hmem
  rw [ht.above_of_entry hnames hfound] at hentry
  exact hnot (Option.some.inj hentry).symm

theorem mem_startingWith (ht : t.WellFormed) {name : String} {names : List String} {entry : Entry} :
    (names, entry) ∈ t.startingWith top name ↔
      ∃ rest, names = name :: rest ∧ t.entry? (top ++ [name] ++ rest) = some entry := by
  rw [startingWith]
  cases hhere : t.entry? (top ++ [name]) with
  | none =>
    refine ⟨nofun, fun h => ?_⟩
    obtain ⟨rest, -, hentry⟩ := h
    rw [List.append_assoc] at hentry
    obtain ⟨found, hfound⟩ := ht.mem_namesIn.mp (ht.mem_namesIn_of_entry hentry)
    rw [hhere] at hfound
    cases hfound
  | some found =>
    simp only [List.mem_cons, List.mem_map, Prod.exists, ht.mem_inOrder, Prod.mk.injEq]
    constructor
    · intro h
      rcases h with ⟨rfl, rfl⟩ | ⟨rest, _, ⟨-, hentry⟩, rfl, rfl⟩
      · exact ⟨[], rfl, by rw [List.append_nil, hhere]⟩
      · exact ⟨rest, rfl, hentry⟩
    · intro h
      obtain ⟨rest, rfl, hentry⟩ := h
      by_cases hrest : rest = []
      · rw [hrest, List.append_nil, hhere] at hentry
        cases hentry
        exact .inl ⟨by rw [hrest], rfl⟩
      · exact .inr ⟨rest, entry, ⟨hrest, hentry⟩, rfl, rfl⟩

/-- A directory comes before what is below it. -/
theorem pairwise_startingWith (ht : t.WellFormed) (name : String) :
    (t.startingWith top name).Pairwise Before := by
  have hstep : ∀ rest rest' : List String,
      Ord.compare (name :: rest) (name :: rest') = Ord.compare rest rest' := by
    intro rest rest'
    rw [List.compare_cons_cons, Std.ReflOrd.compare_self]
    rfl
  rw [startingWith]
  split
  · refine List.pairwise_cons.mpr ⟨?_, ?_⟩
    · intro e he
      obtain ⟨⟨names, entry⟩, hmem, rfl⟩ := List.mem_map.mp he
      obtain ⟨first, rest, rfl⟩ := List.exists_cons_of_ne_nil (ht.mem_inOrder.mp hmem).1
      show Ord.compare [name] (name :: first :: rest) = .lt
      rw [hstep]
      rfl
    · refine List.pairwise_map.mpr ((ht.pairwise_inOrder _).imp fun {e e'} hbefore => ?_)
      show Ord.compare (name :: e.1) (name :: e'.1) = .lt
      rw [hstep]
      exact hbefore
  · exact List.Pairwise.nil

/-- **Sorting directory by directory sorts everything.** -/
theorem inOrder_eq (ht : t.WellFormed) (top : Location) :
    t.inOrder top = ((t.namesIn top).mergeSort fun a b => (Ord.compare a b).isLE).flatMap
      (t.startingWith top) := by
  symm
  apply ht.eq_inOrder
  · intro names entry
    simp only [List.mem_flatMap, (List.mergeSort_perm _ _).mem_iff, ht.mem_startingWith]
    constructor
    · intro h
      obtain ⟨name, -, rest, rfl, hentry⟩ := h
      rw [List.append_assoc] at hentry
      exact ⟨List.cons_ne_nil _ _, hentry⟩
    · intro h
      obtain ⟨hnames, hentry⟩ := h
      obtain ⟨name, rest, rfl⟩ := List.exists_cons_of_ne_nil hnames
      refine ⟨name, ht.mem_namesIn_of_entry hentry, rest, rfl, ?_⟩
      rw [List.append_assoc]
      exact hentry
  · have hnames : ((t.namesIn top).map id).Nodup := by
      rw [List.map_id]
      exact ht.nodup_namesIn top
    rw [List.pairwise_flatMap]
    refine ⟨fun name _ => ht.pairwise_startingWith name, ?_⟩
    refine (pairwise_lt_mergeSort id hnames).imp fun {name name'} hlt e he e' he' => ?_
    obtain ⟨rest, hfst, -⟩ := ht.mem_startingWith.mp he
    obtain ⟨rest', hfst', -⟩ := ht.mem_startingWith.mp he'
    show Ord.compare e.1 e'.1 = .lt
    rw [hfst, hfst', List.compare_cons_cons]
    show (Ord.compare (id name) (id name')).then (Ord.compare rest rest') = .lt
    rw [hlt]
    rfl

end WellFormed

end FileTree

/-! ### Going through entries -/

namespace Walk

/-- One walk and, if it completes, the other. -/
def andThen (first second : Walk) : Walk :=
  if first.ending = .complete then ⟨first.paths ++ second.paths, second.ending⟩ else first

theorem nothing_andThen (w : Walk) : andThen ⟨[], .complete⟩ w = w :=
  if_pos rfl

theorem andThen_nothing (w : Walk) : w.andThen ⟨[], .complete⟩ = w := by
  rw [andThen, List.append_nil]
  split
  · rename_i h
    rw [← h]
  · rfl

theorem failing_andThen (error : LoadError) (w : Walk) :
    (failing error).andThen w = failing error :=
  if_neg nofun

theorem andThen_assoc (w w' w'' : Walk) :
    (w.andThen w').andThen w'' = w.andThen (w'.andThen w'') := by
  by_cases h : w.ending = .complete
  · by_cases h' : w'.ending = .complete
    · simp [andThen, h, h']
    · simp [andThen, h, h']
  · simp [andThen, h]

theorem inOrder_cons (walkOver : Path → Walk) (p : Path) (rest : List Path) :
    inOrder walkOver (p :: rest) = (walkOver p).andThen (inOrder walkOver rest) := by
  rw [inOrder, andThen]
  rcases walkOver p with ⟨paths, ending⟩
  cases ending <;> rfl

/-- What a walk does at an entry by itself: it meets a file, and stops at a link, at a directory that
is closed, and at a path that is too long to be looked at. -/
def passing (e : Path × Entry) : Walk :=
  if FileTree.pathLimit ≤ e.1.text.utf8ByteSize then failing (.io e.1 .nameTooLong)
  else
    match e.2 with
    | .file _ | .closedFile => ⟨[e.1], .complete⟩
    | .directory => ⟨[], .complete⟩
    | .link _ => failing (.symlink e.1)
    | .closedDirectory => failing (.io e.1 .accessDenied)

/-- What a walk does that comes to entries in turn. -/
def along : List (Path × Entry) → Walk
  | [] => ⟨[], .complete⟩
  | e :: rest => (passing e).andThen (along rest)

theorem along_append (entries others : List (Path × Entry)) :
    along (entries ++ others) = (along entries).andThen (along others) := by
  induction entries with
  | nil => exact (nothing_andThen _).symm
  | cons e rest ih => rw [List.cons_append, along, ih, along, andThen_assoc]

/-- If the walk over each path goes through entries, so do all of them in order. -/
theorem inOrder_map_eq_along {α : Type} {walkOver : Path → Walk} {path : α → Path}
    {entries : α → List (Path × Entry)} {l : List α}
    (h : ∀ a ∈ l, walkOver (path a) = along (entries a)) :
    inOrder walkOver (l.map path) = along (l.flatMap entries) := by
  induction l with
  | nil => rfl
  | cons a rest ih =>
    rw [List.forall_mem_cons] at h
    rw [List.map_cons, inOrder_cons, h.1, ih h.2, List.flatMap_cons, along_append]

end Walk

namespace Disk

open FileTree

variable {d : Disk} {dir : Path} {top : Location} {name : String}

theorem below_eq (h : d.find dir = .ok (top, .directory)) :
    d.below dir = (d.tree.below top).map (Prod.map dir.descend id) := by
  rw [below, h]
  rfl

/-- The walk over an entry of a directory comes to that entry and to what is below it, if the walk
into it does so where it is a directory, and fails where that is closed. -/
theorem walkEntry_eq_along (ht : d.tree.WellFormed) (h : d.find dir = .ok (top, .directory))
    (hname : name ∈ d.tree.namesIn top) {into : Path → Walk}
    (hinto : d.find (dir.join ⟨name⟩) = .ok (top ++ [name], .directory) →
      into (dir.join ⟨name⟩) = .along ((d.tree.inOrder (top ++ [name])).map
        (Prod.map (dir.join ⟨name⟩).descend id)))
    (hclosed : d.find (dir.join ⟨name⟩) = .ok (top ++ [name], .closedDirectory) →
      into (dir.join ⟨name⟩) = .failing (.io (dir.join ⟨name⟩) .accessDenied)) :
    d.walkEntry .refuse into (dir.join ⟨name⟩) =
      .along ((d.tree.startingWith top name).map (Prod.map dir.descend id)) := by
  obtain ⟨entry, hentry⟩ := ht.mem_namesIn.mp hname
  have hproper := ht.properName_of_entry hentry
  have hstarting : (d.tree.startingWith top name).map (Prod.map dir.descend id) =
      (dir.join ⟨name⟩, entry) :: (d.tree.inOrder (top ++ [name])).map
        (Prod.map (dir.join ⟨name⟩).descend id) := by
    rw [startingWith, hentry, List.map_cons, List.map_map]
    rfl
  rw [hstarting, Walk.along, Walk.passing]
  unfold walkEntry
  by_cases hlong : pathLimit ≤ (dir.join ⟨name⟩).text.utf8ByteSize
  · rw [linkEntry_join_of_long h hproper hlong, if_pos hlong, Walk.failing_andThen]
  · have hshort := Nat.lt_of_not_le hlong
    rw [(linkEntry_join h hproper).mpr ⟨hshort, hentry⟩, if_neg hlong]
    cases entry with
    | file | closedFile =>
      rw [ht.inOrder_eq_nil hentry nofun]
      exact (Walk.andThen_nothing _).symm
    | directory =>
      have hfind := find_join h hproper hshort hentry nofun
      exact (hinto hfind).trans (Walk.nothing_andThen _).symm
    | link target => exact (Walk.failing_andThen _ _).symm
    | closedDirectory =>
      have hfind := find_join h hproper hshort hentry nofun
      exact (hclosed hfind).trans (Walk.failing_andThen _ _).symm

/-- A walk that may go deep enough comes to all that is below its directory, in order. -/
theorem walkWithin_eq_along (ht : d.tree.WellFormed) {depth : Nat}
    (h : d.find dir = .ok (top, .directory))
    (hdepth : ∀ names entry, d.tree.entry? (top ++ names) = some entry → names.length < depth) :
    d.walkWithin .refuse depth dir =
      .along ((d.tree.inOrder top).map (Prod.map dir.descend id)) := by
  induction depth generalizing dir top with
  | zero =>
    have hhere := (find_eq_ok.mp h).2
    rw [← List.append_nil top] at hhere
    exact absurd (hdepth [] _ hhere) (Nat.lt_irrefl 0)
  | succ depth ih =>
    have hproper : ∀ name ∈ d.tree.namesIn top, ProperName name := by
      intro name hname
      obtain ⟨entry, hentry⟩ := ht.mem_namesIn.mp hname
      exact ht.properName_of_entry hentry
    rw [walkWithin, list_eq_ok.mpr ⟨top, h, rfl⟩]
    show Walk.inOrder _ (Path.sort _) = _
    rw [Path.sort_join (text_ne_empty_of_find h) hproper, ht.inOrder_eq, List.map_flatMap]
    refine Walk.inOrder_map_eq_along fun name hname => ?_
    have hbelow : ∀ names entry, d.tree.entry? ((top ++ [name]) ++ names) = some entry →
        names.length < depth := by
      intro names entry hentry
      rw [List.append_assoc] at hentry
      exact Nat.lt_of_succ_lt_succ (hdepth (name :: names) entry hentry)
    have hmem := (List.mergeSort_perm _ _).mem_iff.mp hname
    refine walkEntry_eq_along ht h hmem (fun hfind => ih hfind hbelow) fun hfind => ?_
    -- There are steps left to list the directory, so the walk does not end before it is refused.
    have hhere := (find_eq_ok.mp hfind).2
    rw [← List.append_nil (top ++ [name])] at hhere
    obtain ⟨steps, rfl⟩ := Nat.exists_eq_succ_of_ne_zero (Nat.ne_zero_of_lt (hbelow [] _ hhere))
    rw [walkWithin, list_of_closed hfind]

/-- **A walk comes to all that is below its directory, in order.** -/
theorem walk_eq_along (ht : d.tree.WellFormed) (h : d.find dir = .ok (top, .directory)) :
    d.walk .refuse dir = .along ((d.tree.inOrder top).map (Prod.map dir.descend id)) := by
  refine walkWithin_eq_along ht h fun names entry hentry => ?_
  have hlength := ht.length_le hentry
  rw [List.length_append] at hlength
  omega

/-- **This is the order of the paths.** -/
theorem exists_walk_eq_along (ht : d.tree.WellFormed) (h : d.find dir = .ok (top, .directory)) :
    ∃ entries, entries.Perm (d.below dir) ∧
      entries.Pairwise (fun e e' => e.1.compare e'.1 = .lt) ∧ d.walk .refuse dir = .along entries := by
  have hproper : ∀ e ∈ d.tree.inOrder top, ∀ name ∈ e.1, ProperName name := by
    intro e he name hname
    exact ht.properNames_of_entry (ht.mem_inOrder.mp he).2 name hname
  refine ⟨_, ?_, ?_, walk_eq_along ht h⟩
  · rw [below_eq h]
    exact (d.tree.inOrder_perm top).map _
  · refine List.pairwise_map.mpr ((ht.pairwise_inOrder top).imp_of_mem fun {e e'} he he' hlt => ?_)
    show (dir.descend e.1).compare (dir.descend e'.1) = .lt
    rw [Path.compare_descend (text_ne_empty_of_find h) (hproper e he) (hproper e' he')]
    exact hlt

/-- A directory that can be listed is walked through, one that can not ends the walk at once. -/
theorem cases_of_walk (ht : d.tree.WellFormed) (dir : Path) :
    (∃ fault, d.list dir = .error fault ∧ d.walk .refuse dir = .failing (.io dir fault)) ∨
      ∃ entries paths, d.list dir = .ok paths ∧ entries.Perm (d.below dir) ∧
        d.walk .refuse dir = .along entries := by
  cases hlist : d.list dir with
  | error fault =>
    refine .inl ⟨fault, rfl, ?_⟩
    show d.walkWithin .refuse (2 * d.tree.entries.length + 1 + 1) dir = _
    rw [walkWithin, hlist]
  | ok paths =>
    obtain ⟨top, hfind, -⟩ := list_eq_ok.mp hlist
    obtain ⟨entries, hperm, -, hwalk⟩ := exists_walk_eq_along ht hfind
    exact .inr ⟨entries, paths, rfl, hperm, hwalk⟩

end Disk

end Monorepo
