import Monorepo.Proofs.AppFiles
import Monorepo.Proofs.Scheduling

/-!
# The app of a name

The apps of a repository are loaded side by side and then searched in the order of their files.  The
search ends at the first of the name, and where it comes to the end it has counted those that could
not be loaded:

* `LoadedApp.Named` — what is searched for;
* `Repository.searchNamed_split`, `Repository.searchNamed_of_none` — the two ways that a search
  ends;
* `Repository.FindsNamed` — which app is given, whatever the schedule and whatever becomes of the
  others, and what is said if there is none;
* `Repository.findsNamed_of_openAt` — this is so for every number of apps that can be loaded at a
  time.

The settings may ask for more permits than there can be.  Nothing refuses them, and the program ends:
`Repository.not_findsNamed_many_permits`.
-/

namespace Monorepo

/-- A file holds an app of a name. -/
def LoadedApp.Named (name : String) (loaded : LoadedApp) : Prop :=
  ∃ app, loaded.result = .ok app ∧ app.name = name

namespace Repository

variable {name : String} {failed : Nat} {app : App} {loaded : LoadedApp}
  {apps before after : List LoadedApp}

/-! ### The search -/

theorem searchNamed_cons_named (h : loaded.result = .ok app) (hname : app.name = name) :
    searchNamed name failed (loaded :: apps) = .ok app := by
  rw [searchNamed, h]
  exact if_pos hname

/-- What is not of the name is passed over, and counted if it could not be loaded. -/
theorem searchNamed_cons (h : ¬ loaded.Named name) :
    searchNamed name failed (loaded :: apps) =
      searchNamed name (failed + failureCount [loaded]) apps := by
  rw [searchNamed]
  cases hresult : loaded.result with
  | ok app =>
    have hother : app.name ≠ name := fun hname => h ⟨app, hresult, hname⟩
    have hcount : failureCount [loaded] = 0 := by
      simp [failureCount, hresult, Except.toBool]
    rw [hcount]
    exact if_neg hother
  | error error =>
    have hcount : failureCount [loaded] = 1 := by
      simp [failureCount, hresult, Except.toBool]
    rw [hcount]

/-- A search goes on behind those that are not of the name. -/
theorem searchNamed_append (h : ∀ other ∈ before, ¬ other.Named name) :
    searchNamed name failed (before ++ apps) =
      searchNamed name (failed + failureCount before) apps := by
  induction before generalizing failed with
  | nil => rfl
  | cons first rest ih =>
    rw [List.forall_mem_cons] at h
    have hcount : failureCount (first :: rest) = failureCount [first] + failureCount rest := by
      rw [failureCount, ← List.singleton_append, List.countP_append]
      rfl
    rw [List.cons_append, searchNamed_cons h.1, ih h.2, hcount, Nat.add_assoc]

/-- **The search ends at the first of the name**, however many could not be loaded. -/
theorem searchNamed_split (h : ∀ other ∈ before, ¬ other.Named name)
    (hresult : loaded.result = .ok app) (hname : app.name = name) :
    searchNamed name failed (before ++ loaded :: after) = .ok app := by
  rw [searchNamed_append h]
  exact searchNamed_cons_named hresult hname

/-- **If there is none of the name, all that could not be loaded are counted.** -/
theorem searchNamed_of_none (h : ∀ other ∈ apps, ¬ other.Named name) :
    searchNamed name failed apps = .error (notNamed name (failed + failureCount apps)) := by
  rw [← List.append_nil apps, searchNamed_append h, List.append_nil]
  rfl

/-! ### The apps of a repository -/

variable {d d' : Disk} {root : Path} {settings : Settings} {r : Repository} {file : Path}

/-- A file loads to an app of a name. -/
def Holds (r : Repository) (d : Disk) (name : String) (file : Path) : Prop :=
  ∃ app, r.loader.load d file = .ok app ∧ app.name = name

/-- What a search among the apps of a repository gives, once they are loaded. -/
def searched (r : Repository) (d : Disk) (name : String) : Except Failure App :=
  searchNamed name 0 (r.loader.loadAll d r.appFiles)

/-- With so many permits, the apps are loaded and searched. -/
theorem appByName_of_le (h : r.settings.parallelism ≤ permitLimit) :
    r.appByName d name = .ok (r.searched d name) := by
  rw [appByName, loadApps, AppLoader.loadAllAtOnce_of_le _ _ _ h]
  rfl

/-- There can not be more, so that the program ends. -/
theorem appByName_of_lt (h : permitLimit < r.settings.parallelism) :
    r.appByName d name = .error .tooManyPermits := by
  rw [appByName, loadApps, AppLoader.loadAllAtOnce_of_lt _ _ _ h]
  rfl

/-- What becomes of asking a repository for the app of a name. -/
structure FindsNamed (r : Repository) (d : Disk) (name : String) : Prop where
  /-- It gives an app if a file holds one. -/
  found : (∃ app, r.appByName d name = .ok (.ok app)) ↔ ∃ file ∈ r.appFiles, r.Holds d name file
  /-- That is the app of the smallest such file, and the others do not count. -/
  least : ∀ app, r.appByName d name = .ok (.ok app) ↔
    ∃ file ∈ r.appFiles, r.loader.load d file = .ok app ∧ app.name = name ∧
      ∀ other ∈ r.appFiles, other.compare file = .lt → ¬ r.Holds d name other
  /-- Otherwise it says how many files could not be loaded, if there are any. -/
  missing : (∀ file ∈ r.appFiles, ¬ r.Holds d name file) →
    let failed := r.appFiles.countP fun file => !(r.loader.load d file).toBool
    r.appByName d name = .ok (.error (.ofMessage ("app '" ++ name ++ "' not found" ++
      if failed = 0 then "" else ", " ++ toString failed ++ " app config(s) failed to load")))
  /-- In whatever order the files are loaded, as many at a time as the settings say, the answer is the
  same. -/
  anySchedule : ∀ schedule p,
    (Pool.start r.appFiles r.settings.parallelism).run r.loader d schedule = some p →
      ∀ results, p.returned? = some results →
        r.appByName d name = .ok (searchNamed name 0 results)
  /-- And there is an answer. -/
  completes : ∀ schedule p,
    (Pool.start r.appFiles r.settings.parallelism).run r.loader d schedule = some p →
      ∃ rest q, p.run r.loader d rest = some q ∧ q.returned?.isSome = true

/-- In ascending order, what stands before a file is what is smaller. -/
theorem mem_before_iff {before after : List Path}
    (h : Path.Ascending (before ++ file :: after)) {other : Path} :
    other ∈ before ↔ other ∈ before ++ file :: after ∧ other.compare file = .lt := by
  obtain ⟨-, hafter, hacross⟩ := List.pairwise_append.mp h
  constructor
  · intro hother
    exact ⟨List.mem_append_left _ hother, hacross other hother file List.mem_cons_self⟩
  · intro hother
    obtain ⟨hmem, hless⟩ := hother
    rcases List.mem_append.mp hmem with hbefore | hbehind
    · exact hbefore
    · rw [Path.compare_eq] at hless
      rcases List.mem_cons.mp hbehind with rfl | hgreater
      · rw [Std.ReflOrd.compare_self] at hless
        cases hless
      · have hswap := (List.pairwise_cons.mp hafter).1 other hgreater
        rw [Path.compare_eq, Std.OrientedOrd.eq_swap, hless] at hswap
        cases hswap

/-- The search comes to the first file that holds an app of the name. -/
theorem searched_of_split {before after : List Path}
    (hfiles : r.appFiles = before ++ file :: after)
    (hbefore : ∀ other ∈ before, ¬ r.Holds d name other)
    (hload : r.loader.load d file = .ok app) (hname : app.name = name) :
    r.searched d name = .ok app := by
  have happs : r.loader.loadAll d r.appFiles =
      r.loader.loadAll d before ++ ⟨file, r.loader.load d file⟩ :: r.loader.loadAll d after := by
    rw [hfiles, AppLoader.loadAll, List.map_append]
    rfl
  rw [searched, happs]
  exact searchNamed_split (List.forall_mem_map.mpr hbefore) hload hname

/-- If no file holds one, the search comes to the end. -/
theorem searched_of_none (h : ∀ file ∈ r.appFiles, ¬ r.Holds d name file) :
    r.searched d name =
      .error (notNamed name (r.appFiles.countP fun file => !(r.loader.load d file).toBool)) := by
  have hcount : failureCount (r.loader.loadAll d r.appFiles) =
      r.appFiles.countP fun file => !(r.loader.load d file).toBool := List.countP_map
  have hnone : ∀ loaded ∈ r.loader.loadAll d r.appFiles, ¬ loaded.Named name :=
    List.forall_mem_map.mpr h
  rw [searched, searchNamed_of_none hnone, hcount, Nat.zero_add]

/-- A file that holds an app of the name, and none before it. -/
theorem exists_split_of_holds (h : ∃ file ∈ r.appFiles, r.Holds d name file) :
    ∃ before file after, r.appFiles = before ++ file :: after ∧ r.Holds d name file ∧
      ∀ other ∈ before, ¬ r.Holds d name other := by
  classical
  have hsome : (r.appFiles.find? fun file => r.Holds d name file).isSome = true := by
    simpa using h
  obtain ⟨file, hfind⟩ := Option.isSome_iff_exists.mp hsome
  obtain ⟨hholds, before, after, hfiles, hbefore⟩ := List.find?_eq_some_iff_append.mp hfind
  exact ⟨before, file, after, hfiles, by simpa using hholds, by simpa using hbefore⟩

theorem searched_eq_ok : r.searched d name = .ok app ↔
    ∃ before file after, r.appFiles = before ++ file :: after ∧ r.loader.load d file = .ok app ∧
      app.name = name ∧ ∀ other ∈ before, ¬ r.Holds d name other := by
  constructor
  · intro h
    by_cases hholds : ∃ file ∈ r.appFiles, r.Holds d name file
    · obtain ⟨before, file, after, hfiles, ⟨app', hload, hname⟩, hbefore⟩ :=
        exists_split_of_holds hholds
      cases h.symm.trans (searched_of_split hfiles hbefore hload hname)
      exact ⟨before, file, after, hfiles, hload, hname, hbefore⟩
    · rw [searched_of_none fun file hfile hholdsFile => hholds ⟨file, hfile, hholdsFile⟩] at h
      cases h
  · intro h
    obtain ⟨before, file, after, hfiles, hload, hname, hbefore⟩ := h
    exact searched_of_split hfiles hbefore hload hname

/-- An app of the name is given exactly if a file holds one. -/
theorem exists_searched_iff :
    (∃ app, r.searched d name = .ok app) ↔ ∃ file ∈ r.appFiles, r.Holds d name file := by
  constructor
  · intro h
    obtain ⟨app, hok⟩ := h
    obtain ⟨before, file, after, hfiles, hload, hname, -⟩ := searched_eq_ok.mp hok
    exact ⟨file, by simp [hfiles], app, hload, hname⟩
  · intro h
    obtain ⟨before, file, after, hfiles, ⟨app, hload, hname⟩, hbefore⟩ := exists_split_of_holds h
    exact ⟨app, searched_of_split hfiles hbefore hload hname⟩

/-- Where the files ascend, the first that holds an app of the name is the smallest. -/
theorem searched_eq_ok_of_ascending (hascending : Path.Ascending r.appFiles) :
    r.searched d name = .ok app ↔
      ∃ file ∈ r.appFiles, r.loader.load d file = .ok app ∧ app.name = name ∧
        ∀ other ∈ r.appFiles, other.compare file = .lt → ¬ r.Holds d name other := by
  rw [searched_eq_ok]
  constructor
  · intro h
    obtain ⟨before, file, after, hfiles, hload, hname, hbefore⟩ := h
    rw [hfiles] at hascending ⊢
    refine ⟨file, by simp, hload, hname, fun other hother hless => hbefore other ?_⟩
    exact (mem_before_iff hascending).mpr ⟨hother, hless⟩
  · intro h
    obtain ⟨file, hfile, hload, hname, hsmaller⟩ := h
    obtain ⟨before, after, hfiles⟩ := List.append_of_mem hfile
    rw [hfiles] at hascending hsmaller
    refine ⟨before, file, after, hfiles, hload, hname, fun other hother => ?_⟩
    obtain ⟨hmem, hless⟩ := (mem_before_iff hascending).mp hother
    exact hsmaller other hmem hless

/-- Where there can be so many permits, the answer is that of the search. -/
theorem findsNamed_of_le (hascending : Path.Ascending r.appFiles)
    (hpermits : r.settings.parallelism ≤ permitLimit) : FindsNamed r d name := by
  have happ : ∀ result, r.appByName d name = .ok result ↔ r.searched d name = result := by
    intro result
    rw [appByName_of_le hpermits, Except.ok.injEq]
  constructor
  case found =>
    simp only [happ]
    exact exists_searched_iff
  case least =>
    intro app
    rw [happ]
    exact searched_eq_ok_of_ascending hascending
  case missing =>
    intro hnone
    exact (happ _).mpr (searched_of_none hnone)
  case anySchedule =>
    intro schedule p hrun results hreturned
    obtain ⟨hsound, -⟩ := Pool.sound_start.run hrun
    rw [happ, searched, hsound.returned?_eq hreturned]
  case completes =>
    intro schedule p hrun
    obtain ⟨hsound, -⟩ := Pool.sound_start.run hrun
    obtain ⟨rest, q, hrest, hreturned⟩ := hsound.exists_completion
    exact ⟨rest, q, hrest, by rw [hreturned]; rfl⟩

/-- A program that ends has neither found an app nor said that there is none. -/
theorem not_findsNamed_of_lt (h : permitLimit < r.settings.parallelism) :
    ¬ FindsNamed r d name := by
  intro hfinds
  have hended : r.appByName d name = .error .tooManyPermits := appByName_of_lt h
  by_cases hholds : ∃ file ∈ r.appFiles, r.Holds d name file
  · obtain ⟨app, happ⟩ := hfinds.found.mpr hholds
    cases hended.symm.trans happ
  · have hmissing := hfinds.missing fun file hfile hholdsFile => hholds ⟨file, hfile, hholdsFile⟩
    cases hended.symm.trans hmissing

/-- **The app of a name.**  Asking an opened repository for it gives the app of the smallest file
that holds one, and an error that counts the files that could not be loaded if none does, unless the
settings ask for more permits than there can be: then the program ends. -/
theorem findsNamed_of_openAt (hopen : openAt d root settings = .ok r) (d' : Disk) (name : String) :
    (FindsNamed r d' name ↔ settings.parallelism ≤ permitLimit) ∧
      (permitLimit < settings.parallelism → r.appByName d' name = .error .tooManyPermits) := by
  obtain ⟨-, -, store, files, -, hdiscover, rfl⟩ := openAt_eq_ok.mp hopen
  have hascending : Path.Ascending files := ascending_of_discoverApps hdiscover
  refine ⟨⟨fun hfinds => ?_, fun hpermits => findsNamed_of_le hascending hpermits⟩,
    fun hmany => appByName_of_lt hmany⟩
  exact Nat.le_of_not_lt fun hmany => not_findsNamed_of_lt hmany hfinds

/-- Three app files: one that holds no app and two with an app of the same name. -/
def twiceDisk : Disk where
  tree := ⟨[
    (["blank"], .directory),
    (["blank", ".app.toml"], .file []),
    (["first"], .directory),
    (["first", ".app.toml"],
      .file (asciiLines ["name='shop'", "[[Task]]", "name='t'", "command='c'"])),
    (["second"], .directory),
    (["second", ".app.toml"],
      .file (asciiLines ["name='shop'", "[[Task]]", "name='t'", "command='other'"]))]⟩

/-- The directories of the root are searched, and so many apps are loaded at a time. -/
def oneLevelSearch (parallelism : Nat) : Settings where
  searchDepth := 1
  appFileNames := [".app.toml"]
  parallelism := parallelism

/-- The paths of the three files. -/
def twiceFiles : List Path :=
  [⟨"/blank/.app.toml"⟩, ⟨"/first/.app.toml"⟩, ⟨"/second/.app.toml"⟩]

/-- The repository of the three files. -/
def twiceRepository (parallelism : Nat) : Repository where
  root := ⟨"/"⟩
  settings := oneLevelSearch parallelism
  store := {}
  appFiles := twiceFiles

theorem openAt_twiceDisk {parallelism : Nat} (h : parallelism ≠ 0) :
    openAt twiceDisk ⟨"/"⟩ (oneLevelSearch parallelism) = .ok (twiceRepository parallelism) := by
  have hvalid : (oneLevelSearch parallelism).validate = .ok () := if_neg h
  have hdown : twiceDisk.findDown ⟨"/."⟩ ⟨".app.toml"⟩ 1 = .ok twiceFiles :=
    Disk.findDown_eq_ok.mpr ⟨⟨"/"⟩, _, by decide +kernel, by decide +kernel,
      (Path.sort_eq_self (by decide)).symm⟩
  have hfound : foundIn twiceDisk ⟨"/"⟩ (oneLevelSearch parallelism) =
      .ok [[twiceFiles]] :=
    mapM_eq_ok.mpr (.cons (mapM_eq_ok.mpr (.cons hdown .nil)) .nil)
  have hdirs : ∀ dir ∈ (oneLevelSearch parallelism).discoverDirsBelow ⟨"/"⟩,
      twiceDisk.isDirectory dir = true :=
    List.forall_mem_singleton.mpr (by decide +kernel)
  have hdiscover : discoverApps twiceDisk ⟨"/"⟩ (oneLevelSearch parallelism) =
      .ok twiceFiles := by
    refine discoverApps_eq_ok.mpr ⟨hdirs, _, hfound, ?_⟩
    rw [Path.sort_eq_self (by decide)]
    decide
  have hincludes : twiceDisk.requireDirectories
      ((oneLevelSearch parallelism).includeDirsBelow ⟨"/"⟩) = .ok () := rfl
  have hload : IncludeStore.load twiceDisk
      ((oneLevelSearch parallelism).includeDirsBelow ⟨"/"⟩) = .ok {} := by
    show IncludeStore.load twiceDisk [] = .ok {}
    decide +kernel
  exact openAt_eq_ok.mpr ⟨hvalid, hincludes, {}, _, hload, hdiscover, rfl⟩

/-- The first of the two apps is given, and the file that holds none is counted where there is no
app of the name. -/
theorem findsNamed_of_openAt_twice :
    openAt twiceDisk ⟨"/"⟩ (oneLevelSearch 2) = .ok (twiceRepository 2) ∧
      FindsNamed (twiceRepository 2) twiceDisk "shop" ∧
      (twiceRepository 2).appByName twiceDisk "shop" =
        .ok (.ok { name := "shop", tasks := [{ name := "t", command := "c" }] }) ∧
      (twiceRepository 2).appByName twiceDisk "bank" =
        .ok (.error (.ofMessage "app 'bank' not found, 1 app config(s) failed to load")) := by
  have hopen := openAt_twiceDisk (by decide : 2 ≠ 0)
  have hfinds := (findsNamed_of_openAt hopen twiceDisk "shop").1.mpr (by decide)
  exact ⟨hopen, hfinds, by decide +kernel, by decide +kernel⟩

/-- **With one permit more than there can be**, the repository is opened, but the program ends when it
is asked for an app that one of its files holds. -/
theorem not_findsNamed_many_permits :
    openAt twiceDisk ⟨"/"⟩ (oneLevelSearch (permitLimit + 1)) =
        .ok (twiceRepository (permitLimit + 1)) ∧
      ⟨"/first/.app.toml"⟩ ∈ (twiceRepository (permitLimit + 1)).appFiles ∧
      (twiceRepository (permitLimit + 1)).Holds twiceDisk "shop" ⟨"/first/.app.toml"⟩ ∧
      (twiceRepository (permitLimit + 1)).appByName twiceDisk "shop" =
        .error .tooManyPermits ∧
      ¬ FindsNamed (twiceRepository (permitLimit + 1)) twiceDisk "shop" := by
  have hmany : permitLimit < (twiceRepository (permitLimit + 1)).settings.parallelism :=
    Nat.lt_succ_self _
  have hload : (AppLoader.mk {} .multiple).load twiceDisk ⟨"/first/.app.toml"⟩ =
      .ok { name := "shop", tasks := [{ name := "t", command := "c" }] } := by decide +kernel
  exact ⟨openAt_twiceDisk (Nat.succ_ne_zero _), by decide, ⟨_, hload, rfl⟩, appByName_of_lt hmany,
    not_findsNamed_of_lt hmany⟩

end Repository

end Monorepo
