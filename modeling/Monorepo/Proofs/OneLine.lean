import Monorepo.Proofs.LineBreaks
import Monorepo.Proofs.Tracing

/-!
# Errors on one line

An error is told in one line if what it tells of is written in one line.  Paths stand in quotes, but
names, ids and patterns stand in a message as they are in a file:

* `App.words`, `IncludeFile.words` — what a message can take from a file;
* `Text.BreaksFrom` — the line breaks of a text are written in certain words;
* `App.breaksFrom_of_validate`, `IncludeFile.breaksFrom_of_validate` — the line breaks of a violation
  are written in what is checked;
* `lineBreaks_of_load` — the line breaks of an error are written in the files, in a name, an id or a
  pattern;
* `not_oneLine_of_load` — they need not be none.
-/

namespace Monorepo

/-! ### Words of files -/

/-- What a message can take from a task. -/
def Task.words (t : Task) : List String :=
  t.name :: (t.includes ++ t.input.files.paths)

/-- What a message can take from an app. -/
def App.words (a : App) : List String :=
  a.name :: (a.includes ++ a.tasks.flatMap Task.words)

/-- What a message can take from an input fragment. -/
def InputFragment.words (f : InputFragment) : List String :=
  f.id :: f.input.files.paths

/-- What a message can take from a group of tasks. -/
def TaskGroup.words (g : TaskGroup) : List String :=
  g.id :: g.tasks.flatMap Task.words

/-- What a message can take from an include file. -/
def IncludeFile.words (f : IncludeFile) : List String :=
  f.inputs.flatMap InputFragment.words ++ f.outputs.map OutputFragment.id
    ++ f.taskGroups.flatMap TaskGroup.words

section Words

variable {word : String}

theorem Task.mem_words {t : Task} :
    word ∈ t.words ↔ word = t.name ∨ word ∈ t.includes ∨ word ∈ t.input.files.paths := by
  rw [words, List.mem_cons, List.mem_append]

theorem App.mem_words {a : App} :
    word ∈ a.words ↔ word = a.name ∨ word ∈ a.includes ∨ ∃ t ∈ a.tasks, word ∈ t.words := by
  rw [words, List.mem_cons, List.mem_append, List.mem_flatMap]

theorem TaskGroup.mem_words {g : TaskGroup} :
    word ∈ g.words ↔ word = g.id ∨ ∃ t ∈ g.tasks, word ∈ t.words := by
  rw [words, List.mem_cons, List.mem_flatMap]

theorem IncludeFile.mem_words {f : IncludeFile} :
    word ∈ f.words ↔ ((∃ i ∈ f.inputs, word ∈ i.words) ∨ ∃ o ∈ f.outputs, o.id = word) ∨
      ∃ g ∈ f.taskGroups, word ∈ g.words := by
  rw [words, List.mem_append, List.mem_append, List.mem_flatMap, List.mem_map, List.mem_flatMap]

/-- Dropping blank outputs leaves all words as they are. -/
theorem App.words_prune (a : App) : a.prune.words = a.words := by
  rw [words, words, prune, List.flatMap_map]
  rfl

theorem IncludeFile.words_prune (f : IncludeFile) : f.prune.words = f.words := by
  have hgroup (g : TaskGroup) : g.prune.words = g.words := by
    rw [TaskGroup.words, TaskGroup.words, TaskGroup.prune, List.flatMap_map]
    rfl
  rw [words, words, prune, List.map_map, List.flatMap_map, funext hgroup]
  rfl

/-- An id that a file defines is one of its words. -/
theorem IncludeFile.mem_words_of_mem_ids {f : IncludeFile} {space : IdSpace}
    (h : (space, word) ∈ f.ids) : word ∈ f.words := by
  rw [ids, List.mem_append, List.mem_append, List.mem_map, List.mem_map, List.mem_map] at h
  rw [mem_words]
  rcases h with (⟨i, hi, hid⟩ | ⟨o, ho, hid⟩) | ⟨g, hg, hid⟩
  · cases hid
    exact .inl (.inl ⟨i, hi, List.mem_cons_self⟩)
  · cases hid
    exact .inl (.inr ⟨o, ho, rfl⟩)
  · cases hid
    exact .inr ⟨g, hg, List.mem_cons_self⟩

/-- A word of a fragment that a store has. -/
inductive IncludeStore.HasWord (s : IncludeStore) (word : String) : Prop
  | input {id : String} {f : InputFragment} (hf : s.inputs.fragment? id = some f)
    (hword : word ∈ f.words) : HasWord s word
  | group {id : String} {g : TaskGroup} (hg : s.taskGroups.fragment? id = some g)
    (hword : word ∈ g.words) : HasWord s word

/-- A word of a configuration file below directories. -/
def Disk.HasWord (d : Disk) (dirs : List Path) (word : String) : Prop :=
  ∃ file ∈ d.configFilesBelow dirs, ∃ written,
    ConfigFile.read IncludeFile d file = .ok written ∧ word ∈ written.words

theorem IncludeFile.HeldBy.hasWord {d : Disk} {dirs : List Path} {file : Path} {f : IncludeFile}
    (h : f.HeldBy d file) (hfile : file ∈ d.configFilesBelow dirs) (hword : word ∈ f.words) :
    d.HasWord dirs word := by
  obtain ⟨written, hread, rfl, -⟩ := h
  rw [words_prune] at hword
  exact ⟨file, hfile, written, hread, hword⟩

variable {s : IncludeStore}

/-- What is merged into a task brings words of the store. -/
theorem Task.word_of_completed {t : Task} (h : word ∈ (t.completed s).words) :
    word ∈ t.words ∨ s.HasWord word := by
  have hextended := t.extended_completed s
  rw [mem_words, hextended.name, hextended.includes, hextended.files, List.mem_append,
    List.mem_flatMap] at h
  rcases h with hname | hnone | hown | ⟨f, hf, hpath⟩
  · exact .inl (mem_words.mpr (.inl hname))
  · cases hnone
  · exact .inl (mem_words.mpr (.inr (.inr hown)))
  · obtain ⟨id, -, hid⟩ := List.mem_filterMap.mp hf
    exact .inr (.input hid (List.mem_cons_of_mem _ hpath))

theorem App.word_of_completed {a : App} (h : word ∈ (a.completed s).words) :
    word ∈ a.words ∨ s.HasWord word := by
  rw [mem_words, completed] at h
  rcases h with hname | hnone | ⟨u, hu, hword⟩
  · exact .inl (mem_words.mpr (.inl hname))
  · cases hnone
  · rcases List.mem_append.mp hu with hown | hgroup
    · obtain ⟨t, ht, rfl⟩ := List.mem_map.mp hown
      refine (Task.word_of_completed hword).imp_left fun hmem => ?_
      exact mem_words.mpr (.inr (.inr ⟨t, ht, hmem⟩))
    · obtain ⟨id, -, g, hg, hmem⟩ := IncludeStore.mem_tasksOf.mp hgroup
      exact .inr (.group hg (TaskGroup.mem_words.mpr (.inr ⟨u, hmem, hword⟩)))

end Words

/-! ### Texts with line breaks from words -/

namespace Text

/-- The line breaks of a text are written in words. -/
def BreaksFrom (words : String → Prop) (text : String) : Prop :=
  ∀ c ∈ lineBreaks, c ∈ text.toList → ∃ word, words word ∧ c ∈ word.toList

namespace BreaksFrom

variable {words words' : String → Prop} {text : String} {parts : List String}

theorem of_word (h : words text) : BreaksFrom words text :=
  fun _ _ hc => ⟨text, h, hc⟩

theorem of_breaksAs (h : BreaksAs text parts) (hparts : ∀ part ∈ parts, BreaksFrom words part) :
    BreaksFrom words text := by
  intro c hbreak hc
  obtain ⟨part, hpart, hmem⟩ := (h c hbreak).mp hc
  exact hparts part hpart c hbreak hmem

theorem of_oneLine (h : OneLine text) : BreaksFrom words text :=
  of_breaksAs (.of_oneLine h) nofun

theorem append {other : String} (h : BreaksFrom words text) (h' : BreaksFrom words other) :
    BreaksFrom words (text ++ other) :=
  of_breaksAs ((BreaksAs.self text).append (.self other))
    (List.forall_mem_cons.mpr ⟨h, List.forall_mem_singleton.mpr h'⟩)

/-- A text between texts without line breaks. -/
theorem enclosed {before after : String} (hbefore : OneLine before) (hafter : OneLine after)
    (h : BreaksFrom words text) : BreaksFrom words (before ++ text ++ after) :=
  ((of_oneLine hbefore).append h).append (of_oneLine hafter)

theorem mono (h : BreaksFrom words text) (hwords : ∀ word, words word → words' word) :
    BreaksFrom words' text := by
  intro c hbreak hc
  obtain ⟨word, hword, hmem⟩ := h c hbreak hc
  exact ⟨word, hwords word hword, hmem⟩

theorem oneLine (h : BreaksFrom words text) (hwords : ∀ word, words word → OneLine word) :
    OneLine text := by
  intro c hc hbreak
  obtain ⟨word, hword, hmem⟩ := h c hbreak hc
  exact hwords word hword c hmem hbreak

end BreaksFrom

end Text

open Text

section Violations

variable {words : String → Prop}

/-! ### Element paths -/

theorem breaksFrom_namedSegment {kind key value : String} (hkind : OneLine kind)
    (hkey : OneLine key) (h : words value) : BreaksFrom words (namedSegment kind key value) := by
  have hopening : OneLine (kind ++ "(" ++ key ++ ": ") :=
    ((hkind.append (by decide)).append hkey).append (by decide)
  rw [namedSegment]
  split_ifs
  · exact .of_oneLine hkind
  · exact .enclosed hopening (by decide) (.of_word h)

theorem Task.breaksFrom_segment {t : Task} (h : words t.name) : BreaksFrom words t.segment :=
  breaksFrom_namedSegment (by decide) (by decide) h

/-- Sections and fields have fixed names. -/
theorem breaksFrom_path {paths : List (List String)}
    (hfixed : ∀ p ∈ paths, ∀ segment ∈ p, OneLine segment) {p : List String} (h : p ∈ paths) :
    ∀ segment ∈ p, BreaksFrom words segment :=
  fun segment hsegment => .of_oneLine (hfixed p h segment hsegment)

theorem Task.PathAmong.breaksFrom {tasks : List Task} {p : List String} (h : PathAmong tasks p)
    (hnames : ∀ t ∈ tasks, words t.name) : ∀ segment ∈ p, BreaksFrom words segment := by
  have hsegment {t : Task} (ht : t ∈ tasks) : BreaksFrom words t.segment :=
    breaksFrom_segment (hnames t ht)
  cases h with
  | taken ht => exact List.forall_mem_singleton.mpr (hsegment ht)
  | name ht | command ht =>
    exact List.forall_mem_cons.mpr
      ⟨hsegment ht, List.forall_mem_singleton.mpr (.of_oneLine (by decide))⟩
  | input ht hp | output ht hp =>
    exact List.forall_mem_cons.mpr ⟨hsegment ht,
      List.forall_mem_cons.mpr ⟨.of_oneLine (by decide), breaksFrom_path (by decide) hp⟩⟩

theorem App.PathIn.breaksFrom {a : App} {p : List String} (h : a.PathIn p) :
    ∀ segment ∈ p, BreaksFrom (· ∈ a.words) segment := by
  have hnames : ∀ t ∈ a.tasks, t.name ∈ a.words := fun t ht =>
    mem_words.mpr (.inr (.inr ⟨t, ht, List.mem_cons_self⟩))
  cases h with
  | name | includes | tasks => exact List.forall_mem_singleton.mpr (.of_oneLine (by decide))
  | taskIncludes ht =>
    exact List.forall_mem_cons.mpr ⟨Task.breaksFrom_segment (hnames _ ht),
      List.forall_mem_singleton.mpr (.of_oneLine (by decide))⟩
  | task hp => exact hp.breaksFrom hnames

theorem IncludeFile.PathIn.breaksFrom {f : IncludeFile} {p : List String} (h : f.PathIn p) :
    ∀ segment ∈ p, BreaksFrom (· ∈ f.words) segment := by
  have hsegment {kind id : String} (hkind : OneLine kind) (hid : id ∈ f.words) :
      BreaksFrom (· ∈ f.words) (namedSegment kind "id" id) :=
    breaksFrom_namedSegment hkind (by decide) hid
  have hgroup {g : TaskGroup} (hg : g ∈ f.taskGroups) : g.id ∈ f.words :=
    mem_words.mpr (.inr ⟨g, hg, List.mem_cons_self⟩)
  cases h with
  | @input i p hi hp =>
    have hid : i.id ∈ f.words := mem_words.mpr (.inl (.inl ⟨i, hi, List.mem_cons_self⟩))
    exact List.forall_mem_cons.mpr ⟨hsegment (by decide) hid, breaksFrom_path (by decide) hp⟩
  | @output o p ho hp =>
    have hid : o.id ∈ f.words := mem_words.mpr (.inl (.inr ⟨o, ho, rfl⟩))
    exact List.forall_mem_cons.mpr ⟨hsegment (by decide) hid, breaksFrom_path (by decide) hp⟩
  | @group g field hg hfield =>
    have hfixed : ∀ name ∈ ["id", "Task"], OneLine name := by decide
    exact List.forall_mem_cons.mpr ⟨hsegment (by decide) (hgroup hg),
      List.forall_mem_singleton.mpr (.of_oneLine (hfixed field hfield))⟩
  | @groupTask g p hg hp =>
    refine List.forall_mem_cons.mpr ⟨hsegment (by decide) (hgroup hg), hp.breaksFrom fun t ht => ?_⟩
    exact mem_words.mpr (.inr ⟨g, hg, TaskGroup.mem_words.mpr (.inr ⟨t, ht, List.mem_cons_self⟩)⟩)

/-! ### What is said of a field -/

/-- The line breaks of what findings say are written in words. -/
def Said (words : String → Prop) (fs : List Finding) : Prop :=
  ∀ f ∈ fs, BreaksFrom words f.message

namespace Said

variable {fs gs : List Finding}

theorem append (hf : Said words fs) (hg : Said words gs) : Said words (fs ++ gs) :=
  List.forall_mem_append.mpr ⟨hf, hg⟩

theorem flatMap {α : Type} {found : α → List Finding} {l : List α}
    (h : ∀ a ∈ l, Said words (found a)) : Said words (l.flatMap found) := by
  intro f hf
  obtain ⟨a, ha, hfound⟩ := List.mem_flatMap.mp hf
  exact h a ha f hfound

theorem expect {levels : List Step} {field : Step} {rule : Prop} [Decidable rule] {message : String}
    (h : BreaksFrom words message) : Said words (expect levels field rule message) := by
  by_cases hrule : rule
  · rw [Monorepo.expect, if_pos hrule]
    exact List.forall_mem_nil _
  · rw [Monorepo.expect, if_neg hrule]
    exact List.forall_mem_singleton.mpr h

/-- A fixed message says nothing of its field but its place. -/
theorem fixed {levels : List Step} {field : Step} {rule : Prop} [Decidable rule] {message : String}
    (h : OneLine message) : Said words (Monorepo.expect levels field rule message) :=
  expect (.of_oneLine h)

end Said

section Messages

variable (levels : List Step)

theorem said_paths (paths : List String) : Said words (pathFindings levels paths) :=
  .flatMap fun _ _ => .fixed (by decide)

theorem Files.said (f : Files) (h : ∀ pattern ∈ f.paths, words pattern) :
    Said words (f.findings levels) :=
  .flatMap fun pattern hpattern => .append (.fixed (by decide))
    (.expect (.enclosed (by decide) (by decide) (.of_word (h pattern hpattern))))

theorem GolangSources.said (s : GolangSources) : Said words (s.findings levels) :=
  .append (.fixed (by decide)) (said_paths levels s.paths)

theorem Input.said (i : Input) (h : ∀ pattern ∈ i.files.paths, words pattern) :
    Said words (i.findings levels) :=
  .append (.append (i.files.said _ h) (said_paths _ i.gitFiles.paths)) (i.golangSources.said _)

theorem S3Upload.said (u : S3Upload) : Said words (u.findings levels) :=
  .append (.fixed (by decide)) (.fixed (by decide))

theorem RegistryUpload.said (u : RegistryUpload) : Said words (u.findings levels) :=
  .append (.fixed (by decide)) (.fixed (by decide))

theorem Output.said (o : Output) : Said words (o.findings levels) := by
  apply Said.append
  · exact .flatMap fun f _ => .append (.fixed (by decide)) (f.s3Upload.said _)
  · exact .flatMap fun d _ => .append (.fixed (by decide)) (d.registryUpload.said _)

theorem Task.said (t : Task) (h : ∀ word ∈ t.words, words word) :
    Said words (t.findings levels) := by
  have hpatterns : ∀ pattern ∈ t.input.files.paths, words pattern := fun pattern hpattern =>
    h pattern (List.mem_cons_of_mem _ (List.mem_append_right _ hpattern))
  apply Said.append
  · exact .append (.append (.fixed (by decide)) (.fixed (by decide))) (t.input.said _ hpatterns)
  · exact t.output.said _

theorem Task.said_findingsAfter (before : List String) (tasks : List Task)
    (h : ∀ t ∈ tasks, ∀ word ∈ t.words, words word) :
    Said words (findingsAfter levels before tasks) := by
  induction tasks generalizing before with
  | nil => exact nofun
  | cons t rest ih =>
    obtain ⟨ht, hrest⟩ := List.forall_mem_cons.mp h
    apply Said.append
    · exact .append (.expect (.enclosed (by decide) (by decide) (.of_word (ht _ List.mem_cons_self))))
        (t.said _ ht)
    · exact ih _ hrest

theorem said_includes (includes : List String) (h : ∀ id ∈ includes, words id) :
    Said words (includesFindings levels includes) := by
  have hids : BreaksAs (", ".intercalate includes) includes := .intercalate (by decide) includes
  have hfixed : BreaksAs "unresolved include references: " [] := .of_oneLine (by decide)
  exact .expect (.of_breaksAs (hfixed.append hids) fun id hid => .of_word (h id hid))

theorem InputFragment.said (f : InputFragment) (h : ∀ word ∈ f.words, words word) :
    Said words (f.findings levels) :=
  .append (.append (.fixed (by decide)) (.fixed (by decide)))
    (f.input.said _ fun pattern hpattern => h pattern (List.mem_cons_of_mem _ hpattern))

theorem OutputFragment.said (f : OutputFragment) : Said words (f.findings levels) :=
  .append (.append (.fixed (by decide)) (.fixed (by decide))) (f.output.said _)

theorem TaskGroup.said (g : TaskGroup) (h : ∀ t ∈ g.tasks, ∀ word ∈ t.words, words word) :
    Said words (g.findings levels) :=
  .append (.append (.fixed (by decide)) (.fixed (by decide))) (Task.said_findingsAfter _ _ _ h)

end Messages

theorem App.said (mode : TaskMode) (a : App) : Said (· ∈ a.words) (a.findings mode) := by
  have htasks : ∀ t ∈ a.tasks, ∀ word ∈ t.words, word ∈ a.words := fun t ht word hword =>
    mem_words.mpr (.inr (.inr ⟨t, ht, hword⟩))
  have hmode : Said (· ∈ a.words) (mode.findings a.tasks) := by
    cases mode with
    | multiple => exact nofun
    | single =>
      have hfound : OneLine "exactly 1 task must be defined, found " := by decide
      have hfixed {text : String} (htext : OneLine text) : BreaksFrom (· ∈ a.words) text :=
        .of_oneLine htext
      refine .append (.fixed (hfound.append (oneLine_toString _))) (.flatMap fun t ht => ?_)
      have hname : BreaksFrom (· ∈ a.words) t.name := .of_word (htasks t ht _ List.mem_cons_self)
      exact .expect (((((hfixed (by decide)).append hname).append (hfixed (by decide))).append
        (hfixed (by decide))).append (hfixed (by decide)))
  apply Said.append
  · apply Said.append
    · apply Said.append
      · exact .append (.fixed (by decide))
          (said_includes _ a.includes fun id hid => mem_words.mpr (.inr (.inl hid)))
      · exact .flatMap fun t ht => said_includes _ t.includes fun id hid =>
          htasks t ht id (Task.mem_words.mpr (.inr (.inl hid)))
    · exact hmode
  · exact Task.said_findingsAfter _ _ a.tasks htasks

theorem IncludeFile.said (f : IncludeFile) : Said (· ∈ f.words) f.findings := by
  apply Said.append
  · apply Said.append
    · exact .flatMap fun i hi => i.said _ fun word hword =>
        mem_words.mpr (.inl (.inl ⟨i, hi, hword⟩))
    · exact .flatMap fun o _ => o.said _
  · exact .flatMap fun g hg => g.said _ fun t ht word hword =>
      mem_words.mpr (.inr ⟨g, hg, TaskGroup.mem_words.mpr (.inr ⟨t, ht, hword⟩)⟩)

/-! ### Violations -/

/-- The line breaks of a violation of an app are written in its words. -/
theorem App.breaksFrom_of_validate {mode : TaskMode} {a : App} {v : Violation}
    (h : a.validate mode = .error v) :
    ∀ part ∈ v.elementPath ++ [v.message], BreaksFrom (· ∈ a.words) part := by
  have hmem : v ∈ a.violations mode := by
    have hfirst : Check.first (a.violations mode) = .error v := (a.under_validate mode).symm.trans h
    exact List.mem_of_mem_head? (Check.first_eq_error.mp hfirst)
  obtain ⟨f, hf, rfl⟩ := List.mem_map.mp hmem
  exact List.forall_mem_append.mpr
    ⟨(pathIn_of_mem hmem).breaksFrom, List.forall_mem_singleton.mpr (a.said mode f hf)⟩

theorem IncludeFile.breaksFrom_of_validate {f : IncludeFile} {v : Violation}
    (h : f.validate = .error v) :
    ∀ part ∈ v.elementPath ++ [v.message], BreaksFrom (· ∈ f.words) part := by
  have hmem : v ∈ f.violations := by
    rw [validate_eq_first] at h
    exact List.mem_of_mem_head? (Check.first_eq_error.mp h)
  by_cases hdefined : f = {}
  · -- A file without fragments has one violation, of a fixed text.
    subst hdefined
    obtain rfl := List.mem_singleton.mp hmem
    exact List.forall_mem_singleton.mpr (.of_oneLine (by decide))
  · refine List.forall_mem_append.mpr ⟨(pathIn_of_mem hdefined hmem).breaksFrom, ?_⟩
    rw [violations, if_neg hdefined, List.nil_append] at hmem
    obtain ⟨found, hfound, rfl⟩ := List.mem_map.mp hmem
    exact List.forall_mem_singleton.mpr (f.said found hfound)

end Violations

/-! ### Errors -/

namespace LoadError

/-- An error that is not passed on from reading or decoding a file. -/
def IsOwn (e : LoadError) : Prop :=
  match e.root with
  | .parse .. => False
  | .io .. => False
  | _ => True

/-- The line breaks of a message are written in certain words. -/
structure WrittenIn (e : LoadError) (words : String → Prop) : Prop where
  /-- They are those of what the message shows as it is: a path gives none. -/
  shown : BreaksAs e.message e.shown
  /-- So the message is one line exactly if all that it shows is. -/
  oneLine_iff : OneLine e.message ↔ ∀ part ∈ e.shown, OneLine part
  /-- What the message shows takes them from the words. -/
  taken : ∀ part ∈ e.shown, BreaksFrom words part
  /-- So the message is one line if the words are. -/
  oneLine : (∀ word, words word → OneLine word) → OneLine e.message
  /-- A link is always told in one line. -/
  link : ∀ path, e.root = .symlink path → OneLine e.message

variable {words : String → Prop} {e : LoadError}

theorem writtenIn_of_taken (h : ∀ part ∈ e.shown, BreaksFrom words part)
    (hlink : ∀ path, e.root = .symlink path → e.shown = []) : e.WrittenIn words where
  shown := e.breaksAs_message
  oneLine_iff := e.breaksAs_message.oneLine_iff
  taken := h
  oneLine hwords := e.breaksAs_message.oneLine_iff.mpr fun part hpart =>
    (h part hpart).oneLine hwords
  link path hroot := by
    rw [e.breaksAs_message.oneLine_iff, hlink path hroot]
    exact nofun

theorem taken_reference {id referrer : String} {space : IdSpace} (hid : words id)
    (hreferrer : BreaksFrom words referrer) :
    ∀ part ∈ (reference id space referrer).shown, BreaksFrom words part :=
  List.forall_mem_cons.mpr ⟨.of_word hid, List.forall_mem_singleton.mpr hreferrer⟩

/-- What is done with a file is a fixed text. -/
theorem taken_inFile {activity : String} {file : Path} {inner : LoadError}
    (hactivity : OneLine activity) (h : ∀ part ∈ inner.shown, BreaksFrom words part) :
    ∀ part ∈ (inFile activity file inner).shown, BreaksFrom words part :=
  List.forall_mem_cons.mpr ⟨.of_oneLine hactivity, h⟩

end LoadError

theorem App.Dangling.taken {s : IncludeStore} {a : App} {e : LoadError} (h : a.Dangling s e) :
    ∀ part ∈ e.shown, BreaksFrom (· ∈ a.words) part := by
  cases h with
  | @ofTask t id ht hid =>
    have hwords : ∀ word ∈ t.words, word ∈ a.words := fun word hword =>
      mem_words.mpr (.inr (.inr ⟨t, ht, hword⟩))
    have hname : BreaksFrom (· ∈ a.words) t.name := .of_word (hwords _ List.mem_cons_self)
    exact LoadError.taken_reference (hwords id (Task.mem_words.mpr (.inr (.inl hid))))
      (.enclosed (by decide) (by decide) hname)
  | @ofApp id hid =>
    have hname : BreaksFrom (· ∈ a.words) a.name := .of_word List.mem_cons_self
    exact LoadError.taken_reference (mem_words.mpr (.inr (.inl hid)))
      (.enclosed (by decide) (by decide) hname)

theorem AppLoader.writtenIn_of_complete {loader : AppLoader} {file : Path} {written : App}
    {e : LoadError} (h : loader.complete file written = .error e) :
    e.WrittenIn fun word => word ∈ written.words ∨ loader.store.HasWord word := by
  rcases complete_eq_error.mp h with ⟨fault, hfault, rfl⟩ | ⟨-, v, hcheck, rfl⟩
  · have hdangling := App.dangling_prune.mp (App.dangling_of_fault? hfault)
    refine LoadError.writtenIn_of_taken (LoadError.taken_inFile (by decide) fun part hpart => ?_) ?_
    · exact (hdangling.taken part hpart).mono fun word hword => .inl hword
    · cases hdangling <;> exact nofun
  · refine LoadError.writtenIn_of_taken (LoadError.taken_inFile (by decide) fun part hpart => ?_) nofun
    -- The completed app is checked, and what it has in addition comes from the store.
    refine (App.breaksFrom_of_validate hcheck part hpart).mono fun word hword => ?_
    rw [← App.words_prune]
    exact App.word_of_completed hword

theorem IncludeStore.Traced.writtenIn {d : Disk} {dirs : List Path} {e : LoadError}
    (h : Traced d dirs e) (hown : e.IsOwn) : e.WrittenIn (d.HasWord dirs) := by
  cases h with
  | io | parse => cases hown
  | @symlink dir path => exact LoadError.writtenIn_of_taken nofun fun _ _ => rfl
  | @invalid file written v hfile hread hcheck =>
    refine LoadError.writtenIn_of_taken (LoadError.taken_inFile (by decide) fun part hpart => ?_) nofun
    refine (IncludeFile.breaksFrom_of_validate hcheck part hpart).mono fun word hword => ?_
    rw [IncludeFile.words_prune] at hword
    exact ⟨file, hfile, written, hread, hword⟩
  | @duplicateId first second f g space id hfirst _ hf _ hid =>
    have hword : d.HasWord dirs id := hf.hasWord hfirst (IncludeFile.mem_words_of_mem_ids hid)
    exact LoadError.writtenIn_of_taken (List.forall_mem_singleton.mpr (.of_word hword)) nofun
  | @unresolved origin f g t id horigin hf hg ht hid =>
    have hwords : ∀ word ∈ t.words, d.HasWord dirs word := fun word hword =>
      hf.hasWord horigin
        (IncludeFile.mem_words.mpr (.inr ⟨g, hg, TaskGroup.mem_words.mpr (.inr ⟨t, ht, hword⟩)⟩))
    have hname : BreaksFrom (d.HasWord dirs) t.name := .of_word (hwords _ List.mem_cons_self)
    refine LoadError.writtenIn_of_taken (LoadError.taken_inFile (by decide) ?_) nofun
    exact LoadError.taken_reference (hwords id (Task.mem_words.mpr (.inr (.inl hid))))
      (.enclosed (by decide) (by decide) hname)

/-- **The line breaks of an error are written in the files.**  If loading an app or include
directories fails, and not for a file that is not readable or does not decode, the message has the
line breaks of what it shows as it is, and these are written in a name, an id or a pattern of the
files that were loaded.  No path breaks a line, whatever characters it has. -/
theorem lineBreaks_of_load (loader : AppLoader) (d : Disk) {e : LoadError} (hown : e.IsOwn) :
    (∀ file, loader.load d file = .error e →
      ∃ written, ConfigFile.read App d file = .ok written ∧
        e.WrittenIn fun word => word ∈ written.words ∨ loader.store.HasWord word) ∧
    ∀ dirs, d.tree.WellFormed → IncludeStore.load d dirs = .error e →
      e.WrittenIn (d.HasWord dirs) := by
  constructor
  · intro file hload
    rcases AppLoader.load_eq_error.mp hload with hread | ⟨written, hread, hcomplete⟩
    · rcases ConfigFile.read_eq_error.mp hread with ⟨fault, -, rfl⟩ | ⟨bytes, fault, -, -, rfl⟩
      · cases hown
      · cases hown
    · exact ⟨written, hread, AppLoader.writtenIn_of_complete hcomplete⟩
  · intro dirs ht hload
    exact (IncludeStore.traced_of_load_eq_error ht hload).writtenIn hown

/-- Directories with a line break in their names, one with an app and one with an include file, and
an app that refers to an id with a line break. -/
def oddDisk : Disk where
  tree := ⟨[
    (["odd\napp"], .directory),
    (["odd\napp", "app.toml"], .file (asciiLines ["name='a'", "includes=['x']"])),
    (["odd\ninc"], .directory),
    (["odd\ninc", "inc.toml"], .file (asciiLines ["[[Input]]", "id='i'"])),
    (["app.toml"], .file (asciiLines ["name='a'", "includes=[\"x\\ny\"]"]))]⟩

/-- Neither directory breaks the line of an error. -/
theorem lineBreaks_of_load_odd_paths :
    let loader : AppLoader := ⟨{}, .multiple⟩
    let missing : LoadError :=
      .inFile "resolving includes of" ⟨"odd\napp/app.toml"⟩ (.reference "x" .taskGroup "app 'a'")
    let undefined : LoadError :=
      .inFile "validating include file" ⟨"odd\ninc/inc.toml"⟩
        (.invalid ⟨["Input(id: i)", "Input"], "no input is defined"⟩)
    loader.load oddDisk ⟨"odd\napp/app.toml"⟩ = .error missing ∧ missing.IsOwn ∧
      OneLine missing.message ∧ oddDisk.tree.WellFormed ∧
      IncludeStore.load oddDisk [⟨"odd\ninc"⟩] = .error undefined ∧ undefined.IsOwn ∧
      OneLine undefined.message := by
  intro loader missing undefined
  have hloadApp : loader.load oddDisk ⟨"odd\napp/app.toml"⟩ = .error missing := by decide +kernel
  have ht : oddDisk.tree.WellFormed := by decide +kernel
  have hloadStore : IncludeStore.load oddDisk [⟨"odd\ninc"⟩] = .error undefined := by
    decide +kernel
  have hmissing : missing.IsOwn := trivial
  have hundefined : undefined.IsOwn := trivial
  obtain ⟨written, -, happ⟩ := (lineBreaks_of_load loader oddDisk hmissing).1 _ hloadApp
  have hstore := (lineBreaks_of_load loader oddDisk hundefined).2 _ ht hloadStore
  exact ⟨hloadApp, hmissing, happ.oneLine_iff.mpr (by decide), ht, hloadStore, hundefined,
    hstore.oneLine_iff.mpr (by decide)⟩

/-- But an id stands in a message as it is. -/
theorem not_oneLine_of_load :
    ¬ ∀ (loader : AppLoader) (d : Disk) (file : Path) (e : LoadError),
      loader.load d file = .error e → e.IsOwn → OneLine e.message := by
  intro honeLine
  let missing : LoadError :=
    .inFile "resolving includes of" ⟨"app.toml"⟩ (.reference "x\ny" .taskGroup "app 'a'")
  have hload : AppLoader.load ⟨{}, .multiple⟩ oddDisk ⟨"app.toml"⟩ = .error missing := by
    decide +kernel
  have hmessage : OneLine missing.message := honeLine _ _ _ _ hload trivial
  have hid : OneLine "x\ny" := missing.breaksAs_message.oneLine_iff.mp hmessage _ (by decide)
  exact absurd hid (by decide)

end Monorepo
