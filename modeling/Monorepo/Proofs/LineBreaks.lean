import Mathlib.Tactic.SplitIfs
import Monorepo.LoadError

/-!
# The line breaks of messages

A message is put together from fixed texts, from paths, which stand in quotes, and from texts that it
shows as they are.

* `Text.oneLine_quoted` — a text in quotes is one line, whatever characters it holds;
* `Text.BreaksAs` — a text has the line breaks of certain parts and no others, which appending and
  joining respect;
* `LoadError.shown` — the texts that a message shows as they are;
* `LoadError.breaksAs_message` — the line breaks of a message are those of these texts.
-/

namespace Monorepo

namespace Text

/-- The characters that end a line. -/
def lineBreaks : List Char :=
  ['\n', '\x0b', '\x0c', '\r', '\x85', '\u2028', '\u2029']

/-- Characters none of which ends a line. -/
def NoBreaks (cs : List Char) : Prop :=
  ∀ c ∈ cs, c ∉ lineBreaks

-- Only the characters of the list are to be looked at, not all that there are.
instance (cs : List Char) : Decidable (NoBreaks cs) :=
  List.decidableBAll (· ∉ lineBreaks) cs

/-- A text without line breaks. -/
def OneLine (text : String) : Prop :=
  NoBreaks text.toList

instance (text : String) : Decidable (OneLine text) :=
  inferInstanceAs (Decidable (NoBreaks text.toList))

/-! ### Texts that are one line -/

theorem NoBreaks.append {cs cs' : List Char} (h : NoBreaks cs) (h' : NoBreaks cs') :
    NoBreaks (cs ++ cs') :=
  List.forall_mem_append.mpr ⟨h, h'⟩

theorem NoBreaks.singleton {c : Char} (h : c ∉ lineBreaks) : NoBreaks [c] :=
  List.forall_mem_singleton.mpr h

theorem OneLine.append {text other : String} (h : OneLine text) (h' : OneLine other) :
    OneLine (text ++ other) := by
  rw [OneLine, String.toList_append]
  exact NoBreaks.append h h'

theorem noBreaks_hexDigits (n : Nat) : NoBreaks (hexDigits n) := by
  have hdigit : ∀ m < 16, hexDigit m ∉ lineBreaks := by decide
  induction n using hexDigits.induct with
  | case1 n hsmall =>
    rw [hexDigits, if_pos hsmall]
    exact .singleton (hdigit n hsmall)
  | case2 n hlarge ih =>
    rw [hexDigits, if_neg hlarge]
    exact ih.append (.singleton (hdigit _ (Nat.mod_lt n (by decide))))

/-- What a reader can see standing alone does not end a line. -/
theorem notMem_of_isPrintable {c : Char} (h : isPrintable c = true) : c ∉ lineBreaks := by
  have hhidden : lineBreaks.all (!isPrintable ·) = true := by decide +kernel
  intro hbreak
  have hc := List.all_eq_true.mp hhidden c hbreak
  rw [h] at hc
  cases hc

theorem noBreaks_quoteChar (c : Char) : NoBreaks (quoteChar c) := by
  rw [quoteChar]
  split_ifs with _ _ _ _ _ _ hprintable
  · decide
  · decide
  · decide
  · decide
  · decide
  · decide
  · exact .singleton (notMem_of_isPrintable hprintable)
  · have hopened : NoBreaks ['\\', 'u', '\x7b'] := by decide
    exact (hopened.append (noBreaks_hexDigits _)).append (by decide)

/-- **A text in quotes is one line**, whatever characters it holds. -/
theorem oneLine_quoted (text : String) : OneLine (quoted text) := by
  have hquote : NoBreaks ['"'] := by decide
  have hchars : NoBreaks (text.toList.flatMap quoteChar) := by
    intro b hb
    obtain ⟨c, -, hc⟩ := List.mem_flatMap.mp hb
    exact noBreaks_quoteChar c b hc
  rw [OneLine, quoted, String.toList_ofList]
  exact (hquote.append hchars).append hquote

theorem oneLine_toString (n : Nat) : OneLine (toString n) := by
  have hdigits : lineBreaks.all (!Char.isDigit ·) = true := by decide
  intro c hc hbreak
  rw [Nat.toString_eq_ofList_toDigits, String.toList_ofList] at hc
  have hc' := List.all_eq_true.mp hdigits c hbreak
  rw [Nat.isDigit_of_mem_toDigits (by decide) (by decide) hc] at hc'
  cases hc'

/-! ### Texts that show others -/

/-- The line breaks of a text are those of its parts. -/
def BreaksAs (text : String) (parts : List String) : Prop :=
  ∀ c ∈ lineBreaks, c ∈ text.toList ↔ ∃ part ∈ parts, c ∈ part.toList

namespace BreaksAs

variable {text other : String} {parts others : List String}

theorem self (text : String) : BreaksAs text [text] :=
  fun c _ => by simp

theorem of_oneLine (h : OneLine text) : BreaksAs text [] := by
  intro c hbreak
  exact ⟨fun hc => absurd hbreak (h c hc), by simp⟩

theorem append (h : BreaksAs text parts) (h' : BreaksAs other others) :
    BreaksAs (text ++ other) (parts ++ others) := by
  intro c hbreak
  rw [String.toList_append, List.mem_append, h c hbreak, h' c hbreak]
  simp only [List.mem_append, or_and_right, exists_or]

theorem intercalate {separator : String} (h : OneLine separator) (texts : List String) :
    BreaksAs (separator.intercalate texts) texts := by
  induction texts with
  | nil =>
    rw [String.intercalate_nil]
    exact .of_oneLine (by decide)
  | cons t rest ih =>
    cases rest with
    | nil =>
      rw [String.intercalate_singleton]
      exact .self t
    | cons u rest =>
      rw [String.intercalate_cons_cons]
      exact ((BreaksAs.self t).append (.of_oneLine h)).append ih

theorem oneLine_iff (h : BreaksAs text parts) : OneLine text ↔ ∀ part ∈ parts, OneLine part := by
  constructor
  · intro htext part hpart c hc hbreak
    exact htext c ((h c hbreak).mpr ⟨part, hpart, hc⟩) hbreak
  · intro hparts c hc hbreak
    obtain ⟨part, hpart, hmem⟩ := (h c hbreak).mp hc
    exact hparts part hpart c hmem hbreak

end BreaksAs

end Text

/-! ### Messages -/

open Text

theorem Violation.breaksAs_text (v : Violation) :
    BreaksAs v.text (v.elementPath ++ [v.message]) := by
  rw [text]
  split_ifs with hempty
  · rw [List.isEmpty_iff.mp hempty]
    exact .self v.message
  · have hpath : BreaksAs v.path v.elementPath := .intercalate (by decide) v.elementPath
    have hcolon : BreaksAs ": " [] := .of_oneLine (by decide)
    have hopened := hpath.append hcolon
    rw [List.append_nil] at hopened
    exact hopened.append (.self v.message)

namespace LoadError

/-- The texts that a message shows as they are. -/
def shown : LoadError → List String
  | .parse _ fault => [fault.message]
  | .reference id _ referrer => [id, referrer]
  | .duplicateId id _ _ _ => [id]
  | .invalid violation => violation.elementPath ++ [violation.message]
  | .io _ fault => [fault.message]
  | .symlink _ => []
  | .inFile activity _ inner => activity :: inner.shown

/-- **The line breaks of a message are those of what it shows as it is.**  Paths give it none. -/
theorem breaksAs_message (e : LoadError) : BreaksAs e.message e.shown := by
  have hquoted (p : Path) : BreaksAs p.quoted [] := .of_oneLine (oneLine_quoted p.text)
  have hspace (space : IdSpace) : BreaksAs space.text [] := by
    cases space <;> exact .of_oneLine (by decide)
  have hfixed {text : String} (h : OneLine text) : BreaksAs text [] := .of_oneLine h
  -- A fixed text and a path have no parts, so the parts of the whole are what is shown as it is.
  induction e with
  | parse file fault =>
    exact (((hfixed (by decide)).append (hquoted file)).append (hfixed (by decide))).append (.self _)
  | reference id space referrer =>
    exact (((((hfixed (by decide)).append (hspace space)).append (hfixed (by decide))).append
      (.self id)).append (hfixed (by decide))).append (.self referrer)
  | duplicateId id space first second =>
    exact ((((((((hfixed (by decide)).append (hspace space)).append (hfixed (by decide))).append
      (.self id)).append (hfixed (by decide))).append (hquoted first)).append
      (hfixed (by decide))).append (hquoted second)).append (hfixed (by decide))
  | invalid violation => exact violation.breaksAs_text
  | io path fault =>
    exact ((hquoted path).append (hfixed (by decide))).append (.self _)
  | symlink path => exact (hquoted path).append (hfixed (by decide))
  | inFile activity file inner ih =>
    exact ((((BreaksAs.self activity).append (hfixed (by decide))).append (hquoted file)).append
      (hfixed (by decide))).append ih

end LoadError

end Monorepo
