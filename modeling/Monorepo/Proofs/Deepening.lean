import Mathlib.Data.List.Chain
import Mathlib.Data.List.Nodup
import Mathlib.Logic.Relation
import Monorepo.Proofs.WalkOrder

/-!
# Walks that may go deeper

`Disk.walkWithin` bounds how deep a walk is nested.  A walk that does not come to its bound is the walk
itself, and one that comes to every bound never ends:

* `Walk.UpTo` — a walk does what one does that may go deeper, up to where it comes to its bound;
  `Disk.walkWithin_upTo`;
* `Disk.EndsWith` — a visit ends if from some bound on it is the same, whatever the bound, and
  `Disk.endsWith_of_visit`, that one bound that it does not come to is enough;
* `Disk.GoesInto` — the directories that a walk goes into from a directory, over links, and
  `Disk.ComesBack`, that it goes into one inside itself;
* `Disk.endless_of_comesBack` — such a walk comes to every bound, and `Disk.exists_chain_of_endless`,
  a walk that comes to its bound is nested that deep.
-/

namespace Monorepo

/-! ### One bound and another -/

namespace Walk

/-- A walk does what another does, or ends at its bound where the other may go on. -/
def UpTo (w deeper : Walk) : Prop :=
  w = deeper ∨ w.ending = .endless ∧ w.paths <+: deeper.paths

theorem andThen_of_complete {w : Walk} (h : w.ending = .complete) (w' : Walk) :
    w.andThen w' = ⟨w.paths ++ w'.paths, w'.ending⟩ :=
  if_pos h

theorem andThen_of_not_complete {w : Walk} (h : w.ending ≠ .complete) (w' : Walk) :
    w.andThen w' = w :=
  if_neg h

theorem prefix_andThen (w w' : Walk) : w.paths <+: (w.andThen w').paths := by
  by_cases h : w.ending = .complete
  · rw [andThen_of_complete h]
    exact List.prefix_append _ _
  · exact ⟨[], by rw [List.append_nil, andThen_of_not_complete h]⟩

theorem UpTo.andThen {first second first' second' : Walk} (h : first.UpTo first')
    (h' : second.UpTo second') : (first.andThen second).UpTo (first'.andThen second') := by
  rcases h with rfl | ⟨hendless, hprefix⟩
  · by_cases hcomplete : first.ending = .complete
    · rw [andThen_of_complete hcomplete, andThen_of_complete hcomplete]
      rcases h' with rfl | ⟨hendless', hprefix'⟩
      · exact .inl rfl
      · exact .inr ⟨hendless', (List.prefix_append_right_inj _).mpr hprefix'⟩
    · rw [andThen_of_not_complete hcomplete, andThen_of_not_complete hcomplete]
      exact .inl rfl
  · have hstops : first.ending ≠ .complete := by
      rw [hendless]
      exact nofun
    rw [andThen_of_not_complete hstops]
    exact .inr ⟨hendless, hprefix.trans (prefix_andThen _ _)⟩

theorem UpTo.inOrder {walkOver deeperOver : Path → Walk} (paths : List Path)
    (h : ∀ p ∈ paths, (walkOver p).UpTo (deeperOver p)) :
    (inOrder walkOver paths).UpTo (inOrder deeperOver paths) := by
  induction paths with
  | nil => exact .inl rfl
  | cons p rest ih =>
    rw [List.forall_mem_cons] at h
    rw [inOrder_cons, inOrder_cons]
    exact h.1.andThen (ih h.2)

/-- A walk that does not come to its bound is the same without it. -/
theorem UpTo.eq {w deeper : Walk} (h : w.UpTo deeper) (hends : w.ending ≠ .endless) : w = deeper :=
  h.resolve_right fun hbound => hends hbound.1

theorem visitPaths_append {σ : Type} (visitor : σ → Path → Except LoadError σ)
    (paths others : List Path) (state : σ) :
    visitPaths visitor (paths ++ others) state =
      match visitPaths visitor paths state with
      | (passed, .ok ()) => visitPaths visitor others passed
      | (reached, .error error) => (reached, .error error) := by
  induction paths generalizing state with
  | nil => rfl
  | cons p rest ih =>
    rw [List.cons_append, visitPaths, visitPaths]
    cases visitor state p with
    | ok next => exact ih next
    | error error => rfl

/-- A visit that does not come to the bound is the same without it, since the visitor rejects a path
that both walks meet. -/
theorem UpTo.visit {σ : Type} {visitor : σ → Path → Except LoadError σ} {state : σ}
    {w deeper : Walk} (h : w.UpTo deeper) (hends : (w.visit visitor state).2 ≠ .endless) :
    deeper.visit visitor state = w.visit visitor state := by
  rcases h with rfl | ⟨hendless, others, hothers⟩
  · rfl
  · rw [Walk.visit] at hends
    rw [Walk.visit, Walk.visit, ← hothers, visitPaths_append]
    rcases hvisit : visitPaths visitor w.paths state with ⟨reached, error | u⟩
    · rfl
    · rw [hvisit] at hends
      exact absurd hendless hends

/-- What comes to its bound in a row of walks, after others that complete. -/
theorem exists_of_endless_inOrder {walkOver : Path → Walk} {paths : List Path}
    (h : (inOrder walkOver paths).ending = .endless) :
    ∃ before p after, paths = before ++ p :: after ∧
      (∀ q ∈ before, (walkOver q).ending = .complete) ∧ (walkOver p).ending = .endless := by
  induction paths with
  | nil => cases h
  | cons p rest ih =>
    rw [inOrder_cons] at h
    by_cases hcomplete : (walkOver p).ending = .complete
    · rw [andThen_of_complete hcomplete] at h
      obtain ⟨before, q, after, rfl, hbefore, hq⟩ := ih h
      exact ⟨p :: before, q, after, rfl, List.forall_mem_cons.mpr ⟨hcomplete, hbefore⟩, hq⟩
    · rw [andThen_of_not_complete hcomplete] at h
      exact ⟨[], p, rest, rfl, nofun, h⟩

/-- A row of walks comes to a bound if one of them does, and those before it complete or do so, too. -/
theorem endless_inOrder {walkOver : Path → Walk} {before after : List Path} {p : Path}
    (hbefore : ∀ q ∈ before, (walkOver q).ending = .complete ∨ (walkOver q).ending = .endless)
    (hp : (walkOver p).ending = .endless) :
    (inOrder walkOver (before ++ p :: after)).ending = .endless := by
  have hstops : ∀ {w : Walk}, w.ending = .endless → ∀ w', (w.andThen w').ending = .endless := by
    intro w hw w'
    rw [andThen_of_not_complete (by rw [hw]; exact nofun), hw]
  induction before with
  | nil =>
    rw [List.nil_append, inOrder_cons]
    exact hstops hp _
  | cons q rest ih =>
    rw [List.forall_mem_cons] at hbefore
    rw [List.cons_append, inOrder_cons]
    rcases hbefore.1 with hcomplete | hendless
    · rw [andThen_of_complete hcomplete]
      exact ih hbefore.2
    · exact hstops hendless _

end Walk

namespace Disk

variable {d : Disk} {mode : LinkMode} {dir sub p : Path} {depth deeper : Nat}

theorem walkEntry_upTo {into deeperInto : Path → Walk} (h : ∀ q, (into q).UpTo (deeperInto q))
    (p : Path) : (d.walkEntry mode into p).UpTo (d.walkEntry mode deeperInto p) := by
  have hentry : ∀ (entry : Entry) (q : Path),
      Walk.UpTo (if entry.isDirectory then into q else ⟨[q], .complete⟩)
        (if entry.isDirectory then deeperInto q else ⟨[q], .complete⟩) := by
    intro entry q
    split
    · exact h q
    · exact .inl rfl
  unfold walkEntry
  split
  · exact .inl rfl
  · exact .inl rfl
  · split
    · exact .inl rfl
    · split
      · exact .inl rfl
      · exact hentry _ _
  · exact hentry _ p

/-- **A greater bound only lets a walk go on.** -/
theorem walkWithin_upTo (hle : depth ≤ deeper) (dir : Path) :
    (d.walkWithin mode depth dir).UpTo (d.walkWithin mode deeper dir) := by
  induction depth generalizing deeper dir with
  | zero => exact .inr ⟨rfl, List.nil_prefix⟩
  | succ depth ih =>
    obtain ⟨more, rfl⟩ : ∃ more, deeper = more + 1 := ⟨deeper - 1, by omega⟩
    rw [walkWithin, walkWithin]
    cases d.list dir with
    | error fault => exact .inl rfl
    | ok entries =>
      refine Walk.UpTo.inOrder _ fun p _ => walkEntry_upTo (fun q => ?_) p
      exact ih (by omega) q

/-! ### Visits that end -/

/-- A visit to a walk without a bound ends, with this result: so it does under every bound that is
great enough. -/
def EndsWith (d : Disk) (mode : LinkMode) (dir : Path) {σ : Type}
    (visitor : σ → Path → Except LoadError σ) (state : σ) (result : σ × Ending) : Prop :=
  result.2 ≠ .endless ∧
    ∃ depth, ∀ deeper, depth ≤ deeper → (d.walkWithin mode deeper dir).visit visitor state = result

/-- A visit ends if there is a bound that it does not come to. -/
theorem endsWith_of_visit {σ : Type} {visitor : σ → Path → Except LoadError σ} {state : σ}
    (h : ((d.walkWithin mode depth dir).visit visitor state).2 ≠ .endless) :
    d.EndsWith mode dir visitor state ((d.walkWithin mode depth dir).visit visitor state) :=
  ⟨h, depth, fun _ hle => (walkWithin_upTo hle dir).visit h⟩

/-- If the walk does not come to its bound, no visit does. -/
theorem endsWith_of_ending {σ : Type} (visitor : σ → Path → Except LoadError σ) (state : σ)
    (h : (d.walkWithin mode depth dir).ending ≠ .endless) :
    d.EndsWith mode dir visitor state ((d.walkWithin mode depth dir).visit visitor state) := by
  refine endsWith_of_visit ?_
  rw [Walk.visit]
  split
  · exact h
  · exact nofun

/-- A visitor who rejects nothing does not end a walk that comes to every bound. -/
theorem not_endsWith_of_endless {σ : Type} {visitor : σ → Path → Except LoadError σ}
    (haccepts : ∀ state p, ∃ next, visitor state p = .ok next)
    (h : ∀ depth, (d.walkWithin mode depth dir).ending = .endless) (state : σ)
    (result : σ × Ending) : ¬ d.EndsWith mode dir visitor state result := by
  intro hresult
  obtain ⟨hends, depth, hall⟩ := hresult
  have hpasses : ∀ (paths : List Path) (state : σ), ∃ after,
      Walk.visitPaths visitor paths state = (after, .ok ()) := by
    intro paths
    induction paths with
    | nil => exact fun state => ⟨state, rfl⟩
    | cons p rest ih =>
      intro state
      obtain ⟨next, hnext⟩ := haccepts state p
      rw [Walk.visitPaths, hnext]
      exact ih next
  obtain ⟨after, hafter⟩ := hpasses (d.walkWithin mode depth dir).paths state
  have hvisit := hall depth (Nat.le_refl depth)
  rw [Walk.visit, hafter] at hvisit
  rw [← hvisit] at hends
  exact hends (h depth)

/-! ### Where a walk goes -/

/-- A walk that follows links goes on in a directory where it comes to an entry: that is the entry
itself, or the target of a link, under its path without links. -/
inductive Opens (d : Disk) : Path → Path → Prop where
  | directory {p : Path} {entry : Entry} (hentry : d.linkEntry p = .ok entry)
      (hdirectory : entry.isDirectory = true) : Opens d p p
  | link {p sub : Path} {target : String} {entry : Entry}
      (hentry : d.linkEntry p = .ok (.link target)) (hcanonical : d.canonical p = .ok sub)
      (hsub : d.entry sub = .ok entry) (hdirectory : entry.isDirectory = true) : Opens d p sub

/-- A walk over a directory goes into another at one of the entries, after the walks over those
before it complete. -/
def GoesInto (d : Disk) (dir sub : Path) : Prop :=
  ∃ entries before p after, d.list dir = .ok entries ∧ Path.sort entries = before ++ p :: after ∧
    (∀ q ∈ before, ∃ depth,
      (d.walkEntry .follow (d.walkWithin .follow depth) q).ending = .complete) ∧ d.Opens p sub

/-- A walk comes to a directory that it goes into again from inside it. -/
def ComesBack (d : Disk) (dir : Path) : Prop :=
  ∃ inner, Relation.ReflTransGen d.GoesInto dir inner ∧ Relation.TransGen d.GoesInto inner inner

theorem walkEntry_of_opens (h : d.Opens p sub) (into : Path → Walk) :
    d.walkEntry .follow into p = into sub := by
  unfold walkEntry
  cases h with
  | @directory entry hentry hdirectory =>
    cases entry with
    | link | file | closedFile => cases hdirectory
    | directory | closedDirectory => simp only [hentry, Entry.isDirectory, if_pos]
  | link hentry hcanonical hsub hdirectory =>
    simp only [hentry, hcanonical, hsub, hdirectory, if_pos]

/-- A walk over an entry comes to its bound in a directory only. -/
theorem exists_opens_of_endless {into : Path → Walk}
    (h : (d.walkEntry .follow into p).ending = .endless) :
    ∃ sub, d.Opens p sub ∧ (into sub).ending = .endless := by
  unfold walkEntry at h
  split at h
  · cases h
  · cases h
  · rename_i target hentry _
    split at h
    · cases h
    · rename_i sub hcanonical
      split at h
      · cases h
      · rename_i entry hsub
        split at h
        · rename_i hdirectory
          exact ⟨sub, .link hentry hcanonical hsub hdirectory, h⟩
        · cases h
  · rename_i entry hentry _ _
    split at h
    · rename_i hdirectory
      exact ⟨p, .directory hentry hdirectory, h⟩
    · cases h

/-- A walk that completes within one bound comes to its bound within another, or completes, too. -/
theorem complete_or_endless {less : Nat}
    (h : (d.walkEntry mode (d.walkWithin mode less) p).ending = .complete) (depth : Nat) :
    (d.walkEntry mode (d.walkWithin mode depth) p).ending = .complete ∨
      (d.walkEntry mode (d.walkWithin mode depth) p).ending = .endless := by
  have hupTo : ∀ {depth deeper : Nat}, depth ≤ deeper →
      (d.walkEntry mode (d.walkWithin mode depth) p).UpTo
        (d.walkEntry mode (d.walkWithin mode deeper) p) :=
    fun hle => walkEntry_upTo (walkWithin_upTo hle) p
  rcases Nat.le_total less depth with hle | hle
  · have hends : (d.walkEntry mode (d.walkWithin mode less) p).ending ≠ .endless := by
      rw [h]
      exact nofun
    rw [← (hupTo hle).eq hends]
    exact .inl h
  · rcases hupTo hle with hsame | hbound
    · rw [hsame]
      exact .inl h
    · exact .inr hbound.1

/-- **One step into a directory costs one step of the bound.** -/
theorem GoesInto.endless (h : d.GoesInto dir sub)
    (hsub : (d.walkWithin .follow depth sub).ending = .endless) :
    (d.walkWithin .follow (depth + 1) dir).ending = .endless := by
  obtain ⟨entries, before, p, after, hlist, hsorted, hbefore, hopens⟩ := h
  rw [walkWithin, hlist]
  show (Walk.inOrder _ (Path.sort entries)).ending = .endless
  rw [hsorted]
  refine Walk.endless_inOrder (fun q hq => ?_) ?_
  · obtain ⟨less, hcomplete⟩ := hbefore q hq
    exact complete_or_endless hcomplete depth
  · rw [walkEntry_of_opens hopens]
    exact hsub

theorem endless_of_le (hle : depth ≤ deeper)
    (h : (d.walkWithin mode deeper dir).ending = .endless) :
    (d.walkWithin mode depth dir).ending = .endless := by
  by_contra hends
  rw [(walkWithin_upTo hle dir).eq hends] at hends
  exact hends h

theorem endless_of_reached (h : Relation.ReflTransGen d.GoesInto dir sub)
    (hsub : (d.walkWithin .follow depth sub).ending = .endless) :
    (d.walkWithin .follow depth dir).ending = .endless := by
  induction h using Relation.ReflTransGen.head_induction_on with
  | refl => exact hsub
  | head hstep _ ih => exact endless_of_le (Nat.le_succ depth) (hstep.endless ih)

/-- **A walk that comes back never ends.** -/
theorem endless_of_comesBack (h : d.ComesBack dir) (depth : Nat) :
    (d.walkWithin .follow depth dir).ending = .endless := by
  obtain ⟨inner, hreached, hagain⟩ := h
  refine endless_of_reached hreached ?_
  -- Each time round uses up some of the bound, so the walk comes to it whatever it is.
  induction depth with
  | zero => rfl
  | succ depth ih =>
    obtain ⟨sub, hstep, hback⟩ := Relation.TransGen.head'_iff.mp hagain
    exact hstep.endless (endless_of_reached hback ih)

/-- **A walk that comes to its bound is nested that deep.** -/
theorem exists_chain_of_endless (h : (d.walkWithin .follow depth dir).ending = .endless) :
    ∃ inner : List Path, inner.length = depth ∧ List.IsChain d.GoesInto (dir :: inner) := by
  induction depth generalizing dir with
  | zero => exact ⟨[], rfl, .singleton dir⟩
  | succ depth ih =>
    rw [walkWithin] at h
    cases hlist : d.list dir with
    | error fault =>
      rw [hlist] at h
      cases h
    | ok entries =>
      rw [hlist] at h
      obtain ⟨before, p, after, hsorted, hbefore, hp⟩ := Walk.exists_of_endless_inOrder h
      obtain ⟨sub, hopens, hsub⟩ := exists_opens_of_endless hp
      obtain ⟨inner, hlength, hchain⟩ := ih hsub
      have hstep : d.GoesInto dir sub :=
        ⟨entries, before, p, after, hlist, hsorted, fun q hq => ⟨depth, hbefore q hq⟩, hopens⟩
      refine ⟨sub :: inner, ?_, .cons_cons hstep hchain⟩
      rw [List.length_cons, hlength]

theorem pairwise_of_chain {chain : List Path} (hchain : List.IsChain d.GoesInto chain) :
    chain.Pairwise (Relation.TransGen d.GoesInto) :=
  List.isChain_iff_pairwise.mp (hchain.imp fun _ _ => .single)

theorem reached_of_chain {inner : List Path} (hchain : List.IsChain d.GoesInto (dir :: inner)) :
    ∀ p ∈ dir :: inner, Relation.ReflTransGen d.GoesInto dir p := by
  intro p hp
  rcases List.mem_cons.mp hp with rfl | hinner
  · exact .refl
  · exact (List.rel_of_pairwise_cons (pairwise_of_chain hchain) hinner).to_reflTransGen

/-- A chain of directories in which one stands twice comes back. -/
theorem comesBack_of_chain {inner : List Path} (hchain : List.IsChain d.GoesInto (dir :: inner))
    (htwice : ¬ (dir :: inner).Nodup) : d.ComesBack dir := by
  by_contra hnot
  refine htwice ((pairwise_of_chain hchain).imp_of_mem fun {p q} hp _ hgoes heq => ?_)
  rw [← heq] at hgoes
  exact hnot ⟨p, reached_of_chain hchain p hp, hgoes⟩

end Disk

end Monorepo
