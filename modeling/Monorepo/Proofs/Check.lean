import Monorepo.Violation

/-!
# Laws of checks

A check is a chain of steps that ends at the first violation.  The laws here say when a chain, a
rule, a wrapped check and a check of a list come out clean:

* `Except.bind_eq_ok_iff`, `Except.bind_eq_error_iff` — a chain succeeds exactly when each of its two
  parts does, and fails when one of them does;
* `Check.bind_eq_ok`, `Check.require_eq_ok`, `Check.within_eq_ok`, `Check.each_eq_ok` — the same for
  the steps that checks are made of, as rewrite rules from outcomes to conditions.

With them `simp` turns the success of a whole check into the conjunction of its rules.
-/

namespace Monorepo

/-- A chain of two steps gives a value exactly when the first gives one on which the second gives
that value. -/
theorem Except.bind_eq_ok_iff {ε α β : Type} {x : Except ε α} {f : α → Except ε β} {b : β} :
    (x >>= f) = .ok b ↔ ∃ a, x = .ok a ∧ f a = .ok b := by
  cases x with
  | error e =>
    constructor
    · intro h
      cases h
    · rintro ⟨a, ha, -⟩
      cases ha
  | ok a =>
    constructor
    · intro h
      exact ⟨a, rfl, h⟩
    · rintro ⟨a', ha, h⟩
      cases ha
      exact h

/-- A chain of two steps fails exactly when the first does, or gives a value on which the second
does. -/
theorem Except.bind_eq_error_iff {ε α β : Type} {x : Except ε α} {f : α → Except ε β} {e : ε} :
    (x >>= f) = .error e ↔ x = .error e ∨ ∃ a, x = .ok a ∧ f a = .error e := by
  cases x with
  | error e' =>
    constructor
    · intro h
      cases h
      exact .inl rfl
    · rintro (he | ⟨a, ha, -⟩)
      · cases he
        rfl
      · cases ha
  | ok a =>
    constructor
    · intro h
      exact .inr ⟨a, rfl, h⟩
    · rintro (he | ⟨a', ha, h⟩)
      · cases he
      · cases ha
        exact h

namespace Check

@[simp] theorem bind_eq_ok {c : Check} {f : Unit → Check} :
    (c >>= f) = .ok () ↔ c = .ok () ∧ f () = .ok () := by
  rw [Except.bind_eq_ok_iff]
  constructor
  · rintro ⟨⟨⟩, hc, hf⟩
    exact ⟨hc, hf⟩
  · intro h
    obtain ⟨hc, hf⟩ := h
    exact ⟨(), hc, hf⟩

@[simp] theorem require_eq_ok {holds : Bool} {otherwise : Violation} :
    require holds otherwise = .ok () ↔ holds = true := by
  cases holds <;> simp [require]

@[simp] theorem within_eq_ok {segment : String} {c : Check} :
    within segment c = .ok () ↔ c = .ok () := by
  cases c with
  | ok u => simp [within]
  | error v => simp [within]

@[simp] theorem each_eq_ok {α : Type} {check : α → Check} {l : List α} :
    each check l = .ok () ↔ ∀ a ∈ l, check a = .ok () := by
  induction l with
  | nil => simp [each]
  | cons a rest ih => simp [each, ih]

end Check

end Monorepo
