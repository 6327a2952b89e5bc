/-!
# Computations that may fail

How a computation in several steps comes to its answer: every step has one, and the next step starts
from it. Two computations are coupled if they answer alike, or else one of them has an error that
does not count. They are matched if they answer alike, or both have errors that are alike.
-/

/-- Where there is a state besides, an answer that is known leaves it alone. -/
@[simp] theorem EStateM.run_ofExcept {ε σ α : Type} (x : Except ε α) (s : σ) :
    (ofExcept x : EStateM ε σ α).run s =
      match x with
      | .ok a => .ok a s
      | .error e => .error e s := by
  cases x <;> rfl

namespace Except

variable {ε α β : Type}

/-- The next step starts from an answer. -/
@[simp] theorem ok_bind (a : α) (next : α → Except ε β) : (Except.ok a >>= next) = next a := rfl

/-- An error ends a computation. -/
@[simp] theorem error_bind (e : ε) (next : α → Except ε β) :
    ((Except.error e : Except ε α) >>= next) = .error e := rfl

/-- Two steps have an answer if and only if the first has one from which the second has it. -/
theorem bind_eq_ok_iff {x : Except ε α} {next : α → Except ε β} {b : β} :
    (x >>= next) = .ok b ↔ ∃ a, x = .ok a ∧ next a = .ok b := by
  cases x <;> simp

/-- What is made of an answer comes from an answer. -/
theorem map_eq_ok_iff {x : Except ε α} {f : α → β} {b : β} :
    x.map f = .ok b ↔ ∃ a, x = .ok a ∧ f a = b := by
  cases x <;> simp [Except.map]

/-- An error stays one, whatever would be made of an answer. -/
theorem map_eq_error_iff {x : Except ε α} {f : α → β} {e : ε} :
    x.map f = .error e ↔ x = .error e := by
  cases x <;> simp [Except.map]

/-- Answers are the same under any name of the errors. -/
theorem mapError_eq_ok_iff {ε' : Type} {x : Except ε α} {f : ε → ε'} {a : α} :
    x.mapError f = .ok a ↔ x = .ok a := by
  cases x with
  | ok b => exact ⟨fun h => congrArg ok (ok.inj h), fun h => congrArg ok (ok.inj h)⟩
  | error e => exact iff_of_false (by rintro ⟨⟩) (by rintro ⟨⟩)

/-! ## Two computations -/

/-- Whether two computations have related answers, or one error. Certain errors of either allow the
other to be anything. -/
inductive Coupled (exempt : ε → Prop) (R : α → β → Prop) : Except ε α → Except ε β → Prop
  | ok {a : α} {b : β} (h : R a b) : Coupled exempt R (.ok a) (.ok b)
  | error (e : ε) : Coupled exempt R (.error e) (.error e)
  | left {e : ε} (h : exempt e) (y : Except ε β) : Coupled exempt R (.error e) y
  | right {e : ε} (h : exempt e) (x : Except ε α) : Coupled exempt R x (.error e)

namespace Coupled

variable {γ δ : Type} {exempt : ε → Prop} {R : α → β → Prop} {S : γ → δ → Prop}
  {x : Except ε α} {y : Except ε β}

/-- Computations whose first steps are coupled are coupled if the next steps are, from any related
answers that the first ones have. -/
theorem bind (h : Coupled exempt R x y) {f : α → Except ε γ} {g : β → Except ε δ}
    (hnext : ∀ a b, x = .ok a → y = .ok b → R a b → Coupled exempt S (f a) (g b)) :
    Coupled exempt S (x >>= f) (y >>= g) := by
  cases h with
  | ok h => exact hnext _ _ rfl rfl h
  | error e => exact .error e
  | left h => exact .left h _
  | right h => exact .right h _

/-- Related answers stay coupled when related values are made of them. -/
theorem map (h : Coupled exempt R x y) {f : α → γ} {g : β → δ}
    (hnext : ∀ a b, R a b → S (f a) (g b)) : Coupled exempt S (x.map f) (y.map g) := by
  cases h with
  | ok h => exact .ok (hnext _ _ h)
  | error e => exact .error e
  | left h => exact .left h _
  | right h => exact .right h _

/-- A computation is coupled with itself if its answers are related to themselves. -/
theorem refl {R : α → α → Prop} (hR : ∀ a, x = .ok a → R a a) : Coupled exempt R x x := by
  cases x with
  | ok a => exact .ok (hR a rfl)
  | error e => exact .error e

/-- Two computations may begin with the same one. -/
theorem bind_same {x : Except ε α} {f : α → Except ε γ} {g : α → Except ε δ}
    (hnext : ∀ a, Coupled exempt S (f a) (g a)) : Coupled exempt S (x >>= f) (x >>= g) := by
  cases x with
  | ok a => exact hnext a
  | error e => exact .error e

/-- Errors of coupled computations can be renamed alike, as long as those that do not count still do
not. -/
theorem mapError {ε' : Type} {exempt' : ε' → Prop} (h : Coupled exempt R x y) {f : ε → ε'}
    (hf : ∀ e, exempt e → exempt' (f e)) :
    Coupled exempt' R (x.mapError f) (y.mapError f) := by
  cases h with
  | ok h => exact .ok h
  | error e => exact .error (f e)
  | left h => exact .left (hf _ h) _
  | right h => exact .right (hf _ h) _

/-- An error that counts is one of the other computation as well, unless that one has another error
which does not. -/
theorem exists_error {e : ε} (h : Coupled exempt R (.error e) y) (he : ¬exempt e) :
    ∃ e', y = .error e' ∧ (e' = e ∨ exempt e') := by
  cases h with
  | error => exact ⟨e, rfl, Or.inl rfl⟩
  | left h => exact absurd h he
  | right h => exact ⟨_, rfl, Or.inr h⟩

/-- Coupled answers are related. -/
theorem related {a : α} {b : β} (h : Coupled exempt R (.ok a) (.ok b)) : R a b := by
  cases h
  assumption

end Coupled

/-- Whether two computations have related answers or else related errors. -/
inductive Matched (E : ε → ε → Prop) (R : α → β → Prop) : Except ε α → Except ε β → Prop
  | ok {a : α} {b : β} (h : R a b) : Matched E R (.ok a) (.ok b)
  | error {e e' : ε} (h : E e e') : Matched E R (.error e) (.error e')

namespace Matched

variable {γ δ : Type} {E : ε → ε → Prop} {R : α → β → Prop} {S : γ → δ → Prop} {x : Except ε α}
  {y : Except ε β}

/-- Computations whose first steps are matched are matched if the next steps are, from related
answers. -/
theorem bind (h : Matched E R x y) {f : α → Except ε γ} {g : β → Except ε δ}
    (hnext : ∀ a b, R a b → Matched E S (f a) (g b)) : Matched E S (x >>= f) (y >>= g) := by
  cases h with
  | ok h => exact hnext _ _ h
  | error h => exact .error h

/-- Related answers stay matched when related values are made of them. -/
theorem map (h : Matched E R x y) {f : α → γ} {g : β → δ} (hnext : ∀ a b, R a b → S (f a) (g b)) :
    Matched E S (x.map f) (y.map g) := by
  cases h with
  | ok h => exact .ok (hnext _ _ h)
  | error h => exact .error h

/-- Errors of matched computations can be renamed, as long as they stay alike. -/
theorem mapError {ε' : Type} {E' : ε' → ε' → Prop} (h : Matched E R x y) {f : ε → ε'}
    (hf : ∀ e e', E e e' → E' (f e) (f e')) : Matched E' R (x.mapError f) (y.mapError f) := by
  cases h with
  | ok h => exact .ok h
  | error h => exact .error (hf _ _ h)

/-- A computation is matched with itself if answers and errors are related to themselves. -/
theorem refl {R : α → α → Prop} (hE : ∀ e, E e e) (hR : ∀ a, R a a) (x : Except ε α) :
    Matched E R x x := by
  cases x with
  | ok a => exact .ok (hR a)
  | error e => exact .error (hE e)

/-- Computations with the same answer may go on in the same way. -/
theorem bind_eq {x y : Except ε α} (h : Matched E Eq x y) {f : α → Except ε γ}
    {g : α → Except ε δ} (hnext : ∀ a, Matched E S (f a) (g a)) :
    Matched E S (x >>= f) (y >>= g) := by
  refine h.bind fun a b hab => ?_
  rw [← hab]
  exact hnext a

/-- Computations that are matched by equality have the same answers. -/
theorem eq_ok_iff {x y : Except ε α} (h : Matched E Eq x y) {a : α} : x = .ok a ↔ y = .ok a := by
  cases h with
  | ok h => rw [h]
  | error h => exact iff_of_false nofun nofun

end Matched

end Except
