import Mathlib.Tactic.Common

namespace Outcome

/-!
# Outcomes — postconditions for fallible computations

`Meets E P x` is the specification of a computation `x : Except ε α`: an error it stops with is
in `E`, a value it returns satisfies `P`.  The rules below follow the structure of a `do` block.

* `passed` — a check that did not stop;
* `Meets.bind` — sequencing;
* `Meets.mono` — weakening both conditions;
* `Meets.ite` — a branch on a decidable condition;
* `Meets.of_eq_ok` / `Meets.of_eq_error` — reading a specification at a known outcome.
-/

/-- A check that stops has been passed where it did not stop. -/
theorem passed {γ : Type*} {c : Prop} [Decidable c] {stop next result : γ}
    (h : (if c then stop else next) = result) (hstop : stop ≠ result) : ¬c ∧ next = result := by
  split at h
  · exact absurd h hstop
  · next hc => exact ⟨hc, h⟩

variable {ε α β : Type} {E F : ε → Prop} {P : α → Prop} {Q : β → Prop}

/-- `x` stops only with errors in `E`, and returns only values in `P`. -/
def Meets (E : ε → Prop) (P : α → Prop) : Except ε α → Prop
  | .error e => E e
  | .ok a => P a

variable {a : α}

@[simp] theorem meets_ok : Meets E P (.ok a) ↔ P a := Iff.rfl

variable {f : α → Except ε β}

/-- A first part that is known to succeed is replaced by its value. -/
@[simp] theorem meets_ok_bind : Meets E Q (.ok a >>= f) ↔ Meets E Q (f a) := Iff.rfl

/-- A sequence goes on with the value of a first part that is known. -/
theorem ok_bind : ((.ok a : Except ε α) >>= f) = f a := rfl

variable {x : Except ε α}

/-- Sequencing: the continuation is specified on the values of the first part. -/
theorem Meets.bind (hx : Meets E P x) (hf : ∀ a, P a → Meets E Q (f a)) : Meets E Q (x >>= f) := by
  cases x with
  | error e => exact hx
  | ok a => exact hf a hx

/-- A sequence that succeeds has parts that do. -/
theorem bind_eq_ok {b : β} : (x >>= f) = .ok b ↔ ∃ a, x = .ok a ∧ f a = .ok b := by
  cases x with
  | error e => exact ⟨nofun, fun ⟨_, h, _⟩ => nomatch h⟩
  | ok a => exact ⟨fun h => ⟨a, rfl, h⟩, fun ⟨_, h, h'⟩ => Except.ok.inj h ▸ h'⟩

variable {P' : α → Prop}

/-- Weakening. -/
theorem Meets.mono (hx : Meets E P x) (hE : ∀ e, E e → F e)
    (hP : ∀ a, P a → P' a) : Meets F P' x := by
  cases x with
  | error e => exact hE e hx
  | ok a => exact hP a hx

/-- Weakening the condition on values. -/
theorem Meets.imp (hx : Meets E P x) (hP : ∀ a, P a → P' a) : Meets E P' x :=
  hx.mono (fun _ h => h) hP

/-- Two specifications of one computation. -/
theorem Meets.and (h : Meets E P x) (h' : Meets F P' x) :
    Meets (fun e => E e ∧ F e) (fun a => P a ∧ P' a) x := by
  cases x with
  | error e => exact ⟨h, h'⟩
  | ok a => exact ⟨h, h'⟩

/-- A computation that no error is allowed for returns a value. -/
theorem Meets.exists_ok (h : Meets (fun _ => False) P x) : ∃ a, x = .ok a ∧ P a := by
  cases x with
  | error e => exact h.elim
  | ok a => exact ⟨a, rfl, h⟩

theorem Meets.ite {c : Prop} [Decidable c] {x y : Except ε α} (hx : c → Meets E P x)
    (hy : ¬ c → Meets E P y) : Meets E P (if c then x else y) := by
  by_cases h : c
  · rw [if_pos h]; exact hx h
  · rw [if_neg h]; exact hy h

theorem Meets.of_eq_ok (hx : Meets E P x) (h : x = .ok a) : P a := by
  rw [h] at hx
  exact hx

theorem Meets.of_eq_error (hx : Meets E P x) {e : ε} (h : x = .error e) : E e := by
  rw [h] at hx
  exact hx

end Outcome
