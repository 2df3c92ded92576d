import Mathlib.Tactic.Common

/-!
# Interruptible computations

Computations that change a state call by call, that may stop with an error, and that can be cut off
in front of every call.

* `Trace`, `Prog` — what a computation leaves: its value, the state, and where it can be cut off;
* `Prog.call`, `Prog.check`, `Prog.attempt`, `Prog.within` — their parts;
* `Meets C Q E` — a value is left in `Q`, an error in `E`, and every state in between is in `C`;
* `meets_bind`, `meets_call`, `meets_within` — the rules follow the structure of a `do` block;
* `First` — the first call finds the state as it was.
-/

namespace Interrupt

open List
open Function (update)

/-- What a computation leaves; `stops` are the states in front of its calls. -/
structure Trace (σ α : Type) where
  value : Except String α
  state : σ
  stops : List σ

/-- A computation on a state. -/
def Prog (σ α : Type) : Type := σ → Trace σ α

namespace Prog

variable {σ α β : Type}

instance : Monad (Prog σ) where
  pure a := fun s => ⟨.ok a, s, []⟩
  bind x f := fun s =>
    let t := x s
    match t.value with
    | .ok a => ⟨(f a t.state).value, (f a t.state).state, t.stops ++ (f a t.state).stops⟩
    | .error e => ⟨.error e, t.state, t.stops⟩

/-- The state is looked at. -/
def get : Prog σ σ := fun s => ⟨.ok s, s, []⟩

/-- One call. -/
def call (f : σ → σ) : Prog σ Unit := fun s => ⟨.ok (), f s, [s]⟩

def fail (e : String) : Prog σ α := fun s => ⟨.error e, s, []⟩

/-- An error, unless a condition holds. -/
def check (p : Prop) [Decidable p] (e : String) : Prog σ Unit := if p then pure () else fail e

/-- A part whose error does not stop the whole. -/
def attempt (x : Prog σ α) : Prog σ (Except String α) := fun s =>
  ⟨.ok (x s).value, (x s).state, (x s).stops⟩

/-- A computation whose value does not matter. -/
def void (x : Prog σ α) : Prog σ Unit := fun s =>
  ⟨(x s).value.map fun _ => (), (x s).state, (x s).stops⟩

variable {κ δ : Type} [DecidableEq κ]

/-- A computation on one entry of a directory; `e` is the error when there is none. -/
def within (k : κ) (e : String) (x : Prog δ α) : Prog (κ → Option δ) α := fun r =>
  match r k with
  | none => ⟨.error e, r, []⟩
  | some d =>
    ⟨(x d).value, update r k (some (x d).state),
      (x d).stops.map fun d' => update r k (some d')⟩

/-- One computation after the other. -/
def each (f : α → Prog σ Unit) : List α → Prog σ Unit
  | [] => pure ()
  | a :: as => do
    f a
    each f as

end Prog

open Prog

variable {σ α β : Type} {C : σ → Prop} {Q : α → σ → Prop} {R : β → σ → Prop} {E : σ → Prop} {s : σ}
  {x : Prog σ α}

/-- The specification of what a computation leaves. -/
def Meets (C : σ → Prop) (Q : α → σ → Prop) (E : σ → Prop) (t : Trace σ α) : Prop :=
  (∀ s ∈ t.stops, C s) ∧ match t.value with
    | .ok a => Q a t.state
    | .error _ => E t.state

/-! ### Rules -/

variable {a : α}

@[simp] theorem meets_pure : Meets C Q E ((pure a : Prog σ α) s) ↔ Q a s := by
  show (∀ s ∈ [], C s) ∧ Q a s ↔ _
  simp

@[simp] theorem meets_get {Q : σ → σ → Prop} : Meets C Q E (get s) ↔ Q s s := by
  show (∀ s ∈ [], C s) ∧ Q s s ↔ _
  simp

variable {e : String}

@[simp] theorem meets_fail : Meets C Q E ((fail e : Prog σ α) s) ↔ E s := by
  show (∀ s ∈ [], C s) ∧ E s ↔ _
  simp

/-- A call can be cut off in front of it. -/
@[simp] theorem meets_call {f : σ → σ} {Q : Unit → σ → Prop} :
    Meets C Q E (call f s) ↔ C s ∧ Q () (f s) := by
  show (∀ s' ∈ [s], C s') ∧ Q () (f s) ↔ _
  simp

variable {f : α → Prog σ β}

/-- Sequencing: the rest is specified where the first part ends. -/
@[simp] theorem meets_bind {x : Prog σ α} :
    Meets C R E ((x >>= f) s) ↔ Meets C (fun a s' => Meets C R E (f a s')) E (x s) := by
  show Meets C R E (match (x s).value with
    | .ok a => ⟨(f a (x s).state).value, (f a (x s).state).state,
        (x s).stops ++ (f a (x s).state).stops⟩
    | .error e => ⟨.error e, (x s).state, (x s).stops⟩) ↔ _
  unfold Meets
  cases (x s).value with
  | error e => rfl
  | ok a =>
    constructor
    · rintro ⟨hstops, hvalue⟩
      exact ⟨fun s' hs' => hstops s' (mem_append_left _ hs'),
        fun s' hs' => hstops s' (mem_append_right _ hs'), hvalue⟩
    · rintro ⟨hfirst, hrest, hvalue⟩
      refine ⟨fun s' hs' => ?_, hvalue⟩
      obtain hs' | hs' := mem_append.mp hs'
      · exact hfirst s' hs'
      · exact hrest s' hs'

theorem meets_attempt {x : Prog σ α} {Q : Except String α → σ → Prop}
    (h : Meets C (fun a => Q (.ok a)) (fun s => ∀ e, Q (.error e) s) (x s)) :
    Meets C Q E (attempt x s) := by
  obtain ⟨hstops, hvalue⟩ := h
  refine ⟨hstops, ?_⟩
  show Q (x s).value (x s).state
  generalize (x s).value = v at hvalue ⊢
  cases v with
  | ok a => exact hvalue
  | error e => exact hvalue e

variable {y : Prog σ α} {c : Prop}

theorem meets_ite [Decidable c] {x : Prog σ α} : Meets C Q E ((if c then x else y) s) ↔
      (c → Meets C Q E (x s)) ∧ (¬ c → Meets C Q E (y s)) := by
  by_cases h : c
  · rw [if_pos h]
    exact ⟨fun hx => ⟨fun _ => hx, fun hno => absurd h hno⟩, fun hx => hx.1 h⟩
  · rw [if_neg h]
    exact ⟨fun hy => ⟨fun hc => absurd hc h, fun _ => hy⟩, fun hy => hy.2 h⟩

variable {p : Prop}

theorem meets_check [Decidable p] {Q : Unit → σ → Prop} :
    Meets C Q E (check p e s) ↔ (p → Q () s) ∧ (¬ p → E s) := by
  unfold check
  rw [meets_ite, meets_pure, meets_fail]

variable {t : Trace σ α} {Q' : α → σ → Prop} {C' E' : σ → Prop}

/-- Weakening. -/
theorem Meets.mono (h : Meets C Q E t) (hC : ∀ s, C s → C' s) (hQ : ∀ a s, Q a s → Q' a s)
    (hE : ∀ s, E s → E' s) : Meets C' Q' E' t := by
  obtain ⟨hstops, hvalue⟩ := h
  refine ⟨fun s hs => hC s (hstops s hs), ?_⟩
  split at hvalue
  · exact hQ _ _ hvalue
  · exact hE _ hvalue

/-- Two specifications of one computation. -/
theorem Meets.and (h : Meets C Q E t) (h' : Meets C' Q' E' t) :
    Meets (fun s => C s ∧ C' s) (fun a s => Q a s ∧ Q' a s) (fun s => E s ∧ E' s) t := by
  obtain ⟨hstops, hvalue⟩ := h
  obtain ⟨hstops', hvalue'⟩ := h'
  refine ⟨fun s hs => ⟨hstops s hs, hstops' s hs⟩, ?_⟩
  generalize t.value = v at hvalue hvalue' ⊢
  cases v with
  | ok a => exact ⟨hvalue, hvalue'⟩
  | error e => exact ⟨hvalue, hvalue'⟩

variable {P : σ → Prop}

/-- What holds of values and of errors holds at the end. -/
theorem Meets.state (h : Meets C (fun _ => P) P t) : P t.state := by
  obtain ⟨-, hvalue⟩ := h
  split at hvalue <;> exact hvalue

/-- A computation ends with a value or with an error. -/
theorem Meets.ends (h : Meets C Q E t) :
    (∃ a, t.value = .ok a ∧ Q a t.state) ∨ ∃ e, t.value = .error e ∧ E t.state := by
  obtain ⟨-, hvalue⟩ := h
  split at hvalue
  · next a ha => exact .inl ⟨a, ha, hvalue⟩
  · next e he => exact .inr ⟨e, he, hvalue⟩

theorem Meets.stop (h : Meets C Q E t) : ∀ s ∈ t.stops, C s := h.1

/-- A computation on an entry changes this entry only. -/
theorem meets_within {κ δ : Type} [DecidableEq κ] {r : κ → Option δ} {k : κ}
    {x : Prog δ α} {C E : (κ → Option δ) → Prop} {Q : α → (κ → Option δ) → Prop} :
    Meets C Q E (within k e x r) ↔ (r k = none → E r) ∧ ∀ d, r k = some d →
        Meets (fun d' => C (update r k (some d')))
          (fun a d' => Q a (update r k (some d')))
          (fun d' => E (update r k (some d'))) (x d) := by
  unfold within
  cases hk : r k with
  | none =>
    constructor
    · exact fun h => ⟨fun _ => h.2, nofun⟩
    · exact fun h => ⟨nofun, h.1 rfl⟩
  | some d =>
    have hmap : Meets C Q E ⟨(x d).value, update r k (some (x d).state),
        (x d).stops.map fun d' => update r k (some d')⟩ ↔
        Meets (fun d' => C (update r k (some d')))
          (fun a d' => Q a (update r k (some d')))
          (fun d' => E (update r k (some d'))) (x d) := by
      unfold Meets
      simp only [List.forall_mem_map]
    constructor
    · intro h
      refine ⟨nofun, fun d' hd' => ?_⟩
      obtain rfl := Option.some.inj hd'
      exact hmap.mp h
    · exact fun h => hmap.mpr (h.2 d rfl)

/-- A loop keeps what each of its rounds keeps. -/
theorem meets_each {f : α → Prog σ Unit} {as : List α}
    (hf : ∀ a ∈ as, ∀ s, P s → Meets P (fun _ => P) P (f a s)) (hs : P s) :
    Meets P (fun _ => P) P (each f as s) := by
  induction as generalizing s with
  | nil => exact meets_pure.mpr hs
  | cons a as ih =>
    refine meets_bind.mpr ((hf a mem_cons_self s hs).mono (fun _ h => h) (fun _ s' hs' => ?_)
      fun _ h => h)
    exact ih (fun x hx => hf x (mem_cons_of_mem _ hx)) hs'

/-! ### The first call -/

/-- The first call finds the state as it was; without one the state stays. -/
def First (x : Prog σ α) (s : σ) : Prop := (x s).stops.head?.getD (x s).state = s

theorem First.head (h : First x s) {s' : σ} (hs : (x s).stops.head? = some s') : s' = s := by
  unfold First at h
  rw [hs] at h
  exact h

theorem first_pure : First (pure a : Prog σ α) s := rfl

theorem first_get : First get s := rfl

theorem first_fail : First (fail e : Prog σ α) s := rfl

theorem first_call {f : σ → σ} : First (call f) s := rfl

theorem first_attempt (h : First x s) : First (attempt x) s := h

theorem first_ite [Decidable c] (hx : First x s) (hy : First y s) :
    First (if c then x else y) s := by
  split
  · exact hx
  · exact hy

theorem first_check [Decidable p] : First (check p e) s :=
  first_ite first_pure first_fail

/-- Behind a call nothing matters. -/
theorem first_call_bind {f : σ → σ} {g : Unit → Prog σ α} : First (call f >>= g) s := rfl

theorem first_bind (hx : First x s) (hf : ∀ a, First (f a) s) : First (x >>= f) s := by
  have hbind : (x >>= f) s = match (x s).value with
    | .ok a => ⟨(f a (x s).state).value, (f a (x s).state).state,
        (x s).stops ++ (f a (x s).state).stops⟩
    | .error e => ⟨.error e, (x s).state, (x s).stops⟩ := rfl
  unfold First at hx hf ⊢
  rw [hbind]
  cases hstops : (x s).stops with
  | nil =>
    -- nothing has been called, so the rest starts here
    rw [hstops] at hx
    replace hx : (x s).state = s := hx
    rw [hx]
    cases (x s).value with
    | error e => rfl
    | ok a => exact hf a
  | cons s' stops =>
    rw [hstops] at hx
    cases (x s).value with
    | error e => exact hx
    | ok a => exact hx

theorem first_within {κ δ : Type} [DecidableEq κ] {r : κ → Option δ} {k : κ}
    {x : Prog δ α} (hx : ∀ d, First x d) : First (within k e x) r := by
  unfold First within
  cases hk : r k with
  | none => rfl
  | some d =>
    have hd := hx d
    have hsame : update r k (some d) = r := by
      rw [← hk]
      exact Function.update_eq_self k r
    unfold First at hd
    dsimp only
    rw [head?_map]
    cases hhead : (x d).stops.head? with
    | none =>
      rw [hhead] at hd
      replace hd : (x d).state = d := hd
      rw [hd]
      exact hsame
    | some d' =>
      rw [hhead] at hd
      obtain rfl : d' = d := hd
      exact hsame

end Interrupt
