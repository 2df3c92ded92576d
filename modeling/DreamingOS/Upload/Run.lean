import DreamingOS.Upload.Begin

namespace DreamingOS.Upload

/-!
# Upload staging — runs

The operations as steps, with the bytes that the successful appends of each upload have added.

* `Action`, `Action.prog` — an operation with what it meets;
* `note` — the bytes of the successful appends;
* `InStep` — data and metadata of an upload agree with these bytes;
* `Sound` — what is asked of the surroundings of an operation.
-/

open Interrupt Prog Option
open Function (update_of_ne update_self)

/-! ### Steps -/

/-- An operation, with what it meets. -/
inductive Action where
  | begin (faults : List Char → Faults) (names : List (List Char)) (fl : Faults) (now : ℤ)
      (rnds : List (Option Random)) (q : Request)
  | append (fl : Faults) (t : Clock) (owner : Bytes) (id : List Char) (offset : ℕ) (chunk : Bytes)
  | finalize (fl : Faults) (t : Clock) (owner : Bytes) (id digest : List Char)
  | openFinal (fl : Faults) (owner : Bytes) (id : List Char)
  | delete (fl : Faults) (owner : Bytes) (id : List Char)
  | deletePrivileged (fl : Faults) (id : List Char)
  | cleanup (faults : List Char → Faults) (root : Bool) (names : List (List Char)) (now : ℤ)

variable {sha : Digest} {r : Root} {acc : List Char → Bytes} {a : Action}

/-- The result of an operation, without its value. -/
def Action.prog (sha : Digest) : Action → Prog Root Unit
  | .begin faults names fl now rnds q => (Upload.begin faults names fl now rnds q).void
  | .append fl t owner id offset chunk => (Upload.append fl t owner id offset chunk).void
  | .finalize fl t owner id digest => (Upload.finalize sha fl t owner id digest).void
  | .openFinal fl owner id => (Upload.openFinal sha fl owner id).void
  | .delete fl owner id => Upload.delete fl owner id
  | .deletePrivileged fl id => Upload.deletePrivileged fl id
  | .cleanup faults root names now => Upload.cleanup faults root names now

/-- The root when an operation has ended. -/
def Action.after (sha : Digest) (a : Action) (r : Root) : Root := (a.prog sha r).state

/-- A new upload has no bytes; a successful append adds its chunk. -/
def Action.note (a : Action) (r : Root) (acc : List Char → Bytes) : List Char → Bytes :=
  match a with
  | .begin faults names fl now rnds q =>
    match (Upload.begin faults names fl now rnds q r).value with
    | .ok m => Function.update acc m.uploadId []
    | .error _ => acc
  | .append fl t owner id offset chunk =>
    match (Upload.append fl t owner id offset chunk r).value with
    | .ok _ => Function.update acc id (acc id ++ chunk)
    | .error _ => acc
  | _ => acc

/-! ### Data and metadata -/

/-- The record of an upload counts its bytes, and a finalized one has their digest. -/
def InStep (sha : Digest) (bs : Bytes) (d : Dir) : Prop :=
  ∀ text, d.info = some text → ∃ m : Meta, text = metaText m ∧ m.Readable ∧ d.data = some bs ∧
    m.size = bs.length ∧ (m.status = .finalized → m.sha256 = sha.sha256 bs)

/-- All uploads are in step with the bytes of their appends. -/
def AllInStep (sha : Digest) (acc : List Char → Bytes) (r : Root) : Prop :=
  ∀ id d, uploadIdOk id = true → r id = some d → InStep sha (acc id) d

variable {d : Dir} {m : Meta}

theorem record_of_info (hinfo : d.info = some (metaText m))
    (h : m.Readable) : d.record = some m := by
  obtain ⟨hpos, hlt⟩ := length_metaText h
  unfold Dir.record
  rw [hinfo, bind_some, if_neg (by omega), metaParse_metaText h]

variable {bs : Bytes}

theorem Near.inStep {d d' : Dir} (h : Near d d') (hd : InStep sha bs d) : InStep sha bs d' := by
  intro text htext
  rw [h.1]
  exact hd text (h.2 ▸ htext)

/-- The record of an upload that is in step. -/
theorem InStep.record (hd : InStep sha bs d)
    (hm : d.record = some m) : m.Readable ∧ d.info = some (metaText m) ∧ d.data = some bs ∧
      m.size = bs.length ∧ (m.status = .finalized → m.sha256 = sha.sha256 bs) := by
  cases hinfo : d.info with
  | none =>
    unfold Dir.record at hm
    rw [hinfo] at hm
    cases hm
  | some text =>
    obtain ⟨m', rfl, hreadable, hdata, hsize, hdigest⟩ := hd text hinfo
    have hsame : m' = m := some.inj ((record_of_info hinfo hreadable).symm.trans hm)
    rw [← hsame]
    exact ⟨hreadable, rfl, hdata, hsize, hdigest⟩

/-- What is in step with its record. -/
theorem inStep_of_info (hinfo : d.info = some (metaText m))
    (hreadable : m.Readable) (hdata : d.data = some bs) (hsize : m.size = bs.length)
    (hdigest : m.status = .finalized → m.sha256 = sha.sha256 bs) : InStep sha bs d := by
  intro text htext
  exact ⟨m, some.inj (htext.symm.trans hinfo), hreadable, hdata, hsize, hdigest⟩

theorem inStep_of_none (h : d.info = none) : InStep sha bs d := by
  intro text htext
  rw [h] at htext
  cases htext

variable {id : List Char}

theorem AllInStep.update (h : AllInStep sha acc r)
    (hd : InStep sha (acc id) d) : AllInStep sha acc (Function.update r id (some d)) := by
  intro id' d' hid' hd'
  by_cases heq : id' = id
  · subst heq
    rw [update_self] at hd'
    obtain rfl := some.inj hd'
    exact hd
  · rw [update_of_ne heq] at hd'
    exact h id' d' hid' hd'

/-- A change of the bytes of one upload. -/
theorem AllInStep.update_acc (h : AllInStep sha acc r) (hd : InStep sha bs d) :
    AllInStep sha (Function.update acc id bs) (Function.update r id (some d)) := by
  intro id' d' hid' hd'
  by_cases heq : id' = id
  · subst heq
    rw [update_self] at hd' ⊢
    obtain rfl := some.inj hd'
    exact hd
  · rw [update_of_ne heq] at hd' ⊢
    exact h id' d' hid' hd'

/-- A property of the live uploads is none of the business of removals, when lost ones do not matter
    and those that are near a good one are good. -/
theorem closed_of_live {G : List Char → Dir → Prop}
    (hG : ∀ id d d', G id d → Near d d' → G id d') :
    Closed fun r => ∀ id d, uploadIdOk id = true → r id = some d → G id d where
  near := by
    intro r n d d' hr hd hnear id x hid hx
    by_cases heq : id = n
    · subst heq
      rw [update_self] at hx
      obtain rfl := some.inj hx
      exact hG id d _ (hr id d hid hd) hnear
    · rw [update_of_ne heq] at hx
      exact hr id x hid hx
  stage := by
    intro r id hr hid _ _ id' x hid' hx
    unfold renameDir at hx
    by_cases heq : id' = id
    · subst heq
      rw [update_self] at hx
      cases hx
    · rw [update_of_ne heq, update_of_ne (ne_of_gcIdOk hid' (gcIdOk_gcId hid))]
        at hx
      exact hr id' x hid' hx
  unlink := by
    intro r g d fl e hr hg _ id x hid hx
    rw [update_of_ne (ne_of_gcIdOk hid hg)] at hx
    exact hr id x hid hx
  remove := by
    intro r g hr hg id x hid hx
    rw [update_of_ne (ne_of_gcIdOk hid hg)] at hx
    exact hr id x hid hx

theorem closed_allInStep (sha : Digest) (acc : List Char → Bytes) : Closed (AllInStep sha acc) :=
  closed_of_live fun _ _ _ hd hnear => hnear.inStep hd

end DreamingOS.Upload
