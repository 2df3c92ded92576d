import DreamingOS.Upload.Safe

namespace DreamingOS.Upload

/-!
# Upload staging — what a cleanup can reclaim

Uploads over runs in which a call can be cut off between any two of its calls to the file system.

* `Reclaimable` — every upload has a record that can be read, and no other directory in its way;
* `Careful` — the clock and the calls that keep it so;
* `cleanup_removes` — an undisturbed cleanup removes what it scans;
* `uploads_reclaimed` — over runs.
-/

open Interrupt Prog List Option
open Function (update update_self update_of_ne)

variable {sha : Digest} {r : Root} {d : Dir} {m : Meta} {fl : Faults} {t : Clock} {owner : Bytes}
  {id name digest : List Char} {offset : ℕ} {chunk : Bytes} {now : ℤ} {q : Request}
  {rnds : List (Option Random)}

/-! ### Records that can be read -/

/-- A metadata file that parses to the record written. -/
def Recorded (text : List Char) : Prop := ∃ m : Meta, m.Readable ∧ text = metaText m

/-- What a cleanup needs of the root: metadata files that can be read, one of them in every upload,
    and no directory under the name that an upload is renamed to. -/
structure Reclaimable (r : Root) : Prop where
  recorded : ∀ name d text, r name = some d → d.info = some text → Recorded text
  known : ∀ id d, uploadIdOk id = true → r id = some d → d.info ≠ none
  staged : ∀ id, uploadIdOk id = true → r id ≠ none → r (gcId id) = none

theorem Recorded.record {text : List Char} (h : Recorded text) (hinfo : d.info = some text) :
    ∃ m : Meta, m.Readable ∧ text = metaText m ∧ metaParse text = some m ∧ d.record = some m := by
  obtain ⟨m, hreadable, rfl⟩ := h
  exact ⟨m, hreadable, rfl, metaParse_metaText hreadable, record_of_info hinfo hreadable⟩

/-- A change of one directory that is there. -/
theorem Reclaimable.update (h : Reclaimable r) {d' : Dir} (hd : r name = some d)
    (hrecorded : ∀ text, d'.info = some text → Recorded text)
    (hknown : uploadIdOk name = true → d'.info ≠ none) :
    Reclaimable (Function.update r name (some d')) where
  recorded := by
    intro n x text hx htext
    by_cases heq : n = name
    · subst heq
      rw [Function.update_self] at hx
      obtain rfl := some.inj hx
      exact hrecorded text htext
    · rw [Function.update_of_ne heq] at hx
      exact h.recorded n x text hx htext
  known := by
    intro n x hn hx
    by_cases heq : n = name
    · subst heq
      rw [Function.update_self] at hx
      obtain rfl := some.inj hx
      exact hknown hn
    · rw [Function.update_of_ne heq] at hx
      exact h.known n x hn hx
  staged := by
    intro n hn hthere
    have hthere' : r n ≠ none := by
      by_cases heq : n = name
      · rw [heq, hd]
        nofun
      · rwa [Function.update_of_ne heq] at hthere
    have hgone := h.staged n hn hthere'
    have hne : gcId n ≠ name := by
      rintro rfl
      rw [hgone] at hd
      cases hd
    rwa [Function.update_of_ne hne]

/-- A directory that goes. -/
theorem Reclaimable.remove (h : Reclaimable r) (name : List Char) :
    Reclaimable (Function.update r name none) := by
  have hcases : ∀ n, Function.update r name none n = none ∨ Function.update r name none n = r n := by
    intro n
    by_cases heq : n = name
    · rw [heq]
      exact .inl (Function.update_self ..)
    · exact .inr (Function.update_of_ne heq ..)
  have hthere : ∀ n x, Function.update r name none n = some x → r n = some x := by
    intro n x hx
    obtain hnone | hsame := hcases n
    · rw [hnone] at hx
      cases hx
    · rwa [hsame] at hx
  constructor
  · exact fun n x text hx => h.recorded n x text (hthere n x hx)
  · exact fun n x hn hx => h.known n x hn (hthere n x hx)
  · intro n hn hx
    obtain ⟨x, hx⟩ := ne_none_iff_exists'.mp hx
    have hgone := h.staged n hn (by rw [hthere n x hx]; nofun)
    obtain hnone | hsame := hcases (gcId n)
    · exact hnone
    · exact hsame.trans hgone

/-- Removals keep what a cleanup needs. -/
theorem closed_reclaimable : Closed Reclaimable where
  near := by
    intro r name d d' h hd hnear
    refine h.update hd (fun text htext => ?_) fun hid => ?_
    · exact h.recorded name d text hd (hnear.2 ▸ htext)
    · rw [hnear.2]
      exact h.known name d hid hd
  stage := by
    intro r id h hid hthere hempty
    have hne := ne_of_gcIdOk hid (gcIdOk_gcId hid)
    have hfree : ∀ n, n ≠ id → n ≠ gcId id → renameDir id (gcId id) r n = r n := by
      intro n hn hn'
      unfold renameDir
      rw [update_of_ne hn, update_of_ne hn']
    have hgone : renameDir id (gcId id) r id = none := by
      unfold renameDir
      exact update_self ..
    have hmoved : renameDir id (gcId id) r (gcId id) = r id := by
      unfold renameDir
      rw [update_of_ne hne.symm, update_self]
    constructor
    · intro n x text hx htext
      by_cases heq : n = id
      · rw [heq, hgone] at hx
        cases hx
      by_cases heq' : n = gcId id
      · rw [heq', hmoved] at hx
        exact h.recorded id x text hx htext
      · rw [hfree n heq heq'] at hx
        exact h.recorded n x text hx htext
    · intro n x hn hx
      by_cases heq : n = id
      · rw [heq, hgone] at hx
        cases hx
      · rw [hfree n heq (ne_of_gcIdOk hn (gcIdOk_gcId hid))] at hx
        exact h.known n x hn hx
    · intro n hn hx
      by_cases heq : n = id
      · rw [heq, hgone] at hx
        exact absurd rfl hx
      rw [hfree n heq (ne_of_gcIdOk hn (gcIdOk_gcId hid))] at hx
      have hother : gcId n ≠ gcId id := fun hsame => heq (gcId_injective hn hid hsame)
      rw [hfree _ (ne_of_gcIdOk hid (gcIdOk_gcId hn)).symm hother]
      exact h.staged n hn hx
  unlink := by
    intro r g d fl e h hg hd
    refine h.update hd (fun text htext => ?_) fun hid => ?_
    · refine h.recorded g d text hd ?_
      cases e <;> unfold Dir.unlink at htext <;> dsimp only at htext
      · split at htext <;> exact htext
      · split at htext
        · cases htext
        · exact htext
      · exact (near_unlinkTmp fl d).2 ▸ htext
      · split at htext <;> exact htext
      · exact htext
    · rw [not_uploadIdOk_of_gcIdOk hg] at hid
      cases hid
  remove := fun _ g h _ => h.remove g

/-! ### An undisturbed cleanup -/

/-- Nobody else holds the lock, and the calls of a removal work. -/
structure Undisturbed (fl : Faults) : Prop where
  lock : fl.lock = true
  free : fl.busy = false
  unlinks : ∀ e, fl.unlinks e = true
  rename : fl.dirRename = true

theorem lockFor_free (h : Undisturbed fl) {nonblocking : Bool} :
    Meets (fun _ => True) (fun _ d' => d' = { d with lock := true }) (fun _ => False)
      (lockFor fl nonblocking d) := by
  unfold lockFor lockDir
  simp only [meets_bind, meets_check, meets_call]
  refine ⟨fun _ => ⟨trivial, fun _ => trivial, fun hno => hno ?_⟩, fun hno => hno h.lock⟩
  rw [h.free, Bool.and_false]
  rfl

/-- A directory under the name of a removal is removed with its files. -/
theorem removeLocked_removes (h : Undisturbed fl) (hd : r name = some d) :
    Meets (fun _ => True) (fun _ r' => r' = update r name none) (fun _ => False)
      (removeLocked fl name r) := by
  have hall := h.unlinks
  unfold removeLocked
  rw [meets_bind, meets_within]
  refine ⟨fun hno => absurd (hno.symm.trans hd) nofun, fun d₁ hd₁ => ?_⟩
  obtain rfl := some.inj (hd.symm.trans hd₁)
  unfold unlinkFiles
  simp only [meets_bind, meets_call, meets_ite, meets_check, meets_get, hall, Bool.not_true,
    Bool.false_eq_true, false_implies, not_false_eq_true, true_implies, true_and, and_self,
    not_true_eq_false, and_true]
  have hempty : (((d.unlink fl .data).unlink fl .info).unlink fl .tmp).unlink fl .lock = {} := by
    simp [Dir.unlink, Dir.unlinkTmp, hall]
  rw [hempty]
  have hremoved : removeDir fl name (update r name (some {})) =
      update r name none := by
    unfold removeDir
    rw [update_self]
    dsimp only
    rw [if_pos ⟨hall .dir, rfl⟩, Function.update_idem]
  rw [hremoved]
  exact ⟨fun _ => rfl, fun hno => hno (update_self ..)⟩

/-- What is left after a removal: the name is free, and no other directory is new or different. -/
def Removed (name : List Char) (r r' : Root) : Prop :=
  r' name = none ∧ ∀ n, r' n = none ∨ r' n = r n

theorem removed_update (name : List Char) (r : Root) :
    Removed name r (update r name none) := by
  refine ⟨update_self .., fun n => ?_⟩
  by_cases heq : n = name
  · rw [heq]
    exact .inl (update_self ..)
  · exact .inr (update_of_ne heq ..)

theorem removed_same (hfree : r name = none) : Removed name r r := ⟨hfree, fun _ => .inr rfl⟩

theorem recoverGc_removes (h : Undisturbed fl) {nonblocking : Bool} (hg : gcIdOk name = true) :
    Meets (fun _ => True) (fun _ => Removed name r) (fun _ => False)
      (recoverGc fl nonblocking name r) := by
  unfold recoverGc
  rw [meets_bind, meets_check]
  refine ⟨fun _ => ?_, fun hno => hno hg⟩
  rw [meets_bind, meets_get, meets_ite]
  refine ⟨fun hfree => meets_pure.mpr (removed_same hfree), fun hthere => ?_⟩
  rw [meets_bind, meets_within]
  refine ⟨fun hno => hthere hno, fun d hd => ?_⟩
  refine (lockFor_free h).mono (fun _ h => h) ?_ fun _ h => h
  rintro _ d' rfl
  refine (removeLocked_removes h (update_self ..)).mono (fun _ h => h) ?_ fun _ h => h
  rintro _ r' rfl
  rw [Function.update_idem]
  exact removed_update name r

/-- An upload with a record that can be read is removed. -/
theorem deleteInternal_removes (hr : Reclaimable r) (h : Undisturbed fl) (hroot : fl.root = true)
    (hid : uploadIdOk id = true) (hd : r id = some d) (hm : d.record = some m) :
    Meets (fun _ => True) (fun _ => Removed id r) (fun _ => False)
      (deleteInternal fl none true true id r) := by
  have hne := ne_of_gcIdOk hid (gcIdOk_gcId hid)
  have hthere : ¬ r id = none := by
    rw [hd]
    nofun
  have hgone := hr.staged id hid hthere
  unfold deleteInternal
  rw [meets_bind, meets_check]
  refine ⟨fun _ => ?_, fun hno => hno hroot⟩
  rw [meets_bind, meets_check]
  refine ⟨fun _ => ?_, fun hno => hno hid⟩
  rw [meets_bind, meets_get, if_neg hthere, meets_bind, meets_within]
  refine ⟨fun hno => hthere hno, fun d₁ hd₁ => ?_⟩
  obtain rfl := some.inj (hd.symm.trans hd₁)
  rw [meets_bind]
  refine (lockFor_free h).mono (fun _ h => h) ?_ fun _ h => h
  rintro _ d' rfl
  rw [meets_bind]
  apply meets_attempt
  rw [metaRead_meets, record_lock, hm]
  refine ⟨fun m₁ _ => ?_, nofun⟩
  show Meets _ _ _ ((pure () : Prog Dir Unit) _)
  simp only [meets_pure, meets_bind, meets_get, meets_check, meets_call]
  have hcan : canRename fl (gcId id) (update r id (some { d with lock := true })) = true := by
    unfold canRename
    rw [h.rename, update_of_ne hne.symm, hgone]
    rfl
  refine ⟨fun _ => ⟨trivial, ?_⟩, fun hno => hno hcan⟩
  have hmoved : renameDir id (gcId id) (update r id (some { d with lock := true })) (gcId id) =
      some { d with lock := true } := by
    unfold renameDir
    rw [update_of_ne hne.symm, update_self, update_self]
  refine (removeLocked_removes h hmoved).mono (fun _ h => h) ?_ fun _ h => h
  rintro _ r' rfl
  constructor
  · rw [update_of_ne hne]
    unfold renameDir
    exact update_self ..
  · intro n
    by_cases hgc : n = gcId id
    · rw [hgc]
      exact .inl (update_self ..)
    rw [update_of_ne hgc]
    unfold renameDir
    by_cases heq : n = id
    · rw [heq]
      exact .inl (update_self ..)
    · rw [update_of_ne heq, update_of_ne hgc, update_of_ne heq]
      exact .inr rfl

/-- An entry of a scan is removed, when it has expired. -/
theorem cleanupEntry_removes (hr : Reclaimable r) (h : Undisturbed fl) (hroot : fl.root = true)
    (hname : gcIdOk name = true ∨ uploadIdOk name = true)
    (hexpired : ∀ d m, r name = some d → d.record = some m → m.expires ≤ now) :
    Meets (fun _ => True) (fun _ => Removed name r) (fun _ => False)
      (cleanupEntry fl now name r) := by
  unfold cleanupEntry
  rw [meets_ite]
  refine ⟨fun hg => ?_, fun hg => ?_⟩
  · rw [meets_bind]
    apply meets_attempt
    refine (recoverGc_removes h hg).mono (fun _ h => h) (fun _ _ h => ?_) fun _ h => h.elim
    rwa [meets_pure]
  have hid := hname.resolve_left hg
  rw [meets_bind]
  apply meets_attempt
  rw [meets_within]
  refine ⟨fun hfree _ => meets_pure.mpr (removed_same hfree), fun d hd => ?_⟩
  rw [meets_bind]
  refine (lockFor_free h).mono (fun _ h => h) ?_ fun _ h => h.elim
  rintro _ d' rfl
  rw [metaRead_meets, record_lock]
  -- the record can be read, for every upload has one
  obtain ⟨text, htext⟩ := ne_none_iff_exists'.mp (hr.known name d hid hd)
  obtain ⟨m, -, -, -, hm⟩ := (hr.recorded name d text hd htext).record htext
  refine ⟨fun m₁ hm₁ => ?_, fun hno => absurd (hno.symm.trans hm) nofun⟩
  rw [meets_ite]
  refine ⟨fun _ => ?_, fun hno => absurd (hexpired d m₁ hd hm₁) hno⟩
  have hlocked : Reclaimable (update r name (some { d with lock := true })) :=
    closed_reclaimable.near r name d _ hr hd (near_lock d true)
  rw [meets_bind]
  apply meets_attempt
  refine (deleteInternal_removes hlocked h hroot hid (update_self ..) hm).mono
    (fun _ h => h) ?_ fun _ h => h.elim
  rintro _ r' ⟨hgone, hothers⟩
  rw [meets_pure]
  refine ⟨hgone, fun n => ?_⟩
  obtain hnone | hsame := hothers n
  · exact .inl hnone
  · by_cases heq : n = name
    · rw [heq]
      exact .inl hgone
    · rw [update_of_ne heq] at hsame
      exact .inr hsame

/-- **An undisturbed cleanup removes what it scans**, when everything there has expired. -/
theorem cleanup_removes (hr : Reclaimable r) {faults : List Char → Faults}
    {names : List (List Char)}
    (h : ∀ name, Undisturbed (faults name) ∧ (faults name).root = true)
    (hexpired : ∀ name ∈ scanned names, ∀ d m, r name = some d → d.record = some m →
      m.expires ≤ now) :
    Meets (fun _ => True)
      (fun _ r' => (∀ name ∈ scanned names, r' name = none) ∧ ∀ n, r' n = none ∨ r' n = r n)
      (fun _ => False) (cleanup faults true names now r) := by
  have hnames : ∀ name ∈ scanned names, gcIdOk name = true ∨ uploadIdOk name = true := by
    intro name hname
    have hmem := (mem_filter.mp (mem_of_mem_take hname)).2
    simpa using hmem
  unfold cleanup
  rw [meets_bind, meets_check]
  refine ⟨fun _ => ?_, fun hno => hno rfl⟩
  generalize scanned names = ns at hnames hexpired ⊢
  induction ns generalizing r with
  | nil => exact meets_pure.mpr ⟨nofun, fun _ => .inr rfl⟩
  | cons name ns ih =>
    unfold each
    rw [meets_bind]
    have hentry := cleanupEntry_removes hr (h name).1 (h name).2 (hnames name mem_cons_self)
      (hexpired name mem_cons_self)
    refine (hentry.and (closed_reclaimable.cleanupEntry hr)).mono (fun _ _ => trivial) ?_
      fun _ h => h.1
    rintro _ r₁ ⟨⟨hgone, hothers⟩, hr₁⟩
    have hexpired₁ : ∀ n ∈ ns, ∀ d m, r₁ n = some d → d.record = some m → m.expires ≤ now := by
      intro n hn d m hd
      obtain hnone | hsame := hothers n
      · rw [hnone] at hd
        cases hd
      · exact hexpired n (mem_cons_of_mem _ hn) d m (hsame ▸ hd)
    refine (ih hr₁ (fun n hn => hnames n (mem_cons_of_mem _ hn)) hexpired₁).mono
      (fun _ h => h) ?_ fun _ h => h
    rintro _ r₂ ⟨hscanned, hothers₂⟩
    refine ⟨fun n hn => ?_, fun n => ?_⟩
    · obtain rfl | hn := mem_cons.mp hn
      · obtain hnone | hsame := hothers₂ n
        · exact hnone
        · exact hsame.trans hgone
      · exact hscanned n hn
    · obtain hnone | hsame := hothers₂ n
      · exact .inl hnone
      · rw [hsame]
        exact hothers n

/-! ### What the operations keep -/

/-- A directory with a record that can be read. -/
def Known (d : Dir) : Prop := ∃ text, d.info = some text ∧ Recorded text

theorem Reclaimable.knownDir (h : Reclaimable r) (hid : uploadIdOk id = true) (hd : r id = some d) :
    Known d := by
  obtain ⟨text, htext⟩ := ne_none_iff_exists'.mp (h.known id d hid hd)
  exact ⟨text, htext, h.recorded id d text hd htext⟩

theorem Known.near {d' : Dir} (h : Known d) (hinfo : d'.info = d.info) : Known d' := by
  obtain ⟨text, htext, hrecorded⟩ := h
  exact ⟨text, hinfo.trans htext, hrecorded⟩

theorem known_of_info (hinfo : d.info = some (metaText m)) (hreadable : m.Readable) : Known d :=
  ⟨_, hinfo, m, hreadable, rfl⟩

theorem Known.readable (h : Known d) (hm : d.record = some m) : m.Readable := by
  obtain ⟨text, htext, hrecorded⟩ := h
  obtain ⟨m', hreadable, -, -, hrecord⟩ := hrecorded.record htext
  obtain rfl := some.inj (hrecord.symm.trans hm)
  exact hreadable

theorem Reclaimable.updateKnown (h : Reclaimable r) (hd : r id = some d) {d' : Dir}
    (hd' : Known d') : Reclaimable (Function.update r id (some d')) := by
  obtain ⟨text, htext, hrecorded⟩ := hd'
  refine h.update hd (fun text' htext' => ?_) fun _ => ?_
  · rwa [← some.inj (htext.symm.trans htext')]
  · rw [htext]
    nofun

theorem Known.append (h : Known d)
    (hclock : ∀ m, d.record = some m → m.ownerId = owner → m.status = .open →
      m.created ≤ t.second ∧ t.second < 2 ^ 63) :
    Meets Known (fun _ => Known) Known (appendDir fl t owner offset chunk d) := by
  refine (appendDir_meets fl t owner offset chunk d).mono ?_ ?_ ?_
  · rintro d' ⟨hinfo, -⟩
    exact h.near hinfo
  · rintro m' d' ⟨m, bs, hready, rfl, -, hinfo⟩
    have hreadable := h.readable hready.record
    obtain ⟨hcreated, hlt⟩ := hclock m hready.record hready.owner hready.status
    have hfits := hready.fits
    rw [← hready.place.2] at hfits
    obtain ⟨-, -, -, hsha⟩ := hreadable.checks
    exact known_of_info hinfo (hreadable.later hcreated hlt rfl (fits_size hfits) hsha
      hreadable.error)
  · intro d' hfailed
    cases hfailed with
    | refused _ hnear _ => exact h.near hnear.2
    | expired m _ hrecord howner hstatus _ _ hinfo =>
      have hreadable := h.readable hrecord
      obtain ⟨hcreated, hlt⟩ := hclock m hrecord howner hstatus
      obtain ⟨-, ⟨-, -, -, hle⟩, -, hsha⟩ := hreadable.checks
      refine known_of_info hinfo (hreadable.later hcreated hlt rfl hle hsha ?_)
      exact expired_fits
    | partial_ _ _ _ _ _ _ _ _ hinfo _ => exact h.near hinfo

theorem Known.finalize (h : Known d)
    (hclock : ∀ m, d.record = some m → m.ownerId = owner → m.status = .open →
      m.created ≤ t.first ∧ t.first < 2 ^ 63) :
    Meets Known (fun _ => Known) Known (finalizeDir sha fl t owner digest d) := by
  refine (finalizeDir_meets sha fl t owner digest d).mono ?_ ?_ ?_
  · exact fun _ hnear => h.near hnear.2
  · rintro m' d' ⟨m, bs, hrecord, howner, hstatus, -, -, rfl, -, hinfo⟩
    have hreadable := h.readable hrecord
    obtain ⟨hcreated, hlt⟩ := hclock m hrecord howner hstatus
    obtain ⟨-, ⟨-, -, -, hle⟩, -, -⟩ := hreadable.checks
    exact known_of_info hinfo
      (hreadable.later hcreated hlt rfl hle (.inr (sha.ok bs)) hreadable.error)
  · rintro d' (hnear | ⟨m, hrecord, howner, hstatus, -, hinfo⟩)
    · exact h.near hnear.2
    · have hreadable := h.readable hrecord
      obtain ⟨hcreated, hlt⟩ := hclock m hrecord howner hstatus
      obtain ⟨-, ⟨-, -, -, hle⟩, -, hsha⟩ := hreadable.checks
      exact known_of_info hinfo (hreadable.later hcreated hlt rfl hle hsha mismatch_fits)

/-- An operation that works in the directory of an upload. -/
theorem Reclaimable.within {α : Type} {x : Prog Dir α} {e : String} (h : Reclaimable r)
    (hid : uploadIdOk id = true)
    (hx : ∀ d, r id = some d → Known d → Meets Known (fun _ => Known) Known (x d)) :
    Meets Reclaimable (fun _ => Reclaimable) Reclaimable (within id e x r) := by
  rw [meets_within]
  refine ⟨fun _ => h, fun d hd => ?_⟩
  exact (hx d hd (h.knownDir hid hd)).mono (fun _ => h.updateKnown hd) (fun _ _ => h.updateKnown hd)
    fun _ => h.updateKnown hd

/-- What is asked of the surroundings of an operation other than a begin. -/
def Careful (r : Root) : Action → Prop
  | .begin _ _ _ _ _ _ => False
  | .append _ t owner id _ _ =>
    ∀ d m, r id = some d → d.record = some m → m.ownerId = owner → m.status = .open →
      m.created ≤ t.second ∧ t.second < 2 ^ 63
  | .finalize _ t owner id _ =>
    ∀ d m, r id = some d → d.record = some m → m.ownerId = owner → m.status = .open →
      m.created ≤ t.first ∧ t.first < 2 ^ 63
  | _ => True

theorem Reclaimable.operation {a : Action} (h : Reclaimable r) (hcareful : Careful r a) :
    Meets Reclaimable (fun _ => Reclaimable) Reclaimable (a.prog sha r) := by
  have hvoid : ∀ {α : Type} {x : Prog Root α},
      Meets Reclaimable (fun _ => Reclaimable) Reclaimable (x r) →
      Meets Reclaimable (fun _ => Reclaimable) Reclaimable (x.void r) := by
    intro α x hx
    refine ⟨hx.stop, ?_⟩
    obtain ⟨_, hvalue, hend⟩ | ⟨_, hvalue, hend⟩ := hx.ends
    · unfold Prog.void
      rw [hvalue]
      exact hend
    · unfold Prog.void
      rw [hvalue]
      exact hend
  cases a with
  | begin => exact hcareful.elim
  | append fl t owner id offset chunk =>
    apply hvoid
    unfold Upload.append
    rw [meets_bind, openUpload_meets]
    exact ⟨fun _ _ hid => h.within hid fun d hd hknown => hknown.append (hcareful d · hd),
      fun _ => h⟩
  | finalize fl t owner id digest =>
    apply hvoid
    unfold Upload.finalize
    simp only [meets_bind, meets_check, openUpload_meets]
    exact ⟨fun _ => ⟨fun _ => ⟨fun _ _ hid =>
      h.within hid fun d hd hknown => hknown.finalize (hcareful d · hd), fun _ => h⟩, fun _ => h⟩,
      fun _ => h⟩
  | openFinal fl owner id =>
    apply hvoid
    unfold Upload.openFinal
    rw [meets_bind, openUpload_meets]
    refine ⟨fun _ _ hid => h.within hid fun d hd hknown => ?_, fun _ => h⟩
    exact openDir_meets.mono (fun _ hnear => hknown.near hnear.2)
      (fun _ _ hnear => hknown.near hnear.2) fun _ hnear => hknown.near hnear.2
  | delete fl owner id => exact closed_reclaimable.deleteInternal h
  | deletePrivileged fl id => exact closed_reclaimable.deleteInternal h
  | cleanup faults root names now => exact closed_reclaimable.run_cleanup faults root names now h

/-! ### New uploads -/

/-- What is asked of the surroundings of a begin, behind its cleanup: a clock that can be written,
    calls that remove a directory that is not finished, and no unfinished removal under the name. -/
structure CarefulNew (r : Root) (fl : Faults) (now : ℤ) (rnds : List (Option Random)) : Prop where
  clock : 0 ≤ now ∧ now + TTL_MAX_SECONDS < 2 ^ 63
  unlinks : ∀ e, fl.unlinks e = true
  names : ∀ rnd, some rnd ∈ rnds.take 8 → r (genUploadId rnd) = none →
    r (gcId (genUploadId rnd)) = none

theorem beginFail_removes (hall : ∀ e, fl.unlinks e = true) (hid : uploadIdOk id = true) :
    Meets (fun _ => True) (fun _ r' => r' = update r id none) (fun _ => False)
      (beginFail fl id r) := by
  unfold beginFail
  rw [if_pos hid, meets_bind]
  apply meets_attempt
  rw [meets_within]
  refine ⟨fun hfree _ => ?_, fun d hd => ?_⟩
  · rw [meets_call]
    refine ⟨trivial, ?_⟩
    unfold removeDir
    rw [hfree]
    exact (hfree ▸ Function.update_eq_self id r).symm
  · have hempty : (((d.unlink fl .data).unlink fl .info).unlink fl .tmp).unlink fl .lock = {} := by
      simp [Dir.unlink, Dir.unlinkTmp, hall]
    simp only [meets_bind, meets_call, true_and, hempty]
    unfold removeDir
    rw [update_self]
    dsimp only
    rw [if_pos ⟨hall .dir, rfl⟩, Function.update_idem]

/-- The name that has been made is one of those generated. -/
theorem pickId_mem {last : List Char} (h : (pickId fl r last rnds).2 = none) :
    ∃ rnd, some rnd ∈ rnds ∧ (pickId fl r last rnds).1 = genUploadId rnd := by
  induction rnds generalizing last with
  | nil => cases h
  | cons rnd rnds ih =>
    cases rnd with
    | none => cases h
    | some rnd =>
      unfold pickId at h ⊢
      split
      · next htaken =>
        rw [if_pos htaken] at h
        obtain ⟨rnd', hmem, heq⟩ := ih h
        exact ⟨rnd', mem_cons_of_mem _ hmem, heq⟩
      · exact ⟨rnd, mem_cons_self, rfl⟩

/-- **A begin** that is not cut off leaves a new upload with its record, or none of its name. -/
theorem beginNew_leaves (h : CarefulNew r fl now rnds) : Meets (fun _ => True)
      (fun _ r' => ∃ id d, uploadIdOk id = true ∧ r (gcId id) = none ∧ Known d ∧
        r' = update r id (some d))
      (fun r' => r' = r ∨ ∃ id, uploadIdOk id = true ∧ r' = update r id none)
      (beginNew fl now rnds q r) := by
  have hnames := h.names
  unfold beginNew
  cases hcheck : q.check with
  | error e => exact meets_fail.mpr (.inl rfl)
  | ok checked =>
    obtain ⟨origin, type, max, ttl⟩ := checked
    dsimp only
    rw [meets_bind, meets_check]
    refine ⟨fun _ => ?_, fun _ => .inl rfl⟩
    rw [meets_bind, meets_check]
    refine ⟨fun _ => ?_, fun _ => .inl rfl⟩
    rw [meets_bind, meets_get]
    have hfresh := @pickId_fresh fl r (rnds.take 8) []
    have hmem := @pickId_mem r fl (rnds.take 8) []
    generalize pickId fl r [] (rnds.take 8) = picked at hfresh hmem ⊢
    obtain ⟨id, error⟩ := picked
    dsimp only at hfresh hmem ⊢
    cases error with
    | some e =>
      dsimp only
      rw [meets_bind]
      by_cases hid : uploadIdOk id = true
      · refine (beginFail_removes h.unlinks hid).mono (fun _ h => h) ?_ fun _ h => h.elim
        exact fun _ r' hr' => meets_fail.mpr (.inr ⟨id, hid, hr'⟩)
      unfold beginFail
      rw [if_neg hid, meets_pure, meets_fail]
      exact .inl rfl
    | none =>
      obtain ⟨hfree, hid⟩ := hfresh rfl
      obtain ⟨rnd, hrnd, heq⟩ := hmem rfl
      have hgone : r (gcId id) = none := by
        rw [heq] at hfree ⊢
        exact hnames rnd hrnd hfree
      have hreadable := Request.readable hcheck hid h.clock.1 h.clock.2
      dsimp only
      rw [meets_bind, meets_call]
      refine ⟨trivial, ?_⟩
      rw [meets_bind]
      apply meets_attempt
      rw [meets_within, update_self]
      refine ⟨nofun, fun d hd => ?_⟩
      obtain rfl := some.inj hd
      simp only [Function.update_idem]
      refine beginDir_meets.mono (fun _ _ => trivial) ?_ ?_
      · rintro _ d ⟨-, hinfo⟩
        rw [meets_pure]
        exact ⟨id, d, hid, hgone, known_of_info hinfo hreadable, rfl⟩
      · intro d _ e
        rw [meets_bind]
        refine (beginFail_removes h.unlinks hid).mono (fun _ h => h) ?_ fun _ h => h.elim
        rintro _ r' rfl
        rw [meets_fail, Function.update_idem]
        exact .inr ⟨id, hid, rfl⟩

/-- The first call of a begin finds the root as it was. -/
theorem beginNew_first : First (beginNew fl now rnds q) r := by
  have hfail : ∀ id e, First (do beginFail fl id; fail e : Prog Root Meta) r := by
    intro id e
    have hfiles := fun d => @first_call_bind Dir Unit d (Dir.unlink fl · .data) fun _ => do
      call (Dir.unlink fl · .info)
      call (Dir.unlink fl · .tmp)
      call (Dir.unlink fl · .lock)
    refine first_bind (first_ite ?_ first_pure) fun _ => first_fail
    exact first_bind (first_attempt (first_within hfiles)) fun _ => first_call
  unfold beginNew
  split
  · exact first_fail
  refine first_bind first_check fun _ => first_bind first_check fun _ =>
    first_bind first_get fun r' => ?_
  dsimp only
  split
  · exact hfail _ _
  · exact first_call_bind

/-- A new directory with its record. -/
theorem Reclaimable.insert (h : Reclaimable r) (hid : uploadIdOk id = true)
    (hgone : r (gcId id) = none) (hd : Known d) : Reclaimable (Function.update r id (some d)) := by
  obtain ⟨text, htext, hrecorded⟩ := hd
  constructor
  · intro n x text' hx htext'
    by_cases heq : n = id
    · rw [heq, Function.update_self] at hx
      obtain rfl := some.inj hx
      rwa [← some.inj (htext.symm.trans htext')]
    · rw [Function.update_of_ne heq] at hx
      exact h.recorded n x text' hx htext'
  · intro n x hn hx
    by_cases heq : n = id
    · rw [heq, Function.update_self] at hx
      obtain rfl := some.inj hx
      rw [htext]
      nofun
    · rw [Function.update_of_ne heq] at hx
      exact h.known n x hn hx
  · intro n hn hx
    rw [Function.update_of_ne (ne_of_gcIdOk hid (gcIdOk_gcId hn)).symm]
    by_cases heq : n = id
    · rwa [heq]
    · rw [Function.update_of_ne heq] at hx
      exact h.staged n hn hx

theorem Reclaimable.create (h : Reclaimable r) (hcareful : CarefulNew r fl now rnds) :
    Reclaimable (beginNew fl now rnds q r).state := by
  obtain ⟨m, -, id, d, hid, hgone, hknown, heq⟩ | ⟨e, -, heq | ⟨id, -, heq⟩⟩ :=
    (beginNew_leaves (q := q) hcareful).ends
  · rw [heq]
    exact h.insert hid hgone hknown
  · rwa [heq]
  · rw [heq]
    exact h.remove id

/-! ### Runs with stops -/

/-- The states of a run in which a call can be cut off in front of each of its calls to the file
    system; `webd_upload_begin` is taken as its cleanup and the rest. -/
inductive CutRun (sha : Digest) : Root → Prop
  | start : CutRun sha fun _ => none
  | operation (r : Root) (a : Action) (h : CutRun sha r) (hcareful : Careful r a) :
      CutRun sha (a.after sha r)
  | cut (r : Root) (a : Action) (s : Root) (h : CutRun sha r) (hcareful : Careful r a)
      (hs : s ∈ (a.prog sha r).stops) : CutRun sha s
  | create (r : Root) (fl : Faults) (now : ℤ) (rnds : List (Option Random)) (q : Request)
      (h : CutRun sha r) (hcareful : CarefulNew r fl now rnds) :
      CutRun sha (beginNew fl now rnds q r).state
  | cutCreate (r : Root) (fl : Faults) (now : ℤ) (rnds : List (Option Random)) (q : Request)
      (s : Root) (h : CutRun sha r) (hs : (beginNew fl now rnds q r).stops.head? = some s) :
      CutRun sha s

/-- A begin is its cleanup and the rest. -/
theorem CutRun.begin (h : CutRun sha r) (faults : List Char → Faults) (names : List (List Char))
    (q : Request) (hcareful : CarefulNew (cleanup faults fl.root names now r).state fl now rnds) :
    CutRun sha (Upload.begin faults names fl now rnds q r).state :=
  CutRun.create _ fl now rnds q
    (CutRun.operation r (.cleanup faults fl.root names now) h trivial) hcareful

/-- What holds of the uploads wherever a run has come to. -/
structure Reclaims (r : Root) : Prop where
  parses : ∀ name d text, r name = some d → d.info = some text →
    ∃ m : Meta, text = metaText m ∧ metaParse text = some m ∧ d.record = some m
  reclaims : ∀ (faults : List Char → Faults) (names : List (List Char)) (now : ℤ),
    (∀ name, Undisturbed (faults name) ∧ (faults name).root = true) →
    (∀ name ∈ scanned names, ∀ d m, r name = some d → d.record = some m → m.expires ≤ now) →
    (∀ name ∈ scanned names, (cleanup faults true names now r).state name = none) ∧
      ∀ name, (cleanup faults true names now r).state name = none ∨
        (cleanup faults true names now r).state name = r name

theorem CutRun.reclaimable (h : CutRun sha r) : Reclaimable r := by
  induction h with
  | start => exact ⟨nofun, nofun, fun _ _ hno => absurd rfl hno⟩
  | operation r a _ hcareful ih => exact (ih.operation hcareful).state
  | cut r a s _ hcareful hs ih => exact (ih.operation hcareful).stop s hs
  | create r fl now rnds q _ hcareful ih => exact ih.create hcareful
  | cutCreate r fl now rnds q s _ hs ih => rwa [beginNew_first.head hs]

/-- **Uploads stay readable and can be reclaimed** in every run in which the clock does not fall
    behind an upload, and no begin is cut off between its directory and its record. -/
theorem uploads_reclaimed (h : CutRun sha r) : Reclaims r := by
  have hr := h.reclaimable
  constructor
  · intro name d text hd htext
    obtain ⟨m, -, heq, hparse, hrecord⟩ := (hr.recorded name d text hd htext).record htext
    exact ⟨m, heq, hparse, hrecord⟩
  · intro faults names now hfaults hexpired
    obtain ⟨_, -, hend⟩ | ⟨_, _, hno⟩ := (cleanup_removes hr hfaults hexpired).ends
    · exact hend
    · exact hno.elim

/-! ### Uploads that nothing removes -/

/-- The upload that has been begun can be reclaimed. -/
theorem uploads_reclaimed_trial :
    Reclaims (Upload.begin (fun _ => {}) [] {} 1000 [some trialRandom] trialRequest
      fun _ => none).state := by
  have hstart : CutRun blankDigest fun _ => none := CutRun.start
  have hcareful : CarefulNew (cleanup (fun _ => {}) true [] 1000 fun _ => none).state {} 1000
      [some trialRandom] := ⟨by decide, fun _ => rfl, fun _ _ _ => rfl⟩
  exact uploads_reclaimed (hstart.begin (fun _ => {}) [] trialRequest hcareful)

/-- A begin that is cut off behind its `mkdirat`. -/
def cutRoot : Root := (trialBegin.prog blankDigest fun _ => none).stops.getD 1 fun _ => none

/-- An append at a clock behind the creation of its upload. -/
def earlyAppend : Action := .append {} ⟨999, 999⟩ [97] trialId 0 [1, 2]

theorem undisturbed_default : Undisturbed {} := ⟨rfl, rfl, fun _ => rfl, rfl⟩

theorem not_reclaims_of_kept {r : Root} (hrecord : (r trialId).bind Dir.record = none)
    (hkept : (cleanup (fun _ => {}) true [trialId] 1000000 r).state trialId ≠ none) :
    ¬ Reclaims r := by
  intro h
  have hmem : trialId ∈ scanned [trialId] := by decide
  refine hkept ((h.reclaims (fun _ => {}) [trialId] 1000000
    (fun _ => ⟨undisturbed_default, rfl⟩) ?_).1 trialId hmem)
  intro name hname d m hd hm
  have heq : name = trialId := by
    have hscanned : scanned [trialId] = [trialId] := by decide
    rw [hscanned] at hname
    exact mem_singleton.mp hname
  rw [heq] at hd
  rw [hd, bind_some, hm] at hrecord
  cases hrecord

/-- A begin that is cut off too early, and an append at a clock that has been set back, leave
    directories that no cleanup removes. -/
theorem unreadable_upload_stays :
    (∃ s ∈ (trialBegin.prog blankDigest fun _ => none).stops, ¬ Reclaims s) ∧
      ¬ Reclaims (earlyAppend.after blankDigest trialRoot) := by
  constructor
  · have hstop : 1 < (trialBegin.prog blankDigest fun _ => none).stops.length := by decide +kernel
    refine ⟨cutRoot, ?_, not_reclaims_of_kept (by decide +kernel) (by decide +kernel)⟩
    unfold cutRoot
    rw [getD_eq_getElem?_getD, getElem?_eq_getElem hstop, getD_some]
    exact getElem_mem hstop
  · exact not_reclaims_of_kept (by decide +kernel) (by decide +kernel)

end DreamingOS.Upload
