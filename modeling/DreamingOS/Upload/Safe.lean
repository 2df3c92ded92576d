import DreamingOS.Upload.Run

namespace DreamingOS.Upload

/-!
# Upload staging — data and metadata stay in step

What holds of the uploads between the operations of a run, and what an operation may do to them.

* `Sound` — the surroundings in which an operation keeps data and metadata in step;
* `Promise`, `uploads_run` — what this means, at every state of a run.
-/

open Interrupt Prog Option

variable {sha : Digest} {r : Root} {acc : List Char → Bytes} {a : Action} {fl : Faults} {t : Clock}
  {owner : Bytes} {id digest : List Char} {offset : ℕ} {chunk : Bytes} {d : Dir} {m : Meta}

/-! ### New names -/

theorem pickId_fewer {r' : Root} {rnds : List (Option Random)} {last : List Char}
    (h : ∀ id, uploadIdOk id = true → r id = none → r' id = none) :
    (pickId fl r' last rnds).2 ≠ none →
      r' (pickId fl r' last rnds).1 = none ∨ pickId fl r' last rnds = pickId fl r last rnds := by
  induction rnds generalizing last with
  | nil => exact fun _ => .inr rfl
  | cons rnd rnds ih =>
    cases rnd with
    | none => exact fun _ => .inr rfl
    | some rnd =>
      unfold pickId
      by_cases hfree : r' (genUploadId rnd) = none
      · rw [if_neg (not_not.mpr hfree)]
        exact fun _ => .inl hfree
      have htaken : r (genUploadId rnd) ≠ none :=
        fun hno => hfree (h _ (uploadIdOk_genUploadId rnd) hno)
      rw [if_pos hfree, if_pos htaken]
      exact ih

/-- A cleanup makes no names. -/
theorem cleanup_fewer (faults : List Char → Faults) (root : Bool) (names : List (List Char))
    (now : ℤ) (r : Root) :
    ∀ id, uploadIdOk id = true → r id = none → (cleanup faults root names now r).state id = none := by
  have hclosed : Closed fun r' => ∀ id d, uploadIdOk id = true → r' id = some d → r id ≠ none :=
    closed_of_live fun _ _ _ h _ => h
  have hstart : ∀ id d, uploadIdOk id = true → r id = some d → r id ≠ none := by
    intro id d _ hd
    rw [hd]
    nofun
  have hend := (hclosed.run_cleanup faults root names now hstart).state
  intro id hid hfree
  by_contra hno
  obtain ⟨d, hd⟩ := ne_none_iff_exists'.mp hno
  exact hend id d hid hd hfree

theorem FreshIds.after_cleanup {rnds : List (Option Random)} (h : FreshIds fl r rnds)
    (faults : List Char → Faults) (root : Bool) (names : List (List Char)) (now : ℤ) :
    FreshIds fl (cleanup faults root names now r).state rnds := by
  have hfewer := cleanup_fewer faults root names now r
  intro hfailed hid
  obtain hfree | hsame := pickId_fewer hfewer hfailed
  · exact hfree
  · rw [hsame] at hfailed hid ⊢
    exact hfewer _ hid (h hfailed hid)

/-! ### One step -/

/-- The clock is not behind the creation of an upload, a new name is free when a begin gives up, and
    an append that comes to its writes writes nothing, or everything with its record. -/
def Sound (r : Root) : Action → Prop
  | .begin _ _ fl now rnds _ =>
    (0 ≤ now ∧ now + TTL_MAX_SECONDS < 2 ^ 63) ∧ FreshIds fl r rnds
  | .append fl t owner id offset chunk =>
    (∀ d m, r id = some d → d.record = some m → m.ownerId = owner → m.status = .open →
      m.created ≤ t.second ∧ t.second < 2 ^ 63) ∧
      ∀ d m bs, r id = some d → AppendReady fl t owner offset chunk d m bs →
        accepted fl.writes chunk.length = 0 ∨
          (accepted fl.writes chunk.length = chunk.length ∧ fl.sync = true ∧
            MetaWorks fl (m.grow chunk.length t.second) d)
  | .finalize _ t owner id _ =>
    ∀ d m, r id = some d → d.record = some m → m.ownerId = owner → m.status = .open →
      m.created ≤ t.first ∧ t.first < 2 ^ 63
  | _ => True

/-- A record that is written later is as readable. -/
theorem Meta.Readable.later (h : m.Readable) {m' : Meta} {now : ℤ} (hnow : m.created ≤ now)
    (hlt : now < 2 ^ 63) (hfields : m' = { m with
      size := m'.size, status := m'.status, updated := now, sha256 := m'.sha256, error := m'.error })
    (hsize : m'.size ≤ m.max ∧ (m.expected = 0 ∨ m'.size ≤ m.expected))
    (hsha : m'.sha256 = [] ∨ sha256HexOk m'.sha256 = true)
    (herror : '\n' ∉ m'.error ∧ m'.error.length ≤ 95) : m'.Readable := by
  obtain ⟨⟨hid, howner, hname⟩, ⟨hpos, hmax, hexpected, -, -⟩, ⟨-, hexpires, httl⟩, -⟩ := h.checks
  refine ⟨?_, ?_, ?_, ?_, herror⟩
  · unfold Meta.consistent
    simp only [Bool.and_eq_true, decide_eq_true_eq, Bool.or_eq_true]
    rw [hfields]
    exact ⟨⟨⟨⟨⟨hid, howner⟩, hname⟩, ⟨⟨⟨hpos, hmax⟩, hexpected⟩, hsize.1⟩, hsize.2⟩,
      ⟨hnow, hexpires⟩, httl⟩, hsha⟩
  · rw [hfields]
    exact h.created
  · rw [hfields]
    exact hlt
  · rw [hfields]
    exact h.expires

theorem expired_fits : '\n' ∉ "expired".toList ∧ "expired".toList.length ≤ 95 := by decide

theorem mismatch_fits : '\n' ∉ "sha256_mismatch".toList ∧ "sha256_mismatch".toList.length ≤ 95 := by
  decide

theorem fits_size {n : ℕ} (h : m.fits m.size n = true) :
    m.size + n ≤ m.max ∧ (m.expected = 0 ∨ m.size + n ≤ m.expected) := by
  unfold Meta.fits at h
  simp only [Bool.and_eq_true, decide_eq_true_eq, Bool.or_eq_true] at h
  exact ⟨by omega, h.2⟩

/-- An append keeps its upload in step. -/
theorem InStep.append {bs : Bytes} (hd : InStep sha bs d)
    (hclock : ∀ m, d.record = some m → m.ownerId = owner → m.status = .open →
      m.created ≤ t.second ∧ t.second < 2 ^ 63)
    (hfaults : ∀ m bs, AppendReady fl t owner offset chunk d m bs →
      accepted fl.writes chunk.length = 0 ∨
        (accepted fl.writes chunk.length = chunk.length ∧ fl.sync = true ∧
          MetaWorks fl (m.grow chunk.length t.second) d)) :
    Meets (fun _ => True) (fun _ d' => InStep sha (bs ++ chunk) d') (InStep sha bs)
      (appendDir fl t owner offset chunk d) := by
  refine (appendDir_meets fl t owner offset chunk d).mono (fun _ _ => trivial) ?_ ?_
  · rintro m' d' ⟨m, bs', hready, rfl, hdata, hinfo⟩
    obtain ⟨hreadable, -, hbs, hsize, -⟩ := hd.record hready.record
    obtain rfl := some.inj (hready.data.symm.trans hbs)
    obtain ⟨hcreated, hlt⟩ := hclock m hready.record hready.owner hready.status
    have hfits := hready.fits
    rw [← hready.place.2] at hfits
    obtain ⟨-, -, -, hsha⟩ := hreadable.checks
    refine inStep_of_info hinfo (hreadable.later hcreated hlt rfl (fits_size hfits) hsha
      hreadable.error) hdata ?_ ?_
    · show m.size + chunk.length = _
      rw [hsize, List.length_append]
    · intro hfinal
      rw [show (m.grow chunk.length t.second).status = .open from hready.status] at hfinal
      cases hfinal
  · intro d' hfailed
    cases hfailed with
    | refused _ hnear _ => exact hnear.inStep hd
    | expired m _ hrecord howner hstatus htime hdata hinfo =>
      obtain ⟨hreadable, -, hbs, hsize, -⟩ := hd.record hrecord
      obtain ⟨hcreated, hlt⟩ := hclock m hrecord howner hstatus
      obtain ⟨-, ⟨-, -, -, hle, hle'⟩, -, hsha⟩ := hreadable.checks
      refine inStep_of_info hinfo (hreadable.later hcreated hlt rfl ⟨hle, hle'⟩ hsha ?_)
        (hdata.trans hbs) hsize nofun
      exact expired_fits
    | partial_ m bs' w _ hready hw hlen hdata hinfo hfault =>
      obtain ⟨-, -, hbs, -⟩ := hd.record hready.record
      obtain rfl := some.inj (hready.data.symm.trans hbs)
      -- nothing has been written, for otherwise everything would have been
      have hnone : w = [] := by
        obtain hzero | ⟨hall, hsync, hworks⟩ := hfaults m bs' hready
        · exact List.eq_nil_of_length_eq_zero (hlen.trans hzero)
        · obtain hno | hno | hno := hfault
          · exact absurd hall hno
          · rw [hsync] at hno
            cases hno
          · exact absurd hworks hno
      rw [hnone, List.append_nil] at hdata
      have hnear : Near d d' := ⟨hdata.trans hready.data.symm, hinfo⟩
      exact hnear.inStep hd

/-- Finalizing keeps its upload in step, and records the digest of its bytes. -/
theorem InStep.finalize {bs : Bytes} (hd : InStep sha bs d)
    (hclock : ∀ m, d.record = some m → m.ownerId = owner → m.status = .open →
      m.created ≤ t.first ∧ t.first < 2 ^ 63) :
    Meets (fun _ => True) (fun _ => InStep sha bs) (InStep sha bs)
      (finalizeDir sha fl t owner digest d) := by
  refine (finalizeDir_meets sha fl t owner digest d).mono (fun _ _ => trivial) ?_ ?_
  · rintro m' d' ⟨m, bs', hrecord, howner, hstatus, hdata, hlen, rfl, hdata', hinfo⟩
    obtain ⟨hreadable, -, hbs, hsize, -⟩ := hd.record hrecord
    obtain rfl := some.inj (hdata.symm.trans hbs)
    obtain ⟨hcreated, hlt⟩ := hclock m hrecord howner hstatus
    obtain ⟨-, ⟨-, -, -, hle, hle'⟩, -, -⟩ := hreadable.checks
    exact inStep_of_info hinfo (hreadable.later hcreated hlt rfl ⟨hle, hle'⟩ (.inr (sha.ok bs'))
      hreadable.error) (hdata'.trans hbs) hsize fun _ => rfl
  · rintro d' (hnear | ⟨m, hrecord, howner, hstatus, hdata, hinfo⟩)
    · exact hnear.inStep hd
    · obtain ⟨hreadable, -, hbs, hsize, -⟩ := hd.record hrecord
      obtain ⟨hcreated, hlt⟩ := hclock m hrecord howner hstatus
      obtain ⟨-, ⟨-, -, -, hle, hle'⟩, -, hsha⟩ := hreadable.checks
      exact inStep_of_info hinfo (hreadable.later hcreated hlt rfl ⟨hle, hle'⟩ hsha mismatch_fits)
        (hdata.trans hbs) hsize nofun

theorem openDir_meets : Meets (Near d) (fun _ => Near d) (Near d) (openDir sha fl owner d) := by
  unfold openDir lockDir
  simp only [meets_bind, meets_check, meets_call, ownRecord_meets, meets_get]
  have hnear := near_lock d true
  refine ⟨fun _ => ⟨Near.refl d, fun m _ _ => ⟨fun _ => ?_, fun _ => hnear⟩, fun _ => hnear⟩,
    fun _ => Near.refl d⟩
  generalize d.data = data at hnear ⊢
  cases data with
  | none => exact meets_fail.mpr hnear
  | some bs =>
    simp only [meets_bind, meets_check, meets_pure]
    exact ⟨fun _ => ⟨fun _ => hnear, fun _ => hnear⟩, fun _ => hnear⟩

/-- The checks in front of an operation on an upload. -/
theorem openUpload_meets {C E : Root → Prop} {Q : Unit → Root → Prop} :
    Meets C Q E (openUpload fl owner id r) ↔
      (ownerIdOk owner = true → fl.root = true → uploadIdOk id = true → Q () r) ∧
        (¬ (ownerIdOk owner = true ∧ fl.root = true ∧ uploadIdOk id = true) → E r) := by
  unfold openUpload
  simp only [meets_bind, meets_check]
  by_cases howner : ownerIdOk owner = true <;> by_cases hroot : fl.root = true <;>
    by_cases hid : uploadIdOk id = true <;> simp [howner, hroot, hid]

/-- **An operation keeps data and metadata in step** with the bytes of the appends. -/
theorem AllInStep.step (h : AllInStep sha acc r) (hsound : Sound r a) :
    AllInStep sha (a.note r acc) (a.after sha r) := by
  cases a with
  | begin faults names fl now rnds q =>
    obtain ⟨⟨hnow, hlt⟩, hids⟩ := hsound
    have hspec : Meets (fun _ => True)
        (fun m r' => AllInStep sha (Function.update acc m.uploadId []) r') (AllInStep sha acc)
        (Upload.begin faults names fl now rnds q r) := by
      unfold Upload.begin
      rw [meets_bind]
      apply meets_attempt
      have hclean := (closed_allInStep sha acc).run_cleanup faults fl.root names now h
      have hnext : ∀ r₁, AllInStep sha acc r₁ → FreshIds fl r₁ rnds →
          Meets (fun _ => True) (fun m r' => AllInStep sha (Function.update acc m.uploadId []) r')
            (AllInStep sha acc) (beginNew fl now rnds q r₁) := by
        intro r₁ h₁ hids₁
        refine (beginNew_meets hids₁).mono (fun _ h => h) ?_ ?_
        · rintro m r' ⟨checked, d, hcheck, hm, -, hid, -, rfl, hdata, hinfo⟩
          have hreadable := Request.readable hcheck hid hnow hlt
          rw [← hm] at hreadable
          refine h₁.update_acc (inStep_of_info hinfo hreadable hdata ?_ ?_)
          · rw [hm]
            rfl
          · rw [hm]
            nofun
        · rintro r' (rfl | ⟨-, id, d, hid, -, hinfo, rfl⟩)
          · exact h₁
          · exact h₁.update (inStep_of_none hinfo)
      have hids := hids.after_cleanup faults fl.root names now
      obtain ⟨_, hvalue, hend⟩ | ⟨e, hvalue, hend⟩ := hclean.ends
      · refine ⟨fun _ _ => trivial, ?_⟩
        rw [hvalue]
        exact hnext _ hend hids
      · refine ⟨fun _ _ => trivial, ?_⟩
        rw [hvalue]
        exact fun _ => hnext _ hend hids
    unfold Action.note Action.after Action.prog Prog.void
    dsimp only
    obtain ⟨m, hvalue, hend⟩ | ⟨e, hvalue, hend⟩ := hspec.ends
    · rw [hvalue]
      exact hend
    · rw [hvalue]
      exact hend
  | append fl t owner id offset chunk =>
    obtain ⟨hclock, hfaults⟩ := hsound
    have hspec : Meets (fun _ => True)
        (fun _ r' => AllInStep sha (Function.update acc id (acc id ++ chunk)) r')
        (AllInStep sha acc) (Upload.append fl t owner id offset chunk r) := by
      unfold Upload.append
      rw [meets_bind, openUpload_meets]
      refine ⟨fun _ _ hid => ?_, fun _ => h⟩
      rw [meets_within]
      refine ⟨fun _ => h, fun d hd => ?_⟩
      refine ((h id d hid hd).append (hclock d · hd) (hfaults d · · hd)).mono (fun _ h => h) ?_ ?_
      · exact fun _ d' hd' => h.update_acc hd'
      · exact fun d' hd' => h.update hd'
    unfold Action.note Action.after Action.prog Prog.void
    dsimp only
    obtain ⟨m, hvalue, hend⟩ | ⟨e, hvalue, hend⟩ := hspec.ends
    · rw [hvalue]
      exact hend
    · rw [hvalue]
      exact hend
  | finalize fl t owner id digest =>
    have hspec : Meets (fun _ => True) (fun _ => AllInStep sha acc) (AllInStep sha acc)
        (Upload.finalize sha fl t owner id digest r) := by
      unfold Upload.finalize
      simp only [meets_bind, meets_check, openUpload_meets, meets_within]
      refine ⟨fun _ => ⟨fun _ => ⟨fun _ _ hid => ⟨fun _ => h, fun d hd => ?_⟩, fun _ => h⟩,
        fun _ => h⟩, fun _ => h⟩
      exact ((h id d hid hd).finalize (hsound d · hd)).mono (fun _ h => h)
        (fun _ d' hd' => h.update hd') fun d' hd' => h.update hd'
    exact hspec.state
  | openFinal fl owner id =>
    have hspec : Meets (fun _ => True) (fun _ => AllInStep sha acc) (AllInStep sha acc)
        (Upload.openFinal sha fl owner id r) := by
      unfold Upload.openFinal
      simp only [meets_bind, openUpload_meets, meets_within]
      refine ⟨fun _ _ hid => ⟨fun _ => h, fun d hd => ?_⟩, fun _ => h⟩
      exact openDir_meets.mono (fun _ _ => trivial)
        (fun _ d' hnear => h.update (hnear.inStep (h id d hid hd)))
        fun d' hnear => h.update (hnear.inStep (h id d hid hd))
    exact hspec.state
  | delete fl owner id => exact ((closed_allInStep sha acc).deleteInternal h).state
  | deletePrivileged fl id => exact ((closed_allInStep sha acc).deleteInternal h).state
  | cleanup faults root names now => exact ((closed_allInStep sha acc).run_cleanup faults root names now h).state

/-! ### What an operation may do to an upload -/

/-- An operation that is refused leaves the files of the upload. -/
def Refuses {α : Type} (x : Prog Root α) (r : Root) (id : List Char) (d : Dir) : Prop :=
  (∃ e, (x r).value = .error e) ∧ ∃ d', Near d d' ∧ (x r).state = Function.update r id (some d')

theorem refuses_of_meets {α : Type} {x : Prog Root α}
    (h : Meets (fun _ => True) (fun _ _ => False)
      (fun r' => ∃ d', Near d d' ∧ r' = Function.update r id (some d')) (x r)) :
    Refuses x r id d := by
  obtain ⟨_, -, hno⟩ | ⟨e, hvalue, hend⟩ := h.ends
  · exact hno.elim
  · exact ⟨⟨e, hvalue⟩, hend⟩

section
variable (hd : r id = some d) (hm : d.record = some m) (howner : m.ownerId ≠ owner)
include hd

theorem unchanged : ∃ d', Near d d' ∧ r = Function.update r id (some d') :=
  ⟨d, Near.refl d, by rw [← hd]; exact (Function.update_eq_self id r).symm⟩

include hm howner

theorem refuses_append : Refuses (append fl t owner id offset chunk) r id d := by
  apply refuses_of_meets
  unfold Upload.append
  rw [meets_bind, openUpload_meets]
  refine ⟨fun _ _ _ => ?_, fun _ => unchanged hd⟩
  rw [meets_within]
  refine ⟨fun _ => unchanged hd, fun d₁ hd₁ => ?_⟩
  obtain rfl := some.inj (hd.symm.trans hd₁)
  have hstranger : ∀ m' bs, AppendReady fl t owner offset chunk d m' bs → False := by
    intro m' bs hready
    obtain rfl := some.inj (hm.symm.trans hready.record)
    exact howner hready.owner
  refine (appendDir_meets fl t owner offset chunk d).mono (fun _ _ => trivial) ?_ ?_
  · rintro _ _ ⟨m', bs, hready, -⟩
    exact hstranger m' bs hready
  · intro d' hfailed
    cases hfailed with
    | refused _ hnear _ => exact ⟨d', hnear, rfl⟩
    | expired m' _ hrecord ho _ _ _ _ =>
      obtain rfl := some.inj (hm.symm.trans hrecord)
      exact absurd ho howner
    | partial_ m' bs _ _ hready _ _ _ _ _ => exact (hstranger m' bs hready).elim

theorem refuses_finalize : Refuses (finalize sha fl t owner id digest) r id d := by
  apply refuses_of_meets
  unfold Upload.finalize
  simp only [meets_bind, meets_check, openUpload_meets, meets_within]
  have hsame := unchanged hd
  refine ⟨fun _ => ⟨fun _ => ⟨fun _ _ _ => ⟨fun _ => hsame, fun d₁ hd₁ => ?_⟩, fun _ => hsame⟩,
    fun _ => hsame⟩, fun _ => hsame⟩
  obtain rfl := some.inj (hd.symm.trans hd₁)
  refine (finalizeDir_meets sha fl t owner digest d).mono (fun _ _ => trivial) ?_ ?_
  · rintro _ _ ⟨m', _, hrecord, ho, -⟩
    obtain rfl := some.inj (hm.symm.trans hrecord)
    exact howner ho
  · rintro d' (hnear | ⟨m', hrecord, ho, -⟩)
    · exact ⟨d', hnear, rfl⟩
    · obtain rfl := some.inj (hm.symm.trans hrecord)
      exact absurd ho howner

theorem refuses_openFinal : Refuses (openFinal sha fl owner id) r id d := by
  apply refuses_of_meets
  unfold Upload.openFinal openDir lockDir
  simp only [meets_bind, meets_check, meets_call, ownRecord_meets, openUpload_meets, meets_within]
  have hsame := unchanged hd
  refine ⟨fun _ _ _ => ⟨fun _ => hsame, fun d₁ hd₁ => ?_⟩, fun _ => hsame⟩
  obtain rfl := some.inj (hd.symm.trans hd₁)
  refine ⟨fun _ => ⟨trivial, fun m' hrecord ho => ?_, fun _ => ⟨_, near_lock d true, rfl⟩⟩,
    fun _ => ⟨d, Near.refl d, rfl⟩⟩
  obtain rfl := some.inj (hm.symm.trans hrecord)
  exact absurd ho howner

theorem refuses_getMeta : Refuses (getMeta fl owner id) r id d := by
  apply refuses_of_meets
  unfold getMeta
  simp only [meets_bind, meets_check, metaRead_meets, meets_within, meets_pure]
  have hsame := unchanged hd
  refine ⟨fun _ => ⟨fun _ => ⟨fun _ => hsame, fun d₁ hd₁ => ?_⟩, fun _ => hsame⟩, fun _ => hsame⟩
  obtain rfl := some.inj (hd.symm.trans hd₁)
  refine ⟨fun m' hrecord => ⟨fun ho => ?_, fun _ => ⟨d, Near.refl d, rfl⟩⟩,
    fun _ => ⟨d, Near.refl d, rfl⟩⟩
  obtain rfl := some.inj (hm.symm.trans hrecord)
  exact howner ho.2

theorem refuses_delete : Refuses (delete fl owner id) r id d := by
  apply refuses_of_meets
  unfold Upload.delete deleteInternal lockFor lockDir
  have hsome : ¬ r id = none := by
    rw [hd]
    nofun
  have hsame := unchanged hd
  simp only [meets_bind, meets_check, meets_get, if_neg hsome, meets_within, meets_call]
  refine ⟨fun _ => ⟨fun _ => ⟨fun _ => hsame, fun d₁ hd₁ => ?_⟩, fun _ => hsame⟩, fun _ => hsame⟩
  obtain rfl := some.inj (hd.symm.trans hd₁)
  refine ⟨fun _ => ⟨trivial, fun _ => ?_, fun _ => ⟨_, near_lock d true, rfl⟩⟩,
    fun _ => ⟨d, Near.refl d, rfl⟩⟩
  apply meets_attempt
  rw [metaRead_meets]
  refine ⟨fun m' hrecord => ?_, fun hnone => ?_⟩
  · obtain rfl := some.inj (hm.symm.trans hrecord)
    exact meets_check.mpr ⟨fun ho => absurd ho.2 howner, fun _ => ⟨_, near_lock d true, rfl⟩⟩
  · rw [record_lock, hm] at hnone
    cases hnone

end

/-! ### Appending again -/

/-- Nothing goes wrong in an append of a chunk. -/
structure Works (fl : Faults) (chunk : Bytes) (m : Meta) (d : Dir) : Prop where
  root : fl.root = true
  lock : fl.lock = true
  data : fl.data = true
  capacity : fl.capacity = true
  writes : accepted fl.writes chunk.length = chunk.length
  sync : fl.sync = true
  record : MetaWorks fl m d

/-- **An append can be repeated**: it succeeds at the size of its upload, when it fits, the upload has
    not expired and nothing goes wrong. -/
theorem append_succeeds (h : AllInStep sha acc r) (hid : uploadIdOk id = true) (hd : r id = some d)
    (hm : d.record = some m) (hstatus : m.status = .open)
    (htime : ¬ unsigned t.first > unsigned m.expires)
    (hfits : m.fits (acc id).length chunk.length = true)
    (hworks : Works fl chunk (m.grow chunk.length t.second) d) :
    ∃ m', (append fl t m.ownerId id (acc id).length chunk r).value = .ok m' := by
  obtain ⟨hreadable, -, hdata, hsize, -⟩ := (h id d hid hd).record hm
  obtain ⟨⟨-, howner, -⟩, -⟩ := hreadable.checks
  have hready : AppendReady fl t m.ownerId (acc id).length chunk d m (acc id) :=
    ⟨hm, rfl, hstatus, htime, hdata, ⟨rfl, hsize⟩, hfits⟩
  have hspec : Meets (fun _ => True) (fun _ _ => True) (fun _ => False)
      (append fl t m.ownerId id (acc id).length chunk r) := by
    unfold Upload.append
    rw [meets_bind, openUpload_meets]
    refine ⟨fun _ _ _ => ?_, fun hno => hno ⟨howner, hworks.root, hid⟩⟩
    rw [meets_within]
    refine ⟨fun hno => absurd (hno.symm.trans hd) nofun, fun d₁ hd₁ => ?_⟩
    obtain rfl := some.inj (hd.symm.trans hd₁)
    refine (appendDir_meets fl t m.ownerId (acc id).length chunk d).mono (fun _ _ => trivial)
      (fun _ _ _ => trivial) ?_
    intro d' hfailed
    cases hfailed with
    | refused _ _ hno => exact hno hworks.lock hworks.data hworks.capacity m (acc id) hready
    | expired m' _ hrecord _ _ hexpired _ _ =>
      obtain rfl := some.inj (hm.symm.trans hrecord)
      exact htime hexpired
    | partial_ m' bs w _ hready' _ _ _ _ hfault =>
      obtain rfl := some.inj (hm.symm.trans hready'.record)
      obtain hno | hno | hno := hfault
      · exact hno hworks.writes
      · rw [hworks.sync] at hno
        cases hno
      · exact hno hworks.record
  obtain ⟨m', hvalue, -⟩ | ⟨_, _, hno⟩ := hspec.ends
  · exact ⟨m', hvalue⟩
  · exact hno.elim

/-! ### Finalized uploads -/

/-- Where a name has been freed by the cleanup of a begin, so that it can be given again. -/
def Freed (a : Action) (r : Root) (id : List Char) : Prop :=
  ∃ faults names fl now rnds q, a = .begin faults names fl now rnds q ∧
    (cleanup faults fl.root names now r).state id = none

/-- What is left under a name is near an upload. -/
def NearAt (id : List Char) (d : Dir) (r : Root) : Prop :=
  ∀ id' d', uploadIdOk id' = true → r id' = some d' → id' = id → Near d d'

/-- What a removal leaves of an upload is near it. -/
theorem closed_nearAt (id : List Char) (d : Dir) : Closed (NearAt id d) :=
  closed_of_live fun _ _ _ h hnear heq => (h heq).trans hnear

theorem NearAt.update {id₁ : List Char} {d₁ : Dir} (h : NearAt id d r) (hnear : id₁ = id → Near d d₁) :
    NearAt id d (Function.update r id₁ (some d₁)) := by
  intro id' d' hid hd' heq
  by_cases hself : id' = id₁
  · rw [hself, Function.update_self] at hd'
    rw [← some.inj hd']
    exact hnear (hself.symm.trans heq)
  · rw [Function.update_of_ne hself] at hd'
    exact h id' d' hid hd' heq

/-- An operation on the files of one upload is none on another one. -/
theorem NearAt.within {id₁ : List Char} {α : Type} {x : Prog Dir α} {e : String} (h : NearAt id d r)
    (hd : r id = some d) (hx : ∀ d₁, r id₁ = some d₁ → (id₁ = id → d₁ = d) →
      Meets (fun _ => True) (fun _ d₂ => id₁ = id → Near d d₂) (fun d₂ => id₁ = id → Near d d₂)
        (x d₁)) :
    Meets (fun _ => True) (fun _ => NearAt id d) (NearAt id d) (within id₁ e x r) := by
  rw [meets_within]
  refine ⟨fun _ => h, fun d₁ hd₁ => (hx d₁ hd₁ ?_).mono (fun _ _ => trivial)
    (fun _ d₂ hnear => h.update hnear) fun d₂ hnear => h.update hnear⟩
  rintro rfl
  exact some.inj (hd₁.symm.trans hd)

/-- **A finalized upload never changes**: it is there as it was, or it has been removed. -/
theorem finalized_step (hsound : Sound r a) (hid : uploadIdOk id = true) (hd : r id = some d)
    (hm : d.record = some m) (hstatus : m.status = .finalized) {d' : Dir}
    (hd' : a.after sha r id = some d') : Near d d' ∨ Freed a r id := by
  have hstart : NearAt id d r := by
    rintro id' d₁ - hd₁ rfl
    obtain rfl := some.inj (hd.symm.trans hd₁)
    exact Near.refl d
  have hclosed := closed_nearAt id d
  have hnotOpen : ∀ {id₁ d₁ m₁}, (id₁ = id → d₁ = d) → d₁.record = some m₁ → m₁.status = .open →
      id₁ ≠ id := by
    rintro id₁ d₁ m₁ hd₁ hm₁ hopen rfl
    rw [hd₁ rfl] at hm₁
    obtain rfl := some.inj (hm.symm.trans hm₁)
    rw [hstatus] at hopen
    cases hopen
  have hstay : NearAt id d (a.after sha r) → Near d d' ∨ Freed a r id :=
    fun h => .inl (h id d' hid hd' rfl)
  cases a with
  | begin faults names fl now rnds q =>
    have hend := (hclosed.run_cleanup faults fl.root names now hstart).state
    have hids := hsound.2.after_cleanup faults fl.root names now
    by_cases hfreed : (cleanup faults fl.root names now r).state id = none
    · exact .inr ⟨faults, names, fl, now, rnds, q, rfl, hfreed⟩
    have hnext : Meets (fun _ => True) (fun _ => NearAt id d) (NearAt id d)
        (beginNew fl now rnds q (cleanup faults fl.root names now r).state) := by
      -- a name that is given is free, and that of the upload is not
      refine (beginNew_meets hids).mono (fun _ h => h) ?_ ?_
      · rintro m' r' ⟨_, d₁, -, -, -, -, hfree, rfl, -⟩
        exact hend.update fun heq => absurd (heq ▸ hfree) hfreed
      · rintro r' (rfl | ⟨-, id₁, d₁, -, hfree, -, rfl⟩)
        · exact hend
        · exact hend.update fun heq => absurd (heq ▸ hfree) hfreed
    have hspec : Meets (fun _ => True) (fun _ => NearAt id d) (NearAt id d)
        (Upload.begin faults names fl now rnds q r) := by
      unfold Upload.begin
      rw [meets_bind]
      apply meets_attempt
      refine ⟨fun _ _ => trivial, ?_⟩
      split
      · exact hnext
      · exact fun _ => hnext
    exact hstay hspec.state
  | append fl t owner id₁ offset chunk =>
    have hspec : Meets (fun _ => True) (fun _ => NearAt id d) (NearAt id d)
        (Upload.append fl t owner id₁ offset chunk r) := by
      unfold Upload.append
      rw [meets_bind, openUpload_meets]
      refine ⟨fun _ _ _ => hstart.within hd fun d₁ _ hsame => ?_, fun _ => hstart⟩
      refine (appendDir_meets fl t owner offset chunk d₁).mono (fun _ _ => trivial) ?_ ?_
      · rintro _ d₂ ⟨m₁, _, hready, -⟩ heq
        exact absurd heq (hnotOpen hsame hready.record hready.status)
      · intro d₂ hfailed heq
        cases hfailed with
        | refused _ hnear _ => exact hsame heq ▸ hnear
        | expired m₁ _ hrecord _ hopen _ _ _ => exact absurd heq (hnotOpen hsame hrecord hopen)
        | partial_ m₁ _ _ _ hready _ _ _ _ _ =>
          exact absurd heq (hnotOpen hsame hready.record hready.status)
    exact hstay hspec.state
  | finalize fl t owner id₁ digest =>
    have hspec : Meets (fun _ => True) (fun _ => NearAt id d) (NearAt id d)
        (Upload.finalize sha fl t owner id₁ digest r) := by
      unfold Upload.finalize
      simp only [meets_bind, meets_check, openUpload_meets]
      refine ⟨fun _ => ⟨fun _ => ⟨fun _ _ _ => hstart.within hd fun d₁ _ hsame => ?_,
        fun _ => hstart⟩, fun _ => hstart⟩, fun _ => hstart⟩
      refine (finalizeDir_meets sha fl t owner digest d₁).mono (fun _ _ => trivial) ?_ ?_
      · rintro _ d₂ ⟨m₁, _, hrecord, -, hopen, -⟩ heq
        exact absurd heq (hnotOpen hsame hrecord hopen)
      · rintro d₂ (hnear | ⟨m₁, hrecord, -, hopen, -⟩) heq
        · exact hsame heq ▸ hnear
        · exact absurd heq (hnotOpen hsame hrecord hopen)
    exact hstay hspec.state
  | openFinal fl owner id₁ =>
    have hspec : Meets (fun _ => True) (fun _ => NearAt id d) (NearAt id d)
        (Upload.openFinal sha fl owner id₁ r) := by
      unfold Upload.openFinal
      rw [meets_bind, openUpload_meets]
      refine ⟨fun _ _ _ => hstart.within hd fun d₁ _ hsame => ?_, fun _ => hstart⟩
      exact openDir_meets.mono (fun _ _ => trivial) (fun _ _ hnear heq => hsame heq ▸ hnear)
        fun _ hnear heq => hsame heq ▸ hnear
    exact hstay hspec.state
  | delete fl owner id₁ => exact hstay (hclosed.deleteInternal hstart).state
  | deletePrivileged fl id₁ => exact hstay (hclosed.deleteInternal hstart).state
  | cleanup faults root names now =>
    exact hstay (hclosed.run_cleanup faults root names now hstart).state

/-! ### Runs -/

/-- The states of a run, with the bytes of the successful appends, from an empty staging area on. -/
inductive Run (sha : Digest) : Root → (List Char → Bytes) → Prop
  | start : Run sha (fun _ => none) fun _ => []
  | step (r : Root) (acc : List Char → Bytes) (a : Action) (h : Run sha r acc) (hsound : Sound r a) :
      Run sha (a.after sha r) (a.note r acc)

/-- What holds of every upload between two operations. -/
structure Promise (sha : Digest) (r : Root) (acc : List Char → Bytes) : Prop where
  counted : ∀ id d m, uploadIdOk id = true → r id = some d → d.record = some m →
    d.data = some (acc id) ∧ m.size = (acc id).length
  bounded : ∀ id d m, uploadIdOk id = true → r id = some d → d.record = some m →
    m.size ≤ m.max ∧ (m.expected = 0 ∨ m.size ≤ m.expected)
  again : ∀ id d m fl t chunk, uploadIdOk id = true → r id = some d → d.record = some m →
    m.status = .open → ¬ unsigned t.first > unsigned m.expires →
    m.fits (acc id).length chunk.length = true → Works fl chunk (m.grow chunk.length t.second) d →
    ∃ m', (append fl t m.ownerId id (acc id).length chunk r).value = .ok m'
  digest : ∀ id d m, uploadIdOk id = true → r id = some d → d.record = some m →
    m.status = .finalized → m.sha256 = sha.sha256 (acc id)
  sealed_ : ∀ a, Sound r a → ∀ id d m d', uploadIdOk id = true → r id = some d →
    d.record = some m → m.status = .finalized → a.after sha r id = some d' → Near d d' ∨ Freed a r id
  strangers : ∀ id d m owner, r id = some d → d.record = some m → m.ownerId ≠ owner →
    (∀ fl t offset chunk, Refuses (append fl t owner id offset chunk) r id d) ∧
      (∀ fl t digest, Refuses (finalize sha fl t owner id digest) r id d) ∧
      (∀ fl, Refuses (openFinal sha fl owner id) r id d) ∧
      (∀ fl, Refuses (getMeta fl owner id) r id d) ∧ ∀ fl, Refuses (delete fl owner id) r id d

theorem promise_of_inStep (h : AllInStep sha acc r) : Promise sha r acc where
  counted := fun id d _ hid hd hm => by
    obtain ⟨-, -, hdata, hsize, -⟩ := (h id d hid hd).record hm
    exact ⟨hdata, hsize⟩
  bounded := fun id d _ hid hd hm => by
    obtain ⟨-, ⟨-, -, -, hle⟩, -⟩ := ((h id d hid hd).record hm).1.checks
    exact hle
  again := fun _ _ _ _ _ _ hid hd hm hstatus htime hfits hworks =>
    append_succeeds h hid hd hm hstatus htime hfits hworks
  digest := fun id d _ hid hd hm hstatus => ((h id d hid hd).record hm).2.2.2.2 hstatus
  sealed_ := fun _ hsound _ _ _ _ hid hd hm hstatus hd' =>
    finalized_step hsound hid hd hm hstatus hd'
  strangers := fun _ _ _ _ hd hm howner =>
    ⟨fun _ _ _ _ => refuses_append hd hm howner, fun _ _ _ => refuses_finalize hd hm howner,
      fun _ => refuses_openFinal hd hm howner, fun _ => refuses_getMeta hd hm howner,
      fun _ => refuses_delete hd hm howner⟩

/-- A digest for runs in which nothing is finalized. -/
def blankDigest : Digest where
  sha256 := fun _ => List.replicate 64 '0'
  ok := fun _ => by decide

def trialRandom : Random := ⟨List.replicate 16 7, rfl⟩

def trialId : List Char := genUploadId trialRandom

def trialRequest : Request where
  owner := [97]
  origin := "browser".toList
  uploadType := "backup".toList
  filename := [102]
  expected := 0
  max := 0
  ttl := 0

/-- A backup is going to be uploaded. -/
def trialBegin : Action := .begin (fun _ => {}) [] {} 1000 [some trialRandom] trialRequest

/-- Two bytes are appended, and the writes accept as many as given. -/
def trialAppend (writes : List ℕ) : Action := .append { writes } ⟨1000, 1000⟩ [97] trialId 0 [1, 2]

def trialRoot : Root := trialBegin.after blankDigest fun _ => none

def trialBytes : List Char → Bytes := trialBegin.note (fun _ => none) fun _ => []

theorem trial_sound : Sound (fun _ => none) trialBegin := by
  refine ⟨by decide, fun hno => absurd ?_ hno⟩
  decide +kernel

theorem trial_run : Run blankDigest trialRoot trialBytes :=
  Run.step _ _ trialBegin Run.start trial_sound

end DreamingOS.Upload
