import DreamingOS.Upload.Removal

namespace DreamingOS.Upload

/-!
# Upload staging — new uploads

* `Request.check_ok` — what the checks of a request have found;
* `pickId_fresh` — a name that has been made was free;
* `beginNew_meets` — a new upload is empty and has its record, or there is none.
-/

open Interrupt Prog List
open Function (update update_self)

variable {fl : Faults} {r : Root} {now : ℤ} {q : Request} {rnds : List (Option Random)}

/-! ### Requests and names -/

/-- The record of a new upload. -/
def Request.newMeta (q : Request) (id : List Char) (now : ℤ)
    (checked : Origin × UploadType × ℕ × ℕ) : Meta where
  uploadId := id
  ownerId := q.owner
  origin := checked.1
  uploadType := checked.2.1
  filename := q.filename
  status := .open
  size := 0
  expected := q.expected
  max := checked.2.2.1
  created := now
  updated := now
  expires := now + checked.2.2.2
  sha256 := []
  error := []

theorem require_ok {p : Prop} [Decidable p] {e : String} (h : require p e = .ok ()) : p := by
  unfold require at h
  split at h
  · next hp => exact hp
  · cases h

theorem bind_ok {α β : Type} {x : Except String α} {f : α → Except String β} {b : β}
    (h : (x >>= f) = .ok b) : ∃ a, x = .ok a ∧ f a = .ok b := by
  cases x with
  | error e => cases h
  | ok a => exact ⟨a, rfl, h⟩

theorem defaultMax_pos (t : UploadType) : 0 < t.defaultMax := by
  cases t <;> decide

variable {checked : Origin × UploadType × ℕ × ℕ}

/-- The checks of a request. -/
theorem Request.check_ok (h : q.check = .ok checked) :
    (ownerIdOk q.owner = true ∧ filenameOk q.filename = true) ∧
      (checked.2.2.1 ≠ 0 ∧ checked.2.2.1 ≤ checked.2.1.defaultMax ∧ q.expected ≤ checked.2.2.1) ∧
      checked.2.2.2 ≤ TTL_MAX_SECONDS := by
  unfold Request.check at h
  obtain ⟨_, howner, h⟩ := bind_ok h
  obtain ⟨origin, -, h⟩ := bind_ok h
  obtain ⟨type, -, h⟩ := bind_ok h
  obtain ⟨_, hname, h⟩ := bind_ok h
  obtain ⟨_, hmax, h⟩ := bind_ok h
  obtain ⟨_, httl, h⟩ := bind_ok h
  obtain rfl := Except.ok.inj h
  have hmax := require_ok hmax
  refine ⟨⟨require_ok howner, require_ok hname⟩, ⟨?_, hmax.1, hmax.2⟩, require_ok httl⟩
  have hpos := defaultMax_pos type
  dsimp only
  split <;> omega

variable {id : List Char}

/-- The record of a new upload can be read back. -/
theorem Request.readable (h : q.check = .ok checked) (hid : uploadIdOk id = true) (hnow : 0 ≤ now)
    (hlt : now + TTL_MAX_SECONDS < 2 ^ 63) : (q.newMeta id now checked).Readable := by
  obtain ⟨⟨howner, hname⟩, ⟨hpos, hmax, hexpected⟩, httl⟩ := Request.check_ok h
  have httl' : (checked.2.2.2 : ℤ) ≤ TTL_MAX_SECONDS := by exact_mod_cast httl
  refine ⟨?_, hnow, ?_, ?_, ⟨not_mem_nil, Nat.zero_le _⟩⟩
  · unfold Meta.consistent Request.newMeta
    simp only [Bool.and_eq_true, decide_eq_true_eq, Bool.or_eq_true]
    refine ⟨⟨⟨⟨⟨hid, howner⟩, hname⟩, ⟨⟨⟨hpos, hmax⟩, hexpected⟩, Nat.zero_le _⟩,
      Or.inr (Nat.zero_le _)⟩, ⟨Int.le_refl _, ?_⟩, ?_⟩, .inl trivial⟩ <;> omega
  · show now < 2 ^ 63
    have hmaxttl : (0 : ℤ) ≤ TTL_MAX_SECONDS := Int.natCast_nonneg _
    omega
  · show now + checked.2.2.2 < 2 ^ 63
    omega

theorem isXDigit_digitChar {n : ℕ} (h : n < 16) : isXDigit (Nat.digitChar n) = true := by
  revert n
  decide

theorem uploadIdOk_genUploadId (rnd : Random) : uploadIdOk (genUploadId rnd) = true := by
  obtain ⟨bs, hbs⟩ := rnd
  have hlength : ∀ cs : Bytes, (cs.flatMap hex2).length = 2 * cs.length := by
    intro cs
    induction cs with
    | nil => rfl
    | cons b cs ih =>
      rw [flatMap_cons, length_append, ih, length_cons]
      show 2 + 2 * cs.length = _
      omega
  have hdrop : ("upl-".toList ++ bs.flatMap hex2).drop 4 = bs.flatMap hex2 := drop_left' rfl
  have htake : ("upl-".toList ++ bs.flatMap hex2).take 4 = "upl-".toList := take_left' rfl
  have hdigits : (bs.flatMap hex2).all isXDigit = true := by
    rw [List.all_eq_true]
    intro c hc
    obtain ⟨b, -, hb⟩ := mem_flatMap.mp hc
    have hlt := b.toNat_lt
    unfold hex2 at hb
    simp only [mem_cons, not_mem_nil, or_false] at hb
    obtain rfl | rfl := hb
    · exact isXDigit_digitChar (by omega)
    · exact isXDigit_digitChar (by omega)
  unfold genUploadId uploadIdOk ID_LEN
  rw [hdrop, htake, hdigits, length_append, hlength, hbs]
  rfl

/-- A name that has been made was free, and is one of an upload. -/
theorem pickId_fresh {last : List Char} (h : (pickId fl r last rnds).2 = none) :
    r (pickId fl r last rnds).1 = none ∧ uploadIdOk (pickId fl r last rnds).1 = true := by
  induction rnds generalizing last with
  | nil => cases h
  | cons rnd rnds ih =>
    cases rnd with
    | none => cases h
    | some rnd =>
      unfold pickId at h ⊢
      split
      · next htaken =>
        rw [if_pos htaken] at h
        exact ih h
      · next hfree => exact ⟨by simpa using hfree, uploadIdOk_genUploadId rnd⟩

/-! ### The new directory -/

/-- A new directory gets its record, or has none. -/
theorem beginDir_meets {m : Meta} :
    Meets (fun d => d.info = none) (fun _ d => d.data = some [] ∧ d.info = some (metaText m))
      (fun d => d.info = none) (beginDir fl m {}) := by
  unfold beginDir lockDir
  simp only [meets_bind, meets_check, meets_call, meets_get]
  refine ⟨fun _ => ⟨trivial, fun _ => ⟨trivial, ?_⟩, fun _ => trivial⟩, fun _ => trivial⟩
  exact (metaWrite_meets fl m _).mono (fun _ hd => hd.2) (fun _ _ hd => hd)
    fun _ hd => hd.1.2

/-- A failed begin removes its directory, if the calls for it work. -/
theorem beginFail_meets {d : Dir} (hid : uploadIdOk id = true)
    (hfree : r id = none) (hinfo : d.info = none) :
    Meets (fun _ => True)
      (fun _ r' => r' = r ∨ (∃ e, fl.unlinks e = false) ∧
        ∃ d, d.info = none ∧ r' = update r id (some d))
      (fun _ => False) (beginFail fl id (update r id (some d))) := by
  have hinfo' : ∀ e (d : Dir), d.info = none → (d.unlink fl e).info = none := by
    intro e d hd
    cases e <;> unfold Dir.unlink <;> dsimp only <;> try split
    all_goals first | rfl | exact hd | exact (near_unlinkTmp fl d).2.trans hd
  unfold beginFail
  rw [if_pos hid, meets_bind]
  apply meets_attempt
  rw [meets_within, update_self]
  refine ⟨nofun, fun d₀ hd₀ => ?_⟩
  obtain rfl := Option.some.inj hd₀
  simp only [meets_bind, meets_call, Function.update_idem, true_and]
  -- what is left of the four files
  generalize hd' : (((d.unlink fl .data).unlink fl .info).unlink fl .tmp).unlink fl .lock = d'
  have hnone : d'.info = none := by
    rw [← hd']
    exact hinfo' _ _ (hinfo' _ _ (hinfo' _ _ (hinfo' _ _ hinfo)))
  by_cases hall : ∀ e, fl.unlinks e = true
  · left
    have hempty : d' = {} := by
      rw [← hd']
      simp [Dir.unlink, Dir.unlinkTmp, hall]
    unfold removeDir
    rw [update_self]
    dsimp only
    rw [if_pos ⟨hall .dir, by rw [hempty]; rfl⟩, Function.update_idem, ← hfree]
    exact Function.update_eq_self id r
  · simp only [not_forall, Bool.not_eq_true] at hall
    unfold removeDir
    rw [update_self]
    dsimp only
    split
    · left
      rw [Function.update_idem, ← hfree]
      exact Function.update_eq_self id r
    · exact .inr ⟨hall, d', hnone, rfl⟩

/-- The last name that was tried is not the one of an upload, unless a directory has been made. -/
def FreshIds (fl : Faults) (r : Root) (rnds : List (Option Random)) : Prop :=
  (pickId fl r [] (rnds.take 8)).2 ≠ none →
    uploadIdOk (pickId fl r [] (rnds.take 8)).1 = true → r (pickId fl r [] (rnds.take 8)).1 = none

/-- **A new upload** is empty and has its record; a failed one is gone, if the calls for it work. -/
theorem beginNew_meets (hids : FreshIds fl r rnds) : Meets (fun _ => True)
      (fun m r' => ∃ checked d, q.check = .ok checked ∧ m = q.newMeta m.uploadId now checked ∧
        m.uploadId = (pickId fl r [] (rnds.take 8)).1 ∧ uploadIdOk m.uploadId = true ∧
        r m.uploadId = none ∧ r' = update r m.uploadId (some d) ∧ d.data = some [] ∧
        d.info = some (metaText m))
      (fun r' => r' = r ∨ (∃ e, fl.unlinks e = false) ∧
        ∃ id d, uploadIdOk id = true ∧ r id = none ∧ d.info = none ∧
          r' = update r id (some d))
      (beginNew fl now rnds q r) := by
  unfold beginNew
  cases hcheck : q.check with
  | error e => exact meets_fail.mpr (.inl rfl)
  | ok checked =>
    obtain ⟨origin, type, max, ttl⟩ := checked
    dsimp only
    rw [meets_bind, meets_check]
    refine ⟨fun _ => ?_, fun _ => .inl rfl⟩
    rw [meets_bind, meets_check]
    refine ⟨fun _ => ?_, fun _ => .inl rfl⟩
    rw [meets_bind, meets_get]
    unfold FreshIds at hids
    generalize hpicked : pickId fl r [] (rnds.take 8) = picked at hids
    obtain ⟨id, error⟩ := picked
    dsimp only at hids ⊢
    cases error with
    | some e =>
      dsimp only
      rw [meets_bind]
      unfold beginFail
      rw [meets_ite]
      refine ⟨fun hid => ?_, fun _ => ?_⟩
      · have hfree := hids nofun hid
        rw [meets_bind]
        apply meets_attempt
        rw [meets_within]
        refine ⟨fun _ e => ?_, fun d hd => ?_⟩
        · rw [meets_call, meets_fail]
          refine ⟨trivial, .inl ?_⟩
          unfold removeDir
          rw [hfree]
        · rw [hfree] at hd
          cases hd
      · rw [meets_pure, meets_fail]
        exact .inl rfl
    | none =>
      have hfresh := @pickId_fresh fl r (rnds.take 8) [] (by rw [hpicked])
      rw [hpicked] at hfresh
      obtain ⟨hfree, hid⟩ := hfresh
      dsimp only
      rw [meets_bind, meets_call]
      refine ⟨trivial, ?_⟩
      rw [meets_bind]
      apply meets_attempt
      rw [meets_within, update_self]
      refine ⟨nofun, fun d hd => ?_⟩
      obtain rfl := Option.some.inj hd
      simp only [Function.update_idem]
      refine beginDir_meets.mono (fun _ _ => trivial) ?_ ?_
      · rintro _ d ⟨hdata, hinfo⟩
        rw [meets_pure]
        exact ⟨_, d, rfl, rfl, rfl, hid, hfree, rfl, hdata, hinfo⟩
      · intro d hinfo e
        rw [meets_bind]
        refine (beginFail_meets hid hfree hinfo).mono (fun _ h => h) ?_ fun _ h => h.elim
        rintro _ r' (rfl | ⟨hfault, d', hd', rfl⟩)
        · exact meets_fail.mpr (.inl rfl)
        · exact meets_fail.mpr (.inr ⟨hfault, id, d', hid, hfree, hd', rfl⟩)

end DreamingOS.Upload
