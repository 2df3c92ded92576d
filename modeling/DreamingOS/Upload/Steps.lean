import DreamingOS.Upload.MetaText
import DreamingOS.Upload.Store

namespace DreamingOS.Upload

/-!
# Upload staging — what the operations do to a directory

Each operation on the files of an upload is specified once: what it leaves when it succeeds, when it
fails, and wherever it is cut off.

* `metaWrite_meets` — the metadata file is replaced as a whole, or stays;
* `appendDir_meets`, `finalizeDir_meets` — an operation of the owner.
-/

open Interrupt Prog List Option

variable {fl : Faults} {t : Clock} {m : Meta} {d d' s : Dir} {owner : Bytes}

/-! ### Writing -/

theorem accepted_le (ws : List ℕ) (n : ℕ) : accepted ws n ≤ n := by
  induction ws generalizing n with
  | nil => exact Nat.le_refl n
  | cons w ws ih =>
    unfold accepted
    have ih := ih (n - w)
    split
    · exact Nat.zero_le _
    · split <;> omega

/-- The rule for a loop of writes: it leaves a beginning of what was to be written, as long as the
    writes accept, and tells whether this is all. -/
theorem writeAll_meets {α σ : Type} [DecidableEq α] {put : List α → σ → σ} {C : σ → Prop}
    {E : σ → Prop} {P : List α → σ → Prop} {bs : List α}
    (hput : ∀ pre piece s, pre ++ piece <+: bs → P pre s → P (pre ++ piece) (put piece s))
    (hC : ∀ pre s, pre <+: bs → P pre s → C s) (ws : List ℕ) {s : σ} {pre rest : List α}
    (hbs : pre ++ rest = bs) (hs : P pre s) :
    Meets C (fun ok s' => ∃ w, w <+: rest ∧ w.length = accepted ws rest.length ∧ P (pre ++ w) s' ∧
      (ok = true ↔ w = rest)) E (writeAll put ws rest s) := by
  induction ws generalizing s pre rest with
  | nil =>
    unfold writeAll
    rw [meets_ite]
    constructor
    · rintro rfl
      rw [meets_pure]
      exact ⟨[], prefix_refl _, rfl, by rwa [append_nil], by simp⟩
    · intro _
      rw [meets_bind, meets_call, meets_pure]
      refine ⟨hC pre s ⟨rest, hbs⟩ hs, rest, prefix_refl _, rfl, ?_, by simp⟩
      exact hput pre rest s (by rw [hbs]) hs
  | cons w ws ih =>
    unfold writeAll accepted
    rw [meets_ite, meets_ite]
    refine ⟨?_, fun hne => ⟨?_, fun hw => ?_⟩⟩
    · rintro rfl
      rw [meets_pure]
      refine ⟨[], prefix_refl _, ?_, by rwa [append_nil], by simp⟩
      split
      · rfl
      · rw [if_pos (by exact Nat.zero_le w)]
    · intro hw
      rw [if_pos hw, meets_pure]
      exact ⟨[], nil_prefix, rfl, by rwa [append_nil], by simpa using Ne.symm hne⟩
    · rw [if_neg hw, meets_bind, meets_call]
      have hsplit : pre ++ rest.take w ++ rest.drop w = bs := by
        rw [append_assoc, take_append_drop, hbs]
      have hpre : pre ++ rest.take w <+: bs := ⟨rest.drop w, hsplit⟩
      refine ⟨hC pre s ⟨rest, hbs⟩ hs, (ih hsplit (hput pre _ s hpre hs)).mono (fun _ h => h) ?_
        fun _ h => h⟩
      rintro ok s' ⟨v, hv, hlen, hP, hok⟩
      refine ⟨rest.take w ++ v, ?_, ?_, by rwa [← append_assoc], ?_⟩
      · obtain ⟨u, hu⟩ := hv
        exact ⟨u, by rw [append_assoc, hu, take_append_drop]⟩
      · rw [length_append, hlen, length_take, length_drop]
        split
        · next hle =>
          have hzero : rest.length - w = 0 := by omega
          have hnone := accepted_le ws (rest.length - w)
          omega
        · omega
      · rw [hok]
        constructor
        · rintro rfl
          exact take_append_drop w rest
        · intro heq
          exact append_cancel_left (heq.trans (take_append_drop w rest).symm)

/-- Nothing but the lock and the temporary file is different. -/
def Near (d d' : Dir) : Prop := d'.data = d.data ∧ d'.info = d.info

theorem Near.refl (d : Dir) : Near d d := ⟨rfl, rfl⟩

theorem Near.trans {d'' : Dir} (h : Near d d') (h' : Near d' d'') : Near d d'' :=
  ⟨h'.1.trans h.1, h'.2.trans h.2⟩

theorem near_unlinkTmp (fl : Faults) (d : Dir) : Near d (d.unlinkTmp fl) := by
  unfold Dir.unlinkTmp
  split
  · exact ⟨rfl, rfl⟩
  · exact Near.refl d

/-- Every call of a write of metadata works. -/
def MetaWorks (fl : Faults) (m : Meta) (d : Dir) : Prop :=
  (metaText m).length < META_MAX ∧ (fl.unlinks .tmp = true ∨ d.tmp = none) ∧
    fl.metaCreate = true ∧ accepted fl.metaWrites (metaText m).length = (metaText m).length ∧
    fl.metaSync = true ∧ fl.metaRename = true

/-- **The metadata file is replaced as a whole**, or stays when a call fails. -/
theorem metaWrite_meets (fl : Faults) (m : Meta) (s : Dir) :
    Meets (Near s) (fun _ d => d.data = s.data ∧ d.info = some (metaText m))
      (fun d => Near s d ∧ ¬ MetaWorks fl m s) (metaWrite fl m s) := by
  have hnear := near_unlinkTmp fl s
  unfold metaWrite
  rw [meets_bind, meets_check]
  refine ⟨fun hshort => ?_, fun hlong => ⟨Near.refl s, fun h => hlong h.1⟩⟩
  rw [meets_bind, meets_call]
  refine ⟨Near.refl s, ?_⟩
  rw [meets_bind, meets_get, meets_bind, meets_check]
  refine ⟨fun hcreate => ?_, fun hno => ⟨hnear, fun h => hno ⟨h.2.2.1, ?_⟩⟩⟩
  rotate_left
  · obtain ⟨-, htmp, -⟩ := h
    unfold Dir.unlinkTmp
    split
    · rfl
    · next hunlink => exact htmp.resolve_left hunlink
  rw [meets_bind, meets_call]
  refine ⟨hnear, ?_⟩
  rw [meets_bind]
  -- while the text is written, the rest of the directory stays
  have hloop := @writeAll_meets Char Dir _ (fun cs d => { d with tmp := d.tmp.map (· ++ cs) })
    (Near s) (fun d => Near s d ∧ ¬ MetaWorks fl m s)
    (fun pre d => Near s d ∧ d.tmp = some pre) (metaText m)
    (fun pre piece d _ h => ⟨h.1, by simp [h.2]⟩) (fun _ _ _ h => h.1) fl.metaWrites
    { s.unlinkTmp fl with tmp := some [] } [] (metaText m) rfl ⟨hnear, rfl⟩
  refine hloop.mono (fun _ h => h) ?_ fun _ h => h
  rintro written d ⟨w, hw, hlen, ⟨hd, htmp⟩, hall⟩
  have hgone : Near s (d.unlinkTmp fl) := hd.trans (near_unlinkTmp fl d)
  rw [meets_ite]
  refine ⟨fun hfailed => ?_, fun hdone => ?_⟩
  · rw [meets_bind, meets_call, meets_fail]
    refine ⟨hd, hgone, fun h => ?_⟩
    obtain ⟨-, -, -, haccepted, hsync, -⟩ := h
    have hwhole := hall.mpr (hw.eq_of_length (hlen.trans haccepted))
    simp [hwhole, hsync] at hfailed
  rw [meets_ite]
  refine ⟨fun hfailed => ?_, fun _ => ?_⟩
  · rw [meets_bind, meets_call, meets_fail]
    refine ⟨hd, hgone, fun h => ?_⟩
    simp [h.2.2.2.2.2] at hfailed
  have hwritten : written = true := by
    by_contra hno
    exact hdone (.inl (by simpa using hno))
  rw [meets_call]
  refine ⟨hd, hd.1, ?_⟩
  show d.tmp = some (metaText m)
  rw [htmp, hall.mp hwritten, nil_append]

/-! ### Reading -/

theorem metaRead_meets {C E : Dir → Prop} {Q : Meta → Dir → Prop} :
    Meets C Q E (metaRead s) ↔ (∀ m, s.record = some m → Q m s) ∧ (s.record = none → E s) := by
  unfold metaRead
  rw [meets_bind, meets_get]
  cases s.record with
  | none => simp
  | some m => simp

theorem ownRecord_meets {C E : Dir → Prop} {Q : Meta → Dir → Prop} :
    Meets C Q E (ownRecord owner s) ↔ (∀ m, s.record = some m → m.ownerId = owner → Q m s) ∧
        ((∀ m, s.record = some m → m.ownerId ≠ owner) → E s) := by
  unfold ownRecord
  rw [meets_bind, metaRead_meets]
  simp only [meets_bind, meets_check, meets_pure]
  constructor
  · rintro ⟨hsome, hnone⟩
    refine ⟨fun m hm ho => (hsome m hm).1 ho, fun hno => ?_⟩
    cases hr : s.record with
    | none => exact hnone hr
    | some m => exact (hsome m hr).2 (hno m hr)
  · rintro ⟨hown, hno⟩
    refine ⟨fun m hm => ⟨hown m hm, fun ho => hno fun m' hm' => ?_⟩, fun hr => hno fun m hm => ?_⟩
    · rw [hm] at hm'
      obtain rfl := some.inj hm'
      exact ho
    · rw [hr] at hm
      cases hm

theorem record_lock (d : Dir) (b : Bool) : ({ d with lock := b } : Dir).record = d.record := rfl

theorem near_lock (d : Dir) (b : Bool) : Near d { d with lock := b } := ⟨rfl, rfl⟩

/-! ### Appending -/

/-- The record after a chunk. -/
def Meta.grow (m : Meta) (n : ℕ) (now : ℤ) : Meta := { m with size := m.size + n, updated := now }

/-- An append that comes to its writes. -/
structure AppendReady (fl : Faults) (t : Clock) (owner : Bytes) (offset : ℕ) (chunk : Bytes)
    (s : Dir) (m : Meta) (bs : Bytes) : Prop where
  record : s.record = some m
  owner : m.ownerId = owner
  status : m.status = .open
  time : ¬ unsigned t.first > unsigned m.expires
  data : s.data = some bs
  place : bs.length = offset ∧ m.size = offset
  fits : m.fits offset chunk.length = true

/-- How an append fails: nothing has changed, or the upload has expired, or a beginning of the chunk
    stays behind. -/
inductive AppendFailed (fl : Faults) (t : Clock) (owner : Bytes) (offset : ℕ) (chunk : Bytes)
    (s : Dir) : Dir → Prop
  | refused (d : Dir) (hd : Near s d)
      (hno : fl.lock = true → fl.data = true → fl.capacity = true →
        ∀ m bs, ¬ AppendReady fl t owner offset chunk s m bs) :
      AppendFailed fl t owner offset chunk s d
  | expired (m : Meta) (d : Dir) (hrecord : s.record = some m) (howner : m.ownerId = owner)
      (hstatus : m.status = .open)
      (htime : unsigned t.first > unsigned m.expires) (hdata : d.data = s.data)
      (hinfo : d.info = some (metaText
        { m with status := .expired, error := "expired".toList, updated := t.second })) :
      AppendFailed fl t owner offset chunk s d
  | partial_ (m : Meta) (bs w : Bytes) (d : Dir)
      (hready : AppendReady fl t owner offset chunk s m bs) (hw : w <+: chunk)
      (hlen : w.length = accepted fl.writes chunk.length)
      (hdata : d.data = some (bs ++ w)) (hinfo : d.info = s.info)
      (hfault : accepted fl.writes chunk.length ≠ chunk.length ∨ fl.sync = false ∨
        ¬ MetaWorks fl (m.grow chunk.length t.second) s) :
      AppendFailed fl t owner offset chunk s d

theorem map_append_nil (o : Option Bytes) : o.map (· ++ []) = o := by
  cases o <;> simp

/-- **An append** adds the chunk and then counts it, or fails in one of three ways; it can be cut off
    with a beginning of the chunk that is not counted. -/
theorem appendDir_meets (fl : Faults) (t : Clock) (owner : Bytes) (offset : ℕ) (chunk : Bytes)
    (s : Dir) :
    Meets (fun d => d.info = s.info ∧ ∃ w, w <+: chunk ∧ d.data = s.data.map (· ++ w))
      (fun m' d => ∃ m bs, AppendReady fl t owner offset chunk s m bs ∧
        m' = m.grow chunk.length t.second ∧ d.data = some (bs ++ chunk) ∧
        d.info = some (metaText m'))
      (AppendFailed fl t owner offset chunk s) (appendDir fl t owner offset chunk s) := by
  have hnone : ∀ d, Near s d → d.info = s.info ∧ ∃ w, w <+: chunk ∧ d.data = s.data.map (· ++ w) :=
    fun d hd => ⟨hd.2, [], nil_prefix, by rw [map_append_nil]; exact hd.1⟩
  unfold appendDir lockDir
  rw [meets_bind, meets_bind, meets_check]
  refine ⟨fun hlock => ?_, fun hlock => ?_⟩
  rotate_left
  · exact AppendFailed.refused s (Near.refl s) fun h => absurd h hlock
  rw [meets_call]
  refine ⟨hnone s (Near.refl s), ?_⟩
  -- from here on the lock is held
  generalize hs₁ : ({ s with lock := true } : Dir) = s₁
  have hnear : Near s s₁ := hs₁ ▸ near_lock s true
  have hrecord : s₁.record = s.record := hs₁ ▸ record_lock s true
  have htmp : s₁.tmp = s.tmp := hs₁ ▸ rfl
  have hrefused : (∀ m bs, ¬ AppendReady fl t owner offset chunk s m bs) →
      AppendFailed fl t owner offset chunk s s₁ :=
    fun hno => AppendFailed.refused s₁ hnear fun _ _ _ => hno
  rw [meets_bind, ownRecord_meets, hrecord]
  refine ⟨fun m hm howner => ?_, fun hno => ?_⟩
  rotate_left
  · exact hrefused fun m bs h => hno m h.record h.owner
  have hsame : ∀ m' bs, AppendReady fl t owner offset chunk s m' bs → m' = m := by
    intro m' bs h
    exact some.inj (h.record.symm.trans hm)
  rw [meets_bind, meets_check]
  refine ⟨fun hstatus => ?_, fun hstatus => ?_⟩
  rotate_left
  · exact hrefused fun m' bs h => hstatus (hsame m' bs h ▸ h.status)
  rw [meets_ite]
  refine ⟨fun htime => ?_, fun htime => ?_⟩
  · rw [meets_bind]
    apply meets_attempt
    refine (metaWrite_meets fl _ s₁).mono (fun d hd => hnone d (hnear.trans hd)) ?_ ?_
    · rintro _ d ⟨hdata, hinfo⟩
      rw [meets_fail]
      exact AppendFailed.expired m d hm howner hstatus htime (hdata.trans hnear.1) hinfo
    · rintro d ⟨hd, -⟩ _
      rw [meets_fail]
      exact AppendFailed.refused d (hnear.trans hd) fun _ _ _ m' bs h =>
        h.time (hsame m' bs h ▸ htime)
  rw [meets_bind, meets_get, meets_bind, meets_check]
  refine ⟨fun hdata => ?_, fun hdata => ?_⟩
  rotate_left
  · refine AppendFailed.refused s₁ hnear fun _ hfl _ m' bs h => hdata ⟨hfl, ?_⟩
    rw [hnear.1, h.data]
    nofun
  obtain ⟨bs, hbs⟩ := ne_none_iff_exists'.mp hdata.2
  rw [meets_bind, meets_check, hbs]
  refine ⟨fun hplace => ?_, fun hplace => ?_⟩
  rotate_left
  · refine hrefused fun m' bs' h => hplace ?_
    have hbs' : bs' = bs := some.inj (h.data.symm.trans (hnear.1.symm.trans hbs))
    rw [← hbs', ← hsame m' bs' h]
    exact h.place
  rw [meets_bind, meets_check]
  refine ⟨fun hfits => ?_, fun hfits => ?_⟩
  rotate_left
  · exact hrefused fun m' bs' h => hfits (hsame m' bs' h ▸ h.fits)
  rw [meets_bind, meets_check]
  refine ⟨fun _ => ?_, fun hcap => ?_⟩
  rotate_left
  · exact AppendFailed.refused s₁ hnear fun _ _ h => absurd h hcap
  have hsdata : s.data = some bs := hnear.1.symm.trans hbs
  have hready : AppendReady fl t owner offset chunk s m bs :=
    ⟨hm, howner, hstatus, htime, hsdata, hplace, hfits⟩
  -- what the writes leave, and why the rest of the call may fail
  have hpartial : ∀ w d, w <+: chunk → w.length = accepted fl.writes chunk.length →
      d.data = some (bs ++ w) → d.info = s.info →
      (accepted fl.writes chunk.length ≠ chunk.length ∨ fl.sync = false ∨
        ¬ MetaWorks fl (m.grow chunk.length t.second) s) →
      AppendFailed fl t owner offset chunk s d :=
    fun w d hw hlen hd hi hfault => AppendFailed.partial_ m bs w d hready hw hlen hd hi hfault
  rw [meets_bind]
  have hloop := @writeAll_meets UInt8 Dir _ (fun bs d => { d with data := d.data.map (· ++ bs) })
    (fun d => d.info = s.info ∧ ∃ w, w <+: chunk ∧ d.data = s.data.map (· ++ w))
    (AppendFailed fl t owner offset chunk s)
    (fun pre d => d.data = some (bs ++ pre) ∧ d.info = s.info ∧ d.tmp = s.tmp) chunk
    (fun pre piece d _ h => ⟨by simp [h.1], h.2.1, h.2.2⟩)
    (fun pre d hpre h => ⟨h.2.1, pre, hpre, by rw [h.1, hsdata]; rfl⟩) fl.writes s₁ [] chunk rfl
    ⟨by rw [hbs, append_nil], hnear.2, htmp⟩
  refine hloop.mono (fun _ h => h) ?_ fun _ h => h
  rintro written d ⟨w, hw, hlen, ⟨hd, hi, ht⟩, hall⟩
  rw [nil_append] at hd
  rw [meets_bind, meets_check]
  refine ⟨fun hwritten => ?_, fun hwritten => ?_⟩
  rotate_left
  · refine hpartial w d hw hlen hd hi (.inl fun heq => hwritten ?_)
    exact hall.mpr (hw.eq_of_length (hlen.trans heq))
  obtain rfl := hall.mp hwritten
  rw [meets_bind, meets_check]
  refine ⟨fun _ => ?_, fun hsync => ?_⟩
  rotate_left
  · exact hpartial w d hw hlen hd hi (.inr (.inl (by simpa using hsync)))
  have hgrow : ({ m with size := offset + w.length, updated := t.second } : Meta) =
      m.grow w.length t.second := by
    unfold Meta.grow
    rw [hplace.2]
  rw [meets_bind, hgrow]
  refine (metaWrite_meets fl _ d).mono ?_ ?_ ?_
  · intro d' hd'
    exact ⟨hd'.2.trans hi, w, prefix_refl _, by rw [hd'.1, hd, hsdata]; rfl⟩
  · rintro _ d' ⟨hdata', hinfo'⟩
    rw [meets_pure]
    exact ⟨m, bs, hready, rfl, hdata'.trans hd, hinfo'⟩
  · rintro d' ⟨hd', hworks⟩
    refine hpartial w d' hw hlen (hd'.1.trans hd) (hd'.2.trans hi) (.inr (.inr fun h => hworks ?_))
    exact ⟨h.1, ht ▸ h.2.1, h.2.2⟩

/-! ### Finalizing -/

/-- A record that is finalized. -/
def Meta.seal (m : Meta) (digest : List Char) (now : ℤ) : Meta :=
  { m with sha256 := digest, status := .finalized, updated := now }

/-- A record whose digest is not the one that was expected. -/
def Meta.reject (m : Meta) (now : ℤ) : Meta :=
  { m with status := .rejected, error := "sha256_mismatch".toList, updated := now }

/-- **Finalizing** seals the record with the digest of the data, rejects it, or leaves it; the data
    stays. -/
theorem finalizeDir_meets (sha : Digest) (fl : Faults) (t : Clock) (owner : Bytes)
    (digest : List Char) (s : Dir) :
    Meets (Near s)
      (fun m' d => ∃ m bs, s.record = some m ∧ m.ownerId = owner ∧ m.status = .open ∧
        s.data = some bs ∧ bs.length = m.size ∧ m' = m.seal (sha.sha256 bs) t.first ∧
        d.data = s.data ∧ d.info = some (metaText m'))
      (fun d => Near s d ∨ ∃ m, s.record = some m ∧ m.ownerId = owner ∧ m.status = .open ∧
        d.data = s.data ∧ d.info = some (metaText (m.reject t.first)))
      (finalizeDir sha fl t owner digest s) := by
  unfold finalizeDir lockDir
  rw [meets_bind, meets_bind, meets_check]
  refine ⟨fun _ => ?_, fun _ => .inl (Near.refl s)⟩
  rw [meets_call]
  refine ⟨Near.refl s, ?_⟩
  generalize hs₁ : ({ s with lock := true } : Dir) = s₁
  have hnear : Near s s₁ := hs₁ ▸ near_lock s true
  rw [meets_bind, ownRecord_meets, show s₁.record = s.record from hs₁ ▸ record_lock s true]
  refine ⟨fun m hm howner => ?_, fun _ => .inl hnear⟩
  rw [meets_bind, meets_check]
  refine ⟨fun hstatus => ?_, fun _ => .inl hnear⟩
  rw [meets_bind, meets_check]
  refine ⟨fun _ => ?_, fun _ => .inl hnear⟩
  rw [meets_bind, meets_get]
  cases hdata : s₁.data with
  | none =>
    rw [meets_fail]
    exact .inl hnear
  | some bs =>
    dsimp only
    rw [meets_bind, meets_check]
    refine ⟨fun _ => ?_, fun _ => .inl hnear⟩
    rw [meets_bind, meets_check]
    refine ⟨fun hsize => ?_, fun _ => .inl hnear⟩
    rw [meets_ite]
    refine ⟨fun _ => ?_, fun _ => ?_⟩
    · rw [meets_bind]
      apply meets_attempt
      refine (metaWrite_meets fl (m.reject t.first) s₁).mono (fun d hd => hnear.trans hd) ?_ ?_
      · rintro _ d ⟨hd, hinfo⟩
        rw [meets_fail]
        exact .inr ⟨m, hm, howner, hstatus, hd.trans hnear.1, hinfo⟩
      · rintro d ⟨hd, -⟩ _
        rw [meets_fail]
        exact .inl (hnear.trans hd)
    · rw [meets_bind]
      refine (metaWrite_meets fl (m.seal (sha.sha256 bs) t.first) s₁).mono
        (fun d hd => hnear.trans hd) ?_ ?_
      · rintro _ d ⟨hd, hinfo⟩
        rw [meets_pure]
        exact ⟨m, bs, hm, howner, hstatus, hnear.1.symm.trans hdata, hsize, rfl, hd.trans hnear.1,
          hinfo⟩
      · rintro d ⟨hd, -⟩
        exact .inl (hnear.trans hd)

end DreamingOS.Upload
