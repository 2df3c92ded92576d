import DreamingOS.ApiKey.Gate

namespace DreamingOS.ApiKey

/-!
# API keys — the spellings of a path

A path may be spelled in many ways; what it names is the same, and so is the verdict.

* `Respelled` — one change of the spelling, of the text as it is sent;
* `decode_slash`, `decode_lower` — escapes, at a slash and in the other case;
* `Respelled.resource_eq` — **a change of the spelling does not change what is named**;
* `normalizePath_respelled` — nor the form that is compared.
-/

open Segments List Option

/-- A text that does not end inside an escape. -/
def Whole (front : List UInt8) : Prop :=
  (∃ x, decode front = some x) ∨ ∀ rest, decode (front ++ rest) = none

/-- **One change of the spelling**: a byte is escaped, a slash is repeated or put at the end, a segment
    of one dot is put in, or an ordinary segment with two dots behind it, or the case is changed. -/
inductive Respelled : List UInt8 → List UInt8 → Prop
  | escape (front rest : List UInt8) (c h l : UInt8) (hc : c ≠ PERCENT) (hbyte : escaped h l = some c)
      (hfront : Whole front) :
      Respelled (front ++ c :: rest) (front ++ PERCENT :: h :: l :: rest)
  | slash (front rest : List UInt8) :
      Respelled (front ++ SLASH :: rest) (front ++ SLASH :: SLASH :: rest)
  | trailing (front : List UInt8) (hne : front ≠ []) : Respelled front (front ++ [SLASH])
  | dot (front rest : List UInt8) :
      Respelled (front ++ SLASH :: rest) (front ++ SLASH :: DOT :: SLASH :: rest)
  | pair (front x rest w : List UInt8) (hx : decode x = some w) (hne : w ≠ []) (hslash : SLASH ∉ w)
      (hw : Ordinary DOT w) :
      Respelled (front ++ SLASH :: rest)
        (front ++ SLASH :: (x ++ SLASH :: DOT :: DOT :: SLASH :: rest))
  | case (p q : List UInt8) (h : p.map lower = q.map lower) : Respelled p q

/-! ### Escapes -/

variable {p q s x y : List UInt8}

theorem decode_cons {c : UInt8} (hc : c ≠ PERCENT) (s : List UInt8) :
    decode (c :: s) = (decode s).map (c :: ·) := by
  rw [decode.eq_def]
  exact if_neg hc

theorem decode_escape {h l b : UInt8} (hbyte : escaped h l = some b) (s : List UInt8) :
    decode (PERCENT :: h :: l :: s) = (decode s).map (b :: ·) := by
  rw [decode.eq_def]
  dsimp only
  rw [if_pos rfl, hbyte]

theorem decode_malformed {h l : UInt8} (hbyte : escaped h l = none) (s : List UInt8) :
    decode (PERCENT :: h :: l :: s) = none := by
  rw [decode.eq_def]
  dsimp only
  rw [if_pos rfl, hbyte]

/-- An escape that the text ends in. -/
theorem decode_short (hs : ∀ h l rest, s = h :: l :: rest → False) : decode (PERCENT :: s) = none := by
  rw [decode.eq_def]
  dsimp only
  rw [if_pos rfl]
  obtain _ | ⟨h, _ | ⟨l, rest⟩⟩ := s
  · rfl
  · rfl
  · exact absurd rfl (hs h l rest)

theorem decode_append {a : List UInt8} (h : decode a = some x) (s : List UInt8) :
    decode (a ++ s) = (decode s).map (x ++ ·) := by
  induction a using decode.induct generalizing x with
  | case1 =>
    obtain rfl := some.inj h
    exact Option.map_id'.symm
  | case2 h' l rest hbyte =>
    rw [decode_malformed hbyte] at h
    cases h
  | case3 h' l rest b hbyte ih =>
    rw [decode_escape hbyte] at h
    obtain ⟨y, hy, rfl⟩ := map_eq_some_iff.mp h
    rw [cons_append, cons_append, cons_append, decode_escape hbyte, ih hy, Option.map_map]
    rfl
  | case4 s' hs =>
    rw [decode_short hs] at h
    cases h
  | case5 c s' hc ih =>
    rw [decode_cons hc] at h
    obtain ⟨y, hy, rfl⟩ := map_eq_some_iff.mp h
    rw [cons_append, decode_cons hc, ih hy, Option.map_map]
    rfl

theorem hexval_slash : hexval SLASH = none := by decide

/-- No escape goes over a slash. -/
theorem decode_slash_none {a : List UInt8} (h : decode a = none) (s : List UInt8) :
    decode (a ++ SLASH :: s) = none := by
  induction a using decode.induct with
  | case1 => cases h
  | case2 h' l rest hbyte => exact decode_malformed hbyte _
  | case3 h' l rest b hbyte ih =>
    rw [decode_escape hbyte, map_eq_none_iff] at h
    rw [cons_append, cons_append, cons_append, decode_escape hbyte, ih h]
    rfl
  | case4 s' hs =>
    match s', hs with
    | [], _ =>
      cases s with
      | nil => rfl
      | cons l rest =>
        apply decode_malformed
        unfold escaped
        rw [hexval_slash]
    | [h'], _ =>
      apply decode_malformed
      unfold escaped
      rw [hexval_slash]
      split <;> first | rfl | contradiction
    | h' :: l :: rest, hs => exact absurd rfl (hs h' l rest)
  | case5 c s' hc ih =>
    rw [decode_cons hc, map_eq_none_iff] at h
    rw [cons_append, decode_cons hc, ih h]
    rfl

/-- **The text of a path, at a slash.** -/
theorem decode_slash (a s : List UInt8) : decode (a ++ SLASH :: s) =
    (decode a).bind fun x => (decode s).map fun y => x ++ SLASH :: y := by
  cases ha : decode a with
  | none => exact decode_slash_none ha s
  | some x =>
    rw [decode_append ha, decode_cons (by decide), Option.map_map]
    rfl

/-! ### The case -/

theorem lower_lower (c : UInt8) : lower (lower c) = lower c := by
  revert c
  exact forall_byte (by decide +kernel)

theorem lower_percent (c : UInt8) : lower c = PERCENT ↔ c = PERCENT := by
  revert c
  exact forall_byte (by decide +kernel)

theorem hexval_lower (c : UInt8) : hexval (lower c) = hexval c := by
  revert c
  exact forall_byte (by decide +kernel)

theorem escaped_lower (h l : UInt8) : escaped (lower h) (lower l) = escaped h l := by
  unfold escaped
  rw [hexval_lower, hexval_lower]

/-- The case of a path does not matter to its text but for the case. -/
theorem decode_lower (p : List UInt8) :
    (decode (p.map lower)).map (List.map lower) = (decode p).map (List.map lower) := by
  have hpercent : lower PERCENT = PERCENT := (lower_percent _).mpr rfl
  induction p using decode.induct with
  | case1 => rfl
  | case2 h l rest hbyte =>
    rw [decode_malformed hbyte, map_cons, map_cons, map_cons, hpercent,
      decode_malformed (by rw [escaped_lower, hbyte])]
  | case3 h l rest b hbyte ih =>
    rw [decode_escape hbyte, map_cons, map_cons, map_cons, hpercent,
      decode_escape (by rw [escaped_lower, hbyte]), Option.map_map, Option.map_map]
    have hcons := congrArg (Option.map (lower b :: ·)) ih
    rw [Option.map_map, Option.map_map] at hcons
    exact hcons
  | case4 s hs =>
    rw [decode_short hs, map_cons, hpercent, decode_short]
    intro h l rest heq
    obtain ⟨h', s', rfl, -, hrest⟩ := map_eq_cons_iff.mp heq
    obtain ⟨l', s'', rfl, -, -⟩ := map_eq_cons_iff.mp hrest
    exact hs h' l' s'' rfl
  | case5 c s hc ih =>
    rw [decode_cons hc, map_cons, decode_cons fun h => hc ((lower_percent c).mp h),
      Option.map_map, Option.map_map]
    have hcons := congrArg (Option.map (lower c :: ·)) ih
    rw [Option.map_map, Option.map_map] at hcons
    have hfun : ∀ o : Option (List UInt8), o.map (List.map lower ∘ (lower c :: ·)) =
        o.map ((lower c :: ·) ∘ List.map lower) := by
      intro o
      congr 1
      funext y
      show lower (lower c) :: _ = _
      rw [lower_lower]
      rfl
    rw [hfun]
    exact hcons

/-! ### What is named -/

theorem named_append (x y : List UInt8) : named (x ++ SLASH :: y) =
    resolve DOT (segments SLASH (x.map lower) ++ segments SLASH (y.map lower)) := by
  have hslash : lower SLASH = SLASH := (lower_slash _).mpr rfl
  unfold named
  rw [map_append, map_cons, hslash, segments_append]

theorem head?_append_slash (x y y' : List UInt8) :
    (x ++ SLASH :: y).head? = (x ++ SLASH :: y').head? := by
  cases x <;> rfl

/-- Segments with a slash behind them. -/
theorem segments_lower_slash (w y : List UInt8) : segments SLASH ((w ++ SLASH :: y).map lower) =
    segments SLASH (w.map lower) ++ segments SLASH (y.map lower) := by
  have hslash : lower SLASH = SLASH := (lower_slash _).mpr rfl
  rw [map_append, map_cons, hslash, segments_append]

/-- Segments that are put in behind a slash, if they change nothing in what is named. -/
theorem resource_insert {a s x : List UInt8} {w : List UInt8} (hx : decode x = some w)
    (hws : ∀ us vs : List (List UInt8),
      resolve DOT (us ++ (segments SLASH (w.map lower) ++ vs)) = resolve DOT (us ++ vs)) :
    resource (a ++ SLASH :: s) = resource (a ++ SLASH :: (x ++ SLASH :: s)) := by
  unfold resource
  rw [decode_slash, decode_slash, decode_slash, hx]
  cases decode a with
  | none => rfl
  | some front =>
    cases decode s with
    | none => rfl
    | some y =>
      rw [bind_some, map_some, bind_some, bind_some, map_some, map_some]
      dsimp only
      rw [head?_append_slash front y (w ++ SLASH :: y), named_append, named_append,
        segments_lower_slash, hws]

/-- The case of the text does not matter. -/
theorem resource_lower (h : (decode p).map (List.map lower) = (decode q).map (List.map lower)) :
    resource p = resource q := by
  unfold resource
  cases hp : decode p with
  | none =>
    rw [hp, map_none] at h
    rw [map_eq_none_iff.mp h.symm]
  | some x =>
    rw [hp, map_some] at h
    obtain ⟨y, hy, hxy⟩ := map_eq_some_iff.mp h.symm
    rw [hy]
    dsimp only
    have hhead : x.head? = some SLASH ↔ y.head? = some SLASH := by
      have hlower : ∀ z : List UInt8, z.head? = some SLASH ↔ (z.map lower).head? = some SLASH := by
        intro z
        cases z with
        | nil => simp
        | cons c z => simp [lower_slash]
      rw [hlower x, hlower y, hxy]
    have hnamed : named x = named y := by
      unfold named
      rw [hxy]
    rw [hnamed]
    exact if_congr hhead rfl rfl

theorem ordinary_lower {w : List UInt8} (h : Ordinary DOT w) : Ordinary DOT (w.map lower) := by
  have hpush := push_map lower_dot [] w
  rw [push_ordinary h, map_nil, nil_append, map_singleton] at hpush
  unfold push at hpush
  constructor
  · intro heq
    rw [if_pos heq] at hpush
    cases hpush
  · intro heq
    rw [if_neg (by rw [heq]; decide), if_pos heq] at hpush
    cases hpush

/-- **A change of the spelling does not change what is named.** -/
theorem Respelled.resource_eq (h : Respelled p q) : resource p = resource q := by
  cases h with
  | escape front rest c h l hc hbyte hfront =>
    have hsame : decode (c :: rest) = decode (PERCENT :: h :: l :: rest) := by
      rw [decode_cons hc, decode_escape hbyte]
    unfold resource
    obtain ⟨x, hx⟩ | hno := hfront
    · rw [decode_append hx, decode_append hx, hsame]
    · rw [hno, hno]
  | slash front rest =>
    have hnil : decode [] = some [] := rfl
    exact resource_insert hnil fun _ _ => rfl
  | trailing _ hne =>
    obtain ⟨c, s, rfl⟩ := exists_cons_of_ne_nil hne
    unfold resource
    rw [decode_slash]
    cases hp : decode (c :: s) with
    | none => rfl
    | some x =>
      obtain ⟨b, x, rfl⟩ := exists_cons_of_ne_nil (decode_ne_nil hp)
      have hnamed : named ((b :: x) ++ SLASH :: []) = named (b :: x) := by
        rw [named_append, map_nil, segments_nil, append_nil]
        rfl
      show _ = if ((b :: x) ++ SLASH :: []).head? = _ then some (named ((b :: x) ++ SLASH :: [])) else _
      rw [hnamed]
      rfl
  | dot front rest =>
    have hdot : decode [DOT] = some [DOT] := by decide
    exact resource_insert hdot fun us vs => resolve_dot us vs
  | pair front x rest w hx hne hslash hw =>
    have hwhole : decode (x ++ SLASH :: [DOT, DOT]) = some (w ++ SLASH :: [DOT, DOT]) := by
      rw [decode_slash, hx]
      rfl
    have hsame : x ++ SLASH :: DOT :: DOT :: SLASH :: rest =
        (x ++ SLASH :: [DOT, DOT]) ++ SLASH :: rest := by
      rw [append_assoc]
      rfl
    rw [hsame]
    apply resource_insert hwhole
    intro us vs
    rw [segments_lower_slash, segments_of_not_mem (by simpa [lower_slash] using hslash) (by simpa using hne)]
    exact resolve_pair (ordinary_lower hw) us vs
  | case _ _ h =>
    apply resource_lower
    rw [← decode_lower p, ← decode_lower q, h]

/-- Two spellings of one path. -/
def SamePath : List UInt8 → List UInt8 → Prop := Relation.EqvGen Respelled

theorem SamePath.resource_eq (h : SamePath p q) : resource p = resource q := by
  induction h with
  | rel _ _ h => exact h.resource_eq
  | refl => rfl
  | symm _ _ _ ih => exact ih.symm
  | trans _ _ _ _ _ ih ih' => exact ih.trans ih'

/-- **The form that is compared is the same** for all spellings, where there is room for them. -/
theorem normalizePath_respelled (h : SamePath p q) (hp : WithinLimits p) (hq : WithinLimits q) :
    normalizePath p = normalizePath q := by
  rw [normalizePath_eq hp, normalizePath_eq hq, h.resource_eq]

end DreamingOS.ApiKey
