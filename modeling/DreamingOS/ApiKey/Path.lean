import DreamingOS.Lib.Segments
import DreamingOS.Lib.Text

namespace DreamingOS.ApiKey

/-!
# API keys — paths

The path of a request, in the one form in which `webd_api_keys.c` compares it, and the routes that no
key reaches.

* `percentDecode`, `normalizePath` — the form, where there is room for it;
* `prefixMatch`, `routeForbidden` — the routes that are closed;
* `resource`, `WithinLimits` — what a path names, and that there is room for it;
* `normalizePath_eq` — **a path is compared by what it names**;
* `routeForbidden_eq_false` — what lies in no closed subtree.

A text is a C string: its bytes, without the zero at the end.
-/

open Segments Text List Option

def SLASH : UInt8 := 0x2f
def DOT : UInt8 := 0x2e
def PERCENT : UInt8 := 0x25
def PATH_ROOM : ℕ := 1024
def SEGMENTS_ROOM : ℕ := 64

/-! ### Normalisation -/

/-- `api_key_hexval`. -/
def hexval (c : UInt8) : Option ℕ :=
  if 0x30 ≤ c ∧ c ≤ 0x39 then some (c.toNat - 0x30)
  else if 0x61 ≤ c ∧ c ≤ 0x66 then some (c.toNat - 0x61 + 10)
  else if 0x41 ≤ c ∧ c ≤ 0x46 then some (c.toNat - 0x41 + 10)
  else none

/-- `tolower`. -/
def lower (c : UInt8) : UInt8 := if 0x41 ≤ c ∧ c ≤ 0x5a then c + 0x20 else c

/-- The byte that two hexadecimal digits stand for. -/
def escaped (h l : UInt8) : Option UInt8 :=
  match hexval h, hexval l with
  | some hi, some lo => if hi * 16 + lo = 0 then none else some (UInt8.ofNat (hi * 16 + lo))
  | _, _ => none

/-- The loop that decodes the escapes, with room for a number of bytes. -/
def percentDecode : ℕ → List UInt8 → Option (List UInt8)
  | _, [] => some []
  | 0, _ :: _ => none
  | room + 1, c :: s =>
    if c = PERCENT then
      match s with
      | h :: l :: rest =>
        match escaped h l with
        | none => none
        | some b => (percentDecode room rest).map (b :: ·)
      | _ => none
    else (percentDecode room s).map (c :: ·)

/-- The loop that writes the segments, behind those that are there. -/
def emit : List (List UInt8) → List UInt8 → Option (List UInt8)
  | [], out => some out
  | w :: ws, out =>
    if out.length + w.length + 2 > PATH_ROOM then none
    else emit ws (out ++ SLASH :: w.map lower)

/-- `api_key_normalize_path`. -/
def normalizePath (path : List UInt8) : Option (List UInt8) :=
  match percentDecode (PATH_ROOM - 1) path with
  | none => none
  | some decoded =>
    if decoded.head? ≠ some SLASH then none
    else
      match walk DOT SEGMENTS_ROOM (segments SLASH decoded) [] with
      | none => none
      | some ws => (emit ws []).map fun out => if out = [] then [SLASH] else out

/-! ### Closed routes -/

/-- `api_key_prefix_match`. -/
def prefixMatch (path root : List UInt8) : Bool :=
  root.isPrefixOf path && ((path.drop root.length).head?.all fun c => c = SLASH)

/-- `g_api_key_forbidden`. -/
def FORBIDDEN : List (List UInt8) :=
  ["/terminal", "/api/v1/system/ttyd", "/api/v1/policy-engine/terminal-groups",
    "/api/v1/system/flash", "/api/v1/system/power", "/api/v1/system/ota", "/api/v1/system/reboot",
    "/api/v1/system/shutdown", "/api/v1/system/backup", "/api/v1/system/upgrade",
    "/api/v1/system/restore", "/api/v1/system/kernel/restore-defaults", "/api/v1/setup",
    "/api/v1/auth/api-keys", "/api/v1/auth/pair", "/api/v1/auth/2fa", "/api/v1/system/admin",
    "/api/v1/system/users", "/api/v1/system/user-groups"].map fun route => ascii route.toList

def STORAGE_FILES : List UInt8 := ascii "/api/v1/storage/files".toList

/-- `strcasecmp(a, b) == 0`. -/
def sameName (a b : List UInt8) : Bool := a.map lower = b.map lower

/-- `api_key_method_is_readonly`. -/
def methodIsReadonly (method : Option (List UInt8)) : Bool :=
  method.any fun m =>
    sameName m (ascii "GET".toList) || sameName m (ascii "HEAD".toList) ||
      sameName m (ascii "OPTIONS".toList)

/-- `webd_api_key_route_forbidden`. -/
def routeForbidden (method path : Option (List UInt8)) : Bool :=
  match path.bind normalizePath with
  | none => true
  | some norm =>
    FORBIDDEN.any (prefixMatch norm) || (prefixMatch norm STORAGE_FILES && !methodIsReadonly method)

/-! ### What a path names -/

/-- The text of a path without its escapes. -/
def decode : List UInt8 → Option (List UInt8)
  | [] => some []
  | c :: s =>
    if c = PERCENT then
      match s with
      | h :: l :: rest =>
        match escaped h l with
        | none => none
        | some b => (decode rest).map (b :: ·)
      | _ => none
    else (decode s).map (c :: ·)

/-- The segments of a text, without regard to the case. -/
def named (decoded : List UInt8) : List (List UInt8) :=
  resolve DOT (segments SLASH (decoded.map lower))

/-- What a path names, if it is one. -/
def resource (path : List UInt8) : Option (List (List UInt8)) :=
  match decode path with
  | none => none
  | some decoded => if decoded.head? = some SLASH then some (named decoded) else none

/-- There is room for the text of a path, and for its segments. -/
def WithinLimits (path : List UInt8) : Prop :=
  ∀ decoded ∈ decode path,
    decoded.length < PATH_ROOM ∧ Fits DOT SEGMENTS_ROOM (segments SLASH decoded)

/-- The text of a path that names something. -/
def render (ws : List (List UInt8)) : List UInt8 :=
  if ws = [] then [SLASH] else ws.flatMap fun w => SLASH :: w

/-! ### The form is what is named -/

variable {path : List UInt8}

/-- A property of all bytes, number by number. -/
theorem forall_byte {p : UInt8 → Prop} (h : ∀ n < 256, p (UInt8.ofNat n)) (c : UInt8) : p c := by
  have hc := h c.toNat (UInt8.toNat_lt c)
  rwa [UInt8.ofNat_toNat] at hc

theorem lower_slash (c : UInt8) : lower c = SLASH ↔ c = SLASH := by
  revert c
  exact forall_byte (by decide +kernel)

theorem lower_dot (c : UInt8) : lower c = DOT ↔ c = DOT := by
  revert c
  exact forall_byte (by decide +kernel)

theorem named_eq (decoded : List UInt8) :
    named decoded = (resolve DOT (segments SLASH decoded)).map (List.map lower) := by
  unfold named
  rw [segments_map lower_slash, resolve_map lower_dot]

/-- Every byte and every escape has its byte in the text. -/
theorem decode_ne_nil {c : UInt8} {s decoded : List UInt8} (h : decode (c :: s) = some decoded) :
    decoded ≠ [] := by
  rintro rfl
  unfold decode at h
  split at h
  · split at h
    · split at h
      · cases h
      · obtain ⟨_, -, hno⟩ := map_eq_some_iff.mp h
        cases hno
    · cases h
  · obtain ⟨_, -, hno⟩ := map_eq_some_iff.mp h
    cases hno

theorem percentDecode_eq (room : ℕ) (path : List UInt8) :
    percentDecode room path = (decode path).filter fun decoded => decoded.length ≤ room := by
  induction room generalizing path with
  | zero =>
    cases path with
    | nil => rfl
    | cons c s =>
      unfold percentDecode
      cases hdecode : decode (c :: s) with
      | none => rfl
      | some decoded =>
        have hne := decode_ne_nil hdecode
        rw [filter_some, if_neg]
        simpa using hne
  | succ room ih =>
    have hcons : ∀ (b : UInt8) (o : Option (List UInt8)),
        (o.filter fun decoded => decoded.length ≤ room).map (b :: ·) =
          (o.map (b :: ·)).filter fun decoded => decoded.length ≤ room + 1 := by
      intro b o
      cases o with
      | none => rfl
      | some decoded =>
        rw [map_some, filter_some, filter_some, length_cons]
        by_cases hle : decoded.length ≤ room
        · rw [if_pos (by simpa using hle), if_pos (by simpa using hle)]
          rfl
        · rw [if_neg (by simpa using hle), if_neg (by simpa using hle)]
          rfl
    cases path with
    | nil => rfl
    | cons c s =>
      unfold percentDecode decode
      split
      · split
        · next h l rest =>
          cases escaped h l with
          | none => rfl
          | some b =>
            dsimp only
            rw [ih, hcons]
        · rfl
      · rw [ih, hcons]

/-- There is always room for the segments of a text. -/
theorem emit_eq {ws : List (List UInt8)} {out : List UInt8}
    (h : out.length + (ws.map fun w => w.length + 1).sum < PATH_ROOM) :
    emit ws out = some (out ++ (ws.map (List.map lower)).flatMap fun w => SLASH :: w) := by
  induction ws generalizing out with
  | nil =>
    rw [map_nil, flatMap_nil, append_nil]
    rfl
  | cons w ws ih =>
    rw [map_cons, sum_cons] at h
    unfold emit
    rw [if_neg (by omega), ih, map_cons, flatMap_cons, append_assoc]
    rw [length_append, length_cons, length_map]
    omega

/-- **A path is compared by what it names**, where there is room for it. -/
theorem normalizePath_eq (h : WithinLimits path) :
    normalizePath path = (resource path).map render := by
  unfold normalizePath resource
  rw [percentDecode_eq]
  cases hdecode : decode path with
  | none => rfl
  | some decoded =>
    obtain ⟨hroom, hfits⟩ := h decoded hdecode
    have hle : decoded.length ≤ PATH_ROOM - 1 := Nat.le_sub_one_of_lt hroom
    rw [filter_some, if_pos (decide_eq_true hle)]
    dsimp only
    by_cases hslash : decoded.head? = some SLASH
    · rw [if_neg (not_not.mpr hslash), if_pos hslash, walk_eq_some hfits]
      dsimp only
      obtain ⟨rest, rfl⟩ : ∃ rest, decoded = SLASH :: rest := head?_eq_some_iff.mp hslash
      have hlen : ([] : List UInt8).length +
          ((resolve DOT (segments SLASH (SLASH :: rest))).map fun w => w.length + 1).sum <
            PATH_ROOM := by
        have hsub := ((@resolve_sublist _ _ DOT (segments SLASH (SLASH :: rest))).map
          fun w => w.length + 1).sum_le_sum fun _ _ => Nat.zero_le _
        have hseg := @length_segments _ _ SLASH rest
        rw [length_cons] at hroom
        rw [length_nil]
        omega
      rw [emit_eq hlen, nil_append, ← named_eq, map_some, map_some]
      unfold render
      cases named (SLASH :: rest) with
      | nil => rfl
      | cons w ws => rfl
    · rw [if_pos hslash, if_neg hslash]
      rfl

/-! ### Subtrees -/

/-- The path of a subtree, or one below it. -/
def Under (root path : List UInt8) : Prop := path = root ∨ root ++ [SLASH] <+: path

theorem prefixMatch_iff {root : List UInt8} : prefixMatch path root = true ↔ Under root path := by
  unfold prefixMatch Under
  rw [Bool.and_eq_true, isPrefixOf_iff_prefix]
  constructor
  · rintro ⟨⟨rest, rfl⟩, hnext⟩
    rw [drop_left] at hnext
    cases rest with
    | nil => exact .inl (append_nil _)
    | cons c rest =>
      obtain rfl : c = SLASH := of_decide_eq_true hnext
      exact .inr ⟨rest, by rw [append_assoc]; rfl⟩
  · rintro (rfl | ⟨rest, rfl⟩)
    · rw [drop_length]
      exact ⟨prefix_rfl, rfl⟩
    · rw [append_assoc, drop_left]
      exact ⟨prefix_append .., rfl⟩

/-- A route that is not closed has a form, which lies in no closed subtree. -/
theorem routeForbidden_eq_false {method path : Option (List UInt8)}
    (h : routeForbidden method path = false) : ∃ p norm, path = some p ∧ normalizePath p = some norm ∧
      (∀ root ∈ FORBIDDEN, ¬Under root norm) ∧
      (Under STORAGE_FILES norm → methodIsReadonly method = true) := by
  unfold routeForbidden at h
  cases hnorm : path.bind normalizePath with
  | none =>
    rw [hnorm] at h
    cases h
  | some norm =>
    rw [hnorm] at h
    dsimp only at h
    obtain ⟨p, rfl, hp⟩ := bind_eq_some_iff.mp hnorm
    rw [Bool.or_eq_false_iff] at h
    refine ⟨p, norm, rfl, hp, fun root hroot hunder => ?_, fun hunder => ?_⟩
    · exact List.any_eq_false.mp h.1 root hroot (prefixMatch_iff.mpr hunder)
    · have hstorage := h.2
      rw [prefixMatch_iff.mpr hunder, Bool.true_and, Bool.not_eq_false'] at hstorage
      exact hstorage

end DreamingOS.ApiKey
