import DreamingOS.Snapshot.Codec

namespace DreamingOS.Snapshot

open Text List Option

/-!
# Configuration snapshots — known streams

Libraries and a vault that can be evaluated.

* `knownLibs` — the digest of one text and the zlib stream of one body, as they really are;
* `keyText`, `keySnapshot` — a configuration with one secret, and its snapshot.
-/

/-! ### Known streams -/

/-- A byte string with its end marked. -/
def stored : List UInt8 → List UInt8
  | [] => [0]
  | b :: bs => 1 :: b :: stored bs

def unstored : List UInt8 → Option (List UInt8)
  | [] => none
  | [m] => if m = 0 then some [] else none
  | m :: b :: bs => if m = 0 then none else (unstored bs).map (b :: ·)

theorem unstored_stored (bs : List UInt8) : unstored (stored bs) = some bs := by
  induction bs with
  | nil => rfl
  | cons b bs ih =>
    rw [stored, unstored, if_neg (by decide), ih]
    rfl

theorem unstored_truncated {bs part : List UInt8} (hpre : part <+: stored bs)
    (hne : part ≠ stored bs) : unstored part = none := by
  induction bs generalizing part with
  | nil =>
    rcases part with - | ⟨m, part⟩
    · rfl
    · obtain ⟨rfl, htail⟩ := cons_prefix_cons.mp hpre
      rw [prefix_nil.mp htail] at hne
      exact absurd rfl hne
  | cons b bs ih =>
    rcases part with - | ⟨m, - | ⟨c, part⟩⟩
    · rfl
    · obtain ⟨rfl, -⟩ := cons_prefix_cons.mp hpre
      rfl
    obtain ⟨hm, htail⟩ := cons_prefix_cons.mp hpre
    obtain ⟨hc, hrest⟩ := cons_prefix_cons.mp htail
    have hpart : part ≠ stored bs := fun heq => hne (by rw [hm, hc, heq, stored])
    rw [hm, unstored, if_neg (by decide), ih hrest hpart]
    rfl

/-- The libraries at one text with its body: the digest and the zlib stream are given, any other
    body is stored. -/
def knownLibs (plain digest body comp : List UInt8) : Libs where
  compress b := some (if b = body then comp else 0 :: stored b)
  uncompress c size :=
    if c = comp then if body.length ≤ size then some body else none
    else if c.head? = some 0 then (unstored c.tail).filter fun b => b.length ≤ size
    else none
  sha256 text := if text = plain then digest else List.replicate 32 0

theorem knownLibs_lawful {plain digest body comp : List UInt8} (hdigest : digest.length = 32)
    (hcomp : comp.head? = some 120) : (knownLibs plain digest body comp).Lawful where
  uncompress_compress := by
    intro b c size hc hsize
    cases hc
    by_cases hb : b = body
    · rw [if_pos hb, hb]
      show (if comp = comp then _ else _) = _
      rw [if_pos rfl, if_pos (hb ▸ hsize)]
    · have hne : 0 :: stored b ≠ comp := by
        rintro rfl
        exact absurd (some.inj hcomp) (by decide)
      rw [if_neg hb]
      show (if 0 :: stored b = comp then _ else _) = _
      rw [if_neg hne, head?_cons, if_pos rfl, tail_cons, unstored_stored]
      simp [hsize]
  compress_ne_nil := by
    intro b h
    have hnil := some.inj h
    split at hnil
    · simp [hnil] at hcomp
    · cases hnil
  uncompress_truncated := by
    intro b c part size hc hpre hne
    cases hc
    show (if part = comp then _ else _) = _
    by_cases hb : b = body
    · rw [if_pos hb] at hpre hne
      rw [if_neg hne]
      rcases part with - | ⟨m, part⟩
      · rfl
      -- a truncated stream begins as the stream does
      have hm : m = 120 := by
        obtain ⟨rest, rfl⟩ := hpre
        exact some.inj hcomp
      rw [hm]
      rfl
    · rw [if_neg hb] at hpre hne
      rcases part with - | ⟨m, part⟩
      · rw [if_neg fun h => by simp [← h] at hcomp]
        rfl
      obtain ⟨hm, htail⟩ := cons_prefix_cons.mp hpre
      have hcomp' : m :: part ≠ comp := by
        rintro rfl
        rw [hm] at hcomp
        exact absurd (some.inj hcomp) (by decide)
      have hpart : part ≠ stored b := fun heq => hne (by rw [hm, heq])
      rw [if_neg hcomp', hm, head?_cons, if_pos rfl, tail_cons, unstored_truncated htail hpart]
      rfl
  length_sha256 := by
    intro text
    show (if text = plain then digest else List.replicate 32 0).length = 32
    split
    · exact hdigest
    · rfl

/-- A vault that keeps the secrets in a list. -/
def listVault : Vault (List (List UInt8 × List UInt8)) where
  put v id secret := ((id, secret) :: v, true)
  get v id := v.lookup id
  del v id := v.filter fun p => p.1 ≠ id

def NETWORK : List UInt8 := ascii ['n', 'e', 't', 'w', 'o', 'r', 'k']

/-- A configuration with one secret, `option key 'x'`. -/
def keyText : List UInt8 :=
  [9, 111, 112, 116, 105, 111, 110, 32, 107, 101, 121, 32, 39, 120, 39, 10]

/-- The body of `keyText`. -/
def keyBody : List UInt8 :=
  [9, 111, 112, 116, 105, 111, 110, 32, 107, 101, 121, 32, 39, 64, 118, 97, 117, 108, 116, 58,
    110, 101, 116, 99, 102, 103, 45, 115, 110, 97, 112, 58, 110, 101, 116, 119, 111, 114, 107, 58,
    48, 39, 10]

/-- The zlib stream of `keyBody`. -/
def keyStream : List UInt8 :=
  [120, 156, 227, 204, 47, 40, 201, 204, 207, 83, 200, 78, 173, 84, 80, 119, 40, 75, 44, 205,
   41, 177, 202, 75, 45, 73, 78, 75, 215, 45, 206, 75, 44, 0, 177, 203, 243, 139, 178, 173, 12,
   212, 185, 0, 83, 213, 15, 46]

/-- The libraries at `keyText`. -/
def keyLibs : Libs :=
  knownLibs keyText
    [18, 85, 147, 218, 106, 55, 15, 31, 172, 178, 84, 250, 152, 51, 68, 49, 139, 76, 119, 3, 255,
     66, 203, 209, 27, 110, 92, 54, 229, 166, 119, 99]
    keyBody keyStream

theorem keyLibs_lawful : keyLibs.Lawful := knownLibs_lawful rfl rfl

/-- The snapshot of `keyText`. -/
def keySnapshot : List UInt8 := header keyLibs keyText keyBody ++ keyStream

end DreamingOS.Snapshot
