import DreamingOS.Passkey.CborReader

namespace DreamingOS.Passkey

open Option

open Cbor (Head head Ends)

/-!
# What the passkey CBOR reader can be trusted with

A string's length is added to its position before the sum is compared with the buffer's length, a
negative integer is computed from the signed reading of its number, and the calls that skip an item
nest as deep as the item does. `sound_iff` says exactly which buffers this spares.

* `Sound` — what is asked of a call of the two functions at a position;
* `Calls`, `Met` — the calls made to skip an item, and the heads met on the way through it;
* `skip_exact` — skipping succeeds on the well-formed items and on nothing else.
-/

/-! ### One head -/

/-- How many items the reader expects inside an item. -/
def CborItem.children : CborItem → ℕ
  | .array count => count
  | .map count => 2 * count
  | _ => 0

/-- The bytes of a string lie within the buffer. -/
def CborItem.Inside (buf : Buffer) : CborItem → Prop
  | .bstr data len | .tstr data len => data + len ≤ buf.bytes.length
  | _ => True

/-- The item says what its head says. -/
def CborItem.Exact (h : Head) : CborItem → Prop
  | .uint val => h.major = 0 ∧ val = h.arg
  | .nint val => h.major = 1 ∧ val = -1 - (h.arg : ℤ)
  | .bstr data len => h.major = 2 ∧ data = h.next ∧ len = h.arg
  | .tstr data len => h.major = 3 ∧ data = h.next ∧ len = h.arg
  | .array count => h.major = 4 ∧ count = h.arg
  | .map count => h.major = 5 ∧ count = h.arg
  | .simple val => h.major = 7 ∧ val = h.arg

theorem toInt64_eq {val : ℕ} (h : val < 2 ^ 64) :
    toInt64 val = if val < 2 ^ 63 then (val : ℤ) else (val : ℤ) - 2 ^ 64 := by
  unfold toInt64
  rw [Int.bmod_def]
  split <;> split <;> omega

section

variable {buf : Buffer} {h : Head} {item : CborItem} {q : ℕ}

/-- An item that was read ends where its head says, if the sum of position and length is right. -/
theorem ofHead_stop (hnext : h.next ≤ buf.bytes.length)
    (hstring : h.isString = true → h.stop < 2 ^ 64) (hread : ofHead buf h = some (item, q)) :
    q = h.stop ∧ h.stop ≤ buf.bytes.length ∧ item.children = h.children ∧ h.major ≠ 6 := by
  unfold ofHead at hread
  split at hread
  case h_3 hmajor | h_4 hmajor =>
    have hisString : h.isString = true := by simp [Head.isString, hmajor]
    have hstop : h.stop = h.next + h.arg := if_pos hisString
    have hlt := hstring hisString
    rw [sizeAdd_eq (by omega)] at hread
    split at hread
    · cases hread
    cases hread
    refine ⟨hstop.symm, by omega, ?_, by omega⟩
    simp [CborItem.children, Head.children, hmajor]
  case h_8 => cases hread
  all_goals
    next hmajor =>
      cases hread
      simp [Head.stop, Head.isString, CborItem.children, Head.children, hmajor, hnext]

/-- An item that fits into the buffer is read. -/
theorem ofHead_of_stop (hmajor : h.major < 8) (htag : h.major ≠ 6)
    (hstop : h.stop ≤ buf.bytes.length) :
    ∃ item, ofHead buf h = some (item, h.stop) ∧ item.children = h.children := by
  have hfits := buf.fits
  by_cases hisString : h.isString = true
  · have hend : h.stop = h.next + h.arg := if_pos hisString
    rw [hend] at hstop
    have hsum : sizeAdd h.next h.arg = h.next + h.arg := sizeAdd_eq (by omega)
    rw [Head.isString, Bool.or_eq_true, beq_iff_eq, beq_iff_eq] at hisString
    unfold ofHead Head.children
    rcases hisString with hmajor | hmajor <;>
    · rw [hmajor, hend]
      refine ⟨_, (if_neg ?_).trans (by rw [hsum]), rfl⟩
      omega
  · have hend : h.stop = h.next := if_neg hisString
    rw [Head.isString, Bool.or_eq_true, beq_iff_eq, beq_iff_eq] at hisString
    unfold ofHead Head.children
    rw [hend]
    have hrest : h.major = 0 ∨ h.major = 1 ∨ h.major = 4 ∨ h.major = 5 ∨ h.major = 7 := by omega
    rcases hrest with hmajor | hmajor | hmajor | hmajor | hmajor <;>
    · rw [hmajor]
      exact ⟨_, rfl, rfl⟩

theorem ofHead_exact (harg : h.arg < 2 ^ 64) (hnint : h.major = 1 → h.arg < 2 ^ 63)
    (hread : ofHead buf h = some (item, q)) : item.Exact h := by
  unfold ofHead at hread
  split at hread
  case h_2 hmajor =>
    cases hread
    refine ⟨hmajor, ?_⟩
    rw [toInt64_eq harg, if_pos (hnint hmajor)]
  case h_3 hmajor | h_4 hmajor =>
    split at hread
    · cases hread
    · cases hread
      exact ⟨hmajor, rfl, rfl⟩
  case h_8 => cases hread
  all_goals
    next hmajor =>
      cases hread
      exact ⟨hmajor, rfl⟩

theorem inside_of_exact (hexact : item.Exact h) (hstop : h.stop ≤ buf.bytes.length) :
    item.Inside buf := by
  cases item with
  | bstr data len | tstr data len =>
    obtain ⟨hmajor, rfl, rfl⟩ := hexact
    unfold Head.stop Head.isString at hstop
    rw [hmajor] at hstop
    exact hstop
  | _ => trivial

end

/-! ### Loops -/

theorem skipArray_succ (skip : ℕ → Except Stop ℕ) (n p : ℕ) :
    skipArray skip (n + 1) p = skipArray skip n p >>= skip := by
  induction n generalizing p with
  | zero =>
    show (skip p >>= fun q => Except.ok q) = skip p
    cases skip p <;> rfl
  | succ n ih =>
    show (skip p >>= fun q => skipArray skip (n + 1) q) = _
    cases hskip : skip p with
    | error e =>
      show _ = (skip p >>= fun q => skipArray skip n q) >>= skip
      rw [hskip]
      rfl
    | ok q =>
      show skipArray skip (n + 1) q = (skip p >>= fun q => skipArray skip n q) >>= skip
      rw [ih q, hskip]
      rfl

/-- The entries of a map are skipped as twice as many items of an array. -/
theorem skipMap_eq (skip : ℕ → Except Stop ℕ) (n p : ℕ) :
    skipMap skip n p = skipArray skip (2 * n) p := by
  induction n generalizing p with
  | zero => rfl
  | succ n ih =>
    show (skip p >>= fun q => skip q >>= fun r => skipMap skip n r) =
      (skip p >>= fun q => skip q >>= fun r => skipArray skip (2 * n) r)
    simp only [ih]

/-- **Skipping an item is reading its head and skipping the items in it.** -/
theorem skipItem_succ (buf : Buffer) (depth p : ℕ) : skipItem buf (depth + 1) p =
      match decodeItem buf p with
      | none => .error .failed
      | some (item, q) => skipArray (skipItem buf depth) item.children q := by
  rw [skipItem]
  cases decodeItem buf p with
  | none => rfl
  | some out =>
    obtain ⟨item, q⟩ := out
    cases item with
    | map count => exact skipMap_eq _ count q
    | _ => rfl

section

variable {bytes : List UInt8} {skip : ℕ → Except Stop ℕ} {n p : ℕ}

/-- A loop over items each of which is skipped exactly is exact. -/
theorem skipArray_exact
    (hskip : ∀ k < n, ∀ q, Ends bytes k p q →
      skip q ≠ .error .deep ∧ ∀ r, skip q = .ok r ↔ Ends bytes 1 q r) :
    skipArray skip n p ≠ .error .deep ∧ ∀ q, skipArray skip n p = .ok q ↔ Ends bytes n p q := by
  induction n with
  | zero =>
    refine ⟨by simp [skipArray], fun q => ?_⟩
    rw [Cbor.ends_zero]
    exact ⟨Except.ok.inj, congrArg _⟩
  | succ n ih =>
    obtain ⟨hdeep, hends⟩ := ih fun k hk => hskip k (by omega)
    rw [skipArray_succ]
    cases hloop : skipArray skip n p with
    | error e =>
      rw [hloop] at hdeep hends
      refine ⟨hdeep, fun q => ⟨fun h => (nomatch h), fun h => ?_⟩⟩
      obtain ⟨mid, hmid, -⟩ := Cbor.ends_succ.mp h
      exact nomatch (hends mid).mpr hmid
    | ok mid =>
      have hmid := (hends mid).mp hloop
      obtain ⟨hlast, hexact⟩ := hskip n (by omega) mid hmid
      refine ⟨hlast, fun q => (hexact q).trans ?_⟩
      refine Iff.trans ?_ Cbor.ends_succ.symm
      constructor
      · exact fun h => ⟨mid, hmid, h⟩
      · rintro ⟨mid', hmid', h⟩
        rwa [hmid.det hmid']

end

/-! ### Heads met and calls made -/

/-- In reading the item at a position, so many levels below it, a head is met at a position. A
    tag is met, what it tags is not. -/
inductive Met (bytes : List UInt8) : ℕ → ℕ → ℕ → Prop
  | self {pos : ℕ} : Met bytes pos 0 pos
  | child {pos level p k q : ℕ} {h : Head} (hhead : head bytes pos = some h) (htag : h.major ≠ 6)
      (hstop : h.stop ≤ bytes.length) (hk : k < h.children) (hends : Ends bytes k h.stop q)
      (hmet : Met bytes q level p) : Met bytes pos (level + 1) p

/-- A head the reader gets right: position and length of a string do not exceed the greatest
    `size_t`, a negative integer is an `int64_t`, and no well-formed item has a tag. -/
structure Fine (buf : Buffer) (p : ℕ) : Prop where
  string : ∀ h, head buf.bytes p = some h → h.isString = true → h.stop < 2 ^ 64
  nint : ∀ h, head buf.bytes p = some h → h.major = 1 → h.arg < 2 ^ 63
  tag : ∀ h, head buf.bytes p = some h → h.major = 6 → ∀ q, ¬ Ends buf.bytes 1 p q

/-- The calls of `webd_cbor_skip_item` made by a call, each with the nesting left to it. -/
inductive Calls (buf : Buffer) : ℕ → ℕ → ℕ → ℕ → Prop
  | self {depth pos : ℕ} : Calls buf depth pos depth pos
  | child {depth pos d p next k q : ℕ} {item : CborItem}
      (hdecode : decodeItem buf pos = some (item, next)) (hk : k < item.children)
      (hskip : skipArray (skipItem buf depth) k next = .ok q) (hcall : Calls buf depth q d p) :
      Calls buf (depth + 1) pos d p

/-- What is asked of the two functions at a position, with calls nested at most so deep. -/
structure Sound (buf : Buffer) (depth p : ℕ) : Prop where
  decode : ∀ item q, decodeItem buf p = some (item, q) →
    p < q ∧ q ≤ buf.bytes.length ∧ item.Inside buf ∧ ∃ h, head buf.bytes p = some h ∧ item.Exact h
  terminates : skipItem buf depth p ≠ .error .deep
  skip : ∀ q, skipItem buf depth p = .ok q → p < q ∧ q ≤ buf.bytes.length
  exact : ∀ q, Ends buf.bytes 1 p q → skipItem buf depth p = .ok q
variable {depth : ℕ}


section

variable {buf : Buffer} {pos p : ℕ} {item : CborItem} {q : ℕ}

/-- What is read at a fine head. -/
theorem decodeItem_fine (hfine : Fine buf p) (hread : decodeItem buf p = some (item, q)) :
    ∃ h, head buf.bytes p = some h ∧ q = h.stop ∧ h.stop ≤ buf.bytes.length ∧
      item.children = h.children ∧ h.major ≠ 6 ∧ item.Exact h := by
  rw [decodeItem_eq, bind_eq_some_iff] at hread
  obtain ⟨h, hhead, hread⟩ := hread
  obtain ⟨hq, hstop, hchildren, htag⟩ :=
    ofHead_stop (Cbor.head_next hhead).2 (hfine.string h hhead) hread
  exact ⟨h, hhead, hq, hstop, hchildren, htag,
    ofHead_exact (Cbor.head_arg_lt hhead) (hfine.nint h hhead) hread⟩

/-- An untagged head whose item fits into the buffer is read. -/
theorem decodeItem_of_head {h : Head} (hhead : head buf.bytes p = some h) (htag : h.major ≠ 6)
    (hstop : h.stop ≤ buf.bytes.length) :
    ∃ item, decodeItem buf p = some (item, h.stop) ∧ item.children = h.children := by
  obtain ⟨item, hread, hchildren⟩ := ofHead_of_stop (Cbor.head_major_lt hhead) htag hstop
  refine ⟨item, ?_, hchildren⟩
  rw [decodeItem_eq, hhead]
  exact hread

/-- **Where all heads met are fine and nest no deeper than allowed, skipping succeeds on the
    well-formed items and on nothing else.** -/
theorem skip_exact (hmet : ∀ level p, Met buf.bytes pos level p → level < depth ∧ Fine buf p) :
    skipItem buf depth pos ≠ .error .deep ∧
      ∀ q, skipItem buf depth pos = .ok q ↔ Ends buf.bytes 1 pos q := by
  induction depth generalizing pos with
  | zero => exact absurd (hmet 0 pos .self).1 (by omega)
  | succ depth ih =>
    have hfine := (hmet 0 pos .self).2
    rw [skipItem_succ]
    cases hread : decodeItem buf pos with
    | none =>
      refine ⟨nofun, fun q => ⟨nofun, fun hends => ?_⟩⟩
      -- a well-formed item that is not read has a tag
      obtain ⟨h, hhead, hstop, -⟩ := Cbor.ends_one.mp hends
      by_cases htag : h.major = 6
      · exact absurd hends (hfine.tag h hhead htag q)
      obtain ⟨item, hsome, -⟩ := decodeItem_of_head hhead htag hstop
      rw [hread] at hsome
      cases hsome
    | some out =>
      obtain ⟨item, next⟩ := out
      obtain ⟨h, hhead, rfl, hstop, hchildren, htag, -⟩ := decodeItem_fine hfine hread
      obtain ⟨hdeep, hends⟩ := skipArray_exact (n := item.children)
        (p := h.stop) fun k hk q hq => ih fun level p hp => by
          have hk' : k < h.children := hchildren ▸ hk
          obtain ⟨hlevel, hfine⟩ := hmet (level + 1) p (.child hhead htag hstop hk' hq hp)
          exact ⟨by omega, hfine⟩
      refine ⟨hdeep, fun q => (hends q).trans ?_⟩
      rw [Cbor.ends_one, hchildren]
      constructor
      · exact fun hq => ⟨h, hhead, hstop, hq⟩
      · rintro ⟨h', hhead', -, hq⟩
        obtain rfl := some.inj (hhead.symm.trans hhead')
        exact hq

/-- A call at fine heads does what is asked of it. -/
theorem sound_of_fine (hmet : ∀ level p, Met buf.bytes pos level p → level < depth ∧ Fine buf p) :
    Sound buf depth pos := by
  obtain ⟨hdeep, hexact⟩ := skip_exact hmet
  refine ⟨fun item q hread => ?_, hdeep, fun q hskip => ((hexact q).mp hskip).lt_le,
    fun q hends => (hexact q).mpr hends⟩
  obtain ⟨h, hhead, rfl, hstop, -, -, hsays⟩ := decodeItem_fine (hmet 0 pos .self).2 hread
  have hlt := (Cbor.head_next hhead).1
  have hle := h.next_le_stop
  exact ⟨by omega, hstop, inside_of_exact hsays hstop, h, hhead, hsays⟩

/-- The calls made at fine heads are made where items end. -/
theorem met_of_call {next k : ℕ}
    (hmet : ∀ level p, Met buf.bytes pos level p → level < depth + 1 ∧ Fine buf p)
    (hread : decodeItem buf pos = some (item, next)) (hk : k < item.children)
    (hskip : skipArray (skipItem buf depth) k next = .ok q) (level p : ℕ)
    (hp : Met buf.bytes q level p) : level < depth ∧ Fine buf p := by
  obtain ⟨h, hhead, rfl, hstop, hchildren, htag, -⟩ := decodeItem_fine (hmet 0 pos .self).2 hread
  have inner : ∀ j < h.children, ∀ r, Ends buf.bytes j h.stop r →
      ∀ level p, Met buf.bytes r level p → level < depth ∧ Fine buf p := by
    intro j hj r hr level p hp
    obtain ⟨hlevel, hfine⟩ := hmet (level + 1) p (.child hhead htag hstop hj hr hp)
    exact ⟨by omega, hfine⟩
  rw [hchildren] at hk
  have hends := (skipArray_exact (n := k) fun j hj r hr =>
    skip_exact (inner j (by omega) r hr)).2 q
  exact inner k hk q (hends.mp hskip) level p hp

/-- A head is fine where the reader does what is asked of it. -/
theorem fine_of_sound (hsound : Sound buf depth p) : Fine buf p := by
  have hfits := buf.fits
  refine ⟨fun h hhead hstring => ?_, fun h hhead hmajor => ?_, fun h hhead hmajor q hends => ?_⟩
  · -- otherwise the sum wraps, and the string that is returned is not in the buffer
    by_contra hlarge
    have hnext := (Cbor.head_next hhead).2
    have harg := Cbor.head_arg_lt hhead
    have hstop : h.stop = h.next + h.arg := if_pos hstring
    have hsum : sizeAdd h.next h.arg = h.next + h.arg - 2 ^ 64 := by
      unfold sizeAdd
      omega
    have hnot : ¬ sizeAdd h.next h.arg > buf.bytes.length := by omega
    have hread : ∃ item q, decodeItem buf p = some (item, q) ∧
        (item = .bstr h.next h.arg ∨ item = .tstr h.next h.arg) := by
      rw [decodeItem_eq, hhead]
      show ∃ item q, ofHead buf h = _ ∧ _
      rw [Head.isString, Bool.or_eq_true, beq_iff_eq, beq_iff_eq] at hstring
      unfold ofHead
      rcases hstring with hmajor | hmajor
      · rw [hmajor]
        exact ⟨_, _, if_neg hnot, .inl rfl⟩
      · rw [hmajor]
        exact ⟨_, _, if_neg hnot, .inr rfl⟩
    obtain ⟨item, q, hread, hitem⟩ := hread
    obtain ⟨-, -, hinside, -⟩ := hsound.decode item q hread
    have hbounds : h.next + h.arg ≤ buf.bytes.length := by
      rcases hitem with rfl | rfl <;> exact hinside
    omega
  · by_contra hlarge
    have harg := Cbor.head_arg_lt hhead
    have hread : decodeItem buf p = some (.nint (-1 - toInt64 h.arg), h.next) := by
      rw [decodeItem_eq, hhead]
      show ofHead buf h = _
      unfold ofHead
      rw [hmajor]
      rfl
    obtain ⟨-, -, -, h', hhead', hsays⟩ := hsound.decode _ _ hread
    obtain rfl := some.inj (hhead.symm.trans hhead')
    have hval := hsays.2
    rw [toInt64_eq harg, if_neg hlarge] at hval
    omega
  · have hread : decodeItem buf p = none := by
      rw [decodeItem_eq, hhead]
      show ofHead buf h = _
      unfold ofHead
      rw [hmajor]
      rfl
    have hskip := hsound.exact q hends
    cases depth with
    | zero => cases hskip
    | succ depth =>
      rw [skipItem_succ, hread] at hskip
      cases hskip

/-- Where all calls do what is asked of them, the items before an item are skipped. -/
theorem skipArray_of_sound {n next : ℕ}
    (hsound : ∀ k < n, ∀ r, skipArray (skipItem buf depth) k next = .ok r → Sound buf depth r)
    (hends : Ends buf.bytes n next q) : skipArray (skipItem buf depth) n next = .ok q := by
  induction n generalizing q with
  | zero =>
    rw [Cbor.ends_zero] at hends
    rw [hends]
    rfl
  | succ n ih =>
    obtain ⟨mid, hfirst, hlast⟩ := Cbor.ends_succ.mp hends
    have hloop := ih (fun k hk => hsound k (by omega)) hfirst
    rw [skipArray_succ, hloop]
    exact (hsound n (by omega) mid hloop).exact q hlast

/-- **The calls made to skip an item do what is asked of them exactly when the heads met are fine
    and nest no deeper than the calls may.** -/
theorem sound_iff (buf : Buffer) (depth pos : ℕ) :
    (∀ d p, Calls buf depth pos d p → Sound buf d p) ↔
      ∀ level p, Met buf.bytes pos level p → level < depth ∧ Fine buf p := by
  induction depth generalizing pos with
  | zero =>
    constructor
    · intro hcalls
      exact absurd rfl (hcalls 0 pos .self).terminates
    · intro hmet
      exact absurd (hmet 0 pos .self).1 (by omega)
  | succ depth ih =>
    constructor
    · intro hcalls level p hp
      have hfine := fine_of_sound (hcalls (depth + 1) pos .self)
      cases hp with
      | self => exact ⟨by omega, hfine⟩
      | @child _ level _ k q h hhead htag hstop hk hends hmet =>
        obtain ⟨item, hread, hchildren⟩ := decodeItem_of_head hhead htag hstop
        have hskip : skipArray (skipItem buf depth) k h.stop = .ok q := by
          refine skipArray_of_sound (fun j hj r hr => ?_) hends
          exact hcalls depth r (.child hread (by omega) hr .self)
        have inner := (ih q).mp fun d p hcall =>
          hcalls d p (.child hread (by omega) hskip hcall)
        obtain ⟨hlevel, hp⟩ := inner level p hmet
        exact ⟨by omega, hp⟩
    · intro hmet d p hcall
      cases hcall with
      | self => exact sound_of_fine hmet
      | child hread hk hskip hcall =>
        exact (ih _).mpr (met_of_call hmet hread hk hskip) d p hcall

end

/-! ### Buffers it cannot be trusted with -/

/-- An array of two items, the first of which is a string that ends before it starts. -/
def endless : Buffer where
  bytes := [0x82, 0x5b, 0xff, 0xff, 0xff, 0xff, 0xff, 0xff, 0xff, 0xf6]
  fits := by decide

/-- The negative integer that is one less than the least `int64_t`. -/
def tooSmall : Buffer where
  bytes := [0x3b, 0x80, 0, 0, 0, 0, 0, 0, 0]
  fits := by decide

/-- Arrays of one item inside each other. -/
def nested (n : ℕ) (h : n < 2 ^ 63) : Buffer where
  bytes := List.replicate n 0x81
  fits := by rwa [List.length_replicate]

theorem skip_endless (depth : ℕ) : skipItem endless depth 0 = .error .deep := by
  have hstring : decodeItem endless 1 = some (.bstr 10 (2 ^ 64 - 10), 0) := by decide +kernel
  have harray : decodeItem endless 0 = some (.array 2, 1) := by decide +kernel
  induction depth with
  | zero => rfl
  | succ depth ih =>
    rw [skipItem_succ, harray]
    show skipArray (skipItem endless depth) 2 1 = _
    cases depth with
    | zero => rfl
    | succ depth =>
      have hback : skipItem endless (depth + 1) 1 = .ok 0 := by
        rw [skipItem_succ, hstring]
        rfl
      show (skipItem endless (depth + 1) 1 >>= fun q => skipArray _ 1 q) = _
      rw [hback]
      show (skipItem endless (depth + 1) 0 >>= fun q => skipArray _ 0 q) = _
      rw [ih]
      rfl

/-- Items nest as deep as the buffer is long. -/
theorem skip_nested {n p : ℕ} (h : n < 2 ^ 63) (hle : p + depth ≤ n) :
    skipItem (nested n h) depth p = .error .deep := by
  induction depth generalizing p with
  | zero => rfl
  | succ depth ih =>
    have hbyte : (nested n h).bytes[p]? = some 0x81 := List.getElem?_replicate_of_lt (by omega)
    have hread : decodeItem (nested n h) p = some (.array 1, p + 1) := by
      rw [decodeItem_eq, Cbor.head_eq hbyte]
      have hwidth : Cbor.argWidth ((0x81 : UInt8).toNat % 32) = some 0 := rfl
      rw [hwidth, bind_some, if_pos]
      · rfl
      · show p + 1 + 0 ≤ (List.replicate n (0x81 : UInt8)).length
        rw [List.length_replicate]
        omega
    rw [skipItem_succ, hread]
    show (skipItem (nested n h) depth (p + 1) >>= fun q => skipArray _ 0 q) = _
    rw [ih (by omega)]
    rfl

/-- **No bound on the nesting does for all buffers, one short item is never skipped at all, and the
    string and the integer read from two buffers are wrong.** -/
theorem reader_unsound : (¬ ∃ depth, ∀ buf pos d p, Calls buf depth pos d p → Sound buf d p) ∧
      (∀ depth, skipItem endless depth 0 = .error .deep) ∧
      decodeItem endless 1 = some (.bstr 10 (2 ^ 64 - 10), 0) ∧
      decodeItem tooSmall 0 = some (.nint (2 ^ 63 - 1), 9) ∧
      ∀ depth (h : depth < 2 ^ 63), skipItem (nested depth h) depth 0 = .error .deep := by
  refine ⟨?_, skip_endless, by decide +kernel, by decide +kernel,
    fun depth h => skip_nested h (by omega)⟩
  rintro ⟨depth, hsound⟩
  exact (hsound endless 0 depth 0 .self).terminates (skip_endless depth)

end DreamingOS.Passkey
