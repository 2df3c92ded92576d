import DreamingOS.Cloud.WebFrame
import DreamingOS.Lib.JsonRead
import DreamingOS.Lib.Outcome

namespace DreamingOS.Cloud

open JsonBytes List
open Value (arr obj str valid)
open Option (bind_eq_bind bind_some getD_some some_inj)

/-!
# Cloud frames — what decodes to what was encoded

The round trip of the control and web-frame schemas, for a lawful JSON library.

* `helloDecode_json` and its kin — a decoder on the object of its encoder;
* `Message`, `Message.Fits` — a value for one of the encoders, and when its text can be decoded;
* `schemas_roundtrip` — **a decoder returns what was encoded exactly when the text fits**: free text
  is UTF-8, services are not nested too deeply, and the text is no longer than a frame.
-/

variable {D : Type} {c : StrictJson D}

/-! ### Parsing what was emitted -/

/-- A member in the text of an object. -/
def memberSize (c : StrictJson D) (m : List UInt8 × Value D) : ℕ :=
  escapedSize m.1 + (c.print m.2).length + 4

theorem length_printMembers (c : StrictJson D) (ms : Members D) :
    (printMembers c.printDouble false ms).length = (ms.map (memberSize c)).sum := by
  induction ms with
  | nil => rfl
  | cons m ms ih =>
    obtain ⟨k, v⟩ := m
    rw [printMembers, map_cons, sum_cons, length_append, length_append,
      length_append, length_cons, ih, length_quote]
    show 1 + (escapedSize k + 2) + ((v.print c.printDouble).length + 1) + _ =
      escapedSize k + (v.print c.printDouble).length + 4 + _
    omega

/-- The text of an object: its members, with commas between them. -/
theorem length_print_obj (c : StrictJson D) (m : List UInt8 × Value D) (ms : Members D) :
    (c.print (.obj (m :: ms))).length = 1 + ((m :: ms).map (memberSize c)).sum := by
  obtain ⟨k, v⟩ := m
  show (0x7b :: (printMembers c.printDouble true ((k, v) :: ms) ++ [0x7d])).length = _
  rw [printMembers, length_cons, length_append, length_append, length_append,
    length_append, length_cons, length_printMembers, length_quote, map_cons,
    sum_cons]
  show 0 + (escapedSize k + 2) + ((v.print c.printDouble).length + 1) + _ + 1 + 1 =
    1 + (escapedSize k + (v.print c.printDouble).length + 4 + _)
  omega

variable {root : Members D}

/-- **Parsing what was emitted.** -/
theorem ctlParse_print (hc : c.Lawful) (hheld : (obj root).held = true) :
    ctlParse c (c.print (.obj root)) =
      if (c.print (.obj root)).length ≤ frameMax ∧ validMembers c.utf8 root = true ∧
        nestingMembers root ≤ maxNesting then some root else none := by
  have hne : c.print (.obj root) ≠ [] := cons_ne_nil _ _
  have hparse := hc.parse_print (.obj root) hheld
  unfold ctlParse
  by_cases hlong : frameMax < (c.print (.obj root)).length
  · rw [if_pos (.inr hlong), if_neg fun h => Nat.not_lt.mpr h.1 hlong]
  rw [if_neg (not_or.mpr ⟨hne, hlong⟩), hparse]
  by_cases hok : validMembers c.utf8 root = true ∧ nestingMembers root ≤ maxNesting
  · have hall : (obj root).valid c.utf8 = true ∧ (obj root).nesting ≤ maxNesting := hok
    rw [if_pos hall, if_pos ⟨Nat.not_lt.mp hlong, hok⟩]
  · have hnot : ¬ ((obj root).valid c.utf8 = true ∧ (obj root).nesting ≤ maxNesting) := hok
    rw [if_neg hnot, if_neg fun h => hok h.2]

variable {items : List (Value D)} {json : List UInt8}

/-- The arrays that come as texts are ones the library can write and parse again. -/
theorem of_ctlParseArray (hc : c.Lawful) (h : ctlParseArray c json = some items) :
    heldItems items = true ∧ validItems c.utf8 items = true ∧ nestingItems items ≤ maxNesting := by
  unfold ctlParseArray at h
  replace h := (Outcome.passed h nofun).2
  split at h
  · next items' hparse =>
    cases h
    exact hc.of_parse _ _ hparse
  · cases h

/-! ### Fields -/

theorem check_true : check true = some () := rfl

theorem toU32_toNat (n : UInt32) : toU32 (n.toNat : ℤ) = n := UInt32.ofNat_toNat

variable {o : Members D} {key : List UInt8}

theorem ctlStr_eq {s : List UInt8} {max : ℕ}
    (hlookup : lookup o key = some (.str s)) (hne : s ≠ []) (hmax : s.length ≤ max)
    (hprint : s.all printable = true) : ctlStr o key max = some s := by
  have hzero : 0 ∉ s := fun hmem => absurd (List.all_eq_true.mp hprint 0 hmem) (by decide)
  have hbad : ¬ (s = [] ∨ max < s.length ∨ 0 ∈ s) :=
    not_or.mpr ⟨hne, not_or.mpr ⟨Nat.not_lt.mpr hmax, hzero⟩⟩
  unfold ctlStr
  rw [hlookup]
  show (if s = [] ∨ max < s.length ∨ 0 ∈ s then none
    else if s.all printable = true then some s else none) = some s
  rw [if_neg hbad, if_pos hprint]

theorem ctlInt_eq {n lo hi : ℤ}
    (hlookup : lookup o key = some (.int n)) (hlo : lo ≤ n) (hhi : n ≤ hi) (hmax : n < 2 ^ 63) :
    ctlInt o key lo hi = some n := by
  have hmin : min n (2 ^ 63 - 1) = n := min_eq_left (by omega)
  unfold ctlInt
  rw [hlookup]
  show (if min n (2 ^ 63 - 1) < lo ∨ hi < min n (2 ^ 63 - 1) then none
    else some (min n (2 ^ 63 - 1))) = some n
  rw [hmin, if_neg (by omega)]

/-- A 32-bit field with a lower bound of one. -/
theorem ctlInt_u32 {n : UInt32}
    (hlookup : lookup o key = some (u32 n)) (hne : n ≠ 0) {hi : ℕ} (hhi : n.toNat ≤ hi) :
    ctlInt o key 1 hi = some (n.toNat : ℤ) := by
  have hpos : n.toNat ≠ 0 := fun h => hne (UInt32.toNat_inj.mp h)
  have hlt : n.toNat < 2 ^ 32 := n.toNat_lt
  exact ctlInt_eq hlookup (by omega) (by omega) (by omega)

theorem le_u32 (n : UInt32) : n.toNat ≤ 4294967295 := Nat.le_of_lt_succ n.toNat_lt

/-! ### Alphabets -/

variable {s : List UInt8}

/-- A text over an alphabet of printable ASCII characters. -/
theorem ascii_of_all {p : UInt8 → Bool} (hp : ∀ b, p b = true → printable b = true ∧ b < 0x80)
    (hs : s.all p = true) : s.all printable = true ∧ ∀ b ∈ s, b < 0x80 := by
  rw [List.all_eq_true] at hs
  exact ⟨List.all_eq_true.mpr fun b hb => (hp b (hs b hb)).1, fun b hb => (hp b (hs b hb)).2⟩

theorem lowerHex_ascii (h : ctlIsLowerHex s = true) : s.all printable = true ∧ ∀ b ∈ s, b < 0x80 :=
  ascii_of_all (by grind [printable]) h

theorem base64_ascii (h : ctlIsBase64 s = true) : s.all printable = true ∧ ∀ b ∈ s, b < 0x80 :=
  ascii_of_all (by grind [printable]) h

theorem routerId_ascii (h : ctlIsRouterId s = true) :
    s.all printable = true ∧ ∀ b ∈ s, b < 0x80 := by
  unfold ctlIsRouterId at h
  simp only [Bool.and_eq_true, decide_eq_true_eq] at h
  have hletters : (word "router-").all (fun b => isAlnum b || b = 0x2d) = true := rfl
  have hfront := ascii_of_all (by grind [printable, isAlnum]) hletters
  have hback := lowerHex_ascii h.2
  rw [← take_append_drop 7 s, h.1.2]
  refine ⟨by rw [all_append, hfront.1, hback.1]; rfl, fun b hb => ?_⟩
  obtain hb | hb := mem_append.mp hb
  · exact hfront.2 b hb
  · exact hback.2 b hb

/-! ### Emitted objects -/

variable {bytes : List UInt8} {cap : ℕ}

theorem ctlEmit_eq (h : ctlEmit c root cap = some bytes) : bytes = c.print (.obj root) := by
  unfold ctlEmit at h
  split at h
  · exact (Option.some.inj h).symm
  · cases h

theorem held_int {n : ℤ} (hlo : -(2 ^ 63) ≤ n) (hhi : n < 2 ^ 64) :
    (Value.int n : Value D).held = true := by
  rw [Value.held, Bool.and_eq_true, decide_eq_true_eq, decide_eq_true_eq]
  exact ⟨hlo, hhi⟩

@[simp] theorem held_u32 (n : UInt32) : (u32 n : Value D).held = true := by
  have hlt : n.toNat < 2 ^ 32 := n.toNat_lt
  exact held_int (by omega) (by omega)

@[simp] theorem held_str (s : List UInt8) : (str s : Value D).held = true := by
  rw [Value.held] <;> exact nofun

@[simp] theorem valid_u32 (n : UInt32) : (u32 n : Value D).valid c.utf8 = true := by
  rw [u32, valid] <;> exact nofun

@[simp] theorem valid_int (n : ℤ) : (Value.int n : Value D).valid c.utf8 = true := by
  rw [valid] <;> exact nofun

@[simp] theorem valid_str (s : List UInt8) :
    (str s : Value D).valid c.utf8 = c.utf8 s := by rw [valid]

@[simp] theorem nesting_u32 (n : UInt32) : (u32 n : Value D).nesting = 0 := rfl

@[simp] theorem nesting_int (n : ℤ) : (Value.int n : Value D).nesting = 0 := rfl

@[simp] theorem nesting_str (s : List UInt8) : (str s : Value D).nesting = 0 := rfl

theorem heldMembers_iff (ms : Members D) : heldMembers ms = true ↔ ∀ m ∈ ms, m.2.held = true := by
  induction ms with
  | nil => exact ⟨fun _ m hm => absurd hm not_mem_nil, fun _ => by rw [heldMembers]⟩
  | cons m ms ih => rw [heldMembers, Bool.and_eq_true, ih, forall_mem_cons]

theorem held_obj_iff (ms : Members D) : (obj ms).held = true ↔
    (ms.map Prod.fst).Nodup ∧ ∀ m ∈ ms, m.2.held = true := by
  rw [Value.held, Bool.and_eq_true, decide_eq_true_eq, heldMembers_iff]

theorem validMembers_iff (utf8 : List UInt8 → Bool) (ms : Members D) :
    validMembers utf8 ms = true ↔ (∀ k ∈ ms.map Prod.fst, utf8 k = true) ∧
      ∀ m ∈ ms, m.2.valid utf8 = true := by
  induction ms with
  | nil =>
    exact ⟨fun _ => ⟨fun k hk => absurd hk not_mem_nil, fun m hm => absurd hm not_mem_nil⟩,
      fun _ => rfl⟩
  | cons m ms ih =>
    rw [validMembers, Bool.and_eq_true, Bool.and_eq_true, ih, map_cons, forall_mem_cons,
      forall_mem_cons]
    tauto

theorem nestingMembers_le_iff (ms : Members D) (n : ℕ) :
    nestingMembers ms ≤ n + 1 ↔ ∀ m ∈ ms, m.2.nesting ≤ n := by
  induction ms with
  | nil => exact ⟨fun _ m hm => absurd hm not_mem_nil, fun _ => Nat.zero_le _⟩
  | cons m ms ih =>
    rw [nestingMembers, max_le_iff, ih, forall_mem_cons, Nat.add_le_add_iff_right]

theorem size_u32 (c : StrictJson D) (k : List UInt8) (n : UInt32) :
    memberSize c (k, u32 n) ≤ escapedSize k + 25 := by
  have hlt : n.toNat < 2 ^ 32 := n.toNat_lt
  have hlen : (printInt n.toNat).length ≤ 21 :=
    length_printInt_le (by rw [Int.natAbs_natCast]; omega)
  show escapedSize k + (printInt n.toNat).length + 4 ≤ _
  omega

theorem size_str (c : StrictJson D) (k s : List UInt8) :
    memberSize c (k, .str s) = escapedSize k + escapedSize s + 6 := by
  show escapedSize k + (quote s).length + 4 = _
  rw [length_quote]
  omega

/-- The names of an object are distinct texts of ASCII characters. -/
def PlainNames (names : List (List UInt8)) : Prop := names.Nodup ∧ ∀ k ∈ names, ∀ b ∈ k, b < 0x80

instance (names : List (List UInt8)) : Decidable (PlainNames names) :=
  have (k : List UInt8) : Decidable (∀ b ∈ k, b < 0x80) := List.decidableBAll _ k
  inferInstanceAs (Decidable (_ ∧ _))

/-- **Parsing what was emitted** under plain names. -/
theorem ctlParse_emitted (hc : c.Lawful)
    (henc : ctlEmit c root cap = some bytes) (hnames : PlainNames (root.map Prod.fst))
    (hheld : ∀ m ∈ root, m.2.held = true) : ctlParse c bytes =
      if bytes.length ≤ frameMax ∧ (∀ m ∈ root, m.2.valid c.utf8 = true) ∧
        ∀ m ∈ root, m.2.nesting ≤ 14 then some root else none := by
  have hkeys : ∀ k ∈ root.map Prod.fst, c.utf8 k = true := fun k hk => hc.ascii k (hnames.2 k hk)
  have hvalid := validMembers_iff c.utf8 root
  have hnesting := nestingMembers_le_iff root 14
  rw [ctlEmit_eq henc, ctlParse_print hc ((held_obj_iff root).mpr ⟨hnames.1, hheld⟩)]
  by_cases hok : (c.print (.obj root)).length ≤ frameMax ∧ (∀ m ∈ root, m.2.valid c.utf8 = true) ∧
      ∀ m ∈ root, m.2.nesting ≤ 14
  · rw [if_pos hok, if_pos ⟨hok.1, hvalid.mpr ⟨hkeys, hok.2.1⟩, hnesting.mpr hok.2.2⟩]
  · rw [if_neg hok, if_neg fun h => hok ⟨h.1, (hvalid.mp h.2.1).2, hnesting.mp h.2.2⟩]

/-! ### HELLO -/

theorem length_routerId (h : ctlIsRouterId s = true) : s.length = 39 := by
  unfold ctlIsRouterId at h
  simp only [Bool.and_eq_true, decide_eq_true_eq] at h
  exact h.1.1

variable {h : Hello}

/-- The decoder on the object of the encoder. -/
theorem helloDecode_json (hproto : h.proto = CW_WIRE_VERSION)
    (hrid : ctlIsRouterId h.relayRouterId = true) (hgen : h.generation ≠ 0)
    (hparse : ctlParse c bytes = some (helloJson h)) : helloDecode c bytes = some h := by
  have hstr : ctlStr (helloJson (D := D) h) (word "relay_router_id") CW_CTL_ROUTER_ID_LEN =
      some h.relayRouterId := by
    have hlen := length_routerId hrid
    have hne : h.relayRouterId ≠ [] := ne_nil_of_length_pos (by rw [hlen]; decide)
    exact ctlStr_eq rfl hne (Nat.le_of_eq hlen) (routerId_ascii hrid).1
  have hversion : ctlInt (helloJson (D := D) h) (word "proto") CW_WIRE_VERSION.toNat
      CW_WIRE_VERSION.toNat = some (h.proto.toNat : ℤ) := by
    have hone : (h.proto.toNat : ℤ) = 1 := by
      rw [hproto]
      rfl
    rw [hone]
    exact ctlInt_eq (by rw [← hone]; rfl) (by decide) (by decide) (by decide)
  have hgeneration : ctlInt (helloJson (D := D) h) (word "generation") 1 0xffffffff =
      some (h.generation.toNat : ℤ) := ctlInt_u32 rfl hgen (le_u32 _)
  have hkeys : ctlOnlyKeys (helloJson (D := D) h)
      [word "proto", word "relay_router_id", word "generation"] = true := rfl
  simp only [helloDecode, hparse, bind_eq_bind, bind_some, hstr, hkeys, check_true,
    hversion, hrid, hgeneration, toU32_toNat]

theorem hello_roundtrip (hc : c.Lawful)
    (henc : helloEncode c h cap = some bytes) : helloDecode c bytes = some h := by
  unfold helloEncode at henc
  obtain ⟨hok, henc⟩ := Outcome.passed henc nofun
  simp only [not_or, not_not, Bool.not_eq_false] at hok
  obtain ⟨hproto, hrid, hgen⟩ := hok
  have hsize : bytes.length ≤ frameMax := by
    have h1 := size_u32 c (word "proto") h.proto
    have h2 := size_str c (word "relay_router_id") h.relayRouterId
    have h3 := size_u32 c (word "generation") h.generation
    have hescaped := escapedSize_le h.relayRouterId
    rw [length_routerId hrid] at hescaped
    have hnames : escapedSize (word "proto") + escapedSize (word "relay_router_id") +
      escapedSize (word "generation") = 30 := by decide
    rw [ctlEmit_eq henc, helloJson, length_print_obj]
    show 1 + (memberSize c _ + (memberSize c _ + (memberSize c _ + 0))) ≤ 65536
    omega
  refine helloDecode_json hproto hrid hgen ?_
  have hnames : PlainNames [word "proto", word "relay_router_id", word "generation"] := by decide
  rw [ctlParse_emitted hc henc hnames (by simp [helloJson]), if_pos]
  refine ⟨hsize, ?_, by simp [helloJson]⟩
  simp [helloJson, hc.ascii _ (routerId_ascii hrid).2]

/-! ### WELCOME -/

theorem toNat_le {a b : UInt32} (h : ¬ b < a) : a.toNat ≤ b.toNat := by
  rw [UInt32.lt_iff_toNat_lt] at h
  exact Nat.not_lt.mp h

/-- The windows and the number of streams that an encoder lets pass. -/
structure LimitsOk (l : Limits) : Prop where
  someStreams : l.maxStreams ≠ 0
  maxStreams : ¬ maxStreamsLimit < l.maxStreams
  someWindow : l.streamWindow ≠ 0
  streamWindow : ¬ windowMax < l.streamWindow
  order : ¬ l.connWindow < l.streamWindow
  connWindow : ¬ windowMax < l.connWindow

variable {w : Welcome}

theorem welcomeDecode_json (hlen : w.sessionId.length = CW_CTL_SESSION_ID_LEN)
    (hhex : ctlIsLowerHex w.sessionId = true) (hgen : w.generation ≠ 0) (hhb : w.heartbeat ≠ 0)
    (hping : ¬ CW_WIRE_PING_TIMEOUT < w.heartbeat) (hlimits : LimitsOk w.limits)
    (hparse : ctlParse c bytes = some (welcomeJson w)) :
    welcomeDecode c bytes = some w := by
  have hsid : ctlStr (welcomeJson (D := D) w) (word "session_id") CW_CTL_SESSION_ID_LEN =
      some w.sessionId := by
    have hne : w.sessionId ≠ [] := ne_nil_of_length_pos (by rw [hlen]; decide)
    exact ctlStr_eq rfl hne (Nat.le_of_eq hlen) (lowerHex_ascii hhex).1
  have hkeys : ctlOnlyKeys (welcomeJson (D := D) w)
      [word "session_id", word "generation", word "heartbeat", word "limits"] = true := rfl
  have hgeneration : ctlInt (welcomeJson (D := D) w) (word "generation") 1 0xffffffff =
      some (w.generation.toNat : ℤ) := ctlInt_u32 rfl hgen (le_u32 _)
  have hheartbeat : ctlInt (welcomeJson (D := D) w) (word "heartbeat") 1
      CW_WIRE_PING_TIMEOUT.toNat = some (w.heartbeat.toNat : ℤ) :=
    ctlInt_u32 rfl hhb (toNat_le hping)
  have hmember : lookup (welcomeJson (D := D) w) (word "limits") =
      some (.obj (limitsJson w.limits)) := rfl
  have hlkeys : ctlOnlyKeys (limitsJson (D := D) w.limits)
      [word "max_streams", word "stream_window", word "conn_window"] = true := rfl
  have hstreams : ctlInt (limitsJson (D := D) w.limits) (word "max_streams") 1
      maxStreamsLimit.toNat = some (w.limits.maxStreams.toNat : ℤ) :=
    ctlInt_u32 rfl hlimits.someStreams (toNat_le hlimits.maxStreams)
  have hstream : ctlInt (limitsJson (D := D) w.limits) (word "stream_window") 1
      windowMax.toNat = some (w.limits.streamWindow.toNat : ℤ) :=
    ctlInt_u32 rfl hlimits.someWindow (toNat_le hlimits.streamWindow)
  have hconn : ctlInt (limitsJson (D := D) w.limits) (word "conn_window")
      w.limits.streamWindow.toNat windowMax.toNat = some (w.limits.connWindow.toNat : ℤ) := by
    have hlow := toNat_le hlimits.order
    have hhigh := toNat_le hlimits.connWindow
    have hmax := w.limits.connWindow.toNat_lt
    exact ctlInt_eq rfl (by omega) (by omega) (by omega)
  simp only [welcomeDecode, hparse, bind_eq_bind, bind_some, hsid, hkeys, check_true,
    hlen, hhex, decide_true, Bool.and_self, hgeneration, hheartbeat, hmember, hlkeys, hstreams,
    hstream, hconn, toU32_toNat]

theorem welcome_roundtrip (hc : c.Lawful)
    (henc : welcomeEncode c w cap = some bytes) : welcomeDecode c bytes = some w := by
  unfold welcomeEncode at henc
  obtain ⟨hok, henc⟩ := Outcome.passed henc nofun
  simp only [not_or, not_not, Bool.not_eq_false] at hok
  obtain ⟨hlen, hhex, hgen, hhb, hping, hms, hmslim, hsw, hswmax, horder, hcwmax⟩ := hok
  have hlimits : LimitsOk w.limits := ⟨hms, hmslim, hsw, hswmax, horder, hcwmax⟩
  have hinner : PlainNames [word "max_streams", word "stream_window", word "conn_window"] := by
    decide
  have hsize : bytes.length ≤ frameMax := by
    have h1 := size_str c (word "session_id") w.sessionId
    have h2 := size_u32 c (word "generation") w.generation
    have h3 := size_u32 c (word "heartbeat") w.heartbeat
    have h4 := size_u32 c (word "max_streams") w.limits.maxStreams
    have h5 := size_u32 c (word "stream_window") w.limits.streamWindow
    have h6 := size_u32 c (word "conn_window") w.limits.connWindow
    have hescaped := escapedSize_le w.sessionId
    rw [hlen] at hescaped
    have hconst : CW_CTL_SESSION_ID_LEN = 32 := rfl
    have houter : escapedSize (word "session_id") + escapedSize (word "generation") +
      escapedSize (word "heartbeat") + escapedSize (word "limits") = 35 := by decide
    have hnames : escapedSize (word "max_streams") + escapedSize (word "stream_window") +
      escapedSize (word "conn_window") = 35 := by decide
    have hlim : (c.print (.obj (limitsJson w.limits))).length = 1 +
        (memberSize c (word "max_streams", u32 w.limits.maxStreams) +
        (memberSize c (word "stream_window", u32 w.limits.streamWindow) +
        (memberSize c (word "conn_window", u32 w.limits.connWindow) + 0))) :=
      length_print_obj c _ _
    rw [ctlEmit_eq henc, welcomeJson, length_print_obj]
    show 1 + (memberSize c _ + (memberSize c _ + (memberSize c _ +
      (escapedSize (word "limits") + (c.print (.obj (limitsJson w.limits))).length + 4 + 0)))) ≤
        65536
    omega
  refine welcomeDecode_json hlen hhex hgen hhb hping hlimits ?_
  have hnames : PlainNames [word "session_id", word "generation", word "heartbeat",
    word "limits"] := by decide
  have hheld : (obj (limitsJson (D := D) w.limits)).held = true :=
    (held_obj_iff _).mpr ⟨hinner.1, by simp [limitsJson]⟩
  have hvalid : (obj (limitsJson (D := D) w.limits)).valid c.utf8 = true :=
    (validMembers_iff c.utf8 _).mpr ⟨fun k hk => hc.ascii k (hinner.2 k hk), by simp [limitsJson]⟩
  have hnesting : (obj (limitsJson (D := D) w.limits)).nesting ≤ 14 :=
    (nestingMembers_le_iff _ 13).mpr (by simp [limitsJson])
  rw [ctlParse_emitted hc henc hnames (by simp [welcomeJson, hheld]), if_pos]
  refine ⟨hsize, ?_, by simp [welcomeJson, hnesting]⟩
  simp [welcomeJson, hvalid, hc.ascii _ (lowerHex_ascii hhex).2]

/-! ### GENERATION -/

/-- An action has a name which is a short word, and which stands for it alone. -/
theorem ctlActionStr_eq {action : ℤ} {a : List UInt8} (h : ctlActionStr action = some a) :
    ctlActionFromStr a = some action ∧ a ≠ [] ∧ a.length ≤ 16 ∧ a.all printable = true ∧
      ∀ b ∈ a, b < 0x80 := by
  unfold ctlActionStr at h
  split_ifs at h with h1 h2 h3
  · cases h
    rw [h1]
    decide +kernel
  · cases h
    rw [h2]
    decide +kernel
  · cases h
    rw [h3]
    decide +kernel

theorem generation_roundtrip (hc : c.Lawful) {g : Generation}
    (henc : generationEncode c g cap = some bytes) : generationDecode c bytes = some g := by
  unfold generationEncode at henc
  cases haction : ctlActionStr g.action with
  | none =>
    rw [haction] at henc
    cases henc
  | some a =>
    rw [haction] at henc
    dsimp only at henc
    obtain ⟨hgen, henc⟩ := Outcome.passed henc nofun
    obtain ⟨hfrom, hne, hlen, hprint, hascii⟩ := ctlActionStr_eq haction
    have hsize : bytes.length ≤ frameMax := by
      have h1 := size_u32 c (word "generation") g.generation
      have h2 := size_str c (word "action") a
      have hescaped := escapedSize_le a
      have hnames : escapedSize (word "generation") + escapedSize (word "action") = 16 := by decide
      rw [ctlEmit_eq henc, generationJson, length_print_obj]
      show 1 + (memberSize c _ + (memberSize c _ + 0)) ≤ 65536
      omega
    have hnames : PlainNames [word "generation", word "action"] := by decide
    have hparse : ctlParse c bytes = some (generationJson g.generation a) := by
      rw [ctlParse_emitted hc henc hnames (by simp [generationJson]), if_pos]
      exact ⟨hsize, by simp [generationJson, hc.ascii a hascii], by simp [generationJson]⟩
    have hstr : ctlStr (generationJson (D := D) g.generation a) (word "action") 16 = some a :=
      ctlStr_eq rfl hne hlen hprint
    have hkeys : ctlOnlyKeys (generationJson (D := D) g.generation a)
        [word "generation", word "action"] = true := rfl
    have hgeneration : ctlInt (generationJson (D := D) g.generation a) (word "generation") 1
        0xffffffff = some (g.generation.toNat : ℤ) := ctlInt_u32 rfl hgen (le_u32 _)
    simp only [generationDecode, hparse, bind_eq_bind, bind_some, hstr, hkeys,
      check_true, hgeneration, hfrom, toU32_toNat]

/-! ### GOAWAY -/

variable {g : Goaway}

theorem goawayDecode_json (hlow : ¬ g.code < 0) (hhigh : ¬ CW_ERR_INTERNAL < g.code)
    (hlen : ¬ CW_CTL_REASON_MAX < g.reason.length) (hprint : g.reason.all printable = true)
    (hparse : ctlParse c bytes = some (goawayJson g)) :
    goawayDecode c bytes = some g := by
  have hzero : 0 ∉ g.reason := fun hmem => absurd (List.all_eq_true.mp hprint 0 hmem) (by decide)
  have hreason : goawayReason (goawayJson (D := D) g) = some g.reason := by
    have hlookup : lookup (goawayJson (D := D) g) (word "reason") = some (.str g.reason) := rfl
    unfold goawayReason
    rw [hlookup]
    exact if_pos ⟨Nat.not_lt.mp hlen, hzero, hprint⟩
  have hkeys : ctlOnlyKeys (goawayJson (D := D) g)
      [word "code", word "last_stream_id", word "reason"] = true := rfl
  have hcode : ctlInt (goawayJson (D := D) g) (word "code") 0 CW_ERR_INTERNAL = some g.code := by
    have hmax : CW_ERR_INTERNAL = 10 := rfl
    exact ctlInt_eq rfl (not_lt.mp hlow) (not_lt.mp hhigh) (by omega)
  have hlast : ctlInt (goawayJson (D := D) g) (word "last_stream_id") 0 0xffffffff =
      some (g.lastStreamId.toNat : ℤ) := by
    have hle := le_u32 g.lastStreamId
    exact ctlInt_eq rfl (by omega) (by omega) (by omega)
  simp only [goawayDecode, hparse, bind_eq_bind, bind_some, hreason, hkeys, check_true,
    hcode, hlast, toU32_toNat]

/-- The encoder takes a reason that is not UTF-8, and the parser does not. -/
theorem goaway_roundtrip (hc : c.Lawful) (henc : goawayEncode c g cap = some bytes) :
    goawayDecode c bytes = some g ↔ c.utf8 g.reason = true := by
  unfold goawayEncode at henc
  obtain ⟨hcode, henc⟩ := Outcome.passed henc nofun
  rw [not_or] at hcode
  obtain ⟨hlen, henc⟩ := Outcome.passed henc nofun
  obtain ⟨hprint, henc⟩ := Outcome.passed henc nofun
  rw [Bool.not_eq_false] at hprint
  have hconst : CW_ERR_INTERNAL = 10 := rfl
  have hmax : CW_CTL_REASON_MAX = 256 := rfl
  have hlow := not_lt.mp hcode.1
  have hhigh := not_lt.mp hcode.2
  have hsize : bytes.length ≤ frameMax := by
    have h1 : memberSize c (word "code", .int g.code) ≤ escapedSize (word "code") + 25 := by
      have hdigits : (printInt g.code).length ≤ 21 := length_printInt_le (by omega)
      show escapedSize (word "code") + (printInt g.code).length + 4 ≤ _
      omega
    have h2 := size_u32 c (word "last_stream_id") g.lastStreamId
    have h3 := size_str c (word "reason") g.reason
    have hescaped := escapedSize_le g.reason
    have hnames : escapedSize (word "code") + escapedSize (word "last_stream_id") +
      escapedSize (word "reason") = 24 := by decide
    rw [ctlEmit_eq henc, goawayJson, length_print_obj]
    show 1 + (memberSize c _ + (memberSize c _ + (memberSize c _ + 0))) ≤ 65536
    omega
  have hnames : PlainNames [word "code", word "last_stream_id", word "reason"] := by decide
  have hheld : (Value.int g.code : Value D).held = true := held_int (by omega) (by omega)
  have hparse := ctlParse_emitted hc henc hnames (by simp [goawayJson, hheld])
  constructor
  · intro hdec
    by_contra hbad
    rw [if_neg (by simp [goawayJson, hbad])] at hparse
    rw [goawayDecode, hparse] at hdec
    cases hdec
  · intro hutf8
    rw [if_pos ⟨hsize, by simp [goawayJson, hutf8], by simp [goawayJson]⟩] at hparse
    exact goawayDecode_json hcode.1 hcode.2 hlen hprint hparse

/-! ### SERVICES -/

/-- The items of an array that comes as a text. -/
def arrayItems (c : StrictJson D) (json : List UInt8) : List (Value D) :=
  (ctlParseArray c json).getD []

/-- The number of bytes of a SERVICES text: 34 for the names and the punctuation, and the rest for
    its fields. -/
def servicesSize (c : StrictJson D) (revision : Int64) (services : List (Value D))
    (sig : List UInt8) : ℕ :=
  34 + (printInt revision.toInt).length + (c.print (.arr services)).length + escapedSize sig

theorem length_services (revision : Int64) (services : List (Value D)) (sig : List UInt8) :
    (c.print (.obj (servicesJson revision services sig))).length =
      servicesSize c revision services sig := by
  have hsig := size_str c (word "sig") sig
  have hrevision : escapedSize (word "revision") = 8 := by decide
  have hservices : escapedSize (word "services") = 8 := by decide
  have hname : escapedSize (word "sig") = 3 := by decide
  rw [servicesJson, length_print_obj]
  show 1 + ((escapedSize (word "revision") + (printInt revision.toInt).length + 4) +
    ((escapedSize (word "services") + (c.print (.arr services)).length + 4) +
    (memberSize c (word "sig", .str sig) + 0))) = servicesSize c revision services sig
  unfold servicesSize
  omega

theorem revision_bounds (revision : Int64) : -(2 ^ 63) ≤ revision.toInt ∧ revision.toInt < 2 ^ 63 :=
  ⟨Int64.le_toInt revision, Int64.toInt_lt revision⟩

variable {revision : Int64} {sig : List UInt8}

theorem servicesDecode_json {services : List (Value D)}
    (hrev : ¬ revision < 1) (hne : sig ≠ []) (hlen : ¬ CW_CTL_SIG_MAX < sig.length)
    (hsig : ctlIsBase64 sig = true)
    (hparse : ctlParse c bytes = some (servicesJson revision services sig)) :
    servicesDecode c bytes = some ⟨revision, services.length, sig⟩ := by
  have hstr : ctlStr (servicesJson revision services sig) (word "sig") CW_CTL_SIG_MAX = some sig :=
    ctlStr_eq rfl hne (Nat.not_lt.mp hlen) (base64_ascii hsig).1
  have hkeys : ctlOnlyKeys (servicesJson revision services sig)
      [word "revision", word "services", word "sig"] = true := rfl
  have hrevision : ctlInt (servicesJson revision services sig) (word "revision") 1 (2 ^ 63 - 1) =
      some revision.toInt := by
    have hbounds := revision_bounds revision
    have hpos : 1 ≤ revision.toInt := by
      rw [Int64.lt_iff_toInt_lt] at hrev
      exact not_lt.mp hrev
    exact ctlInt_eq rfl hpos (by omega) (by omega)
  have hmember : lookup (servicesJson revision services sig) (word "services") =
      some (.arr services) := rfl
  simp only [servicesDecode, hparse, bind_eq_bind, bind_some, hstr, hkeys, check_true,
    hrevision, hmember, hsig, Int64.ofInt_toInt]

/-- The envelope is one level above its services, and longer than them. -/
theorem services_roundtrip (hc : c.Lawful)
    (henc : servicesEncode c revision json sig cap = some bytes) :
    servicesDecode c bytes = some ⟨revision, (arrayItems c json).length, sig⟩ ↔
      (arr (arrayItems c json)).nesting < maxNesting ∧
        servicesSize c revision (arrayItems c json) sig ≤ frameMax := by
  unfold servicesEncode at henc
  obtain ⟨hrev, henc⟩ := Outcome.passed henc nofun
  obtain ⟨hsig, henc⟩ := Outcome.passed henc nofun
  simp only [not_or, Bool.not_eq_false] at hsig
  obtain ⟨hne, hlen, hsig⟩ := hsig
  cases hitems : ctlParseArray c json with
  | none =>
    rw [hitems] at henc
    cases henc
  | some services =>
    rw [hitems] at henc
    dsimp only at henc
    have hget : arrayItems c json = services := by rw [arrayItems, hitems, getD_some]
    obtain ⟨hheldItems, hvalidItems, -⟩ := of_ctlParseArray hc hitems
    have hbounds := revision_bounds revision
    have hnames : PlainNames [word "revision", word "services", word "sig"] := by decide
    have hint : (Value.int revision.toInt : Value D).held = true :=
      held_int (by omega) (by omega)
    have harr : (arr services).held = true := by rwa [Value.held]
    have hvalid : (arr services).valid c.utf8 = true := hvalidItems
    have hparse := ctlParse_emitted hc henc hnames (by simp [servicesJson, hint, harr])
    have hlength : bytes.length = servicesSize c revision services sig := by
      rw [ctlEmit_eq henc, length_services]
    have hascii := hc.ascii sig (base64_ascii hsig).2
    have hcond : (bytes.length ≤ frameMax ∧
        (∀ m ∈ servicesJson revision services sig, m.2.valid c.utf8 = true) ∧
        ∀ m ∈ servicesJson revision services sig, m.2.nesting ≤ 14) ↔
        (arr services).nesting < maxNesting ∧
          servicesSize c revision services sig ≤ frameMax := by
      have hdeep : (arr services).nesting ≤ 14 ↔ (arr services).nesting < maxNesting :=
        Nat.lt_succ_iff.symm
      rw [hlength, ← hdeep]
      simp [servicesJson, hvalid, hascii, and_comm]
    rw [hget, ← hcond]
    constructor
    · intro hdec
      by_contra hbad
      rw [if_neg hbad] at hparse
      rw [servicesDecode, hparse] at hdec
      cases hdec
    · intro hok
      rw [if_pos hok] at hparse
      exact servicesDecode_json hrev hne hlen hsig hparse

/-! ### AUTH -/

theorem authChallenge_roundtrip (hc : c.Lawful) {a : AuthChallenge}
    (henc : authChallengeEncode c a cap = some bytes) : authChallengeDecode c bytes = some a := by
  unfold authChallengeEncode at henc
  obtain ⟨hok, henc⟩ := Outcome.passed henc nofun
  simp only [not_or, not_not, Bool.not_eq_false] at hok
  obtain ⟨hlen, hhex⟩ := hok
  have hsize : bytes.length ≤ frameMax := by
    have h1 := size_str c (word "nonce") a.nonce
    have hescaped := escapedSize_le a.nonce
    rw [hlen] at hescaped
    have hconst : CW_CTL_NONCE_LEN = 32 := rfl
    have hname : escapedSize (word "nonce") = 5 := by decide
    rw [ctlEmit_eq henc, authChallengeJson, length_print_obj]
    show 1 + (memberSize c _ + 0) ≤ 65536
    omega
  have hnames : PlainNames [word "nonce"] := by decide
  have hparse : ctlParse c bytes = some (authChallengeJson a) := by
    rw [ctlParse_emitted hc henc hnames (by simp [authChallengeJson]), if_pos]
    refine ⟨hsize, ?_, by simp [authChallengeJson]⟩
    simp [authChallengeJson, hc.ascii _ (lowerHex_ascii hhex).2]
  have hstr : ctlStr (authChallengeJson (D := D) a) (word "nonce") CW_CTL_NONCE_LEN =
      some a.nonce := by
    have hne : a.nonce ≠ [] := ne_nil_of_length_pos (by rw [hlen]; decide)
    exact ctlStr_eq rfl hne (Nat.le_of_eq hlen) (lowerHex_ascii hhex).1
  have hkeys : ctlOnlyKeys (authChallengeJson (D := D) a) [word "nonce"] = true := rfl
  simp only [authChallengeDecode, hparse, bind_eq_bind, bind_some, hstr, hkeys,
    check_true, hlen, hhex, decide_true, Bool.and_self]

variable {n : ℕ}

/-- A Base64 text of a fixed length is ASCII, and is read back as it is. -/
theorem ctlB64Exact_eq {s : List UInt8} (hn : 0 < n)
    (hlookup : lookup o key = some (.str s)) (hs : base64Exact s n = true) :
    ctlB64Exact o key n = some s := by
  have hs' := hs
  unfold base64Exact at hs'
  simp only [Bool.and_eq_true, decide_eq_true_eq] at hs'
  obtain ⟨hlen, hbase64⟩ := hs'
  have hne : s ≠ [] := ne_nil_of_length_pos (hlen ▸ hn)
  have hstr : ctlStr o key n = some s :=
    ctlStr_eq hlookup hne (Nat.le_of_eq hlen) (base64_ascii hbase64).1
  simp only [ctlB64Exact, hstr, bind_eq_bind, bind_some, hs, check_true]

theorem base64Exact_spec (h : base64Exact s n = true) : s.length = n ∧ ∀ b ∈ s, b < 0x80 := by
  unfold base64Exact at h
  simp only [Bool.and_eq_true, decide_eq_true_eq] at h
  exact ⟨h.1, (base64_ascii h.2).2⟩

theorem authResponse_roundtrip (hc : c.Lawful) {r : AuthResponse}
    (henc : authResponseEncode c r cap = some bytes) : authResponseDecode c bytes = some r := by
  unfold authResponseEncode at henc
  obtain ⟨hok, henc⟩ := Outcome.passed henc nofun
  simp only [not_or, Bool.not_eq_false] at hok
  obtain ⟨hsign, hkex, hsignature⟩ := hok
  obtain ⟨hlen1, hascii1⟩ := base64Exact_spec hsign
  obtain ⟨hlen2, hascii2⟩ := base64Exact_spec hkex
  obtain ⟨hlen3, hascii3⟩ := base64Exact_spec hsignature
  have hsize : bytes.length ≤ frameMax := by
    have h1 := size_str c (word "sign_pub") r.signPub
    have h2 := size_str c (word "kex_pub") r.kexPub
    have h3 := size_str c (word "signature") r.signature
    have hescaped1 := escapedSize_le r.signPub
    have hescaped2 := escapedSize_le r.kexPub
    have hescaped3 := escapedSize_le r.signature
    rw [hlen1] at hescaped1
    rw [hlen2] at hescaped2
    rw [hlen3] at hescaped3
    have hkey : CW_CTL_PUBKEY_B64 = 44 := rfl
    have hsig : CW_CTL_SIG_B64 = 88 := rfl
    have hnames : escapedSize (word "sign_pub") + escapedSize (word "kex_pub") +
      escapedSize (word "signature") = 24 := by decide
    rw [ctlEmit_eq henc, authResponseJson, length_print_obj]
    show 1 + (memberSize c _ + (memberSize c _ + (memberSize c _ + 0))) ≤ 65536
    omega
  have hnames : PlainNames [word "sign_pub", word "kex_pub", word "signature"] := by decide
  have hparse : ctlParse c bytes = some (authResponseJson r) := by
    rw [ctlParse_emitted hc henc hnames (by simp [authResponseJson]), if_pos]
    refine ⟨hsize, ?_, by simp [authResponseJson]⟩
    simp [authResponseJson, hc.ascii _ hascii1, hc.ascii _ hascii2, hc.ascii _ hascii3]
  have h1 : ctlB64Exact (authResponseJson (D := D) r) (word "sign_pub") CW_CTL_PUBKEY_B64 =
      some r.signPub := ctlB64Exact_eq (by decide) rfl hsign
  have h2 : ctlB64Exact (authResponseJson (D := D) r) (word "kex_pub") CW_CTL_PUBKEY_B64 =
      some r.kexPub := ctlB64Exact_eq (by decide) rfl hkex
  have h3 : ctlB64Exact (authResponseJson (D := D) r) (word "signature") CW_CTL_SIG_B64 =
      some r.signature := ctlB64Exact_eq (by decide) rfl hsignature
  have hkeys : ctlOnlyKeys (authResponseJson (D := D) r)
      [word "sign_pub", word "kex_pub", word "signature"] = true := rfl
  simp only [authResponseDecode, hparse, bind_eq_bind, bind_some, h1, h2, h3, hkeys,
    check_true]

/-! ### OPEN and RESP -/

theorem serviceId_ascii (h : webIsServiceId s = true) :
    s ≠ [] ∧ s.length ≤ CW_WEB_SERVICE_ID_MAX ∧ s.all printable = true ∧ ∀ b ∈ s, b < 0x80 := by
  have hall := h
  rw [← validServiceId_eq] at hall
  unfold validServiceId at hall
  simp only [Bool.and_eq_true] at hall
  have hascii := ascii_of_all (by grind [printable, isAlnum]) hall.1.1.2
  unfold webIsServiceId at h
  obtain ⟨hlen, h⟩ := Outcome.passed h nofun
  rw [not_or] at hlen
  exact ⟨ne_nil_of_length_pos (Nat.not_lt.mp hlen.1), Nat.not_lt.mp hlen.2, hascii⟩

theorem method_ascii (h : webMethodOk s = true) :
    s ≠ [] ∧ s.length ≤ CW_WEB_METHOD_MAX ∧ s.all printable = true ∧ ∀ b ∈ s, b < 0x80 := by
  have hall : ∀ m ∈ [word "GET", word "HEAD", word "POST", word "PUT", word "PATCH", word "DELETE",
      word "OPTIONS"], m ≠ [] ∧ m.length ≤ CW_WEB_METHOD_MAX ∧ m.all printable = true ∧
        ∀ b ∈ m, b < 0x80 := by
    decide +kernel
  exact hall s (contains_iff_mem.mp h)

/-- A path is printable, and need not be UTF-8. -/
theorem path_printable (h : webPathOk s = true) :
    s ≠ [] ∧ s.length ≤ CW_WEB_PATH_MAX ∧ s.all printable = true := by
  have hbyte : ∀ b : UInt8, (!(b ≤ 0x20 || b = 0x7f)) = true → printable b = true := by
    grind [printable]
  unfold webPathOk at h
  obtain ⟨hlen, h⟩ := Outcome.passed h nofun
  rw [not_or, not_or] at hlen
  refine ⟨ne_nil_of_length_pos (Nat.not_lt.mp hlen.1), Nat.not_lt.mp hlen.2.1, ?_⟩
  rw [List.all_eq_true] at h ⊢
  exact fun b hb => hbyte b (h b hb)

/-- A list of headers is two levels deep. -/
theorem nesting_headers (h : webHeadersOk items = true) : (arr items).nesting ≤ 14 := by
  unfold webHeadersOk at h
  rw [Bool.and_eq_true] at h
  have hitems := h.2
  have hle : nestingItems items ≤ 2 := by
    clear h
    induction items with
    | nil => exact Nat.zero_le _
    | cons v vs ih =>
      rw [all_cons, Bool.and_eq_true] at hitems
      have hv : v.nesting ≤ 1 := by
        have hok := hitems.1
        unfold webHeaderOk at hok
        split at hok
        · exact le_refl _
        · cases hok
      rw [nestingItems, max_le_iff]
      exact ⟨Nat.succ_le_succ hv, ih hitems.2⟩
  exact Nat.le_trans hle (by decide)

/-- The number of bytes of an OPEN head: 50 for the names and the punctuation, and the rest for its
    fields. -/
def webOpenSize (c : StrictJson D) (serviceId method path : List UInt8)
    (headers : List (Value D)) : ℕ :=
  50 + escapedSize serviceId + escapedSize method + escapedSize path +
    (c.print (.arr headers)).length

/-- The number of bytes of a RESP head. -/
def webRespSize (c : StrictJson D) (status : ℤ) (headers : List (Value D)) : ℕ :=
  22 + (printInt status).length + (c.print (.arr headers)).length

theorem length_webOpen (serviceId method path : List UInt8) (headers : List (Value D)) :
    (c.print (.obj (webOpenJson serviceId method path headers))).length =
      webOpenSize c serviceId method path headers := by
  have h1 := size_str c (word "service_id") serviceId
  have h2 := size_str c (word "method") method
  have h3 := size_str c (word "path") path
  have hname1 : escapedSize (word "service_id") = 10 := by decide
  have hname2 : escapedSize (word "method") = 6 := by decide
  have hname3 : escapedSize (word "path") = 4 := by decide
  have hname4 : escapedSize (word "headers") = 7 := by decide
  rw [webOpenJson, length_print_obj]
  show 1 + (memberSize c (word "service_id", .str serviceId) +
    (memberSize c (word "method", .str method) + (memberSize c (word "path", .str path) +
    ((escapedSize (word "headers") + (c.print (.arr headers)).length + 4) + 0)))) =
      webOpenSize c serviceId method path headers
  unfold webOpenSize
  omega

theorem length_webResp (status : ℤ) (headers : List (Value D)) :
    (c.print (.obj (webRespJson status headers))).length = webRespSize c status headers := by
  have hname1 : escapedSize (word "status") = 6 := by decide
  have hname2 : escapedSize (word "headers") = 7 := by decide
  rw [webRespJson, length_print_obj]
  show 1 + ((escapedSize (word "status") + (printInt status).length + 4) +
    ((escapedSize (word "headers") + (c.print (.arr headers)).length + 4) + 0)) =
      webRespSize c status headers
  unfold webRespSize
  omega

theorem webHeaders_eq
    (hlookup : lookup o (word "headers") = some (.arr items)) (hok : webHeadersOk items = true) :
    webHeaders o = some items := by
  unfold webHeaders
  rw [hlookup]
  exact if_pos hok

variable {serviceId : List UInt8}

theorem webOpenDecode_json {method path : List UInt8} {headers : List (Value D)}
    (hsid : webIsServiceId serviceId = true) (hmethod : webMethodOk method = true)
    (hpath : webPathOk path = true) (hheaders : webHeadersOk headers = true)
    (hparse : ctlParse c bytes = some (webOpenJson serviceId method path headers)) :
    webOpenDecode c bytes = some ⟨serviceId, method, path, headers.length⟩ := by
  obtain ⟨hne1, hlen1, hprint1, -⟩ := serviceId_ascii hsid
  obtain ⟨hne2, hlen2, hprint2, -⟩ := method_ascii hmethod
  obtain ⟨hne3, hlen3, hprint3⟩ := path_printable hpath
  have h1 : ctlStr (webOpenJson serviceId method path headers) (word "service_id")
      CW_WEB_SERVICE_ID_MAX = some serviceId := ctlStr_eq rfl hne1 hlen1 hprint1
  have h2 : ctlStr (webOpenJson serviceId method path headers) (word "method")
      CW_WEB_METHOD_MAX = some method := ctlStr_eq rfl hne2 hlen2 hprint2
  have h3 : ctlStr (webOpenJson serviceId method path headers) (word "path")
      CW_WEB_PATH_MAX = some path := ctlStr_eq rfl hne3 hlen3 hprint3
  have hkeys : ctlOnlyKeys (webOpenJson serviceId method path headers)
      [word "service_id", word "method", word "path", word "headers"] = true := rfl
  have h4 : webHeaders (webOpenJson serviceId method path headers) = some headers :=
    webHeaders_eq rfl hheaders
  simp only [webOpenDecode, hparse, bind_eq_bind, bind_some, h1, h2, h3, hkeys,
    check_true, hsid, hmethod, hpath, h4]

/-- The path has to be UTF-8, and the head no longer than a frame. -/
theorem webOpen_roundtrip (hc : c.Lawful) {method path : List UInt8}
    (henc : webOpenEncode c serviceId method path json cap = some bytes) :
    webOpenDecode c bytes = some ⟨serviceId, method, path, (arrayItems c json).length⟩ ↔
      c.utf8 path = true ∧ webOpenSize c serviceId method path (arrayItems c json) ≤ frameMax := by
  unfold webOpenEncode at henc
  obtain ⟨hok, henc⟩ := Outcome.passed henc nofun
  simp only [not_or, Bool.not_eq_false] at hok
  obtain ⟨hsid, hmethod, hpath⟩ := hok
  cases hitems : ctlParseArray c json with
  | none =>
    rw [hitems] at henc
    cases henc
  | some headers =>
    rw [hitems] at henc
    dsimp only at henc
    split at henc
    next hheaders =>
      have hget : arrayItems c json = headers := by rw [arrayItems, hitems, getD_some]
      obtain ⟨hheldItems, hvalidItems, -⟩ := of_ctlParseArray hc hitems
      have hnames : PlainNames [word "service_id", word "method", word "path",
        word "headers"] := by decide
      have harr : (arr headers).held = true := by rwa [Value.held]
      have hvalid : (arr headers).valid c.utf8 = true := hvalidItems
      have hparse := ctlParse_emitted hc henc hnames (by simp [webOpenJson, harr])
      have hlength : bytes.length = webOpenSize c serviceId method path headers := by
        rw [ctlEmit_eq henc, length_webOpen]
      have hascii1 := hc.ascii _ (serviceId_ascii hsid).2.2.2
      have hascii2 := hc.ascii _ (method_ascii hmethod).2.2.2
      have hcond : (bytes.length ≤ frameMax ∧
          (∀ m ∈ webOpenJson serviceId method path headers, m.2.valid c.utf8 = true) ∧
          ∀ m ∈ webOpenJson serviceId method path headers, m.2.nesting ≤ 14) ↔
          c.utf8 path = true ∧ webOpenSize c serviceId method path headers ≤ frameMax := by
        rw [hlength]
        simp [webOpenJson, hvalid, hascii1, hascii2, nesting_headers hheaders, and_comm]
      rw [hget, ← hcond]
      constructor
      · intro hdec
        by_contra hbad
        rw [if_neg hbad] at hparse
        rw [webOpenDecode, hparse] at hdec
        cases hdec
      · intro hfits
        rw [if_pos hfits] at hparse
        exact webOpenDecode_json hsid hmethod hpath hheaders hparse
    next => cases henc

theorem webResp_roundtrip (hc : c.Lawful) {status : ℤ}
    (henc : webRespEncode c status json cap = some bytes) :
    webRespDecode c bytes = some ⟨status, (arrayItems c json).length⟩ ↔
      webRespSize c status (arrayItems c json) ≤ frameMax := by
  unfold webRespEncode at henc
  obtain ⟨hstatus, henc⟩ := Outcome.passed henc nofun
  rw [not_or] at hstatus
  cases hitems : ctlParseArray c json with
  | none =>
    rw [hitems] at henc
    cases henc
  | some headers =>
    rw [hitems] at henc
    dsimp only at henc
    split at henc
    next hheaders =>
      have hget : arrayItems c json = headers := by rw [arrayItems, hitems, getD_some]
      obtain ⟨hheldItems, hvalidItems, -⟩ := of_ctlParseArray hc hitems
      have hnames : PlainNames [word "status", word "headers"] := by decide
      have hmin : CW_WEB_STATUS_MIN = 100 := rfl
      have hmax : CW_WEB_STATUS_MAX = 599 := rfl
      have hlow := not_lt.mp hstatus.1
      have hhigh := not_lt.mp hstatus.2
      have hint : (Value.int status : Value D).held = true := held_int (by omega) (by omega)
      have harr : (arr headers).held = true := by rwa [Value.held]
      have hvalid : (arr headers).valid c.utf8 = true := hvalidItems
      have hparse := ctlParse_emitted hc henc hnames (by simp [webRespJson, hint, harr])
      have hlength : bytes.length = webRespSize c status headers := by
        rw [ctlEmit_eq henc, length_webResp]
      have hcond : (bytes.length ≤ frameMax ∧
          (∀ m ∈ webRespJson status headers, m.2.valid c.utf8 = true) ∧
          ∀ m ∈ webRespJson status headers, m.2.nesting ≤ 14) ↔
          webRespSize c status headers ≤ frameMax := by
        rw [hlength]
        simp [webRespJson, hvalid, nesting_headers hheaders]
      rw [hget, ← hcond]
      constructor
      · intro hdec
        by_contra hbad
        rw [if_neg hbad] at hparse
        rw [webRespDecode, hparse] at hdec
        cases hdec
      · intro hfits
        rw [if_pos hfits] at hparse
        have hst : ctlInt (webRespJson status headers) (word "status") CW_WEB_STATUS_MIN
            CW_WEB_STATUS_MAX = some status := ctlInt_eq rfl hlow hhigh (by omega)
        have hkeys : ctlOnlyKeys (webRespJson status headers)
            [word "status", word "headers"] = true := rfl
        have hh : webHeaders (webRespJson status headers) = some headers :=
          webHeaders_eq rfl hheaders
        simp only [webRespDecode, hparse, bind_eq_bind, bind_some, hkeys, check_true,
          hst, hh]
    next => cases henc

/-! ### All schemas -/

/-- A value for one of the encoders. -/
inductive Message where
  | hello (h : Hello)
  | welcome (w : Welcome)
  | generation (g : Generation)
  | goaway (g : Goaway)
  | services (revision : Int64) (servicesArrayJson sig : List UInt8)
  | authChallenge (a : AuthChallenge)
  | authResponse (r : AuthResponse)
  | webOpen (serviceId method path headersJson : List UInt8)
  | webResp (status : ℤ) (headersJson : List UInt8)

/-- What one of the decoders returns. -/
inductive Decoded where
  | hello (h : Hello)
  | welcome (w : Welcome)
  | generation (g : Generation)
  | goaway (g : Goaway)
  | services (s : Services)
  | authChallenge (a : AuthChallenge)
  | authResponse (r : AuthResponse)
  | webOpen (o : WebOpen)
  | webResp (r : WebResp)

/-- The encoder of a message, into `cap` bytes. -/
def Message.encode (c : StrictJson D) (m : Message) (cap : ℕ) : Option (List UInt8) :=
  match m with
  | .hello h => helloEncode c h cap
  | .welcome w => welcomeEncode c w cap
  | .generation g => generationEncode c g cap
  | .goaway g => goawayEncode c g cap
  | .services revision json sig => servicesEncode c revision json sig cap
  | .authChallenge a => authChallengeEncode c a cap
  | .authResponse r => authResponseEncode c r cap
  | .webOpen serviceId method path json => webOpenEncode c serviceId method path json cap
  | .webResp status json => webRespEncode c status json cap

/-- The decoder for messages of its kind. -/
def Message.decode (c : StrictJson D) (m : Message) (bytes : List UInt8) : Option Decoded :=
  match m with
  | .hello _ => (helloDecode c bytes).map .hello
  | .welcome _ => (welcomeDecode c bytes).map .welcome
  | .generation _ => (generationDecode c bytes).map .generation
  | .goaway _ => (goawayDecode c bytes).map .goaway
  | .services _ _ _ => (servicesDecode c bytes).map .services
  | .authChallenge _ => (authChallengeDecode c bytes).map .authChallenge
  | .authResponse _ => (authResponseDecode c bytes).map .authResponse
  | .webOpen _ _ _ _ => (webOpenDecode c bytes).map .webOpen
  | .webResp _ _ => (webRespDecode c bytes).map .webResp

/-- The value a decoder is to return: an array is counted, and everything else is as it was. -/
def Message.value (c : StrictJson D) : Message → Decoded
  | .hello h => .hello h
  | .welcome w => .welcome w
  | .generation g => .generation g
  | .goaway g => .goaway g
  | .services revision json sig => .services ⟨revision, (arrayItems c json).length, sig⟩
  | .authChallenge a => .authChallenge a
  | .authResponse r => .authResponse r
  | .webOpen serviceId method path json =>
    .webOpen ⟨serviceId, method, path, (arrayItems c json).length⟩
  | .webResp status json => .webResp ⟨status, (arrayItems c json).length⟩

/-- Free text is UTF-8, services leave a level for their envelope, and the compact text is no longer
    than the payload of a frame. -/
def Message.Fits (c : StrictJson D) : Message → Prop
  | .goaway g => c.utf8 g.reason = true
  | .services revision json sig => (arr (arrayItems c json)).nesting < maxNesting ∧
      servicesSize c revision (arrayItems c json) sig ≤ frameMax
  | .webOpen serviceId method path json => c.utf8 path = true ∧
      webOpenSize c serviceId method path (arrayItems c json) ≤ frameMax
  | .webResp status json => webRespSize c status (arrayItems c json) ≤ frameMax
  | _ => True

/-- A decoder returns the value when it returns what it is mapped from. -/
theorem map_eq_some {α : Type} {f : α → Decoded} (hf : ∀ a b, f a = f b → a = b) (o : Option α)
    (a : α) : o.map f = some (f a) ↔ o = some a := by
  cases o with
  | none => simp
  | some b =>
    rw [Option.map_some, some_inj, some_inj]
    exact ⟨hf b a, congrArg f⟩

/-- **The schemas round-trip exactly where the text fits.**  For every message that an encoder takes,
    the decoder of its kind returns its value just when `Fits` holds, which it always does for HELLO,
    WELCOME, GENERATION and the two AUTH frames.  The service ids of the registry and of the codec
    are the same. -/
theorem schemas_roundtrip (hc : c.Lawful) :
    (∀ (m : Message) (cap : ℕ) (bytes : List UInt8), m.encode c cap = some bytes →
      (m.decode c bytes = some (m.value c) ↔ m.Fits c)) ∧
    ∀ s, validServiceId s = webIsServiceId s := by
  refine ⟨fun m cap bytes henc => ?_, validServiceId_eq⟩
  cases m with
  | hello h =>
    refine (map_eq_some (fun _ _ => Decoded.hello.inj) _ h).trans ?_
    exact iff_of_true (hello_roundtrip hc henc) trivial
  | welcome w =>
    refine (map_eq_some (fun _ _ => Decoded.welcome.inj) _ w).trans ?_
    exact iff_of_true (welcome_roundtrip hc henc) trivial
  | generation g =>
    refine (map_eq_some (fun _ _ => Decoded.generation.inj) _ g).trans ?_
    exact iff_of_true (generation_roundtrip hc henc) trivial
  | authChallenge a =>
    refine (map_eq_some (fun _ _ => Decoded.authChallenge.inj) _ a).trans ?_
    exact iff_of_true (authChallenge_roundtrip hc henc) trivial
  | authResponse r =>
    refine (map_eq_some (fun _ _ => Decoded.authResponse.inj) _ r).trans ?_
    exact iff_of_true (authResponse_roundtrip hc henc) trivial
  | goaway g =>
    exact (map_eq_some (fun _ _ => Decoded.goaway.inj) _ g).trans (goaway_roundtrip hc henc)
  | services revision json sig =>
    exact (map_eq_some (fun _ _ => Decoded.services.inj) _ _).trans (services_roundtrip hc henc)
  | webOpen serviceId method path json =>
    exact (map_eq_some (fun _ _ => Decoded.webOpen.inj) _ _).trans (webOpen_roundtrip hc henc)
  | webResp status json =>
    exact (map_eq_some (fun _ _ => Decoded.webResp.inj) _ _).trans (webResp_roundtrip hc henc)

/-- A GENERATION frame. -/
def revocation : Message := .generation ⟨7, 2⟩

theorem schemas_roundtrip_revocation : ∃ bytes, revocation.encode compact 64 = some bytes ∧
    revocation.decode compact bytes = some (revocation.value compact) := by
  have hsome : (revocation.encode compact 64).isSome = true := by decide +kernel
  obtain ⟨bytes, henc⟩ := Option.isSome_iff_exists.mp hsome
  exact ⟨bytes, henc, ((schemas_roundtrip compact_lawful).1 revocation 64 bytes henc).mpr trivial⟩

/-- A GOAWAY frame whose reason is a byte that no UTF-8 text has. -/
def strayByte : Message := .goaway ⟨0, 0, [0xff]⟩

/-- Its encoder writes it, and its decoder refuses what was written. -/
theorem goaway_not_decoded : ∃ bytes, strayByte.encode compact 64 = some bytes ∧
    strayByte.decode compact bytes = none := by
  have hsome : (strayByte.encode compact 64).isSome = true := by decide +kernel
  have hnone : ((strayByte.encode compact 64).bind fun bytes => strayByte.decode compact bytes) =
      none := by
    decide +kernel
  obtain ⟨bytes, henc⟩ := Option.isSome_iff_exists.mp hsome
  refine ⟨bytes, henc, ?_⟩
  rw [henc, bind_some] at hnone
  exact hnone

end DreamingOS.Cloud
