import DreamingOS.Cloud.Control

namespace DreamingOS.Cloud

open JsonBytes List

/-!
# Cloud web frames — the heads of OPEN and RESP

`webframe.c`: the heads that open a stream and answer it, with their header lists.

* `webIsServiceId`, `webMethodOk`, `webPathOk`, `webHeadersOk` — the field validators;
* `WebOpen`, `WebResp` — what the decoders return, and the encoders.

The strict parse, the string and the integer fields are those of the control frames.
-/

def CW_WEB_SERVICE_ID_MAX : ℕ := 63
def CW_WEB_METHOD_MAX : ℕ := 16
def CW_WEB_PATH_MAX : ℕ := 8192
def CW_WEB_HDR_NAME_MAX : ℕ := 256
def CW_WEB_HDR_VALUE_MAX : ℕ := 8192
def CW_WEB_MAX_HEADERS : ℕ := 128
def CW_WEB_STATUS_MIN : ℤ := 100
def CW_WEB_STATUS_MAX : ℤ := 599

/-- The loop of `cw_web_is_service_id`, at position `i` of `n`. -/
def serviceIdFrom (n : ℕ) : ℕ → List UInt8 → Bool
  | _, [] => true
  | i, c :: s =>
    let alnum := isAlnum c
    if !alnum && c ≠ 0x2d then false
    else if c = 0x2d ∧ (i = 0 ∨ i = n - 1) then false
    else serviceIdFrom n (i + 1) s

/-- `cw_web_is_service_id`. -/
def webIsServiceId (s : List UInt8) : Bool :=
  if s.length < 1 ∨ CW_WEB_SERVICE_ID_MAX < s.length then false
  else serviceIdFrom s.length 0 s

/-- `cw_web_method_ok`. -/
def webMethodOk (m : List UInt8) : Bool :=
  [word "GET", word "HEAD", word "POST", word "PUT", word "PATCH", word "DELETE",
    word "OPTIONS"].contains m

/-- `web_is_tchar_lower`. -/
def webIsTcharLower (c : UInt8) : Bool :=
  isAlnum c || (Text.ascii "!#$%&'*+-.^_\x60|~".toList).contains c

/-- `web_hdr_name_ok`. -/
def webHdrNameOk (s : List UInt8) : Bool :=
  if s.length < 1 ∨ CW_WEB_HDR_NAME_MAX < s.length ∨ 0 ∈ s then false
  else s.all webIsTcharLower

/-- `web_hdr_value_ok`. -/
def webHdrValueOk (s : List UInt8) : Bool :=
  if CW_WEB_HDR_VALUE_MAX < s.length ∨ 0 ∈ s then false
  else s.all fun c => !((c < 0x20 && c ≠ 0x09) || c = 0x7f)

/-- `web_path_ok`. -/
def webPathOk (s : List UInt8) : Bool :=
  if s.length < 1 ∨ CW_WEB_PATH_MAX < s.length ∨ s.head? ≠ some 0x2f then false
  else s.all fun c => !(c ≤ 0x20 || c = 0x7f)

section

variable {D : Type}

/-- One header: an array of a name and a value. -/
def webHeaderOk : Value D → Bool
  | .arr [.str name, .str value] => webHdrNameOk name && webHdrValueOk value
  | _ => false

/-- `web_headers_ok`, of the items of an array. -/
def webHeadersOk (items : List (Value D)) : Bool :=
  items.length ≤ CW_WEB_MAX_HEADERS && items.all webHeaderOk

/-- The array of headers that is a member. -/
def webHeaders (o : Members D) : Option (List (Value D)) :=
  match lookup o (word "headers") with
  | some (.arr items) => if webHeadersOk items then some items else none
  | _ => none

/-! ### OPEN -/

structure WebOpen where
  (serviceId method path : List UInt8)
  nHeaders : ℕ

def webOpenJson (serviceId method path : List UInt8) (headers : List (Value D)) : Members D :=
  [(word "service_id", .str serviceId), (word "method", .str method), (word "path", .str path),
    (word "headers", .arr headers)]

/-- `cw_web_open_encode`; the headers come as the text of an array. -/
def webOpenEncode (c : StrictJson D) (serviceId method path headersJson : List UInt8) (cap : ℕ) :
    Option (List UInt8) :=
  if webIsServiceId serviceId = false ∨ webMethodOk method = false ∨ webPathOk path = false then none
  else
    match ctlParseArray c headersJson with
    | none => none
    | some headers =>
      if webHeadersOk headers then ctlEmit c (webOpenJson serviceId method path headers) cap
      else none

/-- `cw_web_open_decode`. -/
def webOpenDecode (c : StrictJson D) (json : List UInt8) : Option WebOpen := do
  let o ← ctlParse c json
  let sid ← ctlStr o (word "service_id") CW_WEB_SERVICE_ID_MAX
  let m ← ctlStr o (word "method") CW_WEB_METHOD_MAX
  let p ← ctlStr o (word "path") CW_WEB_PATH_MAX
  check (ctlOnlyKeys o [word "service_id", word "method", word "path", word "headers"])
  check (webIsServiceId sid)
  check (webMethodOk m)
  check (webPathOk p)
  let headers ← webHeaders o
  some ⟨sid, m, p, headers.length⟩

/-! ### RESP -/

structure WebResp where
  status : ℤ
  nHeaders : ℕ

def webRespJson (status : ℤ) (headers : List (Value D)) : Members D :=
  [(word "status", .int status), (word "headers", .arr headers)]

/-- `cw_web_resp_encode`. -/
def webRespEncode (c : StrictJson D) (status : ℤ) (headersJson : List UInt8) (cap : ℕ) :
    Option (List UInt8) :=
  if status < CW_WEB_STATUS_MIN ∨ CW_WEB_STATUS_MAX < status then none
  else
    match ctlParseArray c headersJson with
    | none => none
    | some headers =>
      if webHeadersOk headers then ctlEmit c (webRespJson status headers) cap else none

/-- `cw_web_resp_decode`. -/
def webRespDecode (c : StrictJson D) (json : List UInt8) : Option WebResp := do
  let o ← ctlParse c json
  check (ctlOnlyKeys o [word "status", word "headers"])
  let st ← ctlInt o (word "status") CW_WEB_STATUS_MIN CW_WEB_STATUS_MAX
  let headers ← webHeaders o
  some ⟨st, headers.length⟩

end

/-! ### Service ids -/

/-- The loop refuses a character outside of the alphabet, and a hyphen at either end. -/
theorem serviceIdFrom_iff {n i : ℕ} {s : List UInt8} (hn : i + s.length = n) :
    serviceIdFrom n i s = true ↔ (∀ c ∈ s, isAlnum c = true ∨ c = 0x2d) ∧
      (i = 0 → ∀ c ∈ s.head?, isAlnum c = true) ∧ ∀ c ∈ s.getLast?, isAlnum c = true := by
  induction s generalizing i with
  | nil =>
    refine ⟨fun _ => ⟨?_, ?_, ?_⟩, fun _ => rfl⟩
    · exact fun c hc => absurd hc not_mem_nil
    · exact fun _ c hc => by cases hc
    · exact fun c hc => by cases hc
  | cons c s ih =>
    rw [length_cons] at hn
    have hrest := ih (i := i + 1) (by omega)
    -- the last character of the rest is the last one, if there is a rest
    have hlast : (∀ d ∈ (c :: s).getLast?, isAlnum d = true) ↔
        (s = [] → isAlnum c = true) ∧ ∀ d ∈ s.getLast?, isAlnum d = true := by
      cases s with
      | nil => simp
      | cons d s => simp [getLast?_cons_cons]
    have hsingle : s = [] ↔ i = n - 1 := by
      rw [← length_eq_zero_iff]
      omega
    rw [hlast, forall_mem_cons]
    show (if (!isAlnum c && decide (c ≠ 0x2d)) = true then false
      else if c = 0x2d ∧ (i = 0 ∨ i = n - 1) then false else serviceIdFrom n (i + 1) s) = true ↔
        ((isAlnum c = true ∨ c = 0x2d) ∧ ∀ d ∈ s, isAlnum d = true ∨ d = 0x2d) ∧
        (i = 0 → ∀ d ∈ some c, isAlnum d = true) ∧
        (s = [] → isAlnum c = true) ∧ ∀ d ∈ s.getLast?, isAlnum d = true
    by_cases halnum : isAlnum c = true
    · have hne : c ≠ 0x2d := by
        rintro rfl
        exact absurd halnum (by decide)
      rw [if_neg (by rw [halnum]; exact Bool.false_ne_true), if_neg fun h => hne h.1, hrest]
      simp [halnum]
    · by_cases hhyphen : c = 0x2d
      · rw [if_neg (by simp [hhyphen])]
        by_cases hend : i = 0 ∨ i = n - 1
        · rw [if_pos ⟨hhyphen, hend⟩]
          simp only [Bool.false_eq_true, false_iff, not_and]
          rintro - hfirst hsingle' -
          obtain hzero | hend := hend
          · exact halnum (hfirst hzero c rfl)
          · exact halnum (hsingle' (hsingle.mpr hend))
        · rw [if_neg fun h => hend h.2, hrest]
          rw [not_or, ← hsingle] at hend
          simp [hhyphen, hend.1, hend.2]
      · rw [if_pos (by simp [halnum, hhyphen])]
        simp [halnum, hhyphen]

/-- The registry of a session and the codec accept the same service ids. -/
theorem validServiceId_eq (s : List UInt8) : validServiceId s = webIsServiceId s := by
  rw [Bool.eq_iff_iff]
  unfold validServiceId webIsServiceId
  by_cases hlen : s.length < 1 ∨ CW_WEB_SERVICE_ID_MAX < s.length
  · rw [if_pos hlen]
    have hbad : ¬ (1 ≤ s.length ∧ s.length ≤ 63) := by
      obtain hlow | hhigh := hlen
      · omega
      · exact fun h => Nat.not_lt.mpr h.2 hhigh
    simp only [Bool.and_eq_true, decide_eq_true_eq, Bool.false_eq_true, iff_false]
    exact fun h => hbad h.1.1.1
  · rw [if_neg hlen, serviceIdFrom_iff (Nat.zero_add _)]
    rw [not_or] at hlen
    have hmax : s.length ≤ 63 := Nat.not_lt.mp hlen.2
    obtain ⟨c, t, rfl⟩ := exists_cons_of_ne_nil (ne_nil_of_length_pos (Nat.not_lt.mp hlen.1))
    obtain ⟨d, hd⟩ : ∃ d, (c :: t).getLast? = some d :=
      ⟨_, getLast?_eq_some_getLast (cons_ne_nil c t)⟩
    have hmin : 1 ≤ (c :: t).length := Nat.succ_pos _
    simp only [hmin, hmax, hd, decide_true, Bool.true_and, Bool.and_eq_true, head?_cons,
      Option.any_some, List.all_eq_true, Bool.or_eq_true, decide_eq_true_eq, Option.mem_some_iff,
      forall_eq', true_implies, and_assoc]

end DreamingOS.Cloud
