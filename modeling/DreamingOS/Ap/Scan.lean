import DreamingOS.Ap.Decode

namespace DreamingOS.Ap

open JsonText Outcome List

/-!
# AP control — the duplicate-key scanner

`ap_json_duplicate_scan` runs over the bytes of a text once, before the parser proper: it follows
the nesting, decodes every string and registers those that are member names.

* `Scan`, `keyAdd`, `scanLoop`, `duplicateScan` — the functions of the source;
* `scan` — the loop with the turns it needs; `scan_openObject`, `scan_openArray`, `scan_close`,
  `scan_string` and `scan_plain` say what it does once the byte at the offset is known;
* `duplicateScan_safe` — **no byte string makes the scanner write past a decode buffer or run on**.
-/

/-! ### The code -/

/-- `AP_JSON_DEPTH_MAX`. -/
def depthMax : ℕ := 32

/-- `AP_JSON_KEYS_MAX`. -/
def keysMax : ℕ := 4096

/-- `AP_CONTROL_FRAME_MAX`: `ap_control_json_parse_strict`, the only caller, scans no longer text. -/
def frameMax : ℕ := 65536

/-- The results of the scanner that its input decides. -/
inductive Code
  | ok
  | invalidJson
  | duplicateKey
  deriving DecidableEq

/-- `struct ap_json_scan`.  The open objects are listed innermost first, each with the depth it was
    opened at and its number; a key is the number of its object with its decoded bytes. -/
structure Scan where
  depth : ℕ
  objects : List (ℕ × ℕ)
  nextObjectId : ℕ
  keys : List (ℕ × List UInt8)
  keyCapacity : ℕ

/-- The object whose members are scanned at this depth, if the innermost open one is such. -/
def Scan.current (s : Scan) : Option ℕ :=
  match s.objects with
  | [] => none
  | (depth, id) :: _ => if depth = s.depth then some id else none

def Scan.openObject (s : Scan) : Scan :=
  let id := (s.nextObjectId + 1) % 2 ^ 32
  { s with
    depth := s.depth + 1
    objects := (s.depth + 1, id) :: s.objects
    nextObjectId := id }

def Scan.openArray (s : Scan) : Scan := { s with depth := s.depth + 1 }

/-- A closing brace ends the object opened at this depth; a closing bracket only the nesting. -/
def Scan.close (s : Scan) (b : UInt8) : Scan :=
  { s with
    depth := s.depth - 1
    objects := if b = 0x7d ∧ s.current.isSome then s.objects.tail else s.objects }

/-- `ap_json_is_object_key`: a colon follows, behind any whitespace. -/
def isObjectKey : List UInt8 → Bool
  | [] => false
  | b :: data =>
    if b = 0x20 ∨ b = 0x09 ∨ b = 0x0d ∨ b = 0x0a then isObjectKey data else b = 0x3a

/-- `ap_json_key_add`: a full table is refused before the names are compared. -/
def keyAdd (s : Scan) (id : ℕ) (value : List UInt8) : Except Code Scan :=
  if s.keys.length ≥ s.keyCapacity then .error .invalidJson
  else if s.keys.any (fun key => key.1 = id ∧ key.2 = value) then .error .duplicateKey
  else .ok { s with keys := s.keys ++ [(id, value)] }

/-- What is done with a decoded string and the bytes behind it. -/
def Scan.string (s : Scan) (value data : List UInt8) : Except Code Scan :=
  match s.current with
  | none => .ok s
  | some id => if isObjectKey data then keyAdd s id value else .ok s

/-- The loop of `ap_json_duplicate_scan`. -/
def scanLoop : ℕ → List UInt8 → Scan → Except Fault Code
  | _, [], _ => .ok .ok
  | 0, _ :: _, _ => .error .endless
  | turns + 1, b :: data, s =>
    if b = 0x7b then
      if s.depth ≥ depthMax ∨ s.objects.length ≥ depthMax then .ok .invalidJson
      else scanLoop turns data s.openObject
    else if b = 0x5b then
      if s.depth ≥ depthMax then .ok .invalidJson
      else scanLoop turns data s.openArray
    else if b = 0x7d ∨ b = 0x5d then
      if s.depth = 0 then .ok .invalidJson
      else scanLoop turns data (s.close b)
    else if b = 0x22 then do
      match ← stringDecode (b :: data) with
      | none => .ok .invalidJson
      | some (value, data) =>
        match s.string value data with
        | .error code => .ok code
        | .ok s => scanLoop turns data s
    else scanLoop turns data s

/-- The room for keys: a quarter of the length, in 32 bits, and at most `AP_JSON_KEYS_MAX`. -/
def capacityFor (length : ℕ) : ℕ :=
  let capacity := (length / 4 + 1) % 2 ^ 32
  if capacity > keysMax then keysMax else capacity

def Scan.start (length : ℕ) : Scan := ⟨0, [], 0, [], capacityFor length⟩

/-- `ap_json_duplicate_scan`. -/
def duplicateScan (data : List UInt8) : Except Fault Code :=
  scanLoop data.length data (Scan.start data.length)

/-! ### Turns -/

variable {data : List UInt8} {s : Scan}

attribute [local simp] scanLoop in
/-- Turns beyond the remaining bytes are not used. -/
theorem scanLoop_turns {turns turns' : ℕ} (h : data.length ≤ turns) (h' : data.length ≤ turns') :
    scanLoop turns data s = scanLoop turns' data s := by
  induction turns generalizing turns' data s with
  | zero =>
    obtain rfl := length_eq_zero_iff.mp (Nat.le_zero.mp h)
    rw [scanLoop, scanLoop]
  | succ turns ih =>
    cases data with
    | nil => rw [scanLoop, scanLoop]
    | cons b data =>
      obtain ⟨turns', rfl⟩ : ∃ t, turns' = t + 1 := ⟨turns' - 1, by simp at h'; omega⟩
      have hlen : data.length ≤ turns := Nat.le_of_succ_le_succ h
      have hlen' : data.length ≤ turns' := Nat.le_of_succ_le_succ h'
      have hplain : ∀ s, scanLoop turns data s = scanLoop turns' data s := fun s => ih hlen hlen'
      have hmeets := stringDecode_meets (b :: data)
      rw [scanLoop, scanLoop]
      simp only [hplain]
      -- only a string takes more than one byte
      cases hdecode : stringDecode (b :: data) with
      | error fault => rw [hdecode] at hmeets; exact absurd hmeets id
      | ok r =>
        cases r with
        | none => rfl
        | some found =>
          have hrest : found.2.length < (b :: data).length :=
            hmeets.of_eq_ok hdecode found.1 found.2 rfl
          rw [length_cons] at hrest
          have hstring : ∀ s, scanLoop turns found.2 s = scanLoop turns' found.2 s :=
            fun s => ih (by omega) (by omega)
          simp only [bind, Except.bind, hstring]

/-- The loop from a state on, with as many turns as bytes remain. -/
def scan (data : List UInt8) (s : Scan) : Except Fault Code := scanLoop data.length data s

theorem scanLoop_eq_scan {turns : ℕ} (h : data.length ≤ turns) (s : Scan) :
    scanLoop turns data s = scan data s :=
  scanLoop_turns h (Nat.le_refl _)

/-! ### One byte at a time -/

theorem scan_openObject (hdepth : s.depth < depthMax)
    (hobjects : s.objects.length < depthMax) (data : List UInt8) :
    scan (0x7b :: data) s = scan data s.openObject := by
  rw [scan, length_cons, scanLoop, if_pos rfl, if_neg (by omega)]
  rfl

theorem scan_openArray (hdepth : s.depth < depthMax) (data : List UInt8) :
    scan (0x5b :: data) s = scan data s.openArray := by
  rw [scan, length_cons, scanLoop, if_neg (by decide), if_pos rfl, if_neg (by omega)]
  rfl

theorem scan_close {b : UInt8} (hb : b = 0x7d ∨ b = 0x5d) (hdepth : 0 < s.depth)
    (data : List UInt8) : scan (b :: data) s = scan data (s.close b) := by
  have hopen : b ≠ 0x7b ∧ b ≠ 0x5b := by
    rcases hb with rfl | rfl <;> decide
  rw [scan, length_cons, scanLoop, if_neg hopen.1, if_neg hopen.2, if_pos hb, if_neg (by omega)]
  rfl

theorem scan_plain_byte {b : UInt8} (hb : isStructural b = false) (data : List UInt8) (s : Scan) :
    scan (b :: data) s = scan data s := by
  simp only [isStructural, Bool.or_eq_false_iff, beq_eq_false_iff_ne] at hb
  obtain ⟨⟨⟨⟨hopen, hclose⟩, hopen'⟩, hclose'⟩, hquote⟩ := hb
  rw [scan, length_cons, scanLoop, if_neg hopen, if_neg hopen', if_neg (by tauto), if_neg hquote]
  rfl

/-- Bytes without structure are passed over. -/
theorem scan_plain {bs : List UInt8} (h : ∀ b ∈ bs, isStructural b = false) (data : List UInt8)
    (s : Scan) : scan (bs ++ data) s = scan data s := by
  induction bs with
  | nil => rfl
  | cons b bs ih =>
    rw [cons_append, scan_plain_byte (h b mem_cons_self)]
    exact ih fun c hc => h c (mem_cons_of_mem _ hc)

theorem scan_space (w : Space) (data : List UInt8) (s : Scan) :
    scan (w.1 ++ data) s = scan data s :=
  scan_plain (fun b hb => isStructural_of_isSpace (w.2 b hb)) data s

/-- A string is decoded, and registered where it is a name. -/
theorem scan_string {items : List Item} {name : List UInt8} (hname : resolve items = some name)
    (data : List UInt8) (s : Scan) :
    scan (renderString items ++ data) s = match s.string name data with
      | .error code => .ok code
      | .ok s => scan data s := by
  have hdecode := stringDecode_render hname data
  have hsplit : renderString items ++ data = 0x22 :: (renderItems items ++ 0x22 :: data) := by
    simp [renderString]
  rw [hsplit] at hdecode ⊢
  rw [scan, length_cons, scanLoop, if_neg (by decide), if_neg (by decide),
    if_neg (by decide), if_pos rfl, hdecode]
  show (match s.string name data with
    | .error code => Except.ok code
    | .ok s => scanLoop _ data s) = _
  cases s.string name data with
  | error code => rfl
  | ok s =>
    exact scanLoop_eq_scan (by simp only [length_append, length_cons]; omega) s

/-! ### Safety -/

theorem scanLoop_safe {turns : ℕ} (h : data.length ≤ turns) (s : Scan) :
    Meets (fun _ => False) (fun _ => True) (scanLoop turns data s) := by
  induction turns generalizing data s with
  | zero =>
    obtain rfl := length_eq_zero_iff.mp (Nat.le_zero.mp h)
    rw [scanLoop]
    exact trivial
  | succ turns ih =>
    cases data with
    | nil => rw [scanLoop]; exact trivial
    | cons b data =>
      have hlen : data.length ≤ turns := Nat.le_of_succ_le_succ h
      rw [scanLoop]
      refine Meets.ite (fun _ => Meets.ite (fun _ => trivial) fun _ => ih hlen _) fun _ => ?_
      refine Meets.ite (fun _ => Meets.ite (fun _ => trivial) fun _ => ih hlen _) fun _ => ?_
      refine Meets.ite (fun _ => Meets.ite (fun _ => trivial) fun _ => ih hlen _) fun _ => ?_
      refine Meets.ite (fun _ => ?_) fun _ => ih hlen _
      refine (stringDecode_meets (b :: data)).bind fun r hr => ?_
      cases r with
      | none => exact trivial
      | some found =>
        have hrest : found.2.length < (b :: data).length := hr found.1 found.2 rfl
        rw [length_cons] at hrest
        show Meets _ _ (match s.string found.1 found.2 with
          | .error code => Except.ok code
          | .ok s => scanLoop turns found.2 s)
        cases s.string found.1 found.2 with
        | error code => exact trivial
        | ok s => exact ih (by omega) s

/-- **The scanner answers every byte string**: no write leaves a decode buffer, and the loop
    ends. -/
theorem duplicateScan_safe (data : List UInt8) : ∃ code, duplicateScan data = .ok code := by
  have hsafe := scanLoop_safe (Nat.le_refl data.length) (Scan.start data.length)
  unfold duplicateScan
  cases hscan : scanLoop data.length data (Scan.start data.length) with
  | error fault => rw [hscan] at hsafe; exact absurd hsafe id
  | ok code => exact ⟨code, rfl⟩

end DreamingOS.Ap
