import DreamingOS.Paircode.Fields

namespace DreamingOS.Paircode

open List

/-!
# Pairing codes — the two records

* `apEncodeForm`, `apDecode` — what an access point announces;
* `controllerEncode`, `controllerDecode` — what starts an enrollment;
* `Writes` — what a step of a writer has written, if the payload has not overflowed;
* `decodeLoop_fields` — the fields of a payload are read one by one.
-/

def APD_PAIRCODE_AP_PREFIX : List UInt8 := ascii "DWRTAP1"
def APD_PAIRCODE_CT_PREFIX : List UInt8 := ascii "DWRTCT1"

/-- The field tags but for the end tag, which is never written. -/
inductive Tag
  | apId
  | keyId
  | mac
  | model
  | board
  | mgmtIp
  | mgmtPort
  | ctrlHost
  | ctrlPort
  | ctrlId
  | tokenId
  | token
  | siteId
  | apIdRaw
  | keyIdRaw
  | macRaw
  | ipv4Raw

def Tag.byte : Tag → UInt8
  | apId => 1
  | keyId => 2
  | mac => 3
  | model => 4
  | board => 5
  | mgmtIp => 6
  | mgmtPort => 7
  | ctrlHost => 8
  | ctrlPort => 9
  | ctrlId => 10
  | tokenId => 11
  | token => 12
  | siteId => 13
  | apIdRaw => 14
  | keyIdRaw => 15
  | macRaw => 16
  | ipv4Raw => 17

/-- The case of a `switch` over the tags. -/
def Tag.ofByte (b : UInt8) : Option Tag :=
  match b.toNat with
  | 1 => some apId
  | 2 => some keyId
  | 3 => some mac
  | 4 => some model
  | 5 => some board
  | 6 => some mgmtIp
  | 7 => some mgmtPort
  | 8 => some ctrlHost
  | 9 => some ctrlPort
  | 10 => some ctrlId
  | 11 => some tokenId
  | 12 => some token
  | 13 => some siteId
  | 14 => some apIdRaw
  | 15 => some keyIdRaw
  | 16 => some macRaw
  | 17 => some ipv4Raw
  | _ => none

/-! ### Writing -/

def putAll (w : Writer) (bs : List UInt8) : Writer := bs.foldl putByte w

/-- `apd_pc_put_string`. -/
def putString (w : Writer) (tag : Tag) (value : List UInt8) : Writer :=
  if value = [] then w
  else if value.length > 255 then { w with overflow := true }
  else putAll w (tag.byte :: UInt8.ofNat value.length :: value)

/-- `apd_pc_put_u16`. -/
def putU16 (w : Writer) (tag : Tag) (value : UInt16) : Writer :=
  if value = 0 then w
  else putAll w [tag.byte, 2, UInt8.ofNat (value.toNat >>> 8), UInt8.ofNat (value.toNat &&& 0xff)]

/-- `apd_pc_put_bytes`. -/
def putBytes (w : Writer) (tag : Tag) (value : List UInt8) : Writer :=
  if value = [] ∨ value.length > 255 then w
  else putAll w (tag.byte :: UInt8.ofNat value.length :: value)

/-- The size of the array that fields are packed to. -/
def PACKED_MAX : ℕ := 64

/-- An identifier that is packed if it has so many bytes. -/
def putPacked (w : Writer) (raw text : Tag) (size : ℕ) (value : List UInt8) : Writer :=
  match hexPack PACKED_MAX value with
  | some packed => if packed.length = size then putBytes w raw packed else putString w text value
  | none => putString w text value

/-- The marker of a digest. -/
def SHA256 : List UInt8 := ascii "sha256:"

/-- The key id: what is behind its first colon is packed. -/
def putKeyId (w : Writer) (keyId : List UInt8) : Writer :=
  if keyId = [] then w
  else
    match keyId.dropWhile (· != ':'.toUInt8) with
    | [] => putString w .keyId keyId
    | _ :: hex =>
      match hexPack PACKED_MAX hex with
      | some packed =>
        if packed.length > 0 ∧ keyId.take 7 = SHA256 then putBytes w .keyIdRaw packed
        else putString w .keyId keyId
      | none => putString w .keyId keyId

/-- The management address. -/
def putMgmtIp (w : Writer) (mgmtIp : List UInt8) : Writer :=
  if mgmtIp = [] then w
  else
    match ipv4Pack mgmtIp with
    | some packed => putBytes w .ipv4Raw packed
    | none => putString w .mgmtIp mgmtIp

/-- `struct apd_paircode_ap`. -/
structure ApRecord where
  schema : ℤ
  apId : Str 36
  keyId : Str 71
  mac : Str 17
  (model boardName : Str 64)
  mgmtIp : Str 253
  mgmtPort : UInt16
deriving DecidableEq

/-- `enum apd_paircode_form`. -/
inductive Form
  | full
  | compact
deriving DecidableEq

/-- The payload of an announcement. -/
def apPayload (r : ApRecord) (form : Form) : Writer :=
  let w := putByte .empty APD_PAIRCODE_SCHEMA
  let w := putPacked w .apIdRaw .apId 16 r.apId.1
  let w := putKeyId w r.keyId.1
  let w := putPacked w .macRaw .mac 6 r.mac.1
  let w := if form = .full then putString (putString w .model r.model.1) .board r.boardName.1 else w
  let w := putMgmtIp w r.mgmtIp.1
  putU16 w .mgmtPort r.mgmtPort

/-- `apd_paircode_ap_encode_form`. -/
def apEncodeForm (r : ApRecord) (form : Form) (outSize : ℕ) : Except Result (List UInt8) :=
  finish APD_PAIRCODE_AP_PREFIX (apPayload r form) outSize

/-- `struct apd_paircode_controller`. -/
structure ControllerRecord where
  schema : ℤ
  controllerHost : Str 253
  controllerPort : UInt16
  (controllerId tokenId : Str 36)
  token : Str 43
  siteId : Str 64
deriving DecidableEq

/-- The payload of a bootstrap code. -/
def controllerPayload (r : ControllerRecord) : Writer :=
  let w := putByte .empty APD_PAIRCODE_SCHEMA
  let w := putString w .ctrlHost r.controllerHost.1
  let w := putU16 w .ctrlPort r.controllerPort
  let w := putString w .ctrlId r.controllerId.1
  let w := putString w .tokenId r.tokenId.1
  let w := putString w .token r.token.1
  putString w .siteId r.siteId.1

/-- `apd_paircode_controller_encode`. -/
def controllerEncode (r : ControllerRecord) (outSize : ℕ) : Except Result (List UInt8) :=
  finish APD_PAIRCODE_CT_PREFIX (controllerPayload r) outSize

/-! ### Reading -/

/-- What `apd_pc_next` finds. -/
inductive Step
  | done
  | bad
  | field (tag : UInt8) (value rest : List UInt8)

/-- `apd_pc_next`, on what is left of the payload. -/
def next : List UInt8 → Step
  | [] => .done
  | [_] => .bad
  | tag :: len :: rest =>
    if len.toNat > rest.length then .bad
    else .field tag (rest.take len.toNat) (rest.drop len.toNat)

/-- The loop over the fields; each turn takes two bytes at least. -/
def decodeLoop {R : Type} (field : UInt8 → List UInt8 → R → Except Result R) :
    ℕ → List UInt8 → R → Except Result R
  | 0, _, out => .ok out
  | turns + 1, data, out =>
    match next data with
    | .done => .ok out
    | .bad => .error .errFormat
    | .field tag value rest => do
      let out ← field tag value out
      decodeLoop field turns rest out

/-- The `switch` of `apd_paircode_ap_decode`. -/
def apField (tag : UInt8) (value : List UInt8) (out : ApRecord) : Except Result ApRecord :=
  match Tag.ofByte tag with
  | some .apId => do return { out with apId := ← copy 36 value }
  | some .apIdRaw => do return { out with apId := ← uuidUnpack 36 value }
  | some .keyId => do return { out with keyId := ← copy 71 value }
  | some .keyIdRaw => do return { out with keyId := ← keyidUnpack 71 value }
  | some .mac => do return { out with mac := ← copy 17 value }
  | some .macRaw => do return { out with mac := ← macUnpack 17 value }
  | some .model => do return { out with model := ← copy 64 value }
  | some .board => do return { out with boardName := ← copy 64 value }
  | some .mgmtIp => do return { out with mgmtIp := ← copy 253 value }
  | some .ipv4Raw => do return { out with mgmtIp := ← ipv4Unpack 253 value }
  | some .mgmtPort => do return { out with mgmtPort := ← readU16 value }
  | _ => .ok out

def ApRecord.zero : ApRecord := ⟨0, .empty _, .empty _, .empty _, .empty _, .empty _, .empty _, 0⟩

/-- `apd_paircode_ap_decode`. -/
def apDecode (text : List UInt8) : Except Result ApRecord := do
  let payload ← openCode APD_PAIRCODE_AP_PREFIX text APD_PAIRCODE_PAYLOAD_MAX
  let start := { ApRecord.zero with schema := (payload.headD 0).toNat }
  let out ← decodeLoop apField payload.length payload.tail start
  if out.apId.1 = [] then .error .errField else .ok out

/-- The `switch` of `apd_paircode_controller_decode`. -/
def controllerField (tag : UInt8) (value : List UInt8) (out : ControllerRecord) :
    Except Result ControllerRecord :=
  match Tag.ofByte tag with
  | some .ctrlHost => do return { out with controllerHost := ← copy 253 value }
  | some .ctrlPort => do return { out with controllerPort := ← readU16 value }
  | some .ctrlId => do return { out with controllerId := ← copy 36 value }
  | some .tokenId => do return { out with tokenId := ← copy 36 value }
  | some .token => do return { out with token := ← copy 43 value }
  | some .siteId => do return { out with siteId := ← copy 64 value }
  | _ => .ok out

def ControllerRecord.zero : ControllerRecord :=
  ⟨0, .empty _, 0, .empty _, .empty _, .empty _, .empty _⟩

/-- `apd_paircode_controller_decode`. -/
def controllerDecode (text : List UInt8) : Except Result ControllerRecord := do
  let payload ← openCode APD_PAIRCODE_CT_PREFIX text APD_PAIRCODE_PAYLOAD_MAX
  let start := { ControllerRecord.zero with schema := (payload.headD 0).toNat }
  let out ← decodeLoop controllerField payload.length payload.tail start
  if out.controllerHost.1 = [] ∨ out.token.1 = [] ∨ out.tokenId.1 = [] then .error .errField
  else .ok out

/-- The blanks that a paste brings along. -/
def isBlank (c : UInt8) : Bool := c == 32 || c == 9 || c == 13 || c == 10

/-- `toupper`. -/
def toUpper (c : UInt8) : UInt8 := if 'a'.toUInt8 ≤ c ∧ c ≤ 'z'.toUInt8 then c - 32 else c

/-- `apd_paircode_normalize`. -/
def normalize (text : List UInt8) : List UInt8 := (text.filter fun c => !isBlank c).map toUpper

/-! ### What is written -/

/-- A field as it is written. -/
def fieldBytes (f : Tag × List UInt8) : List UInt8 := f.1.byte :: UInt8.ofNat f.2.length :: f.2

/-- A text field is left out when it is empty. -/
def textField (tag : Tag) (value : List UInt8) : List (Tag × List UInt8) :=
  if value = [] then [] else [(tag, value)]

/-- If there is no overflow behind a step, there was none in front of it, and it has written some
    fields. -/
def Writes (w w' : Writer) (fields : List (Tag × List UInt8)) : Prop :=
  w'.overflow = false → w.overflow = false ∧ w'.data = w.data ++ fields.flatMap fieldBytes ∧
    ∀ f ∈ fields, f.2.length ≤ 255

theorem Writes.nil (w : Writer) : Writes w w [] := fun h =>
  ⟨h, (append_nil _).symm, nofun⟩

theorem Writes.trans {w w' w'' : Writer} {fs gs : List (Tag × List UInt8)} (h : Writes w w' fs)
    (h' : Writes w' w'' gs) : Writes w w'' (fs ++ gs) := by
  intro hnone
  obtain ⟨hmid, hdata', hgs⟩ := h' hnone
  obtain ⟨hfirst, hdata, hfs⟩ := h hmid
  refine ⟨hfirst, ?_, ?_⟩
  · rw [hdata', hdata, flatMap_append, append_assoc]
  · exact fun f hf => (mem_append.mp hf).elim (hfs f) (hgs f)

theorem putByte_data {w : Writer} {b : UInt8} (h : (putByte w b).overflow = false) :
    w.overflow = false ∧ (putByte w b).data = w.data ++ [b] := by
  unfold putByte at h ⊢
  split
  · next hfull =>
    rw [dif_pos hfull] at h
    cases h
  · next hroom =>
    rw [dif_neg hroom] at h
    exact ⟨h, rfl⟩

theorem putAll_data {w : Writer} {bs : List UInt8} (h : (putAll w bs).overflow = false) :
    w.overflow = false ∧ (putAll w bs).data = w.data ++ bs := by
  induction bs generalizing w with
  | nil => exact ⟨h, (append_nil _).symm⟩
  | cons b bs ih =>
    obtain ⟨hmid, hdata⟩ := ih (w := putByte w b) h
    obtain ⟨hfirst, hbyte⟩ := putByte_data hmid
    refine ⟨hfirst, ?_⟩
    show (putAll (putByte w b) bs).data = _
    rw [hdata, hbyte, append_assoc]
    rfl

theorem writes_putAll (w : Writer) (tag : Tag) {value : List UInt8} (h : value.length ≤ 255) :
    Writes w (putAll w (tag.byte :: UInt8.ofNat value.length :: value)) [(tag, value)] := by
  intro hnone
  obtain ⟨hfirst, hdata⟩ := putAll_data hnone
  refine ⟨hfirst, ?_, forall_mem_singleton.mpr h⟩
  rw [hdata, flatMap_singleton]
  rfl

theorem writes_putString (w : Writer) (tag : Tag) (value : List UInt8) :
    Writes w (putString w tag value) (textField tag value) := by
  unfold putString textField
  split
  · exact .nil w
  split
  · exact fun h => nomatch h
  · exact writes_putAll w tag (by omega)

theorem writes_putBytes (w : Writer) (tag : Tag) {value : List UInt8} (hne : value ≠ [])
    (h : value.length ≤ 255) : Writes w (putBytes w tag value) [(tag, value)] := by
  unfold putBytes
  rw [if_neg (by rintro (hnil | hlong); exacts [hne hnil, by omega])]
  exact writes_putAll w tag h

/-- The field of a number. -/
def u16Field (tag : Tag) (value : UInt16) : List (Tag × List UInt8) :=
  if value = 0 then []
  else [(tag, [UInt8.ofNat (value.toNat >>> 8), UInt8.ofNat (value.toNat &&& 0xff)])]

theorem writes_putU16 (w : Writer) (tag : Tag) (value : UInt16) :
    Writes w (putU16 w tag value) (u16Field tag value) := by
  unfold putU16 u16Field
  split
  · exact .nil w
  · have hpair : ∀ a b : UInt8, Writes w (putAll w [tag.byte, 2, a, b]) [(tag, [a, b])] :=
      fun a b => writes_putAll w tag (show [a, b].length ≤ 255 from by simp)
    exact hpair _ _

/-! ### What is read -/

theorem next_fieldBytes (f : Tag × List UInt8) (hshort : f.2.length ≤ 255) (rest : List UInt8) :
    next (fieldBytes f ++ rest) = .field f.1.byte f.2 rest := by
  have hlen : (UInt8.ofNat f.2.length).toNat = f.2.length := by
    rw [UInt8.toNat_ofNat']
    omega
  show next (f.1.byte :: UInt8.ofNat f.2.length :: (f.2 ++ rest)) = _
  rw [next, hlen, if_neg, take_left, drop_left]
  rw [length_append]
  omega

/-- **The fields of a payload are read one by one.** -/
theorem decodeLoop_fields {R : Type} (field : UInt8 → List UInt8 → R → Except Result R)
    {fields : List (Tag × List UInt8)} (hshort : ∀ f ∈ fields, f.2.length ≤ 255) {turns : ℕ}
    (hturns : fields.length ≤ turns) (out : R) :
    decodeLoop field turns (fields.flatMap fieldBytes) out =
      fields.foldlM (fun out f => field f.1.byte f.2 out) out := by
  induction fields generalizing turns out with
  | nil => cases turns <;> rfl
  | cons f fields ih =>
    cases turns with
    | zero => cases hturns
    | succ turns =>
      obtain ⟨hf, hfields⟩ := forall_mem_cons.mp hshort
      rw [decodeLoop, flatMap_cons, next_fieldBytes f hf, foldlM_cons]
      show (field _ _ out >>= fun out => _) = (field _ _ out >>= fun out => _)
      congr 1
      funext out'
      exact ih hfields (Nat.le_of_succ_le_succ hturns) out'

end DreamingOS.Paircode
