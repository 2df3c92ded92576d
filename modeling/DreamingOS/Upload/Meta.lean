import DreamingOS.Lib.Scan
import DreamingOS.Lib.Text

namespace DreamingOS.Upload

/-!
# Upload staging — the metadata file

The record that `webd_upload_staging.c` keeps beside the data of an upload, and its text.

* `metaText` — what `meta_write_at` writes;
* `metaParse` — what `meta_parse_buf` accepts.

Names of owners and files are byte strings; the texts of the file itself are characters, for it has
these names as hexadecimal digits.
-/

/-! ### Values -/

abbrev Bytes := List UInt8

inductive Origin where
  | browser
  | configBackup
  | otaRemote
deriving DecidableEq

def Origin.text : Origin → List Char
  | .browser => "browser".toList
  | .configBackup => "config_backup".toList
  | .otaRemote => "ota-remote".toList

/-- `origin_ok`. -/
def Origin.ofText (s : List Char) : Option Origin :=
  [Origin.browser, .configBackup, .otaRemote].find? fun o => o.text = s

inductive UploadType where
  | firmware
  | backup
  | signature
  | certificate
deriving DecidableEq

def UploadType.text : UploadType → List Char
  | .firmware => "firmware".toList
  | .backup => "backup".toList
  | .signature => "signature".toList
  | .certificate => "ssl-certificate".toList

/-- `webd_upload_type_allowed`. -/
def UploadType.ofText (s : List Char) : Option UploadType :=
  [UploadType.firmware, .backup, .signature, .certificate].find? fun t => t.text = s

/-- `webd_upload_type_default_max`. -/
def UploadType.defaultMax : UploadType → ℕ
  | .firmware => 8 * 1024 * 1024 * 1024
  | .backup => 64 * 1024 * 1024
  | .signature => 64 * 1024 * 1024
  | .certificate => 1024 * 1024

inductive Status where
  | open
  | finalized
  | rejected
  | expired
deriving DecidableEq

def Status.text : Status → List Char
  | .open => "open".toList
  | .finalized => "finalized".toList
  | .rejected => "rejected".toList
  | .expired => "expired".toList

/-- `status_ok`. -/
def Status.ofText (s : List Char) : Option Status :=
  [Status.open, .finalized, .rejected, .expired].find? fun t => t.text = s

def ID_LEN : ℕ := 36
def OWNER_ID_LEN : ℕ := 128
def SHA256_HEX_LEN : ℕ := 64
def TTL_MAX_SECONDS : ℕ := 24 * 3600
def META_MAX : ℕ := 16 * 1024

def isXDigit (c : Char) : Bool := c.isDigit || ('a' ≤ c && c ≤ 'f') || ('A' ≤ c && c ≤ 'F')

def uploadIdOk (id : List Char) : Bool :=
  id.length = ID_LEN && id.take 4 = "upl-".toList && (id.drop 4).all isXDigit

def gcIdOk (id : List Char) : Bool :=
  id.length = ID_LEN && id.take 4 = ".gc-".toList && (id.drop 4).all isXDigit

/-- `upload_gc_id`. -/
def gcId (id : List Char) : List Char := ".gc-".toList ++ id.drop 4

def printable (b : UInt8) : Bool := 0x20 ≤ b && b ≠ 0x7f

def ownerIdOk (owner : Bytes) : Bool :=
  owner ≠ [] && owner.length ≤ OWNER_ID_LEN && owner.all printable

/-- `strstr(name, "..")`. -/
def hasDots : Bytes → Bool
  | 0x2e :: 0x2e :: _ => true
  | _ :: bs => hasDots bs
  | [] => false

def filenameOk (name : Bytes) : Bool :=
  name ≠ [] && name.length < 256 && !hasDots name &&
    name.all fun b => printable b && b ≠ 0x2f && b ≠ 0x5c

def sha256HexOk (hex : List Char) : Bool := hex.length = SHA256_HEX_LEN && hex.all isXDigit

/-- `struct webd_upload_meta`. -/
structure Meta where
  uploadId : List Char
  ownerId : Bytes
  origin : Origin
  uploadType : UploadType
  filename : Bytes
  status : Status
  (size expected max : ℕ)
  (created updated expires : ℤ)
  (sha256 error : List Char)

/-! ### Hexadecimal names -/

/-- `%02x`. -/
def hex2 (b : UInt8) : List Char := [Nat.digitChar (b.toNat / 16), Nat.digitChar (b.toNat % 16)]

/-- A control character is written as an underscore. -/
def hexByte (b : UInt8) : List Char := hex2 (if printable b then b else 0x5f)

/-- `hex_encode`, for a name that the buffer has room for. -/
def hexEncode (bs : Bytes) : List Char := bs.flatMap hexByte

def hexValue (c : Char) : Option ℕ :=
  if c.isDigit then some (c.toNat - 48)
  else if 'a' ≤ c ∧ c ≤ 'f' then some (c.toNat - 97 + 10)
  else if 'A' ≤ c ∧ c ≤ 'F' then some (c.toNat - 65 + 10)
  else none

/-- `hex_decode`, with room for `n` bytes. -/
def hexDecode : ℕ → List Char → Bytes
  | n + 1, a :: b :: cs =>
    match hexValue a, hexValue b with
    | some x, some y => UInt8.ofNat (x * 16 + y) :: hexDecode n cs
    | _, _ => []
  | _, _ => []

/-! ### The text of the file -/

/-- The keys of the file. -/
inductive Key where
  | version | uploadId | ownerHex | origin | uploadType | filenameHex | status | sizeBytes
  | expectedSizeBytes | maxSizeBytes | createdAt | updatedAt | expiresAt | sha256 | error
deriving DecidableEq

def Key.text : Key → List Char
  | .version => "version".toList
  | .uploadId => "upload_id".toList
  | .ownerHex => "owner_hex".toList
  | .origin => "origin".toList
  | .uploadType => "upload_type".toList
  | .filenameHex => "filename_hex".toList
  | .status => "status".toList
  | .sizeBytes => "size_bytes".toList
  | .expectedSizeBytes => "expected_size_bytes".toList
  | .maxSizeBytes => "max_size_bytes".toList
  | .createdAt => "created_at".toList
  | .updatedAt => "updated_at".toList
  | .expiresAt => "expires_at".toList
  | .sha256 => "sha256".toList
  | .error => "error".toList

/-- In the order of the file. -/
def Key.all : List Key :=
  [.version, .uploadId, .ownerHex, .origin, .uploadType, .filenameHex, .status, .sizeBytes,
    .expectedSizeBytes, .maxSizeBytes, .createdAt, .updatedAt, .expiresAt, .sha256, .error]

def Key.ofText (s : List Char) : Option Key := Key.all.find? fun k => k.text = s

/-- `%lld`. -/
def timeText (t : ℤ) : List Char :=
  if t < 0 then '-' :: Nat.toDigits 10 t.natAbs else Nat.toDigits 10 t.natAbs

def Meta.value (m : Meta) : Key → List Char
  | .version => ['2']
  | .uploadId => m.uploadId
  | .ownerHex => hexEncode m.ownerId
  | .origin => m.origin.text
  | .uploadType => m.uploadType.text
  | .filenameHex => hexEncode m.filename
  | .status => m.status.text
  | .sizeBytes => Nat.toDigits 10 m.size
  | .expectedSizeBytes => Nat.toDigits 10 m.expected
  | .maxSizeBytes => Nat.toDigits 10 m.max
  | .createdAt => timeText m.created
  | .updatedAt => timeText m.updated
  | .expiresAt => timeText m.expires
  | .sha256 => m.sha256
  | .error => m.error

def Meta.line (m : Meta) (k : Key) : List Char := k.text ++ '=' :: m.value k

/-- What `meta_write_at` writes. -/
def metaText (m : Meta) : List Char := Key.all.flatMap fun k => m.line k ++ ['\n']

/-! ### Reading -/

/-- `parse_u64_strict`. -/
def parseU64 (s : List Char) : Option ℕ :=
  if s = [] ∨ s.head? = some '-' then none
  else
    match Scan.signed s with
    | some ((negative, digits), []) =>
      let v := Nat.ofDigitChars 10 digits 0
      if v ≥ 2 ^ 64 then none else some (if negative then (2 ^ 64 - v) % 2 ^ 64 else v)
    | _ => none

/-- `parse_time_strict`. -/
def parseTime (s : List Char) : Option ℤ :=
  match parseU64 s with
  | some v => if v > 2 ^ 63 - 1 then none else some v
  | none => none

/-- `atoi`. -/
def atoi (s : List Char) : ℤ :=
  match Scan.int s with
  | some (v, _) => Int.bmod v (2 ^ 32)
  | none => 0

/-- The fields that have been read so far. -/
structure Fields where
  version : ℤ := 0
  uploadId : Option (List Char) := none
  ownerId : Option Bytes := none
  origin : Option (List Char) := none
  uploadType : Option (List Char) := none
  filename : Bytes := []
  status : Option (List Char) := none
  size : Option ℕ := none
  expected : Option ℕ := none
  max : Option ℕ := none
  created : Option ℤ := none
  updated : Option ℤ := none
  expires : Option ℤ := none
  sha256 : List Char := []
  error : List Char := []

/-- The value of a key is read into its field; a number that cannot be read ends the parsing. -/
def Fields.set (f : Fields) (k : Key) (v : List Char) : Option Fields :=
  match k with
  | .version => some { f with version := atoi v }
  | .uploadId => some { f with uploadId := some (v.take ID_LEN) }
  | .ownerHex => some { f with ownerId := some (hexDecode OWNER_ID_LEN v) }
  | .origin => some { f with origin := some (v.take 23) }
  | .uploadType => some { f with uploadType := some (v.take 15) }
  | .filenameHex => some { f with filename := hexDecode 255 v }
  | .status => some { f with status := some (v.take 15) }
  | .sizeBytes => (parseU64 v).map fun n => { f with size := some n }
  | .expectedSizeBytes => (parseU64 v).map fun n => { f with expected := some n }
  | .maxSizeBytes => (parseU64 v).map fun n => { f with max := some n }
  | .createdAt => (parseTime v).map fun t => { f with created := some t }
  | .updatedAt => (parseTime v).map fun t => { f with updated := some t }
  | .expiresAt => (parseTime v).map fun t => { f with expires := some t }
  | .sha256 => some { f with sha256 := v.take SHA256_HEX_LEN }
  | .error => some { f with error := v.take 95 }

/-- The part of a line in front of the equals sign, and the one behind it. -/
def splitLine (line : List Char) : Option (List Char × List Char) :=
  if '=' ∈ line then
    some (line.takeWhile fun c => c ≠ '=', (line.dropWhile fun c => c ≠ '=').drop 1)
  else none

/-- The loop of `meta_parse_buf`; other lines are skipped. -/
def readLines : Fields → List (List Char) → Option Fields
  | f, [] => some f
  | f, line :: rest =>
    match splitLine line with
    | none => readLines f rest
    | some (key, value) =>
      match Key.ofText key with
      | none => readLines f rest
      | some k =>
        match f.set k value with
        | some f' => readLines f' rest
        | none => none

/-- The checks of a record between its fields. -/
def Meta.consistent (m : Meta) : Bool :=
  uploadIdOk m.uploadId && ownerIdOk m.ownerId && filenameOk m.filename &&
    (m.max ≠ 0 && m.max ≤ m.uploadType.defaultMax && m.expected ≤ m.max && m.size ≤ m.max &&
      (m.expected = 0 || m.size ≤ m.expected)) &&
    (m.created ≤ m.updated && m.created ≤ m.expires && m.expires - m.created ≤ TTL_MAX_SECONDS) &&
    (m.sha256 = [] || sha256HexOk m.sha256)

/-- The record of the fields, if none is missing. -/
def Fields.record (f : Fields) : Option Meta := do
  if f.version ≠ 2 then none
  let uploadId ← f.uploadId
  let ownerId ← f.ownerId
  let origin ← f.origin.bind Origin.ofText
  let uploadType ← f.uploadType.bind UploadType.ofText
  let status ← f.status.bind Status.ofText
  let size ← f.size
  let expected ← f.expected
  let max ← f.max
  let created ← f.created
  let updated ← f.updated
  let expires ← f.expires
  some
    { uploadId, ownerId, origin, uploadType, filename := f.filename, status, size, expected, max,
      created, updated, expires, sha256 := f.sha256, error := f.error }

/-- `meta_parse_buf`. -/
def metaParse (text : List Char) : Option Meta := do
  let f ← readLines {} (((Text.lines '\n' text).map Prod.fst).filter fun line => line ≠ [])
  let m ← f.record
  if m.consistent then some m else none

end DreamingOS.Upload
