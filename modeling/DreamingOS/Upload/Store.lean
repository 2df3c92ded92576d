import DreamingOS.Lib.Interrupt
import DreamingOS.Upload.Meta

namespace DreamingOS.Upload

/-!
# Upload staging — the directories and the operations

The calls of `webd_upload_staging.c`, on a directory of uploads; each of them holds the lock of its
upload from beginning to end.

* `Dir`, `Root` — an upload's directory, and the directory of all;
* `Faults`, `Clock` — what the file system and the clock do in a call;
* `begin`, `append`, `finalize`, `get`, `openFinal`, `delete`, `deletePrivileged`, `cleanup` — the
  operations.
-/

open Interrupt Prog

/-! ### Directories -/

/-- The files of an upload: `data.bin`, `meta.txt`, `meta.tmp` and `lock`. -/
structure Dir where
  data : Option Bytes := none
  info : Option (List Char) := none
  tmp : Option (List Char) := none
  lock : Bool := false
deriving DecidableEq

/-- The root of the staging area; live uploads and those that are being removed are told apart by
    their names. -/
abbrev Root := List Char → Option Dir

/-- What a file is unlinked as. -/
inductive Entry where
  | data | info | tmp | lock | dir

/-- What the file system does in a call: which steps work, how many bytes the writes accept. A write
    that accepts none has failed; at the end of the list a write accepts everything. -/
structure Faults where
  root : Bool := true
  lock : Bool := true
  busy : Bool := false
  mkdir : Bool := true
  data : Bool := true
  capacity : Bool := true
  writes : List ℕ := []
  sync : Bool := true
  metaCreate : Bool := true
  metaWrites : List ℕ := []
  metaSync : Bool := true
  metaRename : Bool := true
  dirRename : Bool := true
  unlinks : Entry → Bool := fun _ => true

/-- The readings of `time` in a call. -/
structure Clock where
  (first second : ℤ)

/-- A time as a `uint64_t`. -/
def unsigned (t : ℤ) : ℕ := (t % 2 ^ 64).toNat

/-! ### Writing -/

/-- How many bytes the writes accept of `n`. -/
def accepted : List ℕ → ℕ → ℕ
  | [], n => n
  | w :: ws, n => if w = 0 then 0 else if n ≤ w then n else w + accepted ws (n - w)

/-- A loop of writes, with `put` for a write; it tells whether everything has been written. -/
def writeAll {α σ : Type} [DecidableEq α] (put : List α → σ → σ) : List ℕ → List α → Prog σ Bool
  | [], bs => do
    if bs = [] then pure true
    else do
      call (put bs)
      pure true
  | w :: ws, bs =>
    if bs = [] then pure true
    else if w = 0 then pure false
    else do
      call (put (bs.take w))
      writeAll put ws (bs.drop w)

def Dir.unlinkTmp (fl : Faults) (d : Dir) : Dir := if fl.unlinks .tmp then { d with tmp := none } else d

/-- `meta_write_at`. -/
def metaWrite (fl : Faults) (m : Meta) : Prog Dir Unit := do
  let text := metaText m
  check (text.length < META_MAX) "meta_too_large"
  call (Dir.unlinkTmp fl)
  let d ← get
  check (fl.metaCreate ∧ d.tmp = none) "meta_create_failed"
  call fun d => { d with tmp := some [] }
  let written ← writeAll (fun cs d => { d with tmp := d.tmp.map (· ++ cs) }) fl.metaWrites text
  if !written ∨ !fl.metaSync then do
    call (Dir.unlinkTmp fl)
    fail "meta_write_failed"
  else if !fl.metaRename then do
    call (Dir.unlinkTmp fl)
    fail "meta_commit_failed"
  else call fun d => { d with info := d.tmp, tmp := none }

/-- The record of a directory, as `meta_read_at` finds it. -/
def Dir.record (d : Dir) : Option Meta :=
  d.info.bind fun text => if text.length = 0 ∨ text.length ≥ META_MAX then none else metaParse text

/-- `meta_read_at`. -/
def metaRead : Prog Dir Meta := do
  let d ← get
  match d.record with
  | some m => pure m
  | none => fail (if d.info = none then "meta_missing" else "meta_invalid")

/-! ### Operations on an upload -/

/-- `lock_upload_dir`; the lock file stays. -/
def lockDir (fl : Faults) : Prog Dir Unit := do
  check fl.lock "lock_failed"
  call fun d => { d with lock := true }

/-- The record of an upload, for its owner. -/
def ownRecord (owner : Bytes) : Prog Dir Meta := do
  let m ← metaRead
  check (m.ownerId = owner) "upload_not_found"
  pure m

/-- The size of a chunk is within the limits of its upload. -/
def Meta.fits (m : Meta) (offset n : ℕ) : Bool :=
  n ≤ m.max && offset ≤ m.max - n && (m.expected = 0 || offset + n ≤ m.expected)

/-- The part of `webd_upload_append` in the directory. -/
def appendDir (fl : Faults) (t : Clock) (owner : Bytes) (offset : ℕ) (chunk : Bytes) :
    Prog Dir Meta := do
  lockDir fl
  let m ← ownRecord owner
  check (m.status = .open) "upload_not_open"
  if unsigned t.first > unsigned m.expires then do
    let _ ← attempt
      (metaWrite fl { m with status := .expired, error := "expired".toList, updated := t.second })
    fail "upload_expired"
  else do
    let d ← get
    check (fl.data ∧ d.data ≠ none) "data_open_failed"
    check (d.data.elim 0 List.length = offset ∧ m.size = offset) "bad_offset"
    check (m.fits offset chunk.length) "size_limit_exceeded"
    check fl.capacity "staging_insufficient_space"
    let written ← writeAll (fun bs d => { d with data := d.data.map (· ++ bs) }) fl.writes chunk
    check written "data_write_failed"
    check fl.sync "data_sync_failed"
    let m' := { m with size := offset + chunk.length, updated := t.second }
    metaWrite fl m'
    pure m'

/-- SHA-256, as 64 hexadecimal digits. -/
structure Digest where
  sha256 : Bytes → List Char
  ok : ∀ bs, sha256HexOk (sha256 bs) = true

/-- `strcasecmp(a, b) == 0`. -/
def caseEq (a b : List Char) : Bool := a.map Char.toLower = b.map Char.toLower

/-- The part of `webd_upload_finalize` in the directory. -/
def finalizeDir (sha : Digest) (fl : Faults) (t : Clock) (owner : Bytes) (digest : List Char) :
    Prog Dir Meta := do
  lockDir fl
  let m ← ownRecord owner
  check (m.status = .open) "upload_not_open"
  check (m.expected = 0 ∨ m.size = m.expected) "size_incomplete"
  let d ← get
  match d.data with
  | none => fail "data_missing"
  | some bs => do
    check fl.data "data_read_failed"
    check (bs.length = m.size) "size_changed"
    if digest ≠ [] ∧ !caseEq digest (sha.sha256 bs) then do
      let _ ← attempt (metaWrite fl
        { m with status := .rejected, error := "sha256_mismatch".toList, updated := t.first })
      fail "sha256_mismatch"
    else do
      let m' := { m with sha256 := sha.sha256 bs, status := .finalized, updated := t.first }
      metaWrite fl m'
      pure m'

/-- The part of `webd_upload_open_final_readonly` in the directory: the data that can be read. -/
def openDir (sha : Digest) (fl : Faults) (owner : Bytes) : Prog Dir Bytes := do
  lockDir fl
  let m ← ownRecord owner
  check (m.status = .finalized) "upload_not_finalized"
  let d ← get
  match d.data with
  | none => fail "data_missing"
  | some bs => do
    check (bs.length = m.size ∧ caseEq (sha.sha256 bs) m.sha256) "finalized_data_changed"
    check fl.data "data_open_failed"
    pure bs

/-! ### Operations on the root -/

/-- The checks that come before the directory of an upload. -/
def openUpload (fl : Faults) (owner : Bytes) (id : List Char) : Prog Root Unit := do
  check (ownerIdOk owner) "bad_owner_id"
  check fl.root "root_unavailable"
  check (uploadIdOk id) "bad_upload_id"

/-- `webd_upload_append`. -/
def append (fl : Faults) (t : Clock) (owner : Bytes) (id : List Char) (offset : ℕ) (chunk : Bytes) :
    Prog Root Meta := do
  openUpload fl owner id
  within id "upload_not_found" (appendDir fl t owner offset chunk)

/-- `webd_upload_finalize`. -/
def finalize (sha : Digest) (fl : Faults) (t : Clock) (owner : Bytes) (id digest : List Char) :
    Prog Root Meta := do
  check (ownerIdOk owner) "bad_owner_id"
  check (digest = [] ∨ sha256HexOk digest) "bad_sha256"
  openUpload fl owner id
  within id "upload_not_found" (finalizeDir sha fl t owner digest)

/-- `webd_upload_open_final_readonly`. -/
def openFinal (sha : Digest) (fl : Faults) (owner : Bytes) (id : List Char) : Prog Root Bytes := do
  openUpload fl owner id
  within id "upload_not_found" (openDir sha fl owner)

/-- `webd_upload_get`, which takes no lock. -/
def getMeta (fl : Faults) (owner : Bytes) (id : List Char) : Prog Root Meta := do
  check fl.root "root_unavailable"
  check (uploadIdOk id) "bad_upload_id"
  within id "upload_not_found" do
    let m ← metaRead
    check (ownerIdOk owner ∧ m.ownerId = owner) "upload_not_found"
    pure m

/-! ### Removal -/

/-- `unlinkat` of a file; a file that is not there counts as unlinked. -/
def Dir.unlink (fl : Faults) (d : Dir) : Entry → Dir
  | .data => if fl.unlinks .data then { d with data := none } else d
  | .info => if fl.unlinks .info then { d with info := none } else d
  | .tmp => d.unlinkTmp fl
  | .lock => if fl.unlinks .lock then { d with lock := false } else d
  | .dir => d

def Dir.empty (d : Dir) : Bool := d = {}

/-- `unlinkat` with `AT_REMOVEDIR`; only an empty directory can be removed. -/
def removeDir (fl : Faults) (name : List Char) (r : Root) : Root :=
  match r name with
  | some d => if fl.unlinks .dir ∧ d.empty then Function.update r name none else r
  | none => r

/-- The files of an upload are unlinked, until one of them cannot be; the lock file in any case. -/
def unlinkFiles (fl : Faults) : Prog Dir Unit := do
  call (Dir.unlink fl · .data)
  if !fl.unlinks .data then call (Dir.unlink fl · .lock)
  else do
    call (Dir.unlink fl · .info)
    if !fl.unlinks .info then call (Dir.unlink fl · .lock)
    else do
      call (Dir.unlink fl · .tmp)
      call (Dir.unlink fl · .lock)

/-- `webd_upload_remove_locked`. -/
def removeLocked (fl : Faults) (gc : List Char) : Prog Root Unit := do
  within gc "upload_not_found" (unlinkFiles fl)
  check (fl.unlinks .data ∧ fl.unlinks .info ∧ fl.unlinks .tmp ∧ fl.unlinks .lock) "delete_failed"
  call (removeDir fl gc)
  let r ← get
  check (r gc = none) "delete_failed"

/-- `lock_upload_dir` or `try_lock_upload_dir`; a lock that is held elsewhere is waited for, or is
    `busy`. -/
def lockFor (fl : Faults) (nonblocking : Bool) : Prog Dir Unit := do
  lockDir fl
  check (!(nonblocking && fl.busy)) "busy"

/-- `webd_upload_recover_gc_at`. -/
def recoverGc (fl : Faults) (nonblocking : Bool) (gc : List Char) : Prog Root Unit := do
  check (gcIdOk gc) "bad_upload_id"
  let r ← get
  if r gc = none then pure ()
  else do
    within gc "upload_not_found" (lockFor fl nonblocking)
    removeLocked fl gc

/-- `renameat` of a directory, onto no other or onto an empty one. -/
def renameDir (from_ to_ : List Char) (r : Root) : Root :=
  Function.update (Function.update r to_ (r from_)) from_ none

def canRename (fl : Faults) (to_ : List Char) (r : Root) : Bool :=
  fl.dirRename && (r to_).all Dir.empty

/-- The metadata of an upload that is to be deleted, for the owner that is asked for. -/
def checkDelete (owner : Option Bytes) : Except String Meta → Prog Dir Unit
  | .ok m =>
    match owner with
    | none => pure ()
    | some owner => check (ownerIdOk owner ∧ m.ownerId = owner) "upload_not_found"
  | .error e => fail (if owner = none then e else "upload_not_found")

/-- `webd_upload_delete_internal`, with the owner that is asked for. -/
def deleteInternal (fl : Faults) (owner : Option Bytes) (nonblocking missingOk : Bool)
    (id : List Char) : Prog Root Unit := do
  check fl.root "root_unavailable"
  check (uploadIdOk id) "bad_upload_id"
  let r ← get
  if r id = none then
    if missingOk then recoverGc fl nonblocking (gcId id) else fail "upload_not_found"
  else do
    within id "upload_not_found" do
      lockFor fl nonblocking
      let m ← attempt metaRead
      checkDelete owner m
    let r ← get
    check (canRename fl (gcId id) r) "delete_stage_failed"
    call (renameDir id (gcId id))
    removeLocked fl (gcId id)

/-- `webd_upload_delete`. -/
def delete (fl : Faults) (owner : Bytes) (id : List Char) : Prog Root Unit :=
  deleteInternal fl (some owner) false false id

/-- `webd_upload_delete_privileged`. -/
def deletePrivileged (fl : Faults) (id : List Char) : Prog Root Unit :=
  deleteInternal fl none false true id

def META_SCAN_LIMIT : ℕ := 512

/-- What `webd_upload_cleanup_expired` does with an entry. -/
def cleanupEntry (fl : Faults) (now : ℤ) (name : List Char) : Prog Root Unit :=
  if gcIdOk name then do
    let _ ← attempt (recoverGc fl true name)
    pure ()
  else do
    let m ← attempt (within name "upload_not_found" do
      lockFor fl true
      metaRead)
    match m with
    | .error _ => pure ()
    | .ok m =>
      if m.expires ≤ now then do
        let _ ← attempt (deleteInternal fl none true true name)
        pure ()
      else pure ()

/-- The entries of a scan, in the order of the directory. -/
def scanned (names : List (List Char)) : List (List Char) :=
  (names.filter fun name => gcIdOk name || uploadIdOk name).take META_SCAN_LIMIT

/-- `webd_upload_cleanup_expired`. -/
def cleanup (faults : List Char → Faults) (root : Bool) (names : List (List Char)) (now : ℤ) :
    Prog Root Unit := do
  check root "root_unavailable"
  each (fun name => cleanupEntry (faults name) now name) (scanned names)

/-! ### A new upload -/

/-- A request for an upload. -/
structure Request where
  owner : Bytes
  (origin uploadType : List Char)
  filename : Bytes
  (expected max ttl : ℕ)

def DEFAULT_TTL_SECONDS : ℕ := 3600

/-- An error, unless a condition holds. -/
def require (p : Prop) [Decidable p] (e : String) : Except String Unit :=
  if p then .ok () else .error e

/-- The record of a new upload, but for its name and its times. -/
def Request.check (q : Request) : Except String (Origin × UploadType × ℕ × ℕ) := do
  require (ownerIdOk q.owner) "bad_owner_id"
  let origin ← (Origin.ofText q.origin).elim (.error "bad_origin") .ok
  let type ← (UploadType.ofText q.uploadType).elim (.error "bad_upload_type") .ok
  require (filenameOk q.filename) "bad_filename"
  let max := if q.max = 0 then type.defaultMax else q.max
  require (max ≤ type.defaultMax ∧ q.expected ≤ max) "size_limit_exceeded"
  let ttl := if q.ttl = 0 then DEFAULT_TTL_SECONDS else q.ttl
  require (ttl ≤ TTL_MAX_SECONDS) "ttl_limit_exceeded"
  .ok (origin, type, max, ttl)

/-- The sixteen bytes that a name is made of. -/
abbrev Random := { bs : Bytes // bs.length = 16 }

/-- `gen_upload_id`. -/
def genUploadId (rnd : Random) : List Char := "upl-".toList ++ rnd.1.flatMap hex2

/-- The names that are tried for a new directory: the last one, and the error if none could be made;
    `none` stands for random bytes that cannot be read. -/
def pickId (fl : Faults) (r : Root) (last : List Char) :
    List (Option Random) → List Char × Option String
  | [] => (last, some "upload_dir_create_failed")
  | none :: _ => (last, some "id_generation_failed")
  | some rnd :: rnds =>
    if r (genUploadId rnd) ≠ none then pickId fl r (genUploadId rnd) rnds
    else (genUploadId rnd, if fl.mkdir then none else some "upload_dir_create_failed")

/-- The part of `webd_upload_begin` in the new directory. -/
def beginDir (fl : Faults) (m : Meta) : Prog Dir Unit := do
  lockDir fl
  let d ← get
  check (fl.data ∧ d.data = none) "data_create_failed"
  call fun d => { d with data := some [] }
  metaWrite fl m

/-- What a failed `webd_upload_begin` does with the directory of its name. -/
def beginFail (fl : Faults) (id : List Char) : Prog Root Unit :=
  if uploadIdOk id then do
    let _ ← attempt (within id "upload_not_found" do
      call (Dir.unlink fl · .data)
      call (Dir.unlink fl · .info)
      call (Dir.unlink fl · .tmp)
      call (Dir.unlink fl · .lock))
    call (removeDir fl id)
  else pure ()

/-- `webd_upload_begin`, behind the cleanup. -/
def beginNew (fl : Faults) (now : ℤ) (rnds : List (Option Random)) (q : Request) :
    Prog Root Meta := do
  match q.check with
  | .error e => fail e
  | .ok (origin, type, max, ttl) => do
    check fl.root "root_unavailable"
    check fl.capacity "staging_insufficient_space"
    let r ← get
    let picked := pickId fl r [] (rnds.take 8)
    let m : Meta :=
      { uploadId := picked.1, ownerId := q.owner, origin, uploadType := type, filename := q.filename
        status := .open, size := 0, expected := q.expected, max, created := now, updated := now
        expires := now + ttl, sha256 := [], error := [] }
    match picked.2 with
    | some e => do
      beginFail fl picked.1
      fail e
    | none => do
      call fun r => Function.update r picked.1 (some {})
      let made ← attempt (within picked.1 "upload_not_found" (beginDir fl m))
      match made with
      | .ok _ => pure m
      | .error e => do
        beginFail fl picked.1
        fail e

/-- `webd_upload_begin`. -/
def begin (faults : List Char → Faults) (names : List (List Char)) (fl : Faults) (now : ℤ)
    (rnds : List (Option Random)) (q : Request) : Prog Root Meta := do
  let _ ← attempt (cleanup faults fl.root names now)
  beginNew fl now rnds q

end DreamingOS.Upload
