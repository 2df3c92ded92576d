import DreamingOS.Lib.Text

namespace DreamingOS.Snapshot

open Text

/-!
# Configuration snapshots — the codec

`dwnetsnap_encode` and `dwnetsnap_decode` of `config_snapshot_codec.h`.

* `Libs` — zlib and SHA-256, with what the codec relies on as `Libs.Lawful`;
* `parseSecret` — the scan of one line for a secret option;
* `encode` — secrets to the vault, references in their place, header and compressed body;
* `decode` — header, body, references back to secrets, length and digest.

Memory is taken to suffice.
-/

/-! ### Constants -/

/-- `DWNETSNAP_MAGIC`. -/
def MAGIC : List UInt8 := ascii ['D', 'W', 'N', 'E', 'T', 'S', 'N', 'A', 'P', 'v', '1', '\n']

/-- `DWNETSNAP_REF`. -/
def REF : List UInt8 := ascii ['@', 'v', 'a', 'u', 'l', 't', ':']

/-- `DWNETSNAP_SECRET_ID_PREFIX`. -/
def SECRET_ID_PREFIX : List UInt8 :=
  ascii ['n', 'e', 't', 'c', 'f', 'g', '-', 's', 'n', 'a', 'p', ':']

/-- `DWNETSNAP_MAX_BYTES`. -/
def MAX_BYTES : ℕ := 4194304

/-- `DWNETSNAP_SECRET_ID_MAX`. -/
def SECRET_ID_MAX : ℕ := 128

def newline : UInt8 := 10
def space : UInt8 := 32
def tab : UInt8 := 9
def quote : UInt8 := 39
def dquote : UInt8 := 34
def colon : UInt8 := 58
def underscore : UInt8 := 95

/-! ### What the codec is given -/

/-- zlib and SHA-256: `compress2` at level 6, `uncompress` into a buffer of a given size, and the
    digest. -/
structure Libs where
  compress : List UInt8 → Option (List UInt8)
  uncompress : List UInt8 → ℕ → Option (List UInt8)
  sha256 : List UInt8 → List UInt8

/-- What the codec relies on: inflate inverts deflate when the buffer suffices, a compressed
    stream is not empty, a truncated one is refused, and a digest has 32 bytes. -/
structure Libs.Lawful (libs : Libs) : Prop where
  uncompress_compress : ∀ body comp size, libs.compress body = some comp → body.length ≤ size →
    libs.uncompress comp size = some body
  compress_ne_nil : ∀ body, libs.compress body ≠ some []
  uncompress_truncated : ∀ body comp part size, libs.compress body = some comp → part <+: comp →
    part ≠ comp → libs.uncompress part size = none
  length_sha256 : ∀ text, (libs.sha256 text).length = 32

/-- `struct dwnetsnap_vault`: `put` tells whether the secret was stored. -/
structure Vault (σ : Type) where
  put : σ → List UInt8 → List UInt8 → σ × Bool
  get : σ → List UInt8 → Option (List UInt8)
  del : σ → List UInt8 → σ

/-! ### The buffer -/

/-- `dwnetsnap_buf_append`: the sizes are checked before the bytes are added, not after. -/
def bufAppend (b src : List UInt8) : Option (List UInt8) :=
  if src = [] then some b
  else if MAX_BYTES < src.length ∨ MAX_BYTES < b.length then none
  else some (b ++ src)

/-! ### Helpers -/

/-- `dwnetsnap_lower`. -/
def lower (c : UInt8) : UInt8 := if 65 ≤ c ∧ c ≤ 90 then c + 32 else c

/-- `dwnetsnap_ci_equal_n`. -/
def ciEqual (a b : List UInt8) : Bool := a.map lower = b.map lower

/-- `dwnetsnap_ci_streq`: a string ends at its first NUL. -/
def ciStreq (a b : List UInt8) : Bool := ciEqual (a.takeWhile (· ≠ 0)) (b.takeWhile (· ≠ 0))

/-- The digit of a number below 16. -/
def hexDigit (n : ℕ) : UInt8 := if n < 10 then UInt8.ofNat (48 + n) else UInt8.ofNat (87 + n)

/-- `dwnetsnap_sha256_hex`. -/
def sha256Hex (libs : Libs) (text : List UInt8) : List UInt8 :=
  (libs.sha256 text).flatMap fun b => [hexDigit (b.toNat / 16), hexDigit (b.toNat % 16)]

/-- The keys of `dwnetsnap_secret_option_key`. -/
def SECRET_KEYS : List (List UInt8) :=
  [ascii ['p', 'a', 's', 's', 'w', 'o', 'r', 'd'], ascii ['k', 'e', 'y'], ascii ['p', 's', 'k'],
    ascii ['w', 'p', 'a', '_', 'p', 's', 'k']]

/-- `dwnetsnap_secret_option_key`. -/
def secretOptionKey (key : List UInt8) : Bool := SECRET_KEYS.any (ciEqual key)

/-- `isalnum`. -/
def isAlnum (c : UInt8) : Bool := (48 ≤ c ∧ c ≤ 57) ∨ (65 ≤ c ∧ c ≤ 90) ∨ (97 ≤ c ∧ c ≤ 122)

/-- `dwnetsnap_id_char`. -/
def idChar (c : UInt8) : Bool := isAlnum c ∨ c = 46 ∨ c = 95 ∨ c = 45 ∨ c = 58

/-- `dwnetsnap_secret_id`. -/
def secretId (basename : List UInt8) (seq : ℕ) : Option (List UInt8) :=
  if basename = [] then none
  else
    let id := SECRET_ID_PREFIX ++ basename ++ [colon] ++ decimal seq
    if SECRET_ID_MAX ≤ id.length then none
    else some (id.map fun c => if idChar c then c else underscore)

/-! ### Encoding -/

def isBlank (c : UInt8) : Bool := c = space ∨ c = tab

/-- A line with a secret: the text up to and with the opening quote, the secret, and the text from
    the closing quote on. -/
structure SecretLine where
  (before secret after : List UInt8)

/-- `option `. -/
def OPTION : List UInt8 := ascii ['o', 'p', 't', 'i', 'o', 'n', ' ']

/-- The scan of a line from the opening quote on. -/
def parseValue (line rest : List UInt8) : Option SecretLine :=
  match rest with
  | [] => none
  | q :: value =>
    if q ≠ quote ∧ q ≠ dquote then none
    else if value.dropWhile (· ≠ q) = [] then none
    else if value.takeWhile (· ≠ q) = [] then none
    else
      some {
        before := line.take (line.length - value.length)
        secret := value.takeWhile (· ≠ q)
        after := value.dropWhile (· ≠ q) }

/-- The scan of a line for a secret option with a quoted value that is not empty. -/
def parseSecret (line : List UInt8) : Option SecretLine :=
  let start := line.dropWhile isBlank
  if ¬ OPTION.isPrefixOf start then none
  else
    let fromKey := (start.drop 7).dropWhile isBlank
    if ¬ secretOptionKey (fromKey.takeWhile fun c => !isBlank c) then none
    else parseValue line ((fromKey.dropWhile fun c => !isBlank c).dropWhile isBlank)

/-- The state of the encoding loop: the body, the secrets stored with their ids, and the vault. -/
structure EncState (σ : Type) where
  body : List UInt8 := []
  puts : List (List UInt8 × List UInt8) := []
  vault : σ

section
variable {σ : Type}

def EncState.append (st : EncState σ) (src : List UInt8) : Except (EncState σ) (EncState σ) :=
  match bufAppend st.body src with
  | some body => .ok { st with body := body }
  | none => .error st

def EncState.appendNewline (st : EncState σ) (ended : Bool) : Except (EncState σ) (EncState σ) :=
  if ended then st.append [newline] else .ok st

/-- One line of the encoding loop; an error carries the state in which the loop gave up. -/
def encodeLine (vault : Vault σ) (basename : List UInt8) (st : EncState σ)
    (line : List UInt8 × Bool) : Except (EncState σ) (EncState σ) :=
  match parseSecret line.1 with
  | none => do
    let st ← st.append line.1
    st.appendNewline line.2
  | some s =>
    if 64 ≤ st.puts.length then .error st
    else
      match secretId basename st.puts.length with
      | none => .error st
      | some id =>
        match vault.put st.vault id s.secret with
        | (v, false) => .error { st with vault := v }
        | (v, true) => do
          let st := { st with vault := v, puts := st.puts ++ [(id, s.secret)] }
          let st ← st.append s.before
          let st ← st.append (REF ++ id)
          let st ← st.append s.after
          st.appendNewline line.2

/-- The encoding loop. -/
def encodeLines (vault : Vault σ) (basename : List UInt8) :
    List (List UInt8 × Bool) → EncState σ → Except (EncState σ) (EncState σ)
  | [], st => .ok st
  | line :: rest, st => do
    let st ← encodeLine vault basename st line
    encodeLines vault basename rest st

/-- The header of a snapshot. -/
def header (libs : Libs) (plain body : List UInt8) : List UInt8 :=
  MAGIC ++ ascii ['o', 'r', 'i', 'g', '_', 's', 'h', 'a', '2', '5', '6', ':'] ++
    sha256Hex libs plain ++ [newline] ++ ascii ['o', 'r', 'i', 'g', '_', 'l', 'e', 'n', ':'] ++
    decimal plain.length ++ [newline] ++ ascii ['b', 'o', 'd', 'y', '_', 'l', 'e', 'n', ':'] ++
    decimal body.length ++ [newline] ++ ascii ['e', 'n', 'c', ':', 'z', 'l', 'i', 'b'] ++
    [newline, newline]

inductive EncodeResult where
  | ok (out : List UInt8)
  | noSecrets
  | error
  deriving DecidableEq

/-- The outcome of an encoding: the result, the secrets that were stored on the way, and the
    vault. -/
structure Encoded (σ : Type) where
  result : EncodeResult
  puts : List (List UInt8 × List UInt8)
  vault : σ
  deriving DecidableEq

/-- The exit `fail`: every stored secret is deleted again. -/
def encodeFail (vault : Vault σ) (st : EncState σ) : Encoded σ where
  result := .error
  puts := st.puts
  vault := st.puts.foldl (fun v p => vault.del v p.1) st.vault

/-- The snapshot of a body, header and compressed body. -/
def assemble (libs : Libs) (plain body : List UInt8) : Option (List UInt8) := do
  let comp ← libs.compress body
  if 256 ≤ (header libs plain body).length then none
  else
    let out ← bufAppend [] (header libs plain body)
    bufAppend out comp

/-- `dwnetsnap_encode`. -/
def encode (libs : Libs) (vault : Vault σ) (basename plain : List UInt8) (v : σ) : Encoded σ :=
  if plain = [] ∨ MAX_BYTES < plain.length ∨ basename = [] then ⟨.error, [], v⟩
  else if (search REF plain).isSome then ⟨.error, [], v⟩
  else
    match encodeLines vault basename (lines newline plain) { vault := v } with
    | .error st => encodeFail vault st
    | .ok st =>
      if st.puts = [] then ⟨.noSecrets, [], st.vault⟩
      else
        match assemble libs plain st.body with
        | none => encodeFail vault st
        | some out => ⟨.ok out, st.puts, st.vault⟩

end

/-! ### Decoding -/

inductive DecodeResult where
  | ok (plain : List UInt8)
  | raw
  | refuse (err : String)

def isSpace (c : UInt8) : Bool := c = 32 ∨ (9 ≤ c ∧ c ≤ 13)

/-- `strtoull` in base ten. -/
def strtoull (text : List UInt8) : ℕ :=
  let text := text.dropWhile isSpace
  let negative : Bool := text.head? = some 45
  let text := if text.head? = some 45 ∨ text.head? = some 43 then text.tail else text
  let n := digitsValue (text.takeWhile isDigit)
  if 18446744073709551615 < n then 18446744073709551615
  else if negative then (18446744073709551616 - n) % 18446744073709551616
  else n

/-- What the header of a snapshot says. -/
structure Header where
  sha : Option (List UInt8) := none
  origLen : Option ℕ := none
  bodyLen : Option ℕ := none
  zlib : Bool := false

/-- One header line; a number is read from the text behind the colon, which goes on behind the
    line. -/
def headerField (line text : List UInt8) (h : Header) : Header :=
  let key := line.takeWhile (· ≠ colon)
  let value := line.drop (key.length + 1)
  if key = line then h
  else if key = ascii ['o', 'r', 'i', 'g', '_', 's', 'h', 'a', '2', '5', '6'] then
    if value.length = 64 then { h with sha := some value } else h
  else if key = ascii ['o', 'r', 'i', 'g', '_', 'l', 'e', 'n'] then
    { h with origLen := some (strtoull (text.drop (key.length + 1))) }
  else if key = ascii ['b', 'o', 'd', 'y', '_', 'l', 'e', 'n'] then
    { h with bodyLen := some (strtoull (text.drop (key.length + 1))) }
  else if key = ascii ['e', 'n', 'c'] then
    if value = ascii ['z', 'l', 'i', 'b'] then { h with zlib := true } else h
  else h

/-- The loop over the header lines: `n` bytes of the header are left at the front of `text`. -/
def headerLoop : ℕ → List UInt8 → ℕ → Header → Header
  | 0, _, _, h => h
  | fuel + 1, text, n, h =>
    if n = 0 then h
    else
      let line := (text.take n).takeWhile (· ≠ newline)
      headerLoop fuel (text.drop (line.length + 1)) (n - (line.length + 1))
        (headerField line text h)

variable {σ : Type}

/-- The loop over the references of a body. -/
def resolve (vault : Vault σ) (v : σ) : ℕ → List UInt8 → List UInt8 → Except String (List UInt8)
  | 0, _, _ => .error ""
  | fuel + 1, body, rebuilt =>
    if body = [] then .ok rebuilt
    else
      match search REF body with
      | none =>
        match bufAppend rebuilt body with
        | none => .error ""
        | some rebuilt => .ok rebuilt
      | some (front, ref) =>
        match bufAppend rebuilt front with
        | none => .error ""
        | some rebuilt =>
          let id := (ref.drop REF.length).takeWhile idChar
          if id = [] ∨ SECRET_ID_MAX ≤ id.length then .error "snapshot_ref_malformed"
          else
            match vault.get v id with
            | none => .error "snapshot_vault_resolve_failed"
            | some secret =>
              if secret = [] then .error "snapshot_vault_resolve_failed"
              else
                match bufAppend rebuilt secret with
                | none => .error ""
                | some rebuilt => resolve vault v fuel (ref.drop (REF.length + id.length)) rebuilt

/-- The checks of a reconstruction against the header. -/
def verify (libs : Libs) (origLen : ℕ) (sha rebuilt : List UInt8) : DecodeResult :=
  if rebuilt.length ≠ origLen then .refuse "snapshot_length_mismatch"
  else if ¬ ciStreq (sha256Hex libs rebuilt) sha then .refuse "snapshot_sha256_mismatch"
  else .ok rebuilt

/-- The decoding of a body whose header is complete. -/
def decodeBody (libs : Libs) (vault : Vault σ) (v : σ) (sha : List UInt8) (origLen bodyLen : ℕ)
    (comp : List UInt8) : DecodeResult :=
  match libs.uncompress comp bodyLen with
  | none => .refuse "snapshot_decompress_failed"
  | some body =>
    if body.length ≠ bodyLen then .refuse "snapshot_decompress_failed"
    else
      match resolve vault v (body.length + 1) body [] with
      | .error err => .refuse err
      | .ok rebuilt => verify libs origLen sha rebuilt

/-- `dwnetsnap_decode`. -/
def decode (libs : Libs) (vault : Vault σ) (v : σ) (snap : List UInt8) : DecodeResult :=
  if snap.take MAGIC.length ≠ MAGIC then .raw
  else
    let text := snap.drop MAGIC.length
    match search [newline, newline] text with
    | none => .refuse "snapshot_header_unterminated"
    | some (head, rest) =>
      let comp := rest.drop 2
      match headerLoop head.length text head.length {} with
      | ⟨some sha, some origLen, some bodyLen, true⟩ =>
        if origLen = 0 ∨ MAX_BYTES < origLen ∨ bodyLen = 0 ∨ MAX_BYTES < bodyLen ∨ comp = [] then
          .refuse "snapshot_header_invalid"
        else decodeBody libs vault v sha origLen bodyLen comp
      | _ => .refuse "snapshot_header_invalid"

end DreamingOS.Snapshot
