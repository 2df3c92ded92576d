import DreamingOS.Lib.RingBuffer

namespace DreamingOS.Bgapi

/-!
# BGAPI transport — reading and writing messages

The framing of `apd_bgapi.c`: messages of the Bluetooth co-processor over a serial line.

* `Dev` — the device: what the line still carries, the pending events, the last error;
* `readExact`, `readMsg` — bytes and messages off the line, until the deadline;
* `command`, `nextEvent` — the two calls.

A call gets its *rounds*: how many bytes each turn of `poll` and `read` finds on the line before the
deadline of the call expires.  A turn that is interrupted or finds nothing counts as 0.  The calls
also return the messages that they take off the line.
-/

def HEADER_LEN : ℕ := 4
def MAX_PAYLOAD : ℕ := 256
def PENDING_SLOTS : ℕ := 16

instance : NeZero PENDING_SLOTS := ⟨by decide⟩

/-! ### The device -/

/-- `struct apd_bgapi_msg`, with the `len` bytes of its payload. -/
structure Msg where
  id : ℕ
  (cls msg : UInt8)
  isEvent : Bool
  payload : List UInt8
  deriving DecidableEq

/-- The errors that `set_err` writes, with the numbers in their texts. -/
inductive Failure where
  /-- "framing error: payload length %u on class 0x%02x msg 0x%02x" -/
  | framing (len : ℕ) (cls msg : UInt8)
  /-- "truncated message: class 0x%02x msg 0x%02x expected %u payload bytes" -/
  | truncated (cls msg : UInt8) (len : ℕ)
  /-- "payload of %u bytes exceeds the BGAPI limit" -/
  | tooLong (len : ℕ)
  /-- "timeout waiting for response to class 0x%02x msg 0x%02x" -/
  | noResponse (cls msg : ℕ)

/-- `struct apd_bgapi_dev`, with the bytes that were not read from its line yet. -/
structure Dev where
  line : List UInt8
  pending : RingBuffer Msg PENDING_SLOTS
  err : Option Failure := none

/-- What `apd_bgapi_open` leaves: no pending event. -/
def Dev.opened (line : List UInt8) : Dev where
  line := line
  pending := ⟨fun _ => ⟨0, 0, 0, false, []⟩, 0, 0, Nat.zero_le _⟩

/-! ### Reading -/

/-- `read_exact` with the bytes it has got: the bytes, or `none` where the deadline expires first,
    what is left on the line, and the rounds that are left. -/
def readExact (len : ℕ) : List ℕ → List UInt8 → List UInt8 →
    Option (List UInt8) × List UInt8 × List ℕ
  | [], line, got => if got.length < len then (none, line, []) else (some got, line, [])
  | k :: rounds, line, got =>
    if got.length < len then
      let n := min k (len - got.length)
      readExact len rounds (line.drop n) (got ++ line.take n)
    else (some got, line, k :: rounds)

/-- A byte of a header. -/
def headerByte (hdr : List UInt8) (i : ℕ) : UInt8 := hdr.getD i 0

/-- The eleven bits of the payload length. -/
def headerLen (hdr : List UInt8) : ℕ :=
  (headerByte hdr 0).toNat % 8 * 256 + (headerByte hdr 1).toNat

/-- The message of a header: the length bits are not part of the identifier. -/
def msgOf (hdr payload : List UInt8) : Msg where
  id := (headerByte hdr 0).toNat / 8 * 8 + (headerByte hdr 2).toNat * 2 ^ 16 +
    (headerByte hdr 3).toNat * 2 ^ 24
  cls := headerByte hdr 2
  msg := headerByte hdr 3
  isEvent := 0x80 ≤ (headerByte hdr 0).toNat
  payload := payload

/-- What `read_msg` returns. -/
inductive ReadResult where
  | msg (m : Msg)
  | timeout
  | failed
  deriving DecidableEq

/-- The payload of a message. -/
def readPayload (dev : Dev) (hdr line : List UInt8) (rounds : List ℕ) : ReadResult × Dev × List ℕ :=
  if headerLen hdr = 0 then (.msg (msgOf hdr []), { dev with line := line }, rounds)
  else
    match readExact (headerLen hdr) rounds line [] with
    | (none, line, rounds) =>
      (.failed, { dev with
        line := line
        err := some (.truncated (headerByte hdr 2) (headerByte hdr 3) (headerLen hdr)) }, rounds)
    | (some payload, line, rounds) => (.msg (msgOf hdr payload), { dev with line := line }, rounds)

/-- `read_msg`; a length that is too large flushes what has arrived. -/
def readMsg (dev : Dev) (rounds : List ℕ) : ReadResult × Dev × List ℕ :=
  match readExact HEADER_LEN rounds dev.line [] with
  | (none, line, rounds) => (.timeout, { dev with line := line }, rounds)
  | (some hdr, line, rounds) =>
    if headerLen hdr > MAX_PAYLOAD then
      (.failed, { dev with
        line := line.drop (rounds.headD 0)
        err := some (.framing (headerLen hdr) (headerByte hdr 2) (headerByte hdr 3)) }, rounds)
    else readPayload dev hdr line rounds

/-! ### Writing -/

/-- The header bits of an identifier: `id & 0xffff00f8`. -/
def maskId (id : ℕ) : ℕ := id % 2 ^ 8 / 8 * 8 + id / 2 ^ 16 % 2 ^ 16 * 2 ^ 16

/-- The class and the message of an identifier. -/
def classOf (id : ℕ) : ℕ := id / 2 ^ 16 % 2 ^ 8
def messageOf (id : ℕ) : ℕ := id / 2 ^ 24 % 2 ^ 8

/-- `write_frame`: the bytes that are written; a payload that is too long is refused. -/
def writeFrame (id : ℕ) (payload : List UInt8) : Option (List UInt8) :=
  if payload.length > MAX_PAYLOAD then none
  else
    some (UInt8.ofNat (id % 2 ^ 8 / 8 * 8 + payload.length / 256 % 8) ::
      UInt8.ofNat (payload.length % 256) :: UInt8.ofNat (classOf id) ::
      UInt8.ofNat (messageOf id) :: payload)

/-! ### The calls -/

/-- The loop of the two calls over the messages, up to the first with `stop`. -/
def readLoop (stop : Msg → Bool)
    (skip : RingBuffer Msg PENDING_SLOTS → Msg → RingBuffer Msg PENDING_SLOTS) :
    ℕ → Dev → List ℕ → List Msg → ReadResult × Dev × List Msg
  | 0, dev, _, taken => (.timeout, dev, taken)
  | fuel + 1, dev, rounds, taken =>
    match readMsg dev rounds with
    | (.msg m, dev, rounds) =>
      if stop m then (.msg m, dev, taken ++ [m])
      else
        readLoop stop skip fuel { dev with pending := skip dev.pending m } rounds (taken ++ [m])
    | (result, dev, _) => (result, dev, taken)

/-- The response to a command: no event, and its identifier. -/
def isResponse (id : ℕ) (m : Msg) : Bool := !m.isEvent && m.id = maskId id

/-- `queue_event` for an event; another message is dropped. -/
def queueEvent (pending : RingBuffer Msg PENDING_SLOTS) (m : Msg) : RingBuffer Msg PENDING_SLOTS :=
  if m.isEvent then pending.push m else pending

/-- `apd_bgapi_command`.  Every message takes at least one round, so there is a turn of the loop for
    each round, and one more. -/
def command (dev : Dev) (id : ℕ) (payload : List UInt8) (rounds : List ℕ) :
    ReadResult × Dev × List Msg :=
  match writeFrame id payload with
  | none => (.failed, { dev with err := some (.tooLong payload.length) }, [])
  | some _ =>
    match readLoop (isResponse id) queueEvent (rounds.length + 1) dev rounds [] with
    | (.timeout, dev, taken) =>
      (.failed, { dev with err := some (.noResponse (classOf id) (messageOf id)) }, taken)
    | result => result

/-- `apd_bgapi_next_event`: the pending events come first. -/
def nextEvent (dev : Dev) (rounds : List ℕ) : ReadResult × Dev × List Msg :=
  if dev.pending.count ≠ 0 then
    (.msg (dev.pending.slots (dev.pending.slot 0)), { dev with pending := dev.pending.drop }, [])
  else readLoop Msg.isEvent (fun pending _ => pending) (rounds.length + 1) dev rounds []

/-- A call, with the rounds that its deadline leaves it. -/
inductive Call where
  | command (id : ℕ) (payload : List UInt8) (rounds : List ℕ)
  | nextEvent (rounds : List ℕ)

def Call.perform (dev : Dev) : Call → ReadResult × Dev × List Msg
  | .command id payload rounds => Bgapi.command dev id payload rounds
  | .nextEvent rounds => Bgapi.nextEvent dev rounds

end DreamingOS.Bgapi
