import DreamingOS.Lib.Bytes

namespace DreamingOS.V3

open Bytes

/-!
# v3 chain rules — the wire ABI

The netlink ABI of the chain-rule engine (`jmx_nl_rule_v3.h`): constants, the packed records, and
the reading of each record from the bytes of a message.  Multi-byte fields are little-endian on the
wire; a decoded field is a natural number, the signed position fields are integers and the bit
sets are machine words.
-/

/-! ### Constants -/

def JMX_RULE_ABI_V3 : ℕ := 3
def JMX_V3_PAYLOAD_MAX : ℕ := 64
def JMX_V3_CATALOG_DIGEST_LEN : ℕ := 32
def JMX_V3_MAX_STEPS_PER_RULE : ℕ := 64
def JMX_V3_MAX_PORTS_PER_RULE : ℕ := 64

def U32_MAX : ℕ := 4294967295
def U16_MAX : ℕ := 65535

/-- The v3 netlink actions. -/
def JMX_NL_ACT_RULESET_BEGIN_V3 : ℕ := 50
def JMX_NL_ACT_RULE_V3_BATCH : ℕ := 51
def JMX_NL_ACT_STEP_V3_BATCH : ℕ := 52
def JMX_NL_ACT_PORT_V3_BATCH : ℕ := 53
def JMX_NL_ACT_RULESET_COMMIT_V3 : ℕ := 54
def JMX_NL_ACT_RULESET_ABORT_V3 : ℕ := 55
def JMX_NL_ACT_RULESET_STATUS_V3 : ℕ := 56
def JMX_NL_ACT_CAPABILITY_V3 : ℕ := 57

def JMX_V3_CAP_RAW_LITERAL_CHAIN : UInt32 := 0x00000001
def JMX_V3_CAP_NOCASE : UInt32 := 0x00000002
def JMX_V3_CAP_POSITION_ABSOLUTE : UInt32 := 0x00000004
def JMX_V3_CAP_POSITION_RELATIVE : UInt32 := 0x00000008
def JMX_V3_CAP_PROTOCOL_MAPPING : UInt32 := 0x00000400

def JMX_V3_CAP_PHASE1_MASK : UInt32 :=
  JMX_V3_CAP_RAW_LITERAL_CHAIN ||| JMX_V3_CAP_NOCASE ||| JMX_V3_CAP_POSITION_ABSOLUTE |||
    JMX_V3_CAP_POSITION_RELATIVE ||| JMX_V3_CAP_PROTOCOL_MAPPING

def JMX_V3_MODE_OFF : ℕ := 0
def JMX_V3_MODE_SHADOW : ℕ := 1
def JMX_V3_MODE_ACTIVE : ℕ := 2

def JMX_V3_TX_MODE_MASK : UInt32 := 0x00000003
def JMX_V3_TX_KNOWN_FLAGS : UInt32 := JMX_V3_TX_MODE_MASK

def JMX_V3_PROTO_ANY : ℕ := 0
def JMX_V3_PROTO_UDP : ℕ := 2

def JMX_V3_DIR_ANY : ℕ := 0
def JMX_V3_DIR_BIDIRECTIONAL : ℕ := 3

def JMX_V3_MATCH_LITERAL_NOCASE : ℕ := 0x00
def JMX_V3_MATCH_LITERAL_EXACT_1 : ℕ := 0x01
def JMX_V3_MATCH_LITERAL_EXACT_2 : ℕ := 0x02

def JMX_V3_CONDITION_POSITIVE : ℕ := 1

def JMX_V3_CASE_NOCASE : ℕ := 1
def JMX_V3_CASE_EXACT : ℕ := 2

def JMX_V3_VIEW_RAW : ℕ := 0

def JMX_V3_POS_DEPTH : UInt8 := 0x01
def JMX_V3_POS_OFFSET : UInt8 := 0x02
def JMX_V3_POS_DISTANCE : UInt8 := 0x04
def JMX_V3_POS_WITHIN : UInt8 := 0x08
def JMX_V3_POS_KNOWN_MASK : UInt8 := 0x0f

def JMX_V3_PORT_SOURCE : ℕ := 1
def JMX_V3_PORT_DESTINATION : ℕ := 2
def JMX_V3_PORT_EITHER : ℕ := 3

def JMX_V3_STATUS_OK : ℕ := 0
def JMX_V3_STATUS_ERROR : ℕ := 1

def JMX_V3_STAGING_NONE : ℕ := 0
def JMX_V3_STAGING_LOADING : ℕ := 1
def JMX_V3_STAGING_FAILED : ℕ := 2

def JMX_V3_REASON_NONE : ℕ := 0
def JMX_V3_REASON_BAD_ABI : ℕ := 1
def JMX_V3_REASON_BAD_HEADER : ℕ := 2
def JMX_V3_REASON_BAD_SIZE : ℕ := 3
def JMX_V3_REASON_BAD_CRC : ℕ := 4
def JMX_V3_REASON_BAD_GENERATION : ℕ := 5
def JMX_V3_REASON_BUSY : ℕ := 6
def JMX_V3_REASON_NO_MEMORY : ℕ := 7
def JMX_V3_REASON_COUNT_MISMATCH : ℕ := 8
def JMX_V3_REASON_BAD_RECORD : ℕ := 9
def JMX_V3_REASON_CAPABILITY : ℕ := 10
def JMX_V3_REASON_BAD_REFERENCE : ℕ := 11
def JMX_V3_REASON_STEP_SEQUENCE : ℕ := 12
def JMX_V3_REASON_BUILD_FAILED : ℕ := 13
def JMX_V3_REASON_NOT_OWNER : ℕ := 15
def JMX_V3_REASON_UNSUPPORTED_ACTION : ℕ := 16

/-- The error numbers the engine returns (as `-errno`), with the two outcomes only the model has:
    a read outside an array and a loop that used up its fuel. -/
inductive Errno where
  | ENOENT | EPERM | EINVAL | ECANCELED | ESHUTDOWN | ENOMEM | EBUSY | EALREADY | E2BIG
  | EOPNOTSUPP | EOVERFLOW | ERANGE | outOfBounds | outOfFuel
  deriving DecidableEq

/-- The positive error number, as it is put into a reply's `detail`. -/
def Errno.code : Errno → ℕ
  | .EPERM => 1
  | .ENOENT => 2
  | .E2BIG => 7
  | .ENOMEM => 12
  | .EBUSY => 16
  | .EINVAL => 22
  | .ERANGE => 34
  | .EOVERFLOW => 75
  | .EOPNOTSUPP => 95
  | .ESHUTDOWN => 108
  | .EALREADY => 114
  | .ECANCELED => 125
  | .outOfBounds => 0
  | .outOfFuel => 0

/-! ### Record sizes -/

def sizeofHdr : ℕ := 32
def sizeofBegin : ℕ := 48
def sizeofRule : ℕ := 24
def sizeofStep : ℕ := 116
def sizeofPort : ℕ := 12
def sizeofStatus : ℕ := 80

/-! ### Wire records -/

/-- `struct jmx_nl_v3_hdr`. -/
structure NlHdr where
  (action abiVersion headerSize recordSize generation count payloadBytes flags crc32 : ℕ)

def NlHdr.ofBytes (bs : List UInt8) : NlHdr where
  action := fieldLE bs 0 4
  abiVersion := fieldLE bs 4 2
  headerSize := fieldLE bs 6 2
  recordSize := fieldLE bs 8 4
  generation := fieldLE bs 12 4
  count := fieldLE bs 16 4
  payloadBytes := fieldLE bs 20 4
  flags := fieldLE bs 24 4
  crc32 := fieldLE bs 28 4

/-- `struct jmx_nl_begin_v3`. -/
structure NlBegin where
  (expectedRules expectedSteps expectedPorts requiredCapabilities : ℕ)
  catalogDigest : List UInt8

def NlBegin.ofBytes (bs : List UInt8) : NlBegin where
  expectedRules := fieldLE bs 0 4
  expectedSteps := fieldLE bs 4 4
  expectedPorts := fieldLE bs 8 4
  requiredCapabilities := fieldLE bs 12 4
  catalogDigest := fieldBytes bs 16 32

/-- `struct jmx_nl_rule_v3`. -/
structure NlRule where
  (signatureRuleId appid priority requiredCaps stepCount proto dir flags : ℕ)
  reserved : List UInt8

def NlRule.ofBytes (bs : List UInt8) : NlRule where
  signatureRuleId := fieldLE bs 0 4
  appid := fieldLE bs 4 4
  priority := fieldLE bs 8 4
  requiredCaps := fieldLE bs 12 4
  stepCount := fieldLE bs 16 2
  proto := fieldLE bs 18 1
  dir := fieldLE bs 19 1
  flags := fieldLE bs 20 1
  reserved := fieldBytes bs 21 3

/-- `struct jmx_nl_step_v3`. -/
structure NlStep where
  (signatureRuleId stepIndex matcherType condition caseMode inputView positionFlags : ℕ)
  (numericEncoding literalOption : ℕ)
  reserved : List UInt8
  (depth offset distance within payloadLen referenceSource comparison adjustMode width : ℕ)
  (jumpMultiplier inlineOperand adjustmentOperand jumpBase : ℕ)
  payload : List UInt8

def NlStep.ofBytes (bs : List UInt8) : NlStep where
  signatureRuleId := fieldLE bs 0 4
  stepIndex := fieldLE bs 4 2
  matcherType := fieldLE bs 6 1
  condition := fieldLE bs 7 1
  caseMode := fieldLE bs 8 1
  inputView := fieldLE bs 9 1
  positionFlags := fieldLE bs 10 1
  numericEncoding := fieldLE bs 11 1
  literalOption := fieldLE bs 12 1
  reserved := fieldBytes bs 13 3
  depth := fieldLE bs 16 4
  offset := fieldLE bs 20 4
  distance := fieldLE bs 24 4
  within := fieldLE bs 28 4
  payloadLen := fieldLE bs 32 2
  referenceSource := fieldLE bs 34 2
  comparison := fieldLE bs 36 1
  adjustMode := fieldLE bs 37 1
  width := fieldLE bs 38 1
  jumpMultiplier := fieldLE bs 39 1
  inlineOperand := fieldLE bs 40 4
  adjustmentOperand := fieldLE bs 44 4
  jumpBase := fieldLE bs 48 4
  payload := fieldBytes bs 52 64

/-- `struct jmx_nl_port_v3`. -/
structure NlPort where
  (signatureRuleId endpoint : ℕ)
  reserved : List UInt8
  (minPort maxPort : ℕ)

def NlPort.ofBytes (bs : List UInt8) : NlPort where
  signatureRuleId := fieldLE bs 0 4
  endpoint := fieldLE bs 4 1
  reserved := fieldBytes bs 5 3
  minPort := fieldLE bs 8 2
  maxPort := fieldLE bs 10 2

/-- The `count` consecutive records of `size` bytes at the front of a payload. -/
def records {ρ : Type} (ofBytes : List UInt8 → ρ) (size : ℕ) : ℕ → List UInt8 → List ρ
  | 0, _ => []
  | count + 1, bs => ofBytes (bs.take size) :: records ofBytes size count (bs.drop size)

/-- A 32-bit word read as a signed number (the cast to `s32`). -/
def s32 (n : ℕ) : ℤ :=
  let m := n % 4294967296
  if m < 2147483648 then m else (m : ℤ) - 4294967296

/-- A signed number stored into an unsigned 32-bit word (the cast to `u32`). -/
def u32 (z : ℤ) : ℕ := (z % 4294967296).toNat

theorem s32_lt (n : ℕ) : s32 n < 2147483648 := by
  simp only [s32]
  split <;> omega

theorem u32_of_nonneg {z : ℤ} (h0 : 0 ≤ z) (h : z < 4294967296) : (u32 z : ℤ) = z := by
  rw [u32, Int.emod_eq_of_lt h0 h, Int.toNat_of_nonneg h0]

/-- All bytes are zero. -/
def bytesZero (bs : List UInt8) : Bool := bs.all (· = 0)

/-! ### Checksum -/

/-- One bit of the reflected IEEE CRC-32. -/
def crcBit (crc : UInt32) : UInt32 := (crc >>> 1) ^^^ (0xedb88320 &&& (0 - (crc &&& 1)))

def crcByte (crc : UInt32) (b : UInt8) : UInt32 := Nat.repeat crcBit 8 (crc ^^^ b.toUInt32)

/-- `payload_crc32`: IEEE CRC-32 over the payload bytes, initial and final complement. -/
def payloadCrc32 (payload : List UInt8) : UInt32 :=
  (payload.foldl crcByte 0xffffffff) ^^^ 0xffffffff

end DreamingOS.V3
