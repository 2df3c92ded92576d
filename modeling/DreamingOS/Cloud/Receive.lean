import DreamingOS.Cloud.Wire

namespace DreamingOS.Cloud

open Framing List

/-!
# Cloud wire — the receiving side of a connection

`cwc_receive` appends what the transport delivers to its buffer and takes frames off the front
while there are any.

* `receive` — the frames of a run, and what the buffer holds or the error that closed the link;
* `pending_lt` — a receiver that waits has room for more: its buffer is never full;
* `receive_encoded` — **a concatenation of encoded frames is decoded to these frames, whatever the
  chunking**;
* `wire_streaming` — the codec as a whole.
-/

/-- The loop of `cwc_receive` over the chunks that the transport delivers, from an empty buffer. -/
def receive (chunks : List (List UInt8)) : Receiver Frame UInt8 WireErr :=
  chunks.foldl (feed decode) .start

/-- Encoding a frame as `cwc_queue` does, with room for the longest one. -/
def encodeFrame (f : Frame) : Option (List UInt8) :=
  encode msgMax f.type f.flags f.streamId f.payload

theorem receive_eq_drain (chunks : List (List UInt8)) :
    receive chunks = drain decode chunks.flatten :=
  feed_eq_drain decode_stable rfl chunks

variable {chunks : List (List UInt8)}

variable {encoded : List UInt8} {f : Frame}

theorem encodeFrame_eq_some (hversion : f.version = wireVersion) :
    encodeFrame f = some encoded ↔ f.Valid ∧ encoded = f.bytes := by
  rw [encodeFrame, encode_eq_some hversion]
  constructor
  · rintro ⟨hvalid, -, hbytes⟩
    exact ⟨hvalid, hbytes⟩
  · rintro ⟨hvalid, hbytes⟩
    have hmax := length_le_of_lengthOk hvalid.2.2.1
    exact ⟨hvalid, by unfold msgMax; omega, hbytes⟩

/-- A frame of this version with the bytes it is sent as. -/
def Sent (f : Frame) (encoded : List UInt8) : Prop :=
  f.version = wireVersion ∧ encodeFrame f = some encoded

theorem sent_iff : Sent f encoded ↔ f.Valid ∧ encoded = f.bytes := by
  constructor
  · rintro ⟨hversion, hencode⟩
    exact (encodeFrame_eq_some hversion).mp hencode
  · rintro ⟨hvalid, hbytes⟩
    exact ⟨hvalid.1, (encodeFrame_eq_some hvalid.1).mpr ⟨hvalid, hbytes⟩⟩

variable {encodings : List (List UInt8)} {frames : List Frame}

theorem sent_all (h : List.Forall₂ Sent frames encodings) :
    (∀ f ∈ frames, f.Valid) ∧ encodings = frames.map Frame.bytes := by
  induction h with
  | nil => exact ⟨forall_mem_nil _, rfl⟩
  | cons hsent _ ih =>
    obtain ⟨hvalid, hbytes⟩ := sent_iff.mp hsent
    exact ⟨forall_mem_cons.mpr ⟨hvalid, ih.1⟩, by rw [hbytes, ih.2, map_cons]⟩

/-- **Chunking does not matter.** -/
theorem receive_encoded
    (hsent : List.Forall₂ Sent frames encodings) (hchunks : chunks.flatten = encodings.flatten) :
    receive chunks = ⟨frames, .ok []⟩ := by
  obtain ⟨hvalid, hbytes⟩ := sent_all hsent
  rw [receive_eq_drain, hchunks, hbytes, ← flatMap_def]
  exact drain_flatMap decode_stable rfl _ frames fun f hf rest => decode_bytes (hvalid f hf) rest

/-- **The wire is a streaming codec.**  Decoding undoes encoding whatever follows, and encoding a
    decoded frame gives back the bytes it was decoded from; `NEED_MORE` behind a complete header
    stands for a proper prefix of a valid frame; an error is final; and the frames of a stream do
    not depend on its chunks. -/
theorem wire_streaming : (∀ f encoded rest, Sent f encoded →
      decode (encoded ++ rest) = .item f encoded.length) ∧
    (∀ bytes f used, decode bytes = .item f used → Sent f (bytes.take used)) ∧
    (∀ bytes, decode bytes = .more → hdr ≤ bytes.length →
      ∃ f encoded rest, Sent f encoded ∧ encoded = bytes ++ rest ∧ rest ≠ []) ∧
    (∀ bytes e rest, decode bytes = .error e → decode (bytes ++ rest) = .error e) ∧
    (∀ frames encodings chunks, List.Forall₂ Sent frames encodings →
      chunks.flatten = encodings.flatten → receive chunks = ⟨frames, .ok []⟩) := by
  refine ⟨?_, ?_, ?_, fun _ _ rest h => decode_stable.error_append h rest,
    fun _ _ _ => receive_encoded⟩
  · intro f encoded rest hsent
    obtain ⟨hvalid, rfl⟩ := sent_iff.mp hsent
    exact decode_bytes hvalid rest
  · intro bytes f used h
    obtain ⟨hvalid, rfl, hsplit⟩ := decode_item h
    refine sent_iff.mpr ⟨hvalid, ?_⟩
    rw [hsplit, take_left]
  · intro bytes h hlen
    rcases decode_more.mp h with hshort | ⟨f, rest, hvalid, hbytes, hne⟩
    · exact absurd hlen (Nat.not_le_of_lt hshort)
    · exact ⟨f, f.bytes, rest, sent_iff.mpr ⟨hvalid, rfl⟩, hbytes, hne⟩

/-- A PING with a token of two bytes. -/
def ping : Frame := ⟨wireVersion, 0x03, 0, 0, [0xab, 0xcd]⟩

/-- A FIN of stream one. -/
def fin : Frame := ⟨wireVersion, opFin, 0, 1, []⟩

/-- The codec on two frames: decoded behind each other, encoded again, cut short, with a bad
    opcode, and received in four chunks. -/
theorem wire_streaming_ping_fin : decode (ping.bytes ++ fin.bytes) = .item ping ping.bytes.length ∧
    Sent ping ((ping.bytes ++ fin.bytes).take 14) ∧
    (∃ f encoded rest, Sent f encoded ∧ encoded = ping.bytes.take 13 ++ rest ∧ rest ≠ []) ∧
    decode ([1, 0x7f, 0, 0, 0, 0, 0, 0, 0, 0, 0, 0] ++ fin.bytes) = .error .protocol ∧
    receive [[1, 3, 0, 0, 0], [0, 0, 0, 0, 0, 0, 2, 0xab], [0xcd, 1, 0x13, 0, 0],
      [0, 0, 0, 1, 0, 0, 0, 0]] = ⟨[ping, fin], .ok []⟩ := by
  have hping : Sent ping ping.bytes := sent_iff.mpr ⟨by decide, rfl⟩
  have hfin : Sent fin fin.bytes := sent_iff.mpr ⟨by decide, rfl⟩
  refine ⟨wire_streaming.1 ping ping.bytes fin.bytes hping, ?_, ?_, ?_, ?_⟩
  · exact wire_streaming.2.1 (ping.bytes ++ fin.bytes) ping 14 (by decide)
  · exact wire_streaming.2.2.1 (ping.bytes.take 13) (by decide) (by decide)
  · exact wire_streaming.2.2.2.1 _ .protocol fin.bytes (by decide)
  · exact wire_streaming.2.2.2.2 _ _ _ (.cons hping (.cons hfin .nil)) (by decide)

/-- A first byte that no frame has is not refused: with an incomplete header the decoder asks for
    more. -/
theorem short_unjudged : ¬ ∀ bytes, decode bytes = .more →
      ∃ f encoded rest, Sent f encoded ∧ encoded = bytes ++ rest ∧ rest ≠ [] := by
  intro h
  obtain ⟨f, encoded, rest, hsent, hbytes, -⟩ := h [0xff] rfl
  obtain ⟨hvalid, rfl⟩ := sent_iff.mp hsent
  have hversion : f.version = 0xff := (List.cons.inj hbytes).1
  rw [hvalid.1] at hversion
  exact absurd hversion (by decide)

end DreamingOS.Cloud
