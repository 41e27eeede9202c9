import MeshlyCore.Protocol.Wire

/-!
# Reading a frame as its bytes come in

`read_from` reads the header and then the payload with `read_exact`, which asks the stream for what
is missing and takes what it gets. `wanted` is what is missing, after the bytes that came in so
far. So, however the stream is cut up, the bytes taken are those of one frame
(`within_append`), and `read_from` would have found the same frame in the whole stream, and
left the same rest (`readFrom_append`).

`decode_from_bytes` is `read_from` once more, for a buffer in memory. It has the check of the
header and that of the payload, but not the limit of 32 KiB, which a length of 16 bits can pass.

**Theorem (`decodeFromBytes_iff`).** The two give the same frames of a buffer if and only if the
buffer does not hold a frame that is over the limit and can be decoded.
-/

namespace MeshlyCore.Protocol.Frame

open Outcome

/-- How long a frame that starts with these bytes is, as far as they tell. A frame that is too
long ends with its header. -/
def frameLength : Bytes → ℕ
  | _ :: lo :: hi :: _ => if u16FromLe lo hi > maxFramePayload then 3 else 3 + u16FromLe lo hi
  | _ => 3

/-- What `read_exact` still asks for. -/
def wanted (acc : Bytes) : ℕ := frameLength acc - acc.length

theorem three_le_frameLength (acc : Bytes) : 3 ≤ frameLength acc := by
  unfold frameLength
  split
  · split_ifs <;> omega
  · exact le_rfl

theorem exists_header {b : Bytes} (h : 3 ≤ b.length) :
    ∃ tag lo hi rest, b = tag :: lo :: hi :: rest := by
  rcases b with _ | ⟨tag, _ | ⟨lo, _ | ⟨hi, rest⟩⟩⟩
  · cases h
  · simp at h
  · simp at h
  · exact ⟨tag, lo, hi, rest, rfl⟩

/-- The header tells the length. -/
theorem frameLength_append {acc : Bytes} (h : 3 ≤ acc.length) (xs : Bytes) :
    frameLength (acc ++ xs) = frameLength acc := by
  obtain ⟨tag, lo, hi, rest, rfl⟩ := exists_header h
  rfl

/-- What was asked for does not go past the frame. -/
theorem within_append {acc xs : Bytes} (h : acc.length ≤ frameLength acc)
    (hxs : xs.length ≤ wanted acc) : (acc ++ xs).length ≤ frameLength (acc ++ xs) := by
  have hsum : (acc ++ xs).length ≤ frameLength acc := by
    rw [List.length_append]
    unfold wanted at hxs
    omega
  by_cases hlen : 3 ≤ acc.length
  · rw [frameLength_append hlen]
    exact hsum
  · have hthree : frameLength acc = 3 := by
      rcases acc with _ | ⟨tag, _ | ⟨lo, _ | ⟨hi, rest⟩⟩⟩
      · rfl
      · rfl
      · rfl
      · simp at hlen
    rw [hthree] at hsum
    exact hsum.trans (three_le_frameLength _)

/-- `read_from` on a stream that holds a header. -/
theorem readFrom_header (json : SerdeJson) (tag lo hi : UInt8) (rest : Bytes) :
    readFrom json ⟨tag :: lo :: hi :: rest, none⟩ =
      if u16FromLe lo hi > maxFramePayload then
        .err (.tooLong (u16FromLe lo hi) maxFramePayload)
      else if u16FromLe lo hi ≤ rest.length then do
        .ok (← decode json tag (rest.take (u16FromLe lo hi)),
          ⟨rest.drop (u16FromLe lo hi), none⟩)
      else .err (.shortPayload (u16FromLe lo hi) 0) := by
  have hhead : (⟨tag :: lo :: hi :: rest, none⟩ : Reader).readExact 3 =
      .ok ([tag, lo, hi], ⟨rest, none⟩) := by
    simp [Reader.readExact]
  have hsize : readU16 [tag, lo, hi] 1 = .ok (u16FromLe lo hi) := rfl
  have htag : index [tag, lo, hi] 0 = (.ok tag : Outcome FrameError UInt8) := rfl
  unfold readFrom
  rw [hhead]
  dsimp only
  rw [htag, ok_bind, hsize, ok_bind]
  split_ifs with hlong hpos hle hle
  · rfl
  · simp [Reader.readExact, hle]
  · simp [Reader.readExact, hle]
  · have hzero : u16FromLe lo hi = 0 := by omega
    rw [hzero, List.take_zero, List.drop_zero]
  · omega

/-- A stream with less than a header gives no frame. -/
theorem three_le_of_readFrom {json : SerdeJson} {b : Bytes} {f : Frame} {r : Reader}
    (h : readFrom json ⟨b, none⟩ = .ok (f, r)) : 3 ≤ b.length := by
  by_contra hlen
  have hhead : (⟨b, none⟩ : Reader).readExact 3 = .error none := if_neg hlen
  rw [readFrom, hhead] at h
  cases h

/-- A frame that was read is as long as its header says. -/
theorem readFrom_eq_ok {json : SerdeJson} {b : Bytes} {f : Frame} {r : Reader}
    (h : readFrom json ⟨b, none⟩ = .ok (f, r)) :
    frameLength b ≤ b.length ∧ r = ⟨b.drop (frameLength b), none⟩ ∧
      ∀ xs, readFrom json ⟨b ++ xs, none⟩ = .ok (f, ⟨b.drop (frameLength b) ++ xs, none⟩) := by
  obtain ⟨tag, lo, hi, rest, rfl⟩ := exists_header (three_le_of_readFrom h)
  rw [readFrom_header] at h
  split_ifs at h with hlong hle
  cases hd : decode json tag (rest.take (u16FromLe lo hi)) with
  | err e => rw [hd] at h; cases h
  | panic => rw [hd] at h; cases h
  | ok f' =>
    rw [hd] at h
    obtain ⟨rfl, rfl⟩ : f' = f ∧ _ = r := by simpa using h
    have hsize : frameLength (tag :: lo :: hi :: rest) = 3 + u16FromLe lo hi := if_neg hlong
    have hdrop : (tag :: lo :: hi :: rest).drop (3 + u16FromLe lo hi) =
        rest.drop (u16FromLe lo hi) := by
      rw [Nat.add_comm]
      rfl
    refine ⟨?_, ?_, fun xs => ?_⟩
    · rw [hsize]
      simp only [List.length_cons]
      omega
    · rw [hsize, hdrop]
    · have hle' : u16FromLe lo hi ≤ (rest ++ xs).length := by
        rw [List.length_append]
        omega
      show readFrom json ⟨tag :: lo :: hi :: (rest ++ xs), none⟩ = _
      rw [readFrom_header, if_neg hlong, if_pos hle', List.take_append_of_le_length hle, hd,
        ok_bind, hsize, hdrop, List.drop_append_of_le_length hle]

/-- A frame in front of a stream. -/
theorem readFrom_append {json : SerdeJson} {b : Bytes} {f : Frame}
    (h : readFrom json ⟨b, none⟩ = .ok (f, ⟨[], none⟩)) (xs : Bytes) :
    readFrom json ⟨b ++ xs, none⟩ = .ok (f, ⟨xs, none⟩) := by
  obtain ⟨-, hr, happ⟩ := readFrom_eq_ok h
  have hnil : b.drop (frameLength b) = [] := by
    have := congrArg Reader.bytes hr
    exact this.symm
  rw [happ xs, hnil, List.nil_append]

/-- Bytes that are within a frame and give one are that frame's. -/
theorem readFrom_exact {json : SerdeJson} {b : Bytes} {f : Frame} {r : Reader}
    (h : readFrom json ⟨b, none⟩ = .ok (f, r)) (hwithin : b.length ≤ frameLength b) :
    r = ⟨[], none⟩ := by
  rw [(readFrom_eq_ok h).2.1, List.drop_eq_nil_of_le hwithin]

/-- **Where a frame ends** is in its own bytes: of two frames at the front of one stream neither
goes on after the other. -/
theorem readFrom_unique {json : SerdeJson} {b b' s : Bytes} {f f' : Frame}
    (h : readFrom json ⟨b, none⟩ = .ok (f, ⟨[], none⟩))
    (h' : readFrom json ⟨b', none⟩ = .ok (f', ⟨[], none⟩)) (hb : b <+: s) (hb' : b' <+: s) :
    b = b' := by
  have key : ∀ {b b' : Bytes} {f f' : Frame}, readFrom json ⟨b, none⟩ = .ok (f, ⟨[], none⟩) →
      readFrom json ⟨b', none⟩ = .ok (f', ⟨[], none⟩) → b <+: b' → b = b' := by
    intro b b' f f' h h' hle
    obtain ⟨xs, rfl⟩ := hle
    rw [readFrom_append h xs] at h'
    obtain ⟨-, hxs⟩ : f = f' ∧ xs = [] := by simpa using h'
    rw [hxs, List.append_nil]
  rcases List.prefix_or_prefix_of_prefix hb hb' with hle | hle
  · exact key h h' hle
  · exact (key h' h hle).symm

/-- Part of a frame: something is missing, and no more than the frame has. -/
theorem wanted_of_prefix {json : SerdeJson} {acc b : Bytes} {f : Frame}
    (h : readFrom json ⟨b, none⟩ = .ok (f, ⟨[], none⟩)) (hacc : acc <+: b)
    (hlt : acc.length < b.length) :
    0 < wanted acc := by
  obtain ⟨xs, rfl⟩ := hacc
  unfold wanted
  by_cases hlen : 3 ≤ acc.length
  · have hsize := frameLength_append hlen xs
    have hend : (acc ++ xs).length ≤ frameLength (acc ++ xs) := by
      have := congrArg Reader.bytes (readFrom_eq_ok h).2.1
      exact List.drop_eq_nil_iff.1 this.symm
    omega
  · have := three_le_frameLength acc
    omega

/-! ## The decoder of buffers -/

/-- Read a single frame from a buffer in memory. -/
def decodeFromBytes (json : SerdeJson) (buf : Bytes) : Outcome FrameError Frame := do
  if buf.length < 3 then .err .shortHeader else
  let tag ← index buf 0
  let len ← readU16 buf 1
  if buf.length < 3 + len then .err (.shortPayload len (buf.length - 3)) else
  let payload ← slice buf 3 (3 + len)
  decode json tag payload

/-- The buffer begins with a whole frame that is over the limit, and that can be decoded. -/
def HoldsOversize (json : SerdeJson) (buf : Bytes) : Prop :=
  ∃ tag lo hi rest f, buf = tag :: lo :: hi :: rest ∧ maxFramePayload < u16FromLe lo hi ∧
    u16FromLe lo hi ≤ rest.length ∧ decode json tag (rest.take (u16FromLe lo hi)) = .ok f

theorem holdsOversize_header {json : SerdeJson} {tag lo hi : UInt8} {rest : Bytes} :
    HoldsOversize json (tag :: lo :: hi :: rest) ↔
      maxFramePayload < u16FromLe lo hi ∧ u16FromLe lo hi ≤ rest.length ∧
        ∃ f, decode json tag (rest.take (u16FromLe lo hi)) = .ok f := by
  constructor
  · intro h
    obtain ⟨tag', lo', hi', rest', f, heq, hlong, hle, hdec⟩ := h
    obtain ⟨rfl, rfl, rfl, rfl⟩ : tag = tag' ∧ lo = lo' ∧ hi = hi' ∧ rest = rest' := by
      simpa using heq
    exact ⟨hlong, hle, f, hdec⟩
  · intro h
    obtain ⟨hlong, hle, f, hdec⟩ := h
    exact ⟨tag, lo, hi, rest, f, rfl, hlong, hle, hdec⟩

theorem decodeFromBytes_header (json : SerdeJson) (tag lo hi : UInt8) (rest : Bytes) :
    decodeFromBytes json (tag :: lo :: hi :: rest) =
      if u16FromLe lo hi ≤ rest.length then decode json tag (rest.take (u16FromLe lo hi))
      else .err (.shortPayload (u16FromLe lo hi) rest.length) := by
  have htag : index (tag :: lo :: hi :: rest) 0 = (.ok tag : Outcome FrameError UInt8) := rfl
  have hsize : readU16 (tag :: lo :: hi :: rest) 1 = .ok (u16FromLe lo hi) := rfl
  have hlen : (tag :: lo :: hi :: rest).length = 3 + rest.length := by
    simp only [List.length_cons]
    omega
  unfold decodeFromBytes
  rw [if_neg (by omega), htag, ok_bind, hsize, ok_bind, hlen]
  by_cases hle : u16FromLe lo hi ≤ rest.length
  · have hslice : slice (tag :: lo :: hi :: rest) 3 (3 + u16FromLe lo hi) =
        (.ok (rest.take (u16FromLe lo hi)) : Outcome FrameError Bytes) := by
      rw [slice_of_le (by omega) (by omega), Nat.add_sub_cancel_left]
      rfl
    rw [if_neg (by omega), if_pos hle, hslice, ok_bind]
  · rw [if_pos (by omega), if_neg hle, Nat.add_sub_cancel_left]

/-- A buffer with less than a header gives no frame. -/
theorem three_le_of_decodeFromBytes {json : SerdeJson} {buf : Bytes} {f : Frame}
    (h : decodeFromBytes json buf = .ok f) : 3 ≤ buf.length := by
  by_contra hlen
  rw [decodeFromBytes, if_pos (by omega)] at h
  cases h

/-- **Buffers and streams.** -/
theorem decodeFromBytes_iff (json : SerdeJson) (buf : Bytes) :
    (∀ f, decodeFromBytes json buf = .ok f ↔ ∃ r, readFrom json ⟨buf, none⟩ = .ok (f, r)) ↔
      ¬HoldsOversize json buf := by
  by_cases hlen : 3 ≤ buf.length
  · obtain ⟨tag, lo, hi, rest, rfl⟩ := exists_header hlen
    simp only [decodeFromBytes_header, readFrom_header, holdsOversize_header]
    by_cases hlong : maxFramePayload < u16FromLe lo hi
    · -- The stream is not read on, so the buffer must not give a frame.
      simp only [gt_iff_lt, if_pos hlong, reduceCtorEq, exists_false, iff_false]
      constructor
      · intro h hoversize
        obtain ⟨-, hle, f, hdec⟩ := hoversize
        exact h f (by rw [if_pos hle, hdec])
      · intro h f hf
        split_ifs at hf with hle
        exact h ⟨hlong, hle, f, hf⟩
    · refine iff_of_true (fun f => ?_) (fun hoversize => hlong hoversize.1)
      rw [if_neg hlong]
      split_ifs with hle
      · cases decode json tag (rest.take (u16FromLe lo hi)) <;> simp
      · simp
  · refine iff_of_true (fun f => iff_of_false (fun h => ?_) ?_) ?_
    · exact hlen (three_le_of_decodeFromBytes h)
    · intro hread
      obtain ⟨r, h⟩ := hread
      exact hlen (three_le_of_readFrom h)
    · intro hoversize
      obtain ⟨tag, lo, hi, rest, f, rfl, -⟩ := hoversize
      simp at hlen

/-- An `AuthOk` with 32769 bytes after its header. -/
def oversizeBuffer : Bytes := Tag.dataAuthOk.byte :: 1 :: 128 :: List.replicate 32769 0

/-- The buffer is decoded, and the stream refused. -/
theorem oversizeBuffer_differs :
    decodeFromBytes sampleJson oversizeBuffer = .ok .authOk ∧
      readFrom sampleJson ⟨oversizeBuffer, none⟩ = .err (.tooLong 32769 maxFramePayload) := by
  have hsize : u16FromLe 1 128 = 32769 := rfl
  refine ⟨?_, ?_⟩
  · rw [oversizeBuffer, decodeFromBytes_header, hsize, List.length_replicate, if_pos le_rfl,
      decode_byte]
    rfl
  · rw [oversizeBuffer, readFrom_header, hsize, if_pos (by decide)]

end MeshlyCore.Protocol.Frame
