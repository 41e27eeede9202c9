import MeshlyCore.StaticHttp.Pipelining

/-!
# A request in pieces

A stream may be cut anywhere, so what `read_request` makes of it should depend on its bytes alone.
The request line does: `read_until_limited` looks for one byte. The end of the header block does
not, because `read_headers_limited` looks for the terminator in each piece by itself and misses
one that is cut in two.

`readRequest_toOption` says what a request is read from, in terms of the bytes and of the first
terminator that lies in one piece (`wholeTerminator`).

**Theorem (`sameOutcome_iff`).** Two ways to cut the same bytes give the same outcome if and only
if, where the request line is in order, the first terminator in one piece is at the same place in
both, or neither header block is in order.
-/

namespace MeshlyCore.StaticHttp

open Text

/-! ## The bytes of a stream -/

namespace Reader

/-- What the peer has sent, without the cuts. -/
def bytes : Reader → Bytes
  | .eof => []
  | .failed => []
  | .chunk c rest => c.val ++ rest.bytes

/-- The stream after `n` of its bytes. -/
def drop (n : ℕ) : Reader → Reader
  | .eof => .eof
  | .failed => .failed
  | .chunk c rest =>
      if n ≤ c.val.length then rest.push (c.val.drop n) else rest.drop (n - c.val.length)

/-- The stream ends in the end of the file. -/
def AtEof : Reader → Prop
  | .eof => True
  | .failed => False
  | .chunk _ rest => rest.AtEof

/-- Where the first header terminator ends that lies in one piece. -/
def wholeTerminator : Reader → Option ℕ
  | .eof => none
  | .failed => none
  | .chunk c rest =>
      match findHeaderTerminator c.val with
      | some e => some (e + 1)
      | none => rest.wholeTerminator.map (c.val.length + ·)

@[simp] theorem bytes_push (b : Bytes) (r : Reader) : (r.push b).bytes = b ++ r.bytes := by
  unfold push
  split_ifs with h
  · rw [h, List.nil_append]
  · rfl

@[simp] theorem atEof_push (b : Bytes) (r : Reader) : (r.push b).AtEof ↔ r.AtEof := by
  unfold push
  split_ifs
  · rfl
  · rfl

@[simp] theorem atEof_ofBytes (b : Bytes) : (ofBytes b).AtEof := (atEof_push b .eof).2 trivial

@[simp] theorem bytes_drop (n : ℕ) (r : Reader) : (r.drop n).bytes = r.bytes.drop n := by
  induction r generalizing n with
  | eof => simp [drop, bytes]
  | failed => simp [drop, bytes]
  | chunk c rest ih =>
    rw [drop, bytes, List.drop_append]
    split_ifs with h
    · rw [bytes_push, Nat.sub_eq_zero_of_le h, List.drop_zero]
    · have hall : c.val.drop n = [] := List.drop_eq_nil_of_le (by omega)
      rw [ih, hall, List.nil_append]

/-- A stream without bytes is at its end. -/
theorem eq_eof {r : Reader} (hr : r.AtEof) (h : r.bytes = []) : r = .eof := by
  cases r with
  | eof => rfl
  | failed => exact hr.elim
  | chunk c rest => exact absurd (List.append_eq_nil_iff.1 h).1 c.property

theorem wholeTerminator_pos {r : Reader} {n : ℕ} (h : r.wholeTerminator = some n) : 0 < n := by
  cases r with
  | eof => cases h
  | failed => cases h
  | chunk c rest =>
    rw [wholeTerminator] at h
    cases hfind : findHeaderTerminator c.val with
    | some e =>
      simp only [hfind, Option.some.injEq] at h
      omega
    | none =>
      simp only [hfind, Option.map_eq_some_iff] at h
      obtain ⟨m, -, rfl⟩ := h
      exact Nat.add_pos_left (List.length_pos_of_ne_nil c.property) m

theorem wholeTerminator_le {r : Reader} {n : ℕ} (h : r.wholeTerminator = some n) :
    n ≤ r.bytes.length := by
  induction r generalizing n with
  | eof => cases h
  | failed => cases h
  | chunk c rest ih =>
    rw [wholeTerminator] at h
    rw [bytes, List.length_append]
    cases hfind : findHeaderTerminator c.val with
    | some e =>
      simp only [hfind, Option.some.injEq] at h
      have := lt_length_of_findHeaderTerminator hfind
      omega
    | none =>
      simp only [hfind, Option.map_eq_some_iff] at h
      obtain ⟨m, hm, rfl⟩ := h
      have := ih hm
      omega

end Reader

/-! ## The two reads -/

theorem readUntilLoop_toOption (delim : UInt8) (max : ℕ) (buf : Bytes) (r : Reader) {p : ℕ}
    (h : r.bytes.findIdx? (· == delim) = some p) :
    (readUntilLoop delim max buf r).toOption =
      if buf.length + (p + 1) > max then none
      else some (some (buf ++ r.bytes.take (p + 1)), r.drop (p + 1)) := by
  induction r generalizing buf p with
  | eof => cases h
  | failed => cases h
  | chunk c rest ih =>
    rw [Reader.bytes, List.findIdx?_append] at h
    rw [readUntilLoop, Reader.bytes, Reader.drop]
    cases hfind : c.val.findIdx? (· == delim) with
    | some q =>
      simp only [hfind, Option.some_or, Option.some.injEq] at h
      subst h
      have hlt : q + 1 ≤ c.val.length := (List.findIdx?_eq_some_iff_findIdx_eq.1 hfind).1
      rw [if_pos hlt, List.take_append_of_le_length hlt]
      dsimp only
      split_ifs <;> rfl
    | none =>
      simp only [hfind, Option.none_or, Option.map_eq_some_iff] at h
      obtain ⟨q, hq, rfl⟩ := h
      have hgt : ¬q + c.val.length + 1 ≤ c.val.length := by omega
      have hsub : q + c.val.length + 1 - c.val.length = q + 1 := by omega
      have htake : (c.val ++ rest.bytes).take (q + c.val.length + 1) =
          c.val ++ rest.bytes.take (q + 1) := by
        rw [List.take_append, hsub, List.take_of_length_le (by omega)]
      rw [if_neg hgt, hsub, htake]
      dsimp only
      split_ifs with hlong htoo htoo
      · rfl
      · omega
      · rw [ih _ hq, if_pos (by rw [List.length_append]; omega)]
      · rw [ih _ hq, if_neg (by rw [List.length_append]; omega), List.append_assoc]

/-- Without a delimiter nothing is read, unless there is nothing to read. -/
theorem readUntilLoop_toOption_of_none (delim : UInt8) (max : ℕ) (buf : Bytes) (r : Reader)
    (h : r.bytes.findIdx? (· == delim) = none) (hne : buf ≠ [] ∨ r ≠ .eof) :
    (readUntilLoop delim max buf r).toOption = none := by
  induction r generalizing buf with
  | eof =>
    have hbuf : buf ≠ [] := hne.resolve_right fun hr => hr rfl
    rw [readUntilLoop, if_neg hbuf]
    rfl
  | failed => rfl
  | chunk c rest ih =>
    rw [Reader.bytes, List.findIdx?_append, Option.or_eq_none_iff, Option.map_eq_none_iff] at h
    rw [readUntilLoop, h.1]
    dsimp only
    split_ifs
    · rfl
    · exact ih _ h.2 (.inl (by simp [c.property]))

theorem readHeadersLoop_toOption (max : ℕ) (buf : Bytes) (r : Reader) :
    (readHeadersLoop max buf r).toOption =
      r.wholeTerminator.bind fun n =>
        if buf.length + n > max then none else some (buf ++ r.bytes.take n, r.drop n) := by
  induction r generalizing buf with
  | eof => rfl
  | failed => rfl
  | chunk c rest ih =>
    rw [readHeadersLoop, Reader.wholeTerminator, Reader.bytes]
    cases hfind : findHeaderTerminator c.val with
    | some e =>
      have hlt : e + 1 ≤ c.val.length := lt_length_of_findHeaderTerminator hfind
      dsimp only [Option.bind_some]
      rw [Reader.drop, if_pos hlt, List.take_append_of_le_length hlt]
      split_ifs <;> rfl
    | none =>
      dsimp only
      cases hwhole : rest.wholeTerminator with
      | none =>
        split_ifs
        · rfl
        · rw [ih, hwhole]
          rfl
      | some n =>
        have htake : (c.val ++ rest.bytes).take (c.val.length + n) =
            c.val ++ rest.bytes.take n := by
          rw [List.take_append, Nat.add_sub_cancel_left, List.take_of_length_le (by omega)]
        have hdrop : (Reader.chunk c rest).drop (c.val.length + n) = rest.drop n := by
          have hpos := Reader.wholeTerminator_pos hwhole
          rw [Reader.drop, if_neg (by omega), Nat.add_sub_cancel_left]
        simp only [Option.map_some, Option.bind_some, htake, hdrop]
        split_ifs with hlong htoo htoo
        · rfl
        · omega
        · rw [ih, hwhole, Option.bind_some, if_pos (by rw [List.length_append]; omega)]
        · rw [ih, hwhole, Option.bind_some, if_neg (by rw [List.length_append]; omega),
            List.append_assoc]

/-! ## A request -/

/-- A request line in order: where it ends, and its method, path and version. -/
def headLine (b : Bytes) : Option (ℕ × List Char × List Char × List Char) :=
  (b.findIdx? (· == 10)).bind fun p =>
    if p + 1 > maxRequestLine then none
    else (parseRequestLine (b.take (p + 1))).toOption.map (p + 1, ·)

/-- A header block in order: not too long, in UTF-8, and with no length but zero. -/
def headBlock (block : Bytes) : Option HeaderScan :=
  if block.length > maxHeaders then none
  else
    (fromUtf8 block).bind fun headers =>
      (scanHeaders (headers.toList.splitOn '\n') ⟨0, false, false⟩).toOption.bind fun s =>
        if s.contentLength > maxBodyBytes then none else some s

theorem finishRequest_toOption (method path version : List Char) (r : Reader) :
    (finishRequest method path version r).toOption =
      r.wholeTerminator.bind fun k =>
        (headBlock (r.bytes.take k)).map fun s =>
          (some ⟨String.ofList method, String.ofList path, keepAliveOf version s⟩, r.drop k) := by
  have hread := readHeadersLoop_toOption maxHeaders [] r
  rw [finishRequest, readHeadersLimited]
  cases hwhole : r.wholeTerminator with
  | none =>
    rw [hwhole, Option.bind_none] at hread
    cases hloop : readHeadersLoop maxHeaders [] r with
    | error e => rfl
    | ok p =>
      rw [hloop] at hread
      cases hread
  | some k =>
    have hlen : (r.bytes.take k).length = k :=
      List.length_take_of_le (Reader.wholeTerminator_le hwhole)
    rw [hwhole, Option.bind_some, List.length_nil, Nat.zero_add, List.nil_append] at hread
    rw [Option.bind_some, headBlock, hlen]
    cases hloop : readHeadersLoop maxHeaders [] r with
    | error e =>
      rw [hloop] at hread
      split_ifs at hread ⊢ with hlong
      · rfl
      · cases hread
    | ok p =>
      rw [hloop] at hread
      split_ifs at hread ⊢ with hlong
      · cases hread
      · obtain rfl : p = (r.bytes.take k, r.drop k) := Option.some.inj hread
        simp only [bind, Except.bind]
        cases htext : fromUtf8 (r.bytes.take k) with
        | none => rfl
        | some headers =>
          simp only [Option.bind_some]
          cases hscan : scanHeaders (headers.toList.splitOn '\n') ⟨0, false, false⟩ with
          | error e => rfl
          | ok s =>
            simp only [Except.toOption, Option.bind_some]
            split_ifs <;> rfl

/-- **What a request is read from**: its line, and the block up to a terminator in one piece. -/
theorem readRequest_toOption {r : Reader} {n : ℕ} {method path version : List Char}
    (h : headLine r.bytes = some (n, method, path, version)) :
    (readRequest r).toOption = (finishRequest method path version (r.drop n)).toOption := by
  obtain ⟨p, hp, h⟩ := Option.bind_eq_some_iff.1 h
  split_ifs at h with hlong
  obtain ⟨l, hl, heq⟩ := Option.map_eq_some_iff.1 h
  obtain ⟨rfl, rfl⟩ := Prod.mk.inj heq
  have hread := readUntilLoop_toOption 10 maxRequestLine [] r hp
  rw [List.length_nil, Nat.zero_add, if_neg hlong, List.nil_append] at hread
  rw [readRequest, readUntilLimited]
  cases hloop : readUntilLoop 10 maxRequestLine [] r with
  | error e =>
    rw [hloop] at hread
    cases hread
  | ok q =>
    rw [hloop] at hread
    obtain rfl : q = (some (r.bytes.take (p + 1)), r.drop (p + 1)) := Option.some.inj hread
    cases hparse : parseRequestLine (r.bytes.take (p + 1)) with
    | error e =>
      rw [hparse] at hl
      cases hl
    | ok l =>
      rw [hparse] at hl
      obtain rfl := Option.some.inj hl
      simp only [bind, Except.bind, hparse]

theorem readRequest_toOption_of_none {r : Reader} (h : headLine r.bytes = none) (hr : r ≠ .eof) :
    (readRequest r).toOption = none := by
  rw [readRequest, readUntilLimited]
  cases hp : r.bytes.findIdx? (· == 10) with
  | none =>
    have hread := readUntilLoop_toOption_of_none 10 maxRequestLine [] r hp (.inr hr)
    cases hloop : readUntilLoop 10 maxRequestLine [] r with
    | error e => rfl
    | ok q =>
      rw [hloop] at hread
      cases hread
  | some p =>
    have hread := readUntilLoop_toOption 10 maxRequestLine [] r hp
    rw [List.length_nil, Nat.zero_add, List.nil_append] at hread
    rw [headLine, hp, Option.bind_some] at h
    cases hloop : readUntilLoop 10 maxRequestLine [] r with
    | error e => rfl
    | ok q =>
      rw [hloop] at hread
      split_ifs at hread h with hlong
      · cases hread
      · obtain rfl : q = (some (r.bytes.take (p + 1)), r.drop (p + 1)) := Option.some.inj hread
        cases hparse : parseRequestLine (r.bytes.take (p + 1)) with
        | error e =>
          simp only [bind, Except.bind, hparse]
          rfl
        | ok l =>
          rw [hparse] at h
          cases h

/-! ## Cutting the same bytes in two ways -/

/-- What the caller sees: the request and the bytes that are left, or that there was an error. -/
def outcome (r : Reader) : Option (Option Request × Bytes) :=
  (readRequest r).toOption.map fun p => (p.1, p.2.bytes)

/-- The header block up to the first terminator in one piece is in order. -/
def HeadInOrder (r : Reader) : Prop :=
  ∃ k, r.wholeTerminator = some k ∧ (headBlock (r.bytes.take k)).isSome

/-- After a request line in order, the header blocks end at the same place, or neither is in
order. -/
def SameHead (r r' : Reader) : Prop :=
  ∀ n line, headLine r.bytes = some (n, line) →
    (r.drop n).wholeTerminator = (r'.drop n).wholeTerminator ∨
      (¬HeadInOrder (r.drop n) ∧ ¬HeadInOrder (r'.drop n))

section SameBytes

variable {r r' : Reader} {n : ℕ} {method path version : List Char}

theorem outcome_of_headLine (h : headLine r.bytes = some (n, method, path, version)) :
    outcome r = (r.drop n).wholeTerminator.bind fun k =>
      (headBlock ((r.bytes.drop n).take k)).map fun s =>
        (some ⟨String.ofList method, String.ofList path, keepAliveOf version s⟩,
          (r.bytes.drop n).drop k) := by
  rw [outcome, readRequest_toOption h, finishRequest_toOption, Option.map_bind]
  simp only [Function.comp_def, Option.map_map, Reader.bytes_drop]

theorem outcome_eq_none (h : headLine r.bytes = some (n, method, path, version))
    (hhead : ¬HeadInOrder (r.drop n)) : outcome r = none := by
  rw [outcome_of_headLine h, Option.bind_eq_none_iff]
  intro k hk
  rw [Option.map_eq_none_iff, ← Option.not_isSome_iff_eq_none]
  intro hsome
  exact hhead ⟨k, hk, by rwa [Reader.bytes_drop]⟩

/-- A request that is read shows where its header block ended. -/
theorem wholeTerminator_eq_of_outcome (hbytes : r.bytes = r'.bytes)
    (h : headLine r.bytes = some (n, method, path, version)) (hhead : HeadInOrder (r.drop n))
    (heq : outcome r = outcome r') :
    (r.drop n).wholeTerminator = (r'.drop n).wholeTerminator := by
  obtain ⟨k, hk, hblock⟩ := hhead
  obtain ⟨s, hs⟩ := Option.isSome_iff_exists.1 hblock
  rw [Reader.bytes_drop] at hs
  rw [outcome_of_headLine h, outcome_of_headLine (hbytes ▸ h), hk, Option.bind_some, hs,
    Option.map_some] at heq
  obtain ⟨k', hk', heq⟩ := Option.bind_eq_some_iff.1 heq.symm
  obtain ⟨s', -, hpair⟩ := Option.map_eq_some_iff.1 heq
  have hrest := (Prod.mk.inj hpair).2
  have hle := Reader.wholeTerminator_le hk
  have hle' := Reader.wholeTerminator_le hk'
  have hlen := congrArg List.length hrest
  simp only [Reader.bytes_drop, ← hbytes, List.length_drop] at hle hle' hlen
  rw [hk, hk', show k = k' by omega]

/-- **The outcome is the same exactly when the header block ends at the same place**, or is in
order in neither. -/
theorem sameOutcome_iff (r r' : Reader) (hr : r.AtEof) (hr' : r'.AtEof)
    (hbytes : r.bytes = r'.bytes) : outcome r = outcome r' ↔ SameHead r r' := by
  cases hline : headLine r.bytes with
  | none =>
    refine ⟨fun _ n line hsome => (by rw [hline] at hsome; cases hsome), fun _ => ?_⟩
    by_cases hempty : r.bytes = []
    · rw [Reader.eq_eof hr hempty, Reader.eq_eof hr' (hbytes ▸ hempty)]
    · have hne : ∀ s : Reader, s.bytes = r.bytes → s ≠ .eof := by
        rintro s hs rfl
        exact hempty hs.symm
      rw [outcome, outcome, readRequest_toOption_of_none hline (hne r rfl),
        readRequest_toOption_of_none (hbytes ▸ hline) (hne r' hbytes.symm)]
  | some p =>
    obtain ⟨n, method, path, version⟩ := p
    constructor
    · intro heq n' line hline'
      rw [hline] at hline'
      obtain ⟨rfl, rfl⟩ := Prod.mk.inj (Option.some.inj hline')
      by_contra hdiff
      rw [not_or] at hdiff
      refine hdiff.2 ⟨fun hhead => hdiff.1 ?_, fun hhead => hdiff.1 ?_⟩
      · exact wholeTerminator_eq_of_outcome hbytes hline hhead heq
      · exact (wholeTerminator_eq_of_outcome hbytes.symm (hbytes ▸ hline) hhead heq.symm).symm
    · intro hsame
      rcases hsame n _ hline with hsame | ⟨hnot, hnot'⟩
      · rw [outcome_of_headLine hline, outcome_of_headLine (hbytes ▸ hline), hsame, hbytes]
      · rw [outcome_eq_none hline hnot, outcome_eq_none (hbytes ▸ hline) hnot']

end SameBytes

/-- A request with one header, in one piece. -/
def wholeRequest : Reader := .ofBytes (utf8 "GET / HTTP/1.1\r\nHost: x\r\n\r\n")

/-- The same request, cut inside its request line. -/
def cutInLine : Reader := .push (utf8 "GET /") (.ofBytes (utf8 " HTTP/1.1\r\nHost: x\r\n\r\n"))

theorem sameOutcome_cutInLine : outcome cutInLine = outcome wholeRequest := by
  have hend : ∀ r ∈ [cutInLine, wholeRequest], r.AtEof := by
    simp [cutInLine, wholeRequest]
  refine (sameOutcome_iff cutInLine wholeRequest (hend _ (by simp)) (hend _ (by simp))
    (by decide)).2 fun n line h => .inl ?_
  have hline : (headLine cutInLine.bytes).map (·.1) = some 16 := by decide
  obtain rfl : n = 16 := by simpa [h] using hline
  decide

/-- The same request, cut inside its terminator. -/
def cutInTerminator : Reader :=
  .push (utf8 "GET / HTTP/1.1\r\nHost: x\r\n") (.ofBytes (utf8 "\r\n"))

/-- The request is read in one piece, and not in two. -/
theorem cutInTerminator_fails :
    cutInTerminator.AtEof ∧ wholeRequest.AtEof ∧ cutInTerminator.bytes = wholeRequest.bytes ∧
      outcome wholeRequest = some (some ⟨"GET", "/", true⟩, []) ∧
      outcome cutInTerminator = none := by
  refine ⟨?_, ?_, by decide, by decide, by decide⟩
  · simp [cutInTerminator]
  · simp [wholeRequest]

end MeshlyCore.StaticHttp
