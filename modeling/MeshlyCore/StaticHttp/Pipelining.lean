import MeshlyCore.StaticHttp.Request

/-!
# Pipelined requests

A client may send several requests at once. Each is a request line, header lines and an empty
line, and the server reads one request at a time.

**Theorem (`serves_iff`).** A pipeline of bodiless requests that arrives in one piece is read
back request by request, each call taking exactly its own bytes, if and only if every request
has a header.

The header block is looked for after the request line is gone. Without a header it is the bare
`\r\n`, which is no terminator: the newline before it has been consumed. The search runs on into
the next request and swallows it, or runs into the end of the stream.
-/

namespace MeshlyCore.StaticHttp

open Text

/-! ## What a client sends -/

structure Header where
  name : String
  value : String
  name_clean : ∀ c ∈ name.toList, c ≠ ':' ∧ c ≠ '\r' ∧ c ≠ '\n'
  value_clean : ∀ c ∈ value.toList, c ≠ '\r' ∧ c ≠ '\n'
  bodiless : eqIgnoreAsciiCase (trim name.toList) "content-length".toList = false

/-- `Name: value`. -/
def Header.line (h : Header) : List Char := h.name.toList ++ ':' :: ' ' :: h.value.toList

/-- `METHOD SP TARGET SP HTTP/1.1`, without its line end. -/
def requestLine (method target : String) : List Char :=
  method.toList ++ ' ' :: (target.toList ++ ' ' :: "HTTP/1.1".toList)

/-- The header lines and the empty line. -/
def headerBlock (headers : List Header) : List Char :=
  headers.flatMap (fun h => h.line ++ ['\r', '\n']) ++ ['\r', '\n']

/-- A request without a body, within the limits of the server. -/
structure RequestText where
  method : String
  target : String
  headers : List Header
  method_clean : ∀ c ∈ method.toList, c ≠ ' ' ∧ c ≠ '\r' ∧ c ≠ '\n'
  target_clean : ∀ c ∈ target.toList, c ≠ ' ' ∧ c ≠ '\r' ∧ c ≠ '\n'
  line_fits : (utf8Chars (requestLine method target ++ ['\r', '\n'])).length ≤ maxRequestLine
  headers_fit : (utf8Chars (headerBlock headers)).length ≤ maxHeaders

def RequestText.render (q : RequestText) : Bytes :=
  utf8Chars (requestLine q.method q.target ++ ['\r', '\n']) ++ utf8Chars (headerBlock q.headers)

/-- The calls of `read_request` on `r` give the requests `qs` in order, each taking its own
bytes, and then the end of the stream. -/
def Serves : List RequestText → Reader → Prop
  | [], r => ∃ r', readRequest r = .ok (none, r')
  | q :: qs, r => ∃ keepAlive,
      readRequest r =
        .ok (some ⟨q.method, q.target, keepAlive⟩, .ofBytes (qs.flatMap RequestText.render)) ∧
      Serves qs (.ofBytes (qs.flatMap RequestText.render))

/-! ## The request line -/

theorem findIdx?_append_cons {b : UInt8} {pre : Bytes} (h : b ∉ pre) (rest : Bytes) :
    (pre ++ b :: rest).findIdx? (· == b) = some pre.length := by
  induction pre with
  | nil => simp [List.findIdx?_cons]
  | cons x pre ih =>
    rw [List.mem_cons, not_or] at h
    have hx : (x == b) = false := by simpa using Ne.symm h.1
    rw [List.cons_append, List.findIdx?_cons, hx, ih h.2]
    simp

/-- A line that fits is read with its newline, and nothing else is. -/
theorem readUntilLimited_line {pre : Bytes} (h : 10 ∉ pre) {max : ℕ}
    (hmax : (pre ++ [10]).length ≤ max) (rest : Bytes) :
    readUntilLimited 10 max (.ofBytes (pre ++ 10 :: rest)) =
      .ok (some (pre ++ [10]), .ofBytes rest) := by
  have hne : pre ++ 10 :: rest ≠ [] := by simp
  have hlen : ¬(0 + (pre.length + 1) > max) := by
    rw [List.length_append, List.length_singleton] at hmax
    omega
  have htake : (pre ++ 10 :: rest).take (pre.length + 1) = pre ++ [10] := by
    simp [List.take_append]
  have hdrop : (pre ++ 10 :: rest).drop (pre.length + 1) = rest := by
    simp [List.drop_append]
  simp only [readUntilLimited, Reader.ofBytes, Reader.push, dif_neg hne, readUntilLoop,
    findIdx?_append_cons h rest, List.length_nil, if_neg hlen, htake, hdrop, List.nil_append]

section RequestLine

variable (q : RequestText)

/-- The characters of a request line are on one line. -/
theorem requestLine_clean : ∀ c ∈ requestLine q.method q.target, c ≠ '\r' ∧ c ≠ '\n' := by
  have hversion : "HTTP/1.1".toList.all fun c => c ≠ '\r' ∧ c ≠ '\n' := by decide
  intro c hc
  simp only [requestLine, List.mem_append, List.mem_cons] at hc
  rcases hc with hc | rfl | hc | rfl | hc
  · exact (q.method_clean c hc).2
  · decide
  · exact (q.target_clean c hc).2
  · decide
  · simpa using List.all_eq_true.1 hversion c hc

/-- Stripping the line end leaves the line. -/
theorem rdropWhile_crlf {cs : List Char} {p : Char → Bool} (hcr : p '\r') (hlf : p '\n')
    (hcs : ∀ c ∈ cs, p c = false) : (cs ++ ['\r', '\n']).rdropWhile p = cs := by
  have hsplit : cs ++ ['\r', '\n'] = (cs ++ ['\r']) ++ ['\n'] := by simp
  rw [hsplit, List.rdropWhile_concat_pos _ _ _ hlf, List.rdropWhile_concat_pos _ _ _ hcr]
  rw [List.rdropWhile_eq_self_iff]
  intro hne
  simp [hcs _ (List.getLast_mem hne)]

theorem parseRequestLine_render :
    parseRequestLine (utf8Chars (requestLine q.method q.target ++ ['\r', '\n'])) =
      .ok (q.method.toList, q.target.toList, "HTTP/1.1".toList) := by
  have hstrip : (requestLine q.method q.target ++ ['\r', '\n']).rdropWhile
      (fun c => c = '\r' ∨ c = '\n') = requestLine q.method q.target := by
    refine rdropWhile_crlf (by decide) (by decide) fun c hc => ?_
    simpa [not_or] using requestLine_clean q c hc
  have hmethod : ' ' ∉ q.method.toList := fun h => (q.method_clean _ h).1 rfl
  have htarget : ' ' ∉ q.target.toList := fun h => (q.target_clean _ h).1 rfl
  have hsplit : (requestLine q.method q.target).splitOn ' ' =
      [q.method.toList, q.target.toList, "HTTP/1.1".toList] := by
    rw [requestLine, List.splitOn_append_cons_self_of_not_mem hmethod,
      List.splitOn_append_cons_self_of_not_mem htarget, List.splitOn_eq_singleton (by decide)]
  have hprefix : "HTTP/".toList <+: "HTTP/1.1".toList := by decide
  rw [parseRequestLine, ← utf8_ofList, fromUtf8_utf8]
  simp only [String.toList_ofList, hstrip, hsplit, if_pos hprefix]

/-- The request line is read off the stream, and nothing else is. -/
theorem readUntilLimited_render (rest : Bytes) :
    readUntilLimited 10 maxRequestLine
        (.ofBytes (utf8Chars (requestLine q.method q.target ++ ['\r', '\n']) ++ rest)) =
      .ok (some (utf8Chars (requestLine q.method q.target ++ ['\r', '\n'])), .ofBytes rest) := by
  have hline : utf8Chars (requestLine q.method q.target ++ ['\r', '\n']) =
      utf8Chars (requestLine q.method q.target ++ ['\r']) ++ [10] := by
    simp only [utf8Chars_append, utf8Chars_cons, utf8Chars_nil, List.append_assoc]
    rfl
  have hclean : 10 ∉ utf8Chars (requestLine q.method q.target ++ ['\r']) := by
    refine notMem_utf8Chars (c := '\n') (by decide) fun hmem => ?_
    rcases List.mem_append.1 hmem with hmem | hmem
    · exact (requestLine_clean q _ hmem).2 rfl
    · revert hmem
      decide
  have hfits := q.line_fits
  rw [hline] at hfits ⊢
  rw [List.append_assoc, List.singleton_append]
  exact readUntilLimited_line hclean hfits rest

end RequestLine

/-! ## The header block -/

/-- No terminator starts inside a line. -/
theorem findHeaderTerminator_append {l : Bytes} (h : ∀ b ∈ l, b ≠ 13 ∧ b ≠ 10) (xs : Bytes) :
    findHeaderTerminator (l ++ xs) = (findHeaderTerminator xs).map (· + l.length) := by
  induction l with
  | nil => simp
  | cons b l ih =>
    obtain ⟨hb, hl⟩ := List.forall_mem_cons.1 h
    have h1 : ¬[13, 10, 13, 10] <+: b :: (l ++ xs) := fun hp =>
      hb.1 (List.cons_prefix_cons.1 hp).1.symm
    have h2 : ¬[10, 10] <+: b :: (l ++ xs) := fun hp =>
      hb.2 (List.cons_prefix_cons.1 hp).1.symm
    rw [List.cons_append, findHeaderTerminator, if_neg h1, if_neg h2, ih hl, Option.map_map]
    rfl

/-- A line end before another line is no terminator. -/
theorem findHeaderTerminator_crlf {b : UInt8} (hb : b ≠ 13 ∧ b ≠ 10) (xs : Bytes) :
    findHeaderTerminator (13 :: 10 :: b :: xs) = (findHeaderTerminator (b :: xs)).map (· + 2) := by
  have h1 : ¬[13, 10, 13, 10] <+: 13 :: 10 :: b :: xs := by
    simp [List.cons_prefix_cons, hb.1.symm]
  have h2 : ¬[10, 10] <+: 13 :: 10 :: b :: xs := by simp [List.cons_prefix_cons]
  have h3 : ¬[13, 10, 13, 10] <+: 10 :: b :: xs := by simp [List.cons_prefix_cons]
  have h4 : ¬[10, 10] <+: 10 :: b :: xs := by simp [List.cons_prefix_cons, hb.2.symm]
  rw [findHeaderTerminator, if_neg h1, if_neg h2, findHeaderTerminator, if_neg h3, if_neg h4,
    Option.map_map]
  rfl

/-- The line end before an empty line is one. -/
theorem findHeaderTerminator_crlfcrlf (xs : Bytes) :
    findHeaderTerminator (13 :: 10 :: 13 :: 10 :: xs) = some 3 := by
  rw [findHeaderTerminator, if_pos ⟨xs, rfl⟩]

/-- A line end that a terminator was looked for after is not taken for one. -/
theorem two_le_of_findHeaderTerminator {xs : Bytes} {e : ℕ}
    (h : findHeaderTerminator (13 :: 10 :: xs) = some e) : 2 ≤ e := by
  rw [findHeaderTerminator] at h
  split_ifs at h with h1 h2
  · obtain rfl := Option.some.inj h
    omega
  · have := (List.cons_prefix_cons.1 h2).1
    exact absurd this (by decide)
  · obtain ⟨e₁, h₁, rfl⟩ := Option.map_eq_some_iff.1 h
    rw [findHeaderTerminator] at h₁
    split_ifs at h₁ with h3 h4
    · obtain rfl := Option.some.inj h₁
      omega
    · obtain rfl := Option.some.inj h₁
      omega
    · obtain ⟨e₂, -, rfl⟩ := Option.map_eq_some_iff.1 h₁
      omega

theorem Header.line_clean (h : Header) : ∀ c ∈ h.line, c ≠ '\r' ∧ c ≠ '\n' := by
  intro c hc
  simp only [Header.line, List.mem_append, List.mem_cons] at hc
  rcases hc with hc | rfl | rfl | hc
  · exact (h.name_clean c hc).2
  · decide
  · decide
  · exact h.value_clean c hc

theorem Header.bytes_clean (h : Header) : ∀ b ∈ utf8Chars h.line, b ≠ 13 ∧ b ≠ 10 := by
  have hcr : 13 ∉ utf8Chars h.line :=
    notMem_utf8Chars (c := '\r') (by decide) fun hmem => (h.line_clean _ hmem).1 rfl
  have hlf : 10 ∉ utf8Chars h.line :=
    notMem_utf8Chars (c := '\n') (by decide) fun hmem => (h.line_clean _ hmem).2 rfl
  intro b hb
  exact ⟨fun heq => hcr (heq ▸ hb), fun heq => hlf (heq ▸ hb)⟩

theorem Header.bytes_ne_nil (h : Header) : utf8Chars h.line ≠ [] := by
  simp [Header.line, String.utf8EncodeChar_ne_nil]

theorem utf8Chars_headerBlock_cons (h : Header) (hs : List Header) :
    utf8Chars (headerBlock (h :: hs)) =
      utf8Chars h.line ++ 13 :: 10 :: utf8Chars (headerBlock hs) := by
  simp only [headerBlock, List.flatMap_cons, utf8Chars_append, utf8Chars_cons, utf8Chars_nil,
    List.append_assoc]
  rfl

/-- The terminator of a block with a header is found at its end. -/
theorem findHeaderTerminator_headerBlock (h : Header) (hs : List Header) (rest : Bytes) :
    findHeaderTerminator (utf8Chars (headerBlock (h :: hs)) ++ rest) =
      some ((utf8Chars (headerBlock (h :: hs))).length - 1) := by
  induction hs generalizing h with
  | nil =>
    have hblock : utf8Chars (headerBlock [h]) ++ rest =
        utf8Chars h.line ++ 13 :: 10 :: 13 :: 10 :: rest := by
      rw [utf8Chars_headerBlock_cons, List.append_assoc]
      rfl
    rw [hblock, findHeaderTerminator_append h.bytes_clean, findHeaderTerminator_crlfcrlf,
      utf8Chars_headerBlock_cons]
    have hlen : (utf8Chars (headerBlock [])).length = 2 := rfl
    simp only [Option.map_some, List.length_append, List.length_cons, hlen]
    congr 1
    omega
  | cons h' hs ih =>
    obtain ⟨b, l, hl⟩ := List.exists_cons_of_ne_nil h'.bytes_ne_nil
    have hb : b ≠ 13 ∧ b ≠ 10 := h'.bytes_clean b (by rw [hl]; exact List.mem_cons_self)
    have hnext : utf8Chars (headerBlock (h' :: hs)) ++ rest =
        b :: (l ++ 13 :: 10 :: utf8Chars (headerBlock hs) ++ rest) := by
      rw [utf8Chars_headerBlock_cons, hl]
      rfl
    have hpos : 0 < (utf8Chars (headerBlock (h' :: hs))).length := by
      rw [utf8Chars_headerBlock_cons, hl]
      simp
    rw [utf8Chars_headerBlock_cons h, List.append_assoc, findHeaderTerminator_append h.bytes_clean,
      List.cons_append, List.cons_append, hnext, findHeaderTerminator_crlf hb, ← hnext, ih h']
    simp only [Option.map_some, List.length_append, List.length_cons]
    congr 1
    omega

/-- A header block that has its terminator at its end is read off the stream. -/
theorem readHeadersLimited_block {block rest : Bytes} (hne : block ≠ []) {max : ℕ}
    (hmax : block.length ≤ max)
    (hfind : findHeaderTerminator (block ++ rest) = some (block.length - 1)) :
    readHeadersLimited max (.ofBytes (block ++ rest)) = .ok (block, .ofBytes rest) := by
  have hne' : block ++ rest ≠ [] := by simp [hne]
  have hlen : block.length - 1 + 1 = block.length := Nat.succ_pred (by simpa using hne)
  have hfits : ¬(0 + block.length > max) := by omega
  simp only [readHeadersLimited, Reader.ofBytes, Reader.push, dif_neg hne', readHeadersLoop, hfind,
    List.length_nil, hlen, if_neg hfits, List.take_left, List.drop_left, List.nil_append]

theorem contentLength_scanConnection (tokens : List (List Char)) (s : HeaderScan) :
    (scanConnection tokens s).contentLength = s.contentLength := by
  unfold scanConnection
  induction tokens generalizing s with
  | nil => rfl
  | cons tok tokens ih =>
    rw [List.foldl_cons, ih]
    split_ifs <;> rfl

/-- A header without a body is scanned without effect on the content length. -/
theorem scanHeaders_line (h : Header) (lines : List (List Char)) (s : HeaderScan) :
    ∃ s', scanHeaders ((h.line ++ ['\r']) :: lines) s = scanHeaders lines s' ∧
      s'.contentLength = s.contentLength := by
  have hstrip : (h.line ++ ['\r']).rdropWhile (fun c => c = '\r') = h.line := by
    rw [List.rdropWhile_concat_pos _ _ _ (by decide), List.rdropWhile_eq_self_iff]
    intro hne
    simpa using (h.line_clean _ (List.getLast_mem hne)).1
  have hne : h.line ≠ [] := by simp [Header.line]
  have hcolon : ':' ∉ h.name.toList := fun hmem => (h.name_clean _ hmem).1 rfl
  have hsplit : splitOnce ':' h.line = some (h.name.toList, ' ' :: h.value.toList) :=
    splitOnce_append hcolon _
  simp only [scanHeaders, hstrip, if_neg hne, hsplit, h.bodiless, Bool.false_eq_true, if_false]
  by_cases hconn : eqIgnoreAsciiCase (trim h.name.toList) "connection".toList
  · exact ⟨_, if_pos hconn, contentLength_scanConnection _ s⟩
  · exact ⟨s, if_neg hconn, rfl⟩

theorem splitOn_headerBlock (hs : List Header) :
    (headerBlock hs).splitOn '\n' = hs.map (fun h => h.line ++ ['\r']) ++ [['\r'], []] := by
  induction hs with
  | nil => rfl
  | cons h hs ih =>
    have hclean : '\n' ∉ h.line ++ ['\r'] := by
      intro hmem
      rcases List.mem_append.1 hmem with hmem | hmem
      · exact (h.line_clean _ hmem).2 rfl
      · revert hmem
        decide
    have hblock : headerBlock (h :: hs) = (h.line ++ ['\r']) ++ '\n' :: headerBlock hs := by
      simp [headerBlock]
    rw [hblock, List.splitOn_append_cons_self_of_not_mem hclean, ih]
    rfl

theorem scanHeaders_headerBlock (hs : List Header) (s : HeaderScan) :
    ∃ s', scanHeaders ((headerBlock hs).splitOn '\n') s = .ok s' ∧
      s'.contentLength = s.contentLength := by
  rw [splitOn_headerBlock]
  induction hs generalizing s with
  | nil => exact ⟨s, rfl, rfl⟩
  | cons h hs ih =>
    obtain ⟨s₁, hscan, hlen⟩ :=
      scanHeaders_line h (hs.map (fun h => h.line ++ ['\r']) ++ [['\r'], []]) s
    obtain ⟨s₂, hscan₂, hlen₂⟩ := ih s₁
    exact ⟨s₂, hscan.trans hscan₂, hlen₂.trans hlen⟩

/-! ## One request -/

theorem readRequest_requestLine (q : RequestText) (rest : Bytes) :
    readRequest (.ofBytes (q.render ++ rest)) =
      finishRequest q.method.toList q.target.toList "HTTP/1.1".toList
        (.ofBytes (utf8Chars (headerBlock q.headers) ++ rest)) := by
  rw [RequestText.render, List.append_assoc, readRequest, readUntilLimited_render]
  simp only [bind, Except.bind, parseRequestLine_render]

/-- **A request with a header is read back**, and its bytes are taken off the stream. -/
theorem readRequest_render (q : RequestText) (hq : q.headers ≠ []) (rest : Bytes) :
    ∃ keepAlive, readRequest (.ofBytes (q.render ++ rest)) =
      .ok (some ⟨q.method, q.target, keepAlive⟩, .ofBytes rest) := by
  obtain ⟨h, hs, heq⟩ := List.exists_cons_of_ne_nil hq
  have hblock : readHeadersLimited maxHeaders
      (.ofBytes (utf8Chars (headerBlock q.headers) ++ rest)) =
      .ok (utf8Chars (headerBlock q.headers), .ofBytes rest) := by
    refine readHeadersLimited_block ?_ q.headers_fit ?_
    · simp [headerBlock, String.utf8EncodeChar_ne_nil]
    · rw [heq]
      exact findHeaderTerminator_headerBlock h hs rest
  have htext : fromUtf8 (utf8Chars (headerBlock q.headers)) =
      some (String.ofList (headerBlock q.headers)) := by
    rw [← utf8_ofList, fromUtf8_utf8]
  obtain ⟨s, hscan, hlen⟩ := scanHeaders_headerBlock q.headers ⟨0, false, false⟩
  have hbody : ¬s.contentLength > maxBodyBytes := by
    rw [hlen]
    decide
  refine ⟨keepAliveOf "HTTP/1.1".toList s, ?_⟩
  rw [readRequest_requestLine, finishRequest, hblock]
  simp only [bind, Except.bind, htext, String.toList_ofList, hscan, if_neg hbody,
    String.ofList_toList]
  rfl

theorem lt_length_of_findHeaderTerminator {xs : Bytes} {e : ℕ}
    (h : findHeaderTerminator xs = some e) : e < xs.length := by
  induction xs generalizing e with
  | nil => cases h
  | cons b xs ih =>
    rw [findHeaderTerminator] at h
    split_ifs at h with h1 h2
    · obtain rfl := Option.some.inj h
      exact h1.length_le
    · obtain rfl := Option.some.inj h
      exact h2.length_le
    · obtain ⟨e₁, h₁, rfl⟩ := Option.map_eq_some_iff.1 h
      have := ih h₁
      rw [List.length_cons]
      omega

/-- Reading a header block at a bare line end takes at least one byte after it. -/
theorem readHeadersLimited_crlf {max : ℕ} {buf rest : Bytes} {r : Reader}
    (h : readHeadersLimited max (.ofBytes (13 :: 10 :: rest)) = .ok (buf, r)) :
    ∃ n, 0 < n ∧ n ≤ rest.length ∧ r = .ofBytes (rest.drop n) := by
  rw [readHeadersLimited, Reader.ofBytes, Reader.push, dif_neg (by simp), readHeadersLoop] at h
  cases hfind : findHeaderTerminator (13 :: 10 :: rest) with
  | none =>
    simp only [hfind] at h
    split_ifs at h
    cases h
  | some e =>
    simp only [hfind] at h
    split_ifs at h
    have hge := two_le_of_findHeaderTerminator hfind
    have hlt := lt_length_of_findHeaderTerminator hfind
    simp only [List.length_cons] at hlt
    obtain ⟨-, rfl⟩ := Prod.mk.inj (Except.ok.inj h)
    obtain ⟨n, rfl⟩ : ∃ n, e = n + 1 := ⟨e - 1, by omega⟩
    exact ⟨n, by omega, by omega, rfl⟩

theorem ofBytes_injective : Function.Injective Reader.ofBytes := by
  intro b c h
  unfold Reader.ofBytes Reader.push at h
  split_ifs at h with hb hc hc
  · rw [hb, hc]
  · injection h with h
    exact congrArg Subtype.val h

/-- **A request without a header is never read off by itself.** -/
theorem readRequest_render_of_nil (q : RequestText) (hq : q.headers = []) (rest : Bytes)
    (req : Option Request) :
    readRequest (.ofBytes (q.render ++ rest)) ≠ .ok (req, .ofBytes rest) := by
  intro h
  have hblock : utf8Chars (headerBlock q.headers) ++ rest = 13 :: 10 :: rest := by
    rw [hq]
    rfl
  rw [readRequest_requestLine, hblock, finishRequest] at h
  cases hread : readHeadersLimited maxHeaders (.ofBytes (13 :: 10 :: rest)) with
  | error e => simp [hread, bind, Except.bind] at h
  | ok p =>
    obtain ⟨buf, r⟩ := p
    obtain ⟨n, hpos, hle, rfl⟩ := readHeadersLimited_crlf hread
    simp only [hread, bind, Except.bind] at h
    -- Whatever comes after, the stream is what the header block left.
    have hsame : Reader.ofBytes (rest.drop n) = .ofBytes rest := by
      split at h
      · cases h
      · split at h
        · cases h
        · split_ifs at h
          exact (Prod.mk.inj (Except.ok.inj h)).2
    have hlen := congrArg List.length (ofBytes_injective hsame)
    rw [List.length_drop] at hlen
    omega

/-! ## The pipeline -/

/-- **Pipelining works exactly when every request has a header.** -/
theorem serves_iff (qs : List RequestText) :
    Serves qs (.ofBytes (qs.flatMap RequestText.render)) ↔ ∀ q ∈ qs, q.headers ≠ [] := by
  induction qs with
  | nil => exact ⟨fun _ q hq => absurd hq List.not_mem_nil, fun _ => ⟨.eof, rfl⟩⟩
  | cons q qs ih =>
    rw [List.forall_mem_cons, ← ih, List.flatMap_cons]
    constructor
    · intro hserves
      obtain ⟨keepAlive, hread, hrest⟩ := hserves
      refine ⟨fun hnil => ?_, hrest⟩
      exact readRequest_render_of_nil q hnil _ _ hread
    · intro hheaders
      obtain ⟨hq, hrest⟩ := hheaders
      obtain ⟨keepAlive, hread⟩ := readRequest_render q hq (qs.flatMap RequestText.render)
      exact ⟨keepAlive, hread, hrest⟩

/-- `GET / HTTP/1.1` and nothing more. -/
def bareRequest : RequestText where
  method := "GET"
  target := "/"
  headers := []
  method_clean := by simp
  target_clean := by simp
  line_fits := by decide
  headers_fit := by decide

/-- The server waits for headers until the peer closes. -/
theorem bareRequest_fails :
    readRequest (.ofBytes bareRequest.render) = .error .closedMidHeaders ∧
      ¬Serves [bareRequest] (.ofBytes ([bareRequest].flatMap RequestText.render)) := by
  have hread : readRequest (.ofBytes bareRequest.render) = .error .closedMidHeaders := by rfl
  refine ⟨hread, ?_⟩
  intro hserves
  obtain ⟨keepAlive, h, -⟩ := hserves
  rw [List.flatMap_singleton, hread] at h
  cases h

end MeshlyCore.StaticHttp
