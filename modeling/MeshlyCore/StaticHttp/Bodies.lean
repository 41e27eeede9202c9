import MeshlyCore.StaticHttp.Splits

/-!
# Requests with a body

Bodies are not accepted: the server is to refuse a message that has one, or the bytes of the body
would be taken for the next request. A message has a body if it has a `Transfer-Encoding` field or
a `Content-Length` field that is not zero.

The code knows nothing of `Transfer-Encoding`, and of several `Content-Length` fields it keeps the
last.

**Theorem (`refused_iff`).** A message with a body is refused, however it is cut into pieces, if
and only if one of its `Content-Length` fields cannot be parsed, or the last of them is not zero,
or its head is not taken in at all: a bad request line, no terminator in one piece, a head that is
too long or not in UTF-8.
-/

namespace MeshlyCore.StaticHttp

open Text

/-! ## Messages -/

/-- The head of a message: its request line and its field lines, without their line ends. -/
structure Message where
  line : Bytes
  fields : List Bytes
  line_clean : ∀ b ∈ line, b ≠ 13 ∧ b ≠ 10
  fields_clean : ∀ f ∈ fields, f ≠ [] ∧ ∀ b ∈ f, b ≠ 13 ∧ b ≠ 10

/-- The field lines with their line ends, and the empty line. -/
def fieldBytes (fields : List Bytes) : Bytes := fields.flatMap (· ++ [13, 10]) ++ [13, 10]

def Message.render (m : Message) : Bytes := m.line ++ 13 :: 10 :: fieldBytes m.fields

/-- A field value without the optional whitespace around it. -/
def trimOws (s : List Char) : List Char :=
  (s.dropWhile fun c => c = ' ' ∨ c = '\t').rdropWhile fun c => c = ' ' ∨ c = '\t'

/-- The field line gives the message a body. -/
def GivesBody (field : Bytes) : Prop :=
  ∃ k v, field = utf8Chars k ++ 58 :: v ∧
    (eqIgnoreAsciiCase k "transfer-encoding".toList ∨
      (eqIgnoreAsciiCase k "content-length".toList ∧
        ∃ t n, v = utf8Chars t ∧ decimal? (trimOws t) = some n ∧ 0 < n))

/-- A message with a body. -/
structure BodyMessage extends Message where
  body : ∃ f ∈ fields, GivesBody f

/-! ## What the code takes for a length -/

/-- A `Content-Length` line, as `read_request` looks for it: its value, if that can be parsed. -/
def lengthField (line : List Char) : Option (Option ℕ) :=
  (splitOnce ':' line).bind fun (k, v) =>
    if eqIgnoreAsciiCase (trim k) "content-length".toList then some (parseUsize (trim v)) else none

/-- The values of the `Content-Length` lines, in order. -/
def lengths (fields : List Bytes) : List (Option ℕ) :=
  fields.filterMap fun f => (fromUtf8 f).bind fun s => lengthField s.toList

/-- The header loop keeps the last length, and stops at one that cannot be parsed. -/
def lastLength (n : ℕ) : List (Option ℕ) → Option ℕ
  | [] => some n
  | none :: _ => none
  | some k :: rest => lastLength k rest

theorem lastLength_eq_zero_iff (n : ℕ) (ls : List (Option ℕ)) :
    lastLength n ls = some 0 ↔
      none ∉ ls ∧ (ls = [] → n = 0) ∧ ∀ k, ls.getLast? = some (some k) → k = 0 := by
  induction ls generalizing n with
  | nil => simp [lastLength]
  | cons l ls ih =>
    cases l with
    | none => simp [lastLength]
    | some k =>
      rw [lastLength, ih]
      cases ls with
      | nil => simp
      | cons l' ls => simp

/-! ## The header loop -/

/-- One field line: the length it gives, if it gives one, is kept. -/
theorem scanHeaders_field {line : List Char} (hne : line ≠ []) (hcr : '\r' ∉ line)
    (lines : List (List Char)) (s : HeaderScan) :
    (∃ s', scanHeaders ((line ++ ['\r']) :: lines) s = scanHeaders lines s' ∧
        (lengthField line = none ∧ s'.contentLength = s.contentLength ∨
          lengthField line = some (some s'.contentLength))) ∨
      (lengthField line = some none ∧
        ∃ e, scanHeaders ((line ++ ['\r']) :: lines) s = .error e) := by
  have hstrip : (line ++ ['\r']).rdropWhile (fun c => c = '\r') = line := by
    rw [List.rdropWhile_concat_pos _ _ _ (by decide), List.rdropWhile_eq_self_iff]
    intro hne
    have hlast : line.getLast hne ≠ '\r' := fun heq => hcr (heq ▸ List.getLast_mem hne)
    simpa using hlast
  simp only [scanHeaders, hstrip, if_neg hne, lengthField]
  cases hsplit : splitOnce ':' line with
  | none => exact .inl ⟨s, rfl, .inl ⟨rfl, rfl⟩⟩
  | some kv =>
    obtain ⟨k, v⟩ := kv
    simp only [Option.bind_some]
    split_ifs with hlength hconn
    · cases hparse : parseUsize (trim v) with
      | none => exact .inr ⟨rfl, _, rfl⟩
      | some n => exact .inl ⟨_, rfl, .inr rfl⟩
    · exact .inl ⟨_, rfl, .inl ⟨rfl, contentLength_scanConnection _ s⟩⟩
    · exact .inl ⟨s, rfl, .inl ⟨rfl, rfl⟩⟩

/-- The text of a field line and of what comes after it. -/
theorem exists_text_of_field {f rest : Bytes} (hclean : ∀ b ∈ f, b ≠ 13 ∧ b ≠ 10) {cs : List Char}
    (h : utf8Chars cs = f ++ 13 :: 10 :: rest) :
    ∃ line cs', cs.splitOn '\n' = (line ++ ['\r']) :: cs'.splitOn '\n' ∧ utf8Chars line = f ∧
      '\r' ∉ line ∧ utf8Chars cs' = rest := by
  obtain ⟨line, tail, rfl, rfl, htail⟩ := exists_of_utf8Chars_eq (c := '\r') (by decide) h
  obtain ⟨none, cs', rfl, hnone, rfl⟩ :=
    exists_of_utf8Chars_eq (c := '\n') (a := []) (by decide) htail
  obtain rfl := utf8Chars_eq_nil.1 hnone
  have hcr : '\r' ∉ line := fun hmem =>
    (hclean 13 (List.mem_flatMap.2 ⟨'\r', hmem, by decide⟩)).1 rfl
  have hlf : '\n' ∉ line ++ ['\r'] := by
    rw [List.mem_append, not_or]
    exact ⟨fun hmem => (hclean 10 (List.mem_flatMap.2 ⟨'\n', hmem, by decide⟩)).2 rfl, by decide⟩
  refine ⟨line, cs', ?_, rfl, hcr, rfl⟩
  rw [List.nil_append, List.append_cons, List.splitOn_append_cons_self_of_not_mem hlf]

theorem fieldBytes_cons (f : Bytes) (fields : List Bytes) :
    fieldBytes (f :: fields) = f ++ 13 :: 10 :: fieldBytes fields := by
  simp [fieldBytes]

/-- The header loop over the fields of a message; what comes after them does not matter. -/
theorem scanHeaders_fields {fields : List Bytes}
    (hclean : ∀ f ∈ fields, f ≠ [] ∧ ∀ b ∈ f, b ≠ 13 ∧ b ≠ 10) {cs : List Char} {more : Bytes}
    (h : utf8Chars cs = fieldBytes fields ++ more) (s : HeaderScan) :
    (scanHeaders (cs.splitOn '\n') s).toOption.map (·.contentLength) =
      lastLength s.contentLength (lengths fields) := by
  induction fields generalizing cs s with
  | nil =>
    obtain ⟨line, cs', hsplit, hline, -⟩ := exists_text_of_field (f := []) (by simp) h
    obtain rfl := utf8Chars_eq_nil.1 hline
    rw [hsplit]
    rfl
  | cons f fields ih =>
    obtain ⟨hf, htail⟩ := List.forall_mem_cons.1 hclean
    rw [fieldBytes_cons, List.append_assoc] at h
    obtain ⟨line, cs', hsplit, rfl, hcr, hrest⟩ := exists_text_of_field hf.2 h
    have hne : line ≠ [] := fun hnil => hf.1 (by rw [hnil]; rfl)
    have htext : fromUtf8 (utf8Chars line) = some (String.ofList line) := by
      rw [← utf8_ofList, fromUtf8_utf8]
    have hlengths : lengths (utf8Chars line :: fields) =
        (lengthField line).toList ++ lengths fields := by
      cases hfield : lengthField line with
      | none => simp [lengths, htext, hfield]
      | some o => simp [lengths, htext, hfield]
    rw [hsplit, hlengths]
    rcases scanHeaders_field hne hcr (cs'.splitOn '\n') s with
      ⟨s', hscan, hnone | hsome⟩ | ⟨hbad, e, hscan⟩
    · rw [hscan, ih htail hrest, hnone.1, hnone.2]
      rfl
    · rw [hscan, ih htail hrest, hsome]
      rfl
    · rw [hscan, hbad]
      rfl

/-! ## Where the head ends -/

theorem suffix_of_findHeaderTerminator {xs : Bytes} {e : ℕ}
    (h : findHeaderTerminator xs = some e) :
    [10, 10] <:+ xs.take (e + 1) ∨ [13, 10, 13, 10] <:+ xs.take (e + 1) := by
  induction xs generalizing e with
  | nil => cases h
  | cons b xs ih =>
    rw [findHeaderTerminator] at h
    split_ifs at h with h1 h2
    · obtain rfl := Option.some.inj h
      obtain ⟨t, ht⟩ := h1
      rw [← ht]
      exact .inr (List.suffix_refl _)
    · obtain rfl := Option.some.inj h
      obtain ⟨t, ht⟩ := h2
      rw [← ht]
      exact .inl (List.suffix_refl _)
    · obtain ⟨e', he', rfl⟩ := Option.map_eq_some_iff.1 h
      rw [List.take_succ_cons]
      rcases ih he' with hsuf | hsuf
      · exact .inl (hsuf.trans (List.suffix_cons _ _))
      · exact .inr (hsuf.trans (List.suffix_cons _ _))

theorem suffix_of_wholeTerminator {r : Reader} {n : ℕ} (h : r.wholeTerminator = some n) :
    [10, 10] <:+ r.bytes.take n ∨ [13, 10, 13, 10] <:+ r.bytes.take n := by
  induction r generalizing n with
  | eof => cases h
  | failed => cases h
  | chunk c rest ih =>
    rw [Reader.wholeTerminator] at h
    rw [Reader.bytes]
    cases hfind : findHeaderTerminator c.val with
    | some e =>
      simp only [hfind, Option.some.injEq] at h
      subst h
      rw [List.take_append_of_le_length (lt_length_of_findHeaderTerminator hfind)]
      exact suffix_of_findHeaderTerminator hfind
    | none =>
      simp only [hfind, Option.map_eq_some_iff] at h
      obtain ⟨m, hm, rfl⟩ := h
      rw [List.take_append, Nat.add_sub_cancel_left]
      rcases ih hm with hsuf | hsuf
      · exact .inl (hsuf.trans (List.suffix_append _ _))
      · exact .inr (hsuf.trans (List.suffix_append _ _))

/-- An element that is not in the first part of a list is found in the second. -/
theorem exists_append_of_notMem {α : Type*} {x : α} {l m a b : List α} (hx : x ∉ l)
    (h : l ++ m = a ++ x :: b) : ∃ a', m = a' ++ x :: b := by
  rcases List.append_eq_append_iff.1 h with ⟨a', -, hm⟩ | ⟨c, rfl, hc⟩
  · exact ⟨a', hm⟩
  · cases c with
    | nil => exact ⟨[], hc.symm⟩
    | cons y c =>
      obtain ⟨rfl, -⟩ := List.cons.inj hc
      exact absurd (List.mem_append_right a List.mem_cons_self) hx

theorem splitOn_fieldBytes {fields : List Bytes}
    (hclean : ∀ f ∈ fields, f ≠ [] ∧ ∀ b ∈ f, b ≠ 13 ∧ b ≠ 10) :
    (fieldBytes fields).splitOn 10 = fields.map (· ++ [13]) ++ [[13], []] := by
  induction fields with
  | nil => rfl
  | cons f fields ih =>
    obtain ⟨hf, hclean⟩ := List.forall_mem_cons.1 hclean
    have hlf : 10 ∉ f ++ [13] := by
      rw [List.mem_append, not_or]
      exact ⟨fun hmem => (hf.2 10 hmem).2 rfl, by decide⟩
    rw [fieldBytes_cons, List.append_cons, List.splitOn_append_cons_self_of_not_mem hlf,
      ih hclean]
    rfl

/-- No terminator ends before the end of the head. -/
theorem fieldBytes_prefix {fields : List Bytes}
    (hclean : ∀ f ∈ fields, f ≠ [] ∧ ∀ b ∈ f, b ≠ 13 ∧ b ≠ 10) {block rest : Bytes}
    (hblock : block <+: fieldBytes fields ++ rest)
    (hterm : [10, 10] <:+ block ∨ [13, 10, 13, 10] <:+ block) : fieldBytes fields <+: block := by
  rcases List.prefix_or_prefix_of_prefix (List.prefix_append (fieldBytes fields) rest) hblock with
    hle | ⟨z, hz⟩
  · exact hle
  -- Cut at the newlines: the lines are not empty, and only the last of the head is a bare `\r`.
  have hlines : ∀ x, (∀ f : Bytes, f ≠ [] → f ++ [13] ≠ x) → ∀ y,
      (fieldBytes fields).splitOn 10 = y ++ x :: z.splitOn 10 → x :: z.splitOn 10 = [[13], []] := by
    intro x hx y hpieces
    have hnot : x ∉ fields.map (· ++ [13]) := by
      intro hmem
      obtain ⟨f, hf, rfl⟩ := List.mem_map.1 hmem
      exact hx f (hclean f hf).1 rfl
    rw [splitOn_fieldBytes hclean] at hpieces
    obtain ⟨a, ha⟩ := exists_append_of_notMem hnot hpieces
    have hlen := congrArg List.length ha
    have hpos := List.length_pos_of_ne_nil (List.splitOn_ne_nil 10 z)
    simp only [List.length_append, List.length_cons, List.length_nil] at hlen
    obtain rfl : a = [] := List.length_eq_zero_iff.1 (by omega)
    exact ha.symm
  rcases hterm with ⟨y, rfl⟩ | ⟨y, rfl⟩
  · have hpieces : (fieldBytes fields).splitOn 10 = y.splitOn 10 ++ [] :: z.splitOn 10 := by
      rw [← hz, List.append_assoc]
      exact (List.splitOn_append_cons_self y (10 :: z)).trans
        (congrArg _ (List.splitOn_append_cons_self [] z))
    have hfirst := hlines [] (by simp) _ hpieces
    simp at hfirst
  · have hpieces : (fieldBytes fields).splitOn 10 =
        (y ++ [13]).splitOn 10 ++ [13] :: z.splitOn 10 := by
      have hcut : y ++ [13, 10, 13, 10] ++ z = (y ++ [13]) ++ 10 :: ([13] ++ 10 :: z) := by simp
      rw [← hz, hcut]
      exact (List.splitOn_append_cons_self (y ++ [13]) ([13] ++ 10 :: z)).trans
        (congrArg _ (List.splitOn_append_cons_self [13] z))
    have hlast := (List.cons.inj (hlines [13] (by simp) _ hpieces)).2
    have hjoin : [10].intercalate (z.splitOn 10) = z := List.intercalate_splitOn 10
    have hnil : z = [] := by
      rw [← hjoin, hlast]
      rfl
    rw [hnil, List.append_nil] at hz
    rw [← hz]

/-! ## Messages with a body -/

/-- The head is taken in: a request line in order, and up to a terminator in one piece a block
that is not too long and in UTF-8. -/
def TakesHead (r : Reader) : Prop :=
  ∃ n line k, headLine r.bytes = some (n, line) ∧ (r.drop n).wholeTerminator = some k ∧
    k ≤ maxHeaders ∧ (fromUtf8 ((r.drop n).bytes.take k)).isSome

section Refused

variable {m : Message} {r : Reader} {rest : Bytes}

/-- A request line in order is the line of the message. -/
theorem eq_of_headLine (hr : r.bytes = m.render ++ rest) {n : ℕ}
    {line : List Char × List Char × List Char} (h : headLine r.bytes = some (n, line)) :
    (r.drop n).bytes = fieldBytes m.fields ++ rest := by
  have hlf : 10 ∉ m.line ++ [13] := by
    rw [List.mem_append, not_or]
    exact ⟨fun hmem => (m.line_clean 10 hmem).2 rfl, by decide⟩
  have hbytes : r.bytes = (m.line ++ [13]) ++ 10 :: (fieldBytes m.fields ++ rest) := by
    rw [hr, Message.render]
    simp
  obtain ⟨p, hp, h⟩ := Option.bind_eq_some_iff.1 h
  rw [hbytes, findIdx?_append_cons hlf] at hp
  obtain rfl := Option.some.inj hp
  split_ifs at h
  obtain ⟨l, -, heq⟩ := Option.map_eq_some_iff.1 h
  obtain ⟨rfl, -⟩ := Prod.mk.inj heq
  rw [Reader.bytes_drop, hbytes, List.append_cons (m.line ++ [13])]
  exact List.drop_left' (List.length_append ..)

/-- The block that is read begins with the fields of the message. -/
theorem headBlock_isSome_iff (hr : r.bytes = fieldBytes m.fields ++ rest) {k : ℕ}
    (hk : r.wholeTerminator = some k) :
    (headBlock (r.bytes.take k)).isSome ↔
      k ≤ maxHeaders ∧ (fromUtf8 (r.bytes.take k)).isSome ∧
        lastLength 0 (lengths m.fields) = some 0 := by
  have hlen : (r.bytes.take k).length = k :=
    List.length_take_of_le (Reader.wholeTerminator_le hk)
  have hblock : r.bytes.take k <+: fieldBytes m.fields ++ rest := by
    rw [← hr]
    exact List.take_prefix k r.bytes
  obtain ⟨more, hmore⟩ := fieldBytes_prefix m.fields_clean hblock (suffix_of_wholeTerminator hk)
  rw [headBlock, hlen]
  split_ifs with hlong
  · simp [hlong]
  · cases htext : fromUtf8 (r.bytes.take k) with
    | none => simp
    | some headers =>
      have hchars : utf8Chars headers.toList = fieldBytes m.fields ++ more := by
        rw [← utf8_eq_utf8Chars, fromUtf8_eq_some.1 htext, hmore]
      have hscan := scanHeaders_fields m.fields_clean hchars ⟨0, false, false⟩
      rw [← hscan]
      cases hs : scanHeaders (headers.toList.splitOn '\n') ⟨0, false, false⟩ with
      | error e => simp [Except.toOption, hs]
      | ok s =>
        simp only [Option.bind_some, hs, Except.toOption, Option.map_some, Option.some.injEq,
          Option.isSome_some, true_and, maxBodyBytes]
        have hle : k ≤ maxHeaders := not_lt.1 hlong
        split_ifs with hpos
        · simp [Nat.ne_of_gt hpos]
        · simp [hle, Nat.eq_zero_of_not_pos hpos]

theorem readRequest_isSome_iff (hr : r.bytes = m.render ++ rest) :
    (readRequest r).toOption.isSome ↔ TakesHead r ∧ lastLength 0 (lengths m.fields) = some 0 := by
  cases hline : headLine r.bytes with
  | none =>
    have hne : r ≠ .eof := by
      rintro rfl
      simp [Reader.bytes, Message.render] at hr
    rw [readRequest_toOption_of_none hline hne]
    simp [TakesHead, hline]
  | some p =>
    obtain ⟨n, method, path, version⟩ := p
    have hrest := eq_of_headLine hr hline
    rw [readRequest_toOption hline, finishRequest_toOption]
    cases hwhole : (r.drop n).wholeTerminator with
    | none => simp [TakesHead, hline, hwhole]
    | some k =>
      rw [Option.bind_some, Option.isSome_map, headBlock_isSome_iff hrest hwhole]
      constructor
      · intro h
        exact ⟨⟨n, _, k, hline, hwhole, h.1, h.2.1⟩, h.2.2⟩
      · rintro ⟨⟨n', line', k', hline', hwhole', hle, htext⟩, hlast⟩
        rw [hline] at hline'
        obtain ⟨rfl, rfl⟩ := Prod.mk.inj (Option.some.inj hline')
        rw [hwhole] at hwhole'
        obtain rfl := Option.some.inj hwhole'
        exact ⟨hle, htext, hlast⟩

end Refused

/-- **A message with a body is refused exactly when its last length is not zero**, or a length
cannot be parsed, or its head is not taken in. -/
theorem refused_iff (m : BodyMessage) (r : Reader) (rest : Bytes)
    (hr : r.bytes = m.render ++ rest) :
    (∃ e, readRequest r = .error e) ↔
      ¬TakesHead r ∨ none ∈ lengths m.fields ∨
        ∃ k, 0 < k ∧ (lengths m.fields).getLast? = some (some k) := by
  have herror : (∃ e, readRequest r = .error e) ↔ ¬(readRequest r).toOption.isSome := by
    cases readRequest r <;> simp [Except.toOption]
  have hlast := lastLength_eq_zero_iff 0 (lengths m.fields)
  rw [herror, readRequest_isSome_iff hr, hlast, not_and_or]
  refine or_congr Iff.rfl ?_
  constructor
  · intro h
    by_contra hnot
    rw [not_or, not_exists] at hnot
    refine h ⟨hnot.1, fun _ => rfl, fun k hk => ?_⟩
    by_contra hpos
    exact hnot.2 k ⟨Nat.pos_of_ne_zero hpos, hk⟩
  · rintro (hbad | ⟨k, hpos, hk⟩) ⟨hnone, -, hzero⟩
    · exact hnone hbad
    · exact absurd (hzero k hk) (Nat.ne_of_gt hpos)

/-- `POST / HTTP/1.1` with the given field lines. -/
def postMessage (fields : List String)
    (hclean : ∀ f ∈ fields.map utf8, f ≠ [] ∧ ∀ b ∈ f, b ≠ 13 ∧ b ≠ 10) : Message where
  line := utf8 "POST / HTTP/1.1"
  fields := fields.map utf8
  line_clean := by decide +kernel
  fields_clean := hclean

def lengthPost : BodyMessage where
  toMessage := postMessage ["Content-Length: 5"] (by decide +kernel)
  body := ⟨_, List.mem_singleton_self _, "Content-Length".toList, utf8 " 5", by decide +kernel,
    .inr ⟨by decide, " 5".toList, 5, by decide, by decide, by decide⟩⟩

theorem refused_lengthPost :
    ∃ e, readRequest (.ofBytes (lengthPost.render ++ utf8 "hello")) = .error e :=
  (refused_iff lengthPost _ (utf8 "hello") (by decide +kernel)).2
    (.inr (.inr ⟨5, by decide, by decide +kernel⟩))

def chunkedPost : BodyMessage where
  toMessage := postMessage ["Transfer-Encoding: chunked"] (by decide +kernel)
  body := ⟨_, List.mem_singleton_self _, "Transfer-Encoding".toList, utf8 " chunked",
    by decide +kernel, .inl (by decide)⟩

/-- The last length wins, and what the first announces is read as a request. -/
def twoLengthsPost : BodyMessage where
  toMessage := postMessage ["content-length: 28", "Content-Length: 0"] (by decide +kernel)
  body := ⟨_, List.mem_cons_self, "content-length".toList, utf8 " 28", by decide +kernel,
    .inr ⟨by decide, " 28".toList, 28, by decide, by decide, by decide⟩⟩

/-- Two messages that are not refused; the body of the second becomes a request of its own. -/
theorem body_accepted :
    outcome (.ofBytes (chunkedPost.render ++ utf8 "5\r\nhello\r\n0\r\n\r\n")) =
        some (some ⟨"POST", "/", true⟩, utf8 "5\r\nhello\r\n0\r\n\r\n") ∧
      outcome (.ofBytes (twoLengthsPost.render ++ utf8 "GET /x HTTP/1.1\r\nHost: y\r\n\r\n")) =
        some (some ⟨"POST", "/", true⟩, utf8 "GET /x HTTP/1.1\r\nHost: y\r\n\r\n") ∧
      outcome (.ofBytes (utf8 "GET /x HTTP/1.1\r\nHost: y\r\n\r\n")) =
        some (some ⟨"GET", "/x", true⟩, []) := by
  refine ⟨by decide +kernel, by decide +kernel, by decide +kernel⟩

end MeshlyCore.StaticHttp
