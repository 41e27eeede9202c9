import MeshlyCore.StaticHttp.Bodies
import MeshlyCore.StaticHttp.Files

/-!
# The responses on a stream

The serve loop answers one request after the other on one stream. Nothing but the responses
themselves says where one ends and the next begins: a client reads a head up to the empty line
and then as many bytes as the head announces, and none after HEAD.

**Theorem (`responses_framed`).** The loop answers the requests that can be read from the stream, up
to the first that does not keep the connection alive or whose response cannot be written, each with
the response to it. A client that knows the methods of the requests reads back from the stream just
these responses, one for each request and in order, whatever is in their bodies. After the response
to a request that does not keep the connection alive, nothing is written.

For one response this is `readResponse_responseBytes`. The lines of a head hold no line end and
are not empty, so its first empty line is its last; and every response of `respond` announces the
length of its own body, but for HEAD. The loop is then an induction on the bytes that are left.

The file system may change from one request to the next. A write may fail; then a piece of one
more response is on the stream, and the loop is over.
-/

namespace MeshlyCore.StaticHttp

open FileTree Text

/-! ## The serve loop -/

/-- A request is read from bytes that are then gone. -/
theorem bytes_lt_of_readRequest {r r' : Reader} {req : Request}
    (h : readRequest r = .ok (some req, r')) : r'.bytes.length < r.bytes.length := by
  have hsome : (readRequest r).toOption = some (some req, r') := by rw [h]; rfl
  cases hline : headLine r.bytes with
  | none =>
    by_cases heof : r = .eof
    · subst heof
      cases h
    · rw [readRequest_toOption_of_none hline heof] at hsome
      cases hsome
  | some p =>
    obtain ⟨n, method, path, version⟩ := p
    rw [readRequest_toOption hline, finishRequest_toOption] at hsome
    obtain ⟨k, hk, hsome⟩ := Option.bind_eq_some_iff.1 hsome
    obtain ⟨s, -, heq⟩ := Option.map_eq_some_iff.1 hsome
    obtain ⟨-, rfl⟩ := Prod.mk.inj heq
    have hpos := Reader.wholeTerminator_pos hk
    have hle := Reader.wholeTerminator_le hk
    rw [Reader.bytes_drop, List.length_drop] at hle
    rw [Reader.bytes_drop, Reader.bytes_drop, List.length_drop, List.length_drop]
    omega

/-- What the serve loop has done: the requests answered, each with its response, and the bytes on
the stream. -/
structure Served where
  handled : List (Request × Response)
  written : Bytes

section Serve

variable (lower : List Char → List Char) (spec : StaticSpec) (fs : ℕ → FileSystem)
  (fails : ℕ → Option ℕ)

/-- The serve loop from its `i`-th request on. The `i`-th request is answered from the file system
`fs i`; with `fails i = some k`, writing its response fails after `k` bytes. -/
def serve (i : ℕ) (r : Reader) : Served :=
  match h : readRequest r with
  | .error _ => ⟨[], []⟩
  | .ok (none, _) => ⟨[], []⟩
  | .ok (some req, r') =>
      have : r'.bytes.length < r.bytes.length := bytes_lt_of_readRequest h
      let response := respond lower spec (fs i) req
      match fails i with
      | some k => ⟨[], (responseBytes response).take k⟩
      | none =>
          if req.keepAlive then
            let more := serve (i + 1) r'
            ⟨(req, response) :: more.handled, responseBytes response ++ more.written⟩
          else ⟨[(req, response)], responseBytes response⟩
termination_by r.bytes.length

end Serve

/-- The requests that can be read from a stream, one after the other. -/
def requestsFrom (r : Reader) : List Request :=
  match h : readRequest r with
  | .error _ => []
  | .ok (none, _) => []
  | .ok (some req, r') =>
      have : r'.bytes.length < r.bytes.length := bytes_lt_of_readRequest h
      req :: requestsFrom r'
termination_by r.bytes.length

/-- The requests up to the first that does not keep the connection alive. -/
def upToClose : List Request → List Request
  | [] => []
  | req :: reqs => if req.keepAlive then req :: upToClose reqs else [req]

theorem requestsFrom_of_error {r : Reader} {e : HttpError} (h : readRequest r = .error e) :
    requestsFrom r = [] := by
  rw [requestsFrom]
  split <;> simp_all

theorem requestsFrom_of_none {r r' : Reader} (h : readRequest r = .ok (none, r')) :
    requestsFrom r = [] := by
  rw [requestsFrom]
  split <;> simp_all

theorem requestsFrom_of_some {r r' : Reader} {req : Request}
    (h : readRequest r = .ok (some req, r')) : requestsFrom r = req :: requestsFrom r' := by
  rw [requestsFrom]
  split <;> simp_all

theorem upToClose_cons (req : Request) (reqs : List Request) :
    (upToClose (req :: reqs))[0]? = some req := by
  rw [upToClose]
  split_ifs <;> rfl

/-! ## A client -/

/-- The bytes before the first empty line, and those after it. -/
def takeHead : Bytes → Option (Bytes × Bytes)
  | [] => none
  | b :: bs =>
      if [13, 10, 13, 10] <+: b :: bs then some ([], bs.drop 3)
      else (takeHead bs).map fun p => (b :: p.1, p.2)

/-- The lines of a head, without their line ends. -/
def headLines (head : List Char) : List (List Char) :=
  (head.splitOn '\n').map fun line => line.rdropWhile (· = '\r')

def httpVersion : List Char := ['H', 'T', 'T', 'P', '/', '1', '.', '1']

/-- `HTTP/1.1 SP STATUS SP TEXT`. -/
def parseStatusLine (line : List Char) : Option (ℕ × String) := do
  let (version, rest) ← splitOnce ' ' line
  let (status, text) ← splitOnce ' ' rest
  if version = httpVersion then
    let n ← decimal? status
    return (n, String.ofList text)
  else none

/-- `NAME: VALUE`, with optional whitespace around the value. -/
def parseField (line : List Char) : Option (String × String) :=
  (splitOnce ':' line).map fun p => (String.ofList p.1, String.ofList (trimOws p.2))

def parseHead (head : List Char) : Option (ℕ × String × List (String × String)) :=
  match headLines head with
  | [] => none
  | line :: fields => do
      let (status, text) ← parseStatusLine line
      let headers ← fields.mapM parseField
      return (status, text, headers)

/-- The length that the headers announce. -/
def announcedLength (headers : List (String × String)) : Option ℕ :=
  (headers.find? fun p => eqIgnoreAsciiCase p.1.toList "content-length".toList).bind fun p =>
    decimal? p.2.toList

/-- The length of the body of a response to a request with this method. -/
def bodyLength (method : String) (headers : List (String × String)) : Option ℕ :=
  if method = "HEAD" then some 0 else announcedLength headers

/-- One response to a request with this method, and what comes after it. -/
def readResponse (method : String) (b : Bytes) : Option (Response × Bytes) := do
  let (head, rest) ← takeHead b
  let text ← fromUtf8 head
  let (status, statusText, headers) ← parseHead text.toList
  let len ← bodyLength method headers
  if rest.length < len then none
  else return (⟨status, statusText, headers, rest.take len⟩, rest.drop len)

/-- The responses to requests with these methods, and what comes after them. -/
def readResponses : List String → Bytes → Option (List Response × Bytes)
  | [], b => some ([], b)
  | method :: methods, b => do
      let (response, b) ← readResponse method b
      let (responses, b) ← readResponses methods b
      return (response :: responses, b)

/-! ## Where a head ends -/

theorem takeHead_append {l : Bytes} (h : 13 ∉ l) (xs : Bytes) :
    takeHead (l ++ xs) = (takeHead xs).map fun p => (l ++ p.1, p.2) := by
  induction l with
  | nil => simp
  | cons b l ih =>
    rw [List.mem_cons, not_or] at h
    have hnot : ¬[13, 10, 13, 10] <+: b :: (l ++ xs) := fun hp =>
      h.1 (List.cons_prefix_cons.1 hp).1
    rw [List.cons_append, takeHead, if_neg hnot, ih h.2, Option.map_map]
    rfl

/-- A line end before another line is no empty line. -/
theorem takeHead_crlf {l : Bytes} (hne : l ≠ []) (h : 13 ∉ l) (xs : Bytes) :
    takeHead (13 :: 10 :: (l ++ xs)) =
      (takeHead (l ++ xs)).map fun p => (13 :: 10 :: p.1, p.2) := by
  obtain ⟨b, l, rfl⟩ := List.exists_cons_of_ne_nil hne
  rw [List.mem_cons, not_or] at h
  have hnot : ¬[13, 10, 13, 10] <+: 13 :: 10 :: (b :: l ++ xs) := by
    simp [List.cons_prefix_cons, h.1]
  have hnot' : ¬[13, 10, 13, 10] <+: 10 :: (b :: l ++ xs) := by simp [List.cons_prefix_cons]
  rw [takeHead, if_neg hnot, takeHead, if_neg hnot', Option.map_map]
  rfl

/-- **The first empty line of a head is its last.** -/
theorem takeHead_fieldBytes {fields : List Bytes} (hne : fields ≠ [])
    (hclean : ∀ f ∈ fields, f ≠ [] ∧ 13 ∉ f) (rest : Bytes) :
    takeHead (fieldBytes fields ++ rest) = some ([13, 10].intercalate fields, rest) := by
  induction fields with
  | nil => exact absurd rfl hne
  | cons f fields ih =>
    obtain ⟨hf, hclean⟩ := List.forall_mem_cons.1 hclean
    rw [fieldBytes_cons, List.append_assoc, takeHead_append hf.2]
    cases fields with
    | nil =>
      have hend : takeHead (13 :: 10 :: fieldBytes [] ++ rest) = some ([], rest) := by
        rw [List.cons_append, takeHead]
        exact if_pos ⟨rest, rfl⟩
      rw [hend]
      simp
    | cons g fields =>
      have hg := (List.forall_mem_cons.1 hclean).1
      have hnext : 13 :: 10 :: fieldBytes (g :: fields) ++ rest =
          13 :: 10 :: (g ++ (13 :: 10 :: fieldBytes fields ++ rest)) := by
        rw [fieldBytes_cons]
        simp
      have hback : g ++ (13 :: 10 :: fieldBytes fields ++ rest) =
          fieldBytes (g :: fields) ++ rest := by
        rw [fieldBytes_cons]
        simp
      rw [hnext, takeHead_crlf hg.1 hg.2, hback, ih (by simp) hclean]
      simp

theorem utf8Chars_intercalate (lines : List (List Char)) :
    utf8Chars (['\r', '\n'].intercalate lines) = [13, 10].intercalate (lines.map utf8Chars) := by
  induction lines with
  | nil => rfl
  | cons line lines ih =>
    cases lines with
    | nil => simp
    | cons next lines =>
      rw [List.intercalate_cons_cons, utf8Chars_append, utf8Chars_append, ih]
      simp only [List.map_cons, List.intercalate_cons_cons]
      rfl

/-- A line of a head. -/
def OnOneLine (line : List Char) : Prop := ∀ c ∈ line, c ≠ '\r' ∧ c ≠ '\n'

-- Not by `inferInstance`, which would go through all characters.
instance (line : List Char) : Decidable (OnOneLine line) :=
  List.decidableBAll (fun c => c ≠ '\r' ∧ c ≠ '\n') line

theorem headLines_intercalate {lines : List (List Char)} (hne : lines ≠ [])
    (h : ∀ line ∈ lines, OnOneLine line) :
    headLines (['\r', '\n'].intercalate lines) = lines := by
  induction lines with
  | nil => exact absurd rfl hne
  | cons line lines ih =>
    obtain ⟨hline, h⟩ := List.forall_mem_cons.1 h
    have hlf : '\n' ∉ line := fun hmem => (hline _ hmem).2 rfl
    have hstrip : line.rdropWhile (· = '\r') = line := by
      rw [List.rdropWhile_eq_self_iff]
      intro hne
      simpa using (hline _ (List.getLast_mem hne)).1
    cases lines with
    | nil => simp [headLines, List.splitOn_eq_singleton hlf, hstrip]
    | cons next lines =>
      have hlf' : '\n' ∉ line ++ ['\r'] := by
        rw [List.mem_append, not_or]
        exact ⟨hlf, by decide⟩
      have hcut : ['\r', '\n'].intercalate (line :: next :: lines) =
          (line ++ ['\r']) ++ '\n' :: ['\r', '\n'].intercalate (next :: lines) := by
        rw [List.intercalate_cons_cons]
        simp
      have ih := ih (by simp) h
      rw [headLines] at ih ⊢
      rw [hcut, List.splitOn_append_cons_self_of_not_mem hlf', List.map_cons, ih,
        List.rdropWhile_concat_pos _ _ _ (by decide), hstrip]

/-! ## One response -/

def statusLine (r : Response) : List Char :=
  ("HTTP/1.1 " ++ toString r.status ++ " " ++ r.statusText).toList

theorem statusLine_eq (r : Response) :
    statusLine r =
      httpVersion ++ ' ' :: ((toString r.status).toList ++ ' ' :: r.statusText.toList) := by
  have hversion : "HTTP/1.1 ".toList = httpVersion ++ [' '] := by decide
  have hspace : " ".toList = [' '] := by decide
  simp only [statusLine, String.toList_append, hversion, hspace, List.append_assoc,
    List.cons_append, List.nil_append]

def fieldLine (p : String × String) : List Char := p.1.toList ++ ':' :: ' ' :: p.2.toList

/-- A value that a client reads as it was written. -/
def IsValue (v : String) : Prop := OnOneLine v.toList ∧ trimOws (' ' :: v.toList) = v.toList

instance (v : String) : Decidable (IsValue v) := inferInstanceAs (Decidable (_ ∧ _))

/-- A response whose head is read as it was written. -/
structure Response.Clean (r : Response) : Prop where
  text : OnOneLine r.statusText.toList
  names : ∀ p ∈ r.headers, OnOneLine p.1.toList ∧ ':' ∉ p.1.toList
  values : ∀ p ∈ r.headers, IsValue p.2

theorem isValue_toString (n : ℕ) : IsValue (toString n) := by
  have hdigit : ∀ c ∈ (toString n).toList, c.isDigit := fun c => isDigit_of_mem_toString
  refine ⟨fun c hc => ⟨?_, ?_⟩, ?_⟩
  · rintro rfl
    exact absurd (hdigit _ hc) (by decide)
  · rintro rfl
    exact absurd (hdigit _ hc) (by decide)
  · have hnot : ∀ c ∈ (toString n).toList, ¬(decide (c = ' ' ∨ c = '\t') = true) := by
      intro c hc
      rw [decide_eq_true_eq]
      rintro (rfl | rfl)
      · exact absurd (hdigit _ hc) (by decide)
      · exact absurd (hdigit _ hc) (by decide)
    have hdrop : (toString n).toList.dropWhile (fun c => c = ' ' ∨ c = '\t') =
        (toString n).toList := by
      cases hs : (toString n).toList with
      | nil => rfl
      | cons c s => exact List.dropWhile_cons_of_neg (hnot c (by rw [hs]; exact List.mem_cons_self))
    rw [trimOws, List.dropWhile_cons_of_pos (by decide), hdrop, List.rdropWhile_eq_self_iff]
    exact fun hne => hnot _ (List.getLast_mem hne)

theorem toList_responseHead (r : Response) :
    (responseHead r).toList =
      (statusLine r :: r.headers.map fieldLine).flatMap (· ++ ['\r', '\n']) ++ ['\r', '\n'] := by
  have hcolon : ": ".toList = [':', ' '] := by decide
  have hcrlf : "\r\n".toList = ['\r', '\n'] := by decide
  have hfields : ∀ headers : List (String × String),
      (String.join (headers.map fun p => p.1 ++ ": " ++ p.2 ++ "\r\n")).toList =
        (headers.map fieldLine).flatMap (· ++ ['\r', '\n']) := by
    intro headers
    induction headers with
    | nil => rfl
    | cons p headers ih =>
      rw [List.map_cons, String.join_cons, String.toList_append, ih, List.map_cons,
        List.flatMap_cons]
      simp only [String.toList_append, hcolon, hcrlf, fieldLine, List.append_assoc,
        List.cons_append, List.nil_append]
  rw [List.flatMap_cons, ← hfields]
  simp only [responseHead, String.toList_append, hcrlf, statusLine, List.append_assoc]

theorem responseBytes_eq (r : Response) :
    responseBytes r =
      fieldBytes ((statusLine r :: r.headers.map fieldLine).map utf8Chars) ++ r.body := by
  have hlines : ∀ lines : List (List Char),
      utf8Chars (lines.flatMap (· ++ ['\r', '\n'])) =
        (lines.map utf8Chars).flatMap (· ++ [13, 10]) := by
    intro lines
    rw [utf8Chars_flatMap, List.flatMap_map]
    simp only [utf8Chars_append]
    rfl
  rw [responseBytes, utf8_eq_utf8Chars, toList_responseHead, utf8Chars_append, hlines]
  rfl

theorem parseStatusLine_statusLine (r : Response) :
    parseStatusLine (statusLine r) = some (r.status, r.statusText) := by
  have hversion : ' ' ∉ httpVersion := by decide
  have hdigits : ' ' ∉ (toString r.status).toList := fun hmem =>
    absurd (isDigit_of_mem_toString hmem) (by decide)
  rw [parseStatusLine, statusLine_eq, splitOnce_append hversion]
  simp only [Option.bind_eq_bind, Option.bind_some, splitOnce_append hdigits, if_true,
    decimal?_toString, String.ofList_toList, Option.pure_def]

theorem parseField_fieldLine {p : String × String} (hname : ':' ∉ p.1.toList)
    (hvalue : IsValue p.2) : parseField (fieldLine p) = some p := by
  rw [parseField, fieldLine, splitOnce_append hname, Option.map_some, hvalue.2,
    String.ofList_toList, String.ofList_toList]

theorem Response.Clean.lines {r : Response} (h : r.Clean) :
    ∀ line ∈ statusLine r :: r.headers.map fieldLine, line ≠ [] ∧ OnOneLine line := by
  intro line hline
  rcases List.mem_cons.1 hline with rfl | hline
  · refine ⟨by simp [statusLine_eq], fun c hc => ?_⟩
    simp only [statusLine_eq, List.mem_append, List.mem_cons] at hc
    have hversion : OnOneLine httpVersion := by decide
    rcases hc with hc | rfl | hc | rfl | hc
    · exact hversion c hc
    · decide
    · exact (isValue_toString r.status).1 c hc
    · decide
    · exact h.text c hc
  · obtain ⟨p, hp, rfl⟩ := List.mem_map.1 hline
    refine ⟨by simp [fieldLine], fun c hc => ?_⟩
    simp only [fieldLine, List.mem_append, List.mem_cons] at hc
    rcases hc with hc | rfl | rfl | hc
    · exact (h.names p hp).1 c hc
    · decide
    · decide
    · exact (h.values p hp).1 c hc

theorem parseHead_lines {r : Response} (h : r.Clean) :
    parseHead (['\r', '\n'].intercalate (statusLine r :: r.headers.map fieldLine)) =
      some (r.status, r.statusText, r.headers) := by
  have hfields : (r.headers.map fieldLine).mapM parseField = some r.headers := by
    have hback : ∀ p ∈ r.headers, parseField (fieldLine p) = some p := fun p hp =>
      parseField_fieldLine (h.names p hp).2 (h.values p hp)
    revert hback
    generalize r.headers = headers
    intro hback
    induction headers with
    | nil => rfl
    | cons p headers ih =>
      obtain ⟨hp, hback⟩ := List.forall_mem_cons.1 hback
      rw [List.map_cons, List.mapM_cons, hp, ih hback]
      rfl
  rw [parseHead, headLines_intercalate (by simp) fun line hline => (h.lines line hline).2]
  simp only [parseStatusLine_statusLine, hfields, Option.bind_eq_bind, Option.bind_some]
  rfl

/-- **A response is read back from its bytes**, and what comes after it is left. -/
theorem readResponse_responseBytes {method : String} {r : Response} (h : r.Clean)
    (hlen : bodyLength method r.headers = some r.body.length) (rest : Bytes) :
    readResponse method (responseBytes r ++ rest) = some (r, rest) := by
  have hclean : ∀ f ∈ (statusLine r :: r.headers.map fieldLine).map utf8Chars,
      f ≠ [] ∧ 13 ∉ f := by
    intro f hf
    obtain ⟨line, hline, rfl⟩ := List.mem_map.1 hf
    obtain ⟨hne, hone⟩ := h.lines line hline
    exact ⟨fun hnil => hne (utf8Chars_eq_nil.1 hnil),
      notMem_utf8Chars (c := '\r') (by decide) fun hmem => (hone _ hmem).1 rfl⟩
  have hhead : takeHead (responseBytes r ++ rest) =
      some (utf8Chars (['\r', '\n'].intercalate (statusLine r :: r.headers.map fieldLine)),
        r.body ++ rest) := by
    rw [responseBytes_eq, List.append_assoc, takeHead_fieldBytes (by simp) hclean,
      utf8Chars_intercalate]
  rw [readResponse, hhead]
  simp only [Option.bind_eq_bind, Option.bind_some, ← utf8_ofList, fromUtf8_utf8,
    String.toList_ofList, parseHead_lines h, hlen]
  simp

/-! ## The responses of the server -/

/-- The status texts and the values that do not depend on the request. -/
def fixedTexts : List String :=
  ["OK", "Bad Request", "Forbidden", "Not Found", "Method Not Allowed", "Internal Server Error",
    "Error", "keep-alive", "close", "text/html; charset=utf-8", "text/css; charset=utf-8",
    "application/javascript; charset=utf-8", "application/json; charset=utf-8",
    "text/plain; charset=utf-8", "image/png", "image/jpeg", "image/gif", "image/svg+xml",
    "image/x-icon", "application/pdf", "application/zip", "application/wasm",
    "application/octet-stream"]

theorem isValue_of_mem_fixedTexts : ∀ v ∈ fixedTexts, IsValue v := by
  decide +kernel

theorem errorText_mem (status : ℕ) : errorText status ∈ fixedTexts := by
  unfold errorText
  split <;> decide

theorem connectionToken_mem (keepAlive : Bool) : connectionToken keepAlive ∈ fixedTexts := by
  cases keepAlive <;> decide

theorem guessContentType_mem (path : Path) : guessContentType path ∈ fixedTexts := by
  unfold guessContentType
  split <;> decide

section Respond

variable {lower : List Char → List Char} {spec : StaticSpec} {fs : FileSystem} {req : Request}

theorem contentType_mem {root target : Path} {contentType : String} {body : Bytes}
    (h : contentAt lower spec fs root target = .ok (contentType, body)) :
    contentType ∈ fixedTexts := by
  rcases contentAt_eq_ok h with ⟨-, rfl⟩ | ⟨-, -, rfl⟩
  · exact guessContentType_mem target
  · decide

theorem clean_of_headers {r : Response} {contentType : String} {len : ℕ} {keepAlive : Bool}
    (htext : r.statusText ∈ fixedTexts) (htype : contentType ∈ fixedTexts)
    (hheaders : r.headers = responseHeaders contentType len keepAlive) : r.Clean where
  text := (isValue_of_mem_fixedTexts _ htext).1
  names p hp := by
    have hnames : ∀ k ∈ ["Content-Type", "Content-Length", "Connection"],
        OnOneLine k.toList ∧ ':' ∉ k.toList := by decide +kernel
    refine hnames p.1 ?_
    rw [hheaders] at hp
    simp only [responseHeaders, List.mem_cons, List.not_mem_nil, or_false] at hp
    rcases hp with rfl | rfl | rfl <;> simp
  values p hp := by
    rw [hheaders] at hp
    simp only [responseHeaders, List.mem_cons, List.not_mem_nil, or_false] at hp
    rcases hp with rfl | rfl | rfl
    · exact isValue_of_mem_fixedTexts _ htype
    · exact isValue_toString len
    · exact isValue_of_mem_fixedTexts _ (connectionToken_mem keepAlive)

theorem bodyLength_responseHeaders (method contentType : String) (len : ℕ) (keepAlive : Bool) :
    bodyLength method (responseHeaders contentType len keepAlive) =
      some (if method = "HEAD" then 0 else len) := by
  have htype : eqIgnoreAsciiCase "Content-Type".toList "content-length".toList = false := by
    decide
  have hlen : eqIgnoreAsciiCase "Content-Length".toList "content-length".toList := by decide
  unfold bodyLength
  split_ifs
  · rfl
  · simp only [announcedLength, responseHeaders, List.find?_cons, htype, hlen, Option.bind_some,
      decimal?_toString]

/-- A response is an error, or what is found. -/
theorem respond_cases :
    (∃ status, respond lower spec fs req = errorResponse status req.method req.keepAlive) ∨
      ∃ contentType ∈ fixedTexts, ∃ body,
        respond lower spec fs req = okResponse contentType body req.method req.keepAlive := by
  unfold respond
  cases hbuild : buildResponse lower spec fs req with
  | error status => exact .inl ⟨status, rfl⟩
  | ok resp =>
    obtain ⟨-, root, target, contentType, body, -, hcontent, rfl⟩ := buildResponse_eq_ok hbuild
    exact .inr ⟨contentType, contentType_mem hcontent, body, rfl⟩

/-- **Every response of the server is read as it was written.** -/
theorem readResponse_respond (rest : Bytes) :
    readResponse req.method (responseBytes (respond lower spec fs req) ++ rest) =
      some (respond lower spec fs req, rest) := by
  rcases @respond_cases lower spec fs req with
    ⟨status, heq⟩ | ⟨contentType, htype, body, heq⟩
  · rw [heq]
    have hplain : "text/plain; charset=utf-8" ∈ fixedTexts := by decide
    refine readResponse_responseBytes (clean_of_headers (errorText_mem status) hplain rfl) ?_ rest
    rw [errorResponse, bodyLength_responseHeaders]
    split_ifs <;> rfl
  · rw [heq]
    have hok : "OK" ∈ fixedTexts := by decide
    refine readResponse_responseBytes (clean_of_headers hok htype rfl) ?_ rest
    rw [okResponse, bodyLength_responseHeaders]
    split_ifs <;> rfl

end Respond

/-! ## The responses of the loop -/

/-- The responses that were made are on the stream, and then `rest`; after a response to a request
that does not keep the connection alive there is nothing. -/
structure Served.Framed (s : Served) (rest : Bytes) : Prop where
  read : readResponses (s.handled.map fun p => p.1.method) s.written =
    some (s.handled.map fun p => p.2, rest)
  last : ∀ before p after, s.handled = before ++ p :: after → p.1.keepAlive = false →
    after = [] ∧ rest = []

section Serve

variable {lower : List Char → List Char} {spec : StaticSpec}

/-- The loop ends without a response. -/
theorem Served.framed_nil (rest : Bytes) : Served.Framed ⟨[], rest⟩ rest where
  read := rfl
  last before p after heq := by simp at heq

/-- The loop ends with a response. -/
theorem Served.framed_singleton (fs : FileSystem) (req : Request) :
    Served.Framed ⟨[(req, respond lower spec fs req)],
      responseBytes (respond lower spec fs req)⟩ [] where
  read := by
    have hread := @readResponse_respond lower spec fs req []
    rw [List.append_nil] at hread
    simp only [List.map_cons, List.map_nil, readResponses, hread, Option.bind_eq_bind,
      Option.bind_some, Option.pure_def]
  last before p after heq _ := by
    have hlen := congrArg List.length heq
    simp only [List.length_append, List.length_cons, List.length_nil] at hlen
    exact ⟨List.length_eq_zero_iff.1 (by omega), rfl⟩

/-- The loop goes on after a response. -/
theorem Served.Framed.cons {s : Served} {rest : Bytes} (h : s.Framed rest) (fs : FileSystem)
    {req : Request} (hkeep : req.keepAlive) :
    Served.Framed ⟨(req, respond lower spec fs req) :: s.handled,
      responseBytes (respond lower spec fs req) ++ s.written⟩ rest where
  read := by
    simp only [List.map_cons, readResponses, readResponse_respond, h.read, Option.bind_eq_bind,
      Option.bind_some, Option.pure_def]
  last before p after heq hclose := by
    cases before with
    | nil =>
      obtain ⟨rfl, -⟩ := List.cons.inj heq
      rw [hkeep] at hclose
      cases hclose
    | cons q before => exact h.last before p after (List.cons.inj heq).2 hclose

/-- What the loop does with these requests, from its `i`-th one on: it answers the first `n`, each
with the response to it, and stops when there are no more, or when the response to the next one
cannot be written; then `rest` is the piece of it that was. -/
structure Served.Answers (lower : List Char → List Char) (spec : StaticSpec) (fs : ℕ → FileSystem)
    (fails : ℕ → Option ℕ) (i : ℕ) (reqs : List Request) (n : ℕ) (rest : Bytes) (s : Served) :
    Prop where
  handled : s.handled =
    (reqs.take n).mapIdx fun j req => (req, respond lower spec (fs (i + j)) req)
  written : ∀ j < n, fails (i + j) = none
  stopped : (reqs.length ≤ n ∧ rest = []) ∨ ∃ req k, reqs[n]? = some req ∧
    fails (i + n) = some k ∧ rest = (responseBytes (respond lower spec (fs (i + n)) req)).take k

theorem Served.Answers.cons {fs : ℕ → FileSystem} {fails : ℕ → Option ℕ} {i n : ℕ}
    {reqs : List Request} {rest : Bytes} {s : Served}
    (h : s.Answers lower spec fs fails (i + 1) reqs n rest) (hfails : fails i = none)
    (req : Request) (written : Bytes) :
    Served.Answers lower spec fs fails i (req :: reqs) (n + 1) rest
      ⟨(req, respond lower spec (fs i) req) :: s.handled, written⟩ := by
  have hshift : ∀ j, i + 1 + j = i + (j + 1) := fun j => by omega
  obtain ⟨hhandled, hwritten, hstopped⟩ := h
  refine ⟨?_, ?_, ?_⟩
  · rw [List.take_succ_cons, List.mapIdx_cons, hhandled]
    simp only [hshift, Nat.add_zero]
  · rintro (_ | j) hj
    · exact hfails
    · rw [← hshift]
      exact hwritten j (by omega)
  · rw [← hshift, List.getElem?_cons_succ, List.length_cons]
    exact hstopped.imp_left fun h => ⟨by omega, h.2⟩

/-- **The responses on a stream.** The loop answers the requests up to the first that closes the
connection or whose response cannot be written, each with the response to it; and from what it
writes, a client reads these responses, with `rest` left. -/
theorem responses_framed (lower : List Char → List Char) (spec : StaticSpec)
    (fs : ℕ → FileSystem) (fails : ℕ → Option ℕ) (i : ℕ) (r : Reader) :
    ∃ n rest, (serve lower spec fs fails i r).Answers lower spec fs fails i
        (upToClose (requestsFrom r)) n rest ∧
      (serve lower spec fs fails i r).Framed rest := by
  fun_induction serve lower spec fs fails i r with
  | case1 i r e h =>
    rw [requestsFrom_of_error h]
    exact ⟨0, [], ⟨rfl, by simp, .inl ⟨le_rfl, rfl⟩⟩, Served.framed_nil []⟩
  | case2 i r r' h =>
    rw [requestsFrom_of_none h]
    exact ⟨0, [], ⟨rfl, by simp, .inl ⟨le_rfl, rfl⟩⟩, Served.framed_nil []⟩
  | case3 i r req r' h hlt response k hfails =>
    rw [requestsFrom_of_some h]
    refine ⟨0, _, ⟨rfl, by simp, .inr ⟨req, k, ?_, hfails, rfl⟩⟩, Served.framed_nil _⟩
    exact upToClose_cons req (requestsFrom r')
  | case4 i r req r' h hlt response hfails hkeep more ih =>
    rw [requestsFrom_of_some h, upToClose, if_pos hkeep]
    obtain ⟨n, rest, hanswers, hframed⟩ := ih
    exact ⟨n + 1, rest, hanswers.cons hfails req _, hframed.cons (fs i) hkeep⟩
  | case5 i r req r' h hlt response hfails hkeep =>
    rw [requestsFrom_of_some h, upToClose, if_neg hkeep]
    refine ⟨1, [], ⟨rfl, ?_, .inl ⟨le_rfl, rfl⟩⟩, Served.framed_singleton (fs i) req⟩
    intro j hj
    obtain rfl : j = 0 := by omega
    exact hfails

end Serve

/-! ## Three requests -/

def getRequest : Bytes := utf8 "GET /a.txt HTTP/1.1\r\nHost: x\r\n\r\n"

def headRequest : Bytes := utf8 "HEAD /a.txt HTTP/1.1\r\nConnection: close\r\n\r\n"

/-- The second of three requests closes the connection. -/
def sampleServed : Served :=
  serve id sampleSpec (fun _ => sampleTree) (fun _ => none) 0
    (.ofBytes (getRequest ++ (headRequest ++ getRequest)))

theorem upToClose_sample :
    upToClose (requestsFrom (.ofBytes (getRequest ++ (headRequest ++ getRequest)))) =
      [⟨"GET", "/a.txt", true⟩, ⟨"HEAD", "/a.txt", false⟩] := by
  have hget : readRequest (.ofBytes (getRequest ++ (headRequest ++ getRequest))) =
      .ok (some ⟨"GET", "/a.txt", true⟩, .ofBytes (headRequest ++ getRequest)) := rfl
  have hhead : readRequest (.ofBytes (headRequest ++ getRequest)) =
      .ok (some ⟨"HEAD", "/a.txt", false⟩, .ofBytes getRequest) := rfl
  rw [requestsFrom_of_some hget, requestsFrom_of_some hhead]
  rfl

theorem respond_sample :
    respond id sampleSpec sampleTree ⟨"GET", "/a.txt", true⟩ =
        okResponse "text/plain; charset=utf-8" (utf8 "hi") "GET" true ∧
      respond id sampleSpec sampleTree ⟨"HEAD", "/a.txt", false⟩ =
        okResponse "text/plain; charset=utf-8" (utf8 "hi") "HEAD" false := by
  decide +kernel

/-- The first two are answered, with the file and with its length, and are read back. -/
theorem responses_framed_sample :
    sampleServed.handled =
        [(⟨"GET", "/a.txt", true⟩, okResponse "text/plain; charset=utf-8" (utf8 "hi") "GET" true),
          (⟨"HEAD", "/a.txt", false⟩,
            okResponse "text/plain; charset=utf-8" (utf8 "hi") "HEAD" false)] ∧
      readResponses ["GET", "HEAD"] sampleServed.written =
        some ([okResponse "text/plain; charset=utf-8" (utf8 "hi") "GET" true,
          okResponse "text/plain; charset=utf-8" (utf8 "hi") "HEAD" false], []) := by
  obtain ⟨n, rest, ⟨hhandled, -, hstopped⟩, hframed⟩ :=
    responses_framed id sampleSpec (fun _ => sampleTree) (fun _ => none) 0
      (.ofBytes (getRequest ++ (headRequest ++ getRequest)))
  rw [upToClose_sample] at hhandled hstopped
  obtain ⟨hn, rfl⟩ : 2 ≤ n ∧ rest = [] := by simpa using hstopped
  rw [List.take_of_length_le hn] at hhandled
  simp only [List.mapIdx_cons, List.mapIdx_nil, respond_sample.1, respond_sample.2] at hhandled
  have hread := hframed.read
  rw [hhandled] at hread
  exact ⟨hhandled, hread⟩

end MeshlyCore.StaticHttp
