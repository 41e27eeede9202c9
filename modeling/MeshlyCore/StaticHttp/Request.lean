import MeshlyCore.Lib.Bytes
import MeshlyCore.Lib.Text

/-!
# Reading a request

`static_http.rs`: the part that reads an HTTP request from a buffered stream. The request line is
read up to its newline and the header block up to its terminator, each with a size cap; only GET
and HEAD are served, so a request with a body is an error.

The stream is what the peer has sent in the pieces in which `fill_buf` hands it out.
-/

namespace MeshlyCore.StaticHttp

open Text

/-! ## Streams -/

/-- A piece of a stream: `fill_buf` gives no bytes only at the end. -/
abbrev Chunk := { b : Bytes // b ≠ [] }

/-- A buffered stream: its pieces, and then the end of the file or a failure. -/
inductive Reader where
  | eof
  | failed
  | chunk (c : Chunk) (rest : Reader)

namespace Reader

/-- Put bytes in front of a stream, as one piece. -/
def push (b : Bytes) (r : Reader) : Reader :=
  if h : b = [] then r else .chunk ⟨b, h⟩ r

/-- A stream delivered in one piece. -/
def ofBytes (b : Bytes) : Reader := push b .eof

end Reader

/-- Why reading a request fails. -/
inductive HttpError where
  | io
  | nonUtf8RequestLine
  | emptyRequestLine
  | missingPath
  | missingVersion
  | badVersion (version : String)
  | nonUtf8Headers
  | badContentLength (value : String)
  | bodyTooLong (len max : ℕ)
  | closedMidLine
  | lineTooLong (max : ℕ)
  | closedMidHeaders
  | headersTooLong (max : ℕ)
  deriving DecidableEq

def maxRequestLine : ℕ := 8 * 1024

def maxHeaders : ℕ := 64 * 1024

def maxBodyBytes : ℕ := 0

/-! ## Bounded reads -/

/-- The loop of `read_until_limited`, with `buf` read so far. -/
def readUntilLoop (delim : UInt8) (max : ℕ) (buf : Bytes) :
    Reader → Except HttpError (Option Bytes × Reader)
  | .eof => if buf = [] then .ok (none, .eof) else .error .closedMidLine
  | .failed => .error .io
  | .chunk c rest =>
      match c.val.findIdx? (· == delim) with
      | some pos =>
          if buf.length + (pos + 1) > max then .error (.lineTooLong max)
          else .ok (some (buf ++ c.val.take (pos + 1)), rest.push (c.val.drop (pos + 1)))
      | none =>
          if buf.length + c.val.length > max then .error (.lineTooLong max)
          else readUntilLoop delim max (buf ++ c.val) rest

/-- Read until `delim`, at most `max` bytes; `none` at the end of the file. -/
def readUntilLimited (delim : UInt8) (max : ℕ) (r : Reader) :
    Except HttpError (Option Bytes × Reader) :=
  readUntilLoop delim max [] r

/-- The index of the last byte of the first header terminator, `\r\n\r\n` or `\n\n`. -/
def findHeaderTerminator : Bytes → Option ℕ
  | [] => none
  | b :: chunk =>
      if [13, 10, 13, 10] <+: b :: chunk then some 3
      else if [10, 10] <+: b :: chunk then some 1
      else (findHeaderTerminator chunk).map (· + 1)

/-- The loop of `read_headers_limited`; the terminator is looked for in each piece alone. -/
def readHeadersLoop (max : ℕ) (buf : Bytes) : Reader → Except HttpError (Bytes × Reader)
  | .eof => .error .closedMidHeaders
  | .failed => .error .io
  | .chunk c rest =>
      match findHeaderTerminator c.val with
      | some e =>
          if buf.length + (e + 1) > max then .error (.headersTooLong max)
          else .ok (buf ++ c.val.take (e + 1), rest.push (c.val.drop (e + 1)))
      | none =>
          if buf.length + c.val.length > max then .error (.headersTooLong max)
          else readHeadersLoop max (buf ++ c.val) rest

/-- Read a header block with its terminator, at most `max` bytes. -/
def readHeadersLimited (max : ℕ) (r : Reader) : Except HttpError (Bytes × Reader) :=
  readHeadersLoop max [] r

/-! ## Requests -/

structure Request where
  method : String
  path : String
  keepAlive : Bool
  deriving DecidableEq

/-- Method, path and version. -/
def parseRequestLine (lineBuf : Bytes) :
    Except HttpError (List Char × List Char × List Char) :=
  match fromUtf8 lineBuf with
  | none => .error .nonUtf8RequestLine
  | some line =>
      match (line.toList.rdropWhile fun c => c = '\r' ∨ c = '\n').splitOn ' ' with
      | [] => .error .emptyRequestLine
      | [_] => .error .missingPath
      | [_, _] => .error .missingVersion
      | method :: path :: version :: _ =>
          if "HTTP/".toList <+: version then .ok (method, path, version)
          else .error (.badVersion (String.ofList version))

/-- What the header loop remembers. -/
structure HeaderScan where
  contentLength : ℕ
  connectionClose : Bool
  connectionKeepAlive : Bool
  deriving DecidableEq

/-- The tokens of a `Connection` header. -/
def scanConnection (tokens : List (List Char)) (s : HeaderScan) : HeaderScan :=
  tokens.foldl (fun s tok =>
    if eqIgnoreAsciiCase (trim tok) "close".toList then { s with connectionClose := true }
    else if eqIgnoreAsciiCase (trim tok) "keep-alive".toList then
      { s with connectionKeepAlive := true }
    else s) s

/-- The loop over the header lines; a blank line ends it. -/
def scanHeaders : List (List Char) → HeaderScan → Except HttpError HeaderScan
  | [], s => .ok s
  | line :: lines, s =>
      let line := line.rdropWhile fun c => c = '\r'
      if line = [] then .ok s
      else
        match splitOnce ':' line with
        | none => scanHeaders lines s
        | some (k, v) =>
            if eqIgnoreAsciiCase (trim k) "content-length".toList then
              match parseUsize (trim v) with
              | none => .error (.badContentLength (String.ofList (trim v)))
              | some n => scanHeaders lines { s with contentLength := n }
            else if eqIgnoreAsciiCase (trim k) "connection".toList then
              scanHeaders lines (scanConnection ((trim v).splitOn ',') s)
            else scanHeaders lines s

/-- HTTP/1.1 keeps the connection unless told not to, HTTP/1.0 only if told to. -/
def keepAliveOf (version : List Char) (s : HeaderScan) : Bool :=
  if version = "HTTP/1.1".toList then !s.connectionClose
  else if version = "HTTP/1.0".toList then s.connectionKeepAlive
  else false

/-- The part of `read_request` after the request line. With `maxBodyBytes` zero no body is ever
drained. -/
def finishRequest (method path version : List Char) (r : Reader) :
    Except HttpError (Option Request × Reader) := do
  let (headerBuf, r) ← readHeadersLimited maxHeaders r
  match fromUtf8 headerBuf with
  | none => throw .nonUtf8Headers
  | some headers =>
      let s ← scanHeaders (headers.toList.splitOn '\n') ⟨0, false, false⟩
      if s.contentLength > maxBodyBytes then
        throw (.bodyTooLong s.contentLength maxBodyBytes)
      else
        return (some ⟨String.ofList method, String.ofList path, keepAliveOf version s⟩, r)

/-- Read one request; `none` when the peer has closed. -/
def readRequest (r : Reader) : Except HttpError (Option Request × Reader) := do
  match ← readUntilLimited 10 maxRequestLine r with
  | (none, r) => return (none, r)
  | (some lineBuf, r) =>
      let (method, path, version) ← parseRequestLine lineBuf
      finishRequest method path version r

example : (readRequest (.ofBytes (utf8 "GET /a HTTP/1.1\r\nHost: x\r\n\r\n"))).map (·.1) =
    .ok (some ⟨"GET", "/a", true⟩) := by
  decide

end MeshlyCore.StaticHttp
