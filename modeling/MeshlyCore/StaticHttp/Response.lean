import MeshlyCore.Endpoint
import MeshlyCore.StaticHttp.Listing
import MeshlyCore.StaticHttp.Splits

/-!
# Answering a request

`static_http.rs`: from a request to the bytes of its response. The path of the request is decoded
and resolved under the root directory; a file is sent as it is, a directory is listed if that is
allowed. Everything else is an error with a status.

The file system does not change while a request is answered. Of a `StaticSpec`, the name and the
secret have done their part before.
-/

namespace MeshlyCore.StaticHttp

open FileTree

/-- Description of one HTTP static service. -/
structure StaticSpec where
  rootDir : Bytes
  allowDirectoryListing : Bool

structure Response where
  status : ℕ
  statusText : String
  headers : List (String × String)
  body : Bytes
  deriving DecidableEq

/-! ## Paths -/

/-- The loop of `percent_decode`. -/
def percentDecodeLoop : Bytes → Option Bytes
  | [] => some []
  | 37 :: hi :: lo :: rest => do
      let h ← hexValue hi
      let l ← hexValue lo
      let out ← percentDecodeLoop rest
      return (h * 16 + l) :: out
  | 37 :: _ => none
  | 43 :: rest => (percentDecodeLoop rest).map (32 :: ·)
  | b :: rest => (percentDecodeLoop rest).map (b :: ·)

def percentDecode (s : List Char) : Option (List Char) :=
  ((percentDecodeLoop (utf8Chars s)).bind fromUtf8).map String.toList

/-- The path without its query and its fragment. -/
def rawPath (path : List Char) : List Char := (path.takeWhile (· ≠ '?')).takeWhile (· ≠ '#')

/-- The path on disk that is asked for. -/
def joinedPath (rootCanon : Path) (urlDecoded : List Char) : Bytes :=
  if urlDecoded.head? = some '/' ∨ urlDecoded = [] then
    join (toText rootCanon) (utf8Chars (urlDecoded.dropWhile (· = '/')))
  else
    -- Bare relative paths are treated as if prefixed with `/`.
    join (toText rootCanon) (utf8Chars urlDecoded)

/-- The first part of `build_response`: the canonical root, and the canonical target inside it. -/
def locate (spec : StaticSpec) (fs : FileSystem) (path : List Char) : Except ℕ (Path × Path) :=
  match percentDecode (rawPath path) with
  | none => .error 400
  | some urlDecoded =>
      match fs.canonicalize spec.rootDir with
      | none => .error 500
      | some rootCanon =>
          match fs.canonicalize (joinedPath rootCanon urlDecoded) with
          | none => .error 404
          | some target =>
              if rootCanon <+: target then .ok (rootCanon, target) else .error 403

/-! ## Responses -/

def connectionToken (keepAlive : Bool) : String := if keepAlive then "keep-alive" else "close"

/-- The three headers of every response. -/
def responseHeaders (contentType : String) (len : ℕ) (keepAlive : Bool) :
    List (String × String) :=
  [("Content-Type", contentType), ("Content-Length", toString len),
    ("Connection", connectionToken keepAlive)]

def errorText : ℕ → String
  | 400 => "Bad Request"
  | 403 => "Forbidden"
  | 404 => "Not Found"
  | 405 => "Method Not Allowed"
  | 500 => "Internal Server Error"
  | _ => "Error"

def errorBody : ℕ → String
  | 400 => "400 Bad Request"
  | 403 => "403 Forbidden"
  | 404 => "404 Not Found"
  | 405 => "405 Method Not Allowed"
  | 500 => "500 Internal Server Error"
  | _ => "Error"

def errorResponse (status : ℕ) (method : String) (keepAlive : Bool) : Response :=
  let body := if method = "HEAD" then [] else utf8 (errorBody status ++ "\n")
  { status := status
    statusText := errorText status
    headers := responseHeaders "text/plain; charset=utf-8" body.length keepAlive
    body := body }

/-- HEAD responses advertise the would-be body length but send no body. -/
def okResponse (contentType : String) (body : Bytes) (method : String) (keepAlive : Bool) :
    Response where
  status := 200
  statusText := "OK"
  headers := responseHeaders contentType body.length keepAlive
  body := if method = "HEAD" then [] else body

/-- `Path::extension`, of a file name. -/
def extension (name : Name) : Option Bytes :=
  if (name.rdropWhile (· ≠ 46)).length ≤ 1 then none else some (name.rtakeWhile (· ≠ 46))

def guessContentType (path : Path) : String :=
  match ((path.getLast?.bind extension).bind fromUtf8) with
  | some "html" | some "htm" => "text/html; charset=utf-8"
  | some "css" => "text/css; charset=utf-8"
  | some "js" | some "mjs" => "application/javascript; charset=utf-8"
  | some "json" => "application/json; charset=utf-8"
  | some "txt" | some "md" => "text/plain; charset=utf-8"
  | some "png" => "image/png"
  | some "jpg" | some "jpeg" => "image/jpeg"
  | some "gif" => "image/gif"
  | some "svg" => "image/svg+xml"
  | some "ico" => "image/x-icon"
  | some "pdf" => "application/pdf"
  | some "zip" => "application/zip"
  | some "wasm" => "application/wasm"
  | _ => "application/octet-stream"

/-- The second part of `build_response`: the type and the bytes of what is at the target. -/
def contentAt (lower : List Char → List Char) (spec : StaticSpec) (fs : FileSystem)
    (rootCanon target : Path) : Except ℕ (String × Bytes) :=
  match fs.metadata (toText target) with
  | none => .error 404
  | some (.dir _ _) =>
      if spec.allowDirectoryListing then
        match renderDirectoryListing lower fs rootCanon target with
        | none => .error 500
        | some body => .ok ("text/html; charset=utf-8", body)
      else .error 403
  | some _ =>
      match fs.read (toText target) with
      | none => .error 404
      | some body => .ok (guessContentType target, body)

/-- What is found under a path. -/
def served (lower : List Char → List Char) (spec : StaticSpec) (fs : FileSystem)
    (path : List Char) : Except ℕ (String × Bytes) := do
  let (rootCanon, target) ← locate spec fs path
  contentAt lower spec fs rootCanon target

def buildResponse (lower : List Char → List Char) (spec : StaticSpec) (fs : FileSystem)
    (req : Request) : Except ℕ Response := do
  if req.method ≠ "GET" ∧ req.method ≠ "HEAD" then .error 405
  let (contentType, body) ← served lower spec fs req.path.toList
  return okResponse contentType body req.method req.keepAlive

section BuildResponse

variable {lower : List Char → List Char} {spec : StaticSpec} {fs : FileSystem} {req : Request}
  {resp : Response} {root target : Path}

theorem locate_eq_ok {path : List Char} :
    locate spec fs path = .ok (root, target) ↔
      ∃ decoded, percentDecode (rawPath path) = some decoded ∧
        fs.canonicalize spec.rootDir = some root ∧
        fs.canonicalize (joinedPath root decoded) = some target ∧ root <+: target := by
  constructor
  · intro h
    unfold locate at h
    split at h
    · cases h
    · rename_i decoded hdec
      split at h
      · cases h
      · rename_i root' hroot
        split at h
        · cases h
        · rename_i target' htarget
          split_ifs at h with hin
          obtain ⟨rfl, rfl⟩ := Prod.mk.inj (Except.ok.inj h)
          exact ⟨decoded, hdec, hroot, htarget, hin⟩
  · rintro ⟨decoded, hdec, hroot, htarget, hin⟩
    simp only [locate, hdec, hroot, htarget, if_pos hin]

/-- What is found is a file that can be read, or the listing of a directory. -/
theorem contentAt_eq_ok {contentType : String} {body : Bytes}
    (h : contentAt lower spec fs root target = .ok (contentType, body)) :
    (fs.read (toText target) = some body ∧ contentType = guessContentType target) ∨
      (spec.allowDirectoryListing ∧ renderDirectoryListing lower fs root target = some body ∧
        contentType = "text/html; charset=utf-8") := by
  unfold contentAt at h
  split at h
  · cases h
  · split_ifs at h with hallow
    split at h
    · cases h
    · rename_i body' hbody
      obtain ⟨rfl, rfl⟩ := Prod.mk.inj (Except.ok.inj h)
      exact .inr ⟨hallow, hbody, rfl⟩
  · split at h
    · cases h
    · rename_i body' hbody
      obtain ⟨rfl, rfl⟩ := Prod.mk.inj (Except.ok.inj h)
      exact .inl ⟨hbody, rfl⟩

theorem served_of_ok {path : List Char} (h : locate spec fs path = .ok (root, target)) :
    served lower spec fs path = contentAt lower spec fs root target := by
  unfold served
  rw [h]
  rfl

theorem served_of_error {path : List Char} {status : ℕ} (h : locate spec fs path = .error status) :
    served lower spec fs path = .error status := by
  unfold served
  rw [h]
  rfl

theorem served_eq_ok {path : List Char} {p : String × Bytes} :
    served lower spec fs path = .ok p ↔ ∃ root target,
      locate spec fs path = .ok (root, target) ∧ contentAt lower spec fs root target = .ok p := by
  cases hloc : locate spec fs path with
  | error status => simp [served_of_error hloc]
  | ok q => simp [served_of_ok hloc, Prod.ext_iff]

/-- GET and HEAD are answered with what is found. -/
theorem buildResponse_of_method (h : req.method = "GET" ∨ req.method = "HEAD") :
    buildResponse lower spec fs req =
      (served lower spec fs req.path.toList).map fun p =>
        okResponse p.1 p.2 req.method req.keepAlive := by
  have hguard : ¬(req.method ≠ "GET" ∧ req.method ≠ "HEAD") := by tauto
  unfold buildResponse
  simp only [if_neg hguard]
  cases served lower spec fs req.path.toList <;> rfl

theorem buildResponse_of_other (h : ¬(req.method = "GET" ∨ req.method = "HEAD")) :
    buildResponse lower spec fs req = .error 405 := by
  have hguard : req.method ≠ "GET" ∧ req.method ≠ "HEAD" := by tauto
  unfold buildResponse
  simp only [if_pos hguard]
  rfl

/-- A response that is not an error has the content of the place that the path leads to. -/
theorem buildResponse_eq_ok (h : buildResponse lower spec fs req = .ok resp) :
    (req.method = "GET" ∨ req.method = "HEAD") ∧ ∃ root target contentType body,
      locate spec fs req.path.toList = .ok (root, target) ∧
      contentAt lower spec fs root target = .ok (contentType, body) ∧
      resp = okResponse contentType body req.method req.keepAlive := by
  by_cases hmethod : req.method = "GET" ∨ req.method = "HEAD"
  · rw [buildResponse_of_method hmethod] at h
    cases hserved : served lower spec fs req.path.toList with
    | error status =>
      rw [hserved] at h
      cases h
    | ok p =>
      rw [hserved] at h
      obtain ⟨root, target, hloc, hcontent⟩ := served_eq_ok.1 hserved
      exact ⟨hmethod, root, target, p.1, p.2, hloc, hcontent, (Except.ok.inj h).symm⟩
  · rw [buildResponse_of_other hmethod] at h
    cases h

end BuildResponse

/-- The response of `serve_one` to a request. -/
def respond (lower : List Char → List Char) (spec : StaticSpec) (fs : FileSystem)
    (req : Request) : Response :=
  match buildResponse lower spec fs req with
  | .ok r => r
  | .error status => errorResponse status req.method req.keepAlive

/-! ## Writing -/

/-- The head of a response, with its blank line. -/
def responseHead (r : Response) : String :=
  "HTTP/1.1 " ++ toString r.status ++ " " ++ r.statusText ++ "\r\n" ++
    String.join (r.headers.map fun (k, v) => k ++ ": " ++ v ++ "\r\n") ++ "\r\n"

/-- What `write_response` writes. -/
def responseBytes (r : Response) : Bytes := utf8 (responseHead r) ++ r.body

end MeshlyCore.StaticHttp
