import MeshlyCore.StaticHttp.Files

/-!
# HEAD and GET

The response to HEAD is to be that to GET without its body: the same status, the same headers,
and so the length of the body that is not sent.

`build_response` takes the length before it drops the body. `error_response` drops the body first,
and then advertises a length of zero.

**Theorem (`head_matches_iff`).** HEAD is answered like GET, without the body, if and only if the
path leads to something that is served: a file that can be read, or a directory that is listed.
-/

namespace MeshlyCore.StaticHttp

open FileTree Text

/-! ## The method does not decide what is found -/

/-- The path leads to a file that can be read, or to a directory that may be and can be listed. -/
def Servable (spec : StaticSpec) (fs : FileSystem) (path : List Char) : Prop :=
  ∃ root target, locate spec fs path = .ok (root, target) ∧
    ((fs.read (toText target)).isSome ∨
      spec.allowDirectoryListing ∧ (fs.readDir (toText target)).isSome)

section Content

variable {lower : List Char → List Char} {spec : StaticSpec} {fs : FileSystem} {req : Request}
  {root target : Path}

theorem contentAt_isOk_iff :
    (contentAt lower spec fs root target).isOk ↔
      (fs.read (toText target)).isSome ∨
        spec.allowDirectoryListing ∧ (fs.readDir (toText target)).isSome := by
  unfold contentAt
  cases hmeta : fs.metadata (toText target) with
  | none => simp [FileSystem.read, FileSystem.readDir, hmeta, Except.isOk, Except.toBool]
  | some o =>
    cases o with
    | dir names searchable =>
      have hread : fs.read (toText target) = none := by simp [FileSystem.read, hmeta]
      have hdir : fs.readDir (toText target) = names := by simp [FileSystem.readDir, hmeta]
      cases hallow : spec.allowDirectoryListing with
      | false => simp [hread, Except.isOk, Except.toBool]
      | true =>
        cases names with
        | none => simp [hread, hdir, renderDirectoryListing, Except.isOk, Except.toBool]
        | some names => simp [hread, hdir, renderDirectoryListing, Except.isOk, Except.toBool]
    | file size content =>
      have hread : fs.read (toText target) = content := by simp [FileSystem.read, hmeta]
      have hdir : fs.readDir (toText target) = none := by simp [FileSystem.readDir, hmeta]
      cases content <;> simp [hread, hdir, Except.isOk, Except.toBool]
    | link text =>
      have hread : fs.read (toText target) = none := by simp [FileSystem.read, hmeta]
      have hdir : fs.readDir (toText target) = none := by simp [FileSystem.readDir, hmeta]
      simp [hread, hdir, Except.isOk, Except.toBool]

theorem servable_iff {path : List Char} :
    Servable spec fs path ↔ ∃ p, served lower spec fs path = .ok p := by
  constructor
  · rintro ⟨root, target, hloc, hthere⟩
    have hok : (contentAt lower spec fs root target).isOk := contentAt_isOk_iff.2 hthere
    cases hcontent : contentAt lower spec fs root target with
    | error status =>
      rw [hcontent] at hok
      cases hok
    | ok p => exact ⟨p, served_eq_ok.2 ⟨root, target, hloc, hcontent⟩⟩
  · rintro ⟨p, hp⟩
    obtain ⟨root, target, hloc, hcontent⟩ := served_eq_ok.1 hp
    exact ⟨root, target, hloc, contentAt_isOk_iff.1 (by rw [hcontent]; rfl)⟩

end Content

/-! ## Two runs -/

/-- An error to HEAD says that GET would send nothing. -/
theorem errorResponse_headers_ne (status : ℕ) (keepAlive : Bool) :
    (errorResponse status "HEAD" keepAlive).headers ≠
      (errorResponse status "GET" keepAlive).headers := by
  intro h
  have hlen : toString 0 = toString (utf8 (errorBody status ++ "\n")).length := by
    simpa [errorResponse, responseHeaders] using h
  have hzero := toString_injective hlen
  rw [utf8_eq_utf8Chars, String.toList_append, utf8Chars_append, List.length_append] at hzero
  have hnewline : (utf8Chars "\n".toList).length = 1 := by decide
  omega

section Head

variable (lower : List Char → List Char) (spec : StaticSpec) (fs : FileSystem) (path : String)
  (keepAlive : Bool)

/-- The response to HEAD is the response to GET without its body. -/
def HeadMatches : Prop :=
  let head := respond lower spec fs ⟨"HEAD", path, keepAlive⟩
  let get := respond lower spec fs ⟨"GET", path, keepAlive⟩
  head.status = get.status ∧ head.headers = get.headers ∧ head.body = []

/-- **HEAD matches GET exactly when there is something to serve.** -/
theorem head_matches_iff :
    HeadMatches lower spec fs path keepAlive ↔ Servable spec fs path.toList := by
  rw [HeadMatches, servable_iff, respond, respond, buildResponse_of_method (.inr rfl),
    buildResponse_of_method (.inl rfl)]
  cases served lower spec fs path.toList with
  | ok p => exact ⟨fun _ => ⟨p, rfl⟩, fun _ => ⟨rfl, rfl, rfl⟩⟩
  | error status =>
    refine ⟨fun h => absurd h.2.1 (errorResponse_headers_ne status keepAlive), fun h => ?_⟩
    obtain ⟨p, hp⟩ := h
    cases hp

end Head

/-- For a file that is not there, HEAD announces an empty body and GET sends another. -/
theorem head_mismatch : ¬HeadMatches id sampleSpec sampleTree "/b" false := by
  unfold HeadMatches
  decide +kernel

end MeshlyCore.StaticHttp
