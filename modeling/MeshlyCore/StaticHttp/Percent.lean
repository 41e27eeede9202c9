import MeshlyCore.StaticHttp.Files

/-!
# Percent-decoding

`percent_decode` of `static_http.rs` walks over the bytes of a path with an index, in steps of one
and of three, and checks the bytes it has collected at the end. `percentDecodeFrom` is that loop;
the recursion the rest of the development uses is the same function (`percentDecode_eq_from`).

`Encodes t e` says what an encoding of a text is: every character as it is or escaped byte by byte,
in hex digits of either case, and `%` and `+` never as they are.

**Theorem (`percent_decoding`).** Every encoding of a text is decoded to it; and a path is refused
exactly when the scan comes to a `%` without two hex digits after it, or the decoded bytes are not
UTF-8.
-/

namespace MeshlyCore.StaticHttp

/-! ## The loop by index -/

/-- The loop of `percent_decode` at index `i`, with what it has pushed so far. -/
def percentDecodeFrom (bytes : Bytes) (i : ℕ) (out : Bytes) : Option Bytes :=
  if h : i < bytes.length then
    if bytes[i] = 37 then
      if h2 : bytes.length ≤ i + 2 then none
      else do
        let hi ← hexValue bytes[i + 1]
        let lo ← hexValue bytes[i + 2]
        percentDecodeFrom bytes (i + 3) (out ++ [hi * 16 + lo])
    else if bytes[i] = 43 then percentDecodeFrom bytes (i + 1) (out ++ [32])
    else percentDecodeFrom bytes (i + 1) (out ++ [bytes[i]])
  else some out
termination_by bytes.length - i

theorem percentDecodeLoop_plus (rest : Bytes) :
    percentDecodeLoop (43 :: rest) = (percentDecodeLoop rest).map (32 :: ·) := by
  simp only [percentDecodeLoop]

theorem percentDecodeLoop_escape (hi lo : UInt8) (rest : Bytes) :
    percentDecodeLoop (37 :: hi :: lo :: rest) =
      (hexValue hi).bind fun h => (hexValue lo).bind fun l =>
        (percentDecodeLoop rest).map ((h * 16 + l) :: ·) := by
  simp only [percentDecodeLoop]
  cases hexValue hi with
  | none => rfl
  | some h =>
    cases hexValue lo with
    | none => rfl
    | some l => cases percentDecodeLoop rest <;> rfl

theorem percentDecodeLoop_short {rest : Bytes} (h : rest.length < 2) :
    percentDecodeLoop (37 :: rest) = none := by
  match rest, h with
  | [], _ => simp only [percentDecodeLoop]
  | [b], _ => simp only [percentDecodeLoop]

/-- **The two loops are the same.** -/
theorem percentDecodeFrom_eq (bytes : Bytes) (i : ℕ) (out : Bytes) :
    percentDecodeFrom bytes i out = (percentDecodeLoop (bytes.drop i)).map (out ++ ·) := by
  fun_induction percentDecodeFrom bytes i out with
  | case1 i out h hpercent h2 =>
    rw [List.drop_eq_getElem_cons h, hpercent, percentDecodeLoop_short, Option.map_none]
    rw [List.length_drop]
    omega
  | case2 i out h hpercent h2 ih =>
    rw [List.drop_eq_getElem_cons h, hpercent,
      List.drop_eq_getElem_cons (by omega : i + 1 < bytes.length),
      List.drop_eq_getElem_cons (by omega : i + 1 + 1 < bytes.length), percentDecodeLoop_escape]
    cases hhi : hexValue bytes[i + 1] with
    | none => rfl
    | some a =>
      cases hlo : hexValue bytes[i + 2] with
      | none => simp
      | some b =>
        simp only [Option.bind_eq_bind, Option.bind_some]
        rw [ih a b, Option.map_map]
        exact congrArg (Option.map · _) (funext fun rest => List.append_assoc _ _ _)
  | case3 i out h hpercent hplus ih =>
    rw [ih, List.drop_eq_getElem_cons h, hplus, percentDecodeLoop_plus, Option.map_map]
    exact congrArg (Option.map · _) (funext fun rest => List.append_assoc _ _ _)
  | case4 i out h hpercent hplus ih =>
    rw [ih, List.drop_eq_getElem_cons h, percentDecodeLoop_cons hpercent hplus, Option.map_map]
    exact congrArg (Option.map · _) (funext fun rest => List.append_assoc _ _ _)
  | case5 i out h =>
    rw [List.drop_eq_nil_of_le (Nat.le_of_not_lt h)]
    simp [percentDecodeLoop]

theorem percentDecode_eq_from (s : List Char) :
    percentDecode s =
      ((percentDecodeFrom (utf8Chars s) 0 []).bind fromUtf8).map String.toList := by
  rw [percentDecodeFrom_eq, List.drop_zero, percentDecode]
  simp

/-! ## Encodings of a text -/

/-- The digit `n` in hexadecimal, in lower or upper case. -/
def IsHexDigit (n : ℕ) (c : Char) : Prop := c = hexChar n ∨ c = hexUpper n

/-- Every byte is escaped. -/
inductive Escapes : Bytes → List Char → Prop
  | nil : Escapes [] []
  | cons {b : UInt8} {bs : Bytes} {hi lo : Char} {e : List Char}
      (high : IsHexDigit (b.toNat / 16) hi) (low : IsHexDigit (b.toNat % 16) lo)
      (rest : Escapes bs e) :
      Escapes (b :: bs) ('%' :: hi :: lo :: e)

/-- `e` is an encoding of `t`. -/
inductive Encodes : List Char → List Char → Prop
  | nil : Encodes [] []
  | plain {c : Char} {t e : List Char} (percent : c ≠ '%') (plus : c ≠ '+') (rest : Encodes t e) :
      Encodes (c :: t) (c :: e)
  | escaped {c : Char} {t x e : List Char} (char : Escapes (String.utf8EncodeChar c) x)
      (rest : Encodes t e) : Encodes (c :: t) (x ++ e)

theorem hexValue_of_isHexDigit {n : ℕ} {c : Char} (hn : n < 16) (h : IsHexDigit n c) :
    ∃ b, String.utf8EncodeChar c = [b] ∧ hexValue b = some (UInt8.ofNat n) := by
  rcases h with rfl | rfl
  · exact hexValue_hexChar n hn
  · exact hexValue_hexUpper n hn

/-- An escaped byte is decoded to the byte. -/
theorem percentDecodeLoop_escaped {b : UInt8} {hi lo : Char} (high : IsHexDigit (b.toNat / 16) hi)
    (low : IsHexDigit (b.toNat % 16) lo) (rest : Bytes) :
    percentDecodeLoop (utf8Chars ['%', hi, lo] ++ rest) =
      (percentDecodeLoop rest).map (b :: ·) := by
  have hb : b.toNat < 256 := b.toNat_lt
  obtain ⟨h, hh, hv⟩ := hexValue_of_isHexDigit (by omega) high
  obtain ⟨l, hl, lv⟩ := hexValue_of_isHexDigit (by omega) low
  have henc : utf8Chars ['%', hi, lo] = [37, h, l] := by
    simp only [utf8Chars, List.flatMap_cons, List.flatMap_nil, hh, hl]
    rfl
  rw [henc]
  show percentDecodeLoop (37 :: h :: l :: rest) = _
  rw [percentDecodeLoop_escape, hv, lv, Option.bind_some, Option.bind_some, byte_of_hexDigits]

theorem percentDecodeLoop_escapes {bs : Bytes} {x : List Char} (h : Escapes bs x) (rest : Bytes) :
    percentDecodeLoop (utf8Chars x ++ rest) = (percentDecodeLoop rest).map (bs ++ ·) := by
  induction h with
  | nil => simp [utf8Chars]
  | @cons b bs hi lo e high low _ ih =>
    have hcons : utf8Chars ('%' :: hi :: lo :: e) = utf8Chars ['%', hi, lo] ++ utf8Chars e :=
      utf8Chars_append ['%', hi, lo] e
    rw [hcons, List.append_assoc, percentDecodeLoop_escaped high low, ih, Option.map_map]
    rfl

theorem percentDecodeLoop_encodes {t e : List Char} (h : Encodes t e) :
    percentDecodeLoop (utf8Chars e) = some (utf8Chars t) := by
  induction h with
  | nil => rfl
  | @plain c t e percent plus _ ih =>
    have hplain : ∀ x ∈ String.utf8EncodeChar c, x ≠ 37 ∧ x ≠ 43 := by
      intro x hx
      refine ⟨?_, ?_⟩
      · rintro rfl
        exact percent ((mem_utf8EncodeChar_iff (c := '%') (by decide)).1 hx)
      · rintro rfl
        exact plus ((mem_utf8EncodeChar_iff (c := '+') (by decide)).1 hx)
    have hcons : ∀ cs, utf8Chars (c :: cs) = String.utf8EncodeChar c ++ utf8Chars cs :=
      fun _ => rfl
    rw [hcons, hcons, percentDecodeLoop_plain hplain, ih, Option.map_some]
  | @escaped c t x e char _ ih =>
    rw [utf8Chars_append, percentDecodeLoop_escapes char, ih]
    rfl

/-! ## What is refused -/

/-- A hex digit, as a byte. -/
def isHexByte (b : UInt8) : Bool :=
  (48 ≤ b ∧ b ≤ 57) ∨ (97 ≤ b ∧ b ≤ 102) ∨ (65 ≤ b ∧ b ≤ 70)

/-- The scan of `bytes` from the left comes to `rest`. -/
inductive Scans : Bytes → Bytes → Prop
  | here (bytes : Bytes) : Scans bytes bytes
  | escape {hi lo : UInt8} {bytes rest : Bytes} (high : isHexByte hi) (low : isHexByte lo)
      (scan : Scans bytes rest) : Scans (37 :: hi :: lo :: bytes) rest
  | other {b : UInt8} {bytes rest : Bytes} (percent : b ≠ 37) (scan : Scans bytes rest) :
      Scans (b :: bytes) rest

/-- What follows a `%` begins with two hex digits. -/
def TwoHexBytes : Bytes → Prop
  | hi :: lo :: _ => isHexByte hi ∧ isHexByte lo
  | _ => False

/-- The scan comes to a `%` that two hex digits do not follow. -/
def BadEscape (bytes : Bytes) : Prop := ∃ rest, Scans bytes (37 :: rest) ∧ ¬TwoHexBytes rest

/-- The bytes a path stands for. -/
inductive Decodes : Bytes → Bytes → Prop
  | nil : Decodes [] []
  | escape {hi lo h l : UInt8} {bytes out : Bytes} (high : hexValue hi = some h)
      (low : hexValue lo = some l) (rest : Decodes bytes out) :
      Decodes (37 :: hi :: lo :: bytes) ((h * 16 + l) :: out)
  | plus {bytes out : Bytes} (rest : Decodes bytes out) : Decodes (43 :: bytes) (32 :: out)
  | other {b : UInt8} {bytes out : Bytes} (percent : b ≠ 37) (plus : b ≠ 43)
      (rest : Decodes bytes out) : Decodes (b :: bytes) (b :: out)

theorem isSome_hexValue (b : UInt8) : (hexValue b).isSome = isHexByte b := by
  unfold hexValue isHexByte
  split_ifs with h1 h2 h3 <;> simp_all

theorem badEscape_other {b : UInt8} (hb : b ≠ 37) (bytes : Bytes) :
    BadEscape (b :: bytes) ↔ BadEscape bytes := by
  constructor
  · intro hleft
    obtain ⟨rest, hscan, hbad⟩ := hleft
    cases hscan with
    | here => exact absurd rfl hb
    | escape => exact absurd rfl hb
    | other _ scan => exact ⟨rest, scan, hbad⟩
  · intro hright
    obtain ⟨rest, hscan, hbad⟩ := hright
    exact ⟨rest, .other hb hscan, hbad⟩

theorem badEscape_escape {hi lo : UInt8} (bytes : Bytes) :
    BadEscape (37 :: hi :: lo :: bytes) ↔ ¬(isHexByte hi ∧ isHexByte lo) ∨ BadEscape bytes := by
  constructor
  · intro hleft
    obtain ⟨rest, hscan, hbad⟩ := hleft
    cases hscan with
    | here => exact .inl hbad
    | escape high low scan => exact .inr ⟨rest, scan, hbad⟩
    | other percent _ => exact absurd rfl percent
  · intro h
    by_cases hdigits : isHexByte hi ∧ isHexByte lo
    · obtain ⟨rest, hscan, hbad⟩ := h.resolve_left (not_not.2 hdigits)
      exact ⟨rest, .escape hdigits.1 hdigits.2 hscan, hbad⟩
    · exact ⟨hi :: lo :: bytes, .here _, hdigits⟩

/-- The loop gives up just at a bad escape. -/
theorem percentDecodeLoop_eq_none (bytes : Bytes) :
    percentDecodeLoop bytes = none ↔ BadEscape bytes := by
  fun_induction percentDecodeLoop bytes with
  | case1 =>
    refine iff_of_false (by simp) ?_
    rintro ⟨rest, hscan, -⟩
    cases hscan
  | case2 hi lo rest ih =>
    rw [badEscape_escape, ← ih, ← isSome_hexValue, ← isSome_hexValue]
    cases hexValue hi with
    | none => simp
    | some h =>
      cases hexValue lo with
      | none => simp
      | some l => cases percentDecodeLoop rest <;> simp
  | case3 rest hshort =>
    refine iff_of_true rfl ⟨rest, .here _, ?_⟩
    match rest, hshort with
    | [], _ => exact id
    | [_], _ => exact id
    | hi :: lo :: rest, hshort => exact absurd rfl (hshort hi lo rest)
  | case4 rest ih => rw [badEscape_other (by decide), ← ih, Option.map_eq_none_iff]
  | case5 b rest _ hpercent hplus ih =>
    have hb : b ≠ 37 := fun heq => hpercent heq
    rw [badEscape_other hb, ← ih, Option.map_eq_none_iff]

theorem percentDecodeLoop_eq_some {bytes out : Bytes} :
    percentDecodeLoop bytes = some out ↔ Decodes bytes out := by
  constructor
  · intro h
    fun_induction percentDecodeLoop bytes generalizing out with
    | case1 =>
      rw [← Option.some.inj h]
      exact .nil
    | case2 hi lo rest ih =>
      simp only [Option.bind_eq_bind, Option.bind_eq_some_iff] at h
      obtain ⟨a, ha, b, hb, rest', hrest, heq⟩ := h
      rw [← Option.some.inj heq]
      exact .escape ha hb (ih hrest)
    | case3 rest hshort => cases h
    | case4 rest ih =>
      obtain ⟨rest', hrest, rfl⟩ := Option.map_eq_some_iff.1 h
      exact .plus (ih hrest)
    | case5 b rest _ hpercent hplus ih =>
      obtain ⟨rest', hrest, rfl⟩ := Option.map_eq_some_iff.1 h
      exact .other (fun heq => hpercent heq) (fun heq => hplus heq) (ih hrest)
  · intro h
    induction h with
    | nil => simp only [percentDecodeLoop]
    | escape high low _ ih =>
      rw [percentDecodeLoop_escape, high, low, Option.bind_some, Option.bind_some, ih,
        Option.map_some]
    | plus _ ih => rw [percentDecodeLoop_plus, ih, Option.map_some]
    | other percent plus _ ih => rw [percentDecodeLoop_cons percent plus, ih, Option.map_some]

/-- **Percent-decoding.** An encoding of a text is decoded to the text. A path is refused just
when the scan comes to a `%` that two hex digits do not follow, or the decoded bytes are not
UTF-8. -/
theorem percent_decoding :
    (∀ t e, Encodes t e → percentDecode e = some t) ∧
    ∀ s, percentDecode s = none ↔
      BadEscape (utf8Chars s) ∨
        ∃ out, Decodes (utf8Chars s) out ∧ ∀ text : String, utf8 text ≠ out := by
  refine ⟨fun t e h => percentDecode_of_loop (percentDecodeLoop_encodes h), fun s => ?_⟩
  rw [percentDecode, Option.map_eq_none_iff, ← percentDecodeLoop_eq_none]
  simp only [← percentDecodeLoop_eq_some]
  cases hloop : percentDecodeLoop (utf8Chars s) with
  | none => simp
  | some out =>
    rw [Option.bind_some, Option.eq_none_iff_forall_ne_some]
    simp only [ne_eq, fromUtf8_eq_some, reduceCtorEq, false_or, Option.some.injEq,
      exists_eq_left']

theorem percent_decoding_cafe :
    percentDecode "caf%c3%A9".toList = some "café".toList ∧ percentDecode "50%".toList = none ∧
      percentDecode "%ff".toList = none := by
  refine ⟨percent_decoding.1 _ _ ?_, (percent_decoding.2 _).2 (.inl ?_),
    (percent_decoding.2 _).2 (.inr ?_)⟩
  · have hescapes : Escapes (String.utf8EncodeChar 'é') "%c3%A9".toList :=
      .cons (.inl rfl) (.inl rfl) (.cons (.inr rfl) (.inl rfl) .nil)
    exact .plain (by decide) (by decide) (.plain (by decide) (by decide)
      (.plain (by decide) (by decide) (.escaped hescapes .nil)))
  · exact ⟨[], .other (by decide) (.other (by decide) (.here _)), id⟩
  · have hdecodes : Decodes [37, 102, 102] [15 * 16 + 15] := .escape rfl rfl .nil
    refine ⟨_, hdecodes, fun text htext => ?_⟩
    have hnone : fromUtf8 [15 * 16 + 15] = none := by decide
    rw [← htext, fromUtf8_utf8] at hnone
    cases hnone

end MeshlyCore.StaticHttp
