import Mathlib

/-!
# Bytes, little-endian words and UTF-8

Byte strings are lists, which is what the proofs take apart. Text is Lean's `String`, whose
values are exactly the valid UTF-8 byte strings, as a Rust `String`'s are; `utf8` and
`fromUtf8` are `as_bytes` and `from_utf8`.
-/

namespace MeshlyCore

abbrev Bytes := List UInt8

/-- A fixed array of 32 bytes, `[u8; 32]`. -/
abbrev Bytes32 := { b : Bytes // b.length = 32 }

/-- The array of 32 equal bytes, `[b; 32]`. -/
def Bytes32.replicate (b : UInt8) : Bytes32 := ⟨List.replicate 32 b, by simp⟩

/-- `try_into` from a slice to `[u8; 32]`. -/
def Bytes32.ofBytes? (b : Bytes) : Option Bytes32 :=
  if h : b.length = 32 then some ⟨b, h⟩ else none

@[simp] theorem Bytes32.ofBytes?_val (b : Bytes32) : Bytes32.ofBytes? b.val = some b := by
  simp [ofBytes?, b.property]

/-! ## Little-endian words -/

/-- `u16::to_le_bytes`, on the low 16 bits. -/
def putU16Le (n : Nat) : Bytes := [UInt8.ofNat n, UInt8.ofNat (n >>> 8)]

/-- `u16::from_le_bytes`. -/
def u16FromLe (lo hi : UInt8) : Nat := lo.toNat + 256 * hi.toNat

theorem u16FromLe_putU16Le {n : Nat} (h : n < 65536) :
    u16FromLe (UInt8.ofNat n) (UInt8.ofNat (n >>> 8)) = n := by
  simp only [u16FromLe, UInt8.toNat_ofNat', Nat.shiftRight_eq_div_pow]
  omega

@[simp] theorem length_putU16Le (n : Nat) : (putU16Le n).length = 2 := rfl

/-! ## UTF-8 -/

/-- The bytes of a text, `str::as_bytes`. -/
def utf8 (s : String) : Bytes := s.toByteArray.data.toList

/-- `String::from_utf8`, without the error's detail. -/
def fromUtf8 (b : Bytes) : Option String := String.fromUTF8? ⟨b.toArray⟩

/-- **Decoding is the partial inverse of encoding.** -/
theorem fromUtf8_eq_some {b : Bytes} {s : String} : fromUtf8 b = some s ↔ utf8 s = b := by
  unfold fromUtf8 utf8 String.fromUTF8?
  constructor
  · intro h
    split at h
    · cases h
      rfl
    · cases h
  · rintro rfl
    have hv : ByteArray.IsValidUTF8 ⟨s.toByteArray.data.toList.toArray⟩ := by
      simpa using s.isValidUTF8
    rw [dif_pos hv]
    rfl

@[simp] theorem fromUtf8_utf8 (s : String) : fromUtf8 (utf8 s) = some s :=
  fromUtf8_eq_some.2 rfl

theorem utf8_injective : Function.Injective utf8 := fun s t h => by
  have hs := fromUtf8_utf8 s
  rw [h, fromUtf8_utf8] at hs
  exact (Option.some.inj hs).symm

/-- The encoding of a list of characters. -/
def utf8Chars (cs : List Char) : Bytes := cs.flatMap String.utf8EncodeChar

theorem utf8_eq_utf8Chars (s : String) : utf8 s = utf8Chars s.toList := by
  have h : s.toByteArray = s.toList.utf8Encode := String.utf8Encode_toList.symm
  rw [utf8, h, utf8Chars, List.utf8Encode]
  simp

@[simp] theorem utf8_ofList (cs : List Char) : utf8 (String.ofList cs) = utf8Chars cs := by
  rw [utf8_eq_utf8Chars, String.toList_ofList]

@[simp] theorem utf8Chars_nil : utf8Chars [] = [] := rfl

@[simp] theorem utf8Chars_cons (c : Char) (cs : List Char) :
    utf8Chars (c :: cs) = String.utf8EncodeChar c ++ utf8Chars cs := rfl

@[simp] theorem utf8Chars_append (cs ds : List Char) :
    utf8Chars (cs ++ ds) = utf8Chars cs ++ utf8Chars ds := List.flatMap_append

theorem utf8Chars_eq_nil {cs : List Char} : utf8Chars cs = [] ↔ cs = [] := by
  cases cs with
  | nil => simp
  | cons c cs => simp [String.utf8EncodeChar_ne_nil]

theorem utf8Chars_flatMap {α : Type*} (f : α → List Char) (xs : List α) :
    utf8Chars (xs.flatMap f) = xs.flatMap fun x => utf8Chars (f x) :=
  List.flatMap_assoc

/-- Bytes below 128 stand only for themselves. -/
theorem toNat_of_mem_utf8EncodeChar {b : UInt8} (hb : b.toNat < 128) {c : Char}
    (h : b ∈ String.utf8EncodeChar c) : c.toNat = b.toNat := by
  have hbig : ∀ n, 128 ≤ n → n < 256 → b ≠ UInt8.ofNat n := by
    rintro n h1 h2 rfl
    rw [UInt8.toNat_ofNat_of_lt' h2] at hb
    omega
  have hchar : c.val.toNat = c.toNat := rfl
  simp only [String.utf8EncodeChar, hchar] at h
  split_ifs at h with h1 h2 h3
  · obtain rfl := List.mem_singleton.1 h
    exact (UInt8.toNat_ofNat_of_lt' (show c.toNat < 256 by omega)).symm
  all_goals
    exfalso
    simp only [List.mem_cons, List.not_mem_nil, or_false] at h
  · rcases h with h | h <;> exact hbig _ (by omega) (by omega) h
  · rcases h with h | h | h <;> exact hbig _ (by omega) (by omega) h
  · rcases h with h | h | h | h <;> exact hbig _ (by omega) (by omega) h

theorem utf8EncodeChar_ascii {c : Char} (hc : c.toNat < 128) :
    String.utf8EncodeChar c = [UInt8.ofNat c.toNat] := by
  have hle : c.val.toNat ≤ 127 := Nat.le_of_lt_succ hc
  simp only [String.utf8EncodeChar, if_pos hle]
  rfl

/-- A byte below 128 is a character. -/
theorem utf8EncodeChar_ofNat {b : UInt8} (hb : b.toNat < 128) :
    String.utf8EncodeChar (Char.ofNat b.toNat) = [b] := by
  have hnat : (Char.ofNat b.toNat).toNat = b.toNat := by
    rw [Char.toNat_ofNat, if_pos (.inl (by omega))]
  rw [utf8EncodeChar_ascii (by omega), hnat, UInt8.ofNat_toNat]

/-- The byte of an ASCII character is in the encoding of no other character. -/
theorem mem_utf8EncodeChar_iff {c d : Char} (hc : c.toNat < 128) :
    UInt8.ofNat c.toNat ∈ String.utf8EncodeChar d ↔ d = c := by
  have hlt : (UInt8.ofNat c.toNat).toNat = c.toNat :=
    UInt8.toNat_ofNat_of_lt' (show c.toNat < 256 by omega)
  constructor
  · intro hmem
    have heq := toNat_of_mem_utf8EncodeChar (by rw [hlt]; exact hc) hmem
    rw [hlt] at heq
    exact Char.toNat_inj.1 heq
  · rintro rfl
    rw [utf8EncodeChar_ascii hc]
    exact List.mem_singleton_self _

theorem notMem_utf8Chars {c : Char} (hc : c.toNat < 128) {cs : List Char} (h : c ∉ cs) :
    UInt8.ofNat c.toNat ∉ utf8Chars cs := by
  intro hmem
  obtain ⟨d, hd, hb⟩ := List.mem_flatMap.1 hmem
  obtain rfl := (mem_utf8EncodeChar_iff hc).1 hb
  exact h hd

/-- Text can be cut at an ASCII character, in bytes as in characters. -/
theorem exists_of_utf8Chars_eq {c : Char} (hc : c.toNat < 128) {cs : List Char} {a b : Bytes}
    (h : utf8Chars cs = a ++ UInt8.ofNat c.toNat :: b) :
    ∃ as bs, cs = as ++ c :: bs ∧ utf8Chars as = a ∧ utf8Chars bs = b := by
  induction cs generalizing a with
  | nil => simp at h
  | cons d ds ih =>
    rw [utf8Chars_cons] at h
    by_cases hmem : UInt8.ofNat c.toNat ∈ String.utf8EncodeChar d
    · -- The first character is the one to cut at, and its encoding is that byte alone.
      obtain rfl := (mem_utf8EncodeChar_iff hc).1 hmem
      rw [utf8EncodeChar_ascii hc, List.singleton_append] at h
      cases a with
      | nil =>
        obtain ⟨-, rfl⟩ := List.cons.inj h
        exact ⟨[], ds, rfl, rfl, rfl⟩
      | cons x a =>
        obtain ⟨rfl, htail⟩ := List.cons.inj h
        obtain ⟨as, bs, rfl, rfl, rfl⟩ := ih htail
        exact ⟨d :: as, bs, rfl, by rw [utf8Chars_cons, utf8EncodeChar_ascii hc]; rfl, rfl⟩
    · -- The encoding of the first character comes before the cut.
      obtain ⟨a', rfl, htail⟩ : ∃ a', a = String.utf8EncodeChar d ++ a' ∧
          utf8Chars ds = a' ++ UInt8.ofNat c.toNat :: b := by
        rcases List.append_eq_append_iff.1 h with ⟨a', rfl, h'⟩ | ⟨c', hc', h'⟩
        · exact ⟨a', rfl, h'⟩
        · cases c' with
          | nil => exact ⟨[], by simpa using hc'.symm, h'.symm⟩
          | cons x c' =>
            obtain ⟨rfl, -⟩ := List.cons.inj h'
            exact absurd (hc' ▸ List.mem_append_right a List.mem_cons_self) hmem
      obtain ⟨as, bs, rfl, rfl, rfl⟩ := ih htail
      exact ⟨d :: as, bs, rfl, rfl, rfl⟩

/-! ## Lossy decoding -/

/-- The character at the front. -/
def firstChar (b : Bytes) : Option Char := b.toByteArray.utf8DecodeChar? 0

theorem firstChar_append (c : Char) (rest : Bytes) :
    firstChar (String.utf8EncodeChar c ++ rest) = some c := by
  rw [firstChar, List.toByteArray_append]
  exact ByteArray.utf8DecodeChar?_utf8EncodeChar_append

theorem take_of_firstChar {b : Bytes} {c : Char} (h : firstChar b = some c) :
    b.take c.utf8Size = String.utf8EncodeChar c := by
  have heq := String.toByteArray_utf8EncodeChar_of_utf8DecodeChar?_eq_some h
  have hdata := congrArg (fun a : ByteArray => a.data.toList) heq
  simpa using hdata.symm

/-- The byte goes on a sequence of three or four bytes that `b` begins. -/
def isSecondOf (b x : UInt8) : Bool :=
  (b = 0xe0 ∧ 0xa0 ≤ x ∧ x ≤ 0xbf) ∨ (0xe1 ≤ b ∧ b ≤ 0xec ∧ 0x80 ≤ x ∧ x ≤ 0xbf) ∨
    (b = 0xed ∧ 0x80 ≤ x ∧ x ≤ 0x9f) ∨ (0xee ≤ b ∧ b ≤ 0xef ∧ 0x80 ≤ x ∧ x ≤ 0xbf) ∨
    (b = 0xf0 ∧ 0x90 ≤ x ∧ x ≤ 0xbf) ∨ (0xf1 ≤ b ∧ b ≤ 0xf3 ∧ 0x80 ≤ x ∧ x ≤ 0xbf) ∨
    (b = 0xf4 ∧ 0x80 ≤ x ∧ x ≤ 0x8f)

/-- How many bytes at the front one replacement character stands for. -/
def illFormedLength : Bytes → ℕ
  | b :: x :: y :: _ =>
      if isSecondOf b x then if 0xf0 ≤ b ∧ 0x80 ≤ y ∧ y ≤ 0xbf then 3 else 2 else 1
  | [b, x] => if isSecondOf b x then 2 else 1
  | _ => 1

/-- The loop of `String::from_utf8_lossy`, over at most `fuel` bytes. -/
def lossyLoop : ℕ → Bytes → List Char
  | 0, _ => []
  | _ + 1, [] => []
  | fuel + 1, b :: bs =>
      match firstChar (b :: bs) with
      | some c => c :: lossyLoop fuel ((b :: bs).drop c.utf8Size)
      | none => '\ufffd' :: lossyLoop fuel ((b :: bs).drop (illFormedLength (b :: bs)))

/-- `String::from_utf8_lossy`. -/
def fromUtf8Lossy (b : Bytes) : List Char := lossyLoop b.length b

theorem lossyLoop_utf8Chars (cs : List Char) {fuel : ℕ} (h : (utf8Chars cs).length ≤ fuel) :
    lossyLoop fuel (utf8Chars cs) = cs := by
  induction cs generalizing fuel with
  | nil => cases fuel <;> rfl
  | cons c cs ih =>
    have hlen : (String.utf8EncodeChar c).length = c.utf8Size := String.length_utf8EncodeChar c
    have hpos := c.utf8Size_pos
    have hfirst := firstChar_append c (utf8Chars cs)
    rw [utf8Chars_cons] at h ⊢
    rw [List.length_append, hlen] at h
    obtain ⟨fuel, rfl⟩ : ∃ n, fuel = n + 1 := ⟨fuel - 1, by omega⟩
    obtain ⟨b, bs, hb⟩ :=
      List.exists_cons_of_length_pos (show 0 < (String.utf8EncodeChar c ++ utf8Chars cs).length by
        rw [List.length_append]; omega)
    rw [hb] at hfirst ⊢
    simp only [lossyLoop, hfirst]
    rw [← hb, List.drop_left' hlen, ih (by omega)]

/-- **Text in UTF-8 is decoded without loss.** -/
@[simp] theorem fromUtf8Lossy_utf8Chars (cs : List Char) : fromUtf8Lossy (utf8Chars cs) = cs :=
  lossyLoop_utf8Chars cs le_rfl

theorem utf8Chars_injective : Function.Injective utf8Chars :=
  Function.LeftInverse.injective fromUtf8Lossy_utf8Chars

theorem le_of_firstChar_eq_none {b : UInt8} {bs : Bytes} (h : firstChar (b :: bs) = none) :
    128 ≤ b.toNat := by
  by_contra hlt
  have hfirst := firstChar_append (Char.ofNat b.toNat) bs
  rw [utf8EncodeChar_ofNat (by omega), List.singleton_append, h] at hfirst
  cases hfirst

theorem le_of_isSecondOf {b x : UInt8} (h : isSecondOf b x) : 128 ≤ x.toNat := by
  simp only [isSecondOf, UInt8.le_iff_toNat_le, decide_eq_true_eq] at h
  simp at h
  omega

/-- Only bytes from 128 on are replaced. -/
theorem le_of_mem_illFormed {b : UInt8} {bs : Bytes} (h : firstChar (b :: bs) = none) {x : UInt8}
    (hx : x ∈ (b :: bs).take (illFormedLength (b :: bs))) : 128 ≤ x.toNat := by
  have hfirst := le_of_firstChar_eq_none h
  -- The bytes after the first are continuation bytes.
  cases bs with
  | nil =>
    obtain rfl : x = b := by simpa [illFormedLength] using hx
    exact hfirst
  | cons y bs =>
    by_cases hy : isSecondOf b y
    · cases bs with
      | nil =>
        simp only [illFormedLength, if_pos hy, List.take_succ_cons, List.take_zero,
          List.mem_cons, List.not_mem_nil, or_false] at hx
        rcases hx with rfl | rfl
        · exact hfirst
        · exact le_of_isSecondOf hy
      | cons z bs =>
        simp only [illFormedLength, if_pos hy] at hx
        split_ifs at hx with hz
        · simp only [List.take_succ_cons, List.take_zero, List.mem_cons, List.not_mem_nil,
            or_false] at hx
          rcases hx with rfl | rfl | rfl
          · exact hfirst
          · exact le_of_isSecondOf hy
          · exact UInt8.le_iff_toNat_le.1 hz.2.1
        · simp only [List.take_succ_cons, List.take_zero, List.mem_cons, List.not_mem_nil,
            or_false] at hx
          rcases hx with rfl | rfl
          · exact hfirst
          · exact le_of_isSecondOf hy
    · have hone : illFormedLength (b :: y :: bs) = 1 := by
        cases bs <;> simp [illFormedLength, hy]
      obtain rfl : x = b := by simpa [hone] using hx
      exact hfirst

theorem illFormedLength_pos (b : Bytes) : 0 < illFormedLength b := by
  unfold illFormedLength
  split
  · split_ifs <;> omega
  · split_ifs <;> omega
  · omega

/-- Lossy decoding neither loses nor makes up an ASCII character. -/
theorem mem_lossyLoop_iff {c : Char} (hc : c.toNat < 128) {fuel : ℕ} {b : Bytes}
    (h : b.length ≤ fuel) : c ∈ lossyLoop fuel b ↔ UInt8.ofNat c.toNat ∈ b := by
  induction fuel generalizing b with
  | zero =>
    obtain rfl := List.length_eq_zero_iff.1 (Nat.le_zero.1 h)
    simp [lossyLoop]
  | succ fuel ih =>
    cases b with
    | nil => simp [lossyLoop]
    | cons x bs =>
      cases hfirst : firstChar (x :: bs) with
      | some d =>
        have htake := take_of_firstChar hfirst
        have hpos := d.utf8Size_pos
        have hmem : UInt8.ofNat c.toNat ∈ String.utf8EncodeChar d ↔ c = d :=
          (mem_utf8EncodeChar_iff hc).trans eq_comm
        have hdrop : ((x :: bs).drop d.utf8Size).length ≤ fuel := by
          simp only [List.length_drop, List.length_cons] at h ⊢
          omega
        have hrest : c ∈ lossyLoop fuel ((x :: bs).drop d.utf8Size) ↔
            UInt8.ofNat c.toNat ∈ (x :: bs).drop d.utf8Size := ih hdrop
        simp only [lossyLoop, hfirst]
        rw [List.mem_cons, hrest, ← hmem, ← htake, ← List.mem_append, List.take_append_drop]
      | none =>
        have hpos := illFormedLength_pos (x :: bs)
        have hnot : UInt8.ofNat c.toNat ∉ (x :: bs).take (illFormedLength (x :: bs)) := by
          intro hmem
          have hge := le_of_mem_illFormed hfirst hmem
          rw [UInt8.toNat_ofNat_of_lt' (show c.toNat < 256 by omega)] at hge
          omega
        have hrepl : c ≠ '\ufffd' := by
          rintro rfl
          revert hc
          decide
        have hdrop : ((x :: bs).drop (illFormedLength (x :: bs))).length ≤ fuel := by
          simp only [List.length_drop, List.length_cons] at h ⊢
          omega
        have hsplit : UInt8.ofNat c.toNat ∈ x :: bs ↔
            UInt8.ofNat c.toNat ∈ (x :: bs).drop (illFormedLength (x :: bs)) := by
          conv_lhs => rw [← List.take_append_drop (illFormedLength (x :: bs)) (x :: bs)]
          rw [List.mem_append, or_iff_right hnot]
        simp only [lossyLoop, hfirst]
        rw [List.mem_cons, or_iff_right hrepl, hsplit]
        exact ih hdrop

theorem mem_fromUtf8Lossy_iff {c : Char} (hc : c.toNat < 128) (b : Bytes) :
    c ∈ fromUtf8Lossy b ↔ UInt8.ofNat c.toNat ∈ b :=
  mem_lossyLoop_iff hc le_rfl

end MeshlyCore
