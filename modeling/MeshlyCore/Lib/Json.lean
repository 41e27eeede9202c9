import MeshlyCore.Lib.Bytes

/-!
# Compact JSON

The text a JSON encoder writes without any white space. A string goes out byte by byte: quotes,
backslashes and control characters are escaped, the latter by a letter where JSON has one, and
everything from 128 on is the text's own UTF-8. What is proved is how long the texts get.
-/

namespace MeshlyCore.Json

/-! ## Strings -/

/-- A lower-case hex digit. -/
def hexDigit (n : ℕ) : UInt8 := UInt8.ofNat (if n < 10 then 48 + n else 87 + n)

/-- The letter of a short escape. -/
def shortEscape (b : UInt8) : Option UInt8 :=
  if b = 0x22 then some 0x22
  else if b = 0x5c then some 0x5c
  else if b = 0x08 then some 0x62
  else if b = 0x09 then some 0x74
  else if b = 0x0a then some 0x6e
  else if b = 0x0c then some 0x66
  else if b = 0x0d then some 0x72
  else none

def escapeByte (b : UInt8) : Bytes :=
  match shortEscape b with
  | some c => [0x5c, c]
  | none =>
      if b < 0x20 then
        [0x5c, 0x75, 0x30, 0x30, hexDigit (b.toNat / 16), hexDigit (b.toNat % 16)]
      else [b]

/-- The text between the quotes. -/
def escaped (s : String) : Bytes := (utf8 s).flatMap escapeByte

def string (s : String) : Bytes := 0x22 :: escaped s ++ [0x22]

theorem length_escapeByte_le (b : UInt8) : (escapeByte b).length ≤ 6 := by
  unfold escapeByte
  split
  · simp
  · split_ifs <;> simp

theorem length_escaped_le (s : String) : (escaped s).length ≤ 6 * (utf8 s).length := by
  unfold escaped
  induction utf8 s with
  | nil => simp
  | cons b bs ih =>
    have hb := length_escapeByte_le b
    rw [List.flatMap_cons, List.length_append, List.length_cons]
    omega

theorem length_string (s : String) : (string s).length = (escaped s).length + 2 := by
  simp [string]

/-! ## Other values -/

def bool (b : Bool) : Bytes := utf8 (if b then "true" else "false")

def option {α : Type} (value : α → Bytes) : Option α → Bytes
  | some a => value a
  | none => utf8 "null"

/-- The decimal digits of a number. -/
def number (n : ℕ) : Bytes :=
  if n = 0 then [48] else (Nat.digits 10 n).reverse.map fun d => UInt8.ofNat (48 + d)

theorem length_number_le {n k : ℕ} (hk : 0 < k) (hn : n < 10 ^ k) : (number n).length ≤ k := by
  unfold number
  split_ifs
  · exact hk
  · rw [List.length_map, List.length_reverse]
    exact (Nat.digits_length_le_iff (by decide) n).2 hn

/-! ## Objects -/

/-- The fields of an object, with a comma before all but the first. -/
def fields : List (String × Bytes) → Bytes
  | [] => []
  | [(key, value)] => string key ++ 0x3a :: value
  | (key, value) :: rest => string key ++ 0x3a :: value ++ 0x2c :: fields rest

def object (kvs : List (String × Bytes)) : Bytes := 0x7b :: fields kvs ++ [0x7d]

end MeshlyCore.Json
