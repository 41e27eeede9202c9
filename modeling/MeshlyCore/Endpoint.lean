import MeshlyCore.Lib.Bytes

/-!
# Endpoint ids

An endpoint id is a 32-byte public key. iroh renders it as text and reads it back;
`parse_endpoint_id` also takes the 64-digit hex form. What the libraries do is a parameter (`Iroh`);
the digits defined here are those of `hex_val`, and of a sample.
-/

namespace MeshlyCore

/-- The public key of an endpoint. -/
structure EndpointId where
  bytes : Bytes32
  deriving DecidableEq

/-- The conversions of endpoint ids that are not this program's own: iroh's `to_string`, `parse` and
`PublicKey::from_bytes`, and `hex::decode`. -/
structure Iroh where
  toStr : EndpointId → String
  fromStr : String → Option EndpointId
  fromBytes : Bytes32 → Option EndpointId
  fromHex : String → Option Bytes

/-- Parse an endpoint id from its canonical or its hex form. -/
def parseEndpointId (iroh : Iroh) (s : String) : Option EndpointId :=
  match iroh.fromStr s with
  | some id => some id
  | none => ((iroh.fromHex s).bind Bytes32.ofBytes?).bind iroh.fromBytes

/-! ## Hex digits -/

/-- A lower-case hex digit. -/
def hexChar (n : Nat) : Char := Char.ofNat (if n < 10 then 48 + n else 87 + n)

/-- Two digits for each byte. -/
def hexEncode (b : Bytes) : String :=
  String.ofList (b.flatMap fun x => [hexChar (x.toNat / 16), hexChar (x.toNat % 16)])

/-- The value of a hex digit of either case. -/
def hexValue (b : UInt8) : Option UInt8 :=
  if 48 ≤ b ∧ b ≤ 57 then some (b - 48)
  else if 97 ≤ b ∧ b ≤ 102 then some (b - 87)
  else if 65 ≤ b ∧ b ≤ 70 then some (b - 55)
  else none

/-- The bytes of an even number of digits. -/
def hexDecode : Bytes → Option Bytes
  | [] => some []
  | [_] => none
  | hi :: lo :: rest => do
      let h ← hexValue hi
      let l ← hexValue lo
      let bytes ← hexDecode rest
      return (h * 16 + l) :: bytes

theorem hexValue_hexChar : ∀ n < 16, ∃ b, String.utf8EncodeChar (hexChar n) = [b] ∧
    hexValue b = some (UInt8.ofNat n) := by
  decide

theorem byte_of_hexDigits (b : UInt8) :
    UInt8.ofNat (b.toNat / 16) * 16 + UInt8.ofNat (b.toNat % 16) = b := by
  have hb : b.toNat < 256 := b.toNat_lt
  apply UInt8.toNat_inj.1
  simp only [UInt8.toNat_add, UInt8.toNat_mul, UInt8.toNat_ofNat']
  show ((b.toNat / 16) % 256 * 16 % 256 + (b.toNat % 16) % 256) % 256 = b.toNat
  omega

theorem hexDecode_hexEncode (b : Bytes) : hexDecode (utf8 (hexEncode b)) = some b := by
  rw [hexEncode, utf8_ofList]
  induction b with
  | nil => rfl
  | cons x b ih =>
    have hx : x.toNat < 256 := x.toNat_lt
    obtain ⟨hi, hhi, hv⟩ := hexValue_hexChar (x.toNat / 16) (by omega)
    obtain ⟨lo, hlo, lv⟩ := hexValue_hexChar (x.toNat % 16) (by omega)
    simp only [List.flatMap_cons, utf8Chars_cons, hhi, hlo, List.cons_append, List.nil_append,
      hexDecode, hv, lv, ih, byte_of_hexDigits, Option.bind_eq_bind, Option.bind_some,
      Option.pure_def]

/-- An iroh whose canonical form is the hex form, and that takes any key. -/
def Iroh.hex : Iroh where
  toStr := fun id => hexEncode id.bytes.val
  fromStr := fun s => ((hexDecode (utf8 s)).bind Bytes32.ofBytes?).map EndpointId.mk
  fromBytes := fun b => some ⟨b⟩
  fromHex := fun s => hexDecode (utf8 s)

theorem Iroh.hex_fromStr_toStr (id : EndpointId) : hex.fromStr (hex.toStr id) = some id := by
  simp [hex, hexDecode_hexEncode]

end MeshlyCore
