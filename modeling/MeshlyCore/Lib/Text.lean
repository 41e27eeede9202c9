import Mathlib

/-!
# Text

String functions of the Rust standard library, on lists of characters. `str::split` is
`List.splitOn`, `trim_end_matches` is `List.rdropWhile`.
-/

namespace MeshlyCore.Text

/-- `char::is_whitespace`: the Unicode property White_Space. -/
def isWhitespace (c : Char) : Bool :=
  (9 ≤ c.toNat ∧ c.toNat ≤ 13) ∨ c.toNat = 0x20 ∨ c.toNat = 0x85 ∨ c.toNat = 0xa0 ∨
    c.toNat = 0x1680 ∨ (0x2000 ≤ c.toNat ∧ c.toNat ≤ 0x200a) ∨ c.toNat = 0x2028 ∨
    c.toNat = 0x2029 ∨ c.toNat = 0x202f ∨ c.toNat = 0x205f ∨ c.toNat = 0x3000

/-- `str::trim`. -/
def trim (s : List Char) : List Char := (s.dropWhile isWhitespace).rdropWhile isWhitespace

/-- `char::to_ascii_lowercase`. -/
def toAsciiLowercase (c : Char) : Char :=
  if 'A' ≤ c ∧ c ≤ 'Z' then Char.ofNat (c.toNat + 32) else c

/-- `str::eq_ignore_ascii_case`. -/
def eqIgnoreAsciiCase (s t : List Char) : Bool :=
  s.map toAsciiLowercase = t.map toAsciiLowercase

/-- `str::split_once`, on a character. -/
def splitOnce (sep : Char) : List Char → Option (List Char × List Char)
  | [] => none
  | c :: s => if c = sep then some ([], s) else (splitOnce sep s).map fun (k, v) => (c :: k, v)

/-- `usize::from_str` on a 64-bit machine: digits, after an optional plus sign. -/
def parseUsize (s : List Char) : Option ℕ :=
  let digits := match s with
    | '+' :: rest => rest
    | _ => s
  if digits = [] ∨ ¬digits.all Char.isDigit then none
  else
    let n := digits.foldl (fun n c => n * 10 + (c.toNat - '0'.toNat)) 0
    if n < 2 ^ 64 then some n else none

/-- The value of a decimal number, `1*DIGIT`. -/
def decimal? (s : List Char) : Option ℕ :=
  if s = [] ∨ ¬s.all Char.isDigit then none else some (Nat.ofDigitChars 10 s 0)

theorem isDigit_of_mem_toString {n : ℕ} {c : Char} (hc : c ∈ (toString n).toList) : c.isDigit := by
  rw [Nat.toString_eq_repr, Nat.toList_repr] at hc
  exact Nat.isDigit_of_mem_toDigits (by decide) (by decide) hc

/-- A number is read back from its text. -/
theorem decimal?_toString (n : ℕ) : decimal? (toString n).toList = some n := by
  have hne : Nat.toDigits 10 n ≠ [] := List.length_pos_iff_ne_nil.1 Nat.length_toDigits_pos
  have hdigits : (toString n).toList.all Char.isDigit := List.all_eq_true.2 fun c hc =>
    isDigit_of_mem_toString hc
  rw [Nat.toString_eq_repr, Nat.toList_repr] at hdigits ⊢
  rw [decimal?, if_neg (by simp [hne, hdigits]), Nat.ofDigitChars_ten_toDigits]

theorem toString_injective : Function.Injective (toString : ℕ → String) := fun m n h => by
  have hm := decimal?_toString m
  rw [h, decimal?_toString] at hm
  exact (Option.some.inj hm).symm

theorem splitOnce_append {sep : Char} {k : List Char} (h : sep ∉ k) (v : List Char) :
    splitOnce sep (k ++ sep :: v) = some (k, v) := by
  induction k with
  | nil => simp [splitOnce]
  | cons c k ih =>
    rw [List.mem_cons, not_or] at h
    have hc : c ≠ sep := fun heq => h.1 heq.symm
    simp only [List.cons_append, splitOnce, if_neg hc, ih h.2, Option.map_some]

end MeshlyCore.Text
