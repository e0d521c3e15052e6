import Mathlib.Data.List.Basic
import Mathlib.Order.Basic

/-!
# UTF-8

The bytes of a text, and the decoder of the Encoding standard: byte by byte, with
the replacement character for what is not well-formed. What is encoded decodes
to itself.
-/

namespace Stynx.Utf8

/-- A byte that continues a character, with six bits of it. -/
def tail (n : Nat) : UInt8 := UInt8.ofNat (0x80 + n % 64)

def encodeChar (c : Char) : List UInt8 :=
  if c.toNat < 0x80 then [UInt8.ofNat c.toNat]
  else if c.toNat < 0x800 then [UInt8.ofNat (0xC0 + c.toNat / 64), tail c.toNat]
  else if c.toNat < 0x10000 then
    [UInt8.ofNat (0xE0 + c.toNat / 4096), tail (c.toNat / 64), tail c.toNat]
  else
    [UInt8.ofNat (0xF0 + c.toNat / 262144), tail (c.toNat / 4096), tail (c.toNat / 64),
      tail c.toNat]

def encode (text : List Char) : List UInt8 := text.flatMap encodeChar

/-- A character of which some bytes have been read. -/
structure Pending where
  code : Nat
  needed : Nat
  low : Nat
  high : Nat

def replacement : Char := Char.ofNat 0xFFFD

def start (byte : Nat) : List Char × Option Pending :=
  if byte < 0x80 then ([Char.ofNat byte], none)
  else if 0xC2 ≤ byte ∧ byte < 0xE0 then ([], some ⟨byte - 0xC0, 1, 0x80, 0xBF⟩)
  else if 0xE0 ≤ byte ∧ byte < 0xF0 then
    ([], some ⟨byte - 0xE0, 2, if byte = 0xE0 then 0xA0 else 0x80,
      if byte = 0xED then 0x9F else 0xBF⟩)
  else if 0xF0 ≤ byte ∧ byte < 0xF5 then
    ([], some ⟨byte - 0xF0, 3, if byte = 0xF0 then 0x90 else 0x80,
      if byte = 0xF4 then 0x8F else 0xBF⟩)
  else ([replacement], none)

/-- The next byte. One that does not continue the character starts the next one. -/
def step (state : Option Pending) (byte : Nat) : List Char × Option Pending :=
  match state with
  | none => start byte
  | some p =>
    if p.low ≤ byte ∧ byte ≤ p.high then
      if p.needed = 1 then ([Char.ofNat (p.code * 64 + (byte - 0x80))], none)
      else ([], some ⟨p.code * 64 + (byte - 0x80), p.needed - 1, 0x80, 0xBF⟩)
    else (replacement :: (start byte).1, (start byte).2)

def run (state : Option Pending) : List UInt8 → List Char
  | [] => if state.isSome then [replacement] else []
  | byte :: bytes => (step state byte.toNat).1 ++ run (step state byte.toNat).2 bytes

def decode (bytes : List UInt8) : List Char := run none bytes

theorem toNat_ofNat {n : Nat} (h : n < 256) : (UInt8.ofNat n).toNat = n := by
  rw [UInt8.toNat_ofNat']
  exact Nat.mod_eq_of_lt h

theorem toNat_tail (n : Nat) : (tail n).toNat = 0x80 + n % 64 := toNat_ofNat (by omega)

theorem run_tail {p : Pending} {n : Nat} (hlow : p.low ≤ 0x80 + n % 64)
    (hhigh : 0x80 + n % 64 ≤ p.high) (hneeded : p.needed ≠ 1) (bytes : List UInt8) :
    run (some p) (tail n :: bytes) =
      run (some ⟨p.code * 64 + n % 64, p.needed - 1, 0x80, 0xBF⟩) bytes := by
  rw [run, toNat_tail, step]
  simp only [if_pos (show p.low ≤ 0x80 + n % 64 ∧ 0x80 + n % 64 ≤ p.high from ⟨hlow, hhigh⟩),
    if_neg hneeded, List.nil_append, Nat.add_sub_cancel_left]

theorem run_last {p : Pending} {n : Nat} (hlow : p.low ≤ 0x80 + n % 64)
    (hhigh : 0x80 + n % 64 ≤ p.high) (hneeded : p.needed = 1) (bytes : List UInt8) :
    run (some p) (tail n :: bytes) = Char.ofNat (p.code * 64 + n % 64) :: run none bytes := by
  rw [run, toNat_tail, step]
  simp only [if_pos (show p.low ≤ 0x80 + n % 64 ∧ 0x80 + n % 64 ≤ p.high from ⟨hlow, hhigh⟩),
    if_pos hneeded, List.singleton_append, Nat.add_sub_cancel_left]

theorem scalar_range (c : Char) : c.toNat < 0xD800 ∨ 0xE000 ≤ c.toNat ∧ c.toNat < 0x110000 := by
  rcases c.valid with h | ⟨hlow, hhigh⟩
  · exact .inl h
  · have hlow' : 0xDFFF < c.toNat := hlow
    exact .inr ⟨by omega, hhigh⟩

theorem run_encodeChar (c : Char) (bytes : List UInt8) :
    run none (encodeChar c ++ bytes) = c :: run none bytes := by
  have hrange := scalar_range c
  have hchar : Char.ofNat c.toNat = c := Char.ofNat_toNat c
  unfold encodeChar
  split_ifs with hone htwo hthree
  · rw [List.singleton_append, run, toNat_ofNat (by omega), step, start, if_pos hone, hchar]
    rfl
  · rw [List.cons_append, run, toNat_ofNat (by omega), step, start, if_neg (by omega),
      if_pos (by omega), List.nil_append, List.singleton_append,
      run_last (by dsimp only; omega) (by dsimp only; omega) rfl]
    rw [show (0xC0 + c.toNat / 64 - 0xC0) * 64 + c.toNat % 64 = c.toNat by omega, hchar]
  · rw [List.cons_append, run, toNat_ofNat (by omega), step, start, if_neg (by omega),
      if_neg (by omega), if_pos (by omega), List.nil_append, List.cons_append,
      List.singleton_append,
      run_tail (by dsimp only; split_ifs <;> omega) (by dsimp only; split_ifs <;> omega)
        (by dsimp only; omega),
      run_last (by dsimp only; omega) (by dsimp only; omega) rfl]
    dsimp only
    rw [show ((0xE0 + c.toNat / 4096 - 0xE0) * 64 + c.toNat / 64 % 64) * 64 + c.toNat % 64 =
      c.toNat by omega, hchar]
  · rw [List.cons_append, run, toNat_ofNat (by omega), step, start, if_neg (by omega),
      if_neg (by omega), if_neg (by omega), if_pos (by omega), List.nil_append, List.cons_append,
      List.cons_append, List.singleton_append,
      run_tail (by dsimp only; split_ifs <;> omega) (by dsimp only; split_ifs <;> omega)
        (by dsimp only; omega),
      run_tail (by dsimp only; omega) (by dsimp only; omega) (by dsimp only; omega),
      run_last (by dsimp only; omega) (by dsimp only; omega) rfl]
    dsimp only
    rw [show (((0xF0 + c.toNat / 262144 - 0xF0) * 64 + c.toNat / 4096 % 64) * 64 +
      c.toNat / 64 % 64) * 64 + c.toNat % 64 = c.toNat by omega, hchar]

theorem decode_encode (text : List Char) : decode (encode text) = text := by
  rw [decode, encode]
  induction text with
  | nil => rfl
  | cons c text ih => rw [List.flatMap_cons, run_encodeChar, ih]

end Stynx.Utf8
