import Mathlib.Data.List.Basic
import Mathlib.Data.UInt
import Mathlib.Tactic.NormNum

/-!
# Byte strings and big-endian integers

Byte strings are lists of octets, and the fixed-width integers of a wire format are natural
numbers: `beNat` reads a big-endian field, `putUint16` and `putUint32` write one. The subtraction
of unsigned machine integers wraps (`sub32`, `sub64`) where the programs rely on what it gives.
-/

namespace WagoHttp

/-- A string of octets. -/
abbrev Bytes := List UInt8

/-- The octets of a string of one-byte characters. -/
def ascii (s : String) : Bytes := s.toList.map fun c => UInt8.ofNat c.toNat

/-- The octet of a one-byte character. -/
def octet (c : Char) : UInt8 := UInt8.ofNat c.toNat

/-- The number a big-endian field denotes. -/
def beNat (bs : Bytes) : ℕ := bs.foldl (fun n b => n * 256 + b.toNat) 0

/-- The two octets of a 16-bit integer, most significant first. -/
def putUint16 (v : ℕ) : Bytes := [UInt8.ofNat (v / 256), UInt8.ofNat v]

/-- The four octets of a 32-bit integer, most significant first. -/
def putUint32 (v : ℕ) : Bytes :=
  [UInt8.ofNat (v / 16777216), UInt8.ofNat (v / 65536), UInt8.ofNat (v / 256), UInt8.ofNat v]

/-- Subtraction of 32-bit unsigned integers. -/
def sub32 (a b : ℕ) : ℕ := (a + 2 ^ 32 - b) % 2 ^ 32

/-- Subtraction of 64-bit unsigned integers. -/
def sub64 (a b : ℕ) : ℕ := (a + 2 ^ 64 - b) % 2 ^ 64

@[simp] theorem length_putUint32 (v : ℕ) : (putUint32 v).length = 4 := rfl

theorem beNat_putUint32 {v : ℕ} (h : v < 2 ^ 32) : beNat (putUint32 v) = v := by
  simp only [beNat, putUint32, List.foldl_cons, List.foldl_nil, UInt8.toNat_ofNat']
  omega

end WagoHttp
