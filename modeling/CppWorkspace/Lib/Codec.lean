import Mathlib

/-!
Self-delimiting byte codecs: a decoder reads one value from the front of a
byte string and hands back the rest. The round-trip law is a field, so a codec
value is an encoder together with a decoder that undoes it.
-/

namespace CppWorkspace.Lib

structure Codec (α : Type) where
  encode : α → List UInt8
  decode : List UInt8 → Option (α × List UInt8)
  decode_encode : ∀ a rest, decode (encode a ++ rest) = some (a, rest)

namespace Codec

variable {α β : Type}

@[simp] theorem decode_encode_self (c : Codec α) (a : α) :
    c.decode (c.encode a) = some (a, []) := by
  simpa using c.decode_encode a []

/-- Two fields in sequence. -/
def pair (c : Codec α) (d : Codec β) : Codec (α × β) where
  encode p := c.encode p.1 ++ d.encode p.2
  decode bytes := do
    let (a, rest) ← c.decode bytes
    let (b, rest) ← d.decode rest
    pure ((a, b), rest)
  decode_encode := by
    intro p rest
    simp [List.append_assoc, c.decode_encode, d.decode_encode]

/-- Re-read a codec through a map that has a right inverse. -/
def imap (c : Codec α) (f : α → β) (g : β → α) (h : ∀ b, f (g b) = b) : Codec β where
  encode b := c.encode (g b)
  decode bytes := (c.decode bytes).map fun p => (f p.1, p.2)
  decode_encode := by
    intro b rest
    simp [c.decode_encode, h]

/-! A natural number of any size: as many ones, closed by a zero. -/

def decodeUnary : List UInt8 → Option (Nat × List UInt8)
  | [] => none
  | b :: rest =>
      if b = 0 then some (0, rest)
      else (decodeUnary rest).map fun p => (p.1 + 1, p.2)

def unary : Codec Nat where
  encode n := List.replicate n 1 ++ [0]
  decode := decodeUnary
  decode_encode := by
    intro n rest
    induction n with
    | zero => rfl
    | succ n ih =>
        simp only [List.append_assoc, List.cons_append, List.nil_append] at ih
        simp [List.replicate_succ, decodeUnary, ih]

/-! Fixed-width little-endian words. -/

def leBytes : Nat → Nat → List UInt8
  | 0, _ => []
  | width + 1, n => UInt8.ofNat n :: leBytes width (n / 256)

def leValue : List UInt8 → Nat
  | [] => 0
  | b :: rest => b.toNat + 256 * leValue rest

@[simp] theorem leBytes_length (width n : Nat) : (leBytes width n).length = width := by
  induction width generalizing n with
  | zero => rfl
  | succ width ih => simp [leBytes, ih]

theorem leValue_leBytes (width n : Nat) : leValue (leBytes width n) = n % 256 ^ width := by
  induction width generalizing n with
  | zero => simp [leBytes, leValue, Nat.mod_one]
  | succ width ih =>
      have hbyte : (UInt8.ofNat n).toNat = n % 256 := by simp
      rw [leBytes, leValue, ih, hbyte, Nat.pow_succ, Nat.mul_comm (256 ^ width) 256,
        Nat.mod_mul]

def littleEndian (width : Nat) : Codec (BitVec (8 * width)) where
  encode v := leBytes width v.toNat
  decode bytes :=
    if width ≤ bytes.length then
      some (BitVec.ofNat _ (leValue (bytes.take width)), bytes.drop width)
    else none
  decode_encode := by
    intro v rest
    have htake : (leBytes width v.toNat ++ rest).take width = leBytes width v.toNat :=
      List.take_left' (leBytes_length _ _)
    have hdrop : (leBytes width v.toNat ++ rest).drop width = rest :=
      List.drop_left' (leBytes_length _ _)
    have hvalue : leValue (leBytes width v.toNat) = v.toNat := by
      rw [leValue_leBytes]
      apply Nat.mod_eq_of_lt
      simpa [Nat.pow_mul] using v.isLt
    simp [htake, hdrop, hvalue]

/-- One byte. -/
def byte : Codec UInt8 where
  encode b := [b]
  decode
    | [] => none
    | b :: rest => some (b, rest)
  decode_encode := by
    intro b rest
    rfl

end Codec

end CppWorkspace.Lib
