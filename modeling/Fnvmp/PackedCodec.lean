import Mathlib.Data.List.Basic
import Mathlib.Algebra.Order.Ring.Nat

/-!
# Packed little-endian records

A codec is a fixed width together with an encoder, a decoder and the proofs that
they are inverse to each other. Records are assembled from machine words with
`pair` and renamed with `iso`, which is what a packed struct without padding is.
Reads and writes of a byte buffer are checked: `none` is an access outside it.
-/

namespace PackedCodec

/-- The `w` little-endian bytes of a number. -/
def leBytes : Nat → Nat → List UInt8
  | 0, _ => []
  | w + 1, n => UInt8.ofNat n :: leBytes w (n / 256)

def leNat : List UInt8 → Nat
  | [] => 0
  | b :: bs => b.toNat + 256 * leNat bs

@[simp] theorem leBytes_length (w n : Nat) : (leBytes w n).length = w := by
  induction w generalizing n with
  | zero => rfl
  | succ w ih => simp [leBytes, ih]

theorem leNat_leBytes (w n : Nat) : leNat (leBytes w n) = n % 256 ^ w := by
  induction w generalizing n with
  | zero => simp [leBytes, leNat, Nat.mod_one]
  | succ w ih =>
    have hbyte : (UInt8.ofNat n).toNat = n % 256 := by simp
    rw [leBytes, leNat, ih, hbyte, Nat.pow_succ, Nat.mul_comm (256 ^ w), Nat.mod_mul]

theorem leNat_lt (bs : List UInt8) : leNat bs < 256 ^ bs.length := by
  induction bs with
  | nil => simp [leNat]
  | cons b bs ih =>
    have hb := b.toNat_lt
    simp only [leNat, List.length_cons, Nat.pow_succ]
    omega

theorem leBytes_leNat (bs : List UInt8) : leBytes bs.length (leNat bs) = bs := by
  induction bs with
  | nil => rfl
  | cons b bs ih =>
    have hb := b.toNat_lt
    have hdiv : (b.toNat + 256 * leNat bs) / 256 = leNat bs := by omega
    have hbyte : UInt8.ofNat (b.toNat + 256 * leNat bs) = b := by
      apply UInt8.toNat_inj.mp
      rw [UInt8.toNat_ofNat']
      omega
    simp only [leBytes, leNat, List.length_cons, hdiv, hbyte, ih]

/-- A fixed-width byte format. Every string of the right length is the encoding of
what it decodes to, and the decoder looks at nothing past the width. -/
structure Codec (α : Type) where
  size : Nat
  encode : α → List UInt8
  decode : List UInt8 → α
  encode_length : ∀ a, (encode a).length = size
  decode_encode : ∀ a rest, decode (encode a ++ rest) = a
  encode_decode : ∀ bs, bs.length = size → encode (decode bs) = bs

namespace Codec

variable {α β : Type}

attribute [simp] encode_length decode_encode

@[simp] theorem decode_encode_self (c : Codec α) (a : α) : c.decode (c.encode a) = a := by
  simpa using c.decode_encode a []

/-- The value decoded from a buffer is settled by its first `size` bytes. -/
theorem decode_take (c : Codec α) (bs : List UInt8) (h : c.size ≤ bs.length) :
    c.decode (bs.take c.size) = c.decode bs := by
  have he := c.encode_decode (bs.take c.size) (by simp [h])
  have hd := c.decode_encode (c.decode (bs.take c.size)) (bs.drop c.size)
  rw [he, List.take_append_drop] at hd
  exact hd.symm

/-- An unsigned machine word of `w` bytes. -/
def word (w : Nat) (toNat : α → Nat) (ofNat : Nat → α) (hlt : ∀ a, toNat a < 256 ^ w)
    (hof : ∀ a, ofNat (toNat a) = a) (hto : ∀ n, n < 256 ^ w → toNat (ofNat n) = n) : Codec α where
  size := w
  encode a := leBytes w (toNat a)
  decode bs := ofNat (leNat (bs.take w))
  encode_length := by simp
  decode_encode a rest := by
    have h : (leBytes w (toNat a) ++ rest).take w = leBytes w (toNat a) := by
      simp
    rw [h, leNat_leBytes, Nat.mod_eq_of_lt (hlt a), hof]
  encode_decode bs h := by
    have hn := leNat_lt bs
    rw [h] at hn
    rw [List.take_of_length_le (le_of_eq h), hto _ hn, ← h, leBytes_leNat]

def u8 : Codec UInt8 :=
  word 1 UInt8.toNat UInt8.ofNat (fun a => by simpa using a.toNat_lt) (by simp)
    (fun n h => by simpa using Nat.mod_eq_of_lt h)

def u16 : Codec UInt16 :=
  word 2 UInt16.toNat UInt16.ofNat (fun a => by simpa using a.toNat_lt) (by simp)
    (fun n h => by simpa using Nat.mod_eq_of_lt h)

def u32 : Codec UInt32 :=
  word 4 UInt32.toNat UInt32.ofNat (fun a => by simpa using a.toNat_lt) (by simp)
    (fun n h => by simpa using Nat.mod_eq_of_lt h)

/-- Two fields, one right behind the other. -/
def pair (c : Codec α) (d : Codec β) : Codec (α × β) where
  size := c.size + d.size
  encode p := c.encode p.1 ++ d.encode p.2
  decode bs := (c.decode bs, d.decode (bs.drop c.size))
  encode_length := by simp
  decode_encode p rest := by
    have h : (c.encode p.1 ++ d.encode p.2 ++ rest).drop c.size = d.encode p.2 ++ rest := by
      rw [List.append_assoc, List.drop_append_of_le_length (by simp)]
      simp
    rw [h, List.append_assoc]
    simp
  encode_decode bs h := by
    have htake := c.encode_decode (bs.take c.size) (by simp [h])
    rw [c.decode_take bs (by omega)] at htake
    have hdrop := d.encode_decode (bs.drop c.size) (by simp [h])
    simp only [htake, hdrop, List.take_append_drop]

/-- The same bytes under another type. -/
def iso (c : Codec α) (f : α → β) (g : β → α) (hfg : ∀ b, f (g b) = b) (hgf : ∀ a, g (f a) = a) :
    Codec β where
  size := c.size
  encode b := c.encode (g b)
  decode bs := f (c.decode bs)
  encode_length := by simp
  decode_encode b rest := by simp [hfg]
  encode_decode bs h := by simp [hgf, c.encode_decode bs h]

/-- `count` records in a row. -/
def decodeMany (c : Codec α) : Nat → List UInt8 → List α
  | 0, _ => []
  | n + 1, bs => c.decode bs :: decodeMany c n (bs.drop c.size)

def encodeMany (c : Codec α) (as : List α) : List UInt8 := as.flatMap c.encode

@[simp] theorem encodeMany_nil (c : Codec α) : c.encodeMany [] = [] := rfl

@[simp] theorem encodeMany_cons (c : Codec α) (a : α) (as : List α) :
    c.encodeMany (a :: as) = c.encode a ++ c.encodeMany as := rfl

theorem encodeMany_append (c : Codec α) (as bs : List α) :
    c.encodeMany (as ++ bs) = c.encodeMany as ++ c.encodeMany bs := by
  simp [encodeMany]

@[simp] theorem encodeMany_length (c : Codec α) (as : List α) :
    (c.encodeMany as).length = as.length * c.size := by
  induction as with
  | nil => simp
  | cons a as ih => simp [ih, Nat.succ_mul, Nat.add_comm]

theorem decodeMany_encodeMany (c : Codec α) (as : List α) (rest : List UInt8) :
    c.decodeMany as.length (c.encodeMany as ++ rest) = as := by
  induction as with
  | nil => rfl
  | cons a as ih =>
    have hdrop : (c.encode a ++ (c.encodeMany as ++ rest)).drop c.size =
        c.encodeMany as ++ rest := by
      rw [List.drop_append_of_le_length (by simp)]
      simp
    simp only [List.length_cons, decodeMany, encodeMany_cons, List.append_assoc, decode_encode,
      hdrop, ih]

/-- A buffer that is long enough begins with the encoding of what it decodes to. -/
theorem encode_decode_drop (c : Codec α) (bs : List UInt8) (h : c.size ≤ bs.length) :
    c.encode (c.decode bs) ++ bs.drop c.size = bs := by
  have htake := c.encode_decode (bs.take c.size) (by simp [h])
  rw [c.decode_take bs h] at htake
  rw [htake, List.take_append_drop]

/-- A record is read from a buffer just when its encoding stands in front. -/
theorem decode_iff (c : Codec α) (data : List UInt8) (a : α) :
    c.size ≤ data.length ∧ c.decode data = a ↔ c.encode a <+: data := by
  constructor
  · rintro ⟨hlen, rfl⟩
    exact ⟨data.drop c.size, c.encode_decode_drop data hlen⟩
  · rintro ⟨rest, rfl⟩
    simp

theorem encodeMany_decodeMany_drop (c : Codec α) (n : Nat) (bs : List UInt8)
    (h : n * c.size ≤ bs.length) :
    c.encodeMany (c.decodeMany n bs) ++ bs.drop (n * c.size) = bs := by
  induction n generalizing bs with
  | zero => simp [decodeMany]
  | succ n ih =>
    rw [Nat.succ_mul] at h
    have hrest := ih (bs.drop c.size) (by simp; omega)
    rw [List.drop_drop] at hrest
    rw [decodeMany, encodeMany_cons, List.append_assoc, Nat.succ_mul, Nat.add_comm, hrest,
      c.encode_decode_drop bs (by omega)]

@[simp] theorem decodeMany_length (c : Codec α) (n : Nat) (bs : List UInt8) :
    (c.decodeMany n bs).length = n := by
  induction n generalizing bs with
  | zero => rfl
  | succ n ih => simp [decodeMany, ih]

end Codec

/-- Copy one record out of a buffer; `none` reads past the end. -/
def readAt {α : Type} (c : Codec α) (buf : List UInt8) (off : Nat) : Option α :=
  if off + c.size ≤ buf.length then some (c.decode (buf.drop off)) else none

/-- Copy `count` consecutive records out of a buffer. -/
def readManyAt {α : Type} (c : Codec α) (buf : List UInt8) (off count : Nat) : Option (List α) :=
  if off + count * c.size ≤ buf.length then some (c.decodeMany count (buf.drop off)) else none

/-- Overwrite bytes of a buffer in place; `none` writes past the end. -/
def writeAt (buf : List UInt8) (off : Nat) (bs : List UInt8) : Option (List UInt8) :=
  if off + bs.length ≤ buf.length then some (buf.take off ++ bs ++ buf.drop (off + bs.length))
  else none

theorem readAt_eq_some {α : Type} (c : Codec α) (buf : List UInt8) (off : Nat)
    (h : off + c.size ≤ buf.length) : readAt c buf off = some (c.decode (buf.drop off)) := by
  simp [readAt, h]

theorem readAt_start {α : Type} (c : Codec α) {buf : List UInt8} (h : c.size ≤ buf.length) :
    readAt c buf 0 = some (c.decode buf) := by
  rw [readAt_eq_some c buf 0 (by omega), List.drop_zero]

theorem readAt_first (b : UInt8) (rest : List UInt8) :
    readAt Codec.u8 (b :: rest) 0 = some b := by
  rw [readAt_start Codec.u8 (by simp [Codec.u8, Codec.word])]
  simp [Codec.u8, Codec.word, leNat]

/-- A write replaces exactly the bytes it covers. -/
theorem writeAt_append (before old after new : List UInt8) (h : old.length = new.length) :
    writeAt (before ++ old ++ after) before.length new = some (before ++ new ++ after) := by
  have hlen : before.length + new.length ≤ (before ++ old ++ after).length := by
    simp [h]
  have htake : (before ++ old ++ after).take before.length = before := by
    rw [List.append_assoc, List.take_left]
  have hdrop : (before ++ old ++ after).drop (before.length + new.length) = after := by
    rw [← h, ← List.length_append, List.drop_left]
  simp only [writeAt, hlen, ↓reduceIte, htake, hdrop]

end PackedCodec
