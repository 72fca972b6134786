import Mathlib

namespace BinlogCodec

/-! How a call of the codec ends, and the byte-level encodings every field is built from. -/

/-- The `std::io::ErrorKind`s the codec produces. -/
inductive ErrorKind where
  | unexpectedEof
  | invalidData
  | writeZero
  | other
  deriving DecidableEq, Repr

structure IoError where
  kind : ErrorKind
  message : String
  deriving DecidableEq, Repr

/-- A call returns a value or an `io::Error`, or it panics: `unwrap` on an error, a slice
index out of range, or `usize` arithmetic that overflows in a build with overflow checks. -/
inductive Outcome (α : Type) where
  | ok (value : α)
  | err (error : IoError)
  | panic
  deriving DecidableEq, Repr

namespace Outcome

def bind : Outcome α → (α → Outcome β) → Outcome β
  | ok a, f => f a
  | err e, _ => err e
  | panic, _ => panic

instance : Monad Outcome where
  pure := ok
  bind := bind

instance : LawfulMonad Outcome :=
  LawfulMonad.mk' Outcome (fun x => by cases x <;> rfl) (fun _ _ => rfl)
    (fun x _ _ => by cases x <;> rfl)

instance : MonadExceptOf IoError Outcome where
  throw := err
  tryCatch x handle := match x with
    | err e => handle e
    | x => x

/-- `Result::unwrap`: an error becomes a panic. -/
def unwrap : Outcome α → Outcome α
  | err _ => panic
  | x => x

@[simp] theorem pure_eq (a : α) : (pure a : Outcome α) = ok a := rfl

@[simp] theorem ok_bind (a : α) (f : α → Outcome β) : (ok a >>= f) = f a := rfl

@[simp] theorem err_bind (e : IoError) (f : α → Outcome β) : (err e >>= f) = err e := rfl

@[simp] theorem panic_bind (f : α → Outcome β) : (panic >>= f) = panic := rfl

@[simp] theorem map_ok (f : α → β) (a : α) : f <$> ok a = ok (f a) := rfl

@[simp] theorem map_err (f : α → β) (e : IoError) : f <$> err e = err e := rfl

@[simp] theorem map_panic (f : α → β) : f <$> (panic : Outcome α) = panic := rfl

theorem bind_eq_ok {x : Outcome α} {f : α → Outcome β} {b : β} :
    x >>= f = ok b ↔ ∃ a, x = ok a ∧ f a = ok b := by
  cases x <;> simp

theorem map_eq_ok {x : Outcome α} {f : α → β} {b : β} :
    f <$> x = ok b ↔ ∃ a, x = ok a ∧ f a = b := by
  cases x <;> simp

@[simp] theorem unwrap_ok (a : α) : unwrap (ok a) = ok a := rfl

@[simp] theorem unwrap_err (e : IoError) : unwrap (err e : Outcome α) = panic := rfl

@[simp] theorem unwrap_panic : unwrap (panic : Outcome α) = panic := rfl

theorem unwrap_eq_ok {x : Outcome α} {a : α} : unwrap x = ok a ↔ x = ok a := by
  cases x <;> simp

end Outcome

/-- `usize::MAX` on the 64-bit targets the library is built for. -/
def usizeMax : Nat := 2 ^ 64 - 1

/-- `u32::MAX`, the largest `event_size` a header can declare. -/
def u32Max : Nat := 2 ^ 32 - 1

/-- `a - b` on `usize`: it panics where it would underflow. -/
def checkedSub (a b : Nat) : Outcome Nat :=
  if b ≤ a then .ok (a - b) else .panic

/-- `a + b` on `usize` (or `u64`, of the same width): it panics past `usize::MAX`. -/
def checkedAdd (a b : Nat) : Outcome Nat :=
  if a + b ≤ usizeMax then .ok (a + b) else .panic

@[simp] theorem checkedSub_of_le {a b : Nat} (h : b ≤ a) : checkedSub a b = .ok (a - b) :=
  if_pos h

@[simp] theorem checkedAdd_of_le {a b : Nat} (h : a + b ≤ usizeMax) :
    checkedAdd a b = .ok (a + b) :=
  if_pos h

theorem checkedAdd_of_gt {a b : Nat} (h : usizeMax < a + b) : checkedAdd a b = .panic :=
  if_neg (Nat.not_le.mpr h)

theorem checkedAdd_eq_ok {a b c : Nat} (h : checkedAdd a b = .ok c) : c = a + b ∧ a + b ≤ usizeMax := by
  unfold checkedAdd at h
  split_ifs at h with hle
  · cases h
    exact ⟨rfl, hle⟩

/-- A serialized length as every `len` computes it: a saturating `usize` sum, clamped to
`u32::MAX - 19` so that it fits the `event_size` of an event header. -/
def clampLen (n : Nat) : Nat := min (min n usizeMax) (u32Max - 19)

theorem clampLen_eq (n : Nat) : clampLen n = min n (u32Max - 19) := by
  simp only [clampLen, usizeMax, u32Max]
  omega

theorem clampLen_of_le {n : Nat} (h : n ≤ u32Max - 19) : clampLen n = n := by
  rw [clampLen_eq]
  exact min_eq_left h

/-! Little-endian fixed-width integers, as `byteorder` lays them out. -/

/-- The `w` little-endian bytes of `n`, bits above `8 * w` dropped. -/
def toLE : Nat → Nat → List UInt8
  | 0, _ => []
  | w + 1, n => UInt8.ofNat (n % 256) :: toLE w (n / 256)

/-- The number whose little-endian bytes are `bs`. -/
def ofLE : List UInt8 → Nat
  | [] => 0
  | b :: bs => b.toNat + 256 * ofLE bs

@[simp] theorem toLE_zero (n : Nat) : toLE 0 n = [] := rfl

@[simp] theorem toLE_succ (w n : Nat) :
    toLE (w + 1) n = UInt8.ofNat (n % 256) :: toLE w (n / 256) := rfl

@[simp] theorem ofLE_nil : ofLE [] = 0 := rfl

@[simp] theorem ofLE_cons (b : UInt8) (bs : List UInt8) :
    ofLE (b :: bs) = b.toNat + 256 * ofLE bs := rfl

@[simp] theorem UInt8.toNat_ofNat_mod (n : Nat) : (UInt8.ofNat n).toNat = n % 256 := by
  simp [UInt8.toNat, UInt8.ofNat]

@[simp] theorem UInt8.ofNat_toNat_eq (b : UInt8) : UInt8.ofNat b.toNat = b :=
  UInt8.toNat.inj (by simp [UInt8.toNat, UInt8.ofNat])

@[simp] theorem UInt16.ofNat_toNat_eq (x : UInt16) : UInt16.ofNat x.toNat = x :=
  UInt16.toNat.inj (by simp [UInt16.toNat, UInt16.ofNat])

@[simp] theorem UInt32.ofNat_toNat_eq (x : UInt32) : UInt32.ofNat x.toNat = x :=
  UInt32.toNat.inj (by simp [UInt32.toNat, UInt32.ofNat])

@[simp] theorem UInt64.ofNat_toNat_eq (x : UInt64) : UInt64.ofNat x.toNat = x :=
  UInt64.toNat.inj (by simp [UInt64.toNat, UInt64.ofNat])

@[simp] theorem UInt16.toNat_ofNat_mod (n : Nat) : (UInt16.ofNat n).toNat = n % 2 ^ 16 := by
  simp [UInt16.toNat, UInt16.ofNat]

@[simp] theorem UInt32.toNat_ofNat_mod (n : Nat) : (UInt32.ofNat n).toNat = n % 2 ^ 32 := by
  simp [UInt32.toNat, UInt32.ofNat]

@[simp] theorem UInt64.toNat_ofNat_mod (n : Nat) : (UInt64.ofNat n).toNat = n % 2 ^ 64 := by
  simp [UInt64.toNat, UInt64.ofNat]

@[simp] theorem length_toLE (w n : Nat) : (toLE w n).length = w := by
  induction w generalizing n with
  | zero => rfl
  | succ w ih => simp [ih]

theorem ofLE_toLE (w n : Nat) : ofLE (toLE w n) = n % 256 ^ w := by
  induction w generalizing n with
  | zero => simp [Nat.mod_one]
  | succ w ih =>
      rw [toLE_succ, ofLE_cons, ih, UInt8.toNat_ofNat_mod, Nat.mod_mod, Nat.pow_succ,
        Nat.mul_comm _ 256, Nat.mod_mul]

theorem ofLE_toLE_of_lt {w n : Nat} (h : n < 256 ^ w) : ofLE (toLE w n) = n := by
  rw [ofLE_toLE, Nat.mod_eq_of_lt h]

theorem ofLE_lt (bs : List UInt8) : ofLE bs < 256 ^ bs.length := by
  induction bs with
  | nil => simp
  | cons b bs ih =>
      have hb : b.toNat < 256 := b.toNat_lt_size
      rw [ofLE_cons, List.length_cons, Nat.pow_succ]
      omega

theorem toLE_ofLE (bs : List UInt8) : toLE bs.length (ofLE bs) = bs := by
  induction bs with
  | nil => rfl
  | cons b bs ih =>
      have hb : b.toNat < 256 := b.toNat_lt_size
      rw [List.length_cons, toLE_succ, ofLE_cons, Nat.add_mul_mod_self_left,
        Nat.mod_eq_of_lt hb, UInt8.ofNat_toNat_eq, Nat.add_mul_div_left _ _ (by omega),
        Nat.div_eq_of_lt hb, Nat.zero_add, ih]

theorem toLE_ofLE_of_length {w : Nat} {bs : List UInt8} (h : bs.length = w) :
    toLE w (ofLE bs) = bs := h ▸ toLE_ofLE bs

/-- A list split after `n` and again `m` bytes later. -/
theorem take_drop_append_drop (n m k : Nat) (l : List α) (h : n + m = k) :
    (l.drop n).take m ++ l.drop k = l.drop n := by
  rw [← h, ← List.drop_drop, List.take_append_drop]

/-- A decode of a whole input behind a budget of its length, as `read_event` runs one, that
consumed its budget consumed the whole input. -/
theorem eq_of_consumed {bs l rest : List α} {n : Nat} (h : bs = l ++ rest)
    (hl : l.length = n + bs.length - n) : bs = l ∧ rest = [] := by
  have := congrArg List.length h
  simp only [List.length_append] at this
  have hrest : rest = [] := List.eq_nil_of_length_eq_zero (by omega)
  subst hrest
  exact ⟨by simpa using h, rfl⟩

/-- The element after a prefix `l ++ [a]` sits at index `l.length`. -/
theorem getElem?_of_prefix_append {l data : List α} {a : α} {n : Nat}
    (h : l ++ [a] <+: data) (hn : l.length = n) : data[n]? = some a := by
  obtain ⟨t, rfl⟩ := h
  rw [← hn, List.append_assoc, List.getElem?_append_right le_rfl, Nat.sub_self]
  simp

/-- What follows a prefix `p ++ q` of `data`, from `p.length` on, starts with `q`. -/
theorem drop_eq_of_prefix_append {p q data : List α} {n : Nat}
    (h : p ++ q <+: data) (hn : p.length = n) : ∃ t, data.drop n = q ++ t := by
  obtain ⟨t, rfl⟩ := h
  exact ⟨t, by rw [← hn, List.append_assoc, List.drop_left]⟩

/-- `<[T]>::get(start..stop)`: the elements from `start` up to `stop`, if that range lies in
the slice. -/
def sliceGet {α : Type} (bs : List α) (start stop : Nat) : Option (List α) :=
  if start ≤ stop ∧ stop ≤ bs.length then some ((bs.drop start).take (stop - start)) else none

theorem sliceGet_eq_some {α : Type} {bs r : List α} {start stop : Nat}
    (h : sliceGet bs start stop = some r) :
    start ≤ stop ∧ stop ≤ bs.length ∧ r = (bs.drop start).take (stop - start) := by
  unfold sliceGet at h
  split_ifs at h with hle
  cases h
  exact ⟨hle.1, hle.2, rfl⟩

/-- The slice a list from `start` on begins with, taken by its bounds. -/
theorem sliceGet_of_prefix {α : Type} {bs r : List α} {start : Nat} (hstart : start ≤ bs.length)
    (h : r <+: bs.drop start) : sliceGet bs start (start + r.length) = some r := by
  have hlen := h.length_le
  rw [List.length_drop] at hlen
  rw [sliceGet, if_pos ⟨by omega, by omega⟩, Nat.add_sub_cancel_left,
    ← List.prefix_iff_eq_take.mp h]

/-- Any two bytes are the little-endian encoding of a `u16`. -/
theorem toLE_u16_ofLE {bs : List UInt8} (h : bs.length = 2) :
    toLE 2 (UInt16.ofNat (ofLE bs)).toNat = bs := by
  have hlt := ofLE_lt bs
  rw [h] at hlt
  rw [UInt16.toNat_ofNat_mod, Nat.mod_eq_of_lt (by omega), toLE_ofLE_of_length h]

/-- Any four bytes are the little-endian encoding of a `u32`. -/
theorem toLE_u32_ofLE {bs : List UInt8} (h : bs.length = 4) :
    toLE 4 (UInt32.ofNat (ofLE bs)).toNat = bs := by
  have hlt := ofLE_lt bs
  rw [h] at hlt
  rw [UInt32.toNat_ofNat_mod, Nat.mod_eq_of_lt (by omega), toLE_ofLE_of_length h]

/-! Length-encoded integers and strings of the MySQL protocol. -/

/-- Modelled from the spec: `WriteMysqlExt::write_lenenc_int` (in `crate::io`, not in the
source) writes `0x00`–`0xFA` as one byte, then `0xFC` and a u16, `0xFD` and a u24, or `0xFE`
and a u64. -/
def lenencInt (x : UInt64) : List UInt8 :=
  if x.toNat < 251 then [UInt8.ofNat x.toNat]
  else if x.toNat < 2 ^ 16 then 0xfc :: toLE 2 x.toNat
  else if x.toNat < 2 ^ 24 then 0xfd :: toLE 3 x.toNat
  else 0xfe :: toLE 8 x.toNat

/-- Modelled from the spec: `crate::misc::lenenc_int_len`, the size of `lenencInt x`. -/
def lenencIntLen (x : UInt64) : Nat :=
  if x.toNat < 251 then 1
  else if x.toNat < 2 ^ 16 then 3
  else if x.toNat < 2 ^ 24 then 4
  else 9

/-- Modelled from the spec: `crate::misc::lenenc_str_len`, a length prefix and the bytes. -/
def lenencStrLen (bs : List UInt8) : Nat :=
  lenencIntLen (UInt64.ofNat bs.length) + bs.length

@[simp] theorem length_lenencInt (x : UInt64) : (lenencInt x).length = lenencIntLen x := by
  unfold lenencInt lenencIntLen
  split_ifs <;> simp

end BinlogCodec
