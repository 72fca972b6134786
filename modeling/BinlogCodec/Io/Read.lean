import BinlogCodec.Io.Bytes

namespace BinlogCodec

/-! Decoders run in `StateT σ Outcome` over a byte source `σ`: the event stream itself
(`List UInt8`), or a stream behind a `LimitRead` budget, as every payload decoder reads it. -/

/-- A `std::io::Read` source: `take? k` reads exactly `k` bytes, or fails. -/
class ByteSource (σ : Type) where
  take? : (k : Nat) → σ → Option ({bs : List UInt8 // bs.length = k} × σ)

instance : ByteSource (List UInt8) where
  take? k bs := if h : k ≤ bs.length then some (⟨bs.take k, by simp [h]⟩, bs.drop k) else none

/-- Modelled from the spec: `LimitRead` (in `crate::misc`, not in the source) reads through to
`input` while a budget of `limit` bytes lasts; `get_limit` returns the budget left. -/
structure LimitRead where
  input : List UInt8
  limit : Nat

instance : ByteSource LimitRead where
  take? k c :=
    if h : k ≤ c.limit ∧ k ≤ c.input.length then
      some (⟨c.input.take k, by simp [h.2]⟩, ⟨c.input.drop k, c.limit - k⟩)
    else none

abbrev ReadM (σ : Type) := StateT σ Outcome

@[simp] theorem run_throw {σ α : Type} (e : IoError) (s : σ) :
    (throw e : StateT σ Outcome α).run s = .err e := rfl

/-- The error `read_exact` returns at the end of its input. -/
def eofError : IoError := ⟨.unexpectedEof, "failed to fill whole buffer"⟩

/-- Modelled from the spec: the error of `read_lenenc_int` on a `0xFB` or `0xFF` prefix. -/
def lenencError : IoError := ⟨.other, "Invalid length-encoded integer value"⟩

section Lifts

variable {σ α : Type}

/-- A call that does not touch the input. -/
def liftOutcome (x : Outcome α) : ReadM σ α := fun s => (fun a => (a, s)) <$> x

/-- `unwrap()` on a read: an error becomes a panic. -/
def unwrapRead (m : ReadM σ α) : ReadM σ α := fun s => (m.run s).unwrap

@[simp] theorem liftOutcome_run (x : Outcome α) (s : σ) :
    (liftOutcome x : ReadM σ α).run s = (fun a => (a, s)) <$> x := rfl

@[simp] theorem unwrapRead_run (m : ReadM σ α) (s : σ) :
    (unwrapRead m).run s = (m.run s).unwrap := rfl

/-- One step of a decode that succeeded: its first read succeeded, and the rest ran from
where it stopped. Peeling a decoder's reads one at a time with this lemma is far cheaper than
rewriting its whole chain of binds at once. -/
theorem run_bind_eq_ok {β : Type} {m : ReadM σ α} {f : α → ReadM σ β} {s s'' : σ} {b : β}
    (h : (m >>= f).run s = .ok (b, s'')) :
    ∃ a s', m.run s = .ok (a, s') ∧ (f a).run s' = .ok (b, s'') := by
  simp only [StateT.run_bind, Outcome.bind_eq_ok, Prod.exists] at h
  exact h

theorem liftOutcome_eq_ok {x : Outcome α} {s s' : σ} {a : α} :
    (liftOutcome x : ReadM σ α).run s = .ok (a, s') ↔ x = .ok a ∧ s' = s := by
  cases x <;> simp [liftOutcome, eq_comm]

end Lifts

section Readers

variable {σ : Type} [ByteSource σ]

/-- `Read::read_exact` into a `[u8; k]`. -/
def readArray (k : Nat) : ReadM σ {bs : List UInt8 // bs.length = k} := fun s =>
  match ByteSource.take? k s with
  | some r => .ok r
  | none => .err eofError

/-- `Read::read_exact` into a `vec![0_u8; k]`. -/
def readExact (k : Nat) : ReadM σ (List UInt8) := Subtype.val <$> readArray k

/-- `ReadBytesExt::read_uint::<LittleEndian>(w)`, as a natural number. -/
def readUInt (w : Nat) : ReadM σ Nat := ofLE <$> readExact w

def readU8 : ReadM σ UInt8 := UInt8.ofNat <$> readUInt 1

def readU16 : ReadM σ UInt16 := UInt16.ofNat <$> readUInt 2

def readU32 : ReadM σ UInt32 := UInt32.ofNat <$> readUInt 4

def readU48 : ReadM σ UInt64 := UInt64.ofNat <$> readUInt 6

def readU64 : ReadM σ UInt64 := UInt64.ofNat <$> readUInt 8

/-- `for _ in 0..k { input.read_u8()?; }`: skip `k` bytes one at a time. -/
def skipBytes : Nat → ReadM σ Unit
  | 0 => pure ()
  | k + 1 => do
      let _ ← readU8
      skipBytes k

/-- Modelled from the spec: `ReadMysqlExt::read_lenenc_int` (in `crate::io`, not in the
source): `0x00`–`0xFA` literally, `0xFC` then a u16, `0xFD` then a u24, `0xFE` then a u64. -/
def readLenencInt : ReadM σ UInt64 := do
  let b ← readU8
  if b.toNat < 0xfb then pure (UInt64.ofNat b.toNat)
  else if b = 0xfc then UInt64.ofNat <$> readUInt 2
  else if b = 0xfd then UInt64.ofNat <$> readUInt 3
  else if b = 0xfe then UInt64.ofNat <$> readUInt 8
  else throw lenencError

end Readers

/-- `LimitRead::get_limit`. -/
def getLimit : ReadM LimitRead Nat := fun c => .ok (c.limit, c)

/-- `input.limit(n)`: run a decoder behind a budget of `n` bytes; the stream keeps what the
decoder leaves unread. -/
def limitRead (n : Nat) (m : ReadM LimitRead α) : ReadM (List UInt8) α := fun bs =>
  (fun r : α × LimitRead => (r.1, r.2.input)) <$> m.run ⟨bs, n⟩

theorem limitRead_eq_ok {n : Nat} {m : ReadM LimitRead α} {bs rest : List UInt8} {a : α} :
    (limitRead n m).run bs = .ok (a, rest) ↔ ∃ c, m.run ⟨bs, n⟩ = .ok (a, c) ∧ c.input = rest := by
  simp only [limitRead, StateT.run, Functor.map]
  cases m ⟨bs, n⟩ with
  | ok r =>
      obtain ⟨a', c⟩ := r
      simp only [Outcome.bind, Function.comp, Outcome.ok.injEq, Prod.mk.injEq]
      constructor
      · rintro ⟨rfl, rfl⟩
        exact ⟨c, ⟨rfl, rfl⟩, rfl⟩
      · rintro ⟨c', ⟨rfl, rfl⟩, rfl⟩
        exact ⟨rfl, rfl⟩
  | err e => simp [Outcome.bind]
  | panic => simp [Outcome.bind]

/-- `vec![0_u8; input.get_limit()]` read in full: the rest of the budget. -/
def readRemaining : ReadM LimitRead (List UInt8) := do
  let n ← getLimit
  readExact n

/-- The check that ends most decoders: no budget may be left over. -/
def remainingError : IoError := ⟨.other, "bytes remaining on stream"⟩

def checkNoRemaining : ReadM LimitRead Unit := do
  if (← getLimit) > 0 then throw remainingError

/-! The primitives on a stream. -/

section Stream

@[simp] theorem readExact_stream (k : Nat) (bs : List UInt8) :
    (readExact k : ReadM (List UInt8) _).run bs =
      if k ≤ bs.length then .ok (bs.take k, bs.drop k) else .err eofError := by
  simp only [readExact, readArray, ByteSource.take?, StateT.run, Functor.map, StateT.map]
  split_ifs <;> rfl

theorem readExact_stream_append (k : Nat) (bs rest : List UInt8) (h : bs.length = k) :
    (readExact k : ReadM (List UInt8) _).run (bs ++ rest) = .ok (bs, rest) := by
  simp [← h]

theorem readExact_stream_eq_ok {k : Nat} {bs a rest : List UInt8} :
    (readExact k : ReadM (List UInt8) _).run bs = .ok (a, rest) ↔
      bs = a ++ rest ∧ a.length = k := by
  rw [readExact_stream]
  split_ifs with h
  · simp only [Outcome.ok.injEq, Prod.mk.injEq]
    constructor
    · rintro ⟨rfl, rfl⟩
      simp [h]
    · rintro ⟨rfl, rfl⟩
      simp
  · simp only [reduceCtorEq, false_iff, not_and]
    rintro rfl rfl
    simp at h

theorem readUInt_stream (w : Nat) (bs : List UInt8) :
    (readUInt w : ReadM (List UInt8) _).run bs =
      if w ≤ bs.length then .ok (ofLE (bs.take w), bs.drop w) else .err eofError := by
  rw [readUInt, StateT.run_map, readExact_stream]
  split_ifs <;> rfl

theorem readUInt_stream_append {w n : Nat} (rest : List UInt8) (h : n < 256 ^ w) :
    (readUInt w : ReadM (List UInt8) _).run (toLE w n ++ rest) = .ok (n, rest) := by
  rw [readUInt, StateT.run_map, readExact_stream_append w _ rest (length_toLE w n), Outcome.map_ok,
    ofLE_toLE_of_lt h]

theorem readUInt_stream_eq_ok {w n : Nat} {bs rest : List UInt8} :
    (readUInt w : ReadM (List UInt8) _).run bs = .ok (n, rest) →
      bs = toLE w n ++ rest ∧ n < 256 ^ w := by
  simp only [readUInt, StateT.run_map, Outcome.map_eq_ok, Prod.exists, Prod.mk.injEq]
  rintro ⟨a, _, ha, rfl, rfl⟩
  obtain ⟨rfl, rfl⟩ := readExact_stream_eq_ok.mp ha
  exact ⟨by rw [toLE_ofLE], ofLE_lt a⟩

theorem readU8_stream_append (x : UInt8) (rest : List UInt8) :
    (readU8 : ReadM (List UInt8) _).run (x :: rest) = .ok (x, rest) := by
  have := readUInt_stream_append (w := 1) rest x.toNat_lt_size
  rw [readU8, StateT.run_map]
  simp_all [Nat.mod_eq_of_lt x.toNat_lt_size]

theorem readU16_stream_append (x : UInt16) (rest : List UInt8) :
    (readU16 : ReadM (List UInt8) _).run (toLE 2 x.toNat ++ rest) = .ok (x, rest) := by
  rw [readU16, StateT.run_map, readUInt_stream_append rest x.toNat_lt_size]
  simp

theorem readU32_stream_append (x : UInt32) (rest : List UInt8) :
    (readU32 : ReadM (List UInt8) _).run (toLE 4 x.toNat ++ rest) = .ok (x, rest) := by
  rw [readU32, StateT.run_map, readUInt_stream_append rest x.toNat_lt_size]
  simp

theorem readU8_stream_eq_ok {x : UInt8} {bs rest : List UInt8} :
    (readU8 : ReadM (List UInt8) _).run bs = .ok (x, rest) → bs = x :: rest := by
  simp only [readU8, StateT.run_map, Outcome.map_eq_ok, Prod.exists, Prod.mk.injEq]
  rintro ⟨n, _, hn, rfl, rfl⟩
  obtain ⟨rfl, hlt⟩ := readUInt_stream_eq_ok hn
  simp [Nat.mod_eq_of_lt (show n < 256 by simpa using hlt)]

theorem readU16_stream_eq_ok {x : UInt16} {bs rest : List UInt8} :
    (readU16 : ReadM (List UInt8) _).run bs = .ok (x, rest) → bs = toLE 2 x.toNat ++ rest := by
  simp only [readU16, StateT.run_map, Outcome.map_eq_ok, Prod.exists, Prod.mk.injEq]
  rintro ⟨n, _, hn, rfl, rfl⟩
  obtain ⟨rfl, hlt⟩ := readUInt_stream_eq_ok hn
  rw [UInt16.toNat_ofNat_mod, Nat.mod_eq_of_lt (by simpa using hlt)]

theorem readU32_stream_eq_ok {x : UInt32} {bs rest : List UInt8} :
    (readU32 : ReadM (List UInt8) _).run bs = .ok (x, rest) → bs = toLE 4 x.toNat ++ rest := by
  simp only [readU32, StateT.run_map, Outcome.map_eq_ok, Prod.exists, Prod.mk.injEq]
  rintro ⟨n, _, hn, rfl, rfl⟩
  obtain ⟨rfl, hlt⟩ := readUInt_stream_eq_ok hn
  rw [UInt32.toNat_ofNat_mod, Nat.mod_eq_of_lt (by simpa using hlt)]

end Stream

/-! The primitives behind a `LimitRead` budget. -/

section Limited

theorem readExact_limited (k : Nat) (c : LimitRead) :
    (readExact k : ReadM LimitRead _).run c =
      if k ≤ c.limit ∧ k ≤ c.input.length then .ok (c.input.take k, ⟨c.input.drop k, c.limit - k⟩)
      else .err eofError := by
  simp only [readExact, readArray, ByteSource.take?, StateT.run, Functor.map, StateT.map]
  split_ifs <;> rfl

theorem readExact_limited_eq_ok {k : Nat} {c c' : LimitRead} {a : List UInt8} :
    (readExact k : ReadM LimitRead _).run c = .ok (a, c') ↔
      c.input = a ++ c'.input ∧ a.length = k ∧ k ≤ c.limit ∧ c'.limit = c.limit - k := by
  rw [readExact_limited]
  obtain ⟨input, limit⟩ := c
  obtain ⟨input', limit'⟩ := c'
  split_ifs with h
  · simp only [Outcome.ok.injEq, Prod.mk.injEq, LimitRead.mk.injEq]
    constructor
    · rintro ⟨rfl, rfl, rfl⟩
      simp [h.1, h.2]
    · rintro ⟨rfl, rfl, hk, rfl⟩
      simp
  · simp only [reduceCtorEq, false_iff, not_and]
    rintro rfl rfl hk
    simp at h
    omega

/-- `c'` is `c` after reading `bs` through the budget. -/
def LimitRead.Advance (c c' : LimitRead) (bs : List UInt8) : Prop :=
  c.input = bs ++ c'.input ∧ bs.length ≤ c.limit ∧ c'.limit = c.limit - bs.length

namespace LimitRead.Advance

theorem length_eq {c c' : LimitRead} {bs : List UInt8} (h : c.Advance c' bs)
    (hlimit : c'.limit = 0) : bs.length = c.limit := by
  have := h.2.1
  have := h.2.2
  omega

theorem refl (c : LimitRead) : c.Advance c [] := by
  simp [LimitRead.Advance]

theorem trans {c₁ c₂ c₃ : LimitRead} {bs bs' : List UInt8} (h : c₁.Advance c₂ bs)
    (h' : c₂.Advance c₃ bs') : c₁.Advance c₃ (bs ++ bs') := by
  obtain ⟨h1, h2, h3⟩ := h
  obtain ⟨h1', h2', h3'⟩ := h'
  refine ⟨by rw [h1, h1', List.append_assoc], by simp; omega, by simp; omega⟩

end LimitRead.Advance

theorem readArray_limited_eq_ok {k : Nat} {c c' : LimitRead} {a : {bs : List UInt8 // bs.length = k}} :
    (readArray k : ReadM LimitRead _).run c = .ok (a, c') → c.Advance c' a.1 := by
  intro h
  have hx : (readExact k : ReadM LimitRead _).run c = .ok (a.1, c') := by
    rw [readExact, StateT.run_map, h]
    rfl
  obtain ⟨h1, h2, h3, h4⟩ := readExact_limited_eq_ok.mp hx
  exact ⟨h1, by omega, by omega⟩

theorem readExact_limited_advance {k : Nat} {c c' : LimitRead} {a : List UInt8} :
    (readExact k : ReadM LimitRead _).run c = .ok (a, c') → c.Advance c' a ∧ a.length = k := by
  intro h
  obtain ⟨h1, h2, h3, h4⟩ := readExact_limited_eq_ok.mp h
  exact ⟨⟨h1, by omega, by omega⟩, h2⟩

theorem readUInt_limited_eq_ok {w n : Nat} {c c' : LimitRead} :
    (readUInt w : ReadM LimitRead _).run c = .ok (n, c') →
      c.Advance c' (toLE w n) ∧ n < 256 ^ w := by
  simp only [readUInt, StateT.run_map, Outcome.map_eq_ok, Prod.exists, Prod.mk.injEq]
  rintro ⟨a, _, ha, rfl, rfl⟩
  obtain ⟨hadv, rfl⟩ := readExact_limited_advance ha
  exact ⟨by rwa [toLE_ofLE], ofLE_lt a⟩

theorem readU8_limited_eq_ok {x : UInt8} {c c' : LimitRead} :
    (readU8 : ReadM LimitRead _).run c = .ok (x, c') → c.Advance c' [x] := by
  simp only [readU8, StateT.run_map, Outcome.map_eq_ok, Prod.exists, Prod.mk.injEq]
  rintro ⟨n, _, hn, rfl, rfl⟩
  obtain ⟨hadv, hlt⟩ := readUInt_limited_eq_ok hn
  simpa [Nat.mod_eq_of_lt (show n < 256 by simpa using hlt)] using hadv

theorem readU16_limited_eq_ok {x : UInt16} {c c' : LimitRead} :
    (readU16 : ReadM LimitRead _).run c = .ok (x, c') → c.Advance c' (toLE 2 x.toNat) := by
  simp only [readU16, StateT.run_map, Outcome.map_eq_ok, Prod.exists, Prod.mk.injEq]
  rintro ⟨n, _, hn, rfl, rfl⟩
  obtain ⟨hadv, hlt⟩ := readUInt_limited_eq_ok hn
  rwa [UInt16.toNat_ofNat_mod, Nat.mod_eq_of_lt (by simpa using hlt)]

theorem readU32_limited_eq_ok {x : UInt32} {c c' : LimitRead} :
    (readU32 : ReadM LimitRead _).run c = .ok (x, c') → c.Advance c' (toLE 4 x.toNat) := by
  simp only [readU32, StateT.run_map, Outcome.map_eq_ok, Prod.exists, Prod.mk.injEq]
  rintro ⟨n, _, hn, rfl, rfl⟩
  obtain ⟨hadv, hlt⟩ := readUInt_limited_eq_ok hn
  rwa [UInt32.toNat_ofNat_mod, Nat.mod_eq_of_lt (by simpa using hlt)]

theorem readU48_limited_eq_ok {x : UInt64} {c c' : LimitRead} :
    (readU48 : ReadM LimitRead _).run c = .ok (x, c') →
      c.Advance c' (toLE 6 x.toNat) ∧ x.toNat < 2 ^ 48 := by
  simp only [readU48, StateT.run_map, Outcome.map_eq_ok, Prod.exists, Prod.mk.injEq]
  rintro ⟨n, _, hn, rfl, rfl⟩
  obtain ⟨hadv, hlt⟩ := readUInt_limited_eq_ok hn
  have hlt' : n < 2 ^ 48 := by simpa using hlt
  rw [UInt64.toNat_ofNat_mod, Nat.mod_eq_of_lt (by omega)]
  exact ⟨hadv, hlt'⟩

theorem readU64_limited_eq_ok {x : UInt64} {c c' : LimitRead} :
    (readU64 : ReadM LimitRead _).run c = .ok (x, c') → c.Advance c' (toLE 8 x.toNat) := by
  simp only [readU64, StateT.run_map, Outcome.map_eq_ok, Prod.exists, Prod.mk.injEq]
  rintro ⟨n, _, hn, rfl, rfl⟩
  obtain ⟨hadv, hlt⟩ := readUInt_limited_eq_ok hn
  rwa [UInt64.toNat_ofNat_mod, Nat.mod_eq_of_lt (by simpa using hlt)]

theorem skipBytes_limited_eq_ok {k : Nat} {c c' : LimitRead} {u : Unit} :
    (skipBytes k : ReadM LimitRead Unit).run c = .ok (u, c') →
      ∃ bs, c.Advance c' bs ∧ bs.length = k := by
  induction k generalizing c with
  | zero =>
      intro h
      cases h
      exact ⟨[], LimitRead.Advance.refl _, rfl⟩
  | succ k ih =>
      simp only [skipBytes, StateT.run_bind, Outcome.bind_eq_ok, Prod.exists]
      rintro ⟨b, c₁, h₁, h₂⟩
      obtain ⟨bs, hadv, rfl⟩ := ih h₂
      exact ⟨[b] ++ bs, (readU8_limited_eq_ok h₁).trans hadv, by simp [Nat.add_comm]⟩

/-- The widths `read_lenenc_int` accepts after its first byte. -/
inductive LenencWidth where
  | byte
  | u16
  | u24
  | u64
  deriving DecidableEq

/-- The bytes `read_lenenc_int` reads for `x` written at width `w`. -/
def lenencWith : LenencWidth → UInt64 → List UInt8
  | .byte, x => [UInt8.ofNat x.toNat]
  | .u16, x => 0xfc :: toLE 2 x.toNat
  | .u24, x => 0xfd :: toLE 3 x.toNat
  | .u64, x => 0xfe :: toLE 8 x.toNat

/-- `x` can be written at width `w`. -/
def LenencWidth.Fits : LenencWidth → UInt64 → Prop
  | .byte, x => x.toNat < 251
  | .u16, x => x.toNat < 2 ^ 16
  | .u24, x => x.toNat < 2 ^ 24
  | .u64, _ => True

/-- `write_lenenc_int` picks the shortest width: whenever its bytes start an encoding of the
same value at any width, the two are the same. -/
theorem lenencWith_eq_of_prefix_append {w : LenencWidth} {x : UInt64} {more : List UInt8}
    (hw : w.Fits x) (h : lenencInt x <+: lenencWith w x ++ more) :
    lenencWith w x = lenencInt x := by
  obtain ⟨t, ht⟩ := h
  have hhead := congrArg List.head? ht
  -- each branch of the shortest encoding is the same width, out of range, or starts with
  -- another first byte
  cases w <;>
    simp only [LenencWidth.Fits, lenencWith, lenencInt] at hw hhead ⊢ <;>
    split_ifs at hhead ⊢ <;>
    first
    | rfl
    | omega
    | simp only [List.cons_append, List.head?_cons, Option.some.injEq, UInt8.ext_iff,
        UInt8.toNat_ofNat_mod, UInt8.reduceToNat] at hhead
      omega

/-- A length-encoded integer read at a position of `data` where the shortest encoding of its
value stands was written in the shortest width. -/
theorem lenencWith_eq_of_drop {w : LenencWidth} {x : UInt64} {p data : List UInt8} {n : Nat}
    (hw : w.Fits x) (h : p ++ lenencWith w x <+: data) (hn : p.length = n)
    (hshortest : lenencInt x <+: data.drop n) : lenencWith w x = lenencInt x := by
  obtain ⟨t, ht⟩ := drop_eq_of_prefix_append h hn
  exact lenencWith_eq_of_prefix_append hw (ht ▸ hshortest)

theorem readLenencInt_limited_eq_ok {x : UInt64} {c c' : LimitRead} :
    (readLenencInt : ReadM LimitRead _).run c = .ok (x, c') →
      ∃ w : LenencWidth, w.Fits x ∧ c.Advance c' (lenencWith w x) := by
  simp only [readLenencInt, StateT.run_bind, Outcome.bind_eq_ok, Prod.exists]
  rintro ⟨b, c₁, h₁, h₂⟩
  have hb := readU8_limited_eq_ok h₁
  split_ifs at h₂ with hlit h16 h24 h64
  · cases h₂
    have hx : (UInt64.ofNat b.toNat).toNat = b.toNat := by
      rw [UInt64.toNat_ofNat_mod, Nat.mod_eq_of_lt (by omega)]
    have hb' : UInt8.ofNat b.toNat = b :=
      UInt8.ext_iff.mpr (by simp [Nat.mod_eq_of_lt b.toNat_lt_size])
    exact ⟨.byte, by simpa only [LenencWidth.Fits, hx] using hlit,
      by simpa only [lenencWith, hx, hb'] using hb⟩
  all_goals first
    | (simp only [StateT.run_map, Outcome.map_eq_ok, Prod.exists, Prod.mk.injEq] at h₂
       obtain ⟨n, c₂, hn, rfl, rfl⟩ := h₂
       obtain ⟨hadv, hlt⟩ := readUInt_limited_eq_ok hn
       have hx : (UInt64.ofNat n).toNat = n := by
         rw [UInt64.toNat_ofNat_mod, Nat.mod_eq_of_lt (by simp at hlt ⊢; omega)]
       subst_vars
       first
         | exact ⟨.u16, by simpa [LenencWidth.Fits, hx] using hlt, by simpa [lenencWith, hx] using hb.trans hadv⟩
         | exact ⟨.u24, by simpa [LenencWidth.Fits, hx] using hlt, by simpa [lenencWith, hx] using hb.trans hadv⟩
         | exact ⟨.u64, trivial, by simpa [lenencWith, hx] using hb.trans hadv⟩)
    | simp at h₂

end Limited

/-! Forward specifications: a decoder reading a known prefix of its budget. -/

/-- `m` reads exactly `bs` off the front of any `LimitRead` whose budget covers it, and
returns `a`. -/
def Parses (m : ReadM LimitRead α) (bs : List UInt8) (a : α) : Prop :=
  ∀ rest limit, bs.length ≤ limit →
    m.run ⟨bs ++ rest, limit⟩ = .ok (a, ⟨rest, limit - bs.length⟩)

/-- `m` reads `bs`, exactly its whole budget, and returns `a`. -/
def ParsesAll (m : ReadM LimitRead α) (bs : List UInt8) (a : α) : Prop :=
  ∀ rest, m.run ⟨bs ++ rest, bs.length⟩ = .ok (a, ⟨rest, 0⟩)

namespace Parses

theorem pure (a : α) : Parses (pure a) [] a := by
  intro rest limit _
  simp [StateT.run_pure]

theorem bind {m : ReadM LimitRead α} {f : α → ReadM LimitRead β} {bs bs' : List UInt8}
    {a : α} {b : β} (hm : Parses m bs a) (hf : Parses (f a) bs' b) :
    Parses (m >>= f) (bs ++ bs') b := by
  intro rest limit hlimit
  simp only [List.length_append] at hlimit
  rw [StateT.run_bind, List.append_assoc, hm _ _ (by omega), Outcome.ok_bind,
    hf _ _ (by omega), List.length_append, Nat.sub_sub]

theorem map {m : ReadM LimitRead α} {bs : List UInt8} {a : α} (f : α → β) (hm : Parses m bs a) :
    Parses (f <$> m) bs (f a) := by
  intro rest limit hlimit
  rw [StateT.run_map, hm _ _ hlimit, Outcome.map_ok]

theorem readExact (k : Nat) (bs : List UInt8) (h : bs.length = k) :
    Parses (readExact k) bs bs := by
  intro rest limit hlimit
  rw [readExact_limited, if_pos (by simp; omega)]
  simp [← h]

theorem readUInt {w n : Nat} (h : n < 256 ^ w) : Parses (readUInt w) (toLE w n) n := by
  have := (readExact w (toLE w n) (length_toLE w n)).map ofLE
  rwa [ofLE_toLE_of_lt h] at this

theorem readU8 (b : UInt8) : Parses readU8 [b] b := by
  have := (readUInt (w := 1) b.toNat_lt_size).map UInt8.ofNat
  simpa [Nat.mod_eq_of_lt b.toNat_lt_size] using this

theorem readU16 (x : UInt16) : Parses readU16 (toLE 2 x.toNat) x := by
  simpa using (readUInt (w := 2) x.toNat_lt_size).map UInt16.ofNat

theorem readU32 (x : UInt32) : Parses readU32 (toLE 4 x.toNat) x := by
  simpa using (readUInt (w := 4) x.toNat_lt_size).map UInt32.ofNat

theorem readU64 (x : UInt64) : Parses readU64 (toLE 8 x.toNat) x := by
  simpa using (readUInt (w := 8) x.toNat_lt_size).map UInt64.ofNat

theorem readU48 {x : UInt64} (hx : x.toNat < 2 ^ 48) : Parses readU48 (toLE 6 x.toNat) x := by
  simpa using (readUInt (w := 6) (n := x.toNat) (by simpa using hx)).map UInt64.ofNat

theorem readArray (k : Nat) (bs : List UInt8) (h : bs.length = k) :
    Parses (readArray k) bs ⟨bs, h⟩ := by
  subst h
  intro rest limit hlimit
  simp only [BinlogCodec.readArray, ByteSource.take?, StateT.run]
  rw [dif_pos (by simp; omega)]
  simp

/-- A computation lifted into a decoder that returns reads nothing. -/
theorem liftOutcome {x : Outcome α} {a : α} (h : x = .ok a) :
    Parses (BinlogCodec.liftOutcome x) [] a := by
  subst h
  intro rest limit _
  rfl

/-- The post-header skip reads any bytes of its length. -/
theorem skipBytes (bs : List UInt8) : Parses (skipBytes bs.length) bs () := by
  induction bs with
  | nil => exact pure ()
  | cons b bs ih => exact (readU8 b).bind ih

/-- `read_lenenc_int` reads back what `write_lenenc_int` writes. -/
theorem readLenencInt (x : UInt64) : Parses readLenencInt (lenencInt x) x := by
  have hx : x.toNat < 256 ^ 8 := x.toNat_lt_size
  have hu : ∀ w, x.toNat < 256 ^ w →
      Parses (UInt64.ofNat <$> BinlogCodec.readUInt w : ReadM LimitRead UInt64) (toLE w x.toNat) x :=
    fun w hw => by simpa using (readUInt hw).map UInt64.ofNat
  unfold lenencInt
  split_ifs with h1 h2 h3
  · refine (readU8 (UInt8.ofNat x.toNat)).bind ?_
    have hb : (UInt8.ofNat x.toNat).toNat = x.toNat := by
      rw [UInt8.toNat_ofNat_mod, Nat.mod_eq_of_lt (by omega)]
    rw [hb, if_pos h1, UInt64.ofNat_toNat_eq]
    exact pure x
  all_goals
    refine (readU8 _).bind ?_
    simp only [show ¬((0xfc : UInt8).toNat < 0xfb) from by decide,
      show ¬((0xfd : UInt8).toNat < 0xfb) from by decide,
      show ¬((0xfe : UInt8).toNat < 0xfb) from by decide, if_false, ite_true,
      show ¬((0xfd : UInt8) = 0xfc) from by decide, show ¬((0xfe : UInt8) = 0xfc) from by decide,
      show ¬((0xfe : UInt8) = 0xfd) from by decide]
  · exact hu 2 (by omega)
  · exact hu 3 (by omega)
  · exact hu 8 hx

/-- A decoder that reads `bs` and then panics on what follows panics on the whole input. -/
theorem bind_panic {m : ReadM LimitRead α} {f : α → ReadM LimitRead β} {bs : List UInt8} {a : α}
    (hm : Parses m bs a) {rest : List UInt8} {limit : Nat} (hlimit : bs.length ≤ limit)
    (hf : (f a).run ⟨rest, limit - bs.length⟩ = .panic) :
    (m >>= f).run ⟨bs ++ rest, limit⟩ = .panic := by
  rw [StateT.run_bind, hm rest limit hlimit, Outcome.ok_bind, hf]

end Parses

theorem limitRead_eq_panic {n : Nat} {m : ReadM LimitRead α} {bs : List UInt8}
    (h : m.run ⟨bs, n⟩ = .panic) : (limitRead n m).run bs = .panic := by
  simp only [limitRead, StateT.run] at h ⊢
  rw [h]
  rfl

namespace ParsesAll

theorem bind {m : ReadM LimitRead α} {f : α → ReadM LimitRead β} {bs bs' : List UInt8}
    {a : α} {b : β} (hm : Parses m bs a) (hf : ParsesAll (f a) bs' b) :
    ParsesAll (m >>= f) (bs ++ bs') b := by
  intro rest
  rw [StateT.run_bind, List.append_assoc, hm _ _ (by simp), Outcome.ok_bind,
    List.length_append, Nat.add_sub_cancel_left, hf]

/-- A step that reads nothing, such as a computation on the fields read so far. -/
theorem bind_nil {m : ReadM LimitRead α} {f : α → ReadM LimitRead β} {bs : List UInt8}
    {a : α} {b : β} (hm : Parses m [] a) (hf : ParsesAll (f a) bs b) :
    ParsesAll (m >>= f) bs b :=
  bind hm hf

theorem bind_pure {m : ReadM LimitRead α} {bs : List UInt8} {a : α} (f : α → β)
    (hm : ParsesAll m bs a) : ParsesAll (m >>= fun x => pure (f x)) bs (f a) := by
  intro rest
  rw [StateT.run_bind, hm]
  rfl

theorem readRemaining (bs : List UInt8) : ParsesAll readRemaining bs bs := by
  intro rest
  simpa [readRemaining, getLimit, StateT.run_bind] using
    Parses.readExact _ bs rfl rest bs.length le_rfl

theorem checkNoRemaining : ParsesAll BinlogCodec.checkNoRemaining [] () := by
  intro rest
  rfl

/-- The common end of a decoder: its last field, the check that no budget is left, and the
value built from the field. -/
theorem checked {m : ReadM LimitRead α} {bs : List UInt8} {a : α} (f : α → β)
    (hm : Parses m bs a) :
    ParsesAll (do let x ← m; BinlogCodec.checkNoRemaining; pure (f x)) bs (f a) := by
  simpa using bind (f := fun x => BinlogCodec.checkNoRemaining >>= fun _ => pure (f x)) hm
    (checkNoRemaining.bind_pure fun _ => f a)

/-- The rest of the budget, read whole, passes the check that none is left. -/
theorem readRemaining_checked (f : List UInt8 → β) (bs : List UInt8) :
    ParsesAll (do let x ← BinlogCodec.readRemaining; BinlogCodec.checkNoRemaining; pure (f x))
      bs (f bs) := by
  intro rest
  rw [StateT.run_bind, readRemaining bs rest]
  rfl

end ParsesAll

theorem getLimit_eq_ok {n : Nat} {c c' : LimitRead} (h : getLimit.run c = .ok (n, c')) :
    c' = c ∧ n = c.limit := by
  cases h
  exact ⟨rfl, rfl⟩

theorem readRemaining_eq_ok {a : List UInt8} {c c' : LimitRead}
    (h : readRemaining.run c = .ok (a, c')) : c.Advance c' a ∧ c'.limit = 0 := by
  simp only [readRemaining, StateT.run_bind, Outcome.bind_eq_ok, Prod.exists] at h
  obtain ⟨n, c₁, hn, h⟩ := h
  obtain ⟨rfl, rfl⟩ := getLimit_eq_ok hn
  obtain ⟨hadv, hlen⟩ := readExact_limited_advance h
  exact ⟨hadv, by rw [hadv.2.2, hlen, Nat.sub_self]⟩

theorem checkNoRemaining_eq_ok {c c' : LimitRead} {u : Unit}
    (h : checkNoRemaining.run c = .ok (u, c')) : c' = c ∧ c.limit = 0 := by
  simp only [checkNoRemaining, StateT.run_bind, Outcome.bind_eq_ok, Prod.exists] at h
  obtain ⟨n, c₁, hn, h⟩ := h
  obtain ⟨rfl, rfl⟩ := getLimit_eq_ok hn
  split at h
  · simp at h
  · cases h
    exact ⟨rfl, by omega⟩

namespace ParsesAll

/-- A decoder that reads its whole budget runs behind `input.limit(n)` and leaves the stream
right after its bytes. -/
theorem limitRead {m : ReadM LimitRead α} {bs : List UInt8} {a : α} (hm : ParsesAll m bs a)
    (rest : List UInt8) : (BinlogCodec.limitRead bs.length m).run (bs ++ rest) = .ok (a, rest) := by
  have := hm rest
  simp only [BinlogCodec.limitRead, StateT.run] at this ⊢
  rw [this]
  rfl

end ParsesAll

/-- A decoder that reads `bs` off the front of its budget returns the stream after `bs`: the
part of the budget it did not read stays on the stream. -/
theorem Parses.limitRead {m : ReadM LimitRead α} {bs : List UInt8} {a : α} (hm : Parses m bs a)
    {n : Nat} (hn : bs.length ≤ n) (rest : List UInt8) :
    (BinlogCodec.limitRead n m).run (bs ++ rest) = .ok (a, rest) := by
  have := hm rest n hn
  simp only [BinlogCodec.limitRead, StateT.run] at this ⊢
  rw [this]
  rfl

/-! Decoders whose only failure is running out of input. -/

/-- Every run of `m` either succeeds or fails with `UnexpectedEof`: it never panics and
returns no other error. -/
def EofOnly {σ α : Type} (m : ReadM σ α) : Prop :=
  ∀ s, (∃ r, m.run s = .ok r) ∨ m.run s = .err eofError

namespace EofOnly

variable {σ : Type}

theorem pure {α : Type} (a : α) : EofOnly (Pure.pure a : ReadM σ α) :=
  fun _ => .inl ⟨_, rfl⟩

theorem bind {α β : Type} {m : ReadM σ α} {f : α → ReadM σ β} (hm : EofOnly m)
    (hf : ∀ a, EofOnly (f a)) : EofOnly (m >>= f) := by
  intro s
  rw [StateT.run_bind]
  rcases hm s with ⟨⟨a, s'⟩, h⟩ | h
  · rw [h, Outcome.ok_bind]
    exact hf a s'
  · rw [h]
    exact .inr rfl

theorem map {α β : Type} {m : ReadM σ α} (f : α → β) (hm : EofOnly m) : EofOnly (f <$> m) := by
  rw [← bind_pure_comp]
  exact hm.bind fun a => pure (f a)

variable [ByteSource σ]

theorem readArray (k : Nat) : EofOnly (BinlogCodec.readArray k : ReadM σ _) := by
  intro s
  simp only [BinlogCodec.readArray, StateT.run]
  split
  · exact .inl ⟨_, rfl⟩
  · exact .inr rfl

theorem readExact (k : Nat) : EofOnly (BinlogCodec.readExact k : ReadM σ _) :=
  (readArray k).map _

theorem readUInt (w : Nat) : EofOnly (BinlogCodec.readUInt w : ReadM σ _) :=
  (readExact w).map _

theorem readU8 : EofOnly (BinlogCodec.readU8 : ReadM σ _) := (readUInt 1).map _

theorem readU16 : EofOnly (BinlogCodec.readU16 : ReadM σ _) := (readUInt 2).map _

theorem readU32 : EofOnly (BinlogCodec.readU32 : ReadM σ _) := (readUInt 4).map _

theorem readU48 : EofOnly (BinlogCodec.readU48 : ReadM σ _) := (readUInt 6).map _

theorem readU64 : EofOnly (BinlogCodec.readU64 : ReadM σ _) := (readUInt 8).map _

theorem skipBytes (k : Nat) : EofOnly (BinlogCodec.skipBytes k : ReadM σ _) := by
  induction k with
  | zero => exact pure ()
  | succ k ih => exact readU8.bind fun _ => ih

end EofOnly

theorem EofOnly.readRemaining : EofOnly BinlogCodec.readRemaining :=
  EofOnly.bind (fun _ => .inl ⟨_, rfl⟩) fun _ => EofOnly.readExact _

theorem EofOnly.limitRead {α : Type} {m : ReadM LimitRead α} (n : Nat) (hm : EofOnly m) :
    EofOnly (BinlogCodec.limitRead n m) := by
  intro bs
  simp only [BinlogCodec.limitRead, StateT.run]
  rcases hm ⟨bs, n⟩ with ⟨r, h⟩ | h <;> simp only [StateT.run] at h <;> rw [h]
  · exact .inl ⟨_, rfl⟩
  · exact .inr rfl

end BinlogCodec
