import BinlogCodec.Io.Bytes

namespace BinlogCodec

/-! Encoders run in `StateT Sink Outcome`: they append to a `Vec<u8>` through nested
`LimitWrite` budgets. -/

/-- Modelled from the spec: a `Vec<u8>` behind nested `LimitWrite` budgets (in `crate::misc`,
not in the source), innermost first; a write past any budget fails with `WriteZero`. What a
failing write has already appended is not modelled. -/
structure Sink where
  out : List UInt8
  limits : List Nat

abbrev WriteM := StateT Sink Outcome

/-- The error `write_all` returns when its sink takes no more bytes. -/
def writeZeroError : IoError := ⟨.writeZero, "failed to write whole buffer"⟩

/-- `Write::write_all`. -/
def writeAll (bs : List UInt8) : WriteM Unit := fun s =>
  if s.limits.all (bs.length ≤ ·) then .ok ((), ⟨s.out ++ bs, s.limits.map (· - bs.length)⟩)
  else .err writeZeroError

/-- `output.limit(n)`: run an encoder behind one more budget of `n` bytes. -/
def limitWrite (n : Nat) (w : WriteM α) : WriteM α := fun s =>
  (fun r : α × Sink => (r.1, ⟨r.2.out, r.2.limits.tail⟩)) <$> w.run ⟨s.out, n :: s.limits⟩

/-- `LimitWrite::get_limit`: the innermost budget left. -/
def getWriteLimit : WriteM Nat := fun s => .ok (s.limits.headD 0, s)

/-- A call that does not touch the output. -/
def liftWrite {α : Type} (x : Outcome α) : WriteM α := fun s => (fun a => (a, s)) <$> x

@[simp] theorem liftWrite_ok {α : Type} (a : α) : (liftWrite (.ok a) : WriteM α) = pure a := rfl

@[simp] theorem getWriteLimit_run (s : Sink) : getWriteLimit.run s = .ok (s.limits.headD 0, s) :=
  rfl

/-- `WriteBytesExt::write_uint::<LittleEndian>(n, w)`. -/
def writeUInt (w n : Nat) : WriteM Unit := writeAll (toLE w n)

def writeU8 (x : UInt8) : WriteM Unit := writeAll [x]

def writeU16 (x : UInt16) : WriteM Unit := writeUInt 2 x.toNat

def writeU32 (x : UInt32) : WriteM Unit := writeUInt 4 x.toNat

def writeU64 (x : UInt64) : WriteM Unit := writeUInt 8 x.toNat

/-- `WriteBytesExt::write_u48`: `byteorder` asserts that the value fits in 48 bits. -/
def writeU48 (x : UInt64) : WriteM Unit :=
  if x.toNat < 2 ^ 48 then writeUInt 6 x.toNat else fun _ => .panic

/-- Modelled from the spec: `WriteMysqlExt::write_lenenc_int`. -/
def writeLenencInt (x : UInt64) : WriteM Unit := writeAll (lenencInt x)

/-- Modelled from the spec: `WriteMysqlExt::write_lenenc_str`, a length prefix and the bytes. -/
def writeLenencStr (bs : List UInt8) : WriteM Unit := do
  writeLenencInt (UInt64.ofNat bs.length)
  writeAll bs

/-- An encoder run into a fresh `Vec<u8>`: the bytes it wrote, if it succeeded. -/
def WriteM.toBytes (w : WriteM Unit) : Outcome (List UInt8) :=
  (fun r : Unit × Sink => r.2.out) <$> w.run ⟨[], []⟩

/-- `w` appends exactly `bs` to a sink whose budgets all have room for it, spending
`bs.length` of each, and fails with `WriteZero` on any other sink. -/
def Emits (w : WriteM Unit) (bs : List UInt8) : Prop :=
  ∀ s : Sink, w.run s =
    if ∀ l ∈ s.limits, bs.length ≤ l then .ok ((), ⟨s.out ++ bs, s.limits.map (· - bs.length)⟩)
    else .err writeZeroError

/-- `w` writes exactly `n` bytes, and fails only on a sink without room for them. -/
def WritesExactly (w : WriteM Unit) (n : Nat) : Prop := ∃ bs, Emits w bs ∧ bs.length = n

/-- `w` writes at most `n` bytes, and fails only on a sink without room for them. -/
def WritesAtMost (w : WriteM Unit) (n : Nat) : Prop := ∃ bs, Emits w bs ∧ bs.length ≤ n

namespace Emits

theorem writeAll (bs : List UInt8) : Emits (BinlogCodec.writeAll bs) bs := by
  intro s
  simp only [BinlogCodec.writeAll, StateT.run, List.all_eq_true, decide_eq_true_eq]

theorem pure : Emits (Pure.pure ()) [] := by
  intro s
  simp [StateT.run_pure]

theorem bind {w : WriteM Unit} {f : Unit → WriteM Unit} {bs bs' : List UInt8}
    (hw : Emits w bs) (hf : Emits (f ()) bs') : Emits (w >>= f) (bs ++ bs') := by
  intro s
  rw [StateT.run_bind, hw s]
  by_cases h : ∀ l ∈ s.limits, bs.length ≤ l
  · have hiff : (∀ l ∈ s.limits.map (· - bs.length), bs'.length ≤ l) ↔
        ∀ l ∈ s.limits, (bs ++ bs').length ≤ l := by
      simp only [List.mem_map, forall_exists_index, and_imp, forall_apply_eq_imp_iff₂,
        List.length_append]
      exact forall₂_congr fun l hl => by have := h l hl; omega
    rw [if_pos h, Outcome.ok_bind, hf]
    simp only [hiff]
    split_ifs
    · simp [List.map_map, Function.comp_def, Nat.sub_sub]
    · rfl
  · rw [if_neg h, if_neg fun h' => h fun l hl => by have := h' l hl; simp at this; omega]
    rfl

theorem ite {c : Prop} [Decidable c] {w w' : WriteM Unit} {bs bs' : List UInt8}
    (hw : Emits w bs) (hw' : Emits w' bs') :
    Emits (if c then w else w') (if c then bs else bs') := by
  split
  · exact hw
  · exact hw'

theorem limitWrite {w : WriteM Unit} {bs : List UInt8} {n : Nat} (hw : Emits w bs)
    (hn : bs.length ≤ n) : Emits (BinlogCodec.limitWrite n w) bs := by
  intro s
  have := hw ⟨s.out, n :: s.limits⟩
  simp only [BinlogCodec.limitWrite, StateT.run] at this ⊢
  rw [this]
  simp only [List.mem_cons, forall_eq_or_imp, hn, true_and]
  split_ifs <;> rfl

/-- An encoder that writes more than its budget fails with `WriteZero`. -/
theorem limitWrite_over {w : WriteM Unit} {bs : List UInt8} {n : Nat} (hw : Emits w bs)
    (hn : n < bs.length) (s : Sink) :
    (BinlogCodec.limitWrite n w).run s = .err writeZeroError := by
  have := hw ⟨s.out, n :: s.limits⟩
  simp only [BinlogCodec.limitWrite, StateT.run] at this ⊢
  rw [this, if_neg fun h => absurd (h n (List.mem_cons_self _ _)) (by omega)]
  rfl

/-- A block written behind a budget it must fill, as `get_limit() > 0` checks after it: it
fills a budget of exactly its size. -/
theorem limitWrite_filled {w : WriteM Unit} {bs : List UInt8} (hw : Emits w bs) (e : IoError) :
    Emits (BinlogCodec.limitWrite bs.length do
      w
      if (← getWriteLimit) > 0 then throw e) bs := by
  intro s
  show (fun r : Unit × Sink => (r.1, (⟨r.2.out, r.2.limits.tail⟩ : Sink))) <$> StateT.run _ _ = _
  rw [StateT.run_bind, hw]
  by_cases h : ∀ l ∈ s.limits, bs.length ≤ l
  · rw [if_pos (List.forall_mem_cons.mpr ⟨le_rfl, h⟩), if_pos h]
    simp [StateT.run_bind]
  · rw [if_neg fun h' => h fun l hl => h' l (List.mem_cons_of_mem _ hl), if_neg h]
    rfl

theorem writeUInt (w n : Nat) : Emits (BinlogCodec.writeUInt w n) (toLE w n) :=
  writeAll _

theorem writeU8 (x : UInt8) : Emits (BinlogCodec.writeU8 x) [x] := writeAll _

theorem writeU16 (x : UInt16) : Emits (BinlogCodec.writeU16 x) (toLE 2 x.toNat) := writeAll _

theorem writeU32 (x : UInt32) : Emits (BinlogCodec.writeU32 x) (toLE 4 x.toNat) := writeAll _

theorem writeU64 (x : UInt64) : Emits (BinlogCodec.writeU64 x) (toLE 8 x.toNat) := writeAll _

theorem writeU48 {x : UInt64} (hx : x.toNat < 2 ^ 48) :
    Emits (BinlogCodec.writeU48 x) (toLE 6 x.toNat) := by
  rw [BinlogCodec.writeU48, if_pos hx]
  exact writeAll _

theorem writeLenencInt (x : UInt64) : Emits (BinlogCodec.writeLenencInt x) (lenencInt x) :=
  writeAll _

theorem writeLenencStr (bs : List UInt8) :
    Emits (BinlogCodec.writeLenencStr bs) (lenencInt (UInt64.ofNat bs.length) ++ bs) :=
  (writeLenencInt _).bind (writeAll bs)

theorem toBytes {w : WriteM Unit} {bs : List UInt8} (hw : Emits w bs) : w.toBytes = .ok bs := by
  rw [WriteM.toBytes, hw ⟨[], []⟩, if_pos (by simp)]
  rfl

/-- An encoder emits one byte string. -/
theorem eq {w : WriteM Unit} {bs bs' : List UInt8} (hw : Emits w bs) (hw' : Emits w bs') :
    bs = bs' := by
  simpa using hw.toBytes.symm.trans hw'.toBytes

end Emits

end BinlogCodec
