import BinlogCodec.FormatDescription

namespace BinlogCodec

/-! The user-variable event. Its decoder has two exits: a NULL value returns right after the
`is_null` byte, any other value reads on to an optional flags byte and then checks that no
byte of the event is left. -/

/-- A user variable set for the next statement. -/
structure UserVarEvent where
  name : List UInt8
  isNull : Bool
  /-- The `i8` item type of the value, as its byte. -/
  valueType : UInt8
  charset : UInt32
  value : List UInt8
  flags : UInt8
  deriving DecidableEq

namespace UserVarEvent

/-- `ItemResult::STRING_RESULT` (in `crate::constants`, not in the source), the first item
type, whose code is 0. -/
def STRING_RESULT : UInt8 := 0

def read (eventSize : Nat) (fde : FormatDescriptionEvent) : ReadM (List UInt8) UserVarEvent :=
  let version := fde.versionOrV4
  limitRead (eventSize - BinlogEventHeader.len version) do
    let nameLen ← readU32
    let name ← readExact nameLen.toNat
    let isNull := (← readU8) != 0
    if isNull then
      pure { name, isNull, valueType := STRING_RESULT, charset := 63, value := [], flags := 0 }
    else do
      let valueType ← readU8
      let charset ← readU32
      let valueLen ← readU32
      let value ← readExact valueLen.toNat
      -- old servers may not pack flags here
      let flags ← if (← getLimit) > 0 then readU8 else pure 0
      checkNoRemaining
      pure { name, isNull, valueType, charset, value, flags }

def len (ev : UserVarEvent) (_version : BinlogVersion) : Nat :=
  clampLen (4 + min ev.name.length u32Max + 1 +
    if !ev.isNull then 1 + 4 + 4 + min ev.value.length u32Max + 1 else 0)

def write (ev : UserVarEvent) (version : BinlogVersion) : WriteM Unit :=
  limitWrite (ev.len version) do
    writeU32 (UInt32.ofNat ev.name.length)
    writeAll ev.name
    writeU8 (if ev.isNull then 1 else 0)
    if !ev.isNull then
      writeU8 ev.valueType
      writeU32 ev.charset
      writeU32 (UInt32.ofNat ev.value.length)
      writeAll ev.value
      writeU8 ev.flags

/-- The bytes of a user-variable event whose `is_null` byte is `nullByte`; a value that is not
NULL ends with `flags`, the flags byte if there is one. -/
def bytesWith (ev : UserVarEvent) (nullByte : UInt8) (flags : Option UInt8) : List UInt8 :=
  toLE 4 (UInt32.ofNat ev.name.length).toNat ++ ev.name ++ [nullByte] ++
    if !ev.isNull then
      [ev.valueType] ++ toLE 4 ev.charset.toNat ++ toLE 4 (UInt32.ofNat ev.value.length).toNat ++
        ev.value ++ flags.toList
    else []

/-- The `is_null` byte the encoder writes. -/
def nullByte (ev : UserVarEvent) : UInt8 := if ev.isNull then 1 else 0

/-- The bytes the encoder writes: a value that is not NULL always gets its flags byte. -/
def toBytes (ev : UserVarEvent) : List UInt8 := ev.bytesWith ev.nullByte (some ev.flags)

theorem length_bytesWith (ev : UserVarEvent) (nullByte : UInt8) (flags : Option UInt8) :
    (ev.bytesWith nullByte flags).length = 4 + ev.name.length + 1 +
      if !ev.isNull then 1 + 4 + 4 + ev.value.length + flags.toList.length else 0 := by
  cases hn : ev.isNull <;> simp [bytesWith, hn, -toLE_succ] <;> omega

theorem write_emits {ev : UserVarEvent} (v : BinlogVersion)
    (h : ev.toBytes.length ≤ u32Max - 19) :
    Emits (ev.write v) ev.toBytes ∧ ev.len v = ev.toBytes.length := by
  have hlen : ev.len v = ev.toBytes.length := by
    rw [toBytes, length_bytesWith] at h ⊢
    rw [len, clampLen_eq]
    cases hn : ev.isNull <;>
      simp only [hn, Bool.not_false, Bool.not_true, Bool.false_eq_true, ite_true, ite_false, Option.toList_some,
        List.length_singleton] at h ⊢ <;>
      unfold u32Max at h ⊢ <;> omega
  refine ⟨Emits.limitWrite ?_ hlen.ge, hlen⟩
  simp only [toBytes, bytesWith, nullByte, List.append_assoc]
  refine (Emits.writeU32 _).bind ((Emits.writeAll _).bind ((Emits.writeU8 _).bind ?_))
  cases hn : ev.isNull <;> simp only [hn, Bool.not_false, Bool.not_true, Bool.false_eq_true, ite_true, ite_false]
  · exact (Emits.writeU8 _).bind ((Emits.writeU32 _).bind ((Emits.writeU32 _).bind
      ((Emits.writeAll _).bind (Emits.writeU8 _))))
  · exact Emits.pure

/-- What a successful decode consumed: the bytes of the event it returns, with the `is_null`
byte it read and the flags byte if there was one. A value that is not NULL took the whole
budget; a NULL one stopped after its `is_null` byte. -/
theorem read_eq_ok {eventSize : Nat} {fde : FormatDescriptionEvent} {bs rest : List UInt8}
    {ev : UserVarEvent} (h : (read eventSize fde).run bs = .ok (ev, rest)) :
    ∃ nullByte flags, bs = ev.bytesWith nullByte flags ++ rest ∧ (ev.isNull ↔ nullByte ≠ 0) ∧
      (ev.isNull → flags = none) ∧
      (ev.isNull = false → (ev.bytesWith nullByte flags).length = eventSize - BinlogEventHeader.LEN ∧
        flags.getD 0 = ev.flags) := by
  obtain ⟨c, hrun, rfl⟩ := limitRead_eq_ok.mp h
  obtain ⟨nameLen, c₁, h₁, hrun⟩ := run_bind_eq_ok hrun
  obtain ⟨name, c₂, h₂, hrun⟩ := run_bind_eq_ok hrun
  obtain ⟨b, c₃, h₃, h₄⟩ := run_bind_eq_ok hrun
  obtain ⟨hname, hlen⟩ := readExact_limited_advance h₂
  have hpre := ((readU32_limited_eq_ok h₁).trans hname).trans (readU8_limited_eq_ok h₃)
  rw [show nameLen = UInt32.ofNat name.length by rw [hlen, UInt32.ofNat_toNat_eq]] at hpre
  dsimp only at h₄
  split at h₄
  case isTrue hb =>
    cases h₄
    refine ⟨b, none, ?_, by simp, fun _ => rfl, fun h => by simp [hb] at h⟩
    simpa [bytesWith, hb] using hpre.1
  case isFalse hb =>
    simp only [Bool.not_eq_true] at hb
    obtain ⟨valueType, c₄, h₅, h₄⟩ := run_bind_eq_ok h₄
    obtain ⟨charset, c₅, h₆, h₄⟩ := run_bind_eq_ok h₄
    obtain ⟨valueLen, c₇, h₇, h₄⟩ := run_bind_eq_ok h₄
    obtain ⟨value, c₈, h₈, h₄⟩ := run_bind_eq_ok h₄
    obtain ⟨l, c₉, h₉, h₁₀⟩ := run_bind_eq_ok h₄
    obtain ⟨hc, rfl⟩ := getLimit_eq_ok h₉
    subst c₉
    obtain ⟨hvalue, hvlen⟩ := readExact_limited_advance h₈
    have hmid := (((readU8_limited_eq_ok h₅).trans (readU32_limited_eq_ok h₆)).trans
      (readU32_limited_eq_ok h₇)).trans hvalue
    rw [show valueLen = UInt32.ofNat value.length by rw [hvlen, UInt32.ofNat_toNat_eq]] at hmid
    -- the flags byte is read exactly when budget is left, and then none may be left
    have hflags : ∃ fl : Option UInt8, ∃ c', c₈.Advance c' fl.toList ∧ c'.limit = 0 ∧
        ev = { name, isNull := b != 0, valueType, charset, value, flags := fl.getD 0 } ∧
        c = c' := by
      split at h₁₀ <;> simp only [StateT.run_bind, Outcome.bind_eq_ok, Prod.exists] at h₁₀ <;>
        obtain ⟨fl, c₁₀, hfl, u, c₁₁, hcheck, hpure⟩ := h₁₀ <;>
        cases hpure <;> obtain ⟨rfl, hzero⟩ := checkNoRemaining_eq_ok hcheck
      · exact ⟨some fl, _, readU8_limited_eq_ok hfl, hzero, rfl, rfl⟩
      · cases hfl
        exact ⟨none, _, LimitRead.Advance.refl _, hzero, rfl, rfl⟩
    obtain ⟨fl, c', hfl, hzero, rfl, rfl⟩ := hflags
    have hadv := (hpre.trans hmid).trans hfl
    refine ⟨b, fl, ?_, by simp, fun h => by simp [hb] at h, fun _ => ⟨?_, rfl⟩⟩
    · simpa [bytesWith, hb, List.append_assoc] using hadv.1
    · have := hadv.length_eq hzero
      simp [bytesWith, hb, BinlogEventHeader.LEN] at this ⊢
      omega

/-- A NULL value has no bytes past its `is_null` byte. -/
theorem bytesWith_of_isNull {ev : UserVarEvent} (hn : ev.isNull = true) (nullByte : UInt8)
    (flags flags' : Option UInt8) : ev.bytesWith nullByte flags = ev.bytesWith nullByte flags' := by
  simp [bytesWith, hn]

/-- Any other value ends with its flags byte, if there is one. -/
theorem bytesWith_append_flags {ev : UserVarEvent} (hn : ev.isNull = false) (nullByte f : UInt8) :
    ev.bytesWith nullByte none ++ [f] = ev.bytesWith nullByte (some f) := by
  simp [bytesWith, hn]

/-- Encoding the decode of a whole body gives the body back, when the `is_null` byte is the one
the encoder writes, a NULL value ends the body, and the encoder's bytes fit an event; a body
without the flags byte gains it, as 0. -/
theorem write_of_read {fde : FormatDescriptionEvent} {data rest : List UInt8} {ev : UserVarEvent}
    (v : BinlogVersion)
    (h : (read (BinlogEventHeader.LEN + data.length) fde).run data = .ok (ev, rest))
    (hnull : data[4 + ev.name.length]? = some ev.nullByte)
    (hend : ev.isNull → data.length = 4 + ev.name.length + 1)
    (hsize : ev.toBytes.length ≤ u32Max - 19) :
    Emits (ev.write v) data ∨ (ev.isNull = false ∧ Emits (ev.write v) (data ++ [0])) := by
  obtain ⟨nb, fl, hdata, -, hnone, hfull⟩ := read_eq_ok h
  have hwrite := (write_emits v hsize).1
  have hat : (ev.bytesWith nb fl ++ rest)[4 + ev.name.length]? = some nb :=
    getElem?_of_prefix_append (l := toLE 4 (UInt32.ofNat ev.name.length).toNat ++ ev.name)
      ((List.prefix_append _ _).trans (List.prefix_append _ _))
      (by simp only [List.length_append, length_toLE])
  obtain rfl : nb = ev.nullByte := Option.some.inj (hat.symm.trans (hdata ▸ hnull))
  cases hn : ev.isNull
  case true =>
    have hlen := congrArg List.length hdata
    rw [hend hn, List.length_append, length_bytesWith] at hlen
    simp only [hn, Bool.not_true, Bool.false_eq_true, ite_false] at hlen
    obtain rfl : rest = [] := List.eq_nil_of_length_eq_zero (by omega)
    rw [toBytes, bytesWith_of_isNull hn _ _ fl, ← List.append_nil (ev.bytesWith _ fl), ← hdata]
      at hwrite
    exact .inl hwrite
  case false =>
    obtain ⟨hlen, hflags⟩ := hfull hn
    obtain ⟨rfl, -⟩ := eq_of_consumed hdata hlen
    cases fl with
    | some f =>
        simp only [Option.getD_some] at hflags
        subst hflags
        exact .inl hwrite
    | none =>
        simp only [Option.getD_none] at hflags
        rw [toBytes, ← hflags, ← bytesWith_append_flags hn] at hwrite
        exact .inr ⟨rfl, hwrite⟩

/-- A NULL value is re-encoded as the name's part of its body and the `is_null` byte 1, and
nothing after: what the decode left unread in the body is dropped. -/
theorem write_of_read_null {fde : FormatDescriptionEvent} {eventSize : Nat}
    {data rest : List UInt8} {ev : UserVarEvent} (v : BinlogVersion)
    (h : (read eventSize fde).run data = .ok (ev, rest)) (hn : ev.isNull = true)
    (hsize : data.length ≤ u32Max - 19) :
    Emits (ev.write v) (data.take (4 + ev.name.length) ++ [1]) := by
  obtain ⟨nb, fl, rfl, -⟩ := read_eq_ok h
  have hbytes : ev.bytesWith nb fl ++ rest =
      (toLE 4 (UInt32.ofNat ev.name.length).toNat ++ ev.name) ++ ([nb] ++ rest) := by
    simp only [bytesWith, hn, Bool.not_true, Bool.false_eq_true, ite_false, List.append_nil,
      List.append_assoc]
  have htoBytes : ev.toBytes = toLE 4 (UInt32.ofNat ev.name.length).toNat ++ ev.name ++ [1] := by
    simp only [toBytes, bytesWith, nullByte, hn, Bool.not_true, Bool.false_eq_true, ite_true,
      ite_false, List.append_nil]
  rw [hbytes, List.take_left' (by simp; omega), ← htoBytes]
  refine (write_emits v ?_).1
  rw [hbytes] at hsize
  simp only [htoBytes, List.length_append, List.length_singleton] at hsize ⊢
  omega

/-- The optional flags byte, read when one byte of the budget is left, then the check that none
is. -/
theorem flags_checked {β : Type} (f : UInt8 → β) (b : UInt8) :
    ParsesAll (do
      let flags ← if (← getLimit) > 0 then readU8 else pure 0
      checkNoRemaining
      pure (f flags)) [b] (f b) := by
  intro rest
  rw [StateT.run_bind]
  erw [Outcome.ok_bind]
  dsimp only
  rw [if_pos (show [b].length > 0 from Nat.zero_lt_one)]
  exact ParsesAll.checked f (Parses.readU8 b) rest

/-- Decoding what the encoder writes gives the event back, when the name and the value fit their
`u32` lengths and a NULL variable holds what the decoder fills in for one: a string type,
charset 63, no value and no flags. -/
theorem read_toBytes {ev : UserVarEvent} (hname : ev.name.length < 2 ^ 32)
    (hvalue : ev.value.length < 2 ^ 32)
    (hnull : ev.isNull →
      ev.valueType = STRING_RESULT ∧ ev.charset = 63 ∧ ev.value = [] ∧ ev.flags = 0)
    (fde : FormatDescriptionEvent) (rest : List UInt8) :
    (read (BinlogEventHeader.LEN + ev.toBytes.length) fde).run (ev.toBytes ++ rest) =
      .ok (ev, rest) := by
  rw [read, BinlogEventHeader.add_sub_len]
  refine ParsesAll.limitRead ?_ rest
  obtain ⟨name, isNull, valueType, charset, value, flags⟩ := ev
  dsimp only at hname hvalue hnull
  have hn : name.length = (UInt32.ofNat name.length).toNat := by
    rw [UInt32.toNat_ofNat_mod]; omega
  have hv : value.length = (UInt32.ofNat value.length).toNat := by
    rw [UInt32.toNat_ofNat_mod]; omega
  cases isNull with
  | true =>
      obtain ⟨rfl, rfl, rfl, rfl⟩ := hnull rfl
      simp only [toBytes, bytesWith, nullByte, if_true, Bool.not_true, List.append_assoc]
      exact ParsesAll.bind (Parses.readU32 _) (ParsesAll.bind (Parses.readExact _ _ hn)
        (ParsesAll.bind (Parses.readU8 1) fun rest => rfl))
  | false =>
      simp only [toBytes, bytesWith, nullByte, Bool.false_eq_true, if_false, Bool.not_false,
        if_true, Option.toList_some, List.append_assoc]
      refine ParsesAll.bind (Parses.readU32 _) (ParsesAll.bind (Parses.readExact _ _ hn)
        (ParsesAll.bind (Parses.readU8 0) ?_))
      simp only [bne_self_eq_false, Bool.false_eq_true, if_false]
      exact ParsesAll.bind (Parses.readU8 _) (ParsesAll.bind (Parses.readU32 _)
        (ParsesAll.bind (Parses.readU32 _) (ParsesAll.bind (Parses.readExact _ _ hv)
          (flags_checked _ flags))))

/-- A body that fits an event holds a name and a value whose lengths fit their `u32` fields
(a NULL variable's value is not written, and is taken empty). -/
theorem lengths_lt_of_toBytes_le {ev : UserVarEvent} (h : ev.toBytes.length ≤ u32Max - 19)
    (hnull : ev.isNull → ev.value = []) : ev.name.length < 2 ^ 32 ∧ ev.value.length < 2 ^ 32 := by
  rw [toBytes, length_bytesWith] at h
  unfold u32Max at h
  cases hn : ev.isNull
  · simp only [hn, Bool.not_false, if_true] at h
    omega
  · rw [hnull hn, List.length_nil]
    omega

/-- A NULL value ends the decode after its `is_null` byte, on every event size: the decode
succeeds and leaves whatever follows in the event unread, where the other exit of `read`
fails with "bytes remaining on stream". -/
theorem read_null_leaves_rest (fde : FormatDescriptionEvent) (name : List UInt8)
    (hname : name.length < 2 ^ 32) {nullByte : UInt8} (hnull : nullByte ≠ 0)
    (trailing : List UInt8) :
    (read (BinlogEventHeader.LEN + (4 + name.length + 1 + trailing.length)) fde).run
        (toLE 4 name.length ++ name ++ [nullByte] ++ trailing) =
      .ok (⟨name, true, STRING_RESULT, 63, [], 0⟩, trailing) := by
  have hn : (UInt32.ofNat name.length).toNat = name.length := by
    rw [UInt32.toNat_ofNat_mod, Nat.mod_eq_of_lt hname]
  have hb : (nullByte != 0) = true := by simpa using hnull
  have h₁ := Parses.readU32 (UInt32.ofNat name.length)
  rw [hn] at h₁
  refine Parses.limitRead ?_ (by simp [BinlogEventHeader.LEN]; omega) trailing
  rw [List.append_assoc, ← List.append_nil [nullByte]]
  refine h₁.bind ?_
  rw [hn]
  refine (Parses.readExact _ name rfl).bind ((Parses.readU8 nullByte).bind ?_)
  simp only [hb, ite_true]
  exact Parses.pure _

/-- The NULL variable named by no bytes, followed by one stray byte in a 25-byte event. -/
theorem read_null_leaves_rest_stray_byte :
    (([] : List UInt8).length < 2 ^ 32 ∧ (1 : UInt8) ≠ 0) ∧
      (read 25 (FormatDescriptionEvent.new .version4)).run [0, 0, 0, 0, 1, 0xaa] =
        .ok (⟨[], true, STRING_RESULT, 63, [], 0⟩, [0xaa]) :=
  ⟨⟨by decide, by decide⟩,
    read_null_leaves_rest (FormatDescriptionEvent.new .version4) [] (by decide) (by decide) [0xaa]⟩

end UserVarEvent

end BinlogCodec
