import BinlogCodec.Io.Read
import BinlogCodec.Io.Write

namespace BinlogCodec

/-! Binlog versions, event types, the binlog file header and the 19-byte event header. -/

inductive BinlogVersion where
  | version1
  | version2
  | version3
  | version4
  deriving DecidableEq, Repr

namespace BinlogVersion

def toU16 : BinlogVersion → UInt16
  | version1 => 1
  | version2 => 2
  | version3 => 3
  | version4 => 4

/-- `TryFrom<u16> for BinlogVersion`. -/
def tryFrom (value : UInt16) : Except UInt16 BinlogVersion :=
  match value.toNat with
  | 1 => .ok version1
  | 2 => .ok version2
  | 3 => .ok version3
  | 4 => .ok version4
  | _ => .error value

end BinlogVersion

inductive EventType where
  | unknownEvent
  | startEventV3
  | queryEvent
  | stopEvent
  | rotateEvent
  | intvarEvent
  | loadEvent
  | slaveEvent
  | createFileEvent
  | appendBlockEvent
  | execLoadEvent
  | deleteFileEvent
  | newLoadEvent
  | randEvent
  | userVarEvent
  | formatDescriptionEvent
  | xidEvent
  | beginLoadQueryEvent
  | executeLoadQueryEvent
  | tableMapEvent
  | preGaWriteRowsEvent
  | preGaUpdateRowsEvent
  | preGaDeleteRowsEvent
  | writeRowsEventV1
  | updateRowsEventV1
  | deleteRowsEventV1
  | incidentEvent
  | heartbeatEvent
  | ignorableEvent
  | rowsQueryEvent
  | writeRowsEvent
  | updateRowsEvent
  | deleteRowsEvent
  | gtidEvent
  | anonymousGtidEvent
  | previousGtidsEvent
  | transactionContextEvent
  | viewChangeEvent
  | xaPrepareLogEvent
  | partialUpdateRowsEvent
  | enumEndEvent
  deriving DecidableEq, Repr

namespace EventType

/-- The `#[repr(u8)]` discriminant, `event_type as u8`. -/
def toU8 : EventType → UInt8
  | unknownEvent => 0x00
  | startEventV3 => 0x01
  | queryEvent => 0x02
  | stopEvent => 0x03
  | rotateEvent => 0x04
  | intvarEvent => 0x05
  | loadEvent => 0x06
  | slaveEvent => 0x07
  | createFileEvent => 0x08
  | appendBlockEvent => 0x09
  | execLoadEvent => 0x0a
  | deleteFileEvent => 0x0b
  | newLoadEvent => 0x0c
  | randEvent => 0x0d
  | userVarEvent => 0x0e
  | formatDescriptionEvent => 0x0f
  | xidEvent => 0x10
  | beginLoadQueryEvent => 0x11
  | executeLoadQueryEvent => 0x12
  | tableMapEvent => 0x13
  | preGaWriteRowsEvent => 0x14
  | preGaUpdateRowsEvent => 0x15
  | preGaDeleteRowsEvent => 0x16
  | writeRowsEventV1 => 0x17
  | updateRowsEventV1 => 0x18
  | deleteRowsEventV1 => 0x19
  | incidentEvent => 0x1a
  | heartbeatEvent => 0x1b
  | ignorableEvent => 0x1c
  | rowsQueryEvent => 0x1d
  | writeRowsEvent => 0x1e
  | updateRowsEvent => 0x1f
  | deleteRowsEvent => 0x20
  | gtidEvent => 0x21
  | anonymousGtidEvent => 0x22
  | previousGtidsEvent => 0x23
  | transactionContextEvent => 0x24
  | viewChangeEvent => 0x25
  | xaPrepareLogEvent => 0x26
  | partialUpdateRowsEvent => 0x27
  | enumEndEvent => 0x28

/-- The arms of `TryFrom<u8> for EventType`: bytes `0x00`–`0x23` only. -/
def ofByte? : Nat → Option EventType
  | 0x00 => some unknownEvent
  | 0x01 => some startEventV3
  | 0x02 => some queryEvent
  | 0x03 => some stopEvent
  | 0x04 => some rotateEvent
  | 0x05 => some intvarEvent
  | 0x06 => some loadEvent
  | 0x07 => some slaveEvent
  | 0x08 => some createFileEvent
  | 0x09 => some appendBlockEvent
  | 0x0a => some execLoadEvent
  | 0x0b => some deleteFileEvent
  | 0x0c => some newLoadEvent
  | 0x0d => some randEvent
  | 0x0e => some userVarEvent
  | 0x0f => some formatDescriptionEvent
  | 0x10 => some xidEvent
  | 0x11 => some beginLoadQueryEvent
  | 0x12 => some executeLoadQueryEvent
  | 0x13 => some tableMapEvent
  | 0x14 => some preGaWriteRowsEvent
  | 0x15 => some preGaUpdateRowsEvent
  | 0x16 => some preGaDeleteRowsEvent
  | 0x17 => some writeRowsEventV1
  | 0x18 => some updateRowsEventV1
  | 0x19 => some deleteRowsEventV1
  | 0x1a => some incidentEvent
  | 0x1b => some heartbeatEvent
  | 0x1c => some ignorableEvent
  | 0x1d => some rowsQueryEvent
  | 0x1e => some writeRowsEvent
  | 0x1f => some updateRowsEvent
  | 0x20 => some deleteRowsEvent
  | 0x21 => some gtidEvent
  | 0x22 => some anonymousGtidEvent
  | 0x23 => some previousGtidsEvent
  | _ => none

/-- `TryFrom<u8> for EventType`; the error carries the raw byte (`UnknownEventType`). -/
def tryFrom (byte : UInt8) : Except UInt8 EventType :=
  match ofByte? byte.toNat with
  | some t => .ok t
  | none => .error byte

theorem ofByte?_toU8 {n : Nat} {t : EventType} (h : ofByte? n = some t) : t.toU8.toNat = n := by
  have hall : ∀ m < 0x24, (ofByte? m).all (·.toU8.toNat = m) := by decide
  rcases Nat.lt_or_ge n 0x24 with hn | hn
  · simpa [h] using hall n hn
  · obtain ⟨k, rfl⟩ := Nat.exists_eq_add_of_le' hn
    cases h

theorem tryFrom_eq_ok {b : UInt8} {t : EventType} (h : tryFrom b = .ok t) : t.toU8 = b := by
  unfold tryFrom at h
  split at h
  · cases h
    exact UInt8.toNat.inj (ofByte?_toU8 ‹_›)
  · cases h

/-- `try_from` knows the bytes up to `0x23` only. -/
theorem tryFrom_le {b : UInt8} {t : EventType} (h : tryFrom b = .ok t) : b.toNat ≤ 0x23 := by
  unfold tryFrom at h
  split at h
  · rename_i hb
    rcases Nat.lt_or_ge b.toNat 0x24 with hn | hn
    · omega
    · obtain ⟨k, hk⟩ := Nat.exists_eq_add_of_le' hn
      rw [hk] at hb
      cases hb
  · cases h

/-- Every byte up to `0x23` names a type. -/
theorem tryFrom_of_le {b : UInt8} (h : b.toNat ≤ 0x23) : ∃ t, tryFrom b = .ok t := by
  have hsome : ∀ n < 0x24, (ofByte? n).isSome := by decide
  obtain ⟨t, ht⟩ := Option.isSome_iff_exists.mp (hsome b.toNat (by omega))
  exact ⟨t, by simp [tryFrom, ht]⟩

/-- Every variant but the last four and `ENUM_END_EVENT` round-trips through its byte. -/
theorem tryFrom_toU8 {t : EventType} (h : t.toU8.toNat ≤ 0x23) : tryFrom t.toU8 = .ok t := by
  cases t <;> first | rfl | exact absurd h (by decide)

end EventType

/-- A binlog file starts with `[ fe 'bin' ]`. -/
structure BinlogFileHeader where
  deriving DecidableEq, Repr

namespace BinlogFileHeader

def LEN : Nat := 4

def VALUE : List UInt8 := [0xfe, 0x62, 0x69, 0x6e]

def invalidError : IoError := ⟨.invalidData, "invalid binlog file header"⟩

/-- `BinlogFileHeader::read`; its event size and FDE arguments are ignored. -/
def read : ReadM (List UInt8) BinlogFileHeader := do
  let buf ← readExact LEN
  if buf ≠ VALUE then throw invalidError
  pure {}

def write (_ : BinlogFileHeader) (_version : BinlogVersion) : WriteM Unit := writeAll VALUE

theorem read_value (rest : List UInt8) : read.run (VALUE ++ rest) = .ok ({}, rest) := by
  simp only [read, StateT.run_bind, readExact_stream_append LEN VALUE rest rfl]
  rfl

theorem read_eq_ok {bs rest : List UInt8} {h : BinlogFileHeader} :
    read.run bs = .ok (h, rest) ↔ bs = VALUE ++ rest := by
  constructor
  · intro hread
    simp only [read, StateT.run_bind, Outcome.bind_eq_ok, Prod.exists] at hread
    obtain ⟨buf, rest', hbuf, hcheck⟩ := hread
    obtain ⟨rfl, hlen⟩ := readExact_stream_eq_ok.mp hbuf
    by_cases hv : buf = VALUE
    · subst hv
      cases hcheck
      rfl
    · simp [hv] at hcheck
  · rintro rfl
    exact read_value rest

end BinlogFileHeader

/-- The header that starts each event, 19 bytes long for binlog version 4. -/
structure BinlogEventHeader where
  timestamp : UInt32
  eventType : UInt8
  serverId : UInt32
  eventSize : UInt32
  logPos : UInt32
  flags : UInt16
  deriving DecidableEq, Repr

namespace BinlogEventHeader

def LEN : Nat := 19

def len (_version : BinlogVersion) : Nat := LEN

section

variable {σ : Type} [ByteSource σ]

/-- `BinlogEventHeader::read`; its event size and FDE arguments are ignored. -/
def read : ReadM σ BinlogEventHeader := do
  let timestamp ← readU32
  let eventType ← readU8
  let serverId ← readU32
  let eventSize ← readU32
  let logPos ← readU32
  let flags ← readU16
  pure { timestamp, eventType, serverId, eventSize, logPos, flags }

end

def write (h : BinlogEventHeader) (_version : BinlogVersion) : WriteM Unit := do
  writeU32 h.timestamp
  writeU8 h.eventType
  writeU32 h.serverId
  writeU32 h.eventSize
  writeU32 h.logPos
  writeU16 h.flags

/-- The 19 bytes `write` emits. -/
def toBytes (h : BinlogEventHeader) : List UInt8 :=
  toLE 4 h.timestamp.toNat ++ [h.eventType] ++ toLE 4 h.serverId.toNat ++
    toLE 4 h.eventSize.toNat ++ toLE 4 h.logPos.toNat ++ toLE 2 h.flags.toNat

@[simp] theorem len_eq (v : BinlogVersion) : len v = 19 := rfl

/-- The budget a payload decoder gets for an event of `LEN + n` bytes is `n`. -/
theorem add_sub_len (v : BinlogVersion) (n : Nat) : LEN + n - len v = n := by
  rw [len_eq, LEN, Nat.add_sub_cancel_left]

@[simp] theorem length_toBytes (h : BinlogEventHeader) : h.toBytes.length = 19 := by
  simp [toBytes]

theorem write_emits (h : BinlogEventHeader) (v : BinlogVersion) :
    Emits (h.write v) h.toBytes := by
  simpa [toBytes, List.append_assoc] using
    (Emits.writeU32 _).bind ((Emits.writeU8 _).bind ((Emits.writeU32 _).bind
      ((Emits.writeU32 _).bind ((Emits.writeU32 _).bind (Emits.writeU16 _)))))

theorem read_eofOnly {σ : Type} [ByteSource σ] : EofOnly (read : ReadM σ BinlogEventHeader) :=
  EofOnly.readU32.bind fun _ => EofOnly.readU8.bind fun _ => EofOnly.readU32.bind fun _ =>
    EofOnly.readU32.bind fun _ => EofOnly.readU32.bind fun _ => EofOnly.readU16.bind fun _ =>
      EofOnly.pure _

theorem read_toBytes (h : BinlogEventHeader) (rest : List UInt8) :
    (read : ReadM (List UInt8) _).run (h.toBytes ++ rest) = .ok (h, rest) := by
  simp only [read, toBytes, List.append_assoc, List.singleton_append, List.cons_append,
    List.nil_append,
    StateT.run_bind,
    readU32_stream_append, readU8_stream_append, readU16_stream_append, Outcome.ok_bind]
  rfl

theorem read_eq_ok {bs rest : List UInt8} {h : BinlogEventHeader} :
    (read : ReadM (List UInt8) _).run bs = .ok (h, rest) → bs = h.toBytes ++ rest := by
  simp only [read, StateT.run_bind, Outcome.bind_eq_ok, Prod.exists]
  rintro ⟨timestamp, bs1, h1, eventType, bs2, h2, serverId, bs3, h3, eventSize, bs4, h4,
    logPos, bs5, h5, flags, bs6, h6, hpure⟩
  cases hpure
  rw [readU32_stream_eq_ok h1, readU8_stream_eq_ok h2, readU32_stream_eq_ok h3,
    readU32_stream_eq_ok h4, readU32_stream_eq_ok h5, readU16_stream_eq_ok h6]
  simp [toBytes]

/-- Any 19 bytes are the bytes of a header. -/
theorem exists_toBytes {bs : List UInt8} (h : LEN ≤ bs.length) :
    ∃ hdr : BinlogEventHeader, bs = hdr.toBytes ++ bs.drop LEN := by
  unfold LEN at h
  refine ⟨⟨UInt32.ofNat (ofLE (bs.take 4)), bs.getD 4 0, UInt32.ofNat (ofLE ((bs.drop 5).take 4)),
    UInt32.ofNat (ofLE ((bs.drop 9).take 4)), UInt32.ofNat (ofLE ((bs.drop 13).take 4)),
    UInt16.ofNat (ofLE ((bs.drop 17).take 2))⟩, ?_⟩
  have hbyte : bs.drop 4 = bs.getD 4 0 :: bs.drop 5 := by
    rw [List.drop_eq_getElem_cons (by omega), List.getD_eq_getElem?_getD,
      List.getElem?_eq_getElem (by omega), Option.getD_some]
  have h4 : ∀ n, n + 4 ≤ 19 → ((bs.drop n).take 4).length = 4 := fun n hn => by simp; omega
  simp only [toBytes, LEN, toLE_u32_ofLE (show (bs.take 4).length = 4 by simp; omega),
    toLE_u32_ofLE (h4 5 (by omega)),
    toLE_u32_ofLE (h4 9 (by omega)), toLE_u32_ofLE (h4 13 (by omega)),
    toLE_u16_ofLE (show ((bs.drop 17).take 2).length = 2 by simp; omega),
    List.append_assoc, List.singleton_append, List.cons_append, List.nil_append, take_drop_append_drop 17 2 19 bs rfl,
    take_drop_append_drop 13 4 17 bs rfl, take_drop_append_drop 9 4 13 bs rfl,
    take_drop_append_drop 5 4 9 bs rfl, ← hbyte, List.take_append_drop]

/-- A stream shorter than a header fails with `UnexpectedEof`. -/
theorem read_short {bs : List UInt8} (h : bs.length < LEN) :
    (read : ReadM (List UInt8) BinlogEventHeader).run bs = .err eofError := by
  rcases read_eofOnly bs with ⟨⟨hdr, rest⟩, hread⟩ | hread
  · have := congrArg List.length (read_eq_ok hread)
    simp only [List.length_append, length_toBytes] at this
    exact absurd h (by unfold LEN; omega)
  · exact hread

end BinlogEventHeader

end BinlogCodec
