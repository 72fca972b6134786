import BinlogCodec.FormatDescription

namespace BinlogCodec

/-! Column bitmaps and the table-map event. -/

/-- Modelled from the spec: a `bitvec::vec::BitVec<Lsb0, u8>` (an external crate) as the bytes
its bits live in and its length in bits. The padding bits of the last byte are kept, as
`as_raw_slice` shows them. -/
structure BitVecU8 where
  bytes : List UInt8
  len : Nat
  bytes_length : bytes.length = (len + 7) / 8
  deriving DecidableEq

namespace BitVecU8

/-- `BitVec::from_vec`: every bit of the bytes. -/
def fromVec (v : List UInt8) : BitVecU8 := ⟨v, 8 * v.length, by omega⟩

/-- `BitVec::truncate`: down to `n` bits if it has more; the bytes those bits live in stay as
they were. -/
def truncate (b : BitVecU8) (n : Nat) : BitVecU8 :=
  if h : n < b.len then ⟨b.bytes.take ((n + 7) / 8), n, by simp [b.bytes_length]; omega⟩ else b

/-- `BitVec::as_raw_slice`: the bytes the bits live in. -/
def asRawSlice (b : BitVecU8) : List UInt8 := b.bytes

@[simp] theorem length_asRawSlice (b : BitVecU8) : b.asRawSlice.length = (b.len + 7) / 8 :=
  b.bytes_length

/-- The bitmap the decoders build from `(n + 7) / 8` bytes has `n` bits, and its raw bytes are
the bytes it was built from. -/
theorem truncate_fromVec {v : List UInt8} {n : Nat} (h : v.length = (n + 7) / 8) :
    ((fromVec v).truncate n).asRawSlice = v ∧ ((fromVec v).truncate n).len = n := by
  have hlen : (fromVec v).len = 8 * v.length := rfl
  unfold truncate asRawSlice
  split_ifs with hn
  · exact ⟨List.take_of_length_le (show v.length ≤ _ by omega), rfl⟩
  · rw [hlen] at hn
    exact ⟨rfl, by rw [hlen]; omega⟩

/-- A bitmap is what the decoders build from its own raw bytes, truncated to its length. -/
theorem truncate_fromVec_asRawSlice (b : BitVecU8) :
    (fromVec b.asRawSlice).truncate b.len = b := by
  have h := truncate_fromVec (v := b.asRawSlice) b.bytes_length
  revert h
  generalize (fromVec b.asRawSlice).truncate b.len = c
  obtain ⟨cb, cl, ch⟩ := c
  obtain ⟨bytes, len, hbl⟩ := b
  rintro ⟨rfl, rfl⟩
  rfl

end BitVecU8

/-- `(post_header_len == 6)`: the table id is a u32 under a 6-byte post-header, else a u48. -/
def readTableId (postHeaderLen : UInt8) : ReadM LimitRead UInt64 :=
  if 6 = postHeaderLen then (fun x : UInt32 => UInt64.ofNat x.toNat) <$> readU32 else readU48

/-- The width of the table id `readTableId` reads. -/
def tableIdWidth (postHeaderLen : UInt8) : Nat := if 6 = postHeaderLen then 4 else 6

theorem readTableId_eq_ok {postHeaderLen : UInt8} {x : UInt64} {c c' : LimitRead}
    (h : (readTableId postHeaderLen).run c = .ok (x, c')) :
    c.Advance c' (toLE (tableIdWidth postHeaderLen) x.toNat) ∧ x.toNat < 2 ^ 48 := by
  unfold readTableId tableIdWidth at *
  split_ifs at h ⊢
  · simp only [StateT.run_map, Outcome.map_eq_ok, Prod.exists, Prod.mk.injEq] at h
    obtain ⟨y, c₁, hy, rfl, rfl⟩ := h
    have hlt : y.toNat < 2 ^ 32 := y.toNat_lt_size
    have hx : (UInt64.ofNat y.toNat).toNat = y.toNat := by
      rw [UInt64.toNat_ofNat_mod, Nat.mod_eq_of_lt (by omega)]
    rw [hx]
    exact ⟨readU32_limited_eq_ok hy, by omega⟩
  · exact readU48_limited_eq_ok h

/-- `readTableId` reads back a table id of the width it reads. -/
theorem Parses.readTableId {postHeaderLen : UInt8} {x : UInt64}
    (hx : x.toNat < 2 ^ (8 * tableIdWidth postHeaderLen)) :
    Parses (BinlogCodec.readTableId postHeaderLen) (toLE (tableIdWidth postHeaderLen) x.toNat) x := by
  unfold BinlogCodec.readTableId tableIdWidth at *
  split_ifs at hx ⊢
  · have hy : (UInt32.ofNat x.toNat).toNat = x.toNat := by
      rw [UInt32.toNat_ofNat_mod, Nat.mod_eq_of_lt (by simpa using hx)]
    have := (Parses.readU32 (UInt32.ofNat x.toNat)).map (fun y : UInt32 => UInt64.ofNat y.toNat)
    simpa only [hy, UInt64.ofNat_toNat_eq] using this
  · exact Parses.readU48 hx

/-- Modelled from the spec: `ColumnType` (in `crate::constants`, not in the source), the
column types of the binlog by their codes: `MYSQL_TYPE_DECIMAL` = 0 to `MYSQL_TYPE_TIME2` = 19,
then `MYSQL_TYPE_JSON` = 245 to `MYSQL_TYPE_GEOMETRY` = 255. -/
inductive ColumnType where
  | mysqlTypeDecimal
  | mysqlTypeTiny
  | mysqlTypeShort
  | mysqlTypeLong
  | mysqlTypeFloat
  | mysqlTypeDouble
  | mysqlTypeNull
  | mysqlTypeTimestamp
  | mysqlTypeLonglong
  | mysqlTypeInt24
  | mysqlTypeDate
  | mysqlTypeTime
  | mysqlTypeDatetime
  | mysqlTypeYear
  | mysqlTypeNewdate
  | mysqlTypeVarchar
  | mysqlTypeBit
  | mysqlTypeTimestamp2
  | mysqlTypeDatetime2
  | mysqlTypeTime2
  | mysqlTypeJson
  | mysqlTypeNewdecimal
  | mysqlTypeEnum
  | mysqlTypeSet
  | mysqlTypeTinyBlob
  | mysqlTypeMediumBlob
  | mysqlTypeLongBlob
  | mysqlTypeBlob
  | mysqlTypeVarString
  | mysqlTypeString
  | mysqlTypeGeometry
  deriving DecidableEq, Repr

namespace ColumnType

/-- Modelled from the spec: `ColumnType::try_from(u8)`; an unknown code is kept as
`UnknownColumnType`. -/
def tryFrom (value : UInt8) : Except UInt8 ColumnType :=
  match value.toNat with
  | 0 => .ok mysqlTypeDecimal
  | 1 => .ok mysqlTypeTiny
  | 2 => .ok mysqlTypeShort
  | 3 => .ok mysqlTypeLong
  | 4 => .ok mysqlTypeFloat
  | 5 => .ok mysqlTypeDouble
  | 6 => .ok mysqlTypeNull
  | 7 => .ok mysqlTypeTimestamp
  | 8 => .ok mysqlTypeLonglong
  | 9 => .ok mysqlTypeInt24
  | 10 => .ok mysqlTypeDate
  | 11 => .ok mysqlTypeTime
  | 12 => .ok mysqlTypeDatetime
  | 13 => .ok mysqlTypeYear
  | 14 => .ok mysqlTypeNewdate
  | 15 => .ok mysqlTypeVarchar
  | 16 => .ok mysqlTypeBit
  | 17 => .ok mysqlTypeTimestamp2
  | 18 => .ok mysqlTypeDatetime2
  | 19 => .ok mysqlTypeTime2
  | 245 => .ok mysqlTypeJson
  | 246 => .ok mysqlTypeNewdecimal
  | 247 => .ok mysqlTypeEnum
  | 248 => .ok mysqlTypeSet
  | 249 => .ok mysqlTypeTinyBlob
  | 250 => .ok mysqlTypeMediumBlob
  | 251 => .ok mysqlTypeLongBlob
  | 252 => .ok mysqlTypeBlob
  | 253 => .ok mysqlTypeVarString
  | 254 => .ok mysqlTypeString
  | 255 => .ok mysqlTypeGeometry
  | _ => .error value

/-- Returns type-specific metadata length for this column type. -/
def getMetadataLen : ColumnType → Nat
  | mysqlTypeString => 2
  | mysqlTypeVarString => 2
  | mysqlTypeVarchar => 2
  | mysqlTypeBlob => 1
  | mysqlTypeDecimal => 2
  | mysqlTypeNewdecimal => 2
  | mysqlTypeDouble => 1
  | mysqlTypeFloat => 1
  | mysqlTypeSet | mysqlTypeEnum => 2
  | _ => 0

end ColumnType

/-- `RawSeq::get` of the column types: the type at `index`, or its raw byte if it is unknown. -/
def rawSeqGet (seq : List UInt8) (index : Nat) : Option (Except UInt8 ColumnType) :=
  ColumnType.tryFrom <$> seq[index]?

/-- The map from a table id to a table's name and column types, ahead of its row events. -/
structure TableMapEvent where
  tableId : UInt64
  flags : UInt16
  databaseName : List UInt8
  tableName : List UInt8
  columnsType : List UInt8
  columnsMetadata : List UInt8
  nullBitmask : BitVecU8
  optionalMetadata : List UInt8
  deriving DecidableEq

namespace TableMapEvent

def getColumnsCount (ev : TableMapEvent) : Nat := ev.columnsType.length

def read (eventSize : Nat) (fde : FormatDescriptionEvent) : ReadM (List UInt8) TableMapEvent :=
  let version := fde.versionOrV4
  limitRead (eventSize - BinlogEventHeader.len version) do
    let tableId ← readTableId (fde.getEventTypeHeaderLength .tableMapEvent)
    let flags ← readU16
    let databaseNameLen ← readU8
    let databaseName ← readExact databaseNameLen.toNat
    let _ ← readU8
    let tableNameLen ← readU8
    let tableName ← readExact tableNameLen.toNat
    let _ ← readU8
    let columnsCount ← readLenencInt
    let columnsType ← readExact columnsCount.toNat
    let metadataLen ← readLenencInt
    let columnsMetadata ← readExact metadataLen.toNat
    -- `(columns_count + 7) / 8` on `u64`
    let bitmaskLen := (← liftOutcome (checkedAdd columnsCount.toNat 7)) / 8
    let nullBitmask ← readExact bitmaskLen
    let optionalMetadata ← readRemaining
    pure { tableId, flags, databaseName, tableName, columnsType, columnsMetadata,
           nullBitmask := (BitVecU8.fromVec nullBitmask).truncate columnsCount.toNat,
           optionalMetadata }

/-- `len` counts `(n + 8) / 7` bytes for the null bitmask of `n` columns, an estimate above
the `(n + 7) / 8` bytes of a bitmap of `n` bits. -/
def len (ev : TableMapEvent) (_version : BinlogVersion) : Nat :=
  clampLen (6 + 2 + 1 + min ev.databaseName.length 0xff + 1 + 1 + min ev.tableName.length 0xff +
    1 + lenencIntLen (UInt64.ofNat ev.getColumnsCount) + ev.getColumnsCount +
    lenencStrLen ev.columnsMetadata + (ev.getColumnsCount + 8) / 7 + ev.optionalMetadata.length)

def write (ev : TableMapEvent) (version : BinlogVersion) : WriteM Unit :=
  limitWrite (ev.len version) do
    writeU48 ev.tableId
    writeU16 ev.flags
    writeU8 (UInt8.ofNat (min ev.databaseName.length 0xff))
    limitWrite 0xff (writeAll ev.databaseName)
    writeU8 0
    writeU8 (UInt8.ofNat (min ev.tableName.length 0xff))
    limitWrite 0xff (writeAll ev.tableName)
    writeU8 0
    writeLenencInt (UInt64.ofNat ev.getColumnsCount)
    writeAll ev.columnsType
    writeLenencStr ev.columnsMetadata
    writeAll ev.nullBitmask.asRawSlice
    writeAll ev.optionalMetadata

/-- The bytes of a table-map event with a table id of `idWidth` bytes, `nul₁` and `nul₂`
after the two names (the decoder skips both), and the column count and the metadata length
written as `count` and `metadataLen`. -/
def bytesWith (ev : TableMapEvent) (idWidth : Nat) (nul₁ nul₂ : UInt8)
    (count metadataLen : List UInt8) : List UInt8 :=
  toLE idWidth ev.tableId.toNat ++ toLE 2 ev.flags.toNat ++ [UInt8.ofNat ev.databaseName.length] ++
    ev.databaseName ++ [nul₁] ++ [UInt8.ofNat ev.tableName.length] ++ ev.tableName ++ [nul₂] ++
    count ++ ev.columnsType ++ metadataLen ++ ev.columnsMetadata ++ ev.nullBitmask.asRawSlice ++
    ev.optionalMetadata

/-- The bytes the encoder writes. -/
def toBytes (ev : TableMapEvent) : List UInt8 :=
  ev.bytesWith 6 0 0 (lenencInt (UInt64.ofNat ev.columnsType.length))
    (lenencInt (UInt64.ofNat ev.columnsMetadata.length))

theorem length_toBytes (ev : TableMapEvent) :
    ev.toBytes.length = 6 + 2 + 1 + ev.databaseName.length + 1 + 1 + ev.tableName.length + 1 +
      lenencIntLen (UInt64.ofNat ev.getColumnsCount) + ev.getColumnsCount +
      lenencStrLen ev.columnsMetadata + (ev.nullBitmask.len + 7) / 8 +
      ev.optionalMetadata.length := by
  simp only [toBytes, bytesWith, getColumnsCount, lenencStrLen, List.length_append, length_toLE,
    List.length_singleton, length_lenencInt, BitVecU8.length_asRawSlice]
  omega

/-- What `write` needs to write a table-map event whole: a table id of 48 bits, names that fit
their length bytes, a null bitmask of at most one bit per column, and a body that fits an
event. -/
structure Writable (ev : TableMapEvent) : Prop where
  tableId_lt : ev.tableId.toNat < 2 ^ 48
  databaseName_le : ev.databaseName.length ≤ 0xff
  tableName_le : ev.tableName.length ≤ 0xff
  nullBitmask_le : ev.nullBitmask.len ≤ ev.getColumnsCount
  toBytes_le : ev.toBytes.length ≤ u32Max - 19

/-- A table id of 48 bits, names that fit their length bytes and a null bitmask of at most one
bit per column are written whole, in no more than `len` bytes. -/
theorem write_emits {ev : TableMapEvent} (v : BinlogVersion) (hid : ev.tableId.toNat < 2 ^ 48)
    (hdb : ev.databaseName.length ≤ 0xff) (htable : ev.tableName.length ≤ 0xff)
    (hbits : ev.nullBitmask.len ≤ ev.getColumnsCount) (h : ev.toBytes.length ≤ u32Max - 19) :
    Emits (ev.write v) ev.toBytes ∧ ev.toBytes.length ≤ ev.len v := by
  have hlen : ev.toBytes.length ≤ ev.len v := by
    rw [len, clampLen_eq, min_eq_left hdb, min_eq_left htable]
    refine le_min ?_ h
    rw [length_toBytes]
    omega
  refine ⟨Emits.limitWrite ?_ hlen, hlen⟩
  simp only [toBytes, bytesWith, writeLenencStr, bind_assoc, min_eq_left hdb, min_eq_left htable,
    List.append_assoc]
  exact (Emits.writeU48 hid).bind ((Emits.writeU16 _).bind ((Emits.writeU8 _).bind
    ((Emits.limitWrite (Emits.writeAll _) hdb).bind ((Emits.writeU8 _).bind
      ((Emits.writeU8 _).bind ((Emits.limitWrite (Emits.writeAll _) htable).bind
        ((Emits.writeU8 _).bind ((Emits.writeLenencInt _).bind ((Emits.writeAll _).bind
          ((Emits.writeLenencInt _).bind ((Emits.writeAll _).bind ((Emits.writeAll _).bind
            (Emits.writeAll _)))))))))))))

/-- A decoded table-map event consumed its whole budget: its fields with the table id at the
width its post-header length says, the bytes after the two names, and the column count and
metadata length as they were written, at any width `read_lenenc_int` accepts. Its null bitmask
has one bit per column. -/
theorem read_eq_ok {eventSize : Nat} {fde : FormatDescriptionEvent} {bs rest : List UInt8}
    {ev : TableMapEvent} (h : (read eventSize fde).run bs = .ok (ev, rest)) :
    ∃ (nul₁ nul₂ : UInt8) (w₁ w₂ : LenencWidth),
      w₁.Fits (UInt64.ofNat ev.columnsType.length) ∧
      w₂.Fits (UInt64.ofNat ev.columnsMetadata.length) ∧
      bs = ev.bytesWith (tableIdWidth (fde.getEventTypeHeaderLength .tableMapEvent)) nul₁ nul₂
        (lenencWith w₁ (UInt64.ofNat ev.columnsType.length))
        (lenencWith w₂ (UInt64.ofNat ev.columnsMetadata.length)) ++ rest ∧
      (ev.bytesWith (tableIdWidth (fde.getEventTypeHeaderLength .tableMapEvent)) nul₁ nul₂
        (lenencWith w₁ (UInt64.ofNat ev.columnsType.length))
        (lenencWith w₂ (UInt64.ofNat ev.columnsMetadata.length))).length =
          eventSize - BinlogEventHeader.LEN ∧
      ev.tableId.toNat < 2 ^ 48 ∧ ev.nullBitmask.len = ev.getColumnsCount ∧
      ev.databaseName.length < 2 ^ 8 ∧ ev.tableName.length < 2 ^ 8 := by
  obtain ⟨c, hrun, rfl⟩ := limitRead_eq_ok.mp h
  obtain ⟨tableId, c₁, h₁, hrun⟩ := run_bind_eq_ok hrun
  obtain ⟨flags, c₂, h₂, hrun⟩ := run_bind_eq_ok hrun
  obtain ⟨dbLen, c₃, h₃, hrun⟩ := run_bind_eq_ok hrun
  obtain ⟨db, c₄, h₄, hrun⟩ := run_bind_eq_ok hrun
  obtain ⟨nul₁, c₅, h₅, hrun⟩ := run_bind_eq_ok hrun
  obtain ⟨tnLen, c₆, h₆, hrun⟩ := run_bind_eq_ok hrun
  obtain ⟨tn, c₇, h₇, hrun⟩ := run_bind_eq_ok hrun
  obtain ⟨nul₂, c₈, h₈, hrun⟩ := run_bind_eq_ok hrun
  obtain ⟨count, c₉, h₉, hrun⟩ := run_bind_eq_ok hrun
  obtain ⟨types, c₁₀, h₁₀, hrun⟩ := run_bind_eq_ok hrun
  obtain ⟨mdLen, c₁₁, h₁₁, hrun⟩ := run_bind_eq_ok hrun
  obtain ⟨md, c₁₂, h₁₂, hrun⟩ := run_bind_eq_ok hrun
  obtain ⟨sum, c₁₃, h₁₃, hrun⟩ := run_bind_eq_ok hrun
  obtain ⟨bitmask, c₁₄, h₁₄, hrun⟩ := run_bind_eq_ok hrun
  obtain ⟨opt, c₁₅, h₁₅, hpure⟩ := run_bind_eq_ok hrun
  cases hpure
  obtain ⟨hsum, rfl⟩ := liftOutcome_eq_ok.mp h₁₃
  obtain ⟨rfl, -⟩ := checkedAdd_eq_ok hsum
  obtain ⟨hid, hid48⟩ := readTableId_eq_ok h₁
  obtain ⟨hdb, hdbLen⟩ := readExact_limited_advance h₄
  obtain ⟨htn, htnLen⟩ := readExact_limited_advance h₇
  obtain ⟨w₁, hw₁, hcount⟩ := readLenencInt_limited_eq_ok h₉
  obtain ⟨htypes, htypesLen⟩ := readExact_limited_advance h₁₀
  obtain ⟨w₂, hw₂, hmdLen⟩ := readLenencInt_limited_eq_ok h₁₁
  obtain ⟨hmd, hmdLen'⟩ := readExact_limited_advance h₁₂
  obtain ⟨hbitmask, hbitmaskLen⟩ := readExact_limited_advance h₁₄
  obtain ⟨hopt, hzero⟩ := readRemaining_eq_ok h₁₅
  obtain ⟨hraw, hbits⟩ := BitVecU8.truncate_fromVec (n := count.toNat) hbitmaskLen
  have hadv := hid.trans <| (readU16_limited_eq_ok h₂).trans <| (readU8_limited_eq_ok h₃).trans <|
    hdb.trans <| (readU8_limited_eq_ok h₅).trans <| (readU8_limited_eq_ok h₆).trans <|
    htn.trans <| (readU8_limited_eq_ok h₈).trans <| hcount.trans <| htypes.trans <|
    hmdLen.trans <| hmd.trans <| hbitmask.trans hopt
  have hc : count = UInt64.ofNat types.length := by rw [htypesLen, UInt64.ofNat_toNat_eq]
  have hm : mdLen = UInt64.ofNat md.length := by rw [hmdLen', UInt64.ofNat_toNat_eq]
  rw [show dbLen = UInt8.ofNat db.length by rw [hdbLen, UInt8.ofNat_toNat_eq],
    show tnLen = UInt8.ofNat tn.length by rw [htnLen, UInt8.ofNat_toNat_eq], hc, hm,
    ← hraw] at hadv
  rw [hc] at hw₁
  rw [hm] at hw₂
  refine ⟨nul₁, nul₂, w₁, w₂, hw₁, hw₂, ?_, ?_, hid48, ?_, hdbLen ▸ dbLen.toNat_lt_size,
    htnLen ▸ tnLen.toNat_lt_size⟩
  · simpa only [bytesWith, List.append_assoc] using hadv.1
  · simpa only [bytesWith, List.append_assoc] using hadv.length_eq hzero
  · show ((BitVecU8.fromVec bitmask).truncate count.toNat).len = types.length
    rw [hbits, htypesLen]

/-- Encoding the decode of a whole body gives the body back, when the FDE gives the event the
8-byte post-header of a 6-byte table id, a 0 follows each name, and the column count and the
metadata length stand in the fewest bytes, as the encoder writes them. -/
theorem write_of_read {fde : FormatDescriptionEvent} {data rest : List UInt8} {ev : TableMapEvent}
    (v : BinlogVersion)
    (h : (read (BinlogEventHeader.LEN + data.length) fde).run data = .ok (ev, rest))
    (hpost : fde.getEventTypeHeaderLength .tableMapEvent = 8)
    (hnul₁ : data[9 + ev.databaseName.length]? = some 0)
    (hnul₂ : data[11 + ev.databaseName.length + ev.tableName.length]? = some 0)
    (hcount : lenencInt (UInt64.ofNat ev.columnsType.length) <+:
      data.drop (12 + ev.databaseName.length + ev.tableName.length))
    (hmetadata : lenencInt (UInt64.ofNat ev.columnsMetadata.length) <+:
      data.drop (12 + ev.databaseName.length + ev.tableName.length +
        lenencIntLen (UInt64.ofNat ev.columnsType.length) + ev.columnsType.length))
    (hsize : data.length ≤ u32Max - 19) : Emits (ev.write v) data := by
  obtain ⟨nul₁, nul₂, w₁, w₂, hw₁, hw₂, hdata, hlen, hid, hbits, hdb, htn⟩ := read_eq_ok h
  rw [hpost, show tableIdWidth 8 = 6 from rfl] at hdata hlen
  obtain ⟨hd, -⟩ := eq_of_consumed hdata hlen
  rw [hd] at hnul₁ hnul₂ hcount hmetadata hsize ⊢
  -- the layout up to the database name, and up to the table name
  obtain rfl : nul₁ = 0 := Option.some.inj <| (getElem?_of_prefix_append
    (l := toLE 6 ev.tableId.toNat ++ toLE 2 ev.flags.toNat ++ [UInt8.ofNat ev.databaseName.length] ++
      ev.databaseName) (by simp [bytesWith, -toLE_succ])
    (by simp only [List.length_append, length_toLE, List.length_singleton])).symm.trans hnul₁
  obtain rfl : nul₂ = 0 := Option.some.inj <| (getElem?_of_prefix_append
    (l := toLE 6 ev.tableId.toNat ++ toLE 2 ev.flags.toNat ++ [UInt8.ofNat ev.databaseName.length] ++
      ev.databaseName ++ [0] ++ [UInt8.ofNat ev.tableName.length] ++ ev.tableName)
    (by simp [bytesWith, -toLE_succ])
    (by simp only [List.length_append, length_toLE, List.length_singleton]; omega)).symm.trans hnul₂
  have hc := lenencWith_eq_of_drop hw₁
    (p := toLE 6 ev.tableId.toNat ++ toLE 2 ev.flags.toNat ++ [UInt8.ofNat ev.databaseName.length] ++
      ev.databaseName ++ [0] ++ [UInt8.ofNat ev.tableName.length] ++ ev.tableName ++ [0])
    (by simp [bytesWith, -toLE_succ])
    (by simp only [List.length_append, length_toLE, List.length_singleton]; omega) hcount
  rw [hc] at hmetadata hsize ⊢
  have hm := lenencWith_eq_of_drop hw₂
    (p := toLE 6 ev.tableId.toNat ++ toLE 2 ev.flags.toNat ++ [UInt8.ofNat ev.databaseName.length] ++
      ev.databaseName ++ [0] ++ [UInt8.ofNat ev.tableName.length] ++ ev.tableName ++ [0] ++
      lenencInt (UInt64.ofNat ev.columnsType.length) ++ ev.columnsType)
    (by simp [bytesWith, -toLE_succ])
    (by simp only [List.length_append, length_toLE, List.length_singleton, length_lenencInt]; omega)
    hmetadata
  rw [hm] at hsize ⊢
  exact (write_emits v hid (by omega) (by omega) hbits.le hsize).1

/-- The decoder reads the event back from its fields with the table id at the width the FDE's
post-header length gives, whatever bytes follow the two names, and the column count and the
metadata length in the fewest bytes, when the names fit their length bytes, the column count's
bitmap size can be computed, and the null bitmask has one bit per column. -/
theorem read_bytesWith {ev : TableMapEvent} {fde : FormatDescriptionEvent}
    (hid : ev.tableId.toNat < 2 ^ (8 * tableIdWidth (fde.getEventTypeHeaderLength .tableMapEvent)))
    (hdb : ev.databaseName.length < 2 ^ 8) (htable : ev.tableName.length < 2 ^ 8)
    (hcols : ev.columnsType.length + 7 ≤ usizeMax) (hmetadata : ev.columnsMetadata.length < 2 ^ 64)
    (hbits : ev.nullBitmask.len = ev.columnsType.length) (nul₁ nul₂ : UInt8) (rest : List UInt8) :
    (read (BinlogEventHeader.LEN + (ev.bytesWith
        (tableIdWidth (fde.getEventTypeHeaderLength .tableMapEvent)) nul₁ nul₂
        (lenencInt (UInt64.ofNat ev.columnsType.length))
        (lenencInt (UInt64.ofNat ev.columnsMetadata.length))).length) fde).run
      (ev.bytesWith (tableIdWidth (fde.getEventTypeHeaderLength .tableMapEvent)) nul₁ nul₂
        (lenencInt (UInt64.ofNat ev.columnsType.length))
        (lenencInt (UInt64.ofNat ev.columnsMetadata.length)) ++ rest) = .ok (ev, rest) := by
  rw [read, BinlogEventHeader.add_sub_len]
  refine ParsesAll.limitRead ?_ rest
  have hcount : (UInt64.ofNat ev.columnsType.length).toNat = ev.columnsType.length := by
    rw [UInt64.toNat_ofNat_mod]; unfold usizeMax at hcols; omega
  have hmd : (UInt64.ofNat ev.columnsMetadata.length).toNat = ev.columnsMetadata.length := by
    rw [UInt64.toNat_ofNat_mod]; omega
  have hdbLen : ev.databaseName.length = (UInt8.ofNat ev.databaseName.length).toNat := by
    rw [UInt8.toNat_ofNat_mod]; omega
  have htLen : ev.tableName.length = (UInt8.ofNat ev.tableName.length).toNat := by
    rw [UInt8.toNat_ofNat_mod]; omega
  have hraw : ev.nullBitmask.asRawSlice.length = (ev.columnsType.length + 7) / 8 := by
    rw [BitVecU8.length_asRawSlice, hbits]
  have hadd : checkedAdd (UInt64.ofNat ev.columnsType.length).toNat 7 =
      .ok (ev.columnsType.length + 7) := by
    rw [hcount]; exact checkedAdd_of_le hcols
  -- the decoder rebuilds the bitmask from its raw bytes
  have hev : ({ ev with nullBitmask := ((BitVecU8.fromVec ev.nullBitmask.asRawSlice).truncate
      (UInt64.ofNat ev.columnsType.length).toNat) } : TableMapEvent) = ev := by
    rw [hcount, ← hbits, BitVecU8.truncate_fromVec_asRawSlice]
  refine (congrArg (ParsesAll _ _) hev).mp ?_
  simp only [bytesWith, List.append_assoc]
  exact ParsesAll.bind (Parses.readTableId hid) (ParsesAll.bind (Parses.readU16 _)
    (ParsesAll.bind (Parses.readU8 _) (ParsesAll.bind (Parses.readExact _ _ hdbLen)
      (ParsesAll.bind (Parses.readU8 nul₁) (ParsesAll.bind (Parses.readU8 _)
        (ParsesAll.bind (Parses.readExact _ _ htLen) (ParsesAll.bind (Parses.readU8 nul₂)
          (ParsesAll.bind (Parses.readLenencInt _)
            (ParsesAll.bind (Parses.readExact _ _ hcount.symm)
              (ParsesAll.bind (Parses.readLenencInt _)
                (ParsesAll.bind (Parses.readExact _ _ hmd.symm)
                  (ParsesAll.bind_nil (Parses.liftOutcome hadd)
                    (ParsesAll.bind (Parses.readExact _ _ hraw)
                      ((ParsesAll.readRemaining _).bind_pure _))))))))))))))

/-- The decoder reads back what `write` writes, under an FDE that gives six-byte table ids, when
the null bitmask has one bit per column. -/
theorem read_toBytes {ev : TableMapEvent} {fde : FormatDescriptionEvent} (hw : ev.Writable)
    (hwidth : tableIdWidth (fde.getEventTypeHeaderLength .tableMapEvent) = 6)
    (hbits : ev.nullBitmask.len = ev.columnsType.length) (rest : List UInt8) :
    (read (BinlogEventHeader.LEN + ev.toBytes.length) fde).run (ev.toBytes ++ rest) =
      .ok (ev, rest) := by
  have hsize := hw.toBytes_le
  rw [length_toBytes] at hsize
  unfold lenencStrLen getColumnsCount u32Max at hsize
  have h := read_bytesWith (by rw [hwidth]; exact hw.tableId_lt) (by have := hw.databaseName_le; omega)
    (by have := hw.tableName_le; omega) (by unfold usizeMax; omega) (by omega) hbits 0 0 rest
  rwa [hwidth] at h

/-! Column metadata look-ups: the metadata of each column is a slice of `columns_metadata`
whose length its type gives. -/

/-- Look up the metadata of column `colIdx` (`get_column_metadata`): its type, an offset the
loop sums from `0`, and the slice of the type's metadata length there. The loop body looks up
the type at `colIdx` itself, not at the loop index. -/
def getColumnMetadata (ev : TableMapEvent) (colIdx : Nat) : Option (List UInt8) := do
  let colType ← (rawSeqGet ev.columnsType colIdx).bind Except.toOption
  let metadataLen := colType.getMetadataLen
  let offset ← (List.range colIdx).foldlM (fun offset _ => do
    let ty ← (rawSeqGet ev.columnsType colIdx).bind Except.toOption
    pure (offset + ty.getMetadataLen)) 0
  sliceGet ev.columnsMetadata offset (offset + metadataLen)

/-- The look-up as the metadata blob lays the columns out: every column up to `colIdx` has a
known type, and the metadata of `colIdx` starts after the metadata of the columns before it,
at the sum of their lengths. -/
def prefixSumColumnMetadata (ev : TableMapEvent) (colIdx : Nat) : Option (List UInt8) := do
  let types ← (ev.columnsType.take (colIdx + 1)).mapM fun b => (ColumnType.tryFrom b).toOption
  let colType ← types[colIdx]?
  let offset := ((types.take colIdx).map ColumnType.getMetadataLen).sum
  sliceGet ev.columnsMetadata offset (offset + colType.getMetadataLen)

/-- A loop that adds `c` on each of `n` rounds adds `n * c`. -/
theorem foldlM_range_add (c n a : Nat) :
    (List.range n).foldlM (fun offset _ => some (offset + c)) a = some (a + n * c) := by
  induction n generalizing a with
  | zero => simp
  | succ n ih =>
      rw [List.range_succ, List.foldlM_append, ih]
      simp [Nat.succ_mul, Nat.add_assoc]

/-- The offset `get_column_metadata` computes for a column of a known type is `colIdx` times
the metadata length of that type: the loop adds the looked-up column's own length `colIdx`
times, whatever the types of the columns before it. -/
theorem getColumnMetadata_eq_slice_at_mul (ev : TableMapEvent) (colIdx : Nat) :
    ev.getColumnMetadata colIdx =
      ((rawSeqGet ev.columnsType colIdx).bind Except.toOption).bind fun ty =>
        sliceGet ev.columnsMetadata (colIdx * ty.getMetadataLen)
          (colIdx * ty.getMetadataLen + ty.getMetadataLen) := by
  unfold getColumnMetadata
  cases hty : (rawSeqGet ev.columnsType colIdx).bind Except.toOption with
  | none => rfl
  | some ty => simp [hty, foldlM_range_add]

/-- A table with the columns `VARCHAR`, `BLOB`, `VARCHAR` and the metadata `[1, 2, 3, 4, 5]`:
two bytes for the first column, one for the second, two for the third. -/
def varcharBlobVarchar : TableMapEvent where
  tableId := 0
  flags := 0
  databaseName := []
  tableName := []
  columnsType := [15, 252, 15]
  columnsMetadata := [1, 2, 3, 4, 5]
  nullBitmask := (BitVecU8.fromVec [0]).truncate 3
  optionalMetadata := []

/-- Past the first column the look-up misses: the `BLOB` gets `[2]` (offset 1 * 1) where its
metadata is `[3]`, and the second `VARCHAR` looks at bytes 4 to 6, past the end, where its
metadata is `[4, 5]`. -/
theorem getColumnMetadata_varchar_blob_varchar :
    varcharBlobVarchar.getColumnMetadata 0 = some [1, 2] ∧
      varcharBlobVarchar.getColumnMetadata 1 = some [2] ∧
      varcharBlobVarchar.prefixSumColumnMetadata 1 = some [3] ∧
      varcharBlobVarchar.getColumnMetadata 2 = none ∧
      varcharBlobVarchar.prefixSumColumnMetadata 2 = some [4, 5] := by
  simp only [getColumnMetadata_eq_slice_at_mul]
  decide

end TableMapEvent

end BinlogCodec
