import BinlogCodec.Header

namespace BinlogCodec

/-! The format description event and the event footer it determines: the checksum algorithm
is read from an FDE body whose server version is at least 5.6.1. -/

namespace FormatDescriptionEvent

def SERVER_VER_LEN : Nat := 50

def SERVER_VER_OFFSET : Nat := 2

def QUERY_HEADER_MINIMAL_LEN : Nat := 4 + 4 + 1 + 2

def QUERY_HEADER_LEN : Nat := QUERY_HEADER_MINIMAL_LEN + 2

def STOP_HEADER_LEN : Nat := 0

def START_V3_HEADER_LEN : Nat := 2 + SERVER_VER_LEN + 4

def ROTATE_HEADER_LEN : Nat := 8

def INTVAR_HEADER_LEN : Nat := 0

def APPEND_BLOCK_HEADER_LEN : Nat := 4

def DELETE_FILE_HEADER_LEN : Nat := 4

def RAND_HEADER_LEN : Nat := 0

def USER_VAR_HEADER_LEN : Nat := 0

def FORMAT_DESCRIPTION_HEADER_LEN : Nat := START_V3_HEADER_LEN + EventType.enumEndEvent.toU8.toNat

def XID_HEADER_LEN : Nat := 0

def BEGIN_LOAD_QUERY_HEADER_LEN : Nat := APPEND_BLOCK_HEADER_LEN

def ROWS_HEADER_LEN_V1 : Nat := 8

def TABLE_MAP_HEADER_LEN : Nat := 8

def EXECUTE_LOAD_QUERY_EXTRA_HEADER_LEN : Nat := 4 + 4 + 4 + 1

def EXECUTE_LOAD_QUERY_HEADER_LEN : Nat := QUERY_HEADER_LEN + EXECUTE_LOAD_QUERY_EXTRA_HEADER_LEN

def INCIDENT_HEADER_LEN : Nat := 2

def IGNORABLE_HEADER_LEN : Nat := 0

def ROWS_HEADER_LEN_V2 : Nat := 10

def GTID_HEADER_LEN : Nat := 42

def TRANSACTION_CONTEXT_HEADER_LEN : Nat := 18

def VIEW_CHANGE_HEADER_LEN : Nat := 52

def XA_PREPARE_HEADER_LEN : Nat := 0

end FormatDescriptionEvent

inductive BinlogChecksumAlg where
  | binlogChecksumAlgOff
  | binlogChecksumAlgCrc32
  deriving DecidableEq, Repr

namespace BinlogChecksumAlg

def toU8 : BinlogChecksumAlg → UInt8
  | binlogChecksumAlgOff => 0
  | binlogChecksumAlgCrc32 => 1

/-- `TryFrom<u8> for BinlogChecksumAlg`; the error carries the raw byte. -/
def tryFrom (value : UInt8) : Except UInt8 BinlogChecksumAlg :=
  if value = 0 then .ok binlogChecksumAlgOff
  else if value = 1 then .ok binlogChecksumAlgCrc32
  else .error value

theorem tryFrom_eq_ok {b : UInt8} {alg : BinlogChecksumAlg} (h : tryFrom b = .ok alg) :
    alg.toU8 = b := by
  unfold tryFrom at h
  split_ifs at h with h0 h1 <;> cases h
  · exact h0.symm
  · exact h1.symm

@[simp] theorem tryFrom_toU8 (alg : BinlogChecksumAlg) : tryFrom alg.toU8 = .ok alg := by
  cases alg <;> rfl

end BinlogChecksumAlg

/-- Modelled from the spec: `crate::misc::split_version` (not in the source) splits the text
before the first NUL on `'.'` and reads the leading decimal digits of each of the first three
parts; a part that is missing, starts with no digit or exceeds `u8` reads as 0. -/
def splitVersion (serverVersion : List UInt8) : UInt8 × UInt8 × UInt8 :=
  let parts := (serverVersion.takeWhile (· ≠ 0)).splitOn 0x2e
  let part (i : Nat) : UInt8 :=
    let digits : List Nat :=
      ((parts.getD i []).takeWhile fun c => 0x30 ≤ c ∧ c ≤ 0x39).map (·.toNat - 0x30)
    let value : Nat := digits.foldl (fun acc d => 10 * acc + d) 0
    if digits = [] ∨ 255 < value then 0 else UInt8.ofNat value
  (part 0, part 1, part 2)

/-- The lexicographic `<` of Rust tuples. -/
def versionLt (a b : UInt8 × UInt8 × UInt8) : Prop :=
  a.1 < b.1 ∨ a.1 = b.1 ∧ (a.2.1 < b.2.1 ∨ a.2.1 = b.2.1 ∧ a.2.2 < b.2.2)

instance (a b : UInt8 × UInt8 × UInt8) : Decidable (versionLt a b) := by
  unfold versionLt
  infer_instance

structure BinlogEventFooter where
  checksumAlg : Option UInt8
  deriving DecidableEq, Repr

namespace BinlogEventFooter

def BINLOG_CHECKSUM_ALG_DESC_LEN : Nat := 1

def BINLOG_CHECKSUM_LEN : Nat := 4

def CHECKSUM_VERSION_PRODUCT : UInt8 × UInt8 × UInt8 := (5, 6, 1)

/-- `Default for BinlogEventFooter`: the algorithm `OFF`. -/
def default : BinlogEventFooter := ⟨some BinlogChecksumAlg.binlogChecksumAlgOff.toU8⟩

instance : Inhabited BinlogEventFooter := ⟨default⟩

def getChecksumAlg (footer : BinlogEventFooter) : Except UInt8 (Option BinlogChecksumAlg) :=
  match footer.checksumAlg with
  | none => .ok none
  | some b => some <$> BinlogChecksumAlg.tryFrom b

/-- `BinlogEventFooter::read` of an FDE body. -/
def read (buf : List UInt8) : Outcome BinlogEventFooter := do
  let checksumAlg ←
    if FormatDescriptionEvent.SERVER_VER_OFFSET + FormatDescriptionEvent.SERVER_VER_LEN ≤
        buf.length then do
      let (serverVersion, _) ← (readExact FormatDescriptionEvent.SERVER_VER_LEN).run
        (buf.drop FormatDescriptionEvent.SERVER_VER_OFFSET)
      let serverVersion := serverVersion.set (FormatDescriptionEvent.SERVER_VER_LEN - 1) 0
      if versionLt (splitVersion serverVersion) CHECKSUM_VERSION_PRODUCT then pure none
      else do
        let offset ← checkedSub buf.length
          (BINLOG_CHECKSUM_ALG_DESC_LEN + BINLOG_CHECKSUM_LEN)
        pure (some (buf.getD offset 0))
    else pure none
  pure ⟨checksumAlg⟩

/-- The algorithm byte `read` finds in an FDE body, if any. -/
def algOf (buf : List UInt8) : Option UInt8 :=
  if 52 ≤ buf.length then
    if versionLt (splitVersion (((buf.drop 2).take 50).set 49 0)) CHECKSUM_VERSION_PRODUCT then none
    else some (buf.getD (buf.length - 5) 0)
  else none

/-- Reading a footer never fails: the body is long enough for the server version whenever
it is read. -/
theorem read_eq (buf : List UInt8) : read buf = .ok ⟨algOf buf⟩ := by
  unfold read algOf
  by_cases hlen : 52 ≤ buf.length
  · have hread : (readExact 50 : ReadM (List UInt8) _).run (buf.drop 2) =
        .ok ((buf.drop 2).take 50, (buf.drop 2).drop 50) := by
      rw [readExact_stream, if_pos (by simp; omega)]
    rw [if_pos (show FormatDescriptionEvent.SERVER_VER_OFFSET +
      FormatDescriptionEvent.SERVER_VER_LEN ≤ buf.length from hlen), if_pos hlen]
    simp only [FormatDescriptionEvent.SERVER_VER_OFFSET, FormatDescriptionEvent.SERVER_VER_LEN,
      BINLOG_CHECKSUM_ALG_DESC_LEN, BINLOG_CHECKSUM_LEN, Nat.reduceAdd, Nat.reduceSub, hread,
      Outcome.ok_bind]
    split_ifs
    · rfl
    · simp [checkedSub_of_le (show 1 + 4 ≤ buf.length by omega)]
  · simp only [FormatDescriptionEvent.SERVER_VER_OFFSET, FormatDescriptionEvent.SERVER_VER_LEN]
    rw [if_neg hlen, if_neg hlen]
    rfl

theorem getChecksumAlg_eq_none {footer : BinlogEventFooter} :
    footer.getChecksumAlg = .ok none ↔ footer.checksumAlg = none := by
  unfold getChecksumAlg
  split
  · simp_all
  · rename_i b hb
    simp only [hb, reduceCtorEq, iff_false]
    cases BinlogChecksumAlg.tryFrom b <;> simp [Functor.map, Except.map]

theorem getChecksumAlg_eq_some {footer : BinlogEventFooter} {alg : BinlogChecksumAlg} :
    footer.getChecksumAlg = .ok (some alg) ↔ footer.checksumAlg = some alg.toU8 := by
  unfold getChecksumAlg
  split
  · simp_all
  · rename_i b hb
    simp only [hb, Option.some.injEq]
    constructor
    · intro h
      cases ht : BinlogChecksumAlg.tryFrom b <;> simp [ht, Functor.map, Except.map] at h
      subst h
      exact (BinlogChecksumAlg.tryFrom_eq_ok ht).symm
    · rintro rfl
      simp [Functor.map, Except.map]

/-- The algorithm byte of an FDE footer is the fifth byte from the end of the body. -/
theorem algOf_eq_some {buf : List UInt8} {b : UInt8} (h : algOf buf = some b) :
    52 ≤ buf.length ∧ b = buf.getD (buf.length - 5) 0 := by
  unfold algOf at h
  split_ifs at h with hlen
  simp only [Option.some.injEq] at h
  exact ⟨hlen, h.symm⟩

theorem algOf_isSome {buf : List UInt8} (h : (algOf buf).isSome) : 52 ≤ buf.length := by
  unfold algOf at h
  split_ifs at h with hv
  · cases h
  · exact hv
  · cases h

end BinlogEventFooter

/-- The first event of a version 4 binlog; it says how the events after it are laid out. -/
structure FormatDescriptionEvent where
  binlogVersion : UInt16
  serverVersion : List UInt8
  serverVersion_length : serverVersion.length = FormatDescriptionEvent.SERVER_VER_LEN
  createTimestamp : UInt32
  eventTypeHeaderLengths : List UInt8
  footer : BinlogEventFooter
  deriving DecidableEq

namespace FormatDescriptionEvent

/-- `FormatDescriptionEvent::new`, the FDE a reader starts with. -/
def new (binlogVersion : BinlogVersion) : FormatDescriptionEvent where
  binlogVersion := binlogVersion.toU16
  serverVersion := List.replicate SERVER_VER_LEN 0
  serverVersion_length := List.length_replicate _ _
  createTimestamp := 0
  eventTypeHeaderLengths := []
  footer := BinlogEventFooter.default

/-- `fde.binlog_version.get().unwrap_or(BinlogVersion::Version4)`, as every decoder takes it. -/
def versionOrV4 (fde : FormatDescriptionEvent) : BinlogVersion :=
  match BinlogVersion.tryFrom fde.binlogVersion with
  | .ok v => v
  | .error _ => .version4

/-- The built-in post-header length of each event type. -/
def defaultHeaderLength : EventType → Nat
  | .unknownEvent => 0
  | .startEventV3 => START_V3_HEADER_LEN
  | .queryEvent => QUERY_HEADER_LEN
  | .stopEvent => STOP_HEADER_LEN
  | .rotateEvent => ROTATE_HEADER_LEN
  | .intvarEvent => INTVAR_HEADER_LEN
  | .loadEvent => 0
  | .slaveEvent => 0
  | .createFileEvent => 0
  | .appendBlockEvent => APPEND_BLOCK_HEADER_LEN
  | .execLoadEvent => 0
  | .deleteFileEvent => DELETE_FILE_HEADER_LEN
  | .newLoadEvent => 0
  | .randEvent => RAND_HEADER_LEN
  | .userVarEvent => USER_VAR_HEADER_LEN
  | .formatDescriptionEvent => FORMAT_DESCRIPTION_HEADER_LEN
  | .xidEvent => XID_HEADER_LEN
  | .beginLoadQueryEvent => BEGIN_LOAD_QUERY_HEADER_LEN
  | .executeLoadQueryEvent => EXECUTE_LOAD_QUERY_HEADER_LEN
  | .tableMapEvent => TABLE_MAP_HEADER_LEN
  | .preGaWriteRowsEvent => 0
  | .preGaUpdateRowsEvent => 0
  | .preGaDeleteRowsEvent => 0
  | .writeRowsEventV1 => ROWS_HEADER_LEN_V1
  | .updateRowsEventV1 => ROWS_HEADER_LEN_V1
  | .deleteRowsEventV1 => ROWS_HEADER_LEN_V1
  | .incidentEvent => INCIDENT_HEADER_LEN
  | .heartbeatEvent => 0
  | .ignorableEvent => IGNORABLE_HEADER_LEN
  | .rowsQueryEvent => IGNORABLE_HEADER_LEN
  | .writeRowsEvent => ROWS_HEADER_LEN_V2
  | .updateRowsEvent => ROWS_HEADER_LEN_V2
  | .deleteRowsEvent => ROWS_HEADER_LEN_V2
  | .gtidEvent => GTID_HEADER_LEN
  | .anonymousGtidEvent => GTID_HEADER_LEN
  | .previousGtidsEvent => IGNORABLE_HEADER_LEN
  | .transactionContextEvent => TRANSACTION_CONTEXT_HEADER_LEN
  | .viewChangeEvent => VIEW_CHANGE_HEADER_LEN
  | .xaPrepareLogEvent => XA_PREPARE_HEADER_LEN
  | .partialUpdateRowsEvent => ROWS_HEADER_LEN_V2
  | .enumEndEvent => 0

/-- The post-header length of an event type: the FDE's table entry at `event_type - 1`, or
the built-in default. -/
def getEventTypeHeaderLength (fde : FormatDescriptionEvent) (eventType : EventType) : UInt8 :=
  if eventType = .unknownEvent then 0
  else (fde.eventTypeHeaderLengths[eventType.toU8.toNat - 1]?).getD
    (UInt8.ofNat (defaultHeaderLength eventType))

/-- An FDE with an empty table uses the built-in length of every type. -/
theorem getEventTypeHeaderLength_of_nil {fde : FormatDescriptionEvent}
    (h : fde.eventTypeHeaderLengths = []) (eventType : EventType) :
    fde.getEventTypeHeaderLength eventType = UInt8.ofNat (defaultHeaderLength eventType) := by
  unfold getEventTypeHeaderLength
  split_ifs with hu
  · subst hu
    rfl
  · simp [h]

def read (eventSize : Nat) (_fde : FormatDescriptionEvent) :
    ReadM (List UInt8) FormatDescriptionEvent :=
  limitRead (eventSize - BinlogEventHeader.LEN) do
    let binlogVersion ← readU16
    let serverVersion ← readArray SERVER_VER_LEN
    let createTimestamp ← readU32
    let _ ← readU8
    let eventTypeHeaderLengths ← readRemaining
    pure {
      binlogVersion
      serverVersion := serverVersion.1
      serverVersion_length := serverVersion.2
      createTimestamp
      eventTypeHeaderLengths
      footer := BinlogEventFooter.default }

def len (fde : FormatDescriptionEvent) (_version : BinlogVersion) : Nat :=
  clampLen (2 + SERVER_VER_LEN + 4 + 1 + fde.eventTypeHeaderLengths.length)

def write (fde : FormatDescriptionEvent) (version : BinlogVersion) : WriteM Unit :=
  limitWrite (fde.len version) do
    writeU16 fde.binlogVersion
    writeAll fde.serverVersion
    writeU32 fde.createTimestamp
    writeU8 (UInt8.ofNat BinlogEventHeader.LEN)
    writeAll fde.eventTypeHeaderLengths

/-- The body of an FDE whose event-header-length byte is `headerLength`. -/
def bytesWith (fde : FormatDescriptionEvent) (headerLength : UInt8) : List UInt8 :=
  toLE 2 fde.binlogVersion.toNat ++ fde.serverVersion ++ toLE 4 fde.createTimestamp.toNat ++
    [headerLength] ++ fde.eventTypeHeaderLengths

/-- The body the encoder writes: its event-header-length byte is 19. -/
def toBytes (fde : FormatDescriptionEvent) : List UInt8 :=
  fde.bytesWith (UInt8.ofNat BinlogEventHeader.LEN)

theorem length_bytesWith (fde : FormatDescriptionEvent) (headerLength : UInt8) :
    (fde.bytesWith headerLength).length = 57 + fde.eventTypeHeaderLengths.length := by
  simp [bytesWith, fde.serverVersion_length, SERVER_VER_LEN]
  omega

theorem bytesWith_eq (fde : FormatDescriptionEvent) (headerLength : UInt8) :
    fde.bytesWith headerLength = toLE 2 fde.binlogVersion.toNat ++ (fde.serverVersion ++
      (toLE 4 fde.createTimestamp.toNat ++ ([headerLength] ++ fde.eventTypeHeaderLengths))) := by
  unfold bytesWith
  simp only [List.append_assoc]

theorem read_eofOnly (eventSize : Nat) (f : FormatDescriptionEvent) :
    EofOnly (read eventSize f) :=
  EofOnly.limitRead _ <| EofOnly.readU16.bind fun _ => (EofOnly.readArray _).bind fun _ =>
    EofOnly.readU32.bind fun _ => EofOnly.readU8.bind fun _ =>
      EofOnly.readRemaining.bind fun _ => EofOnly.pure _

/-- A decoded FDE consumed its whole budget: the fields it holds and some event-header-length
byte, which it ignores. -/
theorem read_eq_ok {eventSize : Nat} {f fde : FormatDescriptionEvent} {bs rest : List UInt8}
    (h : (read eventSize f).run bs = .ok (fde, rest)) :
    ∃ headerLength, bs = fde.bytesWith headerLength ++ rest ∧
      (fde.bytesWith headerLength).length = eventSize - BinlogEventHeader.LEN ∧
      fde.footer = BinlogEventFooter.default := by
  obtain ⟨c, hrun, rfl⟩ := limitRead_eq_ok.mp h
  simp only [StateT.run_bind, Outcome.bind_eq_ok, Prod.exists] at hrun
  obtain ⟨bv, c1, h1, sv, c2, h2, ts, c3, h3, hl, c4, h4, lens, c5, h5, h6⟩ := hrun
  cases h6
  have hadv := (readU16_limited_eq_ok h1).trans ((readArray_limited_eq_ok h2).trans
    ((readU32_limited_eq_ok h3).trans ((readU8_limited_eq_ok h4).trans (readRemaining_eq_ok h5).1)))
  refine ⟨hl, ?_, ?_, rfl⟩
  · rw [bytesWith_eq]
    exact hadv.1
  · rw [bytesWith_eq]
    exact hadv.length_eq (readRemaining_eq_ok h5).2

theorem read_bytesWith (f fde : FormatDescriptionEvent) (headerLength : UInt8)
    (rest : List UInt8) :
    (read (BinlogEventHeader.LEN + (fde.bytesWith headerLength).length) f).run
      (fde.bytesWith headerLength ++ rest) =
        .ok ({ fde with footer := BinlogEventFooter.default }, rest) := by
  rw [read, Nat.add_sub_cancel_left]
  refine ParsesAll.limitRead ?_ rest
  rw [bytesWith_eq]
  exact ParsesAll.bind (Parses.readU16 _) (ParsesAll.bind
    (Parses.readArray _ _ fde.serverVersion_length) (ParsesAll.bind (Parses.readU32 _)
      (ParsesAll.bind (Parses.readU8 _) ((ParsesAll.readRemaining _).bind_pure _))))

/-- A body too short for the fixed fields fails to decode, with `UnexpectedEof`. -/
theorem read_short {f : FormatDescriptionEvent} {bs : List UInt8}
    (h : bs.length < 57) :
    (read (BinlogEventHeader.LEN + bs.length) f).run bs = .err eofError := by
  rcases read_eofOnly (BinlogEventHeader.LEN + bs.length) f bs with ⟨⟨fde, rest⟩, hread⟩ | hread
  · obtain ⟨hl, hbs, hlen, -⟩ := read_eq_ok hread
    have := length_bytesWith fde hl
    unfold BinlogEventHeader.LEN at hlen
    omega
  · exact hread

/-- A body with room for the fixed fields always decodes. -/
theorem read_long {f : FormatDescriptionEvent} {bs : List UInt8} (h : 57 ≤ bs.length) :
    ∃ fde, (read (BinlogEventHeader.LEN + bs.length) f).run bs = .ok (fde, []) := by
  let fde : FormatDescriptionEvent :=
    ⟨UInt16.ofNat (ofLE (bs.take 2)), (bs.drop 2).take 50, by simp [SERVER_VER_LEN]; omega,
      UInt32.ofNat (ofLE ((bs.drop 52).take 4)), bs.drop 57, BinlogEventFooter.default⟩
  have hlast : bs.drop 56 = bs.getD 56 0 :: bs.drop 57 := by
    rw [List.drop_eq_getElem_cons (by omega), List.getD_eq_getElem?_getD,
      List.getElem?_eq_getElem (by omega), Option.getD_some]
  have hbs : fde.bytesWith (bs.getD 56 0) = bs := by
    rw [bytesWith_eq, toLE_u16_ofLE (by simp; omega), toLE_u32_ofLE (by simp; omega),
      List.singleton_append, ← hlast, show bs.drop 56 = (bs.drop 52).drop 4 by simp,
      List.take_append_drop, show bs.drop 52 = (bs.drop 2).drop 50 by simp,
      List.take_append_drop, List.take_append_drop]
  have hread := read_bytesWith f fde (bs.getD 56 0) []
  rw [hbs, List.append_nil] at hread
  exact ⟨_, hread⟩

theorem len_eq {fde : FormatDescriptionEvent} (v : BinlogVersion)
    (h : fde.toBytes.length ≤ u32Max - 19) : fde.len v = fde.toBytes.length := by
  rw [toBytes, length_bytesWith] at h ⊢
  rw [len, clampLen_of_le (by simp only [SERVER_VER_LEN]; omega)]
  simp only [SERVER_VER_LEN]

theorem write_emits {fde : FormatDescriptionEvent} (v : BinlogVersion)
    (h : fde.toBytes.length ≤ u32Max - 19) : Emits (fde.write v) fde.toBytes := by
  refine Emits.limitWrite ?_ (len_eq v h).ge
  rw [toBytes, bytesWith_eq]
  exact (Emits.writeU16 _).bind ((Emits.writeAll _).bind ((Emits.writeU32 _).bind
    ((Emits.writeU8 _).bind (Emits.writeAll _))))

/-- Encoding the decode of a whole body gives the body back, when its event-header-length byte
is the 19 the encoder writes. -/
theorem write_of_read {f fde : FormatDescriptionEvent} {data rest : List UInt8} (v : BinlogVersion)
    (h : (read (BinlogEventHeader.LEN + data.length) f).run data = .ok (fde, rest))
    (hheader : data[56]? = some 19) (hsize : data.length ≤ u32Max - 19) :
    Emits (fde.write v) data := by
  obtain ⟨hl, hdata, hlen, -⟩ := read_eq_ok h
  obtain ⟨rfl, -⟩ := eq_of_consumed hdata hlen
  have hat : (fde.bytesWith hl)[56]? = some hl :=
    getElem?_of_prefix_append (List.prefix_append _ _) (by simp [fde.serverVersion_length, SERVER_VER_LEN])
  obtain rfl : hl = UInt8.ofNat BinlogEventHeader.LEN := Option.some.inj (hat.symm.trans hheader)
  exact write_emits v hsize

end FormatDescriptionEvent

end BinlogCodec
