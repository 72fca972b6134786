import BinlogCodec.Event
import BinlogCodec.Events.Simple
import BinlogCodec.Events.UserVar
import BinlogCodec.Events.Query
import BinlogCodec.Events.TableMap
import BinlogCodec.Events.Rows

namespace BinlogCodec

/-! The parsed payload of an event: `Event::read_data` dispatches on the type byte to the
decoders, `EventData::write` back to the encoders. -/

/-- Parsed event data; the variants the library ignores keep the raw body. -/
inductive EventData where
  | unknownEvent
  | startEventV3 (data : List UInt8)
  | queryEvent (ev : QueryEvent)
  | stopEvent
  | rotateEvent (ev : RotateEvent)
  | intvarEvent (ev : IntvarEvent)
  | loadEvent (data : List UInt8)
  | slaveEvent
  | createFileEvent (data : List UInt8)
  | appendBlockEvent (data : List UInt8)
  | execLoadEvent (data : List UInt8)
  | deleteFileEvent (data : List UInt8)
  | newLoadEvent (data : List UInt8)
  | randEvent (ev : RandEvent)
  | userVarEvent (ev : UserVarEvent)
  | formatDescriptionEvent (ev : FormatDescriptionEvent)
  | xidEvent (ev : XidEvent)
  | beginLoadQueryEvent (ev : BeginLoadQueryEvent)
  | executeLoadQueryEvent (ev : ExecuteLoadQueryEvent)
  | tableMapEvent (ev : TableMapEvent)
  | preGaWriteRowsEvent (data : List UInt8)
  | preGaUpdateRowsEvent (data : List UInt8)
  | preGaDeleteRowsEvent (data : List UInt8)
  | writeRowsEventV1 (data : List UInt8)
  | updateRowsEventV1 (data : List UInt8)
  | deleteRowsEventV1 (data : List UInt8)
  | incidentEvent (ev : IncidentEvent)
  | heartbeatEvent
  | ignorableEvent (data : List UInt8)
  | rowsQueryEvent (ev : RowsQueryEvent)
  | writeRowsEvent (ev : WriteRowsEvent)
  | updateRowsEvent (ev : UpdateRowsEvent)
  | deleteRowsEvent (ev : DeleteRowsEvent)
  | gtidEvent (data : List UInt8)
  | anonymousGtidEvent (data : List UInt8)
  | previousGtidsEvent (data : List UInt8)
  | transactionContextEvent (data : List UInt8)
  | viewChangeEvent (data : List UInt8)
  | xaPrepareLogEvent (data : List UInt8)
  | partialUpdateRowsEvent (data : List UInt8)

namespace EventData

/-- `EventData::write`: each variant's `BinlogStruct::write`, the raw body, or nothing. -/
def write (d : EventData) (version : BinlogVersion) : WriteM Unit :=
  match d with
  | .unknownEvent => pure ()
  | .startEventV3 ev => writeAll ev
  | .queryEvent ev => ev.write version
  | .stopEvent => pure ()
  | .rotateEvent ev => ev.write version
  | .intvarEvent ev => ev.write version
  | .loadEvent ev => writeAll ev
  | .slaveEvent => pure ()
  | .createFileEvent ev => writeAll ev
  | .appendBlockEvent ev => writeAll ev
  | .execLoadEvent ev => writeAll ev
  | .deleteFileEvent ev => writeAll ev
  | .newLoadEvent ev => writeAll ev
  | .randEvent ev => ev.write version
  | .userVarEvent ev => ev.write version
  | .formatDescriptionEvent ev => ev.write version
  | .xidEvent ev => ev.write version
  | .beginLoadQueryEvent ev => ev.write version
  | .executeLoadQueryEvent ev => ev.write version
  | .tableMapEvent ev => ev.write version
  | .preGaWriteRowsEvent ev => writeAll ev
  | .preGaUpdateRowsEvent ev => writeAll ev
  | .preGaDeleteRowsEvent ev => writeAll ev
  | .writeRowsEventV1 ev => writeAll ev
  | .updateRowsEventV1 ev => writeAll ev
  | .deleteRowsEventV1 ev => writeAll ev
  | .incidentEvent ev => ev.write version
  | .heartbeatEvent => pure ()
  | .ignorableEvent ev => writeAll ev
  | .rowsQueryEvent ev => ev.write version
  | .writeRowsEvent ev => ev.write version
  | .updateRowsEvent ev => ev.write version
  | .deleteRowsEvent ev => ev.write version
  | .gtidEvent ev => writeAll ev
  | .anonymousGtidEvent ev => writeAll ev
  | .previousGtidsEvent ev => writeAll ev
  | .transactionContextEvent ev => writeAll ev
  | .viewChangeEvent ev => writeAll ev
  | .xaPrepareLogEvent ev => writeAll ev
  | .partialUpdateRowsEvent ev => writeAll ev

end EventData

namespace Event

/-- The `event_data` match of `Event::read_data`: the body decoded by the type's decoder, kept
raw, or dropped for a unit variant. -/
def eventData (ev : Event) (eventType : EventType) : Outcome EventData :=
  match eventType with
  | .enumEndEvent | .unknownEvent => pure .unknownEvent
  | .startEventV3 => pure (.startEventV3 ev.data)
  | .queryEvent => .queryEvent <$> ev.readEvent QueryEvent.read
  | .stopEvent => pure .stopEvent
  | .rotateEvent => .rotateEvent <$> ev.readEvent RotateEvent.read
  | .intvarEvent => .intvarEvent <$> ev.readEvent IntvarEvent.read
  | .loadEvent => pure (.loadEvent ev.data)
  | .slaveEvent => pure .slaveEvent
  | .createFileEvent => pure (.createFileEvent ev.data)
  | .appendBlockEvent => pure (.appendBlockEvent ev.data)
  | .execLoadEvent => pure (.execLoadEvent ev.data)
  | .deleteFileEvent => pure (.deleteFileEvent ev.data)
  | .newLoadEvent => pure (.newLoadEvent ev.data)
  | .randEvent => .randEvent <$> ev.readEvent RandEvent.read
  | .userVarEvent => .userVarEvent <$> ev.readEvent UserVarEvent.read
  | .formatDescriptionEvent => do
      let fde ← ev.readEvent FormatDescriptionEvent.read
      pure (.formatDescriptionEvent { fde with footer := ev.footer })
  | .xidEvent => .xidEvent <$> ev.readEvent XidEvent.read
  | .beginLoadQueryEvent => .beginLoadQueryEvent <$> ev.readEvent BeginLoadQueryEvent.read
  | .executeLoadQueryEvent =>
      .executeLoadQueryEvent <$> ev.readEvent ExecuteLoadQueryEvent.read
  | .tableMapEvent => .tableMapEvent <$> ev.readEvent TableMapEvent.read
  | .preGaWriteRowsEvent => pure (.preGaWriteRowsEvent ev.data)
  | .preGaUpdateRowsEvent => pure (.preGaUpdateRowsEvent ev.data)
  | .preGaDeleteRowsEvent => pure (.preGaDeleteRowsEvent ev.data)
  | .writeRowsEventV1 => pure (.writeRowsEventV1 ev.data)
  | .updateRowsEventV1 => pure (.updateRowsEventV1 ev.data)
  | .deleteRowsEventV1 => pure (.deleteRowsEventV1 ev.data)
  | .incidentEvent => .incidentEvent <$> ev.readEvent IncidentEvent.read
  | .heartbeatEvent => pure .heartbeatEvent
  | .ignorableEvent => pure (.ignorableEvent ev.data)
  | .rowsQueryEvent => .rowsQueryEvent <$> ev.readEvent RowsQueryEvent.read
  | .writeRowsEvent => .writeRowsEvent <$> ev.readEvent WriteRowsEvent.read
  | .updateRowsEvent => .updateRowsEvent <$> ev.readEvent UpdateRowsEvent.read
  | .deleteRowsEvent => .deleteRowsEvent <$> ev.readEvent DeleteRowsEvent.read
  | .gtidEvent => pure (.gtidEvent ev.data)
  | .anonymousGtidEvent => pure (.anonymousGtidEvent ev.data)
  | .previousGtidsEvent => pure (.previousGtidsEvent ev.data)
  | .transactionContextEvent => pure (.transactionContextEvent ev.data)
  | .viewChangeEvent => pure (.viewChangeEvent ev.data)
  | .xaPrepareLogEvent => pure (.xaPrepareLogEvent ev.data)
  | .partialUpdateRowsEvent => pure (.partialUpdateRowsEvent ev.data)

/-- `Event::read_data`: `None` for a type byte `EventType::try_from` does not know. -/
def readData (ev : Event) : Outcome (Option EventData) :=
  match EventType.tryFrom ev.header.eventType with
  | .error _ => pure none
  | .ok eventType => some <$> ev.eventData eventType

theorem readData_of_tryFrom {ev : Event} {eventType : EventType}
    (h : EventType.tryFrom ev.header.eventType = .ok eventType) :
    ev.readData = some <$> ev.eventData eventType := by
  rw [readData, h]

end Event

/-! ## What `len` promises

`BinlogStruct::len` is the budget each encoder writes behind and the size `Event::len` puts in
the header. It counts what `write` writes when the fields fit the widths the encoder gives them:
names and messages behind one length byte, status variables behind two, a table id of six
bytes. Where it does not, whatever the fields: `RandEvent::len` says 8 for the 16 bytes `write`
writes, and a table id past 48 bits gets a `len` but makes `write` panic. -/

/-- `len` agrees with `write`: for each payload type whose fields fit their length prefixes and
whose body fits an event, `write` succeeds and writes `len` bytes; a rows event needs a table
id of 48 bits, a column count whose bitmap size can be computed and column images of that size
as well, an execute-load-query event at most `u16::MAX - 13` bytes of status variables, and a
table-map event, whose `len` estimates its null bitmask, writes at most `len` bytes. -/
theorem len_agrees_with_write (v : BinlogVersion) :
    (∀ ev : QueryEvent, ev.statusVars.length ≤ 0xffff → ev.schema.length ≤ 0xff →
      ev.toBytes.length ≤ u32Max - 19 → WritesExactly (ev.write v) (ev.len v)) ∧
    (∀ ev : RotateEvent, ev.toBytes.length ≤ u32Max - 19 →
      WritesExactly (ev.write v) (ev.len v)) ∧
    (∀ ev : IntvarEvent, WritesExactly (ev.write v) (ev.len v)) ∧
    (∀ ev : XidEvent, WritesExactly (ev.write v) (ev.len v)) ∧
    (∀ ev : UserVarEvent, ev.toBytes.length ≤ u32Max - 19 →
      WritesExactly (ev.write v) (ev.len v)) ∧
    (∀ ev : IncidentEvent, ev.message.length ≤ 0xff → WritesExactly (ev.write v) (ev.len v)) ∧
    (∀ ev : BeginLoadQueryEvent, ev.toBytes.length ≤ u32Max - 19 →
      WritesExactly (ev.write v) (ev.len v)) ∧
    (∀ ev : ExecuteLoadQueryEvent, ev.statusVars.length ≤ 0xffff - 13 →
      ev.schema.length ≤ 0xff → ev.toBytes.length ≤ u32Max - 19 →
      WritesExactly (ev.write v) (ev.len v)) ∧
    (∀ ev : RowsQueryEvent, ev.toBytes.length ≤ u32Max - 19 →
      WritesExactly (ev.write v) (ev.len v)) ∧
    (∀ fde : FormatDescriptionEvent, fde.toBytes.length ≤ u32Max - 19 →
      WritesExactly (fde.write v) (fde.len v)) ∧
    (∀ ev : WriteRowsEvent, ev.rows.Writable →
      ∃ n, ev.len v = .ok n ∧ WritesExactly (ev.write v) n) ∧
    (∀ ev : UpdateRowsEvent, ev.rows.Writable →
      ∃ n, ev.len v = .ok n ∧ WritesExactly (ev.write v) n) ∧
    (∀ ev : DeleteRowsEvent, ev.rows.Writable →
      ∃ n, ev.len v = .ok n ∧ WritesExactly (ev.write v) n) ∧
    (∀ ev : TableMapEvent, ev.Writable → WritesAtMost (ev.write v) (ev.len v)) := by
  have rows : ∀ ev : RowsEvent, ev.Writable →
      ∃ n, ev.len v = .ok n ∧ WritesExactly (ev.write v) n := fun ev h =>
    have hw := RowsEvent.write_emits v h.tableId_lt h.extraData_le h.numColumns_le h.imagesFit
      h.toBytes_le
    ⟨_, hw.2, _, hw.1, rfl⟩
  refine ⟨fun ev hvars hschema h => ?query, fun ev h => ?rotate, fun ev => ?intvar,
    fun ev => ?xid, fun ev h => ?userVar, fun ev hmsg => ?incident, fun ev h => ?beginLoad,
    fun ev hvars hschema h => ?executeLoad, fun ev h => ?rowsQuery, fun fde h => ?fde,
    fun ev h => rows ev.rows h, fun ev h => rows ev.rows h, fun ev h => rows ev.rows h,
    fun ev h => ?tableMap⟩
  case query =>
    have hw := QueryEvent.write_emits v hvars hschema h
    exact ⟨_, hw.1, hw.2.symm⟩
  case rotate => exact ⟨_, RotateEvent.write_emits v h, (RotateEvent.len_eq v h).symm⟩
  case intvar => exact ⟨_, IntvarEvent.write_emits ev v, rfl⟩
  case xid => exact ⟨_, XidEvent.write_emits ev v, rfl⟩
  case userVar =>
    have hw := UserVarEvent.write_emits v h
    exact ⟨_, hw.1, hw.2.symm⟩
  case incident =>
    have hw := IncidentEvent.write_emits v hmsg
    exact ⟨_, hw.1, hw.2.symm⟩
  case beginLoad =>
    exact ⟨_, BeginLoadQueryEvent.write_emits v h, (BeginLoadQueryEvent.len_eq v h).symm⟩
  case executeLoad =>
    have hw := ExecuteLoadQueryEvent.write_emits v hvars hschema h
    exact ⟨_, hw.1, hw.2.symm⟩
  case rowsQuery =>
    exact ⟨_, RowsQueryEvent.write_emits v h, (RowsQueryEvent.len_eq v _ h).symm⟩
  case fde =>
    exact ⟨_, FormatDescriptionEvent.write_emits v h, (FormatDescriptionEvent.len_eq v h).symm⟩
  case tableMap =>
    have hw := TableMapEvent.write_emits v h.tableId_lt h.databaseName_le h.tableName_le
      h.nullBitmask_le h.toBytes_le
    exact ⟨_, hw.1, hw.2⟩

/-- Each part of `len_agrees_with_write` with a hypothesis, at an event of empty fields (the
FDE a reader starts with, for the FDE). -/
theorem len_agrees_with_write_empty_events :
    let q : QueryEvent := ⟨0, 0, 0, [], [], []⟩
    let r : RotateEvent := ⟨4, []⟩
    let u : UserVarEvent := ⟨[], false, 0, 33, [], 0⟩
    let i : IncidentEvent := ⟨1, []⟩
    let b : BeginLoadQueryEvent := ⟨1, []⟩
    let e : ExecuteLoadQueryEvent := ⟨0, 0, 0, [], [], [], 1, 0, 0, 0⟩
    let rq : RowsQueryEvent := ⟨[]⟩
    let f := FormatDescriptionEvent.new .version4
    let rows : RowsEvent := ⟨1, 0, [], 0, none, none, []⟩
    let t : TableMapEvent := ⟨1, 0, [], [], [], [], BitVecU8.fromVec [], []⟩
    WritesExactly (q.write .version4) (q.len .version4) ∧
      WritesExactly (r.write .version4) (r.len .version4) ∧
      WritesExactly (u.write .version4) (u.len .version4) ∧
      WritesExactly (i.write .version4) (i.len .version4) ∧
      WritesExactly (b.write .version4) (b.len .version4) ∧
      WritesExactly (e.write .version4) (e.len .version4) ∧
      WritesExactly (rq.write .version4) (rq.len .version4) ∧
      WritesExactly (f.write .version4) (f.len .version4) ∧
      (∃ n, (WriteRowsEvent.mk rows).len .version4 = .ok n ∧
        WritesExactly ((WriteRowsEvent.mk rows).write .version4) n) ∧
      (∃ n, (UpdateRowsEvent.mk rows).len .version4 = .ok n ∧
        WritesExactly ((UpdateRowsEvent.mk rows).write .version4) n) ∧
      (∃ n, (DeleteRowsEvent.mk rows).len .version4 = .ok n ∧
        WritesExactly ((DeleteRowsEvent.mk rows).write .version4) n) ∧
      WritesAtMost (t.write .version4) (t.len .version4) := by
  intro q r u i b e rq f rows t
  have hrows : rows.Writable := ⟨by decide, by decide, by decide, fun _ hb => by simp [rows] at hb,
    by decide⟩
  have ht : t.Writable := ⟨by decide, by decide, by decide, by decide, by decide⟩
  have h := len_agrees_with_write .version4
  exact ⟨h.1 q (by decide) (by decide) (by decide), h.2.1 r (by decide), h.2.2.2.2.1 u (by decide),
    h.2.2.2.2.2.1 i (by decide), h.2.2.2.2.2.2.1 b (by decide),
    h.2.2.2.2.2.2.2.1 e (by decide) (by decide) (by decide),
    h.2.2.2.2.2.2.2.2.1 rq (by decide), h.2.2.2.2.2.2.2.2.2.1 f (by decide),
    h.2.2.2.2.2.2.2.2.2.2.1 ⟨rows⟩ hrows, h.2.2.2.2.2.2.2.2.2.2.2.1 ⟨rows⟩ hrows,
    h.2.2.2.2.2.2.2.2.2.2.2.2.1 ⟨rows⟩ hrows, h.2.2.2.2.2.2.2.2.2.2.2.2.2 t ht⟩

/-- Where `len` and `write` part for every value: `RandEvent::len` returns 8 while `write`
writes the two 8-byte seeds, 16 bytes; and a table-map event whose table id needs more than 48
bits, which no length prefix bounds, panics in `write_u48` on every sink. -/
theorem len_disagrees_with_write (v : BinlogVersion) :
    (∀ ev : RandEvent, ev.len v = 8 ∧ WritesExactly (ev.write v) 16) ∧
      ∀ ev : TableMapEvent, 2 ^ 48 ≤ ev.tableId.toNat → ∀ s, (ev.write v).run s = .panic := by
  refine ⟨fun ev => ⟨rfl, _, ev.write_emits v, ev.length_toBytes⟩, fun ev hid s => ?_⟩
  simp only [TableMapEvent.write, limitWrite, writeU48, if_neg (Nat.not_lt.mpr hid)]
  rfl

/-- The rand event of seeds 1 and 2; the table-map event of table id `2 ^ 48`, empty names and
no columns, whose body fits an event. -/
theorem len_disagrees_with_write_seeds :
    ((⟨1, 2⟩ : RandEvent).len .version4 = 8 ∧
        WritesExactly ((⟨1, 2⟩ : RandEvent).write .version4) 16) ∧
      (2 ^ 48 ≤ (0x1000000000000 : UInt64).toNat ∧
        (⟨0x1000000000000, 0, [], [], [], [], BitVecU8.fromVec [], []⟩ :
          TableMapEvent).toBytes.length ≤ u32Max - 19) ∧
      ((⟨0x1000000000000, 0, [], [], [], [], BitVecU8.fromVec [], []⟩ : TableMapEvent).write
        .version4).run ⟨[], []⟩ = .panic :=
  ⟨(len_disagrees_with_write .version4).1 ⟨1, 2⟩, ⟨by decide, by decide⟩,
    (len_disagrees_with_write .version4).2 _ (by decide) _⟩

/-! ## Re-encoding what `read_data` decodes

The decoders skip some bytes and accept some fields in more than one form; the encoders write
one fixed form. A body re-encodes to itself when it holds that form. -/

namespace EventData

/-- The body `data` that `d` was decoded from holds, at each byte the decoder skips or reads in
more than one form, what the encoder writes there: a 0 after a schema, database or table name,
19 as the FDE's event-header length, the ROWS_QUERY length byte, the `is_null` byte, an extra-data
length that counts its own two bytes, and length-encoded integers in the fewest bytes. A unit
variant's body is empty, and a NULL user variable ends after its `is_null` byte. For the
user-variable and execute-load-query events, the encoder's bytes also fit its own `len`. -/
def Canonical : EventData → List UInt8 → Prop
  | .unknownEvent, data | .stopEvent, data | .slaveEvent, data | .heartbeatEvent, data =>
      data = []
  | .queryEvent ev, data => data[13 + ev.statusVars.length + ev.schema.length]? = some 0
  | .userVarEvent ev, data =>
      data[4 + ev.name.length]? = some ev.nullByte ∧
        (ev.isNull → data.length = 4 + ev.name.length + 1) ∧ ev.toBytes.length ≤ u32Max - 19
  | .formatDescriptionEvent _, data => data[56]? = some 19
  | .executeLoadQueryEvent ev, data =>
      data[26 + ev.statusVars.length + ev.schema.length]? = some 0 ∧
        ev.statusVars.length ≤ 0xffff - 13
  | .tableMapEvent ev, data =>
      data[9 + ev.databaseName.length]? = some 0 ∧
        data[11 + ev.databaseName.length + ev.tableName.length]? = some 0 ∧
        lenencInt (UInt64.ofNat ev.columnsType.length) <+:
          data.drop (12 + ev.databaseName.length + ev.tableName.length) ∧
        lenencInt (UInt64.ofNat ev.columnsMetadata.length) <+:
          data.drop (12 + ev.databaseName.length + ev.tableName.length +
            lenencIntLen (UInt64.ofNat ev.columnsType.length) + ev.columnsType.length)
  | .rowsQueryEvent ev, data => data[0]? = some ev.lengthByte
  | .writeRowsEvent ev, data =>
      2 ≤ ofLE ((data.drop 8).take 2) ∧
        lenencInt ev.rows.numColumns <+: data.drop (10 + ev.rows.extraData.length)
  | .updateRowsEvent ev, data =>
      2 ≤ ofLE ((data.drop 8).take 2) ∧
        lenencInt ev.rows.numColumns <+: data.drop (10 + ev.rows.extraData.length)
  | .deleteRowsEvent ev, data =>
      2 ≤ ofLE ((data.drop 8).take 2) ∧
        lenencInt ev.rows.numColumns <+: data.drop (10 + ev.rows.extraData.length)
  | _, _ => True

end EventData

namespace Event

/-- Encoding what the type's decoder made of a whole body gives the body back, under an FDE of
the built-in post-header lengths, when the body holds the encoder's form; a user variable whose
body lacks the flags byte gains it, as 0. -/
theorem write_eventData {ev : Event}
    (hpost : ∀ t, ev.fde.getEventTypeHeaderLength t =
      UInt8.ofNat (FormatDescriptionEvent.defaultHeaderLength t))
    (hsize : ev.data.length ≤ u32Max - 19) {eventType : EventType} {d : EventData}
    (hd : ev.eventData eventType = .ok d) (hcanon : d.Canonical ev.data) (v : BinlogVersion) :
    Emits (d.write v) ev.data ∨
      ∃ u, d = .userVarEvent u ∧ u.isNull = false ∧ Emits (d.write v) (ev.data ++ [0]) := by
  cases eventType
  case queryEvent =>
    obtain ⟨x, hx, rfl⟩ := Outcome.map_eq_ok.mp hd
    obtain ⟨rest, hr⟩ := readEvent_eq_ok hx
    exact .inl (QueryEvent.write_of_read v hr (hpost _) hcanon hsize)
  case rotateEvent =>
    obtain ⟨x, hx, rfl⟩ := Outcome.map_eq_ok.mp hd
    obtain ⟨rest, hr⟩ := readEvent_eq_ok hx
    exact .inl (RotateEvent.write_of_read v hr hsize)
  case intvarEvent =>
    obtain ⟨x, hx, rfl⟩ := Outcome.map_eq_ok.mp hd
    obtain ⟨rest, hr⟩ := readEvent_eq_ok hx
    exact .inl (IntvarEvent.write_of_read v hr (hpost _))
  case randEvent =>
    obtain ⟨x, hx, rfl⟩ := Outcome.map_eq_ok.mp hd
    obtain ⟨rest, hr⟩ := readEvent_eq_ok hx
    exact .inl (RandEvent.write_of_read v hr)
  case userVarEvent =>
    obtain ⟨x, hx, rfl⟩ := Outcome.map_eq_ok.mp hd
    obtain ⟨rest, hr⟩ := readEvent_eq_ok hx
    exact (UserVarEvent.write_of_read v hr hcanon.1 hcanon.2.1 hcanon.2.2).imp id
      fun h => ⟨x, rfl, h⟩
  case formatDescriptionEvent =>
    obtain ⟨x, hx, hpure⟩ := Outcome.bind_eq_ok.mp hd
    cases hpure
    obtain ⟨rest, hr⟩ := readEvent_eq_ok hx
    have hw := FormatDescriptionEvent.write_of_read v hr hcanon hsize
    exact .inl hw
  case xidEvent =>
    obtain ⟨x, hx, rfl⟩ := Outcome.map_eq_ok.mp hd
    obtain ⟨rest, hr⟩ := readEvent_eq_ok hx
    exact .inl (XidEvent.write_of_read v hr (hpost _))
  case beginLoadQueryEvent =>
    obtain ⟨x, hx, rfl⟩ := Outcome.map_eq_ok.mp hd
    obtain ⟨rest, hr⟩ := readEvent_eq_ok hx
    exact .inl (BeginLoadQueryEvent.write_of_read v hr hsize)
  case executeLoadQueryEvent =>
    obtain ⟨x, hx, rfl⟩ := Outcome.map_eq_ok.mp hd
    obtain ⟨rest, hr⟩ := readEvent_eq_ok hx
    exact .inl (ExecuteLoadQueryEvent.write_of_read v hr hcanon.1 hcanon.2 hsize)
  case tableMapEvent =>
    obtain ⟨x, hx, rfl⟩ := Outcome.map_eq_ok.mp hd
    obtain ⟨rest, hr⟩ := readEvent_eq_ok hx
    exact .inl (TableMapEvent.write_of_read v hr (hpost _) hcanon.1 hcanon.2.1 hcanon.2.2.1
      hcanon.2.2.2 hsize)
  case incidentEvent =>
    obtain ⟨x, hx, rfl⟩ := Outcome.map_eq_ok.mp hd
    obtain ⟨rest, hr⟩ := readEvent_eq_ok hx
    exact .inl (IncidentEvent.write_of_read v hr)
  case rowsQueryEvent =>
    obtain ⟨x, hx, rfl⟩ := Outcome.map_eq_ok.mp hd
    obtain ⟨rest, hr⟩ := readEvent_eq_ok hx
    exact .inl (RowsQueryEvent.write_of_read v hr hcanon hsize)
  case writeRowsEvent =>
    obtain ⟨x, hx, rfl⟩ := Outcome.map_eq_ok.mp hd
    obtain ⟨rest, hr⟩ := readEvent_eq_ok hx
    exact .inl (WriteRowsEvent.write_of_read v hr (hpost _) (hpost _) hcanon.1 hcanon.2 hsize)
  case updateRowsEvent =>
    obtain ⟨x, hx, rfl⟩ := Outcome.map_eq_ok.mp hd
    obtain ⟨rest, hr⟩ := readEvent_eq_ok hx
    exact .inl (UpdateRowsEvent.write_of_read v hr (hpost _) (hpost _) hcanon.1 hcanon.2 hsize)
  case deleteRowsEvent =>
    obtain ⟨x, hx, rfl⟩ := Outcome.map_eq_ok.mp hd
    obtain ⟨rest, hr⟩ := readEvent_eq_ok hx
    exact .inl (DeleteRowsEvent.write_of_read v hr (hpost _) (hpost _) hcanon.1 hcanon.2 hsize)
  -- the unit variants, whose bodies are empty, and the bodies kept raw
  all_goals
    cases hd
    first
    | exact .inl (hcanon ▸ Emits.pure)
    | exact .inl (Emits.writeAll _)

/-- Re-encoding the payload `read_data` decodes gives back the data of the event it came from.
For an event `read` returned under an FDE of the built-in post-header lengths, whose type byte
`try_from` knows, `read_data` does not return `None`; and what it decodes from a body that holds
the encoder's form, `EventData::write` writes back byte for byte, but for the flags byte that a
user variable's body may lack. -/
theorem write_readData {fde : FormatDescriptionEvent}
    (hdefault : ∀ t, fde.getEventTypeHeaderLength t =
      UInt8.ofNat (FormatDescriptionEvent.defaultHeaderLength t))
    {eventSize : Nat} {bs rest : List UInt8} {ev : Event}
    (hread : (read eventSize fde).run bs = .ok (ev, rest))
    (htype : ev.header.eventType.toNat ≤ 0x23) (v : BinlogVersion) :
    ev.readData ≠ .ok none ∧
      ∀ d, ev.readData = .ok (some d) → d.Canonical ev.data →
        Emits (d.write v) ev.data ∨
          ∃ u, d = .userVarEvent u ∧ u.isNull = false ∧ Emits (d.write v) (ev.data ++ [0]) := by
  obtain ⟨t, ht⟩ := EventType.tryFrom_of_le htype
  rw [readData_of_tryFrom ht]
  refine ⟨fun h => ?_, fun d hd hcanon => ?_⟩
  · obtain ⟨d, -, hnone⟩ := Outcome.map_eq_ok.mp h
    cases hnone
  · obtain ⟨d', hd', hsome⟩ := Outcome.map_eq_ok.mp hd
    cases hsome
    exact write_eventData (fun t => (headerLength_of_read hread t).trans (hdefault t))
      (length_data_of_read hread) hd' hcanon v

/-- An XID event of 27 bytes, read before any FDE. -/
theorem write_readData_xid_event :
    (frame (FormatDescriptionEvent.new .version4) ⟨0, 0x10, 0, 27, 0, 0⟩
        [1, 0, 0, 0, 0, 0, 0, 0]).readData ≠ .ok none ∧
      ∀ d, (frame (FormatDescriptionEvent.new .version4) ⟨0, 0x10, 0, 27, 0, 0⟩
          [1, 0, 0, 0, 0, 0, 0, 0]).readData = .ok (some d) →
        d.Canonical [1, 0, 0, 0, 0, 0, 0, 0] →
        Emits (d.write .version4) [1, 0, 0, 0, 0, 0, 0, 0] ∨
          ∃ u, d = .userVarEvent u ∧ u.isNull = false ∧
            Emits (d.write .version4) ([1, 0, 0, 0, 0, 0, 0, 0] ++ [0]) :=
  @write_readData (FormatDescriptionEvent.new .version4)
    (FormatDescriptionEvent.getEventTypeHeaderLength_of_nil rfl) 0
    ((⟨0, 0x10, 0, 27, 0, 0⟩ : BinlogEventHeader).toBytes ++ [1, 0, 0, 0, 0, 0, 0, 0]) []
    _ (by decide) (by decide) .version4

/-- Why the encoder's form asks for length-encoded integers in the fewest bytes: a write rows
event whose column count stands in three bytes, `0xfc 1 0`, is decoded, and `write` puts the
count back in the single byte 1, 12 bytes for the 14 of the body. -/
example :
    (fun r : Event × List UInt8 => (r.1.data, r.2,
        (fun d => d.map fun d => (d.write .version4).toBytes) <$> r.1.readData)) <$>
      (read 0 (FormatDescriptionEvent.new .version4)).run
        ([0, 0, 0, 0, 0x1e, 0, 0, 0, 0, 33, 0, 0, 0, 0, 0, 0, 0, 0, 0] ++
          [1, 0, 0, 0, 0, 0, 0, 0, 2, 0, 0xfc, 1, 0, 0]) =
    .ok ([1, 0, 0, 0, 0, 0, 0, 0, 2, 0, 0xfc, 1, 0, 0], [],
      .ok (some (.ok [1, 0, 0, 0, 0, 0, 0, 0, 2, 0, 1, 0]))) := by
  decide

end Event

/-! ## Decoding what `write` encodes

The other direction: a payload `EventData::write` encodes comes back from `read_data`, when its
fields are in the form the decoder builds. `try_from` knows the type bytes up to `0x23` only, so
the last four variants, which `write` encodes, never come back. -/

namespace EventData

/-- The type whose arm of `read_data`'s match builds each variant (`UnknownEvent` is also built
for `ENUM_END_EVENT`, which `try_from` never returns). -/
def eventType : EventData → EventType
  | .unknownEvent => .unknownEvent
  | .startEventV3 _ => .startEventV3
  | .queryEvent _ => .queryEvent
  | .stopEvent => .stopEvent
  | .rotateEvent _ => .rotateEvent
  | .intvarEvent _ => .intvarEvent
  | .loadEvent _ => .loadEvent
  | .slaveEvent => .slaveEvent
  | .createFileEvent _ => .createFileEvent
  | .appendBlockEvent _ => .appendBlockEvent
  | .execLoadEvent _ => .execLoadEvent
  | .deleteFileEvent _ => .deleteFileEvent
  | .newLoadEvent _ => .newLoadEvent
  | .randEvent _ => .randEvent
  | .userVarEvent _ => .userVarEvent
  | .formatDescriptionEvent _ => .formatDescriptionEvent
  | .xidEvent _ => .xidEvent
  | .beginLoadQueryEvent _ => .beginLoadQueryEvent
  | .executeLoadQueryEvent _ => .executeLoadQueryEvent
  | .tableMapEvent _ => .tableMapEvent
  | .preGaWriteRowsEvent _ => .preGaWriteRowsEvent
  | .preGaUpdateRowsEvent _ => .preGaUpdateRowsEvent
  | .preGaDeleteRowsEvent _ => .preGaDeleteRowsEvent
  | .writeRowsEventV1 _ => .writeRowsEventV1
  | .updateRowsEventV1 _ => .updateRowsEventV1
  | .deleteRowsEventV1 _ => .deleteRowsEventV1
  | .incidentEvent _ => .incidentEvent
  | .heartbeatEvent => .heartbeatEvent
  | .ignorableEvent _ => .ignorableEvent
  | .rowsQueryEvent _ => .rowsQueryEvent
  | .writeRowsEvent _ => .writeRowsEvent
  | .updateRowsEvent _ => .updateRowsEvent
  | .deleteRowsEvent _ => .deleteRowsEvent
  | .gtidEvent _ => .gtidEvent
  | .anonymousGtidEvent _ => .anonymousGtidEvent
  | .previousGtidsEvent _ => .previousGtidsEvent
  | .transactionContextEvent _ => .transactionContextEvent
  | .viewChangeEvent _ => .viewChangeEvent
  | .xaPrepareLogEvent _ => .xaPrepareLogEvent
  | .partialUpdateRowsEvent _ => .partialUpdateRowsEvent

/-- What a payload needs for its type's decoder to give back what `write` encodes: the bounds
under which `write` writes each field whole, and the form the decoder builds where the encoder
takes more: a NULL user variable holding the defaults the decoder fills in, a null bitmask and
column images of one bit per column, and the column images the rows type places. The four
variants whose type byte `try_from` does not know never come back. -/
def ReadsBack : EventData → Prop
  | .queryEvent ev =>
      ev.statusVars.length ≤ 0xffff ∧ ev.schema.length ≤ 0xff ∧ ev.toBytes.length ≤ u32Max - 19
  | .rotateEvent ev => ev.toBytes.length ≤ u32Max - 19
  | .userVarEvent ev =>
      ev.toBytes.length ≤ u32Max - 19 ∧ (ev.isNull →
        ev.valueType = UserVarEvent.STRING_RESULT ∧ ev.charset = 63 ∧ ev.value = [] ∧ ev.flags = 0)
  | .formatDescriptionEvent fde => fde.toBytes.length ≤ u32Max - 19
  | .beginLoadQueryEvent ev => ev.toBytes.length ≤ u32Max - 19
  | .executeLoadQueryEvent ev =>
      ev.statusVars.length ≤ 0xffff - 13 ∧ ev.schema.length ≤ 0xff ∧
        ev.toBytes.length ≤ u32Max - 19
  | .tableMapEvent ev => ev.Writable ∧ ev.nullBitmask.len = ev.columnsType.length
  | .incidentEvent ev => ev.message.length ≤ 0xff
  | .rowsQueryEvent ev => ev.toBytes.length ≤ u32Max - 19
  | .writeRowsEvent ev =>
      ev.rows.Writable ∧ ev.rows.ImagesExact ∧ ev.rows.columnsBeforeImage = none ∧
        ev.rows.columnsAfterImage.isSome
  | .updateRowsEvent ev =>
      ev.rows.Writable ∧ ev.rows.ImagesExact ∧ ev.rows.columnsBeforeImage.isSome ∧
        ev.rows.columnsAfterImage.isSome
  | .deleteRowsEvent ev =>
      ev.rows.Writable ∧ ev.rows.ImagesExact ∧ ev.rows.columnsBeforeImage.isSome ∧
        ev.rows.columnsAfterImage = none
  | .transactionContextEvent _ | .viewChangeEvent _ | .xaPrepareLogEvent _
  | .partialUpdateRowsEvent _ => False
  | _ => True

/-- A payload that comes back has a type byte `try_from` knows. -/
theorem ReadsBack.toU8_le {d : EventData} (hd : d.ReadsBack) : d.eventType.toU8.toNat ≤ 0x23 := by
  cases d <;> first | exact Nat.le_of_ble_eq_true rfl | exact False.elim hd

end EventData

namespace Event

/-- The payload `event_data` builds is the variant of the type it is given, `ENUM_END_EVENT`
apart. -/
theorem eventType_eventData {ev : Event} {t : EventType} {d : EventData}
    (ht : t ≠ .enumEndEvent) (h : ev.eventData t = .ok d) : d.eventType = t := by
  cases t
  case formatDescriptionEvent =>
    obtain ⟨_, -, h⟩ := Outcome.bind_eq_ok.mp h
    cases h
    rfl
  case enumEndEvent => exact absurd rfl ht
  all_goals first
    | (obtain ⟨_, -, rfl⟩ := Outcome.map_eq_ok.mp h; rfl)
    | (cases h; rfl)

/-- What `read_data` returns is what the arm of its variant's type builds: a type byte
`try_from` knows is never `ENUM_END_EVENT`'s. -/
theorem eventData_of_readData {ev : Event} {d : EventData} (h : ev.readData = .ok (some d)) :
    ev.eventData d.eventType = .ok d := by
  unfold readData at h
  split at h
  · cases h
  · rename_i t ht
    obtain ⟨d', hd', hsome⟩ := Outcome.map_eq_ok.mp h
    cases hsome
    have hle := EventType.tryFrom_le ht
    rw [← EventType.tryFrom_eq_ok ht] at hle
    rwa [eventType_eventData (fun h => absurd (h ▸ hle) (by decide)) hd']

/-- A decoder that reads back what an encoder writes decodes an event whose data that encoder
wrote. -/
theorem readEvent_of_emits {α : Type} {ev : Event}
    {read : Nat → FormatDescriptionEvent → ReadM (List UInt8) α} {w : WriteM Unit}
    {bs : List UInt8} {a : α} (hw : Emits w bs) (hdata : Emits w ev.data)
    (h : (read (BinlogEventHeader.LEN + bs.length) ev.fde).run (bs ++ []) = .ok (a, [])) :
    ev.readEvent read = .ok a :=
  readEvent_of_bytes (hdata.eq hw) h

/-- The rows decoder of a type whose built-in post-header is a `ROWS_HEADER_LEN_V2` one reads
back what `write` writes, under an FDE of the built-in post-header lengths. -/
theorem readRows_of_emits {ev : Event}
    (hdefault : ∀ t, ev.fde.getEventTypeHeaderLength t =
      UInt8.ofNat (FormatDescriptionEvent.defaultHeaderLength t))
    {t : EventType} (ht : FormatDescriptionEvent.defaultHeaderLength t = 10) {r : RowsEvent}
    (hw : r.Writable)
    (hbefore : r.columnsBeforeImage.isSome =
      ((t == .updateRowsEvent || t == .updateRowsEventV1 || t == .partialUpdateRowsEvent) ||
        (t == .deleteRowsEvent || t == .deleteRowsEventV1)))
    (hafter : r.columnsAfterImage.isSome =
      ((t == .updateRowsEvent || t == .updateRowsEventV1 || t == .partialUpdateRowsEvent) ||
        !(t == .deleteRowsEvent || t == .deleteRowsEventV1)))
    (hbits : r.ImagesExact) (v : BinlogVersion) (hdata : Emits (r.write v) ev.data) :
    (RowsEvent.read t (BinlogEventHeader.LEN + ev.data.length) ev.fde ev.fde.versionOrV4).run
      ev.data = .ok (r, []) := by
  have hr := @RowsEvent.read_toBytes t ev.fde ev.fde.versionOrV4 r hw
    (by rw [hdefault, hdefault, ht]; rfl) (by rw [hdefault, ht]; rfl) hbefore hafter hbits []
  rwa [List.append_nil, ← hdata.eq (RowsEvent.write_emits v hw.tableId_lt hw.extraData_le
    hw.numColumns_le hw.imagesFit hw.toBytes_le).1] at hr

/-- Decoding what `EventData::write` encodes gives the payload back: an event under an FDE of
the built-in post-header lengths, whose type byte is the payload's and whose data is what
`write` writes for a payload that `ReadsBack`, is decoded by `read_data` into that payload (an
FDE payload keeps the footer of the event that carries it). -/
theorem readData_of_write {ev : Event}
    (hdefault : ∀ t, ev.fde.getEventTypeHeaderLength t =
      UInt8.ofNat (FormatDescriptionEvent.defaultHeaderLength t))
    {d : EventData} (hd : d.ReadsBack) (htype : ev.header.eventType = d.eventType.toU8)
    (hfooter : ∀ fde, d = .formatDescriptionEvent fde → fde.footer = ev.footer)
    (v : BinlogVersion) (hdata : Emits (d.write v) ev.data) : ev.readData = .ok (some d) := by
  have hkey : ev.eventData d.eventType = .ok d := by
    cases d
    case queryEvent q =>
      obtain ⟨hvars, hschema, hsize⟩ := hd
      exact congrArg (Functor.map EventData.queryEvent) (readEvent_of_emits
        (QueryEvent.write_emits v hvars hschema hsize).1 hdata
        (QueryEvent.read_bytesWith (by rw [hdefault]; rfl) (by omega) (by omega) 0 []))
    case rotateEvent r =>
      exact congrArg (Functor.map EventData.rotateEvent) (readEvent_of_emits
        (RotateEvent.write_emits v hd) hdata (RotateEvent.read_toBytes r ev.fde []))
    case intvarEvent i =>
      exact congrArg (Functor.map EventData.intvarEvent) (readEvent_of_emits
        (IntvarEvent.write_emits i v) hdata
        (IntvarEvent.read_bytesWith i (by rw [hdefault]; rfl) []))
    case randEvent r =>
      exact congrArg (Functor.map EventData.randEvent) (readEvent_of_emits
        (RandEvent.write_emits r v) hdata (RandEvent.read_toBytes r ev.fde []))
    case userVarEvent u =>
      obtain ⟨hsize, hnull⟩ := hd
      have hlt := UserVarEvent.lengths_lt_of_toBytes_le hsize fun hn => (hnull hn).2.2.1
      exact congrArg (Functor.map EventData.userVarEvent) (readEvent_of_emits
        (UserVarEvent.write_emits v hsize).1 hdata
        (UserVarEvent.read_toBytes hlt.1 hlt.2 hnull ev.fde []))
    case formatDescriptionEvent f =>
      have hr := readEvent_of_emits (FormatDescriptionEvent.write_emits v hd) hdata
        (FormatDescriptionEvent.read_bytesWith ev.fde f _ [])
      show (ev.readEvent FormatDescriptionEvent.read >>= fun fde => _) = _
      rw [hr, ← hfooter f rfl]
      rfl
    case xidEvent x =>
      exact congrArg (Functor.map EventData.xidEvent) (readEvent_of_emits
        (XidEvent.write_emits x v) hdata (XidEvent.read_bytesWith x (by rw [hdefault]; rfl) []))
    case beginLoadQueryEvent b =>
      exact congrArg (Functor.map EventData.beginLoadQueryEvent) (readEvent_of_emits
        (BeginLoadQueryEvent.write_emits v hd) hdata (BeginLoadQueryEvent.read_toBytes b ev.fde []))
    case executeLoadQueryEvent e =>
      obtain ⟨hvars, hschema, hsize⟩ := hd
      exact congrArg (Functor.map EventData.executeLoadQueryEvent) (readEvent_of_emits
        (ExecuteLoadQueryEvent.write_emits v hvars hschema hsize).1 hdata
        (ExecuteLoadQueryEvent.read_bytesWith ev.fde (by omega) (by omega) 0 []))
    case tableMapEvent t =>
      obtain ⟨hw, hbits⟩ := hd
      exact congrArg (Functor.map EventData.tableMapEvent) (readEvent_of_emits
        (TableMapEvent.write_emits v hw.tableId_lt hw.databaseName_le hw.tableName_le
          hw.nullBitmask_le hw.toBytes_le).1 hdata
        (TableMapEvent.read_toBytes hw (by rw [hdefault]; rfl) hbits []))
    case incidentEvent i =>
      have hmsg : i.message.length ≤ 0xff := hd
      exact congrArg (Functor.map EventData.incidentEvent) (readEvent_of_emits
        (IncidentEvent.write_emits v hmsg).1 hdata (IncidentEvent.read_toBytes (by omega) ev.fde []))
    case rowsQueryEvent r =>
      exact congrArg (Functor.map EventData.rowsQueryEvent) (readEvent_of_emits
        (RowsQueryEvent.write_emits v hd) hdata (RowsQueryEvent.read_bytesWith r _ ev.fde []))
    case writeRowsEvent w =>
      obtain ⟨hw, hbits, hbefore, hafter⟩ := hd
      have hr := @readRows_of_emits ev hdefault .writeRowsEvent rfl w.rows hw
        (by rw [hbefore]; rfl) (by rw [hafter]; rfl) hbits v hdata
      refine congrArg (Functor.map EventData.writeRowsEvent)
        (?_ : ev.readEvent WriteRowsEvent.read = .ok w)
      simp only [readEvent, WriteRowsEvent.read, StateT.run_map, hr]
      rfl
    case updateRowsEvent w =>
      obtain ⟨hw, hbits, hbefore, hafter⟩ := hd
      have hr := @readRows_of_emits ev hdefault .updateRowsEvent rfl w.rows hw
        (by rw [hbefore]; rfl) (by rw [hafter]; rfl) hbits v hdata
      refine congrArg (Functor.map EventData.updateRowsEvent)
        (?_ : ev.readEvent UpdateRowsEvent.read = .ok w)
      simp only [readEvent, UpdateRowsEvent.read, StateT.run_map, hr]
      rfl
    case deleteRowsEvent w =>
      obtain ⟨hw, hbits, hbefore, hafter⟩ := hd
      have hr := @readRows_of_emits ev hdefault .deleteRowsEvent rfl w.rows hw
        (by rw [hbefore]; rfl) (by rw [hafter]; rfl) hbits v hdata
      refine congrArg (Functor.map EventData.deleteRowsEvent)
        (?_ : ev.readEvent DeleteRowsEvent.read = .ok w)
      simp only [readEvent, DeleteRowsEvent.read, StateT.run_map, hr]
      rfl
    -- the unit variants, and the bodies kept raw
    all_goals first
      | rfl
      | (obtain rfl := (Emits.writeAll _).eq hdata; rfl)
  rw [readData_of_tryFrom (by rw [htype]; exact EventType.tryFrom_toU8 hd.toU8_le), hkey]
  rfl

/-- A write rows event of one column, with its after image and a one-byte row, written and
decoded back under the FDE a reader starts with. -/
theorem readData_of_write_rows_event :
    let rows : RowsEvent := ⟨1, 0, [], 1, none, some ⟨[1], 1, rfl⟩, [0xaa]⟩
    let ev : Event := ⟨FormatDescriptionEvent.new .version4, ⟨0, 0x1e, 0, 32, 0, 0⟩,
      rows.toBytes, BinlogEventFooter.default, [0, 0, 0, 0], rfl⟩
    (EventData.writeRowsEvent ⟨rows⟩).ReadsBack ∧
      Emits ((EventData.writeRowsEvent ⟨rows⟩).write .version4) ev.data ∧
      ev.readData = .ok (some (.writeRowsEvent ⟨rows⟩)) := by
  intro rows ev
  have himages : rows.ImagesExact := fun b hb => by
    simp only [rows, reduceCtorEq, Option.some.injEq, false_or] at hb
    subst hb
    rfl
  have hw : rows.Writable :=
    ⟨by decide, by decide, by decide, fun b hb => by rw [himages b hb], by decide⟩
  have hd : (EventData.writeRowsEvent ⟨rows⟩).ReadsBack := ⟨hw, himages, rfl, rfl⟩
  have hdata := (RowsEvent.write_emits .version4 hw.tableId_lt hw.extraData_le hw.numColumns_le
    hw.imagesFit hw.toBytes_le).1
  exact ⟨hd, hdata, readData_of_write (FormatDescriptionEvent.getEventTypeHeaderLength_of_nil rfl)
    hd rfl (fun _ h => by cases h) .version4 hdata⟩

/-! ## Where re-encoding what `read_data` decodes loses the data -/

/-- Three ways `EventData::write` does not give back the data of the event `read_data`
decoded. The four types the enum declares from `TRANSACTION_CONTEXT_EVENT` (0x24) to
`PARTIAL_UPDATE_ROWS_EVENT` (0x27) each have an arm in `read_data`'s match that builds their
variant, but `try_from` stops at 0x23, so their events decode to `None`. A NULL user variable
ends the decode after its `is_null` byte, so its re-encoding drops whatever the body holds after
that byte. An execute-load-query event of more than `u16::MAX - 13` bytes of status variables
is decoded, but its `write` overruns the budget its own `len` sets, and fails. -/
theorem readData_write_mismatch :
    (∀ (ev : Event) (t : EventType), t ∈ [.transactionContextEvent, .viewChangeEvent,
        .xaPrepareLogEvent, .partialUpdateRowsEvent] → ev.header.eventType = t.toU8 →
      ev.readData = .ok none ∧ ∃ d, ev.eventData t = .ok d ∧ d.eventType = t) ∧
    (∀ (ev : Event) (u : UserVarEvent), ev.readData = .ok (some (.userVarEvent u)) →
      u.isNull = true → ev.data.length ≤ u32Max - 19 → ∀ v,
        Emits ((EventData.userVarEvent u).write v) (ev.data.take (4 + u.name.length) ++ [1]) ∧
          (4 + u.name.length + 1 < ev.data.length →
            ¬ Emits ((EventData.userVarEvent u).write v) ev.data)) ∧
    (∀ (ev : Event) (e : ExecuteLoadQueryEvent),
      ev.header.eventType = EventType.executeLoadQueryEvent.toU8 → ev.data = e.toBytes →
      0xffff - 13 < e.statusVars.length → e.statusVars.length ≤ 0xffff →
      e.schema.length ≤ 0xff →
      ev.readData = .ok (some (.executeLoadQueryEvent e)) ∧
        ∀ v s, ((EventData.executeLoadQueryEvent e).write v).run s = .err writeZeroError) := by
  refine ⟨fun ev t ht htype => ?unknownType, fun ev u hd hn hsize v => ?nullVar,
    fun ev e htype hdata hcap hvars hschema => ?longStatusVars⟩
  case unknownType =>
    simp only [List.mem_cons, List.mem_singleton, List.not_mem_nil, or_false] at ht
    rcases ht with rfl | rfl | rfl | rfl <;> exact ⟨by rw [readData, htype]; rfl, _, rfl, rfl⟩
  case nullVar =>
    obtain ⟨u', hu, hinj⟩ := Outcome.map_eq_ok.mp (eventData_of_readData hd)
    cases hinj
    obtain ⟨rest, hr⟩ := readEvent_eq_ok hu
    have hw := UserVarEvent.write_of_read_null v hr hn hsize
    refine ⟨hw, fun hlong h => ?_⟩
    have hlen := congrArg List.length (hw.eq h)
    simp only [List.length_append, List.length_take, List.length_singleton] at hlen
    omega
  case longStatusVars =>
    have ht : EventType.tryFrom ev.header.eventType = .ok .executeLoadQueryEvent := by
      rw [htype]; rfl
    have he : ev.readEvent ExecuteLoadQueryEvent.read = .ok e := readEvent_of_bytes hdata
      (ExecuteLoadQueryEvent.read_bytesWith ev.fde (by omega) (by omega) 0 [])
    refine ⟨?_, fun v s => Emits.limitWrite_over
      (ExecuteLoadQueryEvent.writeFields_emits hvars hschema)
      (ExecuteLoadQueryEvent.len_lt_bytesWith v hcap hschema) s⟩
    rw [readData_of_tryFrom ht]
    exact congrArg (Functor.map some) (congrArg (Functor.map EventData.executeLoadQueryEvent) he)

/-- An execute-load-query event of 65530 bytes of status variables and an empty schema and
query. -/
def longStatusVars : ExecuteLoadQueryEvent := ⟨0, 0, 0, List.replicate 65530 0, [], [], 0, 0, 0, 0⟩

/-- The event of `longStatusVars`, of type byte 0x12, under the FDE a reader starts with. -/
def longStatusVarsEvent : Event :=
  ⟨FormatDescriptionEvent.new .version4, ⟨0, 0x12, 0, 65576, 0, 0⟩, longStatusVars.toBytes,
    BinlogEventFooter.default, [0, 0, 0, 0], rfl⟩

/-- The 21-byte event of type 0x24 and body `[1, 2]`, read before any FDE; a NULL variable
named by no bytes, followed by one stray byte; and `longStatusVarsEvent`. -/
theorem readData_write_mismatch_transaction_context :
    ((read 0 (FormatDescriptionEvent.new .version4)).run
        ((⟨0, 0x24, 0, 21, 0, 0⟩ : BinlogEventHeader).toBytes ++ [1, 2]) =
      .ok (frame (FormatDescriptionEvent.new .version4) ⟨0, 0x24, 0, 21, 0, 0⟩ [1, 2], []) ∧
      (frame (FormatDescriptionEvent.new .version4) ⟨0, 0x24, 0, 21, 0, 0⟩ [1, 2]).readData =
        .ok none ∧
      ∃ d, (frame (FormatDescriptionEvent.new .version4) ⟨0, 0x24, 0, 21, 0, 0⟩ [1, 2]).eventData
        .transactionContextEvent = .ok d ∧ d.eventType = .transactionContextEvent) ∧
    (∀ v, Emits ((EventData.userVarEvent ⟨[], true, UserVarEvent.STRING_RESULT, 63, [], 0⟩).write
        v) [0, 0, 0, 0, 1] ∧
      ¬ Emits ((EventData.userVarEvent ⟨[], true, UserVarEvent.STRING_RESULT, 63, [], 0⟩).write
        v) [0, 0, 0, 0, 1, 0xaa]) ∧
    (longStatusVarsEvent.readData = .ok (some (.executeLoadQueryEvent longStatusVars)) ∧
      ∀ v s, ((EventData.executeLoadQueryEvent longStatusVars).write v).run s =
        .err writeZeroError) :=
  have hlen : longStatusVars.statusVars.length = 65530 := List.length_replicate _ _
  ⟨⟨by decide, readData_write_mismatch.1 _ _ (List.mem_cons_self _ _) rfl⟩,
    fun v => readData_write_mismatch.2.1
      (frame (FormatDescriptionEvent.new .version4) ⟨0, 0x0e, 0, 25, 0, 0⟩ [0, 0, 0, 0, 1, 0xaa])
      _ rfl rfl (by decide) v |>.imp id fun h => h (by decide),
    readData_write_mismatch.2.2 longStatusVarsEvent longStatusVars rfl rfl (by rw [hlen]; decide)
      (by rw [hlen]; decide) (by decide)⟩

end Event

end BinlogCodec
