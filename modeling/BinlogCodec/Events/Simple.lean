import BinlogCodec.FormatDescription

namespace BinlogCodec

/-! The payloads of fixed layout. Each decoder reads its fields behind
`input.limit(event_size - 19)`; each encoder but those of `RandEvent`, `XidEvent` and
`IntvarEvent` writes them behind a budget of `len`. For each payload, `toBytes` is the layout
the encoder writes and `read_eq_ok` says what a successful decode consumed. -/

/-- The last event of a binlog: the name of the next one and where to start in it. -/
structure RotateEvent where
  position : UInt64
  name : List UInt8
  deriving DecidableEq

namespace RotateEvent

def read (eventSize : Nat) (fde : FormatDescriptionEvent) : ReadM (List UInt8) RotateEvent :=
  let version := fde.versionOrV4
  limitRead (eventSize - BinlogEventHeader.len version) do
    let position ← readU64
    let name ← readRemaining
    pure { position, name }

def len (ev : RotateEvent) (_version : BinlogVersion) : Nat :=
  clampLen (8 + ev.name.length)

def write (ev : RotateEvent) (version : BinlogVersion) : WriteM Unit :=
  limitWrite (ev.len version) do
    writeU64 ev.position
    writeAll ev.name

def toBytes (ev : RotateEvent) : List UInt8 :=
  toLE 8 ev.position.toNat ++ ev.name

@[simp] theorem length_toBytes (ev : RotateEvent) : ev.toBytes.length = 8 + ev.name.length := by
  simp only [toBytes, List.length_append, length_toLE]

theorem len_eq {ev : RotateEvent} (v : BinlogVersion) (h : ev.toBytes.length ≤ u32Max - 19) :
    ev.len v = ev.toBytes.length := by
  rw [length_toBytes] at h ⊢
  exact clampLen_of_le h

theorem write_emits {ev : RotateEvent} (v : BinlogVersion) (h : ev.toBytes.length ≤ u32Max - 19) :
    Emits (ev.write v) ev.toBytes :=
  Emits.limitWrite ((Emits.writeU64 _).bind (Emits.writeAll _)) (len_eq v h).ge

/-- A decoded rotate event consumed its whole budget: the position and the name. -/
theorem read_eq_ok {eventSize : Nat} {fde : FormatDescriptionEvent} {bs rest : List UInt8}
    {ev : RotateEvent} (h : (read eventSize fde).run bs = .ok (ev, rest)) :
    bs = ev.toBytes ++ rest ∧ ev.toBytes.length = eventSize - BinlogEventHeader.LEN := by
  obtain ⟨c, hrun, rfl⟩ := limitRead_eq_ok.mp h
  simp only [StateT.run_bind, Outcome.bind_eq_ok, Prod.exists] at hrun
  obtain ⟨position, c₁, h₁, name, c₂, h₂, hpure⟩ := hrun
  cases hpure
  have hadv := (readU64_limited_eq_ok h₁).trans (readRemaining_eq_ok h₂).1
  exact ⟨hadv.1, hadv.length_eq (readRemaining_eq_ok h₂).2⟩

/-- Encoding the decode of a whole body gives the body back. -/
theorem write_of_read {fde : FormatDescriptionEvent} {data rest : List UInt8} {ev : RotateEvent}
    (v : BinlogVersion)
    (h : (read (BinlogEventHeader.LEN + data.length) fde).run data = .ok (ev, rest))
    (hsize : data.length ≤ u32Max - 19) : Emits (ev.write v) data := by
  obtain ⟨hdata, hlen⟩ := read_eq_ok h
  obtain ⟨rfl, -⟩ := eq_of_consumed hdata hlen
  exact write_emits v hsize

/-- Decoding what the encoder writes gives the event back, and leaves what follows the body on
the stream. -/
theorem read_toBytes (ev : RotateEvent) (fde : FormatDescriptionEvent) (rest : List UInt8) :
    (read (BinlogEventHeader.LEN + ev.toBytes.length) fde).run (ev.toBytes ++ rest) =
      .ok (ev, rest) := by
  rw [read, BinlogEventHeader.add_sub_len]
  exact ParsesAll.limitRead
    (ParsesAll.bind (Parses.readU64 _) ((ParsesAll.readRemaining _).bind_pure _)) rest

end RotateEvent

/-- The first event of a `LOAD DATA INFILE`: a file id and the first block of the file. -/
structure BeginLoadQueryEvent where
  fileId : UInt32
  blockData : List UInt8
  deriving DecidableEq

namespace BeginLoadQueryEvent

def read (eventSize : Nat) (fde : FormatDescriptionEvent) :
    ReadM (List UInt8) BeginLoadQueryEvent :=
  let version := fde.versionOrV4
  limitRead (eventSize - BinlogEventHeader.len version) do
    let fileId ← readU32
    let blockData ← readRemaining
    pure { fileId, blockData }

def len (ev : BeginLoadQueryEvent) (_version : BinlogVersion) : Nat :=
  clampLen (4 + ev.blockData.length)

def write (ev : BeginLoadQueryEvent) (version : BinlogVersion) : WriteM Unit :=
  limitWrite (ev.len version) do
    writeU32 ev.fileId
    writeAll ev.blockData

def toBytes (ev : BeginLoadQueryEvent) : List UInt8 :=
  toLE 4 ev.fileId.toNat ++ ev.blockData

@[simp] theorem length_toBytes (ev : BeginLoadQueryEvent) :
    ev.toBytes.length = 4 + ev.blockData.length := by
  simp only [toBytes, List.length_append, length_toLE]

theorem len_eq {ev : BeginLoadQueryEvent} (v : BinlogVersion)
    (h : ev.toBytes.length ≤ u32Max - 19) : ev.len v = ev.toBytes.length := by
  rw [length_toBytes] at h ⊢
  exact clampLen_of_le h

theorem write_emits {ev : BeginLoadQueryEvent} (v : BinlogVersion)
    (h : ev.toBytes.length ≤ u32Max - 19) : Emits (ev.write v) ev.toBytes :=
  Emits.limitWrite ((Emits.writeU32 _).bind (Emits.writeAll _)) (len_eq v h).ge

theorem read_eq_ok {eventSize : Nat} {fde : FormatDescriptionEvent} {bs rest : List UInt8}
    {ev : BeginLoadQueryEvent} (h : (read eventSize fde).run bs = .ok (ev, rest)) :
    bs = ev.toBytes ++ rest ∧ ev.toBytes.length = eventSize - BinlogEventHeader.LEN := by
  obtain ⟨c, hrun, rfl⟩ := limitRead_eq_ok.mp h
  simp only [StateT.run_bind, Outcome.bind_eq_ok, Prod.exists] at hrun
  obtain ⟨fileId, c₁, h₁, blockData, c₂, h₂, hpure⟩ := hrun
  cases hpure
  have hadv := (readU32_limited_eq_ok h₁).trans (readRemaining_eq_ok h₂).1
  exact ⟨hadv.1, hadv.length_eq (readRemaining_eq_ok h₂).2⟩

/-- Encoding the decode of a whole body gives the body back. -/
theorem write_of_read {fde : FormatDescriptionEvent} {data rest : List UInt8} {ev : BeginLoadQueryEvent}
    (v : BinlogVersion)
    (h : (read (BinlogEventHeader.LEN + data.length) fde).run data = .ok (ev, rest))
    (hsize : data.length ≤ u32Max - 19) : Emits (ev.write v) data := by
  obtain ⟨hdata, hlen⟩ := read_eq_ok h
  obtain ⟨rfl, -⟩ := eq_of_consumed hdata hlen
  exact write_emits v hsize

/-- Decoding what the encoder writes gives the event back. -/
theorem read_toBytes (ev : BeginLoadQueryEvent) (fde : FormatDescriptionEvent)
    (rest : List UInt8) :
    (read (BinlogEventHeader.LEN + ev.toBytes.length) fde).run (ev.toBytes ++ rest) =
      .ok (ev, rest) := by
  rw [read, BinlogEventHeader.add_sub_len]
  exact ParsesAll.limitRead
    (ParsesAll.bind (Parses.readU32 _) ((ParsesAll.readRemaining _).bind_pure _)) rest

end BeginLoadQueryEvent

/-- The statement behind the row events that follow it. -/
structure RowsQueryEvent where
  query : List UInt8
  deriving DecidableEq

namespace RowsQueryEvent

def read (eventSize : Nat) (fde : FormatDescriptionEvent) : ReadM (List UInt8) RowsQueryEvent :=
  let version := fde.versionOrV4
  limitRead (eventSize - BinlogEventHeader.len version) do
    let _ ← readU8
    let query ← readRemaining
    pure { query }

def len (ev : RowsQueryEvent) (_version : BinlogVersion) : Nat :=
  clampLen (1 + ev.query.length)

def write (ev : RowsQueryEvent) (version : BinlogVersion) : WriteM Unit :=
  limitWrite (ev.len version) do
    writeU8 (UInt8.ofNat (min ev.query.length 0xff))
    writeAll ev.query

/-- The bytes of a rows-query event whose length byte is `lengthByte`, which the decoder
ignores. -/
def bytesWith (ev : RowsQueryEvent) (lengthByte : UInt8) : List UInt8 :=
  lengthByte :: ev.query

/-- The length byte the encoder writes: the query's length, saturated at 255. -/
def lengthByte (ev : RowsQueryEvent) : UInt8 :=
  UInt8.ofNat (min ev.query.length 0xff)

/-- The bytes the encoder writes. -/
def toBytes (ev : RowsQueryEvent) : List UInt8 := ev.bytesWith ev.lengthByte

@[simp] theorem length_bytesWith (ev : RowsQueryEvent) (b : UInt8) :
    (ev.bytesWith b).length = 1 + ev.query.length := by
  simp [bytesWith, Nat.add_comm]

theorem len_eq {ev : RowsQueryEvent} (v : BinlogVersion) (b : UInt8)
    (h : (ev.bytesWith b).length ≤ u32Max - 19) : ev.len v = (ev.bytesWith b).length := by
  rw [length_bytesWith] at h ⊢
  exact clampLen_of_le h

theorem write_emits {ev : RowsQueryEvent} (v : BinlogVersion)
    (h : (ev.bytesWith ev.lengthByte).length ≤ u32Max - 19) :
    Emits (ev.write v) (ev.bytesWith ev.lengthByte) :=
  Emits.limitWrite ((Emits.writeU8 _).bind (Emits.writeAll _)) (len_eq v _ h).ge

theorem read_eq_ok {eventSize : Nat} {fde : FormatDescriptionEvent} {bs rest : List UInt8}
    {ev : RowsQueryEvent} (h : (read eventSize fde).run bs = .ok (ev, rest)) :
    ∃ b, bs = ev.bytesWith b ++ rest ∧ (ev.bytesWith b).length = eventSize - BinlogEventHeader.LEN := by
  obtain ⟨c, hrun, rfl⟩ := limitRead_eq_ok.mp h
  simp only [StateT.run_bind, Outcome.bind_eq_ok, Prod.exists] at hrun
  obtain ⟨b, c₁, h₁, query, c₂, h₂, hpure⟩ := hrun
  cases hpure
  have hadv := (readU8_limited_eq_ok h₁).trans (readRemaining_eq_ok h₂).1
  exact ⟨b, hadv.1, hadv.length_eq (readRemaining_eq_ok h₂).2⟩

/-- Encoding the decode of a whole body gives the body back, when its length byte is the one
the encoder writes. -/
theorem write_of_read {fde : FormatDescriptionEvent} {data rest : List UInt8} {ev : RowsQueryEvent}
    (v : BinlogVersion)
    (h : (read (BinlogEventHeader.LEN + data.length) fde).run data = .ok (ev, rest))
    (hlength : data[0]? = some ev.lengthByte) (hsize : data.length ≤ u32Max - 19) :
    Emits (ev.write v) data := by
  obtain ⟨b, hdata, hlen⟩ := read_eq_ok h
  obtain ⟨rfl, -⟩ := eq_of_consumed hdata hlen
  obtain rfl : b = ev.lengthByte := by simpa [bytesWith] using hlength
  exact write_emits v hsize

/-- The decoder reads the query back whatever the length byte, so also from what the encoder
writes. -/
theorem read_bytesWith (ev : RowsQueryEvent) (b : UInt8) (fde : FormatDescriptionEvent)
    (rest : List UInt8) :
    (read (BinlogEventHeader.LEN + (ev.bytesWith b).length) fde).run (ev.bytesWith b ++ rest) =
      .ok (ev, rest) := by
  rw [read, BinlogEventHeader.add_sub_len]
  exact ParsesAll.limitRead
    (ParsesAll.bind (Parses.readU8 _) ((ParsesAll.readRemaining _).bind_pure _)) rest

end RowsQueryEvent

/-- The two seeds of `RAND()` for the statement that follows. -/
structure RandEvent where
  seed1 : UInt64
  seed2 : UInt64
  deriving DecidableEq

namespace RandEvent

def read (eventSize : Nat) (fde : FormatDescriptionEvent) : ReadM (List UInt8) RandEvent :=
  let version := fde.versionOrV4
  limitRead (eventSize - BinlogEventHeader.len version) do
    let seed1 ← readU64
    let seed2 ← readU64
    checkNoRemaining
    pure { seed1, seed2 }

def write (ev : RandEvent) (_version : BinlogVersion) : WriteM Unit := do
  writeU64 ev.seed1
  writeU64 ev.seed2

def len (_ev : RandEvent) (_version : BinlogVersion) : Nat := 8

def toBytes (ev : RandEvent) : List UInt8 :=
  toLE 8 ev.seed1.toNat ++ toLE 8 ev.seed2.toNat

@[simp] theorem length_toBytes (ev : RandEvent) : ev.toBytes.length = 16 := by
  simp [toBytes]

theorem write_emits (ev : RandEvent) (v : BinlogVersion) : Emits (ev.write v) ev.toBytes :=
  (Emits.writeU64 _).bind (Emits.writeU64 _)

theorem read_eq_ok {eventSize : Nat} {fde : FormatDescriptionEvent} {bs rest : List UInt8}
    {ev : RandEvent} (h : (read eventSize fde).run bs = .ok (ev, rest)) :
    bs = ev.toBytes ++ rest ∧ ev.toBytes.length = eventSize - BinlogEventHeader.LEN := by
  obtain ⟨c, hrun, rfl⟩ := limitRead_eq_ok.mp h
  simp only [StateT.run_bind, Outcome.bind_eq_ok, Prod.exists] at hrun
  obtain ⟨seed1, c₁, h₁, seed2, c₂, h₂, u, c₃, h₃, hpure⟩ := hrun
  cases hpure
  obtain ⟨rfl, hzero⟩ := checkNoRemaining_eq_ok h₃
  have hadv := (readU64_limited_eq_ok h₁).trans (readU64_limited_eq_ok h₂)
  exact ⟨hadv.1, hadv.length_eq hzero⟩

/-- Encoding the decode of a whole body gives the body back. -/
theorem write_of_read {fde : FormatDescriptionEvent} {data rest : List UInt8} {ev : RandEvent}
    (v : BinlogVersion)
    (h : (read (BinlogEventHeader.LEN + data.length) fde).run data = .ok (ev, rest)) :
    Emits (ev.write v) data := by
  obtain ⟨hdata, hlen⟩ := read_eq_ok h
  obtain ⟨rfl, -⟩ := eq_of_consumed hdata hlen
  exact write_emits ev v

/-- Decoding the two seeds the encoder writes gives the event back. -/
theorem read_toBytes (ev : RandEvent) (fde : FormatDescriptionEvent) (rest : List UInt8) :
    (read (BinlogEventHeader.LEN + ev.toBytes.length) fde).run (ev.toBytes ++ rest) =
      .ok (ev, rest) := by
  rw [read, BinlogEventHeader.add_sub_len]
  exact ParsesAll.limitRead
    (ParsesAll.bind (Parses.readU64 _) (ParsesAll.checked _ (Parses.readU64 _))) rest

end RandEvent

/-- The commit of a transaction, with its XA id. -/
structure XidEvent where
  xid : UInt64
  deriving DecidableEq

namespace XidEvent

def read (eventSize : Nat) (fde : FormatDescriptionEvent) : ReadM (List UInt8) XidEvent :=
  let version := fde.versionOrV4
  limitRead (eventSize - BinlogEventHeader.len version) do
    let postHeaderLen := fde.getEventTypeHeaderLength .xidEvent
    skipBytes postHeaderLen.toNat
    let xid ← readU64
    checkNoRemaining
    pure { xid }

def write (ev : XidEvent) (_version : BinlogVersion) : WriteM Unit :=
  writeU64 ev.xid

def len (_ev : XidEvent) (_version : BinlogVersion) : Nat := 8

/-- The bytes of an XID event after `skipped`, the post-header the decoder skips. -/
def bytesWith (ev : XidEvent) (skipped : List UInt8) : List UInt8 :=
  skipped ++ toLE 8 ev.xid.toNat

@[simp] theorem length_bytesWith (ev : XidEvent) (skipped : List UInt8) :
    (ev.bytesWith skipped).length = skipped.length + 8 := by
  simp [bytesWith]

theorem write_emits (ev : XidEvent) (v : BinlogVersion) : Emits (ev.write v) (ev.bytesWith []) :=
  Emits.writeU64 _

theorem read_eq_ok {eventSize : Nat} {fde : FormatDescriptionEvent} {bs rest : List UInt8}
    {ev : XidEvent} (h : (read eventSize fde).run bs = .ok (ev, rest)) :
    ∃ skipped, skipped.length = (fde.getEventTypeHeaderLength .xidEvent).toNat ∧
      bs = ev.bytesWith skipped ++ rest ∧
      (ev.bytesWith skipped).length = eventSize - BinlogEventHeader.LEN := by
  obtain ⟨c, hrun, rfl⟩ := limitRead_eq_ok.mp h
  simp only [StateT.run_bind, Outcome.bind_eq_ok, Prod.exists] at hrun
  obtain ⟨u, c₁, h₁, xid, c₂, h₂, u', c₃, h₃, hpure⟩ := hrun
  cases hpure
  obtain ⟨rfl, hzero⟩ := checkNoRemaining_eq_ok h₃
  obtain ⟨skipped, hskip, hlen⟩ := skipBytes_limited_eq_ok h₁
  have hadv := hskip.trans (readU64_limited_eq_ok h₂)
  exact ⟨skipped, hlen, hadv.1, hadv.length_eq hzero⟩

/-- Encoding the decode of a whole body gives the body back, when the FDE gives the event no
post-header to skip. -/
theorem write_of_read {fde : FormatDescriptionEvent} {data rest : List UInt8} {ev : XidEvent}
    (v : BinlogVersion)
    (h : (read (BinlogEventHeader.LEN + data.length) fde).run data = .ok (ev, rest))
    (hpost : fde.getEventTypeHeaderLength .xidEvent = 0) : Emits (ev.write v) data := by
  obtain ⟨skipped, hskip, hdata, hlen⟩ := read_eq_ok h
  obtain rfl : skipped = [] := List.eq_nil_of_length_eq_zero (by rw [hskip, hpost]; rfl)
  obtain ⟨rfl, -⟩ := eq_of_consumed hdata hlen
  exact write_emits ev v

/-- The decoder reads the XID back after a post-header of the length the FDE gives; the
encoder's bytes are those after no post-header. -/
theorem read_bytesWith (ev : XidEvent) {fde : FormatDescriptionEvent} {skipped : List UInt8}
    (hskip : skipped.length = (fde.getEventTypeHeaderLength .xidEvent).toNat)
    (rest : List UInt8) :
    (read (BinlogEventHeader.LEN + (ev.bytesWith skipped).length) fde).run
      (ev.bytesWith skipped ++ rest) = .ok (ev, rest) := by
  rw [read, BinlogEventHeader.add_sub_len]
  refine ParsesAll.limitRead ?_ rest
  dsimp only
  rw [← hskip]
  exact ParsesAll.bind (Parses.skipBytes _) (ParsesAll.checked _ (Parses.readU64 _))

end XidEvent

/-- An integer session variable (`LAST_INSERT_ID` or `INSERT_ID`) for the next statement. -/
structure IntvarEvent where
  subtype : UInt8
  value : UInt64
  deriving DecidableEq

namespace IntvarEvent

def read (eventSize : Nat) (fde : FormatDescriptionEvent) : ReadM (List UInt8) IntvarEvent :=
  let version := fde.versionOrV4
  limitRead (eventSize - BinlogEventHeader.len version) do
    let postHeaderLen := fde.getEventTypeHeaderLength .intvarEvent
    skipBytes postHeaderLen.toNat
    let subtype ← readU8
    let value ← readU64
    checkNoRemaining
    pure { subtype, value }

def write (ev : IntvarEvent) (_version : BinlogVersion) : WriteM Unit := do
  writeU8 ev.subtype
  writeU64 ev.value

def len (_ev : IntvarEvent) (_version : BinlogVersion) : Nat := 9

/-- The bytes of an intvar event after `skipped`, the post-header the decoder skips. -/
def bytesWith (ev : IntvarEvent) (skipped : List UInt8) : List UInt8 :=
  skipped ++ [ev.subtype] ++ toLE 8 ev.value.toNat

@[simp] theorem length_bytesWith (ev : IntvarEvent) (skipped : List UInt8) :
    (ev.bytesWith skipped).length = skipped.length + 9 := by
  simp [bytesWith]

theorem write_emits (ev : IntvarEvent) (v : BinlogVersion) :
    Emits (ev.write v) (ev.bytesWith []) :=
  (Emits.writeU8 _).bind (Emits.writeU64 _)

theorem read_eq_ok {eventSize : Nat} {fde : FormatDescriptionEvent} {bs rest : List UInt8}
    {ev : IntvarEvent} (h : (read eventSize fde).run bs = .ok (ev, rest)) :
    ∃ skipped, skipped.length = (fde.getEventTypeHeaderLength .intvarEvent).toNat ∧
      bs = ev.bytesWith skipped ++ rest ∧
      (ev.bytesWith skipped).length = eventSize - BinlogEventHeader.LEN := by
  obtain ⟨c, hrun, rfl⟩ := limitRead_eq_ok.mp h
  simp only [StateT.run_bind, Outcome.bind_eq_ok, Prod.exists] at hrun
  obtain ⟨u, c₁, h₁, subtype, c₂, h₂, value, c₃, h₃, u', c₄, h₄, hpure⟩ := hrun
  cases hpure
  obtain ⟨rfl, hzero⟩ := checkNoRemaining_eq_ok h₄
  obtain ⟨skipped, hskip, hlen⟩ := skipBytes_limited_eq_ok h₁
  have hadv := (hskip.trans (readU8_limited_eq_ok h₂)).trans (readU64_limited_eq_ok h₃)
  exact ⟨skipped, hlen, hadv.1, hadv.length_eq hzero⟩

/-- Encoding the decode of a whole body gives the body back, when the FDE gives the event no
post-header to skip. -/
theorem write_of_read {fde : FormatDescriptionEvent} {data rest : List UInt8} {ev : IntvarEvent}
    (v : BinlogVersion)
    (h : (read (BinlogEventHeader.LEN + data.length) fde).run data = .ok (ev, rest))
    (hpost : fde.getEventTypeHeaderLength .intvarEvent = 0) : Emits (ev.write v) data := by
  obtain ⟨skipped, hskip, hdata, hlen⟩ := read_eq_ok h
  obtain rfl : skipped = [] := List.eq_nil_of_length_eq_zero (by rw [hskip, hpost]; rfl)
  obtain ⟨rfl, -⟩ := eq_of_consumed hdata hlen
  exact write_emits ev v

/-- The decoder reads the variable back after a post-header of the length the FDE gives. -/
theorem read_bytesWith (ev : IntvarEvent) {fde : FormatDescriptionEvent} {skipped : List UInt8}
    (hskip : skipped.length = (fde.getEventTypeHeaderLength .intvarEvent).toNat)
    (rest : List UInt8) :
    (read (BinlogEventHeader.LEN + (ev.bytesWith skipped).length) fde).run
      (ev.bytesWith skipped ++ rest) = .ok (ev, rest) := by
  rw [read, BinlogEventHeader.add_sub_len, bytesWith, List.append_assoc]
  refine ParsesAll.limitRead ?_ rest
  dsimp only
  rw [← hskip]
  exact ParsesAll.bind (Parses.skipBytes _) (ParsesAll.bind (Parses.readU8 _)
    (ParsesAll.checked _ (Parses.readU64 _)))

end IntvarEvent

/-- An incident on the source server, such as lost events. -/
structure IncidentEvent where
  incidentType : UInt16
  message : List UInt8
  deriving DecidableEq

namespace IncidentEvent

def read (eventSize : Nat) (fde : FormatDescriptionEvent) : ReadM (List UInt8) IncidentEvent :=
  let version := fde.versionOrV4
  limitRead (eventSize - BinlogEventHeader.len version) do
    let incidentType ← readU16
    let messageLen ← readU8
    let message ← readExact messageLen.toNat
    checkNoRemaining
    pure { incidentType, message }

def len (ev : IncidentEvent) (_version : BinlogVersion) : Nat :=
  clampLen (2 + 1 + min ev.message.length 0xff)

def write (ev : IncidentEvent) (version : BinlogVersion) : WriteM Unit :=
  limitWrite (ev.len version) do
    writeU16 ev.incidentType
    writeU8 (UInt8.ofNat (min ev.message.length 0xff))
    limitWrite 0xff (writeAll ev.message)

def toBytes (ev : IncidentEvent) : List UInt8 :=
  toLE 2 ev.incidentType.toNat ++ [UInt8.ofNat ev.message.length] ++ ev.message

@[simp] theorem length_toBytes (ev : IncidentEvent) :
    ev.toBytes.length = 3 + ev.message.length := by
  simp only [toBytes, List.length_append, length_toLE, List.length_singleton]

/-- A message that fits its one-byte length is written whole, and `len` counts it. -/
theorem write_emits {ev : IncidentEvent} (v : BinlogVersion) (hmsg : ev.message.length ≤ 0xff) :
    Emits (ev.write v) ev.toBytes ∧ ev.len v = ev.toBytes.length := by
  have hlen : ev.len v = ev.toBytes.length := by
    rw [len, length_toBytes, min_eq_left hmsg, clampLen_of_le (by unfold u32Max; omega)]
  refine ⟨Emits.limitWrite ?_ hlen.ge, hlen⟩
  rw [toBytes, min_eq_left hmsg]
  exact (Emits.writeU16 _).bind ((Emits.writeU8 _).bind (Emits.limitWrite (Emits.writeAll _) hmsg))

theorem read_eq_ok {eventSize : Nat} {fde : FormatDescriptionEvent} {bs rest : List UInt8}
    {ev : IncidentEvent} (h : (read eventSize fde).run bs = .ok (ev, rest)) :
    bs = ev.toBytes ++ rest ∧ ev.toBytes.length = eventSize - BinlogEventHeader.LEN ∧
      ev.message.length < 256 := by
  obtain ⟨c, hrun, rfl⟩ := limitRead_eq_ok.mp h
  simp only [StateT.run_bind, Outcome.bind_eq_ok, Prod.exists] at hrun
  obtain ⟨incidentType, c₁, h₁, messageLen, c₂, h₂, message, c₃, h₃, u, c₄, h₄, hpure⟩ := hrun
  cases hpure
  obtain ⟨rfl, hzero⟩ := checkNoRemaining_eq_ok h₄
  obtain ⟨hmsg, hlen⟩ := readExact_limited_advance h₃
  have hadv := ((readU16_limited_eq_ok h₁).trans (readU8_limited_eq_ok h₂)).trans hmsg
  have hb : messageLen = UInt8.ofNat message.length := by rw [hlen, UInt8.ofNat_toNat_eq]
  rw [hb] at hadv
  exact ⟨hadv.1, hadv.length_eq hzero, hlen ▸ messageLen.toNat_lt_size⟩

/-- Encoding the decode of a whole body gives the body back. -/
theorem write_of_read {fde : FormatDescriptionEvent} {data rest : List UInt8} {ev : IncidentEvent}
    (v : BinlogVersion)
    (h : (read (BinlogEventHeader.LEN + data.length) fde).run data = .ok (ev, rest)) :
    Emits (ev.write v) data := by
  obtain ⟨hdata, hlen, hmsg⟩ := read_eq_ok h
  obtain ⟨rfl, -⟩ := eq_of_consumed hdata hlen
  exact (write_emits v (by omega)).1

/-- Decoding what the encoder writes gives the event back when the message fits its length
byte. -/
theorem read_toBytes {ev : IncidentEvent} (hmsg : ev.message.length < 2 ^ 8)
    (fde : FormatDescriptionEvent) (rest : List UInt8) :
    (read (BinlogEventHeader.LEN + ev.toBytes.length) fde).run (ev.toBytes ++ rest) =
      .ok (ev, rest) := by
  rw [read, BinlogEventHeader.add_sub_len, toBytes, List.append_assoc]
  have hlen : ev.message.length = (UInt8.ofNat ev.message.length).toNat := by
    rw [UInt8.toNat_ofNat_mod]; omega
  exact ParsesAll.limitRead (ParsesAll.bind (Parses.readU16 _) (ParsesAll.bind (Parses.readU8 _)
    (ParsesAll.checked _ (Parses.readExact _ _ hlen)))) rest

end IncidentEvent

end BinlogCodec
