import BinlogCodec.FormatDescription

namespace BinlogCodec

/-! The statement events. A query event and an execute-load-query event share their first
fields: a u8 schema length and a u16 status-variables length that the encoders saturate, and a
NUL byte after the schema that the decoders skip. -/

/-- A statement logged as text. -/
structure QueryEvent where
  threadId : UInt32
  executionTime : UInt32
  errorCode : UInt16
  /-- The status variables, undecoded. -/
  statusVars : List UInt8
  schema : List UInt8
  query : List UInt8
  deriving DecidableEq

namespace QueryEvent

def read (eventSize : Nat) (fde : FormatDescriptionEvent) : ReadM (List UInt8) QueryEvent :=
  let version := fde.versionOrV4
  limitRead (eventSize - BinlogEventHeader.len version) do
    let postHeaderLen := fde.getEventTypeHeaderLength .queryEvent
    let threadId ← readU32
    let executionTime ← readU32
    let schemaLen ← readU8
    let errorCode ← readU16
    let statusVarsLen ← readU16
    skipBytes (postHeaderLen.toNat - (4 + 4 + 1 + 2 + 2))
    let statusVars ← readExact statusVarsLen.toNat
    let schema ← readExact schemaLen.toNat
    let _ ← readU8
    let query ← readRemaining
    checkNoRemaining
    pure { threadId, executionTime, errorCode, statusVars, schema, query }

def len (ev : QueryEvent) (_version : BinlogVersion) : Nat :=
  clampLen (4 + 4 + 1 + 2 + 2 + min ev.statusVars.length 0xffff + min ev.schema.length 0xff + 1 +
    ev.query.length)

def write (ev : QueryEvent) (version : BinlogVersion) : WriteM Unit :=
  limitWrite (ev.len version) do
    let schemaLen := min ev.schema.length 0xff
    let statusVarsLen := min ev.statusVars.length 0xffff
    writeU32 ev.threadId
    writeU32 ev.executionTime
    writeU8 (UInt8.ofNat schemaLen)
    writeU16 ev.errorCode
    writeU16 (UInt16.ofNat statusVarsLen)
    limitWrite statusVarsLen (writeAll ev.statusVars)
    limitWrite schemaLen (writeAll ev.schema)
    writeU8 0
    writeAll ev.query

/-- The bytes of a query event whose post-header ends with `skipped` and whose schema is
followed by `nul`; the decoder skips both. -/
def bytesWith (ev : QueryEvent) (skipped : List UInt8) (nul : UInt8) : List UInt8 :=
  toLE 4 ev.threadId.toNat ++ toLE 4 ev.executionTime.toNat ++ [UInt8.ofNat ev.schema.length] ++
    toLE 2 ev.errorCode.toNat ++ toLE 2 (UInt16.ofNat ev.statusVars.length).toNat ++ skipped ++
    ev.statusVars ++ ev.schema ++ [nul] ++ ev.query

/-- The bytes the encoder writes: no post-header bytes past its own fields, and a 0 after the
schema. -/
def toBytes (ev : QueryEvent) : List UInt8 := ev.bytesWith [] 0

theorem length_bytesWith (ev : QueryEvent) (skipped : List UInt8) (nul : UInt8) :
    (ev.bytesWith skipped nul).length = 13 + skipped.length + ev.statusVars.length +
      ev.schema.length + 1 + ev.query.length := by
  simp only [bytesWith, List.length_append, length_toLE, List.length_singleton]

/-- Status variables and a schema that fit their length fields are written whole, after the
13-byte post-header, and `len` counts them. -/
theorem write_emits {ev : QueryEvent} (v : BinlogVersion) (hvars : ev.statusVars.length ≤ 0xffff)
    (hschema : ev.schema.length ≤ 0xff) (h : (ev.bytesWith [] 0).length ≤ u32Max - 19) :
    Emits (ev.write v) (ev.bytesWith [] 0) ∧ ev.len v = (ev.bytesWith [] 0).length := by
  have hlen : ev.len v = (ev.bytesWith [] 0).length := by
    rw [length_bytesWith] at h ⊢
    rw [len, min_eq_left hvars, min_eq_left hschema, clampLen_of_le (by simpa using h)]
    simp only [List.length_nil]
  refine ⟨Emits.limitWrite ?_ hlen.ge, hlen⟩
  simp only [bytesWith, min_eq_left hvars, min_eq_left hschema, List.append_nil,
    List.append_assoc]
  exact (Emits.writeU32 _).bind ((Emits.writeU32 _).bind ((Emits.writeU8 _).bind
    ((Emits.writeU16 _).bind ((Emits.writeU16 _).bind
      ((Emits.limitWrite (Emits.writeAll _) le_rfl).bind
        ((Emits.limitWrite (Emits.writeAll _) le_rfl).bind
          ((Emits.writeU8 _).bind (Emits.writeAll _))))))))

/-- A decoded query event consumed its whole budget: its fields, the post-header bytes past
the 13 it knows, and the byte after the schema. -/
theorem read_eq_ok {eventSize : Nat} {fde : FormatDescriptionEvent} {bs rest : List UInt8}
    {ev : QueryEvent} (h : (read eventSize fde).run bs = .ok (ev, rest)) :
    ∃ skipped nul, skipped.length = (fde.getEventTypeHeaderLength .queryEvent).toNat - 13 ∧
      bs = ev.bytesWith skipped nul ++ rest ∧
      (ev.bytesWith skipped nul).length = eventSize - BinlogEventHeader.LEN ∧
      ev.statusVars.length < 2 ^ 16 ∧ ev.schema.length < 2 ^ 8 := by
  obtain ⟨c, hrun, rfl⟩ := limitRead_eq_ok.mp h
  obtain ⟨threadId, c₁, h₁, hrun⟩ := run_bind_eq_ok hrun
  obtain ⟨executionTime, c₂, h₂, hrun⟩ := run_bind_eq_ok hrun
  obtain ⟨schemaLen, c₃, h₃, hrun⟩ := run_bind_eq_ok hrun
  obtain ⟨errorCode, c₄, h₄, hrun⟩ := run_bind_eq_ok hrun
  obtain ⟨statusVarsLen, c₅, h₅, hrun⟩ := run_bind_eq_ok hrun
  obtain ⟨u, c₆, h₆, hrun⟩ := run_bind_eq_ok hrun
  obtain ⟨statusVars, c₇, h₇, hrun⟩ := run_bind_eq_ok hrun
  obtain ⟨schema, c₈, h₈, hrun⟩ := run_bind_eq_ok hrun
  obtain ⟨nul, c₉, h₉, hrun⟩ := run_bind_eq_ok hrun
  obtain ⟨query, c₁₀, h₁₀, hrun⟩ := run_bind_eq_ok hrun
  obtain ⟨u', c₁₁, h₁₁, hpure⟩ := run_bind_eq_ok hrun
  cases hpure
  obtain ⟨rfl, hzero⟩ := checkNoRemaining_eq_ok h₁₁
  obtain ⟨skipped, hskip, hlen⟩ := skipBytes_limited_eq_ok h₆
  obtain ⟨hvars, hvarsLen⟩ := readExact_limited_advance h₇
  obtain ⟨hschema, hschemaLen⟩ := readExact_limited_advance h₈
  have hadv := (((((((((readU32_limited_eq_ok h₁).trans (readU32_limited_eq_ok h₂)).trans
    (readU8_limited_eq_ok h₃)).trans (readU16_limited_eq_ok h₄)).trans
    (readU16_limited_eq_ok h₅)).trans hskip).trans hvars).trans hschema).trans
    (readU8_limited_eq_ok h₉)).trans (readRemaining_eq_ok h₁₀).1
  rw [show schemaLen = UInt8.ofNat schema.length by rw [hschemaLen, UInt8.ofNat_toNat_eq],
    show statusVarsLen = UInt16.ofNat statusVars.length by
      rw [hvarsLen, UInt16.ofNat_toNat_eq]] at hadv
  exact ⟨skipped, nul, hlen, hadv.1, hadv.length_eq hzero, hvarsLen ▸ statusVarsLen.toNat_lt_size,
    hschemaLen ▸ schemaLen.toNat_lt_size⟩

/-- Encoding the decode of a whole body gives the body back, when the FDE gives the event the
13-byte post-header the encoder writes and the byte after the schema is 0. -/
theorem write_of_read {fde : FormatDescriptionEvent} {data rest : List UInt8} {ev : QueryEvent}
    (v : BinlogVersion)
    (h : (read (BinlogEventHeader.LEN + data.length) fde).run data = .ok (ev, rest))
    (hpost : fde.getEventTypeHeaderLength .queryEvent = 13)
    (hnul : data[13 + ev.statusVars.length + ev.schema.length]? = some 0)
    (hsize : data.length ≤ u32Max - 19) : Emits (ev.write v) data := by
  obtain ⟨skipped, nul, hskip, hdata, hlen, hvars, hschema⟩ := read_eq_ok h
  obtain rfl : skipped = [] := List.eq_nil_of_length_eq_zero (by rw [hskip, hpost]; rfl)
  obtain ⟨rfl, -⟩ := eq_of_consumed hdata hlen
  have hat : (ev.bytesWith [] nul)[13 + ev.statusVars.length + ev.schema.length]? = some nul :=
    getElem?_of_prefix_append (List.prefix_append _ _)
      (by simp only [List.length_append, length_toLE, List.length_singleton, List.length_nil])
  obtain rfl : nul = 0 := Option.some.inj (hat.symm.trans hnul)
  exact (write_emits v (by omega) (by omega) hsize).1

/-- The decoder reads the event back from its fields behind a post-header of the length the FDE
gives, whatever byte follows the schema, when the status variables and the schema fit their
length fields. -/
theorem read_bytesWith {ev : QueryEvent} {fde : FormatDescriptionEvent} {skipped : List UInt8}
    (hskip : skipped.length = (fde.getEventTypeHeaderLength .queryEvent).toNat - 13)
    (hvars : ev.statusVars.length < 2 ^ 16) (hschema : ev.schema.length < 2 ^ 8) (nul : UInt8)
    (rest : List UInt8) :
    (read (BinlogEventHeader.LEN + (ev.bytesWith skipped nul).length) fde).run
      (ev.bytesWith skipped nul ++ rest) = .ok (ev, rest) := by
  rw [read, BinlogEventHeader.add_sub_len]
  refine ParsesAll.limitRead ?_ rest
  have hvarsLen : ev.statusVars.length = (UInt16.ofNat ev.statusVars.length).toNat := by
    rw [UInt16.toNat_ofNat_mod]; omega
  have hschemaLen : ev.schema.length = (UInt8.ofNat ev.schema.length).toNat := by
    rw [UInt8.toNat_ofNat_mod]; omega
  simp only [bytesWith, List.append_assoc]
  exact ParsesAll.bind (Parses.readU32 _) (ParsesAll.bind (Parses.readU32 _)
    (ParsesAll.bind (Parses.readU8 _) (ParsesAll.bind (Parses.readU16 _)
      (ParsesAll.bind (Parses.readU16 _) (ParsesAll.bind (hskip ▸ Parses.skipBytes skipped)
        (ParsesAll.bind (Parses.readExact _ _ hvarsLen)
          (ParsesAll.bind (Parses.readExact _ _ hschemaLen) (ParsesAll.bind (Parses.readU8 nul)
            (ParsesAll.readRemaining_checked _ _)))))))))

end QueryEvent

/-- The last event of a `LOAD DATA INFILE`: the statement, with the file's id and where its
name sits in the statement. -/
structure ExecuteLoadQueryEvent where
  threadId : UInt32
  executionTime : UInt32
  errorCode : UInt16
  statusVars : List UInt8
  schema : List UInt8
  query : List UInt8
  fileId : UInt32
  startPos : UInt32
  endPos : UInt32
  dupHandling : UInt8
  deriving DecidableEq

namespace ExecuteLoadQueryEvent

def read (eventSize : Nat) (fde : FormatDescriptionEvent) :
    ReadM (List UInt8) ExecuteLoadQueryEvent :=
  let version := fde.versionOrV4
  limitRead (eventSize - BinlogEventHeader.len version) do
    let threadId ← readU32
    let executionTime ← readU32
    let schemaLen ← readU8
    let errorCode ← readU16
    let statusVarsLen ← readU16
    let fileId ← readU32
    let startPos ← readU32
    let endPos ← readU32
    let dupHandling ← readU8
    let statusVars ← readExact statusVarsLen.toNat
    let schema ← readExact schemaLen.toNat
    let _ ← readU8
    let query ← readRemaining
    pure { threadId, executionTime, errorCode, statusVars, schema, fileId, startPos, endPos,
           dupHandling, query }

/-- `len` counts at most `u16::MAX - 13` bytes of status variables, where `write` writes up
to `u16::MAX` of them. -/
def len (ev : ExecuteLoadQueryEvent) (_version : BinlogVersion) : Nat :=
  clampLen (4 + 4 + 1 + 2 + 2 + 4 + 4 + 4 + 1 + min ev.statusVars.length (0xffff - 13) +
    min ev.schema.length 0xff + 1 + ev.query.length)

/-- The writes `write` makes behind its budget of `len` bytes. -/
def writeFields (ev : ExecuteLoadQueryEvent) : WriteM Unit := do
  writeU32 ev.threadId
  writeU32 ev.executionTime
  writeU8 (UInt8.ofNat (min ev.schema.length 0xff))
  writeU16 ev.errorCode
  writeU16 (UInt16.ofNat (min ev.statusVars.length 0xffff))
  writeU32 ev.fileId
  writeU32 ev.startPos
  writeU32 ev.endPos
  writeU8 ev.dupHandling
  limitWrite 0xffff (writeAll ev.statusVars)
  limitWrite 0xff (writeAll ev.schema)
  writeU8 0
  writeAll ev.query

def write (ev : ExecuteLoadQueryEvent) (version : BinlogVersion) : WriteM Unit :=
  limitWrite (ev.len version) ev.writeFields

/-- The bytes of an execute-load-query event whose schema is followed by `nul`, which the
decoder skips. -/
def bytesWith (ev : ExecuteLoadQueryEvent) (nul : UInt8) : List UInt8 :=
  toLE 4 ev.threadId.toNat ++ toLE 4 ev.executionTime.toNat ++ [UInt8.ofNat ev.schema.length] ++
    toLE 2 ev.errorCode.toNat ++ toLE 2 (UInt16.ofNat ev.statusVars.length).toNat ++
    toLE 4 ev.fileId.toNat ++ toLE 4 ev.startPos.toNat ++ toLE 4 ev.endPos.toNat ++
    [ev.dupHandling] ++ ev.statusVars ++ ev.schema ++ [nul] ++ ev.query

/-- The bytes the encoder writes, with a 0 after the schema. -/
def toBytes (ev : ExecuteLoadQueryEvent) : List UInt8 := ev.bytesWith 0

theorem length_bytesWith (ev : ExecuteLoadQueryEvent) (nul : UInt8) :
    (ev.bytesWith nul).length =
      26 + ev.statusVars.length + ev.schema.length + 1 + ev.query.length := by
  simp only [bytesWith, List.length_append, length_toLE, List.length_singleton]

/-- The fields, with the status variables whole (they fit `u16::MAX`) and the schema whole
(it fits `u8::MAX`). -/
theorem writeFields_emits {ev : ExecuteLoadQueryEvent} (hvars : ev.statusVars.length ≤ 0xffff)
    (hschema : ev.schema.length ≤ 0xff) : Emits ev.writeFields (ev.bytesWith 0) := by
  simp only [writeFields, bytesWith, min_eq_left hvars, min_eq_left hschema, List.append_assoc]
  exact (Emits.writeU32 _).bind ((Emits.writeU32 _).bind ((Emits.writeU8 _).bind
    ((Emits.writeU16 _).bind ((Emits.writeU16 _).bind ((Emits.writeU32 _).bind
      ((Emits.writeU32 _).bind ((Emits.writeU32 _).bind ((Emits.writeU8 _).bind
        ((Emits.limitWrite (Emits.writeAll _) hvars).bind
          ((Emits.limitWrite (Emits.writeAll _) hschema).bind
            ((Emits.writeU8 _).bind (Emits.writeAll _))))))))))))

/-- Up to `u16::MAX - 13` bytes of status variables, the encoder writes the event whole and
`len` counts it. -/
theorem write_emits {ev : ExecuteLoadQueryEvent} (v : BinlogVersion)
    (hvars : ev.statusVars.length ≤ 0xffff - 13) (hschema : ev.schema.length ≤ 0xff)
    (h : (ev.bytesWith 0).length ≤ u32Max - 19) :
    Emits (ev.write v) (ev.bytesWith 0) ∧ ev.len v = (ev.bytesWith 0).length := by
  have hlen : ev.len v = (ev.bytesWith 0).length := by
    rw [length_bytesWith] at h ⊢
    rw [len, min_eq_left hvars, min_eq_left hschema, clampLen_of_le (by simpa using h)]
  exact ⟨Emits.limitWrite (writeFields_emits (by omega) hschema) hlen.ge, hlen⟩

/-- Past `u16::MAX - 13` bytes of status variables, `len` counts fewer bytes than the fields
the encoder writes. -/
theorem len_lt_bytesWith {ev : ExecuteLoadQueryEvent} (v : BinlogVersion)
    (hcap : 0xffff - 13 < ev.statusVars.length) (hschema : ev.schema.length ≤ 0xff) :
    ev.len v < (ev.bytesWith 0).length := by
  rw [len, clampLen_eq, length_bytesWith, min_eq_right hcap.le, min_eq_left hschema]
  omega

/-- Past `u16::MAX - 13` bytes of status variables, the encoder overruns the budget its own
`len` set, and fails with `WriteZero` on every sink. -/
theorem write_fails_of_statusVars {ev : ExecuteLoadQueryEvent} (v : BinlogVersion)
    (hcap : 0xffff - 13 < ev.statusVars.length) (hvars : ev.statusVars.length ≤ 0xffff)
    (hschema : ev.schema.length ≤ 0xff) (s : Sink) :
    (ev.write v).run s = .err writeZeroError :=
  Emits.limitWrite_over (writeFields_emits hvars hschema) (len_lt_bytesWith v hcap hschema) s

/-- 65530 bytes of status variables, an empty schema and query: the `u16` prefix holds their
count, and the write fails on the empty sink. (The lengths are rewritten, never computed: `simp`
would unfold the 65530-element list.) -/
theorem write_fails_of_statusVars_65530 :
    (0xffff - 13 < (List.replicate 65530 (0 : UInt8)).length ∧
        (List.replicate 65530 (0 : UInt8)).length ≤ 0xffff ∧ ([] : List UInt8).length ≤ 0xff) ∧
      ((⟨0, 0, 0, List.replicate 65530 0, [], [], 0, 0, 0, 0⟩ : ExecuteLoadQueryEvent).write
          .version4).run ⟨[], []⟩ = .err writeZeroError :=
  have hcap : 0xffff - 13 < (List.replicate 65530 (0 : UInt8)).length := by
    rw [List.length_replicate]; decide
  have hvars : (List.replicate 65530 (0 : UInt8)).length ≤ 0xffff := by
    rw [List.length_replicate]; decide
  ⟨⟨hcap, hvars, by decide⟩,
    @write_fails_of_statusVars ⟨0, 0, 0, List.replicate 65530 0, [], [], 0, 0, 0, 0⟩
      .version4 hcap hvars (by decide) ⟨[], []⟩⟩

/-- A decoded execute-load-query event consumed its whole budget: its fields and the byte
after the schema. -/
theorem read_eq_ok {eventSize : Nat} {fde : FormatDescriptionEvent} {bs rest : List UInt8}
    {ev : ExecuteLoadQueryEvent} (h : (read eventSize fde).run bs = .ok (ev, rest)) :
    ∃ nul, bs = ev.bytesWith nul ++ rest ∧
      (ev.bytesWith nul).length = eventSize - BinlogEventHeader.LEN ∧
      ev.schema.length < 2 ^ 8 := by
  obtain ⟨c, hrun, rfl⟩ := limitRead_eq_ok.mp h
  obtain ⟨threadId, c₁, h₁, hrun⟩ := run_bind_eq_ok hrun
  obtain ⟨executionTime, c₂, h₂, hrun⟩ := run_bind_eq_ok hrun
  obtain ⟨schemaLen, c₃, h₃, hrun⟩ := run_bind_eq_ok hrun
  obtain ⟨errorCode, c₄, h₄, hrun⟩ := run_bind_eq_ok hrun
  obtain ⟨statusVarsLen, c₅, h₅, hrun⟩ := run_bind_eq_ok hrun
  obtain ⟨fileId, c₆, h₆, hrun⟩ := run_bind_eq_ok hrun
  obtain ⟨startPos, c₇, h₇, hrun⟩ := run_bind_eq_ok hrun
  obtain ⟨endPos, c₈, h₈, hrun⟩ := run_bind_eq_ok hrun
  obtain ⟨dupHandling, c₉, h₉, hrun⟩ := run_bind_eq_ok hrun
  obtain ⟨statusVars, c₁₀, h₁₀, hrun⟩ := run_bind_eq_ok hrun
  obtain ⟨schema, c₁₁, h₁₁, hrun⟩ := run_bind_eq_ok hrun
  obtain ⟨nul, c₁₂, h₁₂, hrun⟩ := run_bind_eq_ok hrun
  obtain ⟨query, c₁₃, h₁₃, hpure⟩ := run_bind_eq_ok hrun
  cases hpure
  obtain ⟨hvars, hvarsLen⟩ := readExact_limited_advance h₁₀
  obtain ⟨hschema, hschemaLen⟩ := readExact_limited_advance h₁₁
  have hadv := ((((((((((((readU32_limited_eq_ok h₁).trans (readU32_limited_eq_ok h₂)).trans
    (readU8_limited_eq_ok h₃)).trans (readU16_limited_eq_ok h₄)).trans
    (readU16_limited_eq_ok h₅)).trans (readU32_limited_eq_ok h₆)).trans
    (readU32_limited_eq_ok h₇)).trans (readU32_limited_eq_ok h₈)).trans
    (readU8_limited_eq_ok h₉)).trans hvars).trans hschema).trans
    (readU8_limited_eq_ok h₁₂)).trans (readRemaining_eq_ok h₁₃).1
  rw [show schemaLen = UInt8.ofNat schema.length by rw [hschemaLen, UInt8.ofNat_toNat_eq],
    show statusVarsLen = UInt16.ofNat statusVars.length by
      rw [hvarsLen, UInt16.ofNat_toNat_eq]] at hadv
  exact ⟨nul, hadv.1, hadv.length_eq (readRemaining_eq_ok h₁₃).2,
    hschemaLen ▸ schemaLen.toNat_lt_size⟩

/-- Encoding the decode of a whole body gives the body back, when the byte after the schema is
0 and the status variables are within the `u16::MAX - 13` bytes `len` counts. -/
theorem write_of_read {fde : FormatDescriptionEvent} {data rest : List UInt8}
    {ev : ExecuteLoadQueryEvent} (v : BinlogVersion)
    (h : (read (BinlogEventHeader.LEN + data.length) fde).run data = .ok (ev, rest))
    (hnul : data[26 + ev.statusVars.length + ev.schema.length]? = some 0)
    (hvars : ev.statusVars.length ≤ 0xffff - 13) (hsize : data.length ≤ u32Max - 19) :
    Emits (ev.write v) data := by
  obtain ⟨nul, hdata, hlen, hschema⟩ := read_eq_ok h
  obtain ⟨rfl, -⟩ := eq_of_consumed hdata hlen
  have hat : (ev.bytesWith nul)[26 + ev.statusVars.length + ev.schema.length]? = some nul :=
    getElem?_of_prefix_append (List.prefix_append _ _)
      (by simp only [List.length_append, length_toLE, List.length_singleton])
  obtain rfl : nul = 0 := Option.some.inj (hat.symm.trans hnul)
  exact (write_emits v hvars (by omega) hsize).1

/-- The decoder reads the event back whatever byte follows the schema, when the status
variables and the schema fit their length fields. -/
theorem read_bytesWith {ev : ExecuteLoadQueryEvent} (fde : FormatDescriptionEvent)
    (hvars : ev.statusVars.length < 2 ^ 16) (hschema : ev.schema.length < 2 ^ 8) (nul : UInt8)
    (rest : List UInt8) :
    (read (BinlogEventHeader.LEN + (ev.bytesWith nul).length) fde).run
      (ev.bytesWith nul ++ rest) = .ok (ev, rest) := by
  rw [read, BinlogEventHeader.add_sub_len]
  refine ParsesAll.limitRead ?_ rest
  have hvarsLen : ev.statusVars.length = (UInt16.ofNat ev.statusVars.length).toNat := by
    rw [UInt16.toNat_ofNat_mod]; omega
  have hschemaLen : ev.schema.length = (UInt8.ofNat ev.schema.length).toNat := by
    rw [UInt8.toNat_ofNat_mod]; omega
  simp only [bytesWith, List.append_assoc]
  exact ParsesAll.bind (Parses.readU32 _) (ParsesAll.bind (Parses.readU32 _)
    (ParsesAll.bind (Parses.readU8 _) (ParsesAll.bind (Parses.readU16 _)
      (ParsesAll.bind (Parses.readU16 _) (ParsesAll.bind (Parses.readU32 _)
        (ParsesAll.bind (Parses.readU32 _) (ParsesAll.bind (Parses.readU32 _)
          (ParsesAll.bind (Parses.readU8 _) (ParsesAll.bind (Parses.readExact _ _ hvarsLen)
            (ParsesAll.bind (Parses.readExact _ _ hschemaLen) (ParsesAll.bind (Parses.readU8 nul)
              ((ParsesAll.readRemaining _).bind_pure _))))))))))))

end ExecuteLoadQueryEvent

end BinlogCodec
