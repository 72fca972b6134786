import BinlogCodec.FormatDescription

namespace BinlogCodec

/-! The raw event: a header, the body with its checksum suffix cut off, the footer that says
which suffix there was, and the checksum. -/

/-- Modelled from the spec: one byte of CRC-32 as `crc32fast` (not in the source) computes
it, bit by bit over the reflected polynomial `0xEDB88320`. -/
def crc32Update (crc : UInt32) (byte : UInt8) : UInt32 :=
  Nat.repeat (fun c => if c &&& 1 = 1 then c >>> 1 ^^^ 0xEDB88320 else c >>> 1) 8
    (crc ^^^ byte.toUInt32)

/-- Modelled from the spec: a `crc32fast::Hasher` updated with each slice, then finalized. -/
def crc32 (bytes : List UInt8) : UInt32 :=
  bytes.foldl crc32Update 0xFFFFFFFF ^^^ 0xFFFFFFFF

set_option maxRecDepth 4000 in
/-- The check value of CRC-32, the checksum of the ASCII digits `123456789`. -/
example : crc32 [0x31, 0x32, 0x33, 0x34, 0x35, 0x36, 0x37, 0x38, 0x39] = 0xCBF43926 := by
  rfl

/-- A message in pieces, each with the CRC-32 register it leaves after the one before. The check
evaluates one piece at a time, where the fold over a whole long message holds the pending
register updates of all of it. -/
def crc32Checkpoints : UInt32 → List (List UInt8 × UInt32) → Bool
  | _, [] => true
  | s, (piece, s') :: rest => piece.foldl crc32Update s == s' && crc32Checkpoints s' rest

theorem foldl_of_crc32Checkpoints :
    ∀ (s : UInt32) (ps : List (List UInt8 × UInt32)), crc32Checkpoints s ps = true →
      (ps.flatMap Prod.fst).foldl crc32Update s = (ps.map Prod.snd).getLastD s
  | _, [], _ => rfl
  | s, (piece, s') :: rest, h => by
    simp only [crc32Checkpoints, Bool.and_eq_true, beq_iff_eq] at h
    rw [List.flatMap_cons, List.foldl_append, h.1, foldl_of_crc32Checkpoints s' rest h.2,
      List.map_cons, List.getLastD_cons]

/-- The CRC-32 of a message cut into checked pieces: the last register, finalized. -/
theorem crc32_of_checkpoints {msg : List UInt8} (ps : List (List UInt8 × UInt32))
    (hmsg : msg = ps.flatMap Prod.fst) (h : crc32Checkpoints 0xFFFFFFFF ps = true) :
    crc32 msg = (ps.map Prod.snd).getLastD 0xFFFFFFFF ^^^ 0xFFFFFFFF := by
  rw [crc32, hmsg, foldl_of_crc32Checkpoints _ _ h]

namespace BinlogEventHeader

/-- `header.event_type.0 == EventType::FORMAT_DESCRIPTION_EVENT as u8`, as `Event`'s `read`,
`write`, `len` and `calc_checksum` each compute it. -/
def isFde (h : BinlogEventHeader) : Bool :=
  h.eventType == EventType.formatDescriptionEvent.toU8

end BinlogEventHeader

/-- A raw binlog event. `data` is the body without its checksum suffix: the algorithm byte of
an FDE went to `footer`, the checksum to `checksum`. -/
structure Event where
  fde : FormatDescriptionEvent
  header : BinlogEventHeader
  data : List UInt8
  footer : BinlogEventFooter
  checksum : List UInt8
  checksum_length : checksum.length = BinlogEventFooter.BINLOG_CHECKSUM_LEN
  deriving DecidableEq

namespace Event

open BinlogEventFooter (BINLOG_CHECKSUM_ALG_DESC_LEN BINLOG_CHECKSUM_LEN)

/-- `contains_checksum`: an FDE carries a checksum whenever its footer names an algorithm
(WL#2540), another event whenever its footer names one other than `OFF`. -/
def containsChecksum (isFde : Bool) (footer : BinlogEventFooter) : Bool :=
  footer.checksumAlg.isSome && (isFde || footer.checksumAlg != some 0)

/-- `checksum.copy_from_slice(&data[data.len() - k..])`: the last `k` bytes; on a shorter
body the index underflows and panics. -/
def lastBytes (data : List UInt8) (k : Nat) : Outcome {bs : List UInt8 // bs.length = k} :=
  if h : k ≤ data.length then .ok ⟨data.drop (data.length - k), by simp; omega⟩ else .panic

/-- The part of `Event::read` after the body is read: it splits the footer and the checksum
off the body. -/
def ofBody (fde : FormatDescriptionEvent) (header : BinlogEventHeader) (data : List UInt8) :
    Outcome Event := do
  let isFde := header.isFde
  let footer ← (if isFde then BinlogEventFooter.read data else pure fde.footer)
  -- an FDE replaces the footer of the FDE it is read with
  let fde := if isFde then { fde with footer } else fde
  let algDescLen :=
    if isFde && footer.checksumAlg.isSome then BINLOG_CHECKSUM_ALG_DESC_LEN else 0
  let containsChecksum := containsChecksum isFde footer
  let checksum ← (if containsChecksum then lastBytes data BINLOG_CHECKSUM_LEN
    else pure ⟨List.replicate BINLOG_CHECKSUM_LEN 0, List.length_replicate _ _⟩)
  let bytesToTruncate := algDescLen + if containsChecksum then BINLOG_CHECKSUM_LEN else 0
  let keep ← checkedSub data.length bytesToTruncate
  pure { fde, header, data := data.take keep, footer, checksum := checksum.1,
         checksum_length := checksum.2 }

/-- `<Event as BinlogStruct>::read`; its event size is ignored. The body is read with
`read_exact(..).unwrap()`. -/
def read (_eventSize : Nat) (fde : FormatDescriptionEvent) : ReadM (List UInt8) Event := do
  let version := fde.versionOrV4
  let binlogHeaderLen := BinlogEventHeader.len version
  let header ← BinlogEventHeader.read
  let data ← unwrapRead (readExact (header.eventSize.toNat - binlogHeaderLen))
  liftOutcome (ofBody fde header data)

/-- `calc_checksum`: CRC-32 of the header's 19 bytes, the body, and for an FDE the algorithm
byte. (`write` into the 19-byte buffer cannot fail: `BinlogEventHeader.write_emits`.) -/
def calcChecksum (ev : Event) (alg : BinlogChecksumAlg) : UInt32 :=
  crc32 (ev.header.toBytes ++ ev.data ++ if ev.header.isFde then [alg.toU8] else [])

/-- `<Event as BinlogStruct>::len`: the header, the body and the trailer the footer's
algorithm calls for, clamped. -/
def len (ev : Event) (version : BinlogVersion) : Nat :=
  let isFde := ev.header.isFde
  let trailer := match ev.footer.getChecksumAlg with
    | .ok (some alg) =>
        (if isFde then BINLOG_CHECKSUM_ALG_DESC_LEN else 0) +
          if isFde || alg != .binlogChecksumAlgOff then BINLOG_CHECKSUM_LEN else 0
    | _ => 0
  clampLen (BinlogEventHeader.len version + ev.data.length + trailer)

def write (ev : Event) (version : BinlogVersion) : WriteM Unit :=
  limitWrite (ev.len version) do
    ev.header.write version
    writeAll ev.data
    match ev.footer.getChecksumAlg with
    | .ok (some alg) =>
        (if ev.header.isFde then writeU8 alg.toU8 else pure ())
        if alg != .binlogChecksumAlgOff || ev.header.isFde then
          writeU32 (ev.calcChecksum alg)
    | _ => pure ()

/-- `Event::read_event`: the body decoded as a binlog struct whose size is the header's and
the body's, with the checksum suffix already cut. -/
def readEvent {α : Type} (ev : Event)
    (read : Nat → FormatDescriptionEvent → ReadM (List UInt8) α) : Outcome α :=
  Prod.fst <$> (read (BinlogEventHeader.LEN + ev.data.length) ev.fde).run ev.data

/-- What `read_event` decoded was decoded from the event's whole data. -/
theorem readEvent_eq_ok {α : Type} {ev : Event}
    {read : Nat → FormatDescriptionEvent → ReadM (List UInt8) α} {a : α}
    (h : ev.readEvent read = .ok a) :
    ∃ rest, (read (BinlogEventHeader.LEN + ev.data.length) ev.fde).run ev.data = .ok (a, rest) := by
  obtain ⟨⟨a', rest⟩, hr, rfl⟩ := Outcome.map_eq_ok.mp h
  exact ⟨rest, hr⟩

/-- A decoder that reads the event's whole data back as `a` makes `read_event` return `a`. -/
theorem readEvent_of_bytes {α : Type} {ev : Event}
    {read : Nat → FormatDescriptionEvent → ReadM (List UInt8) α} {bs : List UInt8} {a : α}
    (hdata : ev.data = bs)
    (h : (read (BinlogEventHeader.LEN + bs.length) ev.fde).run (bs ++ []) = .ok (a, [])) :
    ev.readEvent read = .ok a := by
  rw [List.append_nil] at h
  rw [readEvent, hdata, h]
  rfl

/-! What `read` makes of a header and a body. -/

/-- The footer `read` gives an event: an FDE's own, read from its body, or that of the FDE
in force. -/
def footerOf (fde : FormatDescriptionEvent) (header : BinlogEventHeader) (data : List UInt8) :
    BinlogEventFooter :=
  if header.isFde then ⟨BinlogEventFooter.algOf data⟩ else fde.footer

/-- How many bytes `read` cuts off the end of a body: the algorithm byte of an FDE whose
footer names one, and the checksum. -/
def trailerLen (isFde : Bool) (footer : BinlogEventFooter) : Nat :=
  (if isFde && footer.checksumAlg.isSome then 1 else 0) +
    if containsChecksum isFde footer then 4 else 0

/-- The checksum `read` keeps: the body's last four bytes when it carries one, else zeros. -/
def checksumOf (contains : Bool) (data : List UInt8) : {bs : List UInt8 // bs.length = 4} :=
  if h : contains ∧ 4 ≤ data.length then ⟨data.drop (data.length - 4), by simp; omega⟩
  else ⟨List.replicate 4 0, List.length_replicate _ _⟩

/-- The event `read` builds around a body it does not panic on. -/
def frame (fde : FormatDescriptionEvent) (header : BinlogEventHeader) (data : List UInt8) :
    Event :=
  let footer := footerOf fde header data
  let contains := containsChecksum header.isFde footer
  { fde := if header.isFde then { fde with footer } else fde
    header
    data := data.take (data.length - trailerLen header.isFde footer)
    footer
    checksum := (checksumOf contains data).1
    checksum_length := (checksumOf contains data).2 }

@[simp] theorem frame_header (fde : FormatDescriptionEvent) (header : BinlogEventHeader)
    (data : List UInt8) : (frame fde header data).header = header := rfl

@[simp] theorem frame_footer (fde : FormatDescriptionEvent) (header : BinlogEventHeader)
    (data : List UInt8) : (frame fde header data).footer = footerOf fde header data := rfl

@[simp] theorem frame_data (fde : FormatDescriptionEvent) (header : BinlogEventHeader)
    (data : List UInt8) : (frame fde header data).data =
      data.take (data.length - trailerLen header.isFde (footerOf fde header data)) := rfl

@[simp] theorem frame_checksum (fde : FormatDescriptionEvent) (header : BinlogEventHeader)
    (data : List UInt8) : (frame fde header data).checksum =
      (checksumOf (containsChecksum header.isFde (footerOf fde header data)) data).1 := rfl

/-- An FDE's trailer is its algorithm byte and checksum, 5 bytes, when its footer names an
algorithm; another event's is its checksum when the algorithm is not `OFF`. -/
theorem trailerLen_eq (isFde : Bool) (footer : BinlogEventFooter) :
    trailerLen isFde footer =
      if containsChecksum isFde footer then (if isFde then 5 else 4) else 0 := by
  cases isFde <;> cases h : footer.checksumAlg <;> simp [trailerLen, containsChecksum, h]

/-- The trailer never outgrows a body that carries its checksum: an FDE footer is only found
in a body of at least 52 bytes. -/
theorem trailerLen_le {fde : FormatDescriptionEvent} {header : BinlogEventHeader}
    {data : List UInt8}
    (h : containsChecksum header.isFde (footerOf fde header data) → 4 ≤ data.length) :
    trailerLen header.isFde (footerOf fde header data) ≤ data.length := by
  rw [trailerLen_eq]
  split_ifs with hc hf
  · have halg : (BinlogEventFooter.algOf data).isSome := by
      simpa [containsChecksum, footerOf, hf] using hc
    have := BinlogEventFooter.algOf_isSome halg
    omega
  · exact h hc
  · exact Nat.zero_le _

/-- A body with room for its trailer has room for the checksum it carries. -/
theorem checksum_fits {isFde : Bool} {footer : BinlogEventFooter} {n : Nat}
    (h : trailerLen isFde footer ≤ n) (hc : containsChecksum isFde footer) : 4 ≤ n := by
  rw [trailerLen_eq, if_pos hc] at h
  split_ifs at h <;> omega

/-- `ofBody` panics exactly when the checksum it must cut is longer than the body, and it
never fails. -/
theorem ofBody_eq (fde : FormatDescriptionEvent) (header : BinlogEventHeader)
    (data : List UInt8) :
    ofBody fde header data =
      if containsChecksum header.isFde (footerOf fde header data) ∧ data.length < 4 then .panic
      else .ok (frame fde header data) := by
  have hfooter : (if header.isFde then BinlogEventFooter.read data else pure fde.footer) =
      .ok (footerOf fde header data) := by
    unfold footerOf
    split <;> simp [BinlogEventFooter.read_eq]
  have hle := @trailerLen_le fde header data
  simp only [ofBody, hfooter, Outcome.ok_bind]
  by_cases hc : containsChecksum header.isFde (footerOf fde header data) = true
  · by_cases hl : 4 ≤ data.length
    · erw [checkedSub_of_le (hle fun _ => hl)]
      simp [frame, checksumOf, lastBytes, BINLOG_CHECKSUM_LEN, hc, hl, Nat.not_lt.mpr hl]
    · simp [lastBytes, BINLOG_CHECKSUM_LEN, hc, hl, Nat.lt_of_not_le hl]
  · erw [checkedSub_of_le (hle fun h => absurd h hc)]
    simp [frame, checksumOf, BINLOG_CHECKSUM_LEN, hc]

theorem ofBody_eq_ok {fde : FormatDescriptionEvent} {header : BinlogEventHeader}
    {data : List UInt8} {ev : Event} :
    ofBody fde header data = .ok ev ↔
      (containsChecksum header.isFde (footerOf fde header data) → 4 ≤ data.length) ∧
        ev = frame fde header data := by
  rw [ofBody_eq]
  split_ifs with h
  · simp only [reduceCtorEq, false_iff, not_and]
    exact fun hc => absurd (h.2) (Nat.not_lt.mpr (hc h.1))
  · simp only [Outcome.ok.injEq, not_and, Nat.not_lt] at h ⊢
    exact ⟨fun heq => ⟨h, heq.symm⟩, fun ⟨_, heq⟩ => heq.symm⟩

/-! `read` on every input: too short for a header, cut inside the body, or a whole event. -/

/-- A stream shorter than a header fails with `UnexpectedEof`. -/
theorem read_short {eventSize : Nat} {fde : FormatDescriptionEvent} {bs : List UInt8}
    (h : bs.length < BinlogEventHeader.LEN) : (read eventSize fde).run bs = .err eofError := by
  simp only [read, StateT.run_bind, BinlogEventHeader.read_short h, Outcome.err_bind]

/-- A stream that ends inside the body makes the `unwrap` of the body read panic. -/
theorem read_truncated (eventSize : Nat) (fde : FormatDescriptionEvent)
    (header : BinlogEventHeader) {rest : List UInt8}
    (h : rest.length < header.eventSize.toNat - BinlogEventHeader.LEN) :
    (read eventSize fde).run (header.toBytes ++ rest) = .panic := by
  unfold BinlogEventHeader.LEN at h
  simp only [read, StateT.run_bind, BinlogEventHeader.read_toBytes, Outcome.ok_bind,
    BinlogEventHeader.len_eq, unwrapRead_run, readExact_stream,
    if_neg (Nat.not_le.mpr h), Outcome.unwrap_err, Outcome.panic_bind]

/-- With its whole body there, an event is read by `ofBody`. -/
theorem read_body (eventSize : Nat) (fde : FormatDescriptionEvent) (header : BinlogEventHeader)
    {body : List UInt8} (rest : List UInt8)
    (h : body.length = header.eventSize.toNat - BinlogEventHeader.LEN) :
    (read eventSize fde).run (header.toBytes ++ body ++ rest) =
      (fun ev => (ev, rest)) <$> ofBody fde header body := by
  unfold BinlogEventHeader.LEN at h
  simp only [read, StateT.run_bind, List.append_assoc, BinlogEventHeader.read_toBytes,
    Outcome.ok_bind, BinlogEventHeader.len_eq, unwrapRead_run,
    readExact_stream_append _ _ _ h, Outcome.unwrap_ok, liftOutcome_run]

/-- `read` fails only on a stream shorter than a header, and then with `UnexpectedEof`. -/
theorem read_eq_err {eventSize : Nat} {fde : FormatDescriptionEvent} {bs : List UInt8}
    {e : IoError} :
    (read eventSize fde).run bs = .err e ↔ bs.length < BinlogEventHeader.LEN ∧ e = eofError := by
  constructor
  · intro h
    rcases Nat.lt_or_ge bs.length BinlogEventHeader.LEN with hlt | hge
    · rw [read_short hlt] at h
      cases h
      exact ⟨hlt, rfl⟩
    · obtain ⟨header, hbs⟩ := BinlogEventHeader.exists_toBytes hge
      rw [hbs] at h
      generalize bs.drop _ = rest at h
      by_cases hfit : header.eventSize.toNat - BinlogEventHeader.LEN ≤ rest.length
      · rw [← List.take_append_drop (header.eventSize.toNat - BinlogEventHeader.LEN) rest,
          ← List.append_assoc, read_body _ _ _ _ (by simp; omega), ofBody_eq] at h
        split_ifs at h <;> cases h
      · rw [read_truncated _ _ _ (by omega)] at h
        cases h
  · rintro ⟨h, rfl⟩
    exact read_short h

/-- `read` panics on a stream that ends one byte into the body of a 21-byte event, and on a
2-byte body that the footer in force says ends in a 4-byte checksum; `UnexpectedEof` is
returned in neither case. -/
theorem read_panics_on_short_body :
    (read 0 (FormatDescriptionEvent.new .version4)).run
      ((⟨0, 0x02, 0, 21, 0, 0⟩ : BinlogEventHeader).toBytes ++ [0xaa]) = .panic ∧
    (read 0 { FormatDescriptionEvent.new .version4 with footer := ⟨some 1⟩ }).run
      ((⟨0, 0x02, 0, 21, 0, 0⟩ : BinlogEventHeader).toBytes ++ [0xaa, 0xbb]) = .panic := by
  decide

/-- What a successful `read` consumed: a header and the whole body it declares. -/
theorem read_eq_ok {eventSize : Nat} {fde : FormatDescriptionEvent} {bs rest : List UInt8}
    {ev : Event} (h : (read eventSize fde).run bs = .ok (ev, rest)) :
    ∃ header body, bs = header.toBytes ++ body ++ rest ∧
      body.length = header.eventSize.toNat - BinlogEventHeader.LEN ∧
      ofBody fde header body = .ok ev := by
  simp only [read, StateT.run_bind, Outcome.bind_eq_ok, Prod.exists, unwrapRead_run,
    Outcome.unwrap_eq_ok, liftOutcome_run, Outcome.map_eq_ok, BinlogEventHeader.len_eq] at h
  obtain ⟨header, r1, hh, body, r2, hb, ev', hev, hpair⟩ := h
  cases hpair
  obtain ⟨rfl, hlen⟩ := readExact_stream_eq_ok.mp hb
  exact ⟨header, body, by rw [BinlogEventHeader.read_eq_ok hh, List.append_assoc], hlen, hev⟩

/-- A decoded event keeps the post-header lengths of the FDE it was read with. -/
theorem headerLength_of_read {eventSize : Nat} {fde : FormatDescriptionEvent}
    {bs rest : List UInt8} {ev : Event} (h : (read eventSize fde).run bs = .ok (ev, rest))
    (eventType : EventType) :
    ev.fde.getEventTypeHeaderLength eventType = fde.getEventTypeHeaderLength eventType := by
  obtain ⟨header, body, -, -, hev⟩ := read_eq_ok h
  obtain ⟨-, rfl⟩ := ofBody_eq_ok.mp hev
  simp only [frame]
  split <;> rfl

/-- The data of a decoded event fits an event: its header's `u32` size bounds it. -/
theorem length_data_of_read {eventSize : Nat} {fde : FormatDescriptionEvent}
    {bs rest : List UInt8} {ev : Event} (h : (read eventSize fde).run bs = .ok (ev, rest)) :
    ev.data.length ≤ u32Max - 19 := by
  obtain ⟨header, body, -, hbody, hev⟩ := read_eq_ok h
  obtain ⟨-, rfl⟩ := ofBody_eq_ok.mp hev
  have hsize : header.eventSize.toNat < 2 ^ 32 := header.eventSize.toNat_lt_size
  rw [frame_data, List.length_take]
  unfold u32Max
  unfold BinlogEventHeader.LEN at hbody
  omega

/-- The trailer `write` appends to the body: for a known algorithm, the algorithm byte of an
FDE, then the checksum unless the algorithm is `OFF` on an event that is not an FDE. -/
def trailer (ev : Event) : List UInt8 :=
  match ev.footer.getChecksumAlg with
  | .ok (some alg) =>
      (if ev.header.isFde then [alg.toU8] else []) ++
        if alg != .binlogChecksumAlgOff || ev.header.isFde then
          toLE 4 (ev.calcChecksum alg).toNat
        else []
  | _ => []

theorem len_eq (ev : Event) (version : BinlogVersion) :
    ev.len version = clampLen (BinlogEventHeader.LEN + ev.data.length + ev.trailer.length) := by
  unfold len trailer
  split
  · rw [Bool.or_comm]
    split_ifs <;> simp_all [BINLOG_CHECKSUM_ALG_DESC_LEN, BINLOG_CHECKSUM_LEN, BinlogEventHeader.LEN]
  · simp [BinlogEventHeader.LEN]

/-- `write` writes, behind a budget of `len`, the header, the body and the trailer. -/
theorem write_eq_limitWrite (ev : Event) (version : BinlogVersion) :
    ∃ w, ev.write version = limitWrite (ev.len version) w ∧
      Emits w (ev.header.toBytes ++ ev.data ++ ev.trailer) := by
  refine ⟨_, rfl, ?_⟩
  rw [List.append_assoc]
  refine (ev.header.write_emits version).bind ((Emits.writeAll _).bind ?_)
  unfold trailer
  split
  · exact (Emits.ite (Emits.writeU8 _) Emits.pure).bind
      (Emits.ite (Emits.writeU32 _) Emits.pure)
  · exact Emits.pure

theorem length_layout (ev : Event) :
    (ev.header.toBytes ++ ev.data ++ ev.trailer).length =
      BinlogEventHeader.LEN + ev.data.length + ev.trailer.length := by
  rw [List.length_append, List.length_append, BinlogEventHeader.length_toBytes]
  rfl

/-- `write` lays out the header, the body and the trailer, as long as they fit an event. -/
theorem write_emits (ev : Event) (version : BinlogVersion)
    (h : BinlogEventHeader.LEN + ev.data.length + ev.trailer.length ≤ u32Max - 19) :
    Emits (ev.write version) (ev.header.toBytes ++ ev.data ++ ev.trailer) := by
  obtain ⟨w, hw, he⟩ := write_eq_limitWrite ev version
  rw [hw]
  exact Emits.limitWrite he (by rw [len_eq, clampLen_of_le h, length_layout])

/-- `len` counts what `write` writes: an event whose header, data and trailer fit the size clamp
is written whole, in `len` bytes; a longer one exceeds the budget `len` clamps to, and `write`
fails with `WriteZero` on every sink. -/
theorem write_len (ev : Event) (version : BinlogVersion) :
    (BinlogEventHeader.LEN + ev.data.length + ev.trailer.length ≤ u32Max - 19 →
      WritesExactly (ev.write version) (ev.len version)) ∧
    (u32Max - 19 < BinlogEventHeader.LEN + ev.data.length + ev.trailer.length →
      ∀ s, (ev.write version).run s = .err writeZeroError) := by
  obtain ⟨w, hw, he⟩ := write_eq_limitWrite ev version
  refine ⟨fun h => ⟨_, write_emits ev version h, by rw [len_eq, clampLen_of_le h, length_layout]⟩,
    fun h s => ?_⟩
  rw [hw]
  exact Emits.limitWrite_over he (by rw [len_eq, clampLen_eq, length_layout]; omega) s

/-- An event whose data alone is `2 ^ 32` bytes, past any event size. -/
def oversizedEvent : Event :=
  ⟨FormatDescriptionEvent.new .version4, ⟨0, 0x02, 0, 0, 0, 0⟩, List.replicate (2 ^ 32) 0, ⟨none⟩,
    [0, 0, 0, 0], rfl⟩

/-- A 21-byte event is written in its `len` of 21 bytes; the oversized event is not written. -/
theorem write_len_short_and_oversized_events :
    WritesExactly ((frame (FormatDescriptionEvent.new .version4) ⟨0, 0x02, 0, 21, 0, 0⟩
        [0xaa, 0xbb]).write .version4)
      ((frame (FormatDescriptionEvent.new .version4) ⟨0, 0x02, 0, 21, 0, 0⟩ [0xaa, 0xbb]).len
        .version4) ∧
    ∀ s, (oversizedEvent.write .version4).run s = .err writeZeroError :=
  ⟨(write_len _ .version4).1 (by decide), (write_len _ .version4).2 (by
    rw [show oversizedEvent.data.length = 2 ^ 32 from List.length_replicate _ _]
    unfold u32Max BinlogEventHeader.LEN
    omega)⟩

/-- The trailer `write` puts back is the suffix `read` cut off, when the footer names a known
algorithm and the checksum `read` kept is the one `write` computes. -/
theorem trailer_frame {fde : FormatDescriptionEvent} {header : BinlogEventHeader}
    {body : List UInt8}
    (hlen : containsChecksum header.isFde (footerOf fde header body) → 4 ≤ body.length)
    (hknown : ∃ alg, (footerOf fde header body).getChecksumAlg = .ok alg)
    (hchecksum : ∀ alg, (footerOf fde header body).getChecksumAlg = .ok (some alg) →
      containsChecksum header.isFde (footerOf fde header body) →
      (frame fde header body).checksum = toLE 4 ((frame fde header body).calcChecksum alg).toNat) :
    (frame fde header body).trailer =
      body.drop (body.length - trailerLen header.isFde (footerOf fde header body)) := by
  obtain ⟨a, ha⟩ := hknown
  unfold trailer
  rw [frame_footer, frame_header, ha]
  cases a with
  | none =>
      have hnone := BinlogEventFooter.getChecksumAlg_eq_none.mp ha
      simp [trailerLen, containsChecksum, hnone]
  | some alg =>
      have hsome := BinlogEventFooter.getChecksumAlg_eq_some.mp ha
      cases hf : header.isFde
      · cases alg
        · simp [trailerLen, containsChecksum, hsome, hf, BinlogChecksumAlg.toU8]
        · have hc : containsChecksum header.isFde (footerOf fde header body) = true := by
            simp [containsChecksum, hsome, BinlogChecksumAlg.toU8]
          dsimp only
          rw [← hchecksum _ ha hc]
          simp [trailerLen_eq, hc, hf ▸ hc, checksumOf, hlen hc]
      · have hc : containsChecksum header.isFde (footerOf fde header body) = true := by
          simp [containsChecksum, hsome, hf]
        obtain ⟨h52, hbyte⟩ := BinlogEventFooter.algOf_eq_some (b := alg.toU8)
          (by simpa [footerOf, hf] using hsome)
        dsimp only
        rw [← hchecksum _ ha hc]
        have hdrop : body.drop (body.length - 5) = alg.toU8 :: body.drop (body.length - 4) := by
          rw [List.drop_eq_getElem_cons (by omega), hbyte, List.getD_eq_getElem?_getD,
            List.getElem?_eq_getElem (by omega), Option.getD_some]
          congr 2
          omega
        simp [trailerLen_eq, hc, hf ▸ hc, checksumOf, hlen hc, hdrop]

/-- Re-encoding a decoded event gives back the bytes it was decoded from, when its header
declares its size, the event fits the size clamp, the footer names a known algorithm (or
none), and the checksum it carries is the one `write` computes. -/
theorem write_emits_of_read {eventSize : Nat} {fde : FormatDescriptionEvent}
    (version : BinlogVersion) {bs rest : List UInt8} {ev : Event}
    (hread : (read eventSize fde).run bs = .ok (ev, rest))
    (hsize : ev.header.eventSize.toNat = bs.length)
    (hfits : bs.length ≤ u32Max - 19)
    (hknown : ∃ alg, ev.footer.getChecksumAlg = .ok alg)
    (hchecksum : ∀ alg, ev.footer.getChecksumAlg = .ok (some alg) →
      containsChecksum ev.header.isFde ev.footer →
      ev.checksum = toLE 4 (ev.calcChecksum alg).toNat) :
    Emits (ev.write version) bs := by
  obtain ⟨header, body, rfl, hbody, hev⟩ := read_eq_ok hread
  obtain ⟨hlen, rfl⟩ := ofBody_eq_ok.mp hev
  have hrest : rest = [] := by
    simp only [frame_header, List.length_append, BinlogEventHeader.length_toBytes] at hsize
    unfold BinlogEventHeader.LEN at hbody
    exact List.eq_nil_of_length_eq_zero (by omega)
  subst hrest
  have hsplit : (frame fde header body).data ++ (frame fde header body).trailer = body := by
    rw [trailer_frame hlen hknown hchecksum, frame_data, List.take_append_drop]
  have hwrite := write_emits (frame fde header body) version (by
    have := congrArg List.length hsplit
    simp only [List.length_append, List.length_nil, BinlogEventHeader.length_toBytes] at this hfits
    unfold BinlogEventHeader.LEN
    omega)
  rw [List.append_nil]
  rwa [List.append_assoc, hsplit, frame_header] at hwrite

/-- The FDE that the format description event of a 5.6.1 server naming CRC32 installs: binlog
version 4, no post-header lengths, and the CRC32 footer. -/
def crc32Fde : FormatDescriptionEvent :=
  ⟨4, [0x35, 0x2e, 0x36, 0x2e, 0x31] ++ List.replicate 45 0, by decide, 0, [], ⟨some 1⟩⟩

set_option maxRecDepth 4000 in
/-- The CRC `write` computes for the query event of a 2-byte body under `crc32Fde`, eight bytes
at a time. -/
theorem calcChecksum_short_query :
    (frame crc32Fde ⟨0, 0x02, 0, 25, 0, 0⟩ [0xaa, 0xbb, 0x46, 0xbc, 0xd2, 0x0c]).calcChecksum
      .binlogChecksumAlgCrc32 = 0x0cd2bc46 :=
  crc32_of_checkpoints [([0, 0, 0, 0, 2, 0, 0, 0], 0x30d4e81d),
    ([0, 25, 0, 0, 0, 0, 0, 0], 0x0d39f328), ([0, 0, 0, 170, 187], 0xf32d43b9)] (by decide)
    (by decide)

/-- A query event of 25 bytes under `crc32Fde`: a 2-byte body, then the CRC of the header and
that body, `0x0cd2bc46`. It comes back whole. -/
theorem write_emits_of_read_short_event :
    Emits ((frame crc32Fde ⟨0, 0x02, 0, 25, 0, 0⟩ [0xaa, 0xbb, 0x46, 0xbc, 0xd2, 0x0c]).write
        .version4)
      ((⟨0, 0x02, 0, 25, 0, 0⟩ : BinlogEventHeader).toBytes ++ [0xaa, 0xbb, 0x46, 0xbc, 0xd2, 0x0c]) :=
  @write_emits_of_read 0 crc32Fde .version4 _ [] _ (by decide) (by decide) (by decide) ⟨_, rfl⟩
    (fun _ h _ => by cases h; rw [calcChecksum_short_query]; rfl)

/-- An FDE (event size 76) from a 5.6.1 server whose footer names checksum algorithm 2, which
`BinlogChecksumAlg` does not know. -/
def unknownAlgFde : List UInt8 :=
  [0, 0, 0, 0, 0x0f, 0, 0, 0, 0, 76, 0, 0, 0, 0, 0, 0, 0, 0, 0] ++
    [4, 0] ++ [0x35, 0x2e, 0x36, 0x2e, 0x31] ++ List.replicate 45 0 ++ [2, 0, 0, 0, 19]

/-- `read` takes the whole FDE and cuts a 5-byte trailer off it, but `write` does not put an
unknown algorithm's trailer back: it emits the first 71 of the 76 bytes. -/
theorem unknownAlgFde_write_read :
    (fun r : Event × List UInt8 =>
        (r.1.header.eventSize.toNat, r.2, (r.1.write .version4).toBytes)) <$>
      (read 0 (FormatDescriptionEvent.new .version4)).run unknownAlgFde =
    .ok (unknownAlgFde.length, [], .ok (unknownAlgFde.take 71)) := by
  decide

/-! Reading back what `write` writes. -/

/-- The trailer `write` appends is as long as the one `read` cuts off, for a footer that names a
known algorithm or none. -/
theorem length_trailer {ev : Event} (hknown : ∃ alg, ev.footer.getChecksumAlg = .ok alg) :
    ev.trailer.length = trailerLen ev.header.isFde ev.footer := by
  obtain ⟨a, ha⟩ := hknown
  unfold trailer
  rw [ha]
  cases a with
  | none => simp [trailerLen, containsChecksum, BinlogEventFooter.getChecksumAlg_eq_none.mp ha]
  | some alg =>
      have hsome := BinlogEventFooter.getChecksumAlg_eq_some.mp ha
      cases ev.header.isFde <;> cases alg <;>
        simp [trailerLen, containsChecksum, hsome, BinlogChecksumAlg.toU8]

/-- An event is what `read` makes of its own bytes under the FDE `fde` in force: its header
declares its size, its footer names a known algorithm (or none) and is the one `read` takes, an
FDE event carries `fde` with its own footer and another event `fde` itself, and its checksum is
the one `write` computes, or zeros when the footer calls for none. -/
structure Framed (fde : FormatDescriptionEvent) (ev : Event) : Prop where
  eventSize_eq :
    ev.header.eventSize.toNat = BinlogEventHeader.LEN + ev.data.length + ev.trailer.length
  knownAlg : ∃ alg, ev.footer.getChecksumAlg = .ok alg
  footer_eq : ev.footer = footerOf fde ev.header (ev.data ++ ev.trailer)
  fde_eq : ev.fde = if ev.header.isFde then { fde with footer := ev.footer } else fde
  checksum_eq : ∀ alg, ev.footer.getChecksumAlg = .ok (some alg) →
    containsChecksum ev.header.isFde ev.footer → ev.checksum = toLE 4 (ev.calcChecksum alg).toNat
  checksum_zeros : containsChecksum ev.header.isFde ev.footer = false →
    ev.checksum = List.replicate 4 0

/-- The checksum `read` keeps from the bytes of a framed event is the event's own. -/
theorem checksumOf_trailer {fde : FormatDescriptionEvent} {ev : Event} (h : ev.Framed fde) :
    (checksumOf (containsChecksum ev.header.isFde ev.footer) (ev.data ++ ev.trailer)).1 =
      ev.checksum := by
  cases hc : containsChecksum ev.header.isFde ev.footer
  · simp [checksumOf, h.checksum_zeros hc]
  · obtain ⟨a, ha⟩ := h.knownAlg
    cases a with
    | none => simp [containsChecksum, BinlogEventFooter.getChecksumAlg_eq_none.mp ha] at hc
    | some alg =>
        have hsome := BinlogEventFooter.getChecksumAlg_eq_some.mp ha
        -- a footer that calls for a checksum makes `write` end the trailer with it
        have hwrites : (alg != .binlogChecksumAlgOff || ev.header.isFde) = true := by
          cases alg
          · simpa [containsChecksum, hsome, BinlogChecksumAlg.toU8] using hc
          · rfl
        have htrailer : ev.trailer = (if ev.header.isFde then [alg.toU8] else []) ++
            toLE 4 (ev.calcChecksum alg).toNat := by
          unfold trailer
          rw [ha]
          dsimp only
          rw [if_pos hwrites]
        rw [h.checksum_eq alg ha hc, htrailer, ← List.append_assoc]
        simp only [checksumOf, true_and, List.length_append, length_toLE]
        rw [dif_pos (by omega)]
        exact List.drop_left' (by rw [List.length_append]; omega)

/-- `frame` of a framed event's bytes is the event. -/
theorem frame_self {fde : FormatDescriptionEvent} {ev : Event} (h : ev.Framed fde) :
    frame fde ev.header (ev.data ++ ev.trailer) = ev := by
  have hdata : (frame fde ev.header (ev.data ++ ev.trailer)).data = ev.data := by
    rw [frame_data, ← h.footer_eq, ← length_trailer h.knownAlg, List.length_append,
      Nat.add_sub_cancel, List.take_left' rfl]
  have hchecksum : (frame fde ev.header (ev.data ++ ev.trailer)).checksum = ev.checksum := by
    rw [frame_checksum, ← h.footer_eq, checksumOf_trailer h]
  have hfde : (frame fde ev.header (ev.data ++ ev.trailer)).fde = ev.fde := by
    rw [h.fde_eq]
    simp only [frame, ← h.footer_eq]
  obtain ⟨efde, header, data, footer, checksum, hlen⟩ := ev
  simp only [frame_header, frame_footer] at hdata hchecksum hfde h ⊢
  simp only [frame, Event.mk.injEq, true_and] at hdata hchecksum hfde ⊢
  exact ⟨hfde, hdata, h.footer_eq.symm, hchecksum⟩

/-- `read` gives back a framed event from the bytes `write` lays out for it, whatever follows. -/
theorem read_framed {fde : FormatDescriptionEvent} {ev : Event} (h : ev.Framed fde)
    (eventSize : Nat) (rest : List UInt8) :
    (read eventSize fde).run (ev.header.toBytes ++ ev.data ++ ev.trailer ++ rest) =
      .ok (ev, rest) := by
  have hlen := length_trailer h.knownAlg
  have hbody := @read_body eventSize fde ev.header (ev.data ++ ev.trailer) rest
    (by rw [h.eventSize_eq, List.length_append]; simp [BinlogEventHeader.LEN]; omega)
  rw [List.append_assoc ev.header.toBytes, hbody, ofBody_eq, ← h.footer_eq,
    if_neg fun hc => absurd (checksum_fits hlen.ge hc.1) (by simp at hc; omega), frame_self h]
  rfl

/-- An event that `write` lays out is read back whole: for an event framed by the FDE in force
whose bytes fit the size clamp, `write` succeeds, and `read` of what it wrote, followed by any
bytes, gives back the event and leaves those bytes. -/
theorem read_of_write {fde : FormatDescriptionEvent} {ev : Event} (h : ev.Framed fde)
    (hfits : BinlogEventHeader.LEN + ev.data.length + ev.trailer.length ≤ u32Max - 19)
    (version : BinlogVersion) :
    ∃ bs, Emits (ev.write version) bs ∧
      ∀ eventSize rest, (read eventSize fde).run (bs ++ rest) = .ok (ev, rest) :=
  ⟨_, write_emits ev version hfits, read_framed h⟩

/-- The query event of a 2-byte body under `crc32Fde`, which ends with its CRC. -/
theorem read_of_write_short_event :
    (frame crc32Fde ⟨0, 0x02, 0, 25, 0, 0⟩ [0xaa, 0xbb, 0x46, 0xbc, 0xd2, 0x0c]).Framed crc32Fde ∧
      ∃ bs, Emits ((frame crc32Fde ⟨0, 0x02, 0, 25, 0, 0⟩
          [0xaa, 0xbb, 0x46, 0xbc, 0xd2, 0x0c]).write .version4) bs ∧
        ∀ eventSize rest, (read eventSize crc32Fde).run (bs ++ rest) =
          .ok (frame crc32Fde ⟨0, 0x02, 0, 25, 0, 0⟩ [0xaa, 0xbb, 0x46, 0xbc, 0xd2, 0x0c], rest) :=
  have h : (frame crc32Fde ⟨0, 0x02, 0, 25, 0, 0⟩
      [0xaa, 0xbb, 0x46, 0xbc, 0xd2, 0x0c]).Framed crc32Fde :=
    ⟨by decide, ⟨_, rfl⟩, by decide, by decide,
      fun _ h _ => by cases h; rw [calcChecksum_short_query]; rfl, fun hc => absurd hc (by decide)⟩
  ⟨h, read_of_write h (by decide) .version4⟩

/-- `read` never checks a checksum: under an FDE whose footer calls for one, an event of
another type whose header declares its data and a 4-byte suffix is read whatever the suffix
holds, with that suffix as its checksum and the data as its data. -/
theorem read_accepts_any_checksum {fde : FormatDescriptionEvent} {header : BinlogEventHeader}
    (hfde : header.isFde = false) (hcontains : containsChecksum false fde.footer = true)
    {data checksum : List UInt8} (hlen : checksum.length = 4)
    (hsize : header.eventSize.toNat = BinlogEventHeader.LEN + data.length + 4)
    (eventSize : Nat) (rest : List UInt8) :
    ∃ ev, (read eventSize fde).run (header.toBytes ++ data ++ checksum ++ rest) = .ok (ev, rest) ∧
      ev.data = data ∧ ev.checksum = checksum := by
  have hfooter : footerOf fde header (data ++ checksum) = fde.footer := by
    rw [footerOf, hfde, if_neg Bool.false_ne_true]
  have hbody := @read_body eventSize fde header (data ++ checksum) rest
    (by rw [List.length_append, hlen, hsize, BinlogEventHeader.LEN]; omega)
  rw [List.append_assoc header.toBytes, hbody, ofBody_eq, hfooter, hfde,
    if_neg fun h => by simp [hlen] at h]
  refine ⟨_, rfl, ?_, ?_⟩
  · rw [frame_data, hfooter, hfde, trailerLen_eq, if_pos hcontains, if_neg Bool.false_ne_true,
      List.length_append, hlen, Nat.add_sub_cancel, List.take_left' rfl]
  · rw [frame_checksum, hfooter, hfde, hcontains]
    simp only [checksumOf, true_and, List.length_append, hlen]
    rw [dif_pos (by omega)]
    exact List.drop_left' (by omega)

/-- Under an FDE whose footer names CRC32, a query event with a 2-byte body and the checksum
`0 0 0 0` is read with that checksum. -/
theorem read_accepts_any_checksum_zeros :
    (⟨0, 0x02, 0, 25, 0, 0⟩ : BinlogEventHeader).isFde = false ∧
      containsChecksum false ⟨some 1⟩ = true ∧
      ∃ ev, (read 0 { FormatDescriptionEvent.new .version4 with footer := ⟨some 1⟩ }).run
          ((⟨0, 0x02, 0, 25, 0, 0⟩ : BinlogEventHeader).toBytes ++ [0xaa, 0xbb] ++ [0, 0, 0, 0] ++
            []) = .ok (ev, []) ∧ ev.data = [0xaa, 0xbb] ∧ ev.checksum = [0, 0, 0, 0] :=
  ⟨rfl, rfl, @read_accepts_any_checksum { FormatDescriptionEvent.new .version4 with
    footer := ⟨some 1⟩ } ⟨0, 0x02, 0, 25, 0, 0⟩ rfl rfl [0xaa, 0xbb] [0, 0, 0, 0] rfl rfl 0 []⟩

end Event

end BinlogCodec
