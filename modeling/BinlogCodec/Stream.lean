import BinlogCodec.Event

namespace BinlogCodec

/-! Reading a binlog event by event. The reader keeps the FDE in force and installs each FDE
it reads; a binlog file is the file header, then events until the stream runs out. -/

/-- `EventStreamReader`: the FDE in force. -/
structure EventStreamReader where
  fde : FormatDescriptionEvent
  deriving DecidableEq

namespace EventStreamReader

def new (version : BinlogVersion) : EventStreamReader := ⟨FormatDescriptionEvent.new version⟩

/-- `event.header.event_type.get() == Ok(EventType::FORMAT_DESCRIPTION_EVENT)`. -/
def isFdeType (event : Event) : Bool :=
  match EventType.tryFrom event.header.eventType with
  | .ok .formatDescriptionEvent => true
  | _ => false

/-- `EventStreamReader::read`: an event read with the FDE in force, and the reader after it.
How far a failed read got into the input is not modelled. -/
def read (r : EventStreamReader) (input : List UInt8) :
    Outcome (Event × List UInt8) × EventStreamReader :=
  match (Event.read 0 r.fde).run input with
  | .ok (event, rest) =>
      if isFdeType event then
        match event.readEvent FormatDescriptionEvent.read with
        | .ok fde => (.ok (event, rest), ⟨{ fde with footer := event.footer }⟩)
        | .err err => (.err err, r)
        | .panic => (.panic, r)
      else (.ok (event, rest), r)
  | .err err => (.err err, r)
  | .panic => (.panic, r)

/-- The reader's test for an FDE agrees with the byte test of `Event::read`. -/
theorem isFdeType_eq (event : Event) : isFdeType event = event.header.isFde := by
  unfold isFdeType BinlogEventHeader.isFde
  split
  · rename_i h
    simp [← EventType.tryFrom_eq_ok h]
  · rename_i h
    symm
    rw [beq_eq_false_iff_ne]
    intro heq
    exact h (by rw [heq]; rfl)

/-! The FDE in force, step by step and over a whole run. -/

/-- The FDE an FDE event installs: its data decoded as an FDE, with the event's footer. -/
def installs (event : Event) : Outcome FormatDescriptionEvent :=
  (fun fde => { fde with footer := event.footer }) <$>
    event.readEvent FormatDescriptionEvent.read

/-- The FDE event an outcome returns, if it returns one. -/
def fdeEvent : Outcome (Event × List UInt8) → Option Event
  | .ok (event, _) => if event.header.isFde then some event else none
  | _ => none

/-- One `read` keeps the FDE in force, unless it returns an FDE event, which installs its
own: a failed read, an event of another type and a panic all leave the reader as it was. -/
theorem read_step (r : EventStreamReader) (input : List UInt8) :
    match fdeEvent (r.read input).1 with
    | none => (r.read input).2 = r
    | some event => installs event = .ok (r.read input).2.fde := by
  rcases hread : (Event.read 0 r.fde).run input with ⟨event, rest⟩ | err | _
  · simp only [read, hread, isFdeType_eq]
    by_cases hf : event.header.isFde = true
    · rcases hdec : event.readEvent FormatDescriptionEvent.read with fde | err | _ <;>
        simp [hf, hdec, fdeEvent, installs]
    · simp [hf, fdeEvent]
  · simp [read, hread, fdeEvent]
  · simp [read, hread, fdeEvent]

/-- Reads from each input in turn: the outcome of each, and the reader at the end. -/
def readEach : EventStreamReader → List (List UInt8) →
    List (Outcome (Event × List UInt8)) × EventStreamReader
  | r, [] => ([], r)
  | r, input :: inputs =>
      let step := r.read input
      let run := readEach step.2 inputs
      (step.1 :: run.1, run.2)

/-- The last FDE event among the outcomes. -/
def lastFde (outs : List (Outcome (Event × List UInt8))) : Option Event :=
  (outs.filterMap fdeEvent).getLast?

theorem lastFde_cons (out : Outcome (Event × List UInt8))
    (outs : List (Outcome (Event × List UInt8))) :
    lastFde (out :: outs) = (lastFde outs).or (fdeEvent out) := by
  unfold lastFde
  rw [List.filterMap_cons]
  rcases fdeEvent out with _ | event
  · simp
  · rcases h : (outs.filterMap fdeEvent).getLast? with _ | last
    · simp only [List.getLast?_cons, h, Option.getD_none, Option.none_or]
    · simp only [List.getLast?_cons, h, Option.getD_some, Option.or_some]

/-- Over any run of reads, failed ones included, the FDE in force is the one the reader
started with or the one the last FDE event returned installed. -/
theorem readEach_fde (r : EventStreamReader) (inputs : List (List UInt8)) :
    match lastFde (readEach r inputs).1 with
    | none => (readEach r inputs).2 = r
    | some event => installs event = .ok (readEach r inputs).2.fde := by
  induction inputs generalizing r with
  | nil => rfl
  | cons input inputs ih =>
      have hrest := ih (r.read input).2
      simp only [readEach, lastFde_cons]
      rcases hlast : lastFde (readEach (r.read input).2 inputs).1 with _ | event
      · rw [hlast] at hrest
        rw [Option.none_or, hrest]
        exact read_step r input
      · rw [hlast] at hrest
        exact hrest

/-- The FDE decoder on an event's data: it decodes when the data holds the fixed fields, and
fails with `UnexpectedEof` otherwise. -/
theorem readEvent_fde (event : Event) :
    if event.data.length < 57 then
      event.readEvent FormatDescriptionEvent.read = .err eofError
    else ∃ fde, event.readEvent FormatDescriptionEvent.read = .ok fde := by
  unfold Event.readEvent
  split_ifs with h
  · rw [FormatDescriptionEvent.read_short h]
    rfl
  · obtain ⟨fde, hread⟩ := @FormatDescriptionEvent.read_long event.fde event.data (by omega)
    exact ⟨fde, by rw [hread]; rfl⟩

/-- `read` on a stream too short for a header fails with `UnexpectedEof` and keeps the FDE. -/
theorem read_short (r : EventStreamReader) {input : List UInt8}
    (h : input.length < BinlogEventHeader.LEN) : r.read input = (.err eofError, r) := by
  simp only [read, Event.read_short h]

/-- `read` on a whole event with room for its trailer returns it; an FDE event installs the
FDE it decodes to. -/
theorem read_whole (r : EventStreamReader) {header : BinlogEventHeader}
    {body rest : List UInt8} {fde : FormatDescriptionEvent}
    (hsize : header.eventSize.toNat = BinlogEventHeader.LEN + body.length)
    (htrailer : Event.trailerLen header.isFde (Event.footerOf r.fde header body) ≤ body.length)
    (hnext : if header.isFde then installs (Event.frame r.fde header body) = .ok fde
      else fde = r.fde) :
    r.read (header.toBytes ++ body ++ rest) =
      (.ok (Event.frame r.fde header body, rest), ⟨fde⟩) := by
  have hbody := Event.read_body 0 r.fde header rest
    (show body.length = header.eventSize.toNat - BinlogEventHeader.LEN by omega)
  rw [Event.ofBody_eq, if_neg fun h => absurd (Event.checksum_fits htrailer h.1) (by omega)]
    at hbody
  simp only [read, hbody, Outcome.map_ok, isFdeType_eq, Event.frame_header]
  split_ifs at hnext ⊢ with hf
  · obtain ⟨decoded, hdec, rfl⟩ := Outcome.map_eq_ok.mp hnext
    rw [hdec]
  · rw [hnext]

/-- Every read ends in one of three ways: it fails (an error, or a panic) and keeps the FDE in
force, or it returns an event, and an FDE event installs the FDE it decodes to. So from a new
reader, over any run of reads, the FDE in force is the initial one or the one the last FDE
event returned installed. -/
theorem read_keeps_or_installs (version : BinlogVersion) (inputs : List (List UInt8)) :
    (∀ (r : EventStreamReader) (input : List UInt8),
      match fdeEvent (r.read input).1 with
      | none => (r.read input).2 = r
      | some event => installs event = .ok (r.read input).2.fde) ∧
    match lastFde (readEach (new version) inputs).1 with
    | none => (readEach (new version) inputs).2.fde = FormatDescriptionEvent.new version
    | some event => installs event = .ok (readEach (new version) inputs).2.fde := by
  refine ⟨read_step, ?_⟩
  have hrun := readEach_fde (new version) inputs
  revert hrun
  cases lastFde (readEach (new version) inputs).1 with
  | none => exact fun h => by rw [h]; rfl
  | some event => exact id

/-- A third outcome: a stream cut one byte into the body of a 21-byte event makes `read`
panic. -/
theorem read_cut_body_panics :
    ((new .version4).read ((⟨0, 0x02, 0, 21, 0, 0⟩ : BinlogEventHeader).toBytes ++ [0xaa])).1 =
      .panic := by
  decide

end EventStreamReader

/-- `BinlogFile`: the reader, and what is left of the input. -/
structure BinlogFile where
  reader : EventStreamReader
  read : List UInt8
  deriving DecidableEq

namespace BinlogFile

/-- `BinlogFile::new`: it reads the file header. -/
def new (version : BinlogVersion) (read : List UInt8) : Outcome BinlogFile := do
  let reader := EventStreamReader.new version
  let header ← BinlogFileHeader.read.run read
  pure ⟨reader, header.2⟩

/-- `Iterator::next`: `none` ends the iteration, and so does any `UnexpectedEof`. The file
after an error is not modelled; `some .panic` is a call that panics. -/
def next (file : BinlogFile) : Option (Outcome (Event × BinlogFile)) :=
  match file.reader.read file.read with
  | (.ok (event, rest), reader) => some (.ok (event, ⟨reader, rest⟩))
  | (.err err, _) => if err.kind = .unexpectedEof then none else some (.err err)
  | (.panic, _) => some .panic

/-- What the iterator yields in at most `n` calls of `next`, up to the first item that is not
an event. -/
def items : Nat → BinlogFile → List (Option (Outcome Event))
  | 0, _ => []
  | n + 1, file =>
      match file.next with
      | some (.ok (event, file')) => some (.ok event) :: items n file'
      | some (.err err) => [some (.err err)]
      | some .panic => [some .panic]
      | none => [none]

theorem new_value (version : BinlogVersion) (stream : List UInt8) :
    new version (BinlogFileHeader.VALUE ++ stream) = .ok ⟨EventStreamReader.new version, stream⟩ := by
  simp only [new, BinlogFileHeader.read_value, Outcome.ok_bind]
  rfl

/-! A stream of whole events is read back event by event. -/

/-- A stream of whole events, each well formed under the FDE in force before it: its header
declares its size, the size leaves room for the trailer the checksum policy assigns it, and an
FDE event decodes to the FDE that is in force after it. `events` are the events the stream
holds: each has its header, and its body with the trailer cut off as data. -/
inductive Segmented : FormatDescriptionEvent → List UInt8 → List Event → Prop
  | nil (fde : FormatDescriptionEvent) : Segmented fde [] []
  | cons {fde fde' : FormatDescriptionEvent} {header : BinlogEventHeader}
      {body rest : List UInt8} {events : List Event}
      (hsize : header.eventSize.toNat = BinlogEventHeader.LEN + body.length)
      (htrailer : Event.trailerLen header.isFde (Event.footerOf fde header body) ≤ body.length)
      (hnext : if header.isFde then
        EventStreamReader.installs (Event.frame fde header body) = .ok fde' else fde' = fde)
      (hrest : Segmented fde' rest events) :
      Segmented fde (header.toBytes ++ body ++ rest) (Event.frame fde header body :: events)

section

-- The equation lemmas of `items` are built on first use by unfolding it; with `next` folded
-- they do not evaluate a symbolic read.
attribute [local irreducible] next

theorem items_segmented {fde : FormatDescriptionEvent} {stream : List UInt8}
    {events : List Event} (h : Segmented fde stream events) :
    (BinlogFile.mk ⟨fde⟩ stream).items (events.length + 1) =
      events.map (fun event => some (.ok event)) ++ [none] := by
  induction h with
  | nil fde =>
      simp [items, next, EventStreamReader.read_short _ (show [].length < 19 by decide),
        eofError]
  | cons hsize htrailer hnext _ ih =>
      rw [List.length_cons, items, next, EventStreamReader.read_whole ⟨_⟩ hsize htrailer hnext]
      dsimp only
      rw [ih]
      rfl

end

/-- A file header and then a stream of whole events, each well formed under the FDE in
force before it: the iterator yields each event and then ends. -/
theorem items_of_segmented (version : BinlogVersion) {stream : List UInt8}
    {events : List Event} (h : Segmented (FormatDescriptionEvent.new version) stream events) :
    ∃ file, new version (BinlogFileHeader.VALUE ++ stream) = .ok file ∧
      file.items (events.length + 1) = events.map (fun event => some (.ok event)) ++ [none] :=
  ⟨_, new_value version stream, items_segmented h⟩

/-- The body of the format description event of a 5.6.1 server naming CRC32 (81 bytes in all):
binlog version 4, the server version, a zero timestamp, the header length 19 and no post-header
lengths, then the algorithm byte 1 and the CRC of the header, the post-header and that byte,
`0xec6a2d74`. -/
def crc32FdeBody : List UInt8 :=
  [4, 0] ++ [0x35, 0x2e, 0x36, 0x2e, 0x31] ++ List.replicate 45 0 ++ [0, 0, 0, 0, 19] ++
    [1, 0x74, 0x2d, 0x6a, 0xec]

/-- The format description event of `crc32FdeBody`, read before any FDE, installs `crc32Fde`;
the query event of a 2-byte body after it is read under that FDE, its CRC cut off. -/
theorem items_of_two_events :
    ∃ file, new .version4 (BinlogFileHeader.VALUE ++
        ((⟨0, 0x0f, 0, 81, 0, 0⟩ : BinlogEventHeader).toBytes ++ crc32FdeBody ++
          ((⟨0, 0x02, 0, 25, 0, 0⟩ : BinlogEventHeader).toBytes ++
            [0xaa, 0xbb, 0x46, 0xbc, 0xd2, 0x0c] ++ []))) = .ok file ∧
      file.items ([Event.frame (FormatDescriptionEvent.new .version4) ⟨0, 0x0f, 0, 81, 0, 0⟩
          crc32FdeBody, Event.frame Event.crc32Fde ⟨0, 0x02, 0, 25, 0, 0⟩
          [0xaa, 0xbb, 0x46, 0xbc, 0xd2, 0x0c]].length + 1) =
        [Event.frame (FormatDescriptionEvent.new .version4) ⟨0, 0x0f, 0, 81, 0, 0⟩
          crc32FdeBody, Event.frame Event.crc32Fde ⟨0, 0x02, 0, 25, 0, 0⟩
          [0xaa, 0xbb, 0x46, 0xbc, 0xd2, 0x0c]].map (fun event => some (.ok event)) ++ [none] :=
  items_of_segmented .version4
    (.cons (by decide) (by decide) (by decide) (.cons (by decide) (by decide) (by decide)
      (.nil Event.crc32Fde)))

/-! A binlog written event by event is read back event by event. -/

/-- A run of events as a writer lays them out: each framed by the FDE in force before it and
fitting the size clamp, and each FDE event decoding to the FDE in force after it. -/
def FramedRun : FormatDescriptionEvent → List Event → Prop
  | _, [] => True
  | fde, event :: events =>
      event.Framed fde ∧
        BinlogEventHeader.LEN + event.data.length + event.trailer.length ≤ u32Max - 19 ∧
        ∃ fde', (if event.header.isFde then EventStreamReader.installs event = .ok fde'
          else fde' = fde) ∧ FramedRun fde' events

/-- The bytes a framed run lays out form a stream of whole events, the run's own. -/
theorem segmented_of_framedRun :
    ∀ {fde : FormatDescriptionEvent} {events : List Event}, FramedRun fde events →
      Segmented fde (events.map fun event =>
        event.header.toBytes ++ event.data ++ event.trailer).flatten events
  | fde, [], _ => .nil fde
  | fde, event :: events, ⟨h, _, fde', hnext, hrun⟩ => by
      have hframe := Event.frame_self h
      have hcons := @Segmented.cons fde fde' event.header (event.data ++ event.trailer) _ events
        (by rw [h.eventSize_eq, List.length_append, Nat.add_assoc])
        (by rw [← h.footer_eq, ← Event.length_trailer h.knownAlg, List.length_append]; omega)
        (by rwa [hframe]) (segmented_of_framedRun hrun)
      rw [hframe, ← List.append_assoc] at hcons
      simpa only [List.map_cons, List.flatten_cons, List.append_assoc] using hcons

/-- `write` succeeds on each event of a framed run and writes the event's layout. -/
theorem emits_of_framedRun (version : BinlogVersion) :
    ∀ {fde : FormatDescriptionEvent} {events : List Event}, FramedRun fde events →
      List.Forall₂ (fun event bs => Emits (event.write version) bs) events
        (events.map fun event => event.header.toBytes ++ event.data ++ event.trailer)
  | _, [], _ => .nil
  | _, event :: _, ⟨_, hfits, _, _, hrun⟩ =>
      .cons (Event.write_emits event version hfits) (emits_of_framedRun version hrun)

/-- A binlog written event by event is read back event by event: for a run of events framed
from the FDE a new reader starts with, `write` succeeds on each event, and the iterator over the
file header followed by what it wrote yields each event and then ends. -/
theorem items_of_write (version : BinlogVersion) {events : List Event}
    (h : FramedRun (FormatDescriptionEvent.new version) events) :
    ∃ parts, List.Forall₂ (fun event bs => Emits (event.write version) bs) events parts ∧
      ∃ file, new version (BinlogFileHeader.VALUE ++ parts.flatten) = .ok file ∧
        file.items (events.length + 1) = events.map (fun event => some (.ok event)) ++ [none] :=
  ⟨_, emits_of_framedRun version h, _, new_value version _, items_segmented (segmented_of_framedRun h)⟩

set_option maxRecDepth 4000 in
/-- The format description event of `crc32FdeBody`, which installs `crc32Fde`, then the query
event of a 2-byte body checksummed under it: written and read back. -/
theorem items_of_write_two_events :
    FramedRun (FormatDescriptionEvent.new .version4)
        [Event.frame (FormatDescriptionEvent.new .version4) ⟨0, 0x0f, 0, 81, 0, 0⟩ crc32FdeBody,
          Event.frame Event.crc32Fde ⟨0, 0x02, 0, 25, 0, 0⟩ [0xaa, 0xbb, 0x46, 0xbc, 0xd2, 0x0c]] ∧
      ∃ parts, List.Forall₂ (fun event bs => Emits (event.write .version4) bs)
          [Event.frame (FormatDescriptionEvent.new .version4) ⟨0, 0x0f, 0, 81, 0, 0⟩ crc32FdeBody,
            Event.frame Event.crc32Fde ⟨0, 0x02, 0, 25, 0, 0⟩
              [0xaa, 0xbb, 0x46, 0xbc, 0xd2, 0x0c]] parts ∧
        ∃ file, new .version4 (BinlogFileHeader.VALUE ++ parts.flatten) = .ok file ∧
          file.items 3 =
            [some (.ok (Event.frame (FormatDescriptionEvent.new .version4) ⟨0, 0x0f, 0, 81, 0, 0⟩
              crc32FdeBody)), some (.ok (Event.frame Event.crc32Fde ⟨0, 0x02, 0, 25, 0, 0⟩
                [0xaa, 0xbb, 0x46, 0xbc, 0xd2, 0x0c])), none] :=
  have hcrc : (Event.frame (FormatDescriptionEvent.new .version4) ⟨0, 0x0f, 0, 81, 0, 0⟩
      crc32FdeBody).calcChecksum .binlogChecksumAlgCrc32 = 0xec6a2d74 :=
    crc32_of_checkpoints [([0, 0, 0, 0, 15, 0, 0, 0], 0xc2be30c0),
      ([0, 81, 0, 0, 0, 0, 0, 0], 0xe472c9d8), ([0, 0, 0, 4, 0, 53, 46, 54], 0x045e672a),
      ([46, 49, 0, 0, 0, 0, 0, 0], 0x074b1d30), (List.replicate 8 0, 0x547b88cc),
      (List.replicate 8 0, 0x3a8662e4), (List.replicate 8 0, 0x38cb21b5),
      (List.replicate 8 0, 0x1da2f7db), (List.replicate 8 0, 0x360a8dcb),
      ([0, 0, 0, 19, 1], 0x1395d28b)] (by decide) (by decide)
  have h : FramedRun (FormatDescriptionEvent.new .version4)
      [Event.frame (FormatDescriptionEvent.new .version4) ⟨0, 0x0f, 0, 81, 0, 0⟩ crc32FdeBody,
        Event.frame Event.crc32Fde ⟨0, 0x02, 0, 25, 0, 0⟩ [0xaa, 0xbb, 0x46, 0xbc, 0xd2, 0x0c]] :=
    ⟨⟨by decide, ⟨_, rfl⟩, by decide, by decide,
        fun _ h _ => by cases h; rw [hcrc]; rfl,
        fun hc => absurd hc (by decide)⟩, by decide, Event.crc32Fde, by decide,
      ⟨by decide, ⟨_, rfl⟩, by decide, by decide,
        fun _ h _ => by cases h; rw [Event.calcChecksum_short_query]; rfl,
        fun hc => absurd hc (by decide)⟩, by decide, _, rfl, trivial⟩
  ⟨h, items_of_write .version4 h⟩

/-! Where the iterator ends. -/

/-- After a whole event is read, `next` ends only on an FDE whose data is too short to decode,
and it never yields an error. -/
theorem next_of_event {file : BinlogFile} {event : Event} {rest : List UInt8}
    (hread : (Event.read 0 file.reader.fde).run file.read = .ok (event, rest)) :
    (file.next = none ↔ event.header.isFde ∧ event.data.length < 57) ∧
      ∀ err, file.next ≠ some (.err err) := by
  have hdec := EventStreamReader.readEvent_fde event
  simp only [next, EventStreamReader.read, hread, EventStreamReader.isFdeType_eq]
  by_cases hf : event.header.isFde = true
  · by_cases hs : event.data.length < 57
    · rw [if_pos hs] at hdec
      simp [hf, hs, hdec, eofError]
    · rw [if_neg hs] at hdec
      obtain ⟨fde, hfde⟩ := hdec
      simp [hf, hs, hfde]
  · simp [hf]

/-- The iterator ends when fewer bytes than a header remain, at an event boundary or inside a
header, and when an FDE's data is too short to decode; it never yields an error. -/
theorem next_eq_none_iff (file : BinlogFile) :
    (file.next = none ↔ file.read.length < BinlogEventHeader.LEN ∨
      ∃ event rest, (Event.read 0 file.reader.fde).run file.read = .ok (event, rest) ∧
        event.header.isFde ∧ event.data.length < 57) ∧
    ∀ err, file.next ≠ some (.err err) := by
  rcases hread : (Event.read 0 file.reader.fde).run file.read with ⟨event, rest⟩ | err | _
  · have hlong : ¬file.read.length < BinlogEventHeader.LEN := fun h => by
      rw [Event.read_short h] at hread
      cases hread
    obtain ⟨hnone, herr⟩ := next_of_event hread
    refine ⟨hnone.trans ⟨fun h => .inr ⟨event, rest, rfl, h⟩, ?_⟩, herr⟩
    rintro (h | ⟨event', rest', hok, h⟩)
    · exact absurd h hlong
    · cases hok
      exact h
  · obtain ⟨hshort, rfl⟩ := Event.read_eq_err.mp hread
    have hnext : file.next = none := by simp [next, EventStreamReader.read, hread, eofError]
    simp [hnext, hshort]
  · have hnext : file.next = some .panic := by simp [next, EventStreamReader.read, hread]
    refine ⟨⟨fun h => by simp [hnext] at h, ?_⟩, by simp [hnext]⟩
    rintro (h | ⟨event, rest, hok, -⟩)
    · rw [Event.read_short h] at hread
      cases hread
    · cases hok

/-- A file cut one byte into the first event header: the iterator ends at once. -/
theorem next_cut_header_ends :
    next <$> new .version4 (BinlogFileHeader.VALUE ++ [0]) = .ok none := by
  decide

end BinlogFile

end BinlogCodec
