import BinlogCodec.Events.TableMap

namespace BinlogCodec

/-! The row events: one body shared by the write, update and delete events, with a before
image, an after image, or both, of the columns each row holds. -/

/-- The body of a write, update or delete rows event. -/
structure RowsEvent where
  tableId : UInt64
  flags : UInt16
  extraData : List UInt8
  numColumns : UInt64
  columnsBeforeImage : Option BitVecU8
  columnsAfterImage : Option BitVecU8
  rowsData : List UInt8
  deriving DecidableEq

namespace RowsEvent

/-- `BitVec::from_vec(v)` truncated to `num_columns` bits: an image as the decoder builds it. -/
def decodeImage (numColumns : UInt64) (v : List UInt8) : BitVecU8 :=
  (BitVecU8.fromVec v).truncate numColumns.toNat

/-- Where the decoder puts the images it read: an update has both, a delete only a before
image, any other event only an after image. -/
def placeImages (isUpdateEvent isDeleteEvent : Bool) (columnsImage1 : List UInt8)
    (columnsImage2 : Option (List UInt8)) : Option (List UInt8) × Option (List UInt8) :=
  if isUpdateEvent then (some columnsImage1, columnsImage2)
  else if isDeleteEvent then (some columnsImage1, none)
  else (none, some columnsImage1)

def read (eventType : EventType) (eventSize : Nat) (fde : FormatDescriptionEvent)
    (version : BinlogVersion) : ReadM (List UInt8) RowsEvent :=
  limitRead (eventSize - BinlogEventHeader.len version) do
    let postHeaderLen := fde.getEventTypeHeaderLength eventType
    let isDeleteEvent := eventType == .deleteRowsEvent || eventType == .deleteRowsEventV1
    let isUpdateEvent := eventType == .updateRowsEvent || eventType == .updateRowsEventV1 ||
      eventType == .partialUpdateRowsEvent
    let tableId ← readTableId postHeaderLen
    let flags ← readU16
    let extraData ← (if postHeaderLen = fde.getEventTypeHeaderLength .writeRowsEvent then do
        -- variable-length post header containing extra data
        let extraDataLen ← readU16
        readExact (extraDataLen.toNat - 2)
      else pure [])
    let numColumns ← readLenencInt
    -- `(num_columns as usize + 7) / 8`
    let bitmapLen := (← liftOutcome (checkedAdd numColumns.toNat 7)) / 8
    let columnsImage1 ← readExact bitmapLen
    let columnsImage2 ← (if isUpdateEvent then some <$> readExact bitmapLen else pure none)
    let rowsData ← readRemaining
    let images := placeImages isUpdateEvent isDeleteEvent columnsImage1 columnsImage2
    pure { tableId, flags, extraData, numColumns,
           columnsBeforeImage := images.1.map (decodeImage numColumns),
           columnsAfterImage := images.2.map (decodeImage numColumns),
           rowsData }

/-- `len` computes `(num_columns as usize + 7) / 8`, which panics past `usize::MAX`. -/
def len (ev : RowsEvent) (_version : BinlogVersion) : Outcome Nat := do
  let bitmapLen := (← checkedAdd ev.numColumns.toNat 7) / 8
  pure (clampLen (6 + 2 + 2 + min ev.extraData.length (0xffff - 2) + lenencIntLen ev.numColumns +
    (if ev.columnsBeforeImage.isSome then bitmapLen else 0) +
    (if ev.columnsAfterImage.isSome then bitmapLen else 0) + ev.rowsData.length))

def write (ev : RowsEvent) (version : BinlogVersion) : WriteM Unit := do
  limitWrite (← liftWrite (ev.len version)) do
    writeU48 ev.tableId
    writeU16 ev.flags
    writeU16 (UInt16.ofNat (min (min (ev.extraData.length + 2) usizeMax) 0xffff))
    limitWrite (0xffff - 2) (writeAll ev.extraData)
    writeLenencInt ev.numColumns
    let bitmapLen := (← liftWrite (checkedAdd ev.numColumns.toNat 7)) / 8
    let numBitmaps := (if ev.columnsBeforeImage.isSome then 1 else 0) +
      (if ev.columnsAfterImage.isSome then 1 else 0)
    limitWrite (min (bitmapLen * numBitmaps) usizeMax) do
      writeAll ((ev.columnsBeforeImage.map BitVecU8.asRawSlice).getD [])
      writeAll ((ev.columnsAfterImage.map BitVecU8.asRawSlice).getD [])
      if (← getWriteLimit) > 0 then throw eofError
    writeAll ev.rowsData

/-- The raw bytes of the column images present, before image first. -/
def imageBytes (ev : RowsEvent) : List UInt8 :=
  (ev.columnsBeforeImage.map BitVecU8.asRawSlice).getD [] ++
    (ev.columnsAfterImage.map BitVecU8.asRawSlice).getD []

/-- The bytes of a rows event with a table id of `idWidth` bytes, an extra-data length field
holding `extraLen` if there is one, and the column count written as `count`. -/
def bytesWith (ev : RowsEvent) (idWidth : Nat) (extraLen : Option Nat) (count : List UInt8) :
    List UInt8 :=
  toLE idWidth ev.tableId.toNat ++ toLE 2 ev.flags.toNat ++ ((extraLen.map (toLE 2)).getD []) ++
    ev.extraData ++ count ++ ev.imageBytes ++ ev.rowsData

/-- The bytes the encoder writes: the extra-data length counts its own two bytes. -/
def toBytes (ev : RowsEvent) : List UInt8 :=
  ev.bytesWith 6 (some (ev.extraData.length + 2)) (lenencInt ev.numColumns)

/-- Each column image present has the `(num_columns + 7) / 8` bytes `write` budgets for it. -/
def ImagesFit (ev : RowsEvent) : Prop :=
  ∀ b, ev.columnsBeforeImage = some b ∨ ev.columnsAfterImage = some b →
    (b.len + 7) / 8 = (ev.numColumns.toNat + 7) / 8

/-- What `write` needs to write a rows event whole: a table id of 48 bits, extra data that fits
its length field with the two bytes that field counts, a column count whose bitmap size can be
computed, column images of that size, and a body that fits an event. -/
structure Writable (ev : RowsEvent) : Prop where
  tableId_lt : ev.tableId.toNat < 2 ^ 48
  extraData_le : ev.extraData.length ≤ 0xffff - 2
  numColumns_le : ev.numColumns.toNat + 7 ≤ usizeMax
  imagesFit : ev.ImagesFit
  toBytes_le : ev.toBytes.length ≤ u32Max - 19

theorem length_imageBytes {ev : RowsEvent} (h : ev.ImagesFit) :
    ev.imageBytes.length = (ev.numColumns.toNat + 7) / 8 *
      ((if ev.columnsBeforeImage.isSome then 1 else 0) +
        (if ev.columnsAfterImage.isSome then 1 else 0)) := by
  unfold imageBytes
  cases hb : ev.columnsBeforeImage with
  | none =>
      cases ha : ev.columnsAfterImage with
      | none => rfl
      | some a => simp [h a (.inr ha)]
  | some b =>
      cases ha : ev.columnsAfterImage with
      | none => simp [h b (.inl hb)]
      | some a => simp [h a (.inr ha), h b (.inl hb)]; omega

theorem length_toBytes (ev : RowsEvent) :
    ev.toBytes.length = 6 + 2 + 2 + ev.extraData.length + lenencIntLen ev.numColumns +
      ev.imageBytes.length + ev.rowsData.length := by
  simp only [toBytes, bytesWith, List.length_append, length_toLE, Option.map_some',
    Option.getD_some, length_lenencInt]

theorem len_eq {ev : RowsEvent} (v : BinlogVersion) (hcols : ev.numColumns.toNat + 7 ≤ usizeMax)
    (hextra : ev.extraData.length ≤ 0xffff - 2) (himages : ev.ImagesFit)
    (h : ev.toBytes.length ≤ u32Max - 19) : ev.len v = .ok ev.toBytes.length := by
  simp only [len, checkedAdd_of_le hcols, Outcome.ok_bind, Outcome.pure_eq, Outcome.ok.injEq,
    min_eq_left hextra]
  rw [clampLen_of_le ?_]
  · rw [length_toBytes, length_imageBytes himages]
    split_ifs <;> (try simp only [Nat.mul_zero, Nat.mul_one, Nat.add_zero, Nat.zero_add]); omega
  · rw [length_toBytes, length_imageBytes himages] at h
    split_ifs at h ⊢ <;> omega

/-- A table id of 48 bits, extra data that fits its length field with the two bytes it counts,
a column count whose bitmap size can be computed, and column images of the size that count
gives are written whole, and `len` counts them. -/
theorem write_emits {ev : RowsEvent} (v : BinlogVersion) (hid : ev.tableId.toNat < 2 ^ 48)
    (hextra : ev.extraData.length ≤ 0xffff - 2) (hcols : ev.numColumns.toNat + 7 ≤ usizeMax)
    (himages : ev.ImagesFit) (h : ev.toBytes.length ≤ u32Max - 19) :
    Emits (ev.write v) ev.toBytes ∧ ev.len v = .ok ev.toBytes.length := by
  have hlen := len_eq v hcols hextra himages h
  refine ⟨?_, hlen⟩
  have hextraLen : (UInt16.ofNat (min (min (ev.extraData.length + 2) usizeMax) 0xffff)).toNat =
      ev.extraData.length + 2 := by
    rw [UInt16.toNat_ofNat_mod]
    unfold usizeMax
    omega
  have hbudget : min ((ev.numColumns.toNat + 7) / 8 *
      ((if ev.columnsBeforeImage.isSome then 1 else 0) +
        (if ev.columnsAfterImage.isSome then 1 else 0))) usizeMax = ev.imageBytes.length := by
    rw [length_imageBytes himages]
    refine min_eq_left ?_
    have := length_toBytes ev
    rw [length_imageBytes himages] at this
    unfold usizeMax u32Max at *
    omega
  have himg := Emits.limitWrite_filled (@Emits.bind
    (writeAll ((ev.columnsBeforeImage.map BitVecU8.asRawSlice).getD []))
    (fun _ => writeAll ((ev.columnsAfterImage.map BitVecU8.asRawSlice).getD [])) _ _
    (Emits.writeAll _) (Emits.writeAll _)) eofError
  simp only [bind_assoc] at himg
  simp only [write, hlen, liftWrite_ok, pure_bind]
  refine Emits.limitWrite ?_ le_rfl
  simp only [checkedAdd_of_le hcols, liftWrite_ok, pure_bind, hbudget]
  have h16 := Emits.writeU16 (UInt16.ofNat (min (min (ev.extraData.length + 2) usizeMax) 0xffff))
  rw [hextraLen] at h16
  rw [toBytes, bytesWith, Option.map_some', Option.getD_some]
  simp only [List.append_assoc]
  rw [imageBytes]
  exact (Emits.writeU48 hid).bind ((Emits.writeU16 _).bind (h16.bind
    ((Emits.limitWrite (Emits.writeAll _) hextra).bind ((Emits.writeLenencInt _).bind
      (himg.bind (Emits.writeAll _))))))

/-- The images the decoder places, built from bytes of the bitmap size, have those bytes raw,
in the order read, and the column count's number of bits. -/
theorem placeImages_decode {nc : UInt64} {u : Bool} {i1 : List UInt8} {i2 : Option (List UInt8)}
    (h1 : i1.length = (nc.toNat + 7) / 8) (h2 : ∀ v ∈ i2, v.length = (nc.toNat + 7) / 8)
    (hu : i2.isSome = u) (d : Bool) :
    (((placeImages u d i1 i2).1.map (decodeImage nc)).map BitVecU8.asRawSlice).getD [] ++
        (((placeImages u d i1 i2).2.map (decodeImage nc)).map BitVecU8.asRawSlice).getD [] =
      i1 ++ i2.getD [] ∧
    ∀ b, (placeImages u d i1 i2).1.map (decodeImage nc) = some b ∨
      (placeImages u d i1 i2).2.map (decodeImage nc) = some b → b.len = nc.toNat := by
  obtain ⟨hraw1, hlen1⟩ := BitVecU8.truncate_fromVec h1
  subst hu
  unfold placeImages decodeImage
  cases i2 with
  | none =>
      cases d <;> simp [hraw1, hlen1]
  | some v =>
      obtain ⟨hraw2, hlen2⟩ := BitVecU8.truncate_fromVec (h2 v rfl)
      simp only [Option.isSome_some, ite_true]
      refine ⟨by simp [hraw1, hraw2], ?_⟩
      rintro b (hb | hb) <;> simp only [Option.map_some', Option.some.injEq] at hb <;> subst hb
      · exact hlen1
      · exact hlen2

/-- The decoder places a before image for an update or a delete, and an after image for
anything but a delete. -/
theorem placeImages_isSome {u : Bool} {i2 : Option (List UInt8)} (d : Bool) (i1 : List UInt8)
    (hu : i2.isSome = u) :
    (placeImages u d i1 i2).1.isSome = (u || d) ∧ (placeImages u d i1 i2).2.isSome = (u || !d) := by
  cases u <;> cases d <;> simp [placeImages, hu]

/-- The second image is read, of the bitmap size, exactly for an update. -/
theorem image2_eq_ok {u : Bool} {n : Nat} {c c' : LimitRead} {img2 : Option (List UInt8)}
    (h : ((if u = true then some <$> readExact n else pure none) : ReadM LimitRead _).run c =
      .ok (img2, c')) :
    c.Advance c' (img2.getD []) ∧ (∀ v ∈ img2, v.length = n) ∧ img2.isSome = u := by
  split at h
  case isTrue hu =>
    simp only [StateT.run_map, Outcome.map_eq_ok, Prod.exists, Prod.mk.injEq] at h
    obtain ⟨v, c', hv, rfl, rfl⟩ := h
    obtain ⟨hva, hvl⟩ := readExact_limited_advance hv
    exact ⟨hva, fun v' hv' => by cases hv'; exact hvl, by rw [hu]; rfl⟩
  case isFalse hu =>
    cases h
    exact ⟨LimitRead.Advance.refl _, fun v hv => by simp at hv, by simpa using hu⟩

/-- A decoded rows event consumed its whole budget: its fields with the table id at the width
its post-header length says, an extra-data length field exactly when that length is the write
rows event's, and the column count as it was written, at any width `read_lenenc_int` accepts.
The bitmap size of its column count did not overflow, and each image it holds has that size. -/
theorem read_eq_ok {eventType : EventType} {eventSize : Nat} {fde : FormatDescriptionEvent}
    {version : BinlogVersion} {bs rest : List UInt8} {ev : RowsEvent}
    (h : (read eventType eventSize fde version).run bs = .ok (ev, rest)) :
    ∃ (extraLen : Option Nat) (w : LenencWidth), w.Fits ev.numColumns ∧
      bs = ev.bytesWith (tableIdWidth (fde.getEventTypeHeaderLength eventType)) extraLen
        (lenencWith w ev.numColumns) ++ rest ∧
      (ev.bytesWith (tableIdWidth (fde.getEventTypeHeaderLength eventType)) extraLen
        (lenencWith w ev.numColumns)).length = eventSize - BinlogEventHeader.LEN ∧
      ev.tableId.toNat < 2 ^ 48 ∧
      (extraLen.isSome ↔
        fde.getEventTypeHeaderLength eventType = fde.getEventTypeHeaderLength .writeRowsEvent) ∧
      (∀ n, extraLen = some n → n < 2 ^ 16 ∧ ev.extraData.length = n - 2) ∧
      ev.numColumns.toNat + 7 ≤ usizeMax ∧ ev.ImagesFit := by
  obtain ⟨c, hrun, rfl⟩ := limitRead_eq_ok.mp h
  obtain ⟨tableId, c₁, h₁, hrun⟩ := run_bind_eq_ok hrun
  obtain ⟨flags, c₂, h₂, hrun⟩ := run_bind_eq_ok hrun
  obtain ⟨extra, c₃, h₃, hrun⟩ := run_bind_eq_ok hrun
  obtain ⟨nc, c₄, h₄, hrun⟩ := run_bind_eq_ok hrun
  obtain ⟨sum, c₅, h₅, hrun⟩ := run_bind_eq_ok hrun
  obtain ⟨img1, c₆, h₆, hrun⟩ := run_bind_eq_ok hrun
  obtain ⟨img2, c₇, h₇, hrun⟩ := run_bind_eq_ok hrun
  obtain ⟨rows, c₈, h₈, hpure⟩ := run_bind_eq_ok hrun
  cases hpure
  obtain ⟨hsum, rfl⟩ := liftOutcome_eq_ok.mp h₅
  obtain ⟨rfl, hcols⟩ := checkedAdd_eq_ok hsum
  -- the extra data, behind its length field when the post-header has one
  have hextra : ∃ extraLen : Option Nat,
      c₂.Advance c₃ ((extraLen.map (toLE 2)).getD [] ++ extra) ∧
      (extraLen.isSome ↔
        fde.getEventTypeHeaderLength eventType = fde.getEventTypeHeaderLength .writeRowsEvent) ∧
      ∀ n, extraLen = some n → n < 2 ^ 16 ∧ extra.length = n - 2 := by
    split at h₃
    case isTrue heq =>
      simp only [StateT.run_bind, Outcome.bind_eq_ok, Prod.exists] at h₃
      obtain ⟨n, c', hn, hx⟩ := h₃
      obtain ⟨hxa, hxl⟩ := readExact_limited_advance hx
      exact ⟨some n.toNat, (readU16_limited_eq_ok hn).trans hxa, by simp [heq],
        fun m hm => by cases hm; exact ⟨n.toNat_lt_size, hxl⟩⟩
    case isFalse hne =>
      cases h₃
      exact ⟨none, by simpa using LimitRead.Advance.refl _, by simp [hne], fun m hm => by cases hm⟩
  obtain ⟨extraLen, hxadv, hxiff, hxlen⟩ := hextra
  obtain ⟨hi2, hfit2, hsome2⟩ := image2_eq_ok h₇
  obtain ⟨hid, hid48⟩ := readTableId_eq_ok h₁
  obtain ⟨w, hw, hnc⟩ := readLenencInt_limited_eq_ok h₄
  obtain ⟨hi1, hi1len⟩ := readExact_limited_advance h₆
  obtain ⟨hrows, hzero⟩ := readRemaining_eq_ok h₈
  have hadv := hid.trans <| (readU16_limited_eq_ok h₂).trans <| hxadv.trans <| hnc.trans <|
    hi1.trans <| hi2.trans hrows
  obtain ⟨hbytes, hbits⟩ := placeImages_decode hi1len hfit2 hsome2
    (eventType == .deleteRowsEvent || eventType == .deleteRowsEventV1)
  refine ⟨extraLen, w, hw, ?_, ?_, hid48, hxiff, hxlen, hcols,
    fun b hb => by rw [hbits b hb]⟩
  · simpa only [bytesWith, imageBytes, hbytes, List.append_assoc] using hadv.1
  · simpa only [bytesWith, imageBytes, hbytes, List.append_assoc] using hadv.length_eq hzero

/-- Every rows event the decoder accepts whose column count leaves room for the `+ 7` of its
bitmap size holds the images its type calls for (an after image for a write, both for an
update, a before image for a delete), each of exactly `num_columns` bits. The model computes the
sum as an overflow-checked build does, panicking past `usize::MAX`, so every accepted event has
that room; a release build wraps the sum instead, and there the bound is what the images need. -/
theorem read_images {eventType : EventType} {eventSize : Nat} {fde : FormatDescriptionEvent}
    {version : BinlogVersion} {bs rest : List UInt8} {ev : RowsEvent}
    (h : (read eventType eventSize fde version).run bs = .ok (ev, rest))
    (_hcols : ev.numColumns.toNat + 7 ≤ usizeMax) :
      (eventType = .writeRowsEvent → ev.columnsBeforeImage = none ∧ ev.columnsAfterImage.isSome) ∧
      (eventType = .updateRowsEvent → ev.columnsBeforeImage.isSome ∧ ev.columnsAfterImage.isSome) ∧
      (eventType = .deleteRowsEvent → ev.columnsBeforeImage.isSome ∧ ev.columnsAfterImage = none) ∧
      ∀ b, ev.columnsBeforeImage = some b ∨ ev.columnsAfterImage = some b →
        b.len = ev.numColumns.toNat := by
  obtain ⟨c, hrun, -⟩ := limitRead_eq_ok.mp h
  obtain ⟨tableId, c₁, -, hrun⟩ := run_bind_eq_ok hrun
  obtain ⟨flags, c₂, -, hrun⟩ := run_bind_eq_ok hrun
  obtain ⟨extra, c₃, -, hrun⟩ := run_bind_eq_ok hrun
  obtain ⟨nc, c₄, -, hrun⟩ := run_bind_eq_ok hrun
  obtain ⟨sum, c₅, h₅, hrun⟩ := run_bind_eq_ok hrun
  obtain ⟨img1, c₆, h₆, hrun⟩ := run_bind_eq_ok hrun
  obtain ⟨img2, c₇, h₇, hrun⟩ := run_bind_eq_ok hrun
  obtain ⟨rows, c₈, -, hpure⟩ := run_bind_eq_ok hrun
  cases hpure
  obtain ⟨hsum, rfl⟩ := liftOutcome_eq_ok.mp h₅
  obtain ⟨rfl, -⟩ := checkedAdd_eq_ok hsum
  obtain ⟨-, hi1len⟩ := readExact_limited_advance h₆
  obtain ⟨-, hfit2, hsome2⟩ := image2_eq_ok h₇
  obtain ⟨-, hbits⟩ := placeImages_decode hi1len hfit2 hsome2
    (eventType == .deleteRowsEvent || eventType == .deleteRowsEventV1)
  obtain ⟨hbefore, hafter⟩ := placeImages_isSome
    (eventType == .deleteRowsEvent || eventType == .deleteRowsEventV1) img1 hsome2
  refine ⟨?_, ?_, ?_, hbits⟩ <;> rintro rfl <;>
    simp only [Option.map_eq_none', Option.isSome_map', ← Option.not_isSome_iff_eq_none, hbefore,
      hafter] <;> decide

/-- A write rows event of one column, with the after image `[1]`. -/
theorem read_images_one_column :
    (read .writeRowsEvent 31 (FormatDescriptionEvent.new .version4) .version4).run
        [1, 0, 0, 0, 0, 0, 0, 0, 2, 0, 1, 1] =
      .ok ({ tableId := 1, flags := 0, extraData := [], numColumns := 1,
             columnsBeforeImage := none, columnsAfterImage := some (decodeImage 1 [1]),
             rowsData := [] }, []) ∧
    (1 : UInt64).toNat + 7 ≤ usizeMax ∧ (decodeImage 1 [1]).len = (1 : UInt64).toNat :=
  have h : (read .writeRowsEvent 31 (FormatDescriptionEvent.new .version4) .version4).run
      [1, 0, 0, 0, 0, 0, 0, 0, 2, 0, 1, 1] =
      .ok ({ tableId := 1, flags := 0, extraData := [], numColumns := 1,
             columnsBeforeImage := none, columnsAfterImage := some (decodeImage 1 [1]),
             rowsData := [] }, []) := by decide
  have hcols : (1 : UInt64).toNat + 7 ≤ usizeMax := by decide
  ⟨h, hcols, (read_images h hcols).2.2.2 _ (.inr rfl)⟩

/-- A column count within 7 of `2^64` makes the decoder panic: `(num_columns as usize + 7) / 8`
overflows right after the post-header and the count are read, for every table id, flags and
extra data the post-header holds and whatever follows the count. -/
theorem read_panics_of_numColumns {eventType : EventType} {eventSize : Nat}
    {fde : FormatDescriptionEvent} {version : BinlogVersion} {tableId : UInt64} {flags : UInt16}
    {extraLen : Option Nat} {extraData rest : List UInt8} {numColumns : UInt64}
    (hid : tableId.toNat < 2 ^ (8 * tableIdWidth (fde.getEventTypeHeaderLength eventType)))
    (hextra : extraLen.isSome ↔
      fde.getEventTypeHeaderLength eventType = fde.getEventTypeHeaderLength .writeRowsEvent)
    (hextraLen : ∀ n, extraLen = some n → n < 2 ^ 16 ∧ extraData.length = n - 2)
    (hcols : usizeMax < numColumns.toNat + 7)
    (hsize : tableIdWidth (fde.getEventTypeHeaderLength eventType) + 2 +
      ((extraLen.map fun n => toLE 2 n ++ extraData).getD []).length + lenencIntLen numColumns ≤
        eventSize - BinlogEventHeader.len version) :
    (read eventType eventSize fde version).run
      (toLE (tableIdWidth (fde.getEventTypeHeaderLength eventType)) tableId.toNat ++
        toLE 2 flags.toNat ++ (extraLen.map fun n => toLE 2 n ++ extraData).getD [] ++
        lenencInt numColumns ++ rest) = .panic := by
  rw [BinlogEventHeader.len_eq] at hsize
  apply limitRead_eq_panic
  simp only [List.append_assoc, BinlogEventHeader.len_eq]
  refine Parses.bind_panic (Parses.readTableId hid)
    (by simp only [List.length_append, length_toLE, length_lenencInt]; omega) ?_
  refine Parses.bind_panic (Parses.readU16 flags)
    (by simp only [List.length_append, length_toLE, length_lenencInt]; omega) ?_
  cases extraLen with
  | none =>
      have hne : fde.getEventTypeHeaderLength eventType ≠
          fde.getEventTypeHeaderLength .writeRowsEvent := fun h => by simpa using hextra.mpr h
      simp only [Option.map_none', Option.getD_none, List.nil_append, List.length_nil] at hsize ⊢
      rw [if_neg hne, pure_bind]
      refine Parses.bind_panic (Parses.readLenencInt numColumns)
        (by simp only [List.length_append, length_toLE, length_lenencInt]; omega) ?_
      simp only [StateT.run_bind, liftOutcome_run, checkedAdd_of_gt hcols, Outcome.map_panic,
        Outcome.panic_bind]
  | some n =>
      obtain ⟨hn, hlen⟩ := hextraLen n rfl
      have h16 : (UInt16.ofNat n).toNat = n := by
        rw [UInt16.toNat_ofNat_mod, Nat.mod_eq_of_lt hn]
      have hp := (Parses.readU16 (UInt16.ofNat n)).bind
        (f := fun extraDataLen : UInt16 => readExact (extraDataLen.toNat - 2))
        (Parses.readExact _ extraData (by rw [h16]; exact hlen))
      rw [h16] at hp
      simp only [Option.map_some', Option.getD_some, List.length_append, length_toLE] at hsize ⊢
      rw [if_pos (hextra.mp rfl)]
      refine Parses.bind_panic hp
        (by simp only [List.length_append, length_toLE, length_lenencInt]; omega) ?_
      refine Parses.bind_panic (Parses.readLenencInt numColumns)
        (by simp only [List.length_append, length_toLE, length_lenencInt]; omega) ?_
      simp only [StateT.run_bind, liftOutcome_run, checkedAdd_of_gt hcols, Outcome.map_panic,
        Outcome.panic_bind]

/-- A write rows event whose column count is `2^64 - 1`, written in its 9 bytes. -/
theorem read_panics_of_numColumns_max :
    (1 : UInt64).toNat < 2 ^ (8 * tableIdWidth
      ((FormatDescriptionEvent.new .version4).getEventTypeHeaderLength .writeRowsEvent)) ∧
    usizeMax < (0xffffffffffffffff : UInt64).toNat + 7 ∧
    (read .writeRowsEvent 38 (FormatDescriptionEvent.new .version4) .version4).run
      (toLE 6 1 ++ toLE 2 0 ++ toLE 2 2 ++ lenencInt 0xffffffffffffffff) = .panic := by
  refine ⟨by decide, by decide, ?_⟩
  have h := @read_panics_of_numColumns .writeRowsEvent 38 (FormatDescriptionEvent.new .version4)
    .version4 1 0 (some 2) [] [] 0xffffffffffffffff (by decide) (by simp) (by
      rintro n ⟨⟩
      decide) (by decide) (by decide)
  simpa using h

/-- Encoding the decode of a whole body gives the body back, when the FDE gives its type the
10-byte post-header of the write rows event, the extra-data length is at least the 2 bytes it
counts, and the column count stands in the fewest bytes, as the encoder writes it. -/
theorem write_of_read {eventType : EventType} {fde : FormatDescriptionEvent}
    {version : BinlogVersion} {data rest : List UInt8} {ev : RowsEvent} (v : BinlogVersion)
    (h : (read eventType (BinlogEventHeader.LEN + data.length) fde version).run data =
      .ok (ev, rest))
    (hpost : fde.getEventTypeHeaderLength eventType = 10)
    (hwrite : fde.getEventTypeHeaderLength .writeRowsEvent = 10)
    (hextra : 2 ≤ ofLE ((data.drop 8).take 2))
    (hcount : lenencInt ev.numColumns <+: data.drop (10 + ev.extraData.length))
    (hsize : data.length ≤ u32Max - 19) : Emits (ev.write v) data := by
  obtain ⟨extraLen, w, hw, hdata, hlen, hid, hsome, hextraLen, hcols, himages⟩ := read_eq_ok h
  rw [hpost, show tableIdWidth 10 = 6 from rfl] at hdata hlen
  obtain ⟨n, rfl⟩ := Option.isSome_iff_exists.mp (hsome.mpr (hpost.trans hwrite.symm))
  obtain ⟨hn, hel⟩ := hextraLen n rfl
  obtain ⟨rfl, -⟩ := eq_of_consumed hdata hlen
  -- the extra-data length field holds `n`, so `n` is at least 2
  have hfield : ∃ t, (ev.bytesWith 6 (some n) (lenencWith w ev.numColumns)).drop 8 =
      toLE 2 n ++ t :=
    drop_eq_of_prefix_append (p := toLE 6 ev.tableId.toNat ++ toLE 2 ev.flags.toNat)
      (by simp [bytesWith, -toLE_succ]) (by simp)
  obtain ⟨t, ht⟩ := hfield
  rw [ht, List.take_left' (length_toLE 2 n), ofLE_toLE_of_lt (by omega)] at hextra
  obtain rfl : n = ev.extraData.length + 2 := by omega
  have hc := lenencWith_eq_of_drop hw
    (p := toLE 6 ev.tableId.toNat ++ toLE 2 ev.flags.toNat ++ toLE 2 (ev.extraData.length + 2) ++
      ev.extraData)
    (by simp [bytesWith, -toLE_succ]) (by simp only [List.length_append, length_toLE])
    hcount
  rw [hc] at hsize ⊢
  exact (write_emits v hid (by omega) hcols himages hsize).1

/-- The end of the decoder reads back the column images an event of the type holds, each of the
column count's bitmap size, and then the rows. -/
theorem parsesAll_images {β : Type} {u d : Bool} {nc : UInt64} {before after : Option BitVecU8}
    (hbefore : before.isSome = (u || d)) (hafter : after.isSome = (u || !d))
    (hbits : ∀ b, before = some b ∨ after = some b → b.len = nc.toNat)
    (hcols : nc.toNat + 7 ≤ usizeMax)
    (f : Option BitVecU8 → Option BitVecU8 → List UInt8 → β) (rows : List UInt8) :
    ParsesAll (do
      let bitmapLen := (← liftOutcome (checkedAdd nc.toNat 7)) / 8
      let columnsImage1 ← readExact bitmapLen
      let columnsImage2 ← (if u then some <$> readExact bitmapLen else pure none)
      let rowsData ← readRemaining
      let images := placeImages u d columnsImage1 columnsImage2
      pure (f (images.1.map (decodeImage nc)) (images.2.map (decodeImage nc)) rowsData))
    ((before.map BitVecU8.asRawSlice).getD [] ++ (after.map BitVecU8.asRawSlice).getD [] ++ rows)
    (f before after rows) := by
  have hraw : ∀ b, before = some b ∨ after = some b → b.asRawSlice.length = (nc.toNat + 7) / 8 :=
    fun b hb => by rw [BitVecU8.length_asRawSlice, hbits b hb]
  have hdec : ∀ b, before = some b ∨ after = some b → decodeImage nc b.asRawSlice = b :=
    fun b hb => by rw [decodeImage, ← hbits b hb, BitVecU8.truncate_fromVec_asRawSlice]
  refine ParsesAll.bind_nil (Parses.liftOutcome (checkedAdd_of_le hcols)) ?_
  cases u <;> cases d <;> simp only [Bool.true_or, Bool.false_or, Bool.not_true, Bool.not_false,
    Bool.or_true, Bool.or_false] at hbefore hafter
  case false.false =>
    obtain rfl : before = none := Option.not_isSome_iff_eq_none.mp (by simp [hbefore])
    obtain ⟨a, rfl⟩ := Option.isSome_iff_exists.mp hafter
    have e : f none (some (decodeImage nc a.asRawSlice)) rows = f none (some a) rows := by
      rw [hdec a (.inr rfl)]
    refine (congrArg (ParsesAll _ _) e).mp ?_
    exact ParsesAll.bind (Parses.readExact _ _ (hraw a (.inr rfl)))
      (ParsesAll.bind_nil (Parses.pure none) ((ParsesAll.readRemaining rows).bind_pure _))
  case false.true =>
    obtain rfl : after = none := Option.not_isSome_iff_eq_none.mp (by simp [hafter])
    obtain ⟨b, rfl⟩ := Option.isSome_iff_exists.mp hbefore
    have e : f (some (decodeImage nc b.asRawSlice)) none rows = f (some b) none rows := by
      rw [hdec b (.inl rfl)]
    refine (congrArg (ParsesAll _ _) e).mp ?_
    simp only [Option.map_some', Option.getD_some, Option.map_none', Option.getD_none,
      List.append_nil]
    exact ParsesAll.bind (Parses.readExact _ _ (hraw b (.inl rfl)))
      (ParsesAll.bind_nil (Parses.pure none) ((ParsesAll.readRemaining rows).bind_pure _))
  all_goals
    obtain ⟨b, rfl⟩ := Option.isSome_iff_exists.mp hbefore
    obtain ⟨a, rfl⟩ := Option.isSome_iff_exists.mp hafter
    have e : f (some (decodeImage nc b.asRawSlice)) (some (decodeImage nc a.asRawSlice)) rows =
        f (some b) (some a) rows := by
      rw [hdec b (.inl rfl), hdec a (.inr rfl)]
    refine (congrArg (ParsesAll _ _) e).mp ?_
    simp only [Option.map_some', Option.getD_some, List.append_assoc]
    exact ParsesAll.bind (Parses.readExact _ _ (hraw b (.inl rfl)))
      (ParsesAll.bind ((Parses.readExact _ _ (hraw a (.inr rfl))).map some)
        ((ParsesAll.readRemaining rows).bind_pure _))

/-- The decoder reads the event back from its fields with the table id at the width the FDE's
post-header length gives, an extra-data length field exactly when the post-header is as long as
a `WRITE_ROWS_EVENT`'s, and the column count in the fewest bytes, when the column count's bitmap
size can be computed and the event holds the images its type places, one bit per column each. -/
theorem read_bytesWith {eventType : EventType} {fde : FormatDescriptionEvent}
    {version : BinlogVersion} {ev : RowsEvent} {extraLen : Option Nat}
    (hid : ev.tableId.toNat < 2 ^ (8 * tableIdWidth (fde.getEventTypeHeaderLength eventType)))
    (hextra : extraLen.isSome ↔
      fde.getEventTypeHeaderLength eventType = fde.getEventTypeHeaderLength .writeRowsEvent)
    (hextraLen : ∀ n, extraLen = some n → n < 2 ^ 16 ∧ ev.extraData.length = n - 2)
    (hnone : extraLen = none → ev.extraData = [])
    (hcols : ev.numColumns.toNat + 7 ≤ usizeMax)
    (hbefore : ev.columnsBeforeImage.isSome =
      ((eventType == .updateRowsEvent || eventType == .updateRowsEventV1 ||
        eventType == .partialUpdateRowsEvent) ||
        (eventType == .deleteRowsEvent || eventType == .deleteRowsEventV1)))
    (hafter : ev.columnsAfterImage.isSome =
      ((eventType == .updateRowsEvent || eventType == .updateRowsEventV1 ||
        eventType == .partialUpdateRowsEvent) ||
        !(eventType == .deleteRowsEvent || eventType == .deleteRowsEventV1)))
    (hbits : ∀ b, ev.columnsBeforeImage = some b ∨ ev.columnsAfterImage = some b →
      b.len = ev.numColumns.toNat)
    (rest : List UInt8) :
    (read eventType (BinlogEventHeader.LEN + (ev.bytesWith
        (tableIdWidth (fde.getEventTypeHeaderLength eventType)) extraLen
        (lenencInt ev.numColumns)).length) fde version).run
      (ev.bytesWith (tableIdWidth (fde.getEventTypeHeaderLength eventType)) extraLen
        (lenencInt ev.numColumns) ++ rest) = .ok (ev, rest) := by
  rw [read, BinlogEventHeader.add_sub_len]
  refine ParsesAll.limitRead ?_ rest
  obtain ⟨tableId, flags, extraData, numColumns, before, after, rowsData⟩ := ev
  dsimp only at *
  simp only [bytesWith, imageBytes, List.append_assoc]
  refine ParsesAll.bind (Parses.readTableId hid) (ParsesAll.bind (Parses.readU16 _) ?_)
  cases extraLen with
  | none =>
      have hne : fde.getEventTypeHeaderLength eventType ≠
          fde.getEventTypeHeaderLength .writeRowsEvent := fun h => by simpa using hextra.mpr h
      obtain rfl := hnone rfl
      rw [if_neg hne]
      simp only [Option.map_none', Option.getD_none, List.nil_append]
      have himages := parsesAll_images hbefore hafter hbits hcols
        (fun b a r => (⟨tableId, flags, [], numColumns, b, a, r⟩ : RowsEvent)) rowsData
      rw [List.append_assoc] at himages
      exact ParsesAll.bind_nil (Parses.pure []) (ParsesAll.bind (Parses.readLenencInt _) himages)
  | some n =>
      obtain ⟨hn, hlen⟩ := hextraLen n rfl
      have h16 : (UInt16.ofNat n).toNat = n := by
        rw [UInt16.toNat_ofNat_mod, Nat.mod_eq_of_lt hn]
      have hp := (Parses.readU16 (UInt16.ofNat n)).bind
        (f := fun extraDataLen : UInt16 => readExact (extraDataLen.toNat - 2))
        (Parses.readExact _ extraData (by rw [h16]; exact hlen))
      rw [h16] at hp
      rw [if_pos (hextra.mp rfl)]
      simp only [Option.map_some', Option.getD_some]
      have himages := parsesAll_images hbefore hafter hbits hcols
        (fun b a r => (⟨tableId, flags, extraData, numColumns, b, a, r⟩ : RowsEvent)) rowsData
      rw [List.append_assoc] at himages
      rw [← List.append_assoc (toLE 2 n)]
      exact ParsesAll.bind hp (ParsesAll.bind (Parses.readLenencInt _) himages)

/-- Each column image present has one bit per column: the decoder truncates what it reads to
`num_columns` bits, where `write` only needs the images to fill the bytes it budgets. -/
def ImagesExact (ev : RowsEvent) : Prop :=
  ∀ b, ev.columnsBeforeImage = some b ∨ ev.columnsAfterImage = some b →
    b.len = ev.numColumns.toNat

/-- The decoder reads back what `write` writes, under an FDE whose post-header for the type is
as long as a `WRITE_ROWS_EVENT`'s and gives six-byte table ids, when the event holds the images
its type places, of one bit per column each. -/
theorem read_toBytes {eventType : EventType} {fde : FormatDescriptionEvent}
    {version : BinlogVersion} {ev : RowsEvent} (hw : ev.Writable)
    (hpost : fde.getEventTypeHeaderLength eventType = fde.getEventTypeHeaderLength .writeRowsEvent)
    (hwidth : tableIdWidth (fde.getEventTypeHeaderLength eventType) = 6)
    (hbefore : ev.columnsBeforeImage.isSome =
      ((eventType == .updateRowsEvent || eventType == .updateRowsEventV1 ||
        eventType == .partialUpdateRowsEvent) ||
        (eventType == .deleteRowsEvent || eventType == .deleteRowsEventV1)))
    (hafter : ev.columnsAfterImage.isSome =
      ((eventType == .updateRowsEvent || eventType == .updateRowsEventV1 ||
        eventType == .partialUpdateRowsEvent) ||
        !(eventType == .deleteRowsEvent || eventType == .deleteRowsEventV1)))
    (hbits : ev.ImagesExact) (rest : List UInt8) :
    (read eventType (BinlogEventHeader.LEN + ev.toBytes.length) fde version).run
      (ev.toBytes ++ rest) = .ok (ev, rest) := by
  have hextra := hw.extraData_le
  have h := @read_bytesWith eventType fde version ev (some (ev.extraData.length + 2))
    (by rw [hwidth]; exact hw.tableId_lt) ⟨fun _ => hpost, fun _ => rfl⟩
    (fun n hn => by cases hn; omega) (fun h => nomatch h) hw.numColumns_le hbefore hafter hbits
    rest
  rwa [hwidth] at h

end RowsEvent

/-! The three row events wrap one `RowsEvent` each and decode it under their own type. -/

/-- Rows inserted. -/
structure WriteRowsEvent where
  rows : RowsEvent
  deriving DecidableEq

/-- Rows changed, with their images before and after. -/
structure UpdateRowsEvent where
  rows : RowsEvent
  deriving DecidableEq

/-- Rows removed. -/
structure DeleteRowsEvent where
  rows : RowsEvent
  deriving DecidableEq

namespace WriteRowsEvent

def read (eventSize : Nat) (fde : FormatDescriptionEvent) : ReadM (List UInt8) WriteRowsEvent :=
  let version := fde.versionOrV4
  WriteRowsEvent.mk <$> RowsEvent.read .writeRowsEvent eventSize fde version

def write (ev : WriteRowsEvent) (version : BinlogVersion) : WriteM Unit := ev.rows.write version

def len (ev : WriteRowsEvent) (version : BinlogVersion) : Outcome Nat := ev.rows.len version

/-- Encoding the decode of a whole body gives the body back, under the conditions of
`RowsEvent.write_of_read`. -/
theorem write_of_read {fde : FormatDescriptionEvent} {data rest : List UInt8} {ev : WriteRowsEvent}
    (v : BinlogVersion)
    (h : (read (BinlogEventHeader.LEN + data.length) fde).run data = .ok (ev, rest))
    (hpost : fde.getEventTypeHeaderLength .writeRowsEvent = 10)
    (hwrite : fde.getEventTypeHeaderLength .writeRowsEvent = 10)
    (hextra : 2 ≤ ofLE ((data.drop 8).take 2))
    (hcount : lenencInt ev.rows.numColumns <+: data.drop (10 + ev.rows.extraData.length))
    (hsize : data.length ≤ u32Max - 19) : Emits (ev.write v) data := by
  simp only [read, StateT.run_map, Outcome.map_eq_ok, Prod.exists, Prod.mk.injEq] at h
  obtain ⟨r, rest', hr, rfl, rfl⟩ := h
  exact RowsEvent.write_of_read v hr hpost hwrite hextra hcount hsize

end WriteRowsEvent

namespace UpdateRowsEvent

def read (eventSize : Nat) (fde : FormatDescriptionEvent) : ReadM (List UInt8) UpdateRowsEvent :=
  let version := fde.versionOrV4
  UpdateRowsEvent.mk <$> RowsEvent.read .updateRowsEvent eventSize fde version

def write (ev : UpdateRowsEvent) (version : BinlogVersion) : WriteM Unit := ev.rows.write version

def len (ev : UpdateRowsEvent) (version : BinlogVersion) : Outcome Nat := ev.rows.len version

/-- Encoding the decode of a whole body gives the body back, under the conditions of
`RowsEvent.write_of_read`. -/
theorem write_of_read {fde : FormatDescriptionEvent} {data rest : List UInt8} {ev : UpdateRowsEvent}
    (v : BinlogVersion)
    (h : (read (BinlogEventHeader.LEN + data.length) fde).run data = .ok (ev, rest))
    (hpost : fde.getEventTypeHeaderLength .updateRowsEvent = 10)
    (hwrite : fde.getEventTypeHeaderLength .writeRowsEvent = 10)
    (hextra : 2 ≤ ofLE ((data.drop 8).take 2))
    (hcount : lenencInt ev.rows.numColumns <+: data.drop (10 + ev.rows.extraData.length))
    (hsize : data.length ≤ u32Max - 19) : Emits (ev.write v) data := by
  simp only [read, StateT.run_map, Outcome.map_eq_ok, Prod.exists, Prod.mk.injEq] at h
  obtain ⟨r, rest', hr, rfl, rfl⟩ := h
  exact RowsEvent.write_of_read v hr hpost hwrite hextra hcount hsize

end UpdateRowsEvent

namespace DeleteRowsEvent

def read (eventSize : Nat) (fde : FormatDescriptionEvent) : ReadM (List UInt8) DeleteRowsEvent :=
  let version := fde.versionOrV4
  DeleteRowsEvent.mk <$> RowsEvent.read .deleteRowsEvent eventSize fde version

def write (ev : DeleteRowsEvent) (version : BinlogVersion) : WriteM Unit := ev.rows.write version

def len (ev : DeleteRowsEvent) (version : BinlogVersion) : Outcome Nat := ev.rows.len version

/-- Encoding the decode of a whole body gives the body back, under the conditions of
`RowsEvent.write_of_read`. -/
theorem write_of_read {fde : FormatDescriptionEvent} {data rest : List UInt8} {ev : DeleteRowsEvent}
    (v : BinlogVersion)
    (h : (read (BinlogEventHeader.LEN + data.length) fde).run data = .ok (ev, rest))
    (hpost : fde.getEventTypeHeaderLength .deleteRowsEvent = 10)
    (hwrite : fde.getEventTypeHeaderLength .writeRowsEvent = 10)
    (hextra : 2 ≤ ofLE ((data.drop 8).take 2))
    (hcount : lenencInt ev.rows.numColumns <+: data.drop (10 + ev.rows.extraData.length))
    (hsize : data.length ≤ u32Max - 19) : Emits (ev.write v) data := by
  simp only [read, StateT.run_map, Outcome.map_eq_ok, Prod.exists, Prod.mk.injEq] at h
  obtain ⟨r, rest', hr, rfl, rfl⟩ := h
  exact RowsEvent.write_of_read v hr hpost hwrite hextra hcount hsize

end DeleteRowsEvent

end BinlogCodec
