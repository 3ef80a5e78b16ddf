import Augusta.Capture.Reading

/-! A capture's file read back, whole or cut anywhere past its header.

      capture ──pieces──▶ frames ──flatten──▶ file ──take k──▶ what is left
                                                                   │ readCapture
      its header, and the Joins and events wholly before k  ◀──────┘ -/

namespace Augusta.Capture
open Lib.Protobuf
open Protocol Link Math

/-! ### One piece -/

/-- What the file says a piece is. -/
def Piece.record : Piece → CaptureRecord
  | .header made => .header made
  | .join player made => .join { player, join := made }
  | .event made => .event made

/-- What the source's types hold: a UUID is 128 bits, a time 64, a Seen offset 32. -/
def Piece.InTypes : Piece → Prop
  | .header made => made.match_ < 2 ^ 128 ∧ -2 ^ 63 ≤ made.started ∧ made.started < 2 ^ 63
  | .join _ made => made.session < 2 ^ 128
  | .event ⟨_, .command _ seenOffset _⟩ => -2 ^ 31 ≤ seenOffset ∧ seenOffset < 2 ^ 31
  | .event _ => True

/-- Its values on the wire's grids. -/
def Piece.OnGrids : Piece → Prop
  | .join _ made => snapPosition made.spawn = made.spawn
  | .event ⟨_, .command _ _ command⟩ =>
      snapDirection command.movement.direction = command.movement.direction ∧
        snapAngle command.yaw = command.yaw ∧ snapAngle command.pitch = command.pitch ∧
        snapFraction command.seenFraction = command.seenFraction
  | _ => True

/-- A captured Command's own Seen tick is 0. -/
def Piece.Unseen : Piece → Prop
  | .event ⟨_, .command _ _ command⟩ => command.seenTick = 0
  | _ => True

/-- The Match end names no player 0. -/
def Piece.Named : Piece → Prop
  | .event ⟨_, .matchEnd winner⟩ => winner ≠ some 0
  | _ => True

structure Piece.Carried (piece : Piece) : Prop where
  types : piece.InTypes
  grids : piece.OnGrids
  unseen : piece.Unseen
  named : piece.Named

/-- A Command on the grids that saw nothing comes back as it was. -/
theorem command_back {player : Player} {offset : UInt32} {seenOffset : ℤ} {command : Command}
    (h : (Piece.event ⟨offset, .command player seenOffset command⟩).Carried) :
    commandFromWire (commandToWire command command.seenTick).snapped 0 = command := by
  obtain ⟨-, ⟨hdirection, hyaw, hpitch, hfraction⟩, hseen, -⟩ := h
  have hseen : command.seenTick = 0 := hseen
  have hback := commandFromWire_toWire (UInt64.le_refl command.seenTick)
  rw [hseen] at hback ⊢
  have hnewest : max (0 : Tick) (0 - min kMaxSeenAge 0) = 0 := by decide
  simp only [hback, arrived, hdirection, hyaw, hpitch, hfraction, hseen, hnewest]
  rw [← hseen]

/-- A carried piece's record comes back through the wire as it was. -/
theorem recordFromWire_pieceToWire {piece : Piece} (h : piece.Carried) :
    recordFromWire (pieceToWire piece).snapped = piece.record := by
  cases piece with
  | header header =>
      obtain ⟨hmatch, hlow, hhigh⟩ := h.types
      simp only [pieceToWire, CaptureRecordWire.snapped, recordFromWire, headerFromWire,
        headerToWire, uuid_back hmatch, text_back, Int64.toInt_ofInt_of_le hlow hhigh, Piece.record]
  | join player join =>
      have hspawn : snapPosition join.spawn = join.spawn := h.grids
      simp only [pieceToWire, CaptureRecordWire.snapped, recordFromWire, joinFromWire, joinToWire,
        CapturedJoinWire.snapped, uuid_back h.types, text_back, hspawn, Piece.record]
  | event event =>
      obtain ⟨offset, event⟩ := event
      cases event with
      | command player seenOffset command =>
          obtain ⟨hlow, hhigh⟩ := h.types
          simp only [pieceToWire, eventToWire, CaptureRecordWire.snapped, recordFromWire,
            CapturedCommandWire.snapped, command_back h, Int32.toInt_ofInt_of_le hlow hhigh,
            Piece.record]
      | leave player => rfl
      | death victim killer => rfl
      | matchEnd winner =>
          have hwinner : winner ≠ some 0 := h.named
          cases winner with
          | none => rfl
          | some winner =>
              have hpos : winner ≠ 0 := fun hzero => hwinner (by rw [hzero])
              simp [pieceToWire, eventToWire, CaptureRecordWire.snapped, recordFromWire, hpos,
                Piece.record]

/-- Protobuf parses what it serialized of this piece. -/
def Parses (parse : Bytes → Option Pb.CaptureRecord) (piece : Piece) : Prop :=
  ∀ written, (pieceToWire piece).write isUtf8 = .ok written → parse written.bytes = some written

section
variable {parse : Bytes → Option Pb.CaptureRecord}

theorem decodeCapture_encodeCapture {piece : Piece} {payload : Bytes} (hcarried : piece.Carried)
    (hparse : Parses parse piece) (h : encodeCapture piece = .ok payload) :
    decodeCapture parse payload = some piece.record ∧ payload.length ≤ kMaxFramePayload := by
  have hlength := length_encodeCaptureRecord_le h
  obtain ⟨written, hwritten, rfl⟩ := Except.map_eq_ok.mp h
  have hsize : ¬ kMaxParsedSize < written.bytes.length :=
    Nat.not_lt.mpr (Nat.le_trans hlength (by decide))
  refine ⟨?_, hlength⟩
  rw [decodeCapture, decodeCaptureRecord, if_neg hsize, hparse written hwritten]
  simp only [CaptureRecordWire.read_write hwritten, recordFromWire_pieceToWire hcarried]

/-- What a piece is on disk. -/
theorem encodePiece_eq_ok {piece : Piece} {encoded : Encoded} :
    encodePiece piece = .ok encoded ↔
      ∃ payload, encodeCapture piece = .ok payload ∧ payload.length ≤ kMaxFramePayload ∧
        encoded = (match piece with
          | .header _ => kCaptureMagic ++ (kCaptureFormatVersion :: frameOf payload)
          | _ => frameOf payload) := by
  simp only [encodePiece, Except.bind_eq_ok, framed_eq_ok]
  constructor
  · rintro ⟨frame, ⟨payload, hencode, hlength, rfl⟩, h⟩
    refine ⟨payload, hencode, hlength, ?_⟩
    cases piece <;> exact (Except.pure_eq_ok.mp h).symm
  · rintro ⟨payload, hencode, hlength, rfl⟩
    refine ⟨_, ⟨payload, hencode, hlength, rfl⟩, ?_⟩
    cases piece <;> rfl

/-- The frames of pieces after the header, and what they decode to. -/
theorem decoded_of_encoded {pieces : List Piece} {encoded : List Encoded}
    (h : pieces.mapM encodePiece = .ok encoded)
    (hpieces : ∀ piece ∈ pieces, piece.Carried ∧ Parses parse piece)
    (hrest : ∀ piece ∈ pieces, ∀ header, piece ≠ .header header) :
    ∃ payloads, encoded = payloads.map frameOf ∧ Decoded parse payloads (pieces.map Piece.record) := by
  induction pieces generalizing encoded with
  | nil =>
      rw [List.mapM_nil, Except.pure_eq_ok] at h
      exact ⟨[], h.symm, .nil⟩
  | cons piece pieces ih =>
      rw [List.mapM_cons, Except.bind_eq_ok] at h
      obtain ⟨first, hfirst, h⟩ := h
      obtain ⟨others, hothers, h⟩ := Except.bind_eq_ok.mp h
      obtain ⟨payloads, rfl, hdecoded⟩ := ih hothers
        (fun other hother => hpieces other (List.mem_cons_of_mem _ hother))
        (fun other hother => hrest other (List.mem_cons_of_mem _ hother))
      obtain ⟨hcarried, hparse⟩ := hpieces piece List.mem_cons_self
      obtain ⟨payload, hencode, hlength, rfl⟩ := encodePiece_eq_ok.mp hfirst
      refine ⟨payload :: payloads, ?_,
        .cons (decodeCapture_encodeCapture hcarried hparse hencode) hdecoded⟩
      rw [← Except.pure_eq_ok.mp h]
      cases piece with
      | header header => exact absurd rfl (hrest _ List.mem_cons_self header)
      | join player join => rfl
      | event event => rfl

/-! ### The order they are written in -/

/-- The Joins of a capture as its file says them. -/
def MatchCapture.captured (capture : MatchCapture) : List CapturedJoin :=
  capture.joins.mapIdx fun i join => { player := UInt8.ofNat (i + 1), join }

theorem numbered_mapIdx {joins : List Join} : ∀ {n : ℕ}, n + joins.length ≤ 255 →
    Numbered n (joins.mapIdx fun i join => { player := UInt8.ofNat (n + i + 1), join }) := by
  induction joins with
  | nil => exact fun _ => trivial
  | cons join rest ih =>
      intro n hlength
      rw [List.length_cons] at hlength
      rw [List.mapIdx_cons]
      refine ⟨rfl, ?_, ?_⟩
      · rw [UInt8.toNat_ofNat']
        omega
      · have hrest := ih (n := n + 1) (by omega)
        simpa only [Nat.add_right_comm n 1, Nat.add_assoc n, Nat.add_comm 1] using hrest

theorem records_eq (capture : MatchCapture) :
    (joinPieces capture.joins ++ capture.events.map Piece.event).map Piece.record =
      capture.captured.map CaptureRecord.join ++ capture.events.map CaptureRecord.event := by
  simp only [List.map_append, joinPieces, MatchCapture.captured, List.mapIdx_eq_zipIdx_map,
    List.map_map]
  rfl

theorem captured_join (capture : MatchCapture) :
    capture.captured.map CapturedJoin.join = capture.joins := by
  rw [MatchCapture.captured, List.mapIdx_eq_zipIdx_map, List.map_map]
  exact List.zipIdx_map_fst 0 capture.joins

/-- The Joins among the first `n` records. -/
theorem joinOf_take (joins : List CapturedJoin) (events : List EventAt) (n : ℕ) :
    ((joins.map CaptureRecord.join ++ events.map CaptureRecord.event).take n).filterMap joinOf =
      (joins.map CapturedJoin.join).take n := by
  have hjoins : joinOf ∘ CaptureRecord.join = some ∘ CapturedJoin.join := rfl
  have hevents : joinOf ∘ CaptureRecord.event = fun _ => none := rfl
  rw [List.take_append, List.filterMap_append, ← List.map_take, ← List.map_take,
    List.filterMap_map, List.filterMap_map, hjoins, hevents, List.filterMap_eq_map,
    List.filterMap_none, List.append_nil, List.map_take]

/-- The events among the first `n` records. -/
theorem eventOf_take (joins : List CapturedJoin) (events : List EventAt) (n : ℕ) :
    ((joins.map CaptureRecord.join ++ events.map CaptureRecord.event).take n).filterMap eventOf =
      events.take (n - joins.length) := by
  have hjoins : eventOf ∘ CaptureRecord.join = fun _ => none := rfl
  have hevents : eventOf ∘ CaptureRecord.event = some := rfl
  rw [List.take_append, List.filterMap_append, ← List.map_take, ← List.map_take,
    List.filterMap_map, List.filterMap_map, hjoins, hevents, List.filterMap_none,
    List.filterMap_some, List.nil_append, List.length_map]

/-! ### The file -/

/-- A file that starts as a capture does, and what follows its header. -/
theorem readCaptureFile_start {payload rest : Bytes} (hlength : payload.length ≤ kMaxFramePayload) :
    readCaptureFile parse
        { rest := kCaptureMagic ++ (kCaptureFormatVersion :: (frameOf payload ++ rest)) } =
      match decodeCapture parse payload with
      | some (.header header) => do
          let (records, torn) ← readRecords parse (rest.length + 1) {} { rest }
          return { header, records, torn }
      | _ => .error { code := .unsupported } := by
  have hmagic : readMagic
      { rest := kCaptureMagic ++ (kCaptureFormatVersion :: (frameOf payload ++ rest)) } =
        .ok { rest := kCaptureFormatVersion :: (frameOf payload ++ rest) } := by
    simp [readMagic, Stream.read]
  have hversion : readFormatVersion { rest := kCaptureFormatVersion :: (frameOf payload ++ rest) } =
      .ok { rest := frameOf payload ++ rest } := by
    simp [readFormatVersion, Stream.read]
  rw [readCaptureFile, if_neg Bool.false_ne_true, hmagic, Except.ok_bind, hversion, Except.ok_bind,
    readHeader, readFrame_frame hlength]
  cases hdecode : decodeCapture parse payload with
  | none =>
      simp only [hdecode]
      rfl
  | some record =>
      simp only [hdecode]
      cases record <;> rfl

/-- The capture's file cut anywhere past its header, its Joins numbered in a byte. -/
theorem readCapture_cut {capture : MatchCapture} {bytes : Bytes}
    (hwrite : writeCapture capture = .ok bytes) (hjoins : capture.joins.length ≤ 255)
    (hordered : WellOrdered capture.joins.length capture.events)
    (hpieces : ∀ piece ∈ capture.pieces, piece.Carried ∧ Parses parse piece) :
    ∃ header records, encodePiece (.header capture.header) = .ok header ∧
      (joinPieces capture.joins ++ capture.events.map Piece.event).mapM encodePiece = .ok records ∧
      bytes = header ++ records.flatten ∧
      ∀ k, header.length ≤ k → ∀ n torn, Lib.wholeBefore records (k - header.length) = (n, torn) →
        readCapture parse { rest := bytes.take k } = .ok
          { header := capture.header, joins := capture.joins.take n,
            events := capture.events.take (n - capture.joins.length), torn } := by
  obtain ⟨encoded, hencoded, rfl⟩ := Except.map_eq_ok.mp hwrite
  rw [MatchCapture.pieces, List.cons_append, List.mapM_cons, Except.bind_eq_ok] at hencoded
  obtain ⟨header, hheader, hencoded⟩ := hencoded
  obtain ⟨records, hrecords, hencoded⟩ := Except.bind_eq_ok.mp hencoded
  rw [← Except.pure_eq_ok.mp hencoded]
  refine ⟨header, records, hheader, hrecords, by rw [List.flatten_cons], ?_⟩
  obtain ⟨payload, hencode, hlength, rfl⟩ := encodePiece_eq_ok.mp hheader
  obtain ⟨hcarried, hparse⟩ := hpieces (.header capture.header) List.mem_cons_self
  obtain ⟨hdecode, -⟩ := decodeCapture_encodeCapture hcarried hparse hencode
  obtain ⟨payloads, rfl, hdecoded⟩ := decoded_of_encoded hrecords
    (fun piece hpiece => hpieces piece (List.mem_cons_of_mem _ hpiece)) (by
      intro piece hpiece header
      rcases List.mem_append.mp hpiece with hjoin | hevent
      · obtain ⟨i, _, rfl⟩ := List.mem_mapIdx.mp hjoin
        nofun
      · obtain ⟨event, -, rfl⟩ := List.mem_map.mp hevent
        nofun)
  rw [records_eq] at hdecoded
  have hnumbered := @numbered_mapIdx capture.joins 0 (by omega)
  have hadmits := RecordOrder.admitsAll_joins.mpr
    ⟨capture.captured, capture.events, rfl, by simpa [MatchCapture.captured] using hnumbered,
      by simpa [MatchCapture.captured] using hordered⟩
  intro k hk n torn hcut
  have hstart : (kCaptureMagic ++ (kCaptureFormatVersion :: frameOf payload) ++
      (payloads.map frameOf).flatten).take k = kCaptureMagic ++ (kCaptureFormatVersion ::
        (frameOf payload ++ (payloads.map frameOf).flatten.take
          (k - (kCaptureMagic ++ (kCaptureFormatVersion :: frameOf payload)).length))) := by
    rw [List.take_append, List.take_of_length_le hk, List.append_assoc, List.cons_append]
  have hread := readRecords_cut hdecoded false hadmits (Nat.lt_succ_self
    ((payloads.map frameOf).flatten.take
      (k - (kCaptureMagic ++ (kCaptureFormatVersion :: frameOf payload)).length)).length)
  rw [hcut] at hread
  have hcount : capture.captured.length = capture.joins.length := List.length_mapIdx
  have hfile : readCaptureFile parse { rest := kCaptureMagic ++ (kCaptureFormatVersion ::
      (frameOf payload ++ (payloads.map frameOf).flatten.take
        (k - (kCaptureMagic ++ (kCaptureFormatVersion :: frameOf payload)).length))) } =
      .ok { header := capture.header, torn,
            records := (capture.captured.map CaptureRecord.join ++
              capture.events.map CaptureRecord.event).take n } := by
    rw [readCaptureFile_start hlength]
    simp only [hdecode, Piece.record, hread, Except.ok_bind]
    rfl
  rw [List.flatten_cons, hstart, readCapture, hfile, Except.ok_bind]
  simp only [joinOf_take, eventOf_take, captured_join, hcount]
  rfl

/-- What is accepted, of records each in its frame: a header, and records that follow it. -/
theorem readCapture_accepts {payloads : List Bytes}
    (hlengths : ∀ payload ∈ payloads, payload.length ≤ kMaxFramePayload) :
    (∃ capture, readCapture parse { rest := kCaptureMagic ++
        (kCaptureFormatVersion :: (payloads.map frameOf).flatten) } = .ok capture) ↔
      ∃ header records, Decoded parse payloads (.header header :: records) ∧
        RecordOrder.Follow 0 records := by
  cases payloads with
  | nil =>
      constructor
      · rintro ⟨capture, h⟩
        cases h
      · rintro ⟨header, records, ⟨⟩, -⟩
  | cons payload payloads =>
      have hlength := hlengths payload List.mem_cons_self
      have hothers : ∀ other ∈ payloads, other.length ≤ kMaxFramePayload :=
        fun other hother => hlengths other (List.mem_cons_of_mem _ hother)
      simp only [List.map_cons, List.flatten_cons, readCapture, readCaptureFile_start hlength]
      constructor
      · rintro ⟨capture, h⟩
        obtain ⟨file, hfile, -⟩ := Except.bind_eq_ok.mp h
        split at hfile
        · next header hdecode =>
            obtain ⟨⟨records, torn⟩, hread, -⟩ := Except.bind_eq_ok.mp hfile
            exact ⟨header, records, .cons ⟨hdecode, hlength⟩ (readRecords_decoded hothers hread),
              RecordOrder.admitsAll_joins.mp (readRecords_admits hread)⟩
        · cases hfile
      · rintro ⟨header, records, hdecoded, hfollow⟩
        obtain ⟨⟨hdecode, -⟩, hrest⟩ := List.forall₂_cons.mp hdecoded
        have hread := readRecords_cut hrest false (RecordOrder.admitsAll_joins.mpr hfollow)
          (Nat.lt_succ_self ((payloads.map frameOf).flatten.take
            (payloads.map frameOf).flatten.length).length)
        rw [List.take_length] at hread
        simp only [hdecode, hread, Except.ok_bind]
        exact ⟨_, rfl⟩

/-- A player's number is a byte, so no more Joins than those are ever read. -/
theorem length_numbered_le {joins : List CapturedJoin} : ∀ {n : ℕ}, n ≤ 255 → Numbered n joins →
    n + joins.length ≤ 255 := by
  induction joins with
  | nil => exact fun hn _ => hn
  | cons join rest ih =>
      rintro n - ⟨-, hplayer, hrest⟩
      have hlt := join.player.toNat_lt
      have := ih (n := n + 1) (by omega) hrest
      rw [List.length_cons]
      omega

theorem readCapture_joins_le {s : Stream} {capture : MatchCapture}
    (h : readCapture parse s = .ok capture) : capture.joins.length ≤ 255 := by
  obtain ⟨file, hfile, h⟩ := Except.bind_eq_ok.mp h
  rw [← Except.pure_eq_ok.mp h]
  unfold readCaptureFile at hfile
  split_ifs at hfile
  obtain ⟨s, -, hfile⟩ := Except.bind_eq_ok.mp hfile
  obtain ⟨s, -, hfile⟩ := Except.bind_eq_ok.mp hfile
  obtain ⟨⟨header, s⟩, -, hfile⟩ := Except.bind_eq_ok.mp hfile
  obtain ⟨⟨records, torn⟩, hread, hfile⟩ := Except.bind_eq_ok.mp hfile
  rw [← Except.pure_eq_ok.mp hfile]
  obtain ⟨joins, events, rfl, hnumbered, -⟩ :=
    RecordOrder.admitsAll_joins.mp (readRecords_admits hread)
  have hall := joinOf_take joins events (joins.length + events.length)
  rw [List.take_of_length_le (by simp)] at hall
  have := length_numbered_le (Nat.zero_le _) hnumbered
  simp only [hall, List.length_take, List.length_map]
  omega

theorem named_of_wellOrdered {capture : MatchCapture}
    (h : WellOrdered capture.joins.length capture.events) {piece : Piece}
    (hpiece : piece ∈ capture.pieces) : piece.Named := by
  rcases List.mem_cons.mp hpiece with rfl | hpiece
  · trivial
  rcases List.mem_append.mp hpiece with hjoin | hevent
  · obtain ⟨i, _, rfl⟩ := List.mem_mapIdx.mp hjoin
    trivial
  · obtain ⟨⟨offset, event⟩, hlisted, rfl⟩ := List.mem_map.mp hevent
    cases event with
    | matchEnd winner =>
        rintro rfl
        have := h.named _ hlisted 0 (by simp [Event.players])
        simp at this
    | _ => trivial

/-- CORRECT: a capture of at most 255 Joins whose events are well ordered, whose values are on the
    grids and whose Commands' own Seen tick is 0 is read back from its file as it was, not torn; cut
    anywhere past its header, the file is read as the Joins and events wholly before the cut, torn
    if the cut is inside one. And of any records each in its frame, those accepted are a header,
    Joins numbered from 1, then events in offset order that name them, a Match end last. -/
theorem capture_file_law {capture : MatchCapture} {bytes : Bytes}
    (hwrite : writeCapture capture = .ok bytes) (hjoins : capture.joins.length ≤ 255)
    (hordered : WellOrdered capture.joins.length capture.events)
    (hpieces : ∀ piece ∈ capture.pieces,
      piece.InTypes ∧ piece.OnGrids ∧ piece.Unseen ∧ Parses parse piece) :
    readCapture parse { rest := bytes } = .ok { capture with torn := false } ∧
    (∃ header records, encodePiece (.header capture.header) = .ok header ∧
      (joinPieces capture.joins ++ capture.events.map Piece.event).mapM encodePiece = .ok records ∧
      bytes = header ++ records.flatten ∧
      ∀ k, header.length ≤ k → ∀ n torn, Lib.wholeBefore records (k - header.length) = (n, torn) →
        readCapture parse { rest := bytes.take k } = .ok
          { header := capture.header, joins := capture.joins.take n,
            events := capture.events.take (n - capture.joins.length), torn }) ∧
    ∀ payloads : List Bytes, (∀ payload ∈ payloads, payload.length ≤ kMaxFramePayload) →
      ((∃ capture, readCapture parse { rest := kCaptureMagic ++
          (kCaptureFormatVersion :: (payloads.map frameOf).flatten) } = .ok capture) ↔
        ∃ header records, Decoded parse payloads (.header header :: records) ∧
          RecordOrder.Follow 0 records) := by
  have hcarried : ∀ piece ∈ capture.pieces, piece.Carried ∧ Parses parse piece := by
    intro piece hpiece
    obtain ⟨htypes, hgrids, hunseen, hparse⟩ := hpieces piece hpiece
    exact ⟨⟨htypes, hgrids, hunseen, named_of_wellOrdered hordered hpiece⟩, hparse⟩
  have hcut := readCapture_cut hwrite hjoins hordered hcarried
  refine ⟨?_, hcut, fun payloads hlengths => readCapture_accepts hlengths⟩
  obtain ⟨header, records, -, hrecords, rfl, hcut⟩ := hcut
  have hcount : records.length = capture.joins.length + capture.events.length := by
    rw [Except.length_mapM hrecords, List.length_append, joinPieces, List.length_mapIdx,
      List.length_map]
  have hwhole := hcut (header ++ records.flatten).length (by simp) records.length false
    (Lib.wholeBefore_of_le (by simp))
  rwa [List.take_length, List.take_of_length_le (by omega), List.take_of_length_le (by omega)]
    at hwhole

end

/-! ### A file of plain records -/

/-- A piece's texts are no longer than the protocol carries. -/
def Piece.Short : Piece → Prop
  | .header made => (textToWire made.engineVersion).length ≤ kMaxEngineVersionLength
  | .join _ made => (textToWire made.character).length ≤ kMaxCharacterNameLength
  | .event _ => True

theorem text_carried {text : String} {max : ℕ} (h : (textToWire text).length ≤ max) :
    Outbound.text isUtf8 (textToWire text) max = .ok (textToWire text) := by
  have hdata : (⟨(textToWire text).toArray⟩ : ByteArray) = text.toUTF8 := by simp [textToWire]
  refine Outbound.text_eq_ok.mpr ⟨⟨h, ?_⟩, rfl⟩
  rw [isUtf8, hdata, String.fromUTF8?, dif_pos (show text.toUTF8.IsValidUTF8 from text.isValidUTF8)]
  rfl

/-- Only a text too long keeps a piece from its file. -/
theorem encodePiece_of_short {piece : Piece} (h : piece.Short) :
    ∃ encoded, encodePiece piece = .ok encoded := by
  have hwrites : ∃ written, (pieceToWire piece).write isUtf8 = .ok written := by
    cases piece with
    | header header =>
        rw [pieceToWire, CaptureRecordWire.write, CaptureHeaderWire.write, headerToWire,
          text_carried h]
        exact ⟨_, rfl⟩
    | join player join =>
        rw [pieceToWire, CaptureRecordWire.write, CapturedJoinWire.write, joinToWire,
          text_carried h]
        exact ⟨_, rfl⟩
    | event event =>
        obtain ⟨offset, event⟩ := event
        cases event with
        | command player seenOffset command =>
            obtain ⟨written, hwritten⟩ := commandToWire_writes command command.seenTick
            rw [pieceToWire, eventToWire, CaptureRecordWire.write, CapturedCommandWire.write,
              hwritten]
            exact ⟨_, rfl⟩
        | _ => exact ⟨_, rfl⟩
  obtain ⟨written, hwritten⟩ := hwrites
  have hencode : encodeCapture piece = .ok written.bytes := by
    rw [encodeCapture, encodeCaptureRecord, hwritten, Except.ok_map]
  exact ⟨_, encodePiece_eq_ok.mpr
    ⟨written.bytes, hencode, length_encodeCaptureRecord_le hencode, rfl⟩⟩

theorem writeCapture_of_short {capture : MatchCapture}
    (h : ∀ piece ∈ capture.pieces, piece.Short) : ∃ bytes, writeCapture capture = .ok bytes := by
  obtain ⟨encoded, hencoded⟩ := Except.mapM_ok_of_forall
    fun piece hpiece => encodePiece_of_short (h piece hpiece)
  exact ⟨encoded.flatten, by rw [writeCapture, hencoded, Except.ok_map]⟩

/-- The plain header and Joins, and a Leave, as they are written. -/
def plainHeader : Pb.CaptureHeader where
  serverPack := List.replicate 32 0
  clientPack := List.replicate 32 0
  match_ := List.replicate 16 0

def plainJoin (player : UInt8) : Pb.CapturedJoin where
  player := player.toUInt32
  session := List.replicate 16 0

def plainLeave : Pb.CapturedLeave := { offset := 3, player := 1 }

/-- The player a plain Join's bytes name: the varint after its field's tag, 0 if it has none. -/
def playerIn (payload : Bytes) : UInt8 :=
  match payload.drop 3 with
  | 16 :: rest => ((readVarint 10 rest).map fun (n, _) => UInt8.ofNat n).getD 0
  | _ => 0

/-- Protobuf's parsing, of those records. -/
def parsePlain (payload : Bytes) : Option Pb.CaptureRecord :=
  if payload = (Pb.CaptureRecord.header plainHeader).bytes then some (.header plainHeader)
  else if payload = (Pb.CaptureRecord.leave plainLeave).bytes then some (.leave plainLeave)
  else some (.join (plainJoin (playerIn payload)))

theorem plainJoin_bytes : ∀ n : Fin 256,
    let payload := (Pb.CaptureRecord.join (plainJoin (UInt8.ofNat n))).bytes
    payload ≠ (Pb.CaptureRecord.header plainHeader).bytes ∧
      payload ≠ (Pb.CaptureRecord.leave plainLeave).bytes ∧ playerIn payload = UInt8.ofNat n := by
  decide +kernel

theorem parses_plainHeader : Parses parsePlain (.header {}) := by
  intro written hwritten
  have hplain : (pieceToWire (.header {})).write isUtf8 = .ok (.header plainHeader) := by
    rw [pieceToWire, CaptureRecordWire.write, CaptureHeaderWire.write, headerToWire,
      text_carried (by decide)]
    rfl
  rw [hplain] at hwritten
  cases hwritten
  exact if_pos rfl

theorem parses_plainJoin (player : Player) : Parses parsePlain (.join player ⟨0, "", {}⟩) := by
  intro written hwritten
  have hplain : (pieceToWire (.join player ⟨0, "", {}⟩)).write isUtf8 =
      .ok (.join (plainJoin player)) := by
    have hspawn : steps .zero kPositionGrid = 0 := by decide
    have hsession : (uuidToWire 0).toList = List.replicate 16 0 := by decide
    rw [pieceToWire, CaptureRecordWire.write, CapturedJoinWire.write, joinToWire,
      text_carried (by decide)]
    simp only [hspawn, hsession]
    rfl
  rw [hplain] at hwritten
  cases hwritten
  obtain ⟨hheader, hleave, hplayer⟩ := plainJoin_bytes ⟨player.toNat, player.toNat_lt⟩
  rw [UInt8.ofNat_toNat] at hheader hleave hplayer
  rw [parsePlain, if_neg hheader, if_neg hleave, hplayer]

theorem parses_plainLeave : Parses parsePlain (.event ⟨3, .leave 1⟩) := by
  intro written hwritten
  cases hwritten
  rw [parsePlain, if_neg (by decide)]
  exact if_pos rfl

/-- One player, who leaves. -/
def soloCapture : MatchCapture where
  header := {}
  joins := [⟨0, "", {}⟩]
  events := [⟨3, .leave 1⟩]

theorem soloCapture_eq :
    soloCapture.pieces = [.header {}, .join 1 ⟨0, "", {}⟩, .event ⟨3, .leave 1⟩] := rfl

theorem soloCapture_pieces : ∀ piece ∈ soloCapture.pieces,
    piece.InTypes ∧ piece.OnGrids ∧ piece.Unseen ∧ Parses parsePlain piece := by
  rintro piece hpiece
  simp only [soloCapture_eq, List.mem_cons, List.not_mem_nil, or_false] at hpiece
  rcases hpiece with rfl | rfl | rfl
  · exact ⟨⟨by decide, by decide, by decide⟩, trivial, trivial, parses_plainHeader⟩
  · exact ⟨Nat.two_pow_pos 128, (by decide : snapPosition {} = {}), trivial, parses_plainJoin 1⟩
  · exact ⟨trivial, trivial, trivial, parses_plainLeave⟩

theorem capture_file_law_solo : ∃ bytes, writeCapture soloCapture = .ok bytes ∧
    readCapture parsePlain { rest := bytes } = .ok soloCapture := by
  have hshort : ∀ piece ∈ soloCapture.pieces, piece.Short := by
    rintro piece hpiece
    simp only [soloCapture_eq, List.mem_cons, List.not_mem_nil, or_false] at hpiece
    rcases hpiece with rfl | rfl | rfl
    · exact Nat.zero_le _
    · exact Nat.zero_le _
    · trivial
  obtain ⟨bytes, hbytes⟩ := writeCapture_of_short hshort
  have hnamed : ∀ e ∈ soloCapture.events, ∀ player ∈ e.event.players,
      1 ≤ player.toNat ∧ player.toNat ≤ soloCapture.joins.length := by
    intro e he player hplayer
    obtain rfl : e = ⟨3, .leave 1⟩ := by simpa only [soloCapture, List.mem_singleton] using he
    obtain rfl : player = 1 := by simpa only [Event.players, List.mem_singleton] using hplayer
    exact ⟨Nat.le_refl 1, Nat.le_refl 1⟩
  have hordered : WellOrdered soloCapture.joins.length soloCapture.events :=
    ⟨.cons (by simp) .nil, hnamed, .cons (by simp) .nil⟩
  exact ⟨bytes, hbytes, (capture_file_law hbytes (by decide) hordered soloCapture_pieces).1⟩

/-- More players than a byte numbers: the last is written as player 0. -/
def crowdedCapture : MatchCapture where
  header := {}
  joins := List.replicate 256 ⟨0, "", {}⟩

theorem crowdedCapture_pieces : ∀ piece ∈ crowdedCapture.pieces,
    piece = .header {} ∨ ∃ player, piece = .join player ⟨0, "", {}⟩ := by
  intro piece hpiece
  rcases List.mem_cons.mp hpiece with rfl | hpiece
  · exact .inl rfl
  rcases List.mem_append.mp hpiece with hjoin | hevent
  · obtain ⟨i, hi, rfl⟩ := List.mem_mapIdx.mp hjoin
    exact .inr ⟨UInt8.ofNat (i + 1), congrArg _ (List.getElem_replicate hi)⟩
  · cases hevent

/-- CORRECT: the bound is needed. A capture of 256 Joins, whose events are well ordered since it has
    none, is written, and its file is refused. -/
theorem crowded_capture_refused :
    ¬ ∀ parse capture bytes, writeCapture capture = .ok bytes →
      WellOrdered capture.joins.length capture.events →
      (∀ piece ∈ capture.pieces,
        piece.InTypes ∧ piece.OnGrids ∧ piece.Unseen ∧ Parses parse piece) →
      readCapture parse { rest := bytes } = .ok { capture with torn := false } := by
  intro h
  obtain ⟨bytes, hbytes⟩ := writeCapture_of_short fun piece hpiece => by
    rcases crowdedCapture_pieces piece hpiece with rfl | ⟨player, rfl⟩ <;> exact Nat.zero_le _
  have hordered : WellOrdered crowdedCapture.joins.length crowdedCapture.events :=
    ⟨.nil, nofun, .nil⟩
  have hread := h parsePlain crowdedCapture bytes hbytes hordered ?_
  · have hjoins := readCapture_joins_le hread
    have hcount : crowdedCapture.joins.length = 256 := List.length_replicate
    simp only [hcount] at hjoins
    omega
  · intro piece hpiece
    rcases crowdedCapture_pieces piece hpiece with rfl | ⟨player, rfl⟩
    · exact ⟨⟨by decide, by decide, by decide⟩, trivial, trivial, parses_plainHeader⟩
    · exact ⟨Nat.two_pow_pos 128, (by decide : snapPosition {} = {}), trivial,
        parses_plainJoin player⟩

end Augusta.Capture
