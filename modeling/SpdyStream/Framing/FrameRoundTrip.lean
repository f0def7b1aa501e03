/-
  Framing/FrameRoundTrip.lean --- frames written in a row are read back.

  `writeFrame` appends a fixed byte string to the output (`frameBytes`), given
  the compressed block of the frame's headers.  `readFrame` on those bytes and
  more reads the frame and stops exactly at the bytes behind it
  (`readFrame_frameBytes`).  The list theorem is an induction that carries the
  two zlib streams along, under the hypothesis that `decompressBlock` restores
  each header block (`BlocksRestored`).  Its loop can fail to, also over a zlib
  without fault: `headersRestored_iff` says for which blocks it does.
-/
import SpdyStream.Framing.HeaderRoundTrip
import SpdyStream.Framing.Reference

set_option autoImplicit false

namespace SpdyStream.Framing

open SpdyStream.Foundation

variable {Z : Zlib} {X : Http}

/-! ## The bytes of a frame -/

/-- The headers a frame carries. -/
def Frame.headers? {H : Type} : Frame H → Option H
  | .synStream f => some f.headers
  | .synReply f => some f.headers
  | .headers f => some f.headers
  | .rstStream _ | .settings _ | .ping _ | .goAway _ | .windowUpdate _ | .data _ => none

/-- The payload of a frame, given the compressed block of its headers. -/
def Frame.payload (block : Bytes) : Frame (HeaderMap X) → Bytes
  | .synStream f => synStreamPayload f block
  | .synReply f => streamIdPayload f.streamId block
  | .rstStream f => rstStreamPayload f
  | .settings f => settingsPayload f
  | .ping f => toBeBytes32 f.id
  | .goAway f => goAwayPayload f
  | .headers f => streamIdPayload f.streamId block
  | .windowUpdate f => windowUpdatePayload f
  | .data f => f.data

/-- The header that `write_control_frame` writes. -/
def controlHeader (frameType : UInt16) (flags : UInt8) (payload : Bytes) : Bytes :=
  toBeBytes16 (0x8000 ||| spdyVersion) ++ toBeBytes16 frameType ++ [flags] ++
    lengthBytes (UInt32.ofNat payload.length)

/-- The header of a frame. -/
def Frame.header (payload : Bytes) : Frame (HeaderMap X) → Bytes
  | .synStream f => controlHeader typeSynStream f.flags payload
  | .synReply f => controlHeader typeSynReply f.flags payload
  | .rstStream _ => controlHeader typeRstStream 0 payload
  | .settings f => controlHeader typeSettings f.flags payload
  | .ping _ => controlHeader typePing 0 payload
  | .goAway _ => controlHeader typeGoAway 0 payload
  | .headers f => controlHeader typeHeaders f.flags payload
  | .windowUpdate _ => controlHeader typeWindowUpdate 0 payload
  | .data f => toBeBytes32 (f.streamId &&& 0x7fffffff) ++ [f.flags] ++
      lengthBytes (UInt32.ofNat payload.length)

/-- The bytes of a frame on the wire. -/
def frameBytes (f : Frame (HeaderMap X)) (block : Bytes) : Bytes :=
  f.header (f.payload block) ++ f.payload block

/-! ## Writing -/

/-- On a transport that does not fail all bytes are written. -/
theorem writeAll_run {fr : Framer Z} (hroom : fr.room = none) (bytes : Bytes) :
    writeAll bytes fr = .ok () { fr with writer := fr.writer ++ bytes } := by
  simp only [writeAll, hroom]

/-- Two writes are one. -/
theorem writeAll_append (a b : Bytes) (fr : Framer Z) :
    (writeAll a >>= fun _ => writeAll b) fr = writeAll (a ++ b) fr := by
  show EStateM.bind (writeAll a) (fun _ => writeAll b) fr = _
  cases hroom : fr.room with
  | none => simp only [EStateM.bind, writeAll, hroom, List.append_assoc]
  | some n =>
      simp only [EStateM.bind, writeAll, hroom, List.length_append]
      by_cases ha : a.length ≤ n
      · by_cases hb : b.length ≤ n - a.length
        · have hboth : a.length + b.length ≤ n := by omega
          simp only [if_pos ha, if_pos hb, if_pos hboth, List.append_assoc, Nat.sub_sub]
        · have hboth : ¬ a.length + b.length ≤ n := by omega
          have htake : (a ++ b).take n = a ++ b.take (n - a.length) := by
            rw [List.take_append, List.take_of_length_le ha]
          simp only [if_pos ha, if_neg hb, if_neg hboth, htake, List.append_assoc]
      · have hboth : ¬ a.length + b.length ≤ n := by omega
        have htake : (a ++ b).take n = a.take n :=
          List.take_append_of_le_length (Nat.le_of_lt (Nat.not_le.mp ha))
        simp only [if_neg ha, if_neg hboth, htake]

theorem writeControlFrame_eq (frameType : UInt16) (flags : UInt8) (payload : Bytes)
    (fr : Framer Z) :
    writeControlFrame frameType flags payload fr =
      writeAll (controlHeader frameType flags payload ++ payload) fr :=
  writeAll_append _ _ fr

theorem writeDataFrame_eq (f : DataFrame) (fr : Framer Z) :
    writeDataFrame f fr = writeAll (frameBytes (X := X) (.data f) []) fr :=
  writeAll_append _ _ fr

/-- A frame without headers leaves the compressor alone. -/
theorem writeFrame_plain {f : Frame (HeaderMap X)} (hf : f.headers? = none) (fr : Framer Z) :
    writeFrame f fr = writeAll (frameBytes f []) fr := by
  cases f with
  | synStream _ | synReply _ | headers _ => exact absurd hf (by simp [Frame.headers?])
  | rstStream _ | settings _ | ping _ | goAway _ | windowUpdate _ =>
      exact writeControlFrame_eq _ _ _ fr
  | data f => exact writeDataFrame_eq f fr

theorem compressHeaders_run {h : HeaderMap X} {fr : Framer Z}
    (hs : (compressBlock Z fr.compressor (encodeHeaders h)).status = .ok .ok) :
    compressHeaders h fr =
      .ok (compressBlock Z fr.compressor (encodeHeaders h)).produced
        { fr with compressor := (compressBlock Z fr.compressor (encodeHeaders h)).state } := by
  simp only [compressHeaders, hs]

/-- A frame with headers is written around their compressed block. -/
theorem writeFrame_headers {f : Frame (HeaderMap X)} {h : HeaderMap X} (hf : f.headers? = some h)
    {fr : Framer Z}
    (hs : (compressBlock Z fr.compressor (encodeHeaders h)).status = .ok .ok) :
    writeFrame f fr = writeAll
      (frameBytes f (compressBlock Z fr.compressor (encodeHeaders h)).produced)
      { fr with compressor := (compressBlock Z fr.compressor (encodeHeaders h)).state } := by
  cases f with
  | synStream f | synReply f | headers f =>
      obtain rfl : f.headers = h := Option.some.inj hf
      show EStateM.bind (compressHeaders f.headers) _ fr = _
      simp only [EStateM.bind, compressHeaders_run hs]
      exact writeControlFrame_eq _ _ _ _
  | rstStream _ | settings _ | ping _ | goAway _ | windowUpdate _ | data _ =>
      exact absurd hf (by simp [Frame.headers?])

/-! ## Reading the header of a frame -/

/-- A call followed by another, where the first returns. -/
theorem FramerM.bind_ok {α β : Type} {x : FramerM Z α} {f : α → FramerM Z β} {fr fr' : Framer Z}
    {a : α} (h : x fr = .ok a fr') : (x >>= f) fr = f a fr' := by
  show EStateM.bind x f fr = _
  simp only [EStateM.bind, h]

/-- The framer with other bytes to read. -/
def Framer.withBytes (fr : Framer Z) (bytes : Bytes) : Framer Z :=
  { fr with reader := { fr.reader with bytes := bytes } }

theorem readExact_append {n : Nat} {mapErr : IoErrorKind → Error} {bs rest : Bytes}
    (fr : Framer Z) (hn : bs.length = n) :
    readExact n mapErr (fr.withBytes (bs ++ rest)) = .ok bs (fr.withBytes rest) := by
  subst hn
  simp [readExact, Framer.withBytes]

theorem lengthBytes_eq (len : UInt32) :
    lengthBytes len = [(len >>> 16).toUInt8, (len >>> 8).toUInt8, len.toUInt8] := by
  rw [lengthBytes, and_ff_toUInt8, and_ff_toUInt8, and_ff_toUInt8]

/-- The length field of a payload in range gives the length. -/
theorem lengthField_toNat {payload : Bytes} (h : payload.length < 2 ^ 24) :
    ((((UInt32.ofNat payload.length) >>> 16).toUInt8.toUInt32 <<< 16) |||
      (((UInt32.ofNat payload.length) >>> 8).toUInt8.toUInt32 <<< 8) |||
        (UInt32.ofNat payload.length).toUInt8.toUInt32).toNat = payload.length := by
  have hlen : (UInt32.ofNat payload.length).toNat = payload.length :=
    toNat_ofNat_length (Nat.lt_trans h (by decide))
  rw [or_eq_fromBeBytes32, fromBeBytes32_zero_of_lt (by rw [hlen]; exact h), hlen]

/-- A control frame is handed to `parse_control_frame` with its payload. -/
theorem readFrame_control (frameType : UInt16) (flags : UInt8) {payload : Bytes} (rest : Bytes)
    (fr : Framer Z) (htype : fromBeBytes16 (frameType >>> 8).toUInt8 frameType.toUInt8 = frameType)
    (h : payload.length < 2 ^ 24) :
    readFrame X (fr.withBytes (controlHeader frameType flags payload ++ (payload ++ rest))) =
      parseControlFrame X frameType flags payload (fr.withBytes rest) := by
  have hheader : controlHeader frameType flags payload =
      ([0x80, 0x03, (frameType >>> 8).toUInt8, frameType.toUInt8, flags,
        ((UInt32.ofNat payload.length) >>> 16).toUInt8,
        ((UInt32.ofNat payload.length) >>> 8).toUInt8,
        (UInt32.ofNat payload.length).toUInt8] : Bytes) := by
    rw [controlHeader, lengthBytes_eq]
    rfl
  have hversion : ¬ fromBeBytes16 (0x80 &&& 0x7f) 0x03 ≠ spdyVersion := by decide
  rw [hheader, readFrame, FramerM.bind_ok (readExact_append (n := 8) fr rfl)]
  simp only []
  rw [if_pos (by decide), if_neg hversion, lengthField_toNat h,
    FramerM.bind_ok (readExact_append fr rfl), htype]

/-- A data frame is read as it was written. -/
theorem readFrame_data {f : DataFrame} (rest : Bytes) (fr : Framer Z)
    (hid : f.streamId.toNat < 2 ^ 31) (h : f.data.length < 2 ^ 24) :
    readFrame X (fr.withBytes (frameBytes (X := X) (.data f) [] ++ rest)) =
      .ok (.data f) (fr.withBytes rest) := by
  obtain ⟨streamId, flags, data⟩ := f
  have hmask : streamId &&& 0x7fffffff = streamId := and_mask_eq_self 31 (by decide) hid
  have hheader : frameBytes (X := X) (.data ⟨streamId, flags, data⟩) [] ++ rest =
      ([(streamId >>> 24).toUInt8, (streamId >>> 16).toUInt8, (streamId >>> 8).toUInt8,
        streamId.toUInt8, flags, ((UInt32.ofNat data.length) >>> 16).toUInt8,
        ((UInt32.ofNat data.length) >>> 8).toUInt8,
        (UInt32.ofNat data.length).toUInt8] : Bytes) ++ (data ++ rest) := by
    rw [frameBytes, List.append_assoc]
    simp only [Frame.header, Frame.payload, hmask, lengthBytes_eq]
    rfl
  -- The top bit of a stream id is clear, so the frame is not a control frame.
  have htop : (streamId >>> 24).toUInt8.toNat < 2 ^ 7 := by
    have hbyte := toNat_shiftRight_toUInt8 streamId 24 (by decide)
    have hid' : streamId.toNat < 2 ^ 31 := hid
    simp only [UInt32.reduceToNat] at hbyte
    omega
  have hand : (streamId >>> 24).toUInt8 &&& (0x7f : UInt8) = (streamId >>> 24).toUInt8 := by
    apply UInt8.toNat_inj.mp
    rw [UInt8.toNat_and]
    have : (0x7f : UInt8).toNat = 2 ^ 7 - 1 := by decide
    rw [this, Nat.and_two_pow_sub_one_eq_mod, Nat.mod_eq_of_lt htop]
  have hdata : ¬ (streamId >>> 24).toUInt8 &&& (0x80 : UInt8) ≠ 0 := by
    rw [not_not, ← hand, UInt8.and_assoc]
    have : (0x7f : UInt8) &&& 0x80 = 0 := by decide
    rw [this, UInt8.and_zero]
  rw [hheader, readFrame, FramerM.bind_ok (readExact_append (n := 8) fr rfl)]
  simp only []
  rw [if_neg hdata, lengthField_toNat h, FramerM.bind_ok (readExact_append fr rfl), hand,
    fromBeBytes32_toBeBytes32]
  rfl

/-! ## Reading the payload of a frame -/

/-- The word written at a position of a payload. -/
theorem beWord_drop {payload : Bytes} {i : Nat} {x : UInt32} (rest : Bytes)
    (h : payload.drop i = toBeBytes32 x ++ rest) : beWord payload i = .ok x := by
  rw [beWord_eq rest h, fromBeBytes32_toBeBytes32]

/-- A stream id written at a position of a payload. -/
theorem maskedWord_drop {payload : Bytes} {i : Nat} {x : UInt32} (rest : Bytes)
    (hx : x.toNat < 2 ^ 31)
    (h : payload.drop i = toBeBytes32 (x &&& 0x7fffffff) ++ rest) :
    maskedWord payload i = .ok x := by
  have hmask : x &&& 0x7fffffff = x := and_mask_eq_self 31 (by decide) hx
  rw [hmask] at h
  rw [maskedWord, beWord_drop rest h]
  exact congrArg Except.ok hmask

theorem slice_to_end {payload : Bytes} {i : Nat} (h : i ≤ payload.length) :
    slice payload i payload.length = .ok (payload.drop i) := by
  rw [slice, if_pos ⟨h, le_refl _⟩, List.take_length]

/-- A payload that is a stream id and a block is read field by field. -/
theorem streamIdPayload_fields {streamId : UInt32} (hid : streamId.toNat < 2 ^ 31) (block : Bytes) :
    maskedWord (streamIdPayload streamId block) 0 = .ok streamId ∧
      slice (streamIdPayload streamId block) 4 (streamIdPayload streamId block).length =
        .ok block := by
  constructor
  · exact maskedWord_drop block hid rfl
  · exact slice_to_end (by simp [streamIdPayload])

/-- A priority survives its three bits. -/
theorem priority_bits {p : UInt8} (hp : p.toNat < 8) :
    (((p &&& 0x7) <<< 5) >>> 5) &&& 0x7 = p := by
  obtain ⟨n, rfl⟩ : ∃ n : Fin 8, p = UInt8.ofNat n.val :=
    ⟨⟨p.toNat, hp⟩, (UInt8.ofNat_toNat).symm⟩
  revert n
  decide

/-- The flags and the id of a setting survive their shared word. -/
theorem setting_bits (flags : UInt8) {id : UInt32} (hid : id.toNat < 2 ^ 24) :
    ((flags.toUInt32 <<< 24) ||| (id &&& 0x00ffffff)) &&& 0x00ffffff = id ∧
      ((((flags.toUInt32 <<< 24) ||| (id &&& 0x00ffffff)) >>> 24) &&& 0xff).toUInt8 = flags := by
  have hflags := flags.toNat_lt
  have hmask : id &&& 0x00ffffff = id := and_mask_eq_self 24 (by decide) hid
  have hword : ((flags.toUInt32 <<< 24) ||| id).toNat = flags.toNat * 2 ^ 24 + id.toNat := by
    rw [UInt32.toNat_or, UInt32.toNat_shiftLeft, UInt8.toNat_toUInt32]
    show flags.toNat <<< 24 % 2 ^ 32 ||| id.toNat = _
    rw [shiftLeft_byte_mod flags (le_refl 24), shiftLeft_or_eq_add hid]
  rw [hmask, and_ff_toUInt8]
  constructor
  · apply UInt32.toNat_inj.mp
    rw [toNat_and_mask _ _ 24 (by decide), hword]
    omega
  · apply UInt8.toNat_inj.mp
    have h := toNat_shiftRight_toUInt8 ((flags.toUInt32 <<< 24) ||| id) 24 (by decide)
    rw [hword] at h
    simp only [UInt32.reduceToNat] at h
    omega

theorem length_encodeSetting (s : Setting) : (encodeSetting s).length = 8 := rfl

theorem length_encodeSettings (settings : List Setting) :
    (settings.flatMap encodeSetting).length = settings.length * 8 := by
  rw [List.length_flatMap]
  simp [length_encodeSetting]

/-- One round of the loop reads one setting. -/
theorem settingAt_eq {width i : Nat} {payload rest : Bytes} {s : Setting}
    (hid : s.id.toNat < 2 ^ 24) (hw : payload.length < 2 ^ width)
    (h : payload.drop (4 + i * 8) = encodeSetting s ++ rest) :
    settingAt width payload i = .ok s := by
  obtain ⟨hidbits, hflagbits⟩ := setting_bits s.flags hid
  have hroom : payload.length = 4 + i * 8 + 8 + rest.length := by
    have := congrArg List.length h
    simp only [List.length_drop, List.length_append, length_encodeSetting] at this
    omega
  have hoffset : usizeAdd width 4 (usizeMul width i 8) = 4 + i * 8 := by
    rw [usizeMul_of_lt (by omega), usizeAdd_of_lt (by omega)]
  have hvalue : payload.drop (4 + i * 8 + 4) = toBeBytes32 s.value ++ rest := by
    rw [← List.drop_drop, h]
    rfl
  rw [settingAt, hoffset, usizeAdd_of_lt (by omega), beWord_drop rest hvalue,
    beWord_drop (toBeBytes32 s.value ++ rest) h]
  show Except.ok _ = Except.ok s
  simp only [hidbits, hflagbits]

/-- The loop reads the settings that are left. -/
theorem settingsLoop_eq {width : Nat} {payload : Bytes} (hw : payload.length < 2 ^ width)
    (settings : List Setting) (hids : ∀ s ∈ settings, s.id.toNat < 2 ^ 24) :
    ∀ i, payload.drop (4 + i * 8) = settings.flatMap encodeSetting →
      settingsLoop width payload settings.length i = .ok settings := by
  induction settings with
  | nil =>
      intro i _
      rfl
  | cons s settings ih =>
      intro i h
      rw [List.flatMap_cons] at h
      have hnext : payload.drop (4 + (i + 1) * 8) = settings.flatMap encodeSetting := by
        have hshift : 4 + (i + 1) * 8 = 4 + i * 8 + 8 := by omega
        rw [hshift, ← List.drop_drop, h]
        rfl
      have hrest := ih (fun t ht => hids t (List.mem_cons_of_mem _ ht)) (i + 1) hnext
      rw [List.length_cons, settingsLoop, settingAt_eq (hids s List.mem_cons_self) hw h]
      simp only [bind, Except.bind, hrest]
      rfl

theorem parseSettings_eq {f : SettingsFrame} (hids : ∀ s ∈ f.settings, s.id.toNat < 2 ^ 24)
    (hlen : (settingsPayload f).length < 2 ^ 24) :
    parseSettings X usizeBits f.flags (settingsPayload f) = .ok (.settings f) := by
  have hlength : (settingsPayload f).length = 4 + f.settings.length * 8 := by
    rw [settingsPayload, List.length_append, length_toBeBytes32, length_encodeSettings]
  have hcount : (UInt32.ofNat f.settings.length).toNat = f.settings.length := by
    have hlt : f.settings.length < 2 ^ 32 := by omega
    simpa using hlt
  have hbig : (2 : Nat) ^ 24 < 2 ^ usizeBits := by decide
  have hadd : usizeAdd usizeBits 4 (usizeMul usizeBits f.settings.length 8) =
      4 + f.settings.length * 8 := by
    rw [usizeMul_of_lt (by omega), usizeAdd_of_lt (by omega)]
  have hword : beWord (settingsPayload f) 0 = .ok (UInt32.ofNat f.settings.length) :=
    beWord_drop (f.settings.flatMap encodeSetting) rfl
  have hloop : settingsLoop usizeBits (settingsPayload f) f.settings.length 0 = .ok f.settings :=
    settingsLoop_eq (hlen.trans hbig) f.settings hids 0 rfl
  rw [parseSettings, if_neg (by omega), hword]
  simp only [bind, Except.bind, hcount, hadd]
  rw [if_neg (by omega), hloop]
  rfl

/-! ## Reading one frame -/

/-- The fields of a frame fit the bits the wire gives them. -/
def Frame.InRange : Frame (HeaderMap X) → Prop
  | .synStream f => f.streamId.toNat < 2 ^ 31 ∧ f.associatedStreamId.toNat < 2 ^ 31 ∧
      f.priority.toNat < 8 ∧ f.headers.InRange
  | .synReply f => f.streamId.toNat < 2 ^ 31 ∧ f.headers.InRange
  | .rstStream f => f.streamId.toNat < 2 ^ 31
  | .settings f => ∀ s ∈ f.settings, s.id.toNat < 2 ^ 24
  | .ping _ => True
  | .goAway f => f.lastGoodStreamId.toNat < 2 ^ 31
  | .headers f => f.streamId.toNat < 2 ^ 31 ∧ f.headers.InRange
  | .windowUpdate f => f.streamId.toNat < 2 ^ 31 ∧ f.delta.toNat < 2 ^ 31
  | .data f => f.streamId.toNat < 2 ^ 31

instance : (f : Frame (HeaderMap X)) → Decidable f.InRange
  | .synStream f => inferInstanceAs (Decidable (_ < _ ∧ _ < _ ∧ _ < _ ∧ f.headers.InRange))
  | .synReply f => inferInstanceAs (Decidable (_ < _ ∧ f.headers.InRange))
  | .rstStream _ => inferInstanceAs (Decidable (_ < _))
  | .settings f => inferInstanceAs (Decidable (∀ s ∈ f.settings, _ < _))
  | .ping _ => inferInstanceAs (Decidable True)
  | .goAway _ => inferInstanceAs (Decidable (_ < _))
  | .headers f => inferInstanceAs (Decidable (_ < _ ∧ f.headers.InRange))
  | .windowUpdate _ => inferInstanceAs (Decidable (_ < _ ∧ _ < _))
  | .data _ => inferInstanceAs (Decidable (_ < _))

theorem Frame.InRange.headers {f : Frame (HeaderMap X)} (hf : f.InRange) {h : HeaderMap X}
    (hh : f.headers? = some h) : h.InRange := by
  cases f with
  | synStream f => exact Option.some.inj hh ▸ hf.2.2.2
  | synReply f | headers f => exact Option.some.inj hh ▸ hf.2
  | rstStream _ | settings _ | ping _ | goAway _ | windowUpdate _ | data _ =>
      exact absurd hh (by simp [Frame.headers?])

/-- The frame with other headers. -/
def Frame.withHeaders {H : Type} (m : H) : Frame H → Frame H
  | .synStream f => .synStream { f with headers := m }
  | .synReply f => .synReply { f with headers := m }
  | .headers f => .headers { f with headers := m }
  | f => f

/-- A frame without headers is read as it was written. -/
theorem readFrame_plain {f : Frame (HeaderMap X)} (hf : f.headers? = none) (hr : f.InRange)
    (hlen : (f.payload []).length < 2 ^ 24) (rest : Bytes) (fr : Framer Z) :
    readFrame X (fr.withBytes (frameBytes f [] ++ rest)) = .ok f (fr.withBytes rest) := by
  rw [frameBytes, List.append_assoc]
  cases f with
  | synStream _ | synReply _ | headers _ => exact absurd hf (by simp [Frame.headers?])
  | rstStream f =>
      have hid : maskedWord (rstStreamPayload f) 0 = .ok f.streamId := maskedWord_drop _ hr rfl
      have hstatus : beWord (rstStreamPayload f) 4 = .ok f.status.toU32 :=
        beWord_drop [] rfl
      have hparse : parseRstStream X (rstStreamPayload f) = .ok (.rstStream f) := by
        rw [parseRstStream, if_neg (by simp [rstStreamPayload]), hid, hstatus]
        simp only [bind, Except.bind, RstStatus.tryFrom_toU32]
        rfl
      refine (readFrame_control _ 0 rest fr (by decide) hlen).trans ?_
      show FramerM.lift (parseRstStream X (rstStreamPayload f)) _ = _
      rw [hparse]
      rfl
  | settings f =>
      refine (readFrame_control _ f.flags rest fr (by decide) hlen).trans ?_
      show FramerM.lift (parseSettings X usizeBits f.flags (settingsPayload f)) _ = _
      rw [parseSettings_eq hr hlen]
      rfl
  | ping f =>
      have hid : beWord (toBeBytes32 f.id) 0 = .ok f.id := beWord_drop [] rfl
      have hparse : parsePing X (toBeBytes32 f.id) = .ok (.ping f) := by
        rw [parsePing, if_neg (by simp), hid]
        rfl
      refine (readFrame_control _ 0 rest fr (by decide) hlen).trans ?_
      show FramerM.lift (parsePing X (toBeBytes32 f.id)) _ = _
      rw [hparse]
      rfl
  | goAway f =>
      have hid : maskedWord (goAwayPayload f) 0 = .ok f.lastGoodStreamId := maskedWord_drop _ hr rfl
      have hstatus : beWord (goAwayPayload f) 4 = .ok f.status.toU32 :=
        beWord_drop [] rfl
      have hparse : parseGoAway X (goAwayPayload f) = .ok (.goAway f) := by
        rw [parseGoAway, if_neg (by simp [goAwayPayload]), hid, hstatus]
        simp only [bind, Except.bind, GoAwayStatus.tryFrom_toU32]
        rfl
      refine (readFrame_control _ 0 rest fr (by decide) hlen).trans ?_
      show FramerM.lift (parseGoAway X (goAwayPayload f)) _ = _
      rw [hparse]
      rfl
  | windowUpdate f =>
      have hid : maskedWord (windowUpdatePayload f) 0 = .ok f.streamId :=
        maskedWord_drop _ hr.1 rfl
      have hdelta : maskedWord (windowUpdatePayload f) 4 = .ok f.delta :=
        maskedWord_drop [] hr.2 rfl
      have hparse : parseWindowUpdate X (windowUpdatePayload f) = .ok (.windowUpdate f) := by
        rw [parseWindowUpdate, if_neg (by simp [windowUpdatePayload]), hid, hdelta]
        rfl
      refine (readFrame_control _ 0 rest fr (by decide) hlen).trans ?_
      show FramerM.lift (parseWindowUpdate X (windowUpdatePayload f)) _ = _
      rw [hparse]
      rfl
  | data f =>
      have h := readFrame_data (X := X) (f := f) rest fr hr hlen
      rwa [frameBytes, List.append_assoc] at h

/-- A frame with headers is read as far as its compressed block, and the rest is
decompression. -/
theorem readFrame_headers {f : Frame (HeaderMap X)} {h m : HeaderMap X}
    (hf : f.headers? = some h) (hr : f.InRange) {block : Bytes}
    (hlen : (f.payload block).length < 2 ^ 24) {rest : Bytes} {fr fr' : Framer Z}
    (hdec : decompressHeaders X block (fr.withBytes rest) = .ok m fr') :
    readFrame X (fr.withBytes (frameBytes f block ++ rest)) = .ok (f.withHeaders m) fr' := by
  rw [frameBytes, List.append_assoc]
  cases f with
  | rstStream _ | settings _ | ping _ | goAway _ | windowUpdate _ | data _ =>
      exact absurd hf (by simp [Frame.headers?])
  | synStream f =>
      obtain ⟨hsid, hassoc, hpri, -⟩ := hr
      have hid : maskedWord (synStreamPayload f block) 0 = .ok f.streamId :=
        maskedWord_drop _ hsid rfl
      have hassoc' : maskedWord (synStreamPayload f block) 4 = .ok f.associatedStreamId :=
        maskedWord_drop _ hassoc rfl
      have hlength : (synStreamPayload f block).length = 10 + block.length := by
        simp only [synStreamPayload, List.length_append, length_toBeBytes32, List.length_cons,
          List.length_nil]
      have hbyte : index (synStreamPayload f block) 8 = .ok ((f.priority &&& 0x7) <<< 5) := rfl
      have hblock : slice (synStreamPayload f block) 10 (synStreamPayload f block).length =
          .ok block := slice_to_end (by omega)
      refine (readFrame_control _ f.flags rest fr (by decide) hlen).trans ?_
      show parseSynStream X f.flags (synStreamPayload f block) _ = _
      rw [parseSynStream, if_neg (by omega), hid, hassoc', hbyte, hblock]
      show (decompressHeaders X block >>= _) (fr.withBytes rest) = _
      rw [FramerM.bind_ok hdec, priority_bits hpri]
      rfl
  | synReply f =>
      obtain ⟨hid, hblock⟩ := streamIdPayload_fields hr.1 block
      refine (readFrame_control _ f.flags rest fr (by decide) hlen).trans ?_
      show parseSynReply X f.flags (streamIdPayload f.streamId block) _ = _
      rw [parseSynReply, if_neg (by simp [streamIdPayload]), hid, hblock]
      show (decompressHeaders X block >>= _) (fr.withBytes rest) = _
      rw [FramerM.bind_ok hdec]
      rfl
  | headers f =>
      obtain ⟨hid, hblock⟩ := streamIdPayload_fields hr.1 block
      refine (readFrame_control _ f.flags rest fr (by decide) hlen).trans ?_
      show parseHeaders X f.flags (streamIdPayload f.streamId block) _ = _
      rw [parseHeaders, if_neg (by simp [streamIdPayload]), hid, hblock]
      show (decompressHeaders X block >>= _) (fr.withBytes rest) = _
      rw [FramerM.bind_ok hdec]
      rfl

/-! ## Frames in a row -/

/-- `write_frame` on every frame in turn. -/
def writeFrames : List (Frame (HeaderMap X)) → FramerM Z Unit
  | [] => pure ()
  | f :: fs => do
      writeFrame f
      writeFrames fs

/-- `read_frame`, called `n` times. -/
def readFrames (X : Http) : Nat → FramerM Z (List (Frame (HeaderMap X)))
  | 0 => pure []
  | n + 1 => do
      let f ← readFrame X
      let fs ← readFrames X n
      return f :: fs

/-- Equal frames, but for header maps that agree under every name. -/
def Frame.Same (f g : Frame (HeaderMap X)) : Prop :=
  match f.headers?, g.headers? with
  | none, none => f = g
  | some h, some h' => h.Same h' ∧ f = g.withHeaders h
  | _, _ => False

theorem Frame.same_of_plain {f : Frame (HeaderMap X)} (hf : f.headers? = none) : f.Same f := by
  simp only [Frame.Same, hf]

theorem Frame.withHeaders_same {f : Frame (HeaderMap X)} {h m : HeaderMap X}
    (hf : f.headers? = some h) (hm : m.Same h) : (f.withHeaders m).Same f := by
  cases f with
  | synStream f | synReply f | headers f => exact ⟨Option.some.inj hf ▸ hm, rfl⟩
  | rstStream _ | settings _ | ping _ | goAway _ | windowUpdate _ | data _ =>
      exact absurd hf (by simp [Frame.headers?])

/-- Each frame with the compressed block that a compressor gives it. -/
def withBlocks (Z : Zlib) : Z.Compress → List (Frame (HeaderMap X)) →
    List (Frame (HeaderMap X) × Bytes)
  | _, [] => []
  | c, f :: fs =>
      match f.headers? with
      | none => (f, []) :: withBlocks Z c fs
      | some h =>
          let out := compressBlock Z c (encodeHeaders h)
          (f, out.produced) :: withBlocks Z out.state fs

/-- The header blocks of the frames before compression. -/
def rawBlocks (fs : List (Frame (HeaderMap X))) : List Bytes :=
  fs.filterMap fun f => f.headers?.map encodeHeaders

/-- Each block, compressed in turn, is decompressed in turn to what it was: by zlib, and by
the loop of `decompressBlock`, which stops short of the end of some blocks. -/
def BlocksRestored (Z : Zlib) : Z.Compress → Z.Decompress → List Bytes → Prop
  | _, _, [] => True
  | c, d, raw :: raws =>
      let out := compressBlock Z c raw
      let back := decompressBlock Z d out.produced
      out.status = .ok .ok ∧ back.1 = .ok raw ∧ BlocksRestored Z out.state back.2 raws

/-- The bytes of the frames on the wire. -/
def wireBytes (Z : Zlib) (c : Z.Compress) (fs : List (Frame (HeaderMap X))) : Bytes :=
  (withBlocks Z c fs).flatMap fun p => frameBytes p.1 p.2

theorem writeFrames_run (fs : List (Frame (HeaderMap X))) :
    ∀ (fr : Framer Z) (d : Z.Decompress), fr.room = none →
      BlocksRestored Z fr.compressor d (rawBlocks fs) → ∃ c, writeFrames fs fr =
        .ok () { fr with
          writer := fr.writer ++ wireBytes Z fr.compressor fs, compressor := c } := by
  induction fs with
  | nil =>
      intro fr d _ _
      refine ⟨fr.compressor, ?_⟩
      simp only [wireBytes, withBlocks, List.flatMap_nil, List.append_nil]
      rfl
  | cons f fs ih =>
      intro fr d hroom hblocks
      cases hf : f.headers? with
      | none =>
          have hraw : rawBlocks (f :: fs) = rawBlocks fs := by simp [rawBlocks, hf]
          rw [hraw] at hblocks
          obtain ⟨c, hc⟩ := ih { fr with writer := fr.writer ++ frameBytes f [] } d hroom hblocks
          refine ⟨c, ?_⟩
          have hwrite := (writeFrame_plain hf fr).trans (writeAll_run hroom _)
          rw [writeFrames, FramerM.bind_ok hwrite, hc]
          simp only [wireBytes, withBlocks, hf, List.flatMap_cons, List.append_assoc]
      | some h =>
          have hraw : rawBlocks (f :: fs) = encodeHeaders h :: rawBlocks fs := by
            simp [rawBlocks, hf]
          rw [hraw] at hblocks
          obtain ⟨hstatus, -, hblocks⟩ := hblocks
          let out := compressBlock Z fr.compressor (encodeHeaders h)
          obtain ⟨c, hc⟩ := ih { fr with
            writer := fr.writer ++ frameBytes f out.produced, compressor := out.state } _
            hroom hblocks
          refine ⟨c, ?_⟩
          have hroom' : { fr with compressor := out.state }.room = none := hroom
          have hwrite := (writeFrame_headers hf hstatus).trans (writeAll_run hroom' _)
          rw [writeFrames, FramerM.bind_ok hwrite, hc]
          simp only [wireBytes, withBlocks, hf, List.flatMap_cons, List.append_assoc, out]

/-- The header blocks of maps in range are short enough for `usize` positions. -/
theorem length_encodeHeaders_le {h : HeaderMap X} (hr : h.InRange) :
    (encodeHeaders h).length + 2 ^ 32 ≤ 2 ^ usizeBits := by
  obtain ⟨groups, hg⟩ := exists_groups h
  have hcount : (headerEntries h).entries.length ≤ maxHeaderMapSize := by
    rw [← hg.entries, List.length_map]
    exact hg.length_le
  have hentry : ∀ n ∈ (headerEntries h).entries.map fun e => (encodeEntry e).length,
      n ≤ 8 + 2 * 2 ^ 32 := by
    intro n hn
    obtain ⟨e, he, rfl⟩ := List.mem_map.mp hn
    obtain ⟨hname, hvalue⟩ := hr e he
    simp only [encodeEntry, List.length_append, length_toBeBytes32]
    omega
  have hsum := List.sum_le_card_nsmul _ _ hentry
  rw [List.length_map, smul_eq_mul] at hsum
  have hmul := Nat.mul_le_mul_right (8 + 2 * 2 ^ 32) hcount
  have hbound : 4 + maxHeaderMapSize * (8 + 2 * 2 ^ 32) + 2 ^ 32 ≤ 2 ^ usizeBits := by decide
  rw [encodeHeaders, List.length_append, length_toBeBytes32, List.length_flatMap]
  exact (Nat.add_le_add_right (Nat.add_le_add_left (hsum.trans hmul) 4) _).trans hbound

/-- A block that is restored is parsed to the map it was written for. -/
theorem decompressHeaders_restored {h : HeaderMap X} (hr : h.InRange) {block : Bytes}
    (fr : Framer Z) {d : Z.Decompress} (hd : fr.decompressor.getD Z.newDecompress = d)
    (hback : (decompressBlock Z d block).1 = .ok (encodeHeaders h)) :
    ∃ m : HeaderMap X, m.Same h ∧ decompressHeaders X block fr =
      .ok m { fr with decompressor := some (decompressBlock Z d block).2 } := by
  obtain ⟨m, hparse, hsame⟩ := parseHeaderBlock_encodeHeaders hr (length_encodeHeaders_le hr)
  refine ⟨m, hsame, ?_⟩
  simp only [decompressHeaders, hd, hback, Except.bind, hparse]
  rfl

/-- The frames on the wire are read one after another, up to the bytes behind
them. -/
theorem readFrames_run (fs : List (Frame (HeaderMap X))) :
    ∀ (fr : Framer Z) (c : Z.Compress) (d : Z.Decompress) (rest : Bytes),
      fr.decompressor.getD Z.newDecompress = d →
      (∀ f ∈ fs, f.InRange) →
      (∀ p ∈ withBlocks Z c fs, (p.1.payload p.2).length < 2 ^ 24) →
      BlocksRestored Z c d (rawBlocks fs) →
      ∃ gs fr', readFrames X fs.length (fr.withBytes (wireBytes Z c fs ++ rest)) = .ok gs fr' ∧
        List.Forall₂ Frame.Same gs fs ∧ fr'.reader.bytes = rest := by
  induction fs with
  | nil =>
      intro fr c d rest _ _ _ _
      exact ⟨[], _, rfl, .nil, rfl⟩
  | cons f fs ih =>
      intro fr c d rest hd hrange hlen hblocks
      have hr : f.InRange := hrange f List.mem_cons_self
      have hrange' : ∀ g ∈ fs, g.InRange := fun g hg => hrange g (List.mem_cons_of_mem _ hg)
      cases hf : f.headers? with
      | none =>
          have hraw : rawBlocks (f :: fs) = rawBlocks fs := by simp [rawBlocks, hf]
          simp only [withBlocks, hf, List.forall_mem_cons] at hlen
          rw [hraw] at hblocks
          have hread := readFrame_plain hf hr hlen.1 (wireBytes Z c fs ++ rest) fr
          obtain ⟨gs, fr', hgs, hsame, hrest⟩ :=
            ih fr c d rest hd hrange' hlen.2 hblocks
          refine ⟨f :: gs, fr', ?_, .cons (Frame.same_of_plain hf) hsame, hrest⟩
          have hwire : wireBytes Z c (f :: fs) ++ rest =
              frameBytes f [] ++ (wireBytes Z c fs ++ rest) := by
            simp only [wireBytes, withBlocks, hf, List.flatMap_cons, List.append_assoc]
          rw [hwire, List.length_cons, readFrames, FramerM.bind_ok hread, FramerM.bind_ok hgs]
          rfl
      | some h =>
          have hraw : rawBlocks (f :: fs) = encodeHeaders h :: rawBlocks fs := by
            simp [rawBlocks, hf]
          simp only [withBlocks, hf, List.forall_mem_cons] at hlen
          rw [hraw] at hblocks
          obtain ⟨-, hback, hblocks⟩ := hblocks
          -- The decompressor of the next frame is the one this block leaves behind.
          let out := compressBlock Z c (encodeHeaders h)
          obtain ⟨m, hm, hdec⟩ := decompressHeaders_restored (hr.headers hf)
            (fr.withBytes (wireBytes Z out.state fs ++ rest)) hd hback
          have hread := readFrame_headers hf hr hlen.1 hdec
          obtain ⟨gs, fr', hgs, hsame, hrest⟩ :=
            ih { fr with decompressor := some (decompressBlock Z d out.produced).2 } out.state _
              rest rfl hrange' hlen.2 hblocks
          refine ⟨f.withHeaders m :: gs, fr', ?_, .cons (Frame.withHeaders_same hf hm) hsame, hrest⟩
          have hwire : wireBytes Z c (f :: fs) ++ rest =
              frameBytes f out.produced ++ (wireBytes Z out.state fs ++ rest) := by
            simp only [wireBytes, withBlocks, hf, List.flatMap_cons, List.append_assoc, out]
          rw [hwire, List.length_cons, readFrames, FramerM.bind_ok hread]
          exact (FramerM.bind_ok hgs).trans rfl

/-- **Frames written in a row are read back.**  Frames in wire range, written in
order on a fresh framer, are read in order by a fresh framer over those bytes:
the same frames, up to the order of different header names, and no byte is
left.  `BlocksRestored` is what is assumed of the header blocks and of the loop that
decompresses them; `headersRestored_iff` says when it holds. -/
theorem readFrames_writeFrames (fs : List (Frame (HeaderMap X))) (sink source : Bytes)
    (atEnd : IoErrorKind) (hrange : ∀ f ∈ fs, f.InRange)
    (hlen : ∀ p ∈ withBlocks Z (Framer.new Z [] ⟨source, atEnd⟩).compressor fs,
      (p.1.payload p.2).length < 2 ^ 24)
    (hzlib : BlocksRestored Z (Framer.new Z [] ⟨source, atEnd⟩).compressor Z.newDecompress
      (rawBlocks fs)) :
    ∃ written, writeFrames fs (Framer.new Z [] ⟨source, atEnd⟩) = .ok () written ∧
      ∃ gs final,
        readFrames X fs.length (Framer.new Z sink ⟨written.writer, atEnd⟩) = .ok gs final ∧
          List.Forall₂ Frame.Same gs fs ∧ final.reader.bytes = [] := by
  obtain ⟨c, hc⟩ := writeFrames_run fs (Framer.new Z [] ⟨source, atEnd⟩) _ rfl hzlib
  refine ⟨_, hc, ?_⟩
  have h := readFrames_run fs (Framer.new Z sink ⟨[], atEnd⟩) _ _ [] rfl hrange hlen hzlib
  rw [List.append_nil] at h
  exact h

/-- A framer that has written some frames. -/
def writerOf (fs : List (Frame (HeaderMap Http.reference))) : Framer Zlib.reference :=
  match writeFrames fs (Framer.new Zlib.reference [] ⟨[], .other⟩) with
  | .ok _ fr => fr
  | .error _ fr => fr

theorem writerOf_wrote {fs : List (Frame (HeaderMap Http.reference))}
    (h : BlocksRestored Zlib.reference (Framer.new Zlib.reference [] ⟨[], .other⟩).compressor
      Zlib.reference.newDecompress (rawBlocks fs)) :
    writeFrames fs (Framer.new Zlib.reference [] ⟨[], .other⟩) = .ok () (writerOf fs) := by
  obtain ⟨c, hc⟩ := writeFrames_run fs (Framer.new Zlib.reference [] ⟨[], .other⟩) _ rfl h
  simp only [writerOf, hc]

/-- The header map `method: GET`. -/
def methodGet : HeaderMap Http.reference where
  iter := [(⟨[0x6d, 0x65, 0x74, 0x68, 0x6f, 0x64], by decide⟩, ⟨[0x47, 0x45, 0x54], by decide⟩)]
  size_le := by decide

/-- A frame of every kind. -/
def everyKind : List (Frame (HeaderMap Http.reference)) :=
  [.settings ⟨[⟨4, 0, 100⟩, ⟨7, 1, 65536⟩], 0⟩,
   .synStream ⟨1, 0, 5, methodGet, flagUnidirectional⟩,
   .data ⟨1, dataFlagFin, [0x68, 0x69]⟩,
   .synReply ⟨1, methodGet, 0⟩,
   .windowUpdate ⟨1, 0x7fffffff⟩,
   .headers ⟨1, HeaderMap.new _, flagFin⟩,
   .ping ⟨0xffffffff⟩,
   .rstStream ⟨1, .cancel⟩,
   .goAway ⟨1, .internalError⟩]

theorem readFrames_writeFrames_everyKind :
    ∃ written, writeFrames everyKind (Framer.new Zlib.reference [] ⟨[], .unexpectedEof⟩) =
        .ok () written ∧
      ∃ gs final,
        readFrames Http.reference everyKind.length
            (Framer.new Zlib.reference [] ⟨written.writer, .unexpectedEof⟩) = .ok gs final ∧
          List.Forall₂ Frame.Same gs everyKind ∧ final.reader.bytes = [] := by
  have hzlib : BlocksRestored Zlib.reference
      (Framer.new Zlib.reference [] ⟨[], .unexpectedEof⟩).compressor Zlib.reference.newDecompress
      (rawBlocks everyKind) :=
    ⟨by decide +kernel, by decide +kernel, by decide +kernel, by decide +kernel,
      by decide +kernel, by decide +kernel, trivial⟩
  exact readFrames_writeFrames everyKind [] [] .unexpectedEof (by decide +kernel)
    (by decide +kernel) hzlib

end SpdyStream.Framing
