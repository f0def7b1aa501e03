/-
  Framing/ReadLoop.lean --- when `read_frame` panics, and how the loop of the
  read task ends.

  Every index and slice of the parsers is in bounds and no size wraps, so the one
  panic left is that of `HeaderMap::append`.  `readFrame_panics_iff` says that
  `read_frame` panics exactly on a whole frame whose header block lists more
  headers than a map holds (`Overfull`).  `readLoop_ends` carries this over the
  calls of a loop: it reaches the teardown unless it comes to such a frame.
-/
import SpdyStream.Framing.Decompression

set_option autoImplicit false

namespace SpdyStream.Framing

open SpdyStream.Foundation

variable {Z : Zlib} {X : Http}

/-! ## Calls that panic -/

/-- The call panics in this state. -/
def FramerM.Panics {α : Type} (x : FramerM Z α) (fr : Framer Z) : Prop :=
  ∃ fr', x fr = .error .panic fr'

theorem FramerM.panics_bind {α β : Type} {x : FramerM Z α} {f : α → FramerM Z β}
    {fr : Framer Z} :
    (x >>= f).Panics fr ↔
      x.Panics fr ∨ ∃ a fr₁, x fr = .ok a fr₁ ∧ (f a).Panics fr₁ := by
  show (∃ fr', EStateM.bind x f fr = _) ↔ _
  unfold EStateM.bind FramerM.Panics
  cases x fr with
  | ok a fr₁ => simp
  | error e fr₁ => simp

theorem FramerM.panics_lift {α : Type} {x : Except Fault α} {fr : Framer Z} :
    (FramerM.lift x : FramerM Z α).Panics fr ↔ x = .error .panic := by
  cases x with
  | ok a => simp [FramerM.Panics, FramerM.lift]
  | error e => simp [FramerM.Panics, FramerM.lift]

theorem FramerM.not_panics_throw {α : Type} (e : Error) (fr : Framer Z) :
    ¬ (throw (.error e) : FramerM Z α).Panics fr := by
  rintro ⟨fr', h⟩
  exact absurd h (by simp [throw, throwThe, MonadExceptOf.throw, EStateM.throw])

theorem FramerM.not_panics_pure {α : Type} (a : α) (fr : Framer Z) :
    ¬ (pure a : FramerM Z α).Panics fr := by
  rintro ⟨fr', h⟩
  exact absurd h (by simp [pure, EStateM.pure])

theorem readExact_not_panics (n : Nat) (mapErr : IoErrorKind → Error) (fr : Framer Z) :
    ¬ (readExact n mapErr).Panics fr := by
  rintro ⟨fr', h⟩
  unfold readExact at h
  split at h
  · exact absurd h (by simp)
  · exact absurd h (by simp)

/-! ## Parsers without headers -/

/-- Four bytes are in bounds. -/
theorem beWord_in_bounds (payload : Bytes) (i : Nat) (h : i + 4 ≤ payload.length) :
    ∃ x, beWord payload i = .ok x := by
  obtain ⟨a, b, c, d, rest, hdrop⟩ :=
    exists_four (payload.drop i) (by rw [List.length_drop]; omega)
  exact ⟨_, beWord_eq rest hdrop⟩

theorem maskedWord_in_bounds (payload : Bytes) (i : Nat) (h : i + 4 ≤ payload.length) :
    ∃ x, maskedWord payload i = .ok x := by
  obtain ⟨x, hx⟩ := beWord_in_bounds payload i h
  exact ⟨x &&& 0x7fffffff, by rw [maskedWord, hx]; rfl⟩

theorem parseRstStream_ne_panic (payload : Bytes) : parseRstStream X payload ≠ .error .panic := by
  unfold parseRstStream
  split
  · simp [protocolError]
  · obtain ⟨x, hx⟩ := maskedWord_in_bounds payload 0 (by omega)
    obtain ⟨y, hy⟩ := beWord_in_bounds payload 4 (by omega)
    rw [hx, hy]
    simp only [bind, Except.bind]
    split
    · exact fun h => by cases h
    · simp [protocolError]

theorem parseGoAway_ne_panic (payload : Bytes) : parseGoAway X payload ≠ .error .panic := by
  unfold parseGoAway
  split
  · simp [protocolError]
  · obtain ⟨x, hx⟩ := maskedWord_in_bounds payload 0 (by omega)
    obtain ⟨y, hy⟩ := beWord_in_bounds payload 4 (by omega)
    rw [hx, hy]
    simp only [bind, Except.bind]
    split
    · exact fun h => by cases h
    · simp [protocolError]

theorem parsePing_ne_panic (payload : Bytes) : parsePing X payload ≠ .error .panic := by
  unfold parsePing
  split
  · simp [protocolError]
  · obtain ⟨x, hx⟩ := beWord_in_bounds payload 0 (by omega)
    rw [hx]
    exact fun h => by cases h

theorem parseWindowUpdate_ne_panic (payload : Bytes) :
    parseWindowUpdate X payload ≠ .error .panic := by
  unfold parseWindowUpdate
  split
  · simp [protocolError]
  · obtain ⟨x, hx⟩ := maskedWord_in_bounds payload 0 (by omega)
    obtain ⟨y, hy⟩ := maskedWord_in_bounds payload 4 (by omega)
    rw [hx, hy]
    exact fun h => by cases h

/-- A round of the settings loop stays in bounds. -/
theorem settingAt_in_bounds {width : Nat} {payload : Bytes} {i : Nat}
    (hw : payload.length < 2 ^ width) (h : 4 + (i + 1) * 8 ≤ payload.length) :
    ∃ s, settingAt width payload i = .ok s := by
  have hoffset : usizeAdd width 4 (usizeMul width i 8) = 4 + i * 8 := by
    rw [usizeMul_of_lt (by omega), usizeAdd_of_lt (by omega)]
  obtain ⟨x, hx⟩ := beWord_in_bounds payload (4 + i * 8) (by omega)
  obtain ⟨y, hy⟩ := beWord_in_bounds payload (4 + i * 8 + 4) (by omega)
  rw [settingAt, hoffset, usizeAdd_of_lt (by omega), hx, hy]
  exact ⟨_, rfl⟩

theorem settingsLoop_in_bounds {width : Nat} {payload : Bytes} (hw : payload.length < 2 ^ width)
    (n : Nat) : ∀ i, 4 + (i + n) * 8 ≤ payload.length →
      ∃ settings, settingsLoop width payload n i = .ok settings := by
  induction n with
  | zero =>
      intro i _
      exact ⟨[], rfl⟩
  | succ n ih =>
      intro i h
      obtain ⟨s, hs⟩ := settingAt_in_bounds hw (i := i) (by omega)
      obtain ⟨rest, hrest⟩ := ih (i + 1) (by omega)
      rw [settingsLoop, hs]
      simp only [bind, Except.bind, hrest]
      exact ⟨_, rfl⟩

/-- The length check of `parse_settings` does not wrap, so the loop it guards
stays in bounds. -/
theorem parseSettings_ne_panic (flags : UInt8) {payload : Bytes} (hlen : payload.length < 2 ^ 24) :
    parseSettings X usizeBits flags payload ≠ .error .panic := by
  have hbig : (2 : Nat) ^ 24 < 2 ^ usizeBits := by decide
  have hroom : 4 + 2 ^ 32 * 8 < 2 ^ usizeBits := by decide
  unfold parseSettings
  split
  · simp [protocolError]
  · obtain ⟨x, hx⟩ := beWord_in_bounds payload 0 (by omega)
    have hxlt := x.toNat_lt
    have hadd : usizeAdd usizeBits 4 (usizeMul usizeBits x.toNat 8) = 4 + x.toNat * 8 := by
      rw [usizeMul_of_lt (by omega), usizeAdd_of_lt (by omega)]
    rw [hx]
    simp only [bind, Except.bind, hadd]
    split
    · simp [protocolError]
    · obtain ⟨settings, hsettings⟩ :=
        settingsLoop_in_bounds (hlen.trans hbig) x.toNat 0 (by omega)
      rw [hsettings]
      exact fun h => by cases h

/-! ## Header blocks -/

/-- A decompressed block lists more headers than a map holds, before the first
error in it. -/
def TooManyHeaders (X : Http) (output : Except Fault Bytes) : Prop :=
  ∃ count body, output = .ok (toBeBytes32 count ++ body) ∧
    maxHeaderMapSize < pairsSize X (scan X count.toNat body).pairs

theorem appendScan_new_panic {α : Type} (s : Scan X α) :
    (appendScan (HeaderMap.new X) s).map Prod.fst = .error .panic ↔
      maxHeaderMapSize < pairsSize X s.pairs := by
  have hnew : (HeaderMap.new X).iter ++ s.pairs = s.pairs := List.nil_append _
  by_cases hfit : pairsSize X ((HeaderMap.new X).iter ++ s.pairs) ≤ maxHeaderMapSize
  · have hnot : ¬ maxHeaderMapSize < pairsSize X s.pairs := by
      rw [← hnew]
      exact Nat.not_lt.mpr hfit
    cases hs : s.result with
    | error e =>
        rw [appendScan_error hs hfit]
        simp [Except.map, hnot]
    | ok a =>
        rw [appendScan_ok hs hfit]
        simp [Except.map, hnot]
  · rw [appendScan_panic hfit, ← hnew]
    simpa [Except.map] using hfit

/-- `parse_header_block` panics exactly on too many headers. -/
theorem parseHeaderBlock_panic_iff {raw : Bytes} (hw : raw.length + 2 ^ 32 ≤ 2 ^ usizeBits) :
    parseHeaderBlock X usizeBits raw = .error .panic ↔ TooManyHeaders X (.ok raw) := by
  by_cases hshort : raw.length < 4
  · have hrefuse : parseHeaderBlock X usizeBits raw = protocolError "header block too short" := by
      rw [parseHeaderBlock, if_pos hshort]
    rw [hrefuse]
    constructor
    · intro h
      exact absurd h (by simp [protocolError])
    · rintro ⟨count, body, hraw, -⟩
      obtain rfl := Except.ok.inj hraw
      rw [List.length_append, length_toBeBytes32] at hshort
      omega
  · obtain ⟨a, b, c, d, body, rfl⟩ := exists_four _ (Nat.not_lt.mp hshort)
    have hcount := toBeBytes32_fromBeBytes32 a b c d
    have hraw : a :: b :: c :: d :: body = toBeBytes32 (fromBeBytes32 a b c d) ++ body := by
      rw [hcount]
      rfl
    rw [hraw] at hw ⊢
    rw [parseHeaderBlock_count _ _ hw, appendScan_new_panic]
    constructor
    · intro h
      exact ⟨_, _, rfl, h⟩
    · rintro ⟨count, body', heq, h⟩
      -- The count and the body are determined by the block.
      obtain ⟨hhead, rfl⟩ := List.append_inj (Except.ok.inj heq) rfl
      rw [toBeBytes32_injective hhead]
      exact h

/-- `decompress_headers` panics exactly on too many headers. -/
theorem decompressHeaders_panics_iff {compressed : Bytes} (hlen : compressed.length < 2 ^ 24)
    (fr : Framer Z) :
    (decompressHeaders X compressed).Panics fr ↔
      TooManyHeaders X
        (decompressBlock Z (fr.decompressor.getD Z.newDecompress) compressed).1 := by
  have hlift : (decompressHeaders X compressed).Panics fr ↔
      (decompressBlock Z (fr.decompressor.getD Z.newDecompress) compressed).1.bind
        (parseHeaderBlock X usizeBits) = .error .panic := by
    let out := decompressBlock Z (fr.decompressor.getD Z.newDecompress) compressed
    have h : (FramerM.lift (out.1.bind (parseHeaderBlock X usizeBits)) : FramerM Z _).Panics
        { fr with decompressor := some out.2 } ↔ _ := FramerM.panics_lift
    exact h
  rw [hlift]
  have hne := decompressBlock_ne_panic (fr.decompressor.getD Z.newDecompress) compressed
  cases hout : (decompressBlock Z (fr.decompressor.getD Z.newDecompress) compressed).1 with
  | error e =>
      rw [hout] at hne
      constructor
      · intro h
        exact absurd (congrArg Except.error (Except.error.inj h)) hne
      · rintro ⟨count, body, h, -⟩
        cases h
  | ok raw =>
      have hbound := length_decompressBlock hout
      have hbits : 2 ^ 2 * (2 ^ 24 * 4 + 512) + 2 ^ 32 ≤ 2 ^ usizeBits := by decide
      exact parseHeaderBlock_panic_iff (by omega)

/-- Where the compressed header block begins in the payload of a control frame. -/
def blockOffset (frameType : UInt16) : Option Nat :=
  if frameType = typeSynStream then some 10
  else if frameType = typeSynReply then some 4
  else if frameType = typeHeaders then some 4
  else none

theorem parseSynStream_panics_iff (flags : UInt8) {payload : Bytes} (hlen : payload.length < 2 ^ 24)
    (fr : Framer Z) :
    (parseSynStream X flags payload).Panics fr ↔
      10 ≤ payload.length ∧ TooManyHeaders X
        (decompressBlock Z (fr.decompressor.getD Z.newDecompress) (payload.drop 10)).1 := by
  unfold parseSynStream
  split
  · rename_i hshort
    exact iff_of_false (FramerM.not_panics_throw _ fr) fun h => absurd h.1 (Nat.not_le.mpr hshort)
  · rename_i hshort
    have hten : 10 ≤ payload.length := Nat.not_lt.mp hshort
    obtain ⟨x, hx⟩ := maskedWord_in_bounds payload 0 (by omega)
    obtain ⟨y, hy⟩ := maskedWord_in_bounds payload 4 (by omega)
    have height : 8 < payload.length := by omega
    have hbyte : index payload 8 = .ok (payload.get ⟨8, height⟩) :=
      index_eq (List.getElem?_eq_getElem height)
    have hdrop : (payload.drop 10).length < 2 ^ 24 := by
      rw [List.length_drop]
      omega
    rw [hx, hy, hbyte, slice_to_end hten, and_iff_right hten,
      ← decompressHeaders_panics_iff (X := X) hdrop fr]
    show (decompressHeaders X (payload.drop 10) >>= _).Panics fr ↔ _
    rw [FramerM.panics_bind]
    refine or_iff_left ?_
    rintro ⟨_, _, -, h⟩
    exact FramerM.not_panics_pure _ _ h

/-- The parsers of the two kinds that are a stream id and a header block. -/
theorem panics_streamId_block_iff (message : String)
    (mk : UInt32 → HeaderMap X → Frame (HeaderMap X)) {payload : Bytes}
    (hlen : payload.length < 2 ^ 24) (fr : Framer Z) :
    (if payload.length < 4 then throw (.error (.protocol message))
      else do
        let streamId ← FramerM.lift (maskedWord payload 0)
        let compressed ← FramerM.lift (slice payload 4 payload.length)
        let headers ← decompressHeaders X compressed
        return mk streamId headers : FramerM Z (Frame (HeaderMap X))).Panics fr ↔
      4 ≤ payload.length ∧ TooManyHeaders X
        (decompressBlock Z (fr.decompressor.getD Z.newDecompress) (payload.drop 4)).1 := by
  split
  · rename_i hshort
    exact iff_of_false (FramerM.not_panics_throw _ fr) fun h => absurd h.1 (Nat.not_le.mpr hshort)
  · rename_i hshort
    have hfour : 4 ≤ payload.length := Nat.not_lt.mp hshort
    obtain ⟨x, hx⟩ := maskedWord_in_bounds payload 0 (by omega)
    have hdrop : (payload.drop 4).length < 2 ^ 24 := by
      rw [List.length_drop]
      omega
    rw [hx, slice_to_end hfour, and_iff_right hfour,
      ← decompressHeaders_panics_iff (X := X) hdrop fr]
    show (decompressHeaders X (payload.drop 4) >>= _).Panics fr ↔ _
    rw [FramerM.panics_bind]
    refine or_iff_left ?_
    rintro ⟨_, _, -, h⟩
    exact FramerM.not_panics_pure _ _ h

/-- A control frame panics exactly on too many headers in its header block. -/
theorem parseControlFrame_panics_iff (frameType : UInt16) (flags : UInt8) {payload : Bytes}
    (hlen : payload.length < 2 ^ 24) (fr : Framer Z) :
    (parseControlFrame X frameType flags payload).Panics fr ↔
      ∃ offset, blockOffset frameType = some offset ∧ offset ≤ payload.length ∧
        TooManyHeaders X (decompressBlock Z (fr.decompressor.getD Z.newDecompress)
          (payload.drop offset)).1 := by
  have hplain : ∀ x : Except Fault (Frame (HeaderMap X)), x ≠ .error .panic →
      ¬ (FramerM.lift x : FramerM Z _).Panics fr := fun x hx h => hx (FramerM.panics_lift.mp h)
  unfold parseControlFrame
  by_cases h1 : frameType = typeSynStream
  · have hoffset : blockOffset frameType = some 10 := if_pos h1
    rw [if_pos h1, parseSynStream_panics_iff flags hlen fr, hoffset]
    simp
  rw [if_neg h1]
  by_cases h2 : frameType = typeSynReply
  · have hoffset : blockOffset frameType = some 4 := by rw [blockOffset, if_neg h1, if_pos h2]
    rw [if_pos h2, hoffset, parseSynReply, panics_streamId_block_iff _ _ hlen fr]
    simp
  rw [if_neg h2]
  by_cases h8 : frameType = typeHeaders
  · have hoffset : blockOffset frameType = some 4 := by
      rw [blockOffset, if_neg h1, if_neg h2, if_pos h8]
    subst h8
    show (parseHeaders X flags payload).Panics fr ↔ _
    rw [hoffset, parseHeaders, panics_streamId_block_iff _ _ hlen fr]
    simp
  -- The kinds without headers never panic.
  have hoffset : blockOffset frameType = none := by
    rw [blockOffset, if_neg h1, if_neg h2, if_neg h8]
  rw [hoffset, if_neg h8]
  refine iff_of_false ?_ (by simp)
  split
  · exact hplain _ (parseRstStream_ne_panic payload)
  split
  · exact hplain _ (parseSettings_ne_panic flags hlen)
  split
  · exact hplain _ (parsePing_ne_panic payload)
  split
  · exact hplain _ (parseGoAway_ne_panic payload)
  split
  · exact hplain _ (parseWindowUpdate_ne_panic payload)
  · exact FramerM.not_panics_throw _ fr

/-! ## One call of `read_frame` -/

/-- The next frame is whole and its header block, inflated by the decompressor as
it stands, lists more headers than a map holds. -/
def Overfull (X : Http) (fr : Framer Z) : Prop :=
  ∃ h0 h1 h2 h3 flags h5 h6 h7 rest offset,
    fr.reader.bytes = h0 :: h1 :: h2 :: h3 :: flags :: h5 :: h6 :: h7 :: rest ∧
      h0 &&& 0x80 ≠ 0 ∧ fromBeBytes16 (h0 &&& 0x7f) h1 = spdyVersion ∧
        blockOffset (fromBeBytes16 h2 h3) = some offset ∧
          (fromBeBytes32 0 h5 h6 h7).toNat ≤ rest.length ∧
            offset ≤ (fromBeBytes32 0 h5 h6 h7).toNat ∧
              TooManyHeaders X (decompressBlock Z (fr.decompressor.getD Z.newDecompress)
                ((rest.take (fromBeBytes32 0 h5 h6 h7).toNat).drop offset)).1

/-- A successful read takes bytes off the front. -/
theorem readExact_ok {n : Nat} {mapErr : IoErrorKind → Error} {bs : Bytes} {fr fr' : Framer Z}
    (h : readExact n mapErr fr = .ok bs fr') :
    n ≤ fr.reader.bytes.length ∧ bs = fr.reader.bytes.take n ∧
      fr' = fr.withBytes (fr.reader.bytes.drop n) := by
  unfold readExact at h
  split at h
  · rename_i hn
    cases h
    exact ⟨hn, rfl, rfl⟩
  · cases h

/-- Eight bytes or more begin with eight bytes. -/
theorem exists_eight {bs : Bytes} (h : 8 ≤ bs.length) :
    ∃ h0 h1 h2 h3 flags h5 h6 h7 rest,
      bs = h0 :: h1 :: h2 :: h3 :: flags :: h5 :: h6 :: h7 :: rest := by
  obtain ⟨h0, h1, h2, h3, tail, rfl⟩ := exists_four bs (by omega)
  simp only [List.length_cons] at h
  obtain ⟨flags, h5, h6, h7, rest, rfl⟩ := exists_four tail (by omega)
  exact ⟨h0, h1, h2, h3, flags, h5, h6, h7, rest, rfl⟩

/-- What follows the eight bytes of a frame header. -/
theorem readFrame_header {h0 h1 h2 h3 flags h5 h6 h7 : UInt8} {rest : Bytes} {fr : Framer Z}
    (h : fr.reader.bytes = h0 :: h1 :: h2 :: h3 :: flags :: h5 :: h6 :: h7 :: rest) :
    readFrame X fr =
      (if h0 &&& 0x80 ≠ 0 then
        if fromBeBytes16 (h0 &&& 0x7f) h1 ≠ spdyVersion then
          throw (.error (.protocol
            s!"unsupported SPDY version: {fromBeBytes16 (h0 &&& 0x7f) h1}"))
        else do
          let payload ← readExact (fromBeBytes32 0 h5 h6 h7).toNat Error.io
          parseControlFrame X (fromBeBytes16 h2 h3) flags payload
      else do
        let data ← readExact (fromBeBytes32 0 h5 h6 h7).toNat Error.io
        return .data { streamId := fromBeBytes32 (h0 &&& 0x7f) h1 h2 h3, flags, data } :
        FramerM Z (Frame (HeaderMap X))) (fr.withBytes rest) := by
  have hfr : fr = fr.withBytes ([h0, h1, h2, h3, flags, h5, h6, h7] ++ rest) := by
    obtain ⟨writer, reader, compressor, decompressor⟩ := fr
    simp only [Framer.withBytes, List.cons_append, List.nil_append]
    rw [← h]
  have hread : readExact 8 headerReadError fr =
      .ok [h0, h1, h2, h3, flags, h5, h6, h7] (fr.withBytes rest) := by
    rw [hfr]
    exact readExact_append fr rfl
  rw [readFrame, FramerM.bind_ok hread]
  simp only [or_eq_fromBeBytes32]

/-- **`read_frame` panics exactly on too many headers.** -/
theorem readFrame_panics_iff (fr : Framer Z) : (readFrame X).Panics fr ↔ Overfull X fr := by
  by_cases hshort : fr.reader.bytes.length < 8
  · refine iff_of_false ?_ ?_
    · rw [readFrame, FramerM.panics_bind]
      rintro (h | ⟨bs, fr₁, h, -⟩)
      · exact readExact_not_panics _ _ _ h
      · exact absurd (readExact_ok h).1 (Nat.not_le.mpr hshort)
    · rintro ⟨h0, h1, h2, h3, flags, h5, h6, h7, rest, offset, hbytes, -⟩
      rw [hbytes] at hshort
      simp only [List.length_cons] at hshort
      omega
  · obtain ⟨h0, h1, h2, h3, flags, h5, h6, h7, rest, hbytes⟩ :=
      exists_eight (Nat.not_lt.mp hshort)
    have hlength := toNat_fromBeBytes32_zero_lt h5 h6 h7
    rw [FramerM.Panics, readFrame_header hbytes, ← FramerM.Panics]
    constructor
    · intro h
      split at h
      · rename_i hcontrol
        split at h
        · exact absurd h (FramerM.not_panics_throw _ _)
        · rename_i hversion
          rw [FramerM.panics_bind] at h
          obtain h | ⟨payload, fr₁, hread, h⟩ := h
          · exact absurd h (readExact_not_panics _ _ _)
          · obtain ⟨hwhole, rfl, rfl⟩ := readExact_ok hread
            have hpayload : ((fr.withBytes rest).reader.bytes.take
                (fromBeBytes32 0 h5 h6 h7).toNat).length = (fromBeBytes32 0 h5 h6 h7).toNat :=
              List.length_take_of_le hwhole
            rw [parseControlFrame_panics_iff _ _ (by omega)] at h
            obtain ⟨offset, hoffset, hle, hmany⟩ := h
            rw [hpayload] at hle
            exact ⟨h0, h1, h2, h3, flags, h5, h6, h7, rest, offset, hbytes, hcontrol,
              not_not.mp hversion, hoffset, hwhole, hle, hmany⟩
      · rw [FramerM.panics_bind] at h
        obtain h | ⟨_, _, -, h⟩ := h
        · exact absurd h (readExact_not_panics _ _ _)
        · exact absurd h (FramerM.not_panics_pure _ _)
    · rintro ⟨g0, g1, g2, g3, gflags, g5, g6, g7, grest, offset, hbytes', hcontrol, hversion,
        hoffset, hwhole, hle, hmany⟩
      rw [hbytes] at hbytes'
      simp only [List.cons.injEq] at hbytes'
      obtain ⟨rfl, rfl, rfl, rfl, rfl, rfl, rfl, rfl, rfl⟩ := hbytes'
      have hpayload : (rest.take (fromBeBytes32 0 h5 h6 h7).toNat).length =
          (fromBeBytes32 0 h5 h6 h7).toNat := List.length_take_of_le hwhole
      rw [if_pos hcontrol, if_neg (not_not.mpr hversion), FramerM.panics_bind]
      refine Or.inr ⟨rest.take (fromBeBytes32 0 h5 h6 h7).toNat,
        fr.withBytes (rest.drop (fromBeBytes32 0 h5 h6 h7).toNat), if_pos hwhole, ?_⟩
      rw [parseControlFrame_panics_iff _ _ (by omega)]
      exact ⟨offset, hoffset, by omega, hmany⟩

/-! ## The loop of the read task -/

/-- How the loop of the read task ends. -/
inductive LoopEnd where
  /-- it breaks, and the task goes on to close the streams and broadcast the close -/
  | teardown
  /-- `read_frame` panics, and the task is gone -/
  | dead
  deriving DecidableEq, Repr

/-- The loop of the read task, for as many rounds as given: it breaks on an error
and after a GOAWAY.  What it does with the other frames does not come back to
the framer. -/
def readLoop (X : Http) : Nat → Framer Z → Option LoopEnd
  | 0, _ => none
  | n + 1, fr =>
      match readFrame X fr with
      | .ok (.goAway _) _ => some .teardown
      | .ok _ fr' => readLoop X n fr'
      | .error (.error _) _ => some .teardown
      | .error .panic _ => some .dead

/-- The states of the framer that the loop comes to. -/
inductive Reads (X : Http) : Framer Z → Framer Z → Prop where
  | start (fr : Framer Z) : Reads X fr fr
  | next {fr fr₁ fr₂ : Framer Z} {f : Frame (HeaderMap X)} :
      readFrame X fr = .ok f fr₁ → (∀ g, f ≠ .goAway g) → Reads X fr₁ fr₂ → Reads X fr fr₂

/-- A call that leaves the reader where it is. -/
def FramerM.KeepsReader {α : Type} (x : FramerM Z α) : Prop :=
  ∀ fr a fr', x fr = .ok a fr' → fr'.reader = fr.reader

theorem FramerM.KeepsReader.bind {α β : Type} {x : FramerM Z α} {f : α → FramerM Z β}
    (hx : x.KeepsReader) (hf : ∀ a, (f a).KeepsReader) : (x >>= f).KeepsReader := by
  intro fr b fr' h
  obtain ⟨a, fr₁, h₁, h₂⟩ := FramerM.bind_eq_ok.mp h
  exact (hf a fr₁ b fr' h₂).trans (hx fr a fr₁ h₁)

theorem FramerM.keepsReader_lift {α : Type} (x : Except Fault α) :
    (FramerM.lift x : FramerM Z α).KeepsReader := by
  intro fr a fr' h
  cases x with
  | ok b =>
      cases h
      rfl
  | error e => cases h

theorem FramerM.keepsReader_throw {α : Type} (e : Fault) :
    (throw e : FramerM Z α).KeepsReader := by
  intro fr a fr' h
  cases h

theorem FramerM.keepsReader_pure {α : Type} (a : α) : (pure a : FramerM Z α).KeepsReader := by
  intro fr b fr' h
  cases h
  rfl

theorem decompressHeaders_keepsReader (compressed : Bytes) :
    (decompressHeaders X compressed : FramerM Z _).KeepsReader := by
  intro fr m fr' h
  let out := decompressBlock Z (fr.decompressor.getD Z.newDecompress) compressed
  have hlift : (FramerM.lift (out.1.bind (parseHeaderBlock X usizeBits)) : FramerM Z _)
      { fr with decompressor := some out.2 } = .ok m fr' := h
  have hkeeps := FramerM.keepsReader_lift _ _ m fr' hlift
  exact hkeeps

theorem parseControlFrame_keepsReader (frameType : UInt16) (flags : UInt8) (payload : Bytes) :
    (parseControlFrame X frameType flags payload : FramerM Z _).KeepsReader := by
  have hblock : ∀ {α : Type} (bs : Bytes) (k : HeaderMap X → α),
      (do let h ← decompressHeaders X bs
          return k h : FramerM Z α).KeepsReader :=
    fun bs k => (decompressHeaders_keepsReader bs).bind fun h => FramerM.keepsReader_pure (k h)
  have hlift := fun (α : Type) (x : Except Fault α) => FramerM.keepsReader_lift (Z := Z) x
  unfold parseControlFrame
  split
  · unfold parseSynStream
    split
    · exact FramerM.keepsReader_throw _
    · exact (hlift _ _).bind fun _ => (hlift _ _).bind fun _ => (hlift _ _).bind fun _ =>
        (hlift _ _).bind fun _ => hblock _ _
  split
  · unfold parseSynReply
    split
    · exact FramerM.keepsReader_throw _
    · exact (hlift _ _).bind fun _ => (hlift _ _).bind fun _ => hblock _ _
  split
  · exact hlift _ _
  split
  · exact hlift _ _
  split
  · exact hlift _ _
  split
  · exact hlift _ _
  split
  · unfold parseHeaders
    split
    · exact FramerM.keepsReader_throw _
    · exact (hlift _ _).bind fun _ => (hlift _ _).bind fun _ => hblock _ _
  split
  · exact hlift _ _
  · exact FramerM.keepsReader_throw _

/-- Every frame read takes the bytes of its header off the front. -/
theorem readFrame_takes {fr fr' : Framer Z} {f : Frame (HeaderMap X)}
    (h : readFrame X fr = .ok f fr') : fr'.reader.bytes.length + 8 ≤ fr.reader.bytes.length := by
  by_cases hshort : fr.reader.bytes.length < 8
  · obtain ⟨bs, fr₁, hread, -⟩ := FramerM.bind_eq_ok.mp h
    exact absurd (readExact_ok hread).1 (Nat.not_le.mpr hshort)
  · obtain ⟨h0, h1, h2, h3, flags, h5, h6, h7, rest, hbytes⟩ :=
      exists_eight (Nat.not_lt.mp hshort)
    have hread : ∀ {n : Nat} {bs : Bytes} {fr₁ : Framer Z},
        readExact n Error.io (fr.withBytes rest) = .ok bs fr₁ →
          fr₁.reader.bytes.length ≤ rest.length := by
      intro n bs fr₁ hr
      obtain ⟨-, -, rfl⟩ := readExact_ok hr
      exact (List.drop_sublist n rest).length_le
    have hrest : fr'.reader.bytes.length ≤ rest.length := by
      rw [readFrame_header hbytes] at h
      split at h
      · split at h
        · cases h
        · obtain ⟨payload, fr₁, hr, hparse⟩ := FramerM.bind_eq_ok.mp h
          rw [parseControlFrame_keepsReader _ _ _ _ _ _ hparse]
          exact hread hr
      · obtain ⟨data, fr₁, hr, hpure⟩ := FramerM.bind_eq_ok.mp h
        cases hpure
        exact hread hr
    rw [hbytes]
    simp only [List.length_cons]
    omega

/-- With a round for every eight bytes the loop comes to its end. -/
theorem readLoop_ne_none (n : Nat) :
    ∀ fr : Framer Z, fr.reader.bytes.length < 8 * n → readLoop X n fr ≠ none := by
  induction n with
  | zero =>
      intro fr h
      omega
  | succ n ih =>
      intro fr h
      unfold readLoop
      split
      · simp
      · rename_i hread
        have := readFrame_takes hread
        exact ih _ (by omega)
      · simp
      · simp

/-- A loop that is dead came to a frame with too many headers. -/
theorem readLoop_dead (n : Nat) :
    ∀ fr : Framer Z, readLoop X n fr = some .dead → ∃ fr', Reads X fr fr' ∧ Overfull X fr' := by
  induction n with
  | zero =>
      intro fr h
      cases h
  | succ n ih =>
      intro fr h
      unfold readLoop at h
      split at h
      · cases h
      · rename_i f fr₁ hgo hread
        obtain ⟨fr', hreads, hfull⟩ := ih _ h
        exact ⟨fr', .next hread (fun g hg => hgo g hg) hreads, hfull⟩
      · cases h
      · rename_i fr₁ hread
        exact ⟨fr, .start fr, (readFrame_panics_iff fr).mp ⟨_, hread⟩⟩

/-- A loop that reached the teardown came to no such frame. -/
theorem readLoop_teardown (n : Nat) :
    ∀ fr : Framer Z, readLoop X n fr = some .teardown →
      ∀ fr', Reads X fr fr' → ¬ Overfull X fr' := by
  induction n with
  | zero =>
      intro fr h
      cases h
  | succ n ih =>
      intro fr h fr' hreads hfull
      cases hreads with
      | start =>
          obtain ⟨fr₁, hpanic⟩ := (readFrame_panics_iff fr).mpr hfull
          rw [readLoop, hpanic] at h
          cases h
      | @next _ fr₁ _ f hread hgo hreads =>
          refine ih fr₁ ?_ fr' hreads hfull
          rw [readLoop, hread] at h
          split at h
          · rename_i hok
            cases hok
            exact absurd rfl (hgo _)
          · rename_i hok
            cases hok
            exact h
          · rename_i hok
            cases hok
          · rename_i hok
            cases hok

/-- **When reading never panics.**  A call of `read_frame` panics exactly if the
next frame's header block lists more headers than a map holds; and the read task
reaches its teardown exactly if its loop comes to no such frame. -/
theorem readLoop_ends (X : Http) :
    (∀ fr : Framer Z, ¬ (readFrame X).Panics fr ↔ ¬ Overfull X fr) ∧
      ∀ fr : Framer Z, (∃ n, readLoop X n fr = some .teardown) ↔
        ∀ fr', Reads X fr fr' → ¬ Overfull X fr' := by
  refine ⟨fun fr => not_congr (readFrame_panics_iff fr), fun fr => ⟨?_, ?_⟩⟩
  · rintro ⟨n, h⟩
    exact readLoop_teardown n fr h
  · intro h
    refine ⟨fr.reader.bytes.length / 8 + 1, ?_⟩
    have hend := readLoop_ne_none (X := X) (fr.reader.bytes.length / 8 + 1) fr (by omega)
    cases hl : readLoop X (fr.reader.bytes.length / 8 + 1) fr with
    | none => exact absurd hl hend
    | some e =>
        cases e with
        | teardown => rfl
        | dead =>
            obtain ⟨fr', hreads, hfull⟩ := readLoop_dead _ fr hl
            exact absurd hfull (h fr' hreads)

/-! ## A frame with too many headers -/

/-- The letters `a` to `p` as digits. -/
def digit (n : Nat) : UInt8 := UInt8.ofNat (97 + n % 16)

theorem toNat_digit (n : Nat) : (digit n).toNat = 97 + n % 16 := by
  have h : 97 + n % 16 < 2 ^ 8 := by omega
  rw [digit, UInt8.toNat_ofNat', Nat.mod_eq_of_lt h]

theorem digit_accepted (n : Nat) :
    isTokenByte (digit n) = true ∧ toAsciiLowercase (digit n) = digit n := by
  have h := toNat_digit n
  refine ⟨?_, toAsciiLowercase_other (by omega)⟩
  have hlow : (97 ≤ (digit n).toNat && (digit n).toNat ≤ 122) = true := by
    rw [Bool.and_eq_true, decide_eq_true_iff, decide_eq_true_iff]
    omega
  rw [isTokenByte, hlow]
  simp

/-- A number below `2 ^ 16` in four letters. -/
def letters (n : Nat) : Bytes := [digit (n / 4096), digit (n / 256), digit (n / 16), digit n]

/-- The header name of a number. -/
def numberedName (n : Nat) : HeaderName Http.reference where
  asStr := letters n
  accepted := by
    have hall : (letters n).all isTokenByte = true := by simp [letters, digit_accepted]
    have hfold : (letters n).map toAsciiLowercase = letters n := by simp [letters, digit_accepted]
    show referenceName (letters n) = some (letters n)
    rw [referenceName, if_pos ⟨by simp [letters], by simp [letters], hall⟩, hfold]

theorem numberedName_inj {m n : Nat} (hm : m < 2 ^ 16) (hn : n < 2 ^ 16)
    (h : numberedName m = numberedName n) : m = n := by
  have hletters : letters m = letters n := congrArg HeaderName.asStr h
  simp only [letters, List.cons.injEq, and_true] at hletters
  obtain ⟨h3, h2, h1, h0⟩ := hletters
  have e3 := congrArg UInt8.toNat h3
  have e2 := congrArg UInt8.toNat h2
  have e1 := congrArg UInt8.toNat h1
  have e0 := congrArg UInt8.toNat h0
  simp only [toNat_digit] at e3 e2 e1 e0
  omega

theorem nil_accepted : Http.reference.headerValue [] = true := rfl

/-- One name more than a map holds, each with an empty value. -/
def numberedGroups : List (Group Http.reference) :=
  (List.range (maxHeaderMapSize + 1)).map fun n => (numberedName n, [⟨[], nil_accepted⟩])

/-- The header block with these names. -/
def numberedBlock : Bytes :=
  toBeBytes32 (UInt32.ofNat (maxHeaderMapSize + 1)) ++ encodeGroups numberedGroups

theorem length_numberedGroups : numberedGroups.length = maxHeaderMapSize + 1 := by
  rw [numberedGroups, List.length_map, List.length_range]

theorem length_numberedBlock : numberedBlock.length = 4 + (maxHeaderMapSize + 1) * 12 := by
  have hentry : ∀ n, (encodeEntry (Group.entry (numberedName n, [⟨[], rfl⟩]))).length = 12 := by
    intro n
    rfl
  rw [numberedBlock, List.length_append, length_toBeBytes32, encodeGroups, numberedGroups,
    List.flatMap_map, List.length_flatMap]
  simp only [hentry, List.map_const', List.sum_replicate, List.length_range, smul_eq_mul]

theorem keyCount_numberedGroups : keyCount (ungroup numberedGroups) = maxHeaderMapSize + 1 := by
  have hpairs : (ungroup numberedGroups).map Prod.fst =
      (List.range (maxHeaderMapSize + 1)).map numberedName := by
    rw [ungroup, numberedGroups, List.flatMap_map, List.map_flatMap]
    simp only [List.map_cons, List.map_nil]
    exact List.map_eq_flatMap.symm
  have hnodup : ((List.range (maxHeaderMapSize + 1)).map numberedName).Nodup := by
    refine List.Nodup.map_on ?_ List.nodup_range
    intro m hm n hn h
    have hmax : maxHeaderMapSize + 1 < 2 ^ 16 := by decide
    exact numberedName_inj ((List.mem_range.mp hm).trans hmax)
      ((List.mem_range.mp hn).trans hmax) h
  rw [keyCount, hpairs, List.dedup_eq_self.mpr hnodup, List.length_map, List.length_range]

theorem pairsSize_reference (ps : List (HeaderName Http.reference × HeaderValue Http.reference)) :
    pairsSize Http.reference ps = keyCount ps := rfl

theorem tooManyHeaders_numberedBlock : TooManyHeaders Http.reference (.ok numberedBlock) := by
  refine ⟨UInt32.ofNat (maxHeaderMapSize + 1), encodeGroups numberedGroups, rfl, ?_⟩
  have hcount : (UInt32.ofNat (maxHeaderMapSize + 1)).toNat = numberedGroups.length := by
    rw [length_numberedGroups]
    decide
  have hne : ∀ g ∈ numberedGroups, g.2 ≠ [] := by
    intro g hg
    obtain ⟨n, -, rfl⟩ := List.mem_map.mp hg
    simp
  have hrange : ∀ g ∈ numberedGroups, Group.InRange g := by
    intro g hg
    obtain ⟨n, -, rfl⟩ := List.mem_map.mp hg
    have hname : (numberedName n).asStr.length = 4 := rfl
    have hvalue : (Group.joined (numberedName n, [⟨[], rfl⟩])).length = 0 := rfl
    exact ⟨by rw [hname]; decide, by rw [hvalue]; decide⟩
  have hscan := scan_encodeGroups hne hrange []
  rw [List.append_nil] at hscan
  rw [hcount, hscan]
  rw [pairsSize_reference, keyCount_numberedGroups]
  exact Nat.lt_succ_self _

/-- The payload of a HEADERS frame around a compressed block. -/
def headersPayload (raw : Bytes) : Bytes :=
  streamIdPayload 1 (compressBlock Zlib.reference Zlib.reference.start raw).produced

/-- A new receiver that is sent this frame. -/
def headersReceiver (raw : Bytes) : Framer Zlib.reference :=
  Framer.new Zlib.reference []
    ⟨controlHeader typeHeaders 0 (headersPayload raw) ++ (headersPayload raw ++ []), .unexpectedEof⟩

theorem produced_reference (raw : Bytes) :
    (compressBlock Zlib.reference Zlib.reference.start raw).produced =
      dictionaryHeader spdyDict ++ deflate true raw :=
  congrArg Compressed.produced
    (compressBlock_reference ⟨dictionaryHeader spdyDict, true⟩ raw fun _ => le_refl 6)

theorem length_headersPayload {raw : Bytes} (h : raw.length < 2 ^ 22) :
    4 ≤ (headersPayload raw).length ∧ (headersPayload raw).length < 2 ^ 24 := by
  have hdeflate := length_deflate_le true raw
  have hheader : (dictionaryHeader spdyDict).length = 6 := rfl
  rw [headersPayload, streamIdPayload, produced_reference, List.length_append,
    List.length_append, length_toBeBytes32, hheader]
  omega

/-- A block that does not shrink comes out whole. -/
theorem decompressBlock_reference {raw : Bytes} (h : 1000 ≤ raw.length) :
    (decompressBlock Zlib.reference Zlib.reference.newDecompress
      (compressBlock Zlib.reference Zlib.reference.start raw).produced).1 = .ok raw := by
  have hne : raw ≠ [] := List.length_pos_iff.mp (by omega)
  obtain ⟨-, hback, -⟩ := decompressBlock_paired documented_reference (Or.inr ⟨rfl, rfl⟩) hne
  have hfit : raw.length ≤ initialCapacity
      (compressBlock Zlib.reference Zlib.reference.start raw).produced := by
    have hdeflate := length_le_deflate true h
    rw [produced_reference, initialCapacity, List.length_append]
    omega
  rw [hback, List.take_of_length_le hfit]

/-- A receiver panics on a block with too many headers in it. -/
theorem readFrame_panics_of_block {raw : Bytes} (hlong : 1000 ≤ raw.length)
    (hlen : raw.length < 2 ^ 22) (hmany : TooManyHeaders X (.ok raw)) :
    (readFrame X).Panics (headersReceiver raw) ∧
      readLoop X 1 (headersReceiver raw) = some .dead := by
  obtain ⟨hfour, hpayload⟩ := length_headersPayload hlen
  have hread := readFrame_control (X := X) typeHeaders 0 []
    (Framer.new Zlib.reference [] ⟨[], .unexpectedEof⟩) (by decide) hpayload
  have hpanics : (parseControlFrame X typeHeaders 0 (headersPayload raw)).Panics
      ((Framer.new Zlib.reference [] ⟨[], .unexpectedEof⟩).withBytes []) := by
    rw [parseControlFrame_panics_iff _ _ hpayload]
    refine ⟨4, by decide, hfour, ?_⟩
    have hdrop : (headersPayload raw).drop 4 =
        (compressBlock Zlib.reference Zlib.reference.start raw).produced := rfl
    have hnew : ((Framer.new Zlib.reference [] ⟨[], .unexpectedEof⟩).withBytes
        []).decompressor.getD Zlib.reference.newDecompress = Zlib.reference.newDecompress := rfl
    rw [hdrop, hnew, decompressBlock_reference hlong]
    exact hmany
  obtain ⟨fr', hpanic⟩ := hpanics
  have hpanic' : readFrame X (headersReceiver raw) = .error .panic fr' := hread.trans hpanic
  refine ⟨⟨fr', hpanic'⟩, ?_⟩
  rw [readLoop, hpanic']

/-- **`read_frame` panics on bytes a peer can send**, and the read task never
comes to its teardown. -/
theorem readFrame_panics_numbered :
    (readFrame Http.reference).Panics (headersReceiver numberedBlock) ∧
      readLoop Http.reference 1 (headersReceiver numberedBlock) = some .dead := by
  have hlength : 1000 ≤ 4 + (maxHeaderMapSize + 1) * 12 ∧
      4 + (maxHeaderMapSize + 1) * 12 < 2 ^ 22 := by decide
  rw [← length_numberedBlock] at hlength
  exact readFrame_panics_of_block hlength.1 hlength.2 tooManyHeaders_numberedBlock

end SpdyStream.Framing
