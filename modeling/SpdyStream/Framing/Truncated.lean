/-
  Framing/Truncated.lean --- frames whose bytes end early.

  A transport may end at any byte.  What was written whole before that byte is read, and
  then `read_frame` fails: as a closed connection between two frames or inside a header,
  and as an I/O error inside a payload.
-/
import SpdyStream.Framing.FrameBoundary

set_option autoImplicit false

namespace SpdyStream.Framing

open SpdyStream.Foundation

variable {Z : Zlib} {X : Http}

/-! ## Headers -/

/-- The top bit of a byte below 128. -/
theorem and_top_of_lt {b : UInt8} (h : b.toNat < 128) : b &&& 0x80 = 0 := by
  obtain ⟨n, rfl⟩ : ∃ n : Fin 128, b = UInt8.ofNat n.val :=
    ⟨⟨b.toNat, h⟩, (UInt8.ofNat_toNat).symm⟩
  revert n
  decide

/-- The first byte of a DATA frame has its top bit clear. -/
theorem dataHeader_top (streamId : UInt32) :
    ((streamId &&& 0x7fffffff) >>> 24).toUInt8 &&& 0x80 = 0 := by
  refine and_top_of_lt ?_
  have hid : (streamId &&& 0x7fffffff).toNat < 2 ^ 31 := by
    rw [toNat_and_mask _ _ 31 (by decide)]
    exact Nat.mod_lt _ (by decide)
  have hbyte := toNat_shiftRight_toUInt8 (streamId &&& 0x7fffffff) 24 (by decide)
  simp only [UInt32.reduceToNat] at hbyte
  omega

theorem controlHeader_eq (frameType : UInt16) (flags : UInt8) (payload : Bytes) :
    controlHeader frameType flags payload =
      ([0x80, 0x03, (frameType >>> 8).toUInt8, frameType.toUInt8, flags,
        ((UInt32.ofNat payload.length) >>> 16).toUInt8,
        ((UInt32.ofNat payload.length) >>> 8).toUInt8,
        (UInt32.ofNat payload.length).toUInt8] : Bytes) := by
  rw [controlHeader, lengthBytes_eq]
  rfl

/-- The eight bytes of a header: the last three give the length of the payload, and those
of a control frame begin with the version. -/
theorem header_bytes (f : Frame (HeaderMap X)) {payload : Bytes} (h : payload.length < 2 ^ 24) :
    ∃ h0 h1 h2 h3 flags h5 h6 h7, f.header payload = [h0, h1, h2, h3, flags, h5, h6, h7] ∧
      (fromBeBytes32 0 h5 h6 h7).toNat = payload.length ∧
      (h0 &&& 0x80 ≠ 0 → fromBeBytes16 (h0 &&& 0x7f) h1 = spdyVersion) := by
  have hlength := lengthField_toNat h
  rw [or_eq_fromBeBytes32] at hlength
  have hcontrol : ∀ (frameType : UInt16) (flags : UInt8),
      f.header payload = controlHeader frameType flags payload →
      ∃ h0 h1 h2 h3 flags h5 h6 h7, f.header payload = [h0, h1, h2, h3, flags, h5, h6, h7] ∧
        (fromBeBytes32 0 h5 h6 h7).toNat = payload.length ∧
        (h0 &&& 0x80 ≠ 0 → fromBeBytes16 (h0 &&& 0x7f) h1 = spdyVersion) := by
    intro frameType flags hheader
    have hversion : fromBeBytes16 (0x80 &&& 0x7f) 0x03 = spdyVersion := by decide
    exact ⟨0x80, 0x03, _, _, flags, _, _, _,
      hheader.trans (controlHeader_eq frameType flags payload), hlength, fun _ => hversion⟩
  cases f with
  | data f =>
      let streamId := f.streamId &&& 0x7fffffff
      refine ⟨(streamId >>> 24).toUInt8, (streamId >>> 16).toUInt8, (streamId >>> 8).toUInt8,
        streamId.toUInt8, f.flags, _, _, _, ?_, hlength, fun htop => ?_⟩
      · rw [Frame.header, lengthBytes_eq]
        rfl
      · exact absurd (dataHeader_top f.streamId) htop
  | synStream _ | synReply _ | rstStream _ | settings _ | ping _ | goAway _ | headers _
  | windowUpdate _ => exact hcontrol _ _ rfl

/-! ## One frame -/

/-- The error at an end behind some bytes of a frame. -/
def cutError (part : Bytes) (atEnd : IoErrorKind) : Error :=
  if part.length < 8 then headerReadError atEnd else .io atEnd

theorem readExact_short (mapErr : IoErrorKind → Error) (fr : Framer Z) {n : Nat}
    (h : fr.reader.bytes.length < n) :
    ∃ fr', readExact n mapErr fr = .error (.error (mapErr fr.reader.atEnd)) fr' := by
  rw [readExact, if_neg (Nat.not_le.mpr h)]
  exact ⟨_, rfl⟩

/-- A frame that is not there whole is not read. -/
theorem readFrame_cut {f : Frame (HeaderMap X)} {block part more : Bytes}
    (hlen : (f.payload block).length < 2 ^ 24) (hmore : more ≠ [])
    (hcut : frameBytes f block = part ++ more) (fr : Framer Z) :
    ∃ fr', readFrame X (fr.withBytes part) =
      .error (.error (cutError part fr.reader.atEnd)) fr' := by
  have hmissing := List.length_pos_of_ne_nil hmore
  by_cases hshort : part.length < 8
  · obtain ⟨fr', hread⟩ := readExact_short headerReadError (fr.withBytes part) hshort
    rw [cutError, if_pos hshort]
    exact ⟨fr', FramerM.bind_error hread⟩
  · obtain ⟨_, _, _, _, _, _, _, _, rest, rfl⟩ := exists_eight (Nat.not_lt.mp hshort)
    obtain ⟨h0, h1, h2, h3, flags, h5, h6, h7, hheader, hlength, hversion⟩ := header_bytes f hlen
    have hbytes := congrArg List.length hcut
    rw [frameBytes, hheader] at hcut
    simp only [List.cons_append, List.nil_append, List.cons.injEq] at hcut
    obtain ⟨rfl, rfl, rfl, rfl, rfl, rfl, rfl, rfl, -⟩ := hcut
    rw [length_frameBytes] at hbytes
    simp only [List.length_append, List.length_cons] at hbytes
    have hrest : rest.length < (fromBeBytes32 0 h5 h6 h7).toNat := by omega
    obtain ⟨fr', hread⟩ := readExact_short Error.io (fr.withBytes rest) hrest
    have hall :
        (fr.withBytes (h0 :: h1 :: h2 :: h3 :: flags :: h5 :: h6 :: h7 :: rest)).reader.bytes =
          h0 :: h1 :: h2 :: h3 :: flags :: h5 :: h6 :: h7 :: rest := rfl
    rw [cutError, if_neg hshort, readFrame_header hall]
    refine ⟨fr', ?_⟩
    split
    · rename_i htop
      rw [if_neg (not_not.mpr (hversion htop))]
      exact FramerM.bind_error hread
    · exact FramerM.bind_error hread

/-! ## Reading in a row -/

/-- One more frame is read. -/
theorem readFrames_snoc {g : Frame (HeaderMap X)} {fr₁ fr₂ : Framer Z}
    (hlast : readFrame X fr₁ = .ok g fr₂) (gs : List (Frame (HeaderMap X))) :
    ∀ fr : Framer Z, readFrames X gs.length fr = .ok gs fr₁ →
      readFrames X (gs.length + 1) fr = .ok (gs ++ [g]) fr₂ := by
  induction gs with
  | nil =>
      intro fr h
      cases h
      rw [List.length_nil, Nat.zero_add, readFrames, FramerM.bind_ok hlast]
      rfl
  | cons f gs ih =>
      intro fr h
      rw [List.length_cons, readFrames] at h
      obtain ⟨f', fr', hfirst, h⟩ := FramerM.bind_eq_ok.mp h
      obtain ⟨gs', fr'', hrest, h⟩ := FramerM.bind_eq_ok.mp h
      cases h
      rw [List.length_cons, readFrames, FramerM.bind_ok hfirst, FramerM.bind_ok (ih fr' hrest)]
      rfl

/-- Where reading fails behind some frames, no more than these are read. -/
theorem readFrames_atMost {final : Framer Z} {fault : Fault} {fr' : Framer Z}
    (hend : readFrame X final = .error fault fr') (m : Nat) :
    ∀ (k : Nat) (fr last : Framer Z) (gs hs : List (Frame (HeaderMap X))),
      readFrames X m fr = .ok gs final → readFrames X k fr = .ok hs last →
        k ≤ m ∧ hs = gs.take k := by
  induction m with
  | zero =>
      intro k fr last gs hs hm hk
      cases hm
      cases k with
      | zero =>
          cases hk
          exact ⟨Nat.le_refl 0, rfl⟩
      | succ k =>
          obtain ⟨f, fr₁, hread, -⟩ := FramerM.bind_eq_ok.mp hk
          cases hend.symm.trans hread
  | succ m ih =>
      intro k fr last gs hs hm hk
      cases k with
      | zero =>
          cases hk
          exact ⟨Nat.zero_le _, rfl⟩
      | succ k =>
          obtain ⟨f, fr₁, hread, hm⟩ := FramerM.bind_eq_ok.mp hm
          obtain ⟨gs', fr₂, hgs, hm⟩ := FramerM.bind_eq_ok.mp hm
          obtain ⟨f', fr₁', hread', hk⟩ := FramerM.bind_eq_ok.mp hk
          obtain ⟨hs', fr₂', hhs, hk⟩ := FramerM.bind_eq_ok.mp hk
          cases hm
          cases hk
          cases hread.symm.trans hread'
          obtain ⟨hle, rfl⟩ := ih k fr₁ _ _ _ hgs hhs
          exact ⟨Nat.succ_le_succ hle, rfl⟩

/-! ## Frames in a row -/

/-- What is read of frames of which only the first bytes are there. -/
structure ReadsCut (X : Http) (c : Z.Compress) (fs : List (Frame (HeaderMap X)))
    (fr : Framer Z) (whole : Nat) (gs : List (Frame (HeaderMap X))) (final : Framer Z) :
    Prop where
  count : whole ≤ fs.length
  read : readFrames X whole fr = .ok gs final
  same : List.Forall₂ Frame.Same gs (fs.take whole)
  /-- what is read takes its own bytes -/
  bytes : wireBytes Z c (fs.take whole) ++ final.reader.bytes = fr.reader.bytes
  /-- the next frame is not there whole -/
  missing : whole < fs.length →
    fr.reader.bytes.length < (wireBytes Z c (fs.take (whole + 1))).length
  /-- and then reading fails -/
  ends : ∃ fr', readFrame X final =
    .error (.error (cutError final.reader.bytes fr.reader.atEnd)) fr'

/-- Behind a frame that is there whole the others are read. -/
theorem ReadsCut.cons {c c' : Z.Compress} {f g : Frame (HeaderMap X)}
    {fs gs : List (Frame (HeaderMap X))} {bytes cut : Bytes} {fr fr₁ final : Framer Z} {whole : Nat}
    (hwire : ∀ fs' : List (Frame (HeaderMap X)),
      wireBytes Z c (f :: fs') = bytes ++ wireBytes Z c' fs')
    (hread : readFrame X (fr.withBytes (bytes ++ cut)) = .ok g fr₁)
    (hreader : fr₁.reader = ⟨cut, fr.reader.atEnd⟩) (hsame : g.Same f)
    (h : ReadsCut X c' fs fr₁ whole gs final) :
    ReadsCut X c (f :: fs) (fr.withBytes (bytes ++ cut)) (whole + 1) (g :: gs) final where
  count := Nat.succ_le_succ h.count
  read := by
    rw [readFrames, FramerM.bind_ok hread, FramerM.bind_ok h.read]
    rfl
  same := .cons hsame h.same
  bytes := by
    have hrest := h.bytes
    rw [hreader] at hrest
    rw [List.take_succ_cons, hwire, List.append_assoc, hrest]
    rfl
  missing hlt := by
    have hmissing := h.missing (Nat.lt_of_succ_lt_succ hlt)
    rw [hreader] at hmissing
    rw [List.take_succ_cons, hwire]
    show (bytes ++ cut).length < _
    rw [List.length_append, List.length_append]
    exact Nat.add_lt_add_left hmissing _
  ends := by
    have hends := h.ends
    rwa [hreader] at hends

/-- Where the first frame is not there whole, nothing is read. -/
theorem ReadsCut.none {c : Z.Compress} {fs : List (Frame (HeaderMap X))} {fr : Framer Z}
    (hmissing : 0 < fs.length → fr.reader.bytes.length < (wireBytes Z c (fs.take 1)).length)
    (hends : ∃ fr', readFrame X fr =
      .error (.error (cutError fr.reader.bytes fr.reader.atEnd)) fr') :
    ReadsCut X c fs fr 0 [] fr where
  count := Nat.zero_le _
  read := rfl
  same := .nil
  bytes := rfl
  missing := hmissing
  ends := hends

/-- A list that begins another ends in its first part, or goes on behind it. -/
theorem prefix_append_cases {α : Type} {cut xs ys : List α} (h : cut <+: xs ++ ys) :
    (∃ more, more ≠ [] ∧ xs = cut ++ more) ∨ ∃ rest, cut = xs ++ rest ∧ rest <+: ys := by
  obtain ⟨tail, htail⟩ := h
  rcases List.append_eq_append_iff.mp htail with ⟨more, hxs, hys⟩ | ⟨rest, hcut, hys⟩
  · cases more with
    | nil => exact .inr ⟨[], by rw [hxs]; simp, List.nil_prefix⟩
    | cons b more => exact .inl ⟨b :: more, by simp, hxs⟩
  · exact .inr ⟨rest, hcut, tail, hys.symm⟩

theorem readFrames_cut_run (fs : List (Frame (HeaderMap X))) :
    ∀ (fr : Framer Z) (c : Z.Compress) (d : Z.Decompress) (cut : Bytes),
      fr.decompressor.getD Z.newDecompress = d →
      (∀ f ∈ fs, f.InRange) →
      (∀ p ∈ withBlocks Z c fs, (p.1.payload p.2).length < 2 ^ 24) →
      BlocksRestored Z c d (rawBlocks fs) →
      cut <+: wireBytes Z c fs →
      ∃ whole gs final, ReadsCut X c fs (fr.withBytes cut) whole gs final := by
  induction fs with
  | nil =>
      intro fr c d cut _ _ _ _ hcut
      obtain rfl : cut = [] := List.prefix_nil.mp hcut
      refine ⟨0, [], _, .none (fun h => absurd h (Nat.lt_irrefl 0)) ?_⟩
      obtain ⟨fr', hread⟩ :=
        readExact_short headerReadError (fr.withBytes []) (Nat.zero_lt_succ 7)
      exact ⟨fr', FramerM.bind_error hread⟩
  | cons f fs ih =>
      intro fr c d cut hd hrange hlen hblocks hcut
      have hr : f.InRange := hrange f List.mem_cons_self
      have hrange' : ∀ g ∈ fs, g.InRange := fun g hg => hrange g (List.mem_cons_of_mem _ hg)
      -- Where the bytes end in the first frame, whichever block it has.
      have hends : ∀ (block : Bytes) (c' : Z.Compress), (f.payload block).length < 2 ^ 24 →
          (∀ fs' : List (Frame (HeaderMap X)),
            wireBytes Z c (f :: fs') = frameBytes f block ++ wireBytes Z c' fs') →
          (∃ more, more ≠ [] ∧ frameBytes f block = cut ++ more) →
          ∃ whole gs final, ReadsCut X c (f :: fs) (fr.withBytes cut) whole gs final := by
        rintro block c' hfits hwire ⟨more, hmore, hframe⟩
        refine ⟨0, [], _, .none (fun _ => ?_) (readFrame_cut hfits hmore hframe fr)⟩
        have hpos := List.length_pos_of_ne_nil hmore
        rw [List.take_succ_cons, hwire, hframe]
        show cut.length < _
        rw [List.length_append, List.length_append]
        omega
      cases hf : f.headers? with
      | none =>
          have hraw : rawBlocks (f :: fs) = rawBlocks fs := by simp [rawBlocks, hf]
          have hwire : ∀ fs' : List (Frame (HeaderMap X)),
              wireBytes Z c (f :: fs') = frameBytes f [] ++ wireBytes Z c fs' := by
            intro fs'
            simp only [wireBytes, withBlocks, hf, List.flatMap_cons]
          simp only [withBlocks, hf, List.forall_mem_cons] at hlen
          rw [hraw] at hblocks
          rw [hwire] at hcut
          rcases prefix_append_cases hcut with hshort | ⟨rest, rfl, hrest⟩
          · exact hends [] c hlen.1 hwire hshort
          · have hread := readFrame_plain hf hr hlen.1 rest fr
            obtain ⟨whole, gs, final, hcuts⟩ := ih fr c d rest hd hrange' hlen.2 hblocks hrest
            exact ⟨whole + 1, f :: gs, final,
              hcuts.cons hwire hread rfl (Frame.same_of_plain hf)⟩
      | some h =>
          have hraw : rawBlocks (f :: fs) = encodeHeaders h :: rawBlocks fs := by
            simp [rawBlocks, hf]
          let out := compressBlock Z c (encodeHeaders h)
          have hwire : ∀ fs' : List (Frame (HeaderMap X)),
              wireBytes Z c (f :: fs') =
                frameBytes f out.produced ++ wireBytes Z out.state fs' := by
            intro fs'
            simp only [wireBytes, withBlocks, hf, List.flatMap_cons, out]
          simp only [withBlocks, hf, List.forall_mem_cons] at hlen
          rw [hraw] at hblocks
          obtain ⟨-, hback, hblocks⟩ := hblocks
          rw [hwire] at hcut
          rcases prefix_append_cases hcut with hshort | ⟨rest, rfl, hrest⟩
          · exact hends out.produced out.state hlen.1 hwire hshort
          · obtain ⟨m, hm, hdec⟩ := decompressHeaders_restored (hr.headers hf)
              (fr.withBytes rest) hd hback
            have hread := readFrame_headers hf hr hlen.1 hdec
            obtain ⟨whole, gs, final, hcuts⟩ :=
              ih { fr with decompressor := some (decompressBlock Z d out.produced).2 } out.state _
                rest rfl hrange' hlen.2 hblocks hrest
            exact ⟨whole + 1, f.withHeaders m :: gs, final,
              hcuts.cons hwire hread rfl (Frame.withHeaders_same hf hm)⟩

/-- **Frames whose bytes end early.**  A fresh framer over any first part of the bytes of
some frames reads those that are there whole, in order, and then fails: never with
another frame, and never by a panic.  It is assumed that `decompressBlock` restores each
header block, which its loop does not do for all (`headersRestored_iff`). -/
theorem readFrames_cut {fs : List (Frame (HeaderMap X))} {source : Bytes} {atEnd : IoErrorKind}
    {written : Framer Z} (sink : Bytes) {cut : Bytes}
    (hwritten : writeFrames fs (Framer.new Z [] ⟨source, atEnd⟩) = .ok () written)
    (hcut : cut <+: written.writer) (hrange : ∀ f ∈ fs, f.InRange)
    (hlen : ∀ p ∈ withBlocks Z (Framer.new Z [] ⟨source, atEnd⟩).compressor fs,
      (p.1.payload p.2).length < 2 ^ 24)
    (hzlib : BlocksRestored Z (Framer.new Z [] ⟨source, atEnd⟩).compressor Z.newDecompress
      (rawBlocks fs)) :
    ∃ whole gs final, ReadsCut X (Framer.new Z [] ⟨source, atEnd⟩).compressor fs
      (Framer.new Z sink ⟨cut, atEnd⟩) whole gs final := by
  obtain ⟨c, hc⟩ := writeFrames_run fs (Framer.new Z [] ⟨source, atEnd⟩) _ rfl hzlib
  cases hwritten.symm.trans hc
  exact readFrames_cut_run fs (Framer.new Z sink ⟨[], atEnd⟩) _ _ cut rfl hrange hlen hzlib hcut

/-- A SYN_REPLY with a header, a PING and a DATA frame. -/
def replyAndData : List (Frame (HeaderMap Http.reference)) :=
  [.synReply ⟨1, methodGet, 0⟩, .ping ⟨9⟩, .data ⟨1, 0, [0x68, 0x69]⟩]

/-- Their bytes, but for the last one. -/
def replyAndDataCut : Bytes := (writerOf replyAndData).writer.dropLast

/-- Two of them are read, and then the transport ends inside a payload. -/
theorem readFrames_cut_payload :
    ∃ whole gs final, ReadsCut Http.reference
      (Framer.new Zlib.reference [] ⟨[], .other⟩).compressor replyAndData
      (Framer.new Zlib.reference [] ⟨replyAndDataCut, .other⟩) whole gs final := by
  have hblocks : BlocksRestored Zlib.reference
      (Framer.new Zlib.reference [] ⟨[], .other⟩).compressor Zlib.reference.newDecompress
      (rawBlocks replyAndData) := ⟨by decide +kernel, by decide +kernel, trivial⟩
  exact readFrames_cut [] (writerOf_wrote hblocks) (List.dropLast_prefix _) (by decide +kernel)
    (by decide +kernel) hblocks

end SpdyStream.Framing
