/-
  Framing/Received.lean --- what `read_frame` returns, whatever bytes it is given.

  The reader masks stream ids, deltas and setting ids, and bounds a payload by the
  three bytes of its length.  So every frame that is ever returned is in wire range:
  it can be written again, and is read as the same frame.
-/
import SpdyStream.Framing.ReadLoop
import SpdyStream.Framing.Reference

set_option autoImplicit false

namespace SpdyStream.Framing

open SpdyStream.Foundation

variable {X : Http} {Z : Zlib}

/-! ## Header maps -/

/-- The bytes of the values of some pairs, each with one byte between it and the next. -/
def valueBytes (ps : List (HeaderName X × HeaderValue X)) : Nat :=
  (ps.map fun p => p.2.asBytes.length + 1).sum

/-- Parts joined with one byte are as long as the parts with one byte each, less one. -/
theorem length_intercalate (b : UInt8) {parts : List Bytes} (h : parts ≠ []) :
    ([b].intercalate parts).length + 1 = (parts.map fun p => p.length + 1).sum := by
  induction parts with
  | nil => exact absurd rfl h
  | cons p parts ih =>
      cases parts with
      | nil => simp
      | cons q parts =>
          have hrest := ih (List.cons_ne_nil q parts)
          rw [List.intercalate_cons_cons, List.map_cons, List.sum_cons, ← hrest]
          simp only [List.length_append, List.length_singleton]
          omega

theorem length_joined {g : Group X} (h : g.2 ≠ []) :
    (Group.joined g).length + 1 = (g.2.map fun v => v.asBytes.length + 1).sum := by
  have hne : g.2.map HeaderValue.asBytes ≠ [] := by simpa using h
  rw [Group.joined, length_intercalate 0 hne, List.map_map]
  rfl

/-- What is read from a block is no longer than the block. -/
theorem scan_bounds {n : Nat} {bs rest : Bytes} {ps : List (HeaderName X × HeaderValue X)}
    (h : scan X n bs = ⟨ps, .ok rest⟩) :
    valueBytes ps + rest.length ≤ bs.length ∧ ∀ p ∈ ps, p.1.asStr.length ≤ bs.length := by
  induction n generalizing bs ps with
  | zero =>
      obtain ⟨rfl, hr⟩ := Scan.mk.inj h
      rw [← Except.ok.inj hr]
      exact ⟨Nat.le_of_eq (Nat.zero_add _), fun p hp => absurd hp List.not_mem_nil⟩
  | succ n ih =>
      obtain ⟨nameBytes, valBytes, bs', name, vs, qs, ht, hn, hsplit, hscan, rfl⟩ :=
        scan_succ_ok h
      obtain ⟨-, rfl⟩ := takeEntry_ok ht
      obtain ⟨hsum, hnames⟩ := ih hscan
      have hlength : (encodeEntry (nameBytes, valBytes) ++ bs').length =
          8 + nameBytes.length + valBytes.length + bs'.length := by
        simp only [encodeEntry, List.length_append, length_toBeBytes32]
        omega
      have hvalues : (vs.map fun v => v.asBytes.length + 1).sum = valBytes.length + 1 := by
        have hne : valBytes.splitOn 0 ≠ [] := List.splitOn_ne_nil _ _
        have hjoin := length_intercalate 0 hne
        rw [List.intercalate_splitOn, hsplit, List.map_map] at hjoin
        exact hjoin.symm
      have happ : valueBytes ((vs.map fun v => (name, v)) ++ qs) =
          (vs.map fun v => v.asBytes.length + 1).sum + valueBytes qs := by
        rw [valueBytes, List.map_append, List.sum_append, List.map_map]
        rfl
      refine ⟨by omega, fun p hp => ?_⟩
      rcases List.mem_append.mp hp with hp | hp
      · obtain ⟨v, -, rfl⟩ := List.mem_map.mp hp
        rw [hlength]
        show name.asStr.length ≤ _
        rw [HeaderName.length_fromBytes hn]
        omega
      · exact (hnames p hp).trans (by omega)

/-- The values under one name are among all values. -/
theorem sum_valuesOf_le (n : HeaderName X) (ps : List (HeaderName X × HeaderValue X)) :
    ((valuesOf n ps).map fun v => v.asBytes.length + 1).sum ≤ valueBytes ps := by
  rw [valuesOf, List.map_map, valueBytes]
  exact ((List.filter_sublist).map _).sum_le_sum fun _ _ => Nat.zero_le _

/-- A map that was parsed has no name and no joined value longer than its block. -/
theorem inRange_of_parsed {raw : Bytes} {m : HeaderMap X} (hlen : raw.length < 2 ^ 32)
    (hok : parseHeaderBlock X usizeBits raw = .ok m) : m.InRange := by
  have hshort : ¬ raw.length < 4 := fun hshort => by
    rw [parseHeaderBlock, if_pos hshort] at hok
    cases hok
  obtain ⟨a, b, c, d, body, rfl⟩ := exists_four _ (Nat.not_lt.mp hshort)
  have hw : (a :: b :: c :: d :: body).length + 2 ^ 32 ≤ 2 ^ usizeBits :=
    (Nat.add_le_add_right (Nat.le_of_lt hlen) _).trans (by decide)
  rw [parseHeaderBlock_eq hw] at hok
  obtain ⟨hiter, rest, hresult⟩ := appendScan_new_ok hok
  obtain ⟨hsum, hnames⟩ := scan_bounds (show scan X (fromBeBytes32 a b c d).toNat body =
    ⟨(scan X (fromBeBytes32 a b c d).toNat body).pairs, .ok rest⟩ from congrArg (Scan.mk _) hresult)
  rw [← hiter] at hsum hnames
  have hbody : body.length < 2 ^ 32 := by
    simp only [List.length_cons] at hlen
    omega
  obtain ⟨groups, hg⟩ := exists_groups m
  rw [hg.inRange]
  intro g hmem
  obtain ⟨hvalues, hne⟩ := hg.values g hmem
  constructor
  · obtain ⟨v, hv⟩ := List.exists_mem_of_ne_nil _ (hvalues ▸ hne)
    exact Nat.lt_of_le_of_lt (hnames (g.1, v) (mem_valuesOf.mp hv)) hbody
  · have hjoined := length_joined hne
    have hle := sum_valuesOf_le g.1 m.iter
    rw [← hvalues] at hle
    omega

/-- So has a map that was decompressed from the payload of a frame. -/
theorem inRange_of_decompressed {compressed : Bytes} {m : HeaderMap X} {fr fr' : Framer Z}
    (hlen : compressed.length < 2 ^ 24) (h : decompressHeaders X compressed fr = .ok m fr') :
    m.InRange := by
  simp only [decompressHeaders] at h
  cases hout : (decompressBlock Z (fr.decompressor.getD Z.newDecompress) compressed).1 with
  | error e =>
      rw [hout] at h
      cases h
  | ok raw =>
      have hraw := length_decompressBlock hout
      rw [hout] at h
      cases hparse : parseHeaderBlock X usizeBits raw with
      | error e =>
          simp only [Except.bind, hparse] at h
          cases h
      | ok m' =>
          simp only [Except.bind, hparse] at h
          cases h
          exact inRange_of_parsed (by omega) hparse

/-! ## Frames -/

/-- The frame can be written, whatever it takes to compress its headers. -/
structure Frame.Writable (f : Frame (HeaderMap X)) : Prop where
  inRange : f.InRange
  fits : f.headers? = none → (f.payload []).length < 2 ^ 24

theorem maskedWord_lt {payload : Bytes} {i : Nat} {x : UInt32} (h : maskedWord payload i = .ok x) :
    x.toNat < 2 ^ 31 := by
  obtain ⟨y, -, hy⟩ := bind_ok h
  cases hy
  rw [toNat_and_mask _ _ 31 (by decide)]
  exact Nat.mod_lt _ (by decide)

theorem settingAt_lt {width : Nat} {payload : Bytes} {i : Nat} {s : Setting}
    (h : settingAt width payload i = .ok s) : s.id.toNat < 2 ^ 24 := by
  obtain ⟨x, -, h⟩ := bind_ok h
  obtain ⟨y, -, h⟩ := bind_ok h
  cases h
  show (x &&& 0x00ffffff).toNat < 2 ^ 24
  rw [toNat_and_mask _ _ 24 (by decide)]
  exact Nat.mod_lt _ (by decide)

/-- The loop of `parse_settings` reads as many settings as it is told to. -/
theorem settingsLoop_reads {width : Nat} {payload : Bytes} {n i : Nat} {settings : List Setting}
    (h : settingsLoop width payload n i = .ok settings) :
    settings.length = n ∧ ∀ s ∈ settings, s.id.toNat < 2 ^ 24 := by
  induction n generalizing i settings with
  | zero =>
      cases h
      exact ⟨rfl, fun s hs => absurd hs List.not_mem_nil⟩
  | succ n ih =>
      obtain ⟨s, hs, h⟩ := bind_ok h
      obtain ⟨rest, hrest, h⟩ := bind_ok h
      cases h
      obtain ⟨hlen, hids⟩ := ih hrest
      refine ⟨by rw [List.length_cons, hlen], ?_⟩
      rw [List.forall_mem_cons]
      exact ⟨settingAt_lt hs, hids⟩

theorem parseSettings_writable {flags : UInt8} {payload : Bytes} {f : Frame (HeaderMap X)}
    (hlen : payload.length < 2 ^ 24) (h : parseSettings X usizeBits flags payload = .ok f) :
    f.Writable := by
  unfold parseSettings at h
  split at h
  · cases h
  · obtain ⟨count, -, h⟩ := bind_ok h
    simp only [] at h
    split at h
    · cases h
    · rename_i hroom
      obtain ⟨settings, hloop, h⟩ := bind_ok h
      cases h
      obtain ⟨hcount, hids⟩ := settingsLoop_reads hloop
      refine ⟨hids, fun _ => ?_⟩
      have hbig : 4 + 2 ^ 32 * 8 < 2 ^ usizeBits := by decide
      have hlt := count.toNat_lt
      rw [usizeMul_of_lt (by omega), usizeAdd_of_lt (by omega)] at hroom
      show (settingsPayload ⟨settings, flags⟩).length < 2 ^ 24
      rw [settingsPayload, List.length_append, length_toBeBytes32, length_encodeSettings, hcount]
      omega

theorem FramerM.lift_ok {α : Type} {x : Except Fault α} {a : α} {fr fr' : Framer Z}
    (h : FramerM.lift x fr = .ok a fr') : x = .ok a ∧ fr' = fr := by
  cases x with
  | error e => cases h
  | ok b =>
      cases h
      exact ⟨rfl, rfl⟩

theorem length_slice_le {payload part : Bytes} {i j : Nat} (h : slice payload i j = .ok part) :
    part.length ≤ payload.length := by
  unfold slice at h
  split at h
  · cases h
    exact (List.drop_sublist _ _).length_le.trans (List.take_sublist _ _).length_le
  · cases h

/-- The part of a payload behind a stream id is a header block. -/
theorem block_inRange {payload compressed : Bytes} {i : Nat} {m : HeaderMap X} {fr fr' : Framer Z}
    (hlen : payload.length < 2 ^ 24) (hslice : slice payload i payload.length = .ok compressed)
    (h : decompressHeaders X compressed fr = .ok m fr') : m.InRange :=
  inRange_of_decompressed (Nat.lt_of_le_of_lt (length_slice_le hslice) hlen) h

theorem parseSynStream_writable {flags : UInt8} {payload : Bytes} {f : Frame (HeaderMap X)}
    {fr fr' : Framer Z} (hlen : payload.length < 2 ^ 24)
    (h : parseSynStream X flags payload fr = .ok f fr') : f.Writable := by
  unfold parseSynStream at h
  split at h
  · cases h
  · obtain ⟨streamId, fr₁, hid, h⟩ := FramerM.bind_eq_ok.mp h
    obtain ⟨associated, fr₂, hassociated, h⟩ := FramerM.bind_eq_ok.mp h
    obtain ⟨byte, fr₃, -, h⟩ := FramerM.bind_eq_ok.mp h
    obtain ⟨compressed, fr₄, hslice, h⟩ := FramerM.bind_eq_ok.mp h
    obtain ⟨headers, fr₅, hheaders, h⟩ := FramerM.bind_eq_ok.mp h
    cases h
    refine ⟨⟨maskedWord_lt (FramerM.lift_ok hid).1, maskedWord_lt (FramerM.lift_ok hassociated).1,
      ?_, block_inRange hlen (FramerM.lift_ok hslice).1 hheaders⟩, fun hnone => by cases hnone⟩
    show ((byte >>> 5) &&& 0x7).toNat < 8
    rw [UInt8.toNat_and]
    exact Nat.lt_of_le_of_lt Nat.and_le_right (by decide)

theorem parseSynReply_writable {flags : UInt8} {payload : Bytes} {f : Frame (HeaderMap X)}
    {fr fr' : Framer Z} (hlen : payload.length < 2 ^ 24)
    (h : parseSynReply X flags payload fr = .ok f fr') : f.Writable := by
  unfold parseSynReply at h
  split at h
  · cases h
  · obtain ⟨streamId, fr₁, hid, h⟩ := FramerM.bind_eq_ok.mp h
    obtain ⟨compressed, fr₂, hslice, h⟩ := FramerM.bind_eq_ok.mp h
    obtain ⟨headers, fr₃, hheaders, h⟩ := FramerM.bind_eq_ok.mp h
    cases h
    exact ⟨⟨maskedWord_lt (FramerM.lift_ok hid).1,
      block_inRange hlen (FramerM.lift_ok hslice).1 hheaders⟩, fun hnone => by cases hnone⟩

theorem parseHeaders_writable {flags : UInt8} {payload : Bytes} {f : Frame (HeaderMap X)}
    {fr fr' : Framer Z} (hlen : payload.length < 2 ^ 24)
    (h : parseHeaders X flags payload fr = .ok f fr') : f.Writable := by
  unfold parseHeaders at h
  split at h
  · cases h
  · obtain ⟨streamId, fr₁, hid, h⟩ := FramerM.bind_eq_ok.mp h
    obtain ⟨compressed, fr₂, hslice, h⟩ := FramerM.bind_eq_ok.mp h
    obtain ⟨headers, fr₃, hheaders, h⟩ := FramerM.bind_eq_ok.mp h
    cases h
    exact ⟨⟨maskedWord_lt (FramerM.lift_ok hid).1,
      block_inRange hlen (FramerM.lift_ok hslice).1 hheaders⟩, fun hnone => by cases hnone⟩

theorem parseRstStream_writable {payload : Bytes} {f : Frame (HeaderMap X)}
    (h : parseRstStream X payload = .ok f) : f.Writable := by
  unfold parseRstStream at h
  split at h
  · cases h
  · obtain ⟨streamId, hid, h⟩ := bind_ok h
    obtain ⟨code, -, h⟩ := bind_ok h
    split at h
    · cases h
      exact ⟨maskedWord_lt hid, fun _ => by simp [Frame.payload, rstStreamPayload]⟩
    · cases h

theorem parsePing_writable {payload : Bytes} {f : Frame (HeaderMap X)}
    (h : parsePing X payload = .ok f) : f.Writable := by
  unfold parsePing at h
  split at h
  · cases h
  · obtain ⟨id, -, h⟩ := bind_ok h
    cases h
    exact ⟨trivial, fun _ => by simp [Frame.payload]⟩

theorem parseGoAway_writable {payload : Bytes} {f : Frame (HeaderMap X)}
    (h : parseGoAway X payload = .ok f) : f.Writable := by
  unfold parseGoAway at h
  split at h
  · cases h
  · obtain ⟨lastGood, hid, h⟩ := bind_ok h
    obtain ⟨code, -, h⟩ := bind_ok h
    split at h
    · cases h
      exact ⟨maskedWord_lt hid, fun _ => by simp [Frame.payload, goAwayPayload]⟩
    · cases h

theorem parseWindowUpdate_writable {payload : Bytes} {f : Frame (HeaderMap X)}
    (h : parseWindowUpdate X payload = .ok f) : f.Writable := by
  unfold parseWindowUpdate at h
  split at h
  · cases h
  · obtain ⟨streamId, hid, h⟩ := bind_ok h
    obtain ⟨delta, hdelta, h⟩ := bind_ok h
    cases h
    exact ⟨⟨maskedWord_lt hid, maskedWord_lt hdelta⟩, fun _ => by
      simp [Frame.payload, windowUpdatePayload]⟩

/-- What a control frame is parsed to can be written. -/
theorem parseControlFrame_writable {frameType : UInt16} {flags : UInt8} {payload : Bytes}
    {f : Frame (HeaderMap X)} {fr fr' : Framer Z} (hlen : payload.length < 2 ^ 24)
    (h : parseControlFrame X frameType flags payload fr = .ok f fr') : f.Writable := by
  unfold parseControlFrame at h
  split at h
  · exact parseSynStream_writable hlen h
  split at h
  · exact parseSynReply_writable hlen h
  split at h
  · exact parseRstStream_writable (FramerM.lift_ok h).1
  split at h
  · exact parseSettings_writable hlen (FramerM.lift_ok h).1
  split at h
  · exact parsePing_writable (FramerM.lift_ok h).1
  split at h
  · exact parseGoAway_writable (FramerM.lift_ok h).1
  split at h
  · exact parseHeaders_writable hlen h
  split at h
  · exact parseWindowUpdate_writable (FramerM.lift_ok h).1
  · cases h

/-- Whatever `read_frame` returns can be written. -/
theorem readFrame_writable {f : Frame (HeaderMap X)} {fr fr' : Framer Z}
    (h : readFrame X fr = .ok f fr') : f.Writable := by
  by_cases hshort : fr.reader.bytes.length < 8
  · obtain ⟨bs, fr₁, hread, -⟩ := FramerM.bind_eq_ok.mp h
    exact absurd (readExact_ok hread).1 (Nat.not_le.mpr hshort)
  · obtain ⟨h0, h1, h2, h3, flags, h5, h6, h7, rest, hbytes⟩ :=
      exists_eight (Nat.not_lt.mp hshort)
    have hlength := toNat_fromBeBytes32_zero_lt h5 h6 h7
    have hpayload : ∀ {bs : Bytes} {fr₁ : Framer Z},
        readExact (fromBeBytes32 0 h5 h6 h7).toNat Error.io (fr.withBytes rest) = .ok bs fr₁ →
          bs.length < 2 ^ 24 := fun hread => by
      obtain ⟨hwhole, rfl, -⟩ := readExact_ok hread
      rwa [List.length_take_of_le hwhole]
    rw [readFrame_header hbytes] at h
    split at h
    · split at h
      · cases h
      · obtain ⟨payload, fr₁, hread, hparse⟩ := FramerM.bind_eq_ok.mp h
        exact parseControlFrame_writable (hpayload hread) hparse
    · obtain ⟨data, fr₁, hread, hpure⟩ := FramerM.bind_eq_ok.mp h
      cases hpure
      refine ⟨?_, fun _ => hpayload hread⟩
      show (fromBeBytes32 (h0 &&& 0x7f) h1 h2 h3).toNat < 2 ^ 31
      have hfirst : (h0 &&& 0x7f).toNat ≤ 127 := by
        rw [UInt8.toNat_and]
        exact Nat.and_le_right
      have hb := h1.toNat_lt
      have hc := h2.toNat_lt
      have hd := h3.toNat_lt
      rw [toNat_fromBeBytes32]
      omega

theorem readFrames_writable {n : Nat} {fs : List (Frame (HeaderMap X))} {fr fr' : Framer Z}
    (h : readFrames X n fr = .ok fs fr') : ∀ f ∈ fs, f.Writable := by
  induction n generalizing fr fs with
  | zero =>
      cases h
      exact fun f hf => absurd hf List.not_mem_nil
  | succ n ih =>
      obtain ⟨f, fr₁, hread, h⟩ := FramerM.bind_eq_ok.mp h
      obtain ⟨fs', fr₂, hrest, h⟩ := FramerM.bind_eq_ok.mp h
      cases h
      rw [List.forall_mem_cons]
      exact ⟨readFrame_writable hread, ih hrest⟩

/-! ## Frames passed on -/

/-- The frames that have blocks are the frames, and those without headers have none. -/
theorem mem_withBlocks {fs : List (Frame (HeaderMap X))} {c : Z.Compress}
    {p : Frame (HeaderMap X) × Bytes} (hp : p ∈ withBlocks Z c fs) :
    p.1 ∈ fs ∧ (p.1.headers? = none → p.2 = []) := by
  induction fs generalizing c with
  | nil => cases hp
  | cons f fs ih =>
      simp only [withBlocks] at hp
      split at hp
      · rcases List.mem_cons.mp hp with rfl | hp
        · exact ⟨List.mem_cons_self, fun _ => rfl⟩
        · exact ⟨List.mem_cons_of_mem _ (ih hp).1, (ih hp).2⟩
      · rename_i h hf
        rcases List.mem_cons.mp hp with rfl | hp
        · refine ⟨List.mem_cons_self, fun hnone => ?_⟩
          rw [hf] at hnone
          cases hnone
        · exact ⟨List.mem_cons_of_mem _ (ih hp).1, (ih hp).2⟩

/-- **What is read can be passed on.**  Whatever frames a framer returns, from whatever
bytes, another framer writes them so that a third one reads the same frames.  It is
assumed that each header block, compressed again, is no longer than a payload can be, and
that `decompressBlock` restores it, which its loop does not do for all
(`headersRestored_iff`). -/
theorem received_passedOn {n : Nat} {fs : List (Frame (HeaderMap X))} {fr fr' : Framer Z}
    (h : readFrames X n fr = .ok fs fr') (sink source : Bytes) (atEnd : IoErrorKind)
    (hlen : ∀ p ∈ withBlocks Z (Framer.new Z [] ⟨source, atEnd⟩).compressor fs,
      p.1.headers? ≠ none → (p.1.payload p.2).length < 2 ^ 24)
    (hzlib : BlocksRestored Z (Framer.new Z [] ⟨source, atEnd⟩).compressor Z.newDecompress
      (rawBlocks fs)) :
    ∃ written, writeFrames fs (Framer.new Z [] ⟨source, atEnd⟩) = .ok () written ∧
      ∃ gs final,
        readFrames X fs.length (Framer.new Z sink ⟨written.writer, atEnd⟩) = .ok gs final ∧
          List.Forall₂ Frame.Same gs fs ∧ final.reader.bytes = [] := by
  have hwritable := readFrames_writable h
  have hshort : ∀ p ∈ withBlocks Z (Framer.new Z [] ⟨source, atEnd⟩).compressor fs,
      (p.1.payload p.2).length < 2 ^ 24 := by
    intro p hp
    by_cases hnone : p.1.headers? = none
    · obtain ⟨hmem, hblock⟩ := mem_withBlocks hp
      rw [hblock hnone]
      exact (hwritable p.1 hmem).fits hnone
    · exact hlen p hp hnone
  obtain ⟨c, hc⟩ := writeFrames_run fs (Framer.new Z [] ⟨source, atEnd⟩) _ rfl hzlib
  refine ⟨_, hc, ?_⟩
  have hread := readFrames_run fs (Framer.new Z sink ⟨[], atEnd⟩) _ _ [] rfl
    (fun f hf => (hwritable f hf).inRange) hshort hzlib
  rw [List.append_nil] at hread
  exact hread

/-- A SYN_REPLY with a header, as a framer writes it. -/
def replyBytes : Bytes := (writerOf [.synReply ⟨1, methodGet, 0⟩]).writer

/-- A reset with its reserved bit set and four bytes too many, and a DATA frame. -/
def looseBytes : Bytes :=
  [0x80, 3, 0, 3, 9, 0, 0, 12, 0x80, 0, 0, 1, 0, 0, 0, 5, 1, 2, 3, 4,
    0, 0, 0, 1, 7, 0, 0, 2, 0x68, 0x69]

/-- What is read of them. -/
def looseFrames : List (Frame (HeaderMap Http.reference)) :=
  [.synReply ⟨1, methodGet, 0⟩, .rstStream ⟨1, .cancel⟩, .data ⟨1, 7, [0x68, 0x69]⟩]

/-- All are read, and passed on without what was too much. -/
theorem received_passedOn_loose :
    ∃ fr, readFrames Http.reference 3
        (Framer.new Zlib.reference [] ⟨replyBytes ++ looseBytes, .other⟩) =
          .ok looseFrames fr ∧
      ∃ written, writeFrames looseFrames (Framer.new Zlib.reference [] ⟨[], .other⟩) =
          .ok () written ∧
        ∃ gs final,
          readFrames Http.reference looseFrames.length
              (Framer.new Zlib.reference [] ⟨written.writer, .other⟩) = .ok gs final ∧
            List.Forall₂ Frame.Same gs looseFrames ∧ final.reader.bytes = [] := by
  have hcheck : (match readFrames Http.reference 3
      (Framer.new Zlib.reference [] ⟨replyBytes ++ looseBytes, .other⟩) with
    | .ok fs _ => decide (fs = looseFrames)
    | .error _ _ => false) = true := by decide +kernel
  cases hread : readFrames Http.reference 3
      (Framer.new Zlib.reference [] ⟨replyBytes ++ looseBytes, .other⟩) with
  | ok fs fr =>
      rw [hread] at hcheck
      obtain rfl := of_decide_eq_true hcheck
      exact ⟨fr, rfl, received_passedOn hread [] [] .other (by decide +kernel)
        ⟨by decide +kernel, by decide +kernel, trivial⟩⟩
  | error err fr =>
      rw [hread] at hcheck
      cases hcheck

end SpdyStream.Framing
