/-
  Framing/FrameBoundary.lean --- where a written frame ends.

  The length of a payload is cast to 32 bits and split into three bytes, and nothing
  bounds the payload.  A payload of `2^24` bytes or more is written behind a length
  field that does not count it.  A transport that fails on the way has taken the
  beginning of the frame.
-/
import SpdyStream.Framing.ReadLoop

set_option autoImplicit false

namespace SpdyStream.Framing

open SpdyStream.Foundation

variable {Z : Zlib} {X : Http}

/-! ## What is written -/

/-- The block that `compress_headers` returns, unless it fails. -/
def blockOf (fr : Framer Z) (h : HeaderMap X) : Option Bytes :=
  let out := compressBlock Z fr.compressor (encodeHeaders h)
  match out.status with
  | .error _ | .ok .bufError => none
  | .ok .ok | .ok .streamEnd => some out.produced

/-- The block that a frame is written around, which is empty for a frame without
headers. -/
def Frame.block? (fr : Framer Z) (f : Frame (HeaderMap X)) : Option Bytes :=
  match f.headers? with
  | none => some []
  | some h => blockOf fr h

/-- What writing has to do with: the bytes taken, and the room that is left. -/
def Framer.sink (fr : Framer Z) : Bytes × Option Nat := (fr.writer, fr.room)

theorem compressHeaders_fails {h : HeaderMap X} {fr : Framer Z} (hnone : blockOf fr h = none) :
    ∃ e fr', compressHeaders h fr = .error e fr' ∧ fr'.sink = fr.sink := by
  unfold compressHeaders
  unfold blockOf at hnone
  dsimp only at hnone ⊢
  split at hnone
  · rename_i e hstatus
    rw [hstatus]
    exact ⟨_, _, rfl, rfl⟩
  · rename_i hstatus
    rw [hstatus]
    exact ⟨_, _, rfl, rfl⟩
  · cases hnone
  · cases hnone

theorem compressHeaders_returns {h : HeaderMap X} {fr : Framer Z} {block : Bytes}
    (hsome : blockOf fr h = some block) :
    ∃ fr', compressHeaders h fr = .ok block fr' ∧ fr'.sink = fr.sink := by
  unfold compressHeaders
  unfold blockOf at hsome
  dsimp only at hsome ⊢
  split at hsome
  · cases hsome
  · cases hsome
  · rename_i hstatus
    cases hsome
    rw [hstatus]
    exact ⟨_, rfl, rfl⟩
  · rename_i hstatus
    cases hsome
    rw [hstatus]
    exact ⟨_, rfl, rfl⟩

/-- A call followed by another, where the first fails. -/
theorem FramerM.bind_error {α β : Type} {x : FramerM Z α} {f : α → FramerM Z β}
    {fr fr' : Framer Z} {e : Fault} (h : x fr = .error e fr') : (x >>= f) fr = .error e fr' := by
  show EStateM.bind x f fr = _
  simp only [EStateM.bind, h]

/-- The transport takes `n` bytes. -/
def Framer.takes (fr : Framer Z) (n : Nat) : Prop := ∀ room, fr.room = some room → n ≤ room

theorem writeAll_cases (bytes : Bytes) (fr : Framer Z) :
    (fr.takes bytes.length ∧
      ∃ fr', writeAll bytes fr = .ok () fr' ∧ fr'.writer = fr.writer ++ bytes) ∨
    ∃ n, fr.room = some n ∧ n < bytes.length ∧
      ∃ e fr', writeAll bytes fr = .error e fr' ∧ fr'.writer = fr.writer ++ bytes.take n := by
  cases hroom : fr.room with
  | none =>
      refine .inl ⟨fun n hn => ?_, _, writeAll_run hroom bytes, rfl⟩
      cases hroom.symm.trans hn
  | some n =>
      by_cases hn : bytes.length ≤ n
      · have hwrite : writeAll bytes fr = .ok ()
            { fr with writer := fr.writer ++ bytes, room := some (n - bytes.length) } := by
          simp only [writeAll, hroom, if_pos hn]
        refine .inl ⟨fun m hm => ?_, _, hwrite, rfl⟩
        cases hroom.symm.trans hm
        exact hn
      · have hwrite : writeAll bytes fr = .error (.error (.io .other))
            { fr with writer := fr.writer ++ bytes.take n, room := some 0 } := by
          simp only [writeAll, hroom, if_neg hn]
        exact .inr ⟨n, rfl, Nat.not_le.mp hn, _, _, hwrite, rfl⟩

/-- A frame whose headers cannot be compressed is not begun. -/
theorem writeFrame_fails {f : Frame (HeaderMap X)} {fr : Framer Z} (hnone : f.block? fr = none) :
    ∃ e fr', writeFrame f fr = .error e fr' ∧ fr'.writer = fr.writer := by
  cases f with
  | synStream f | synReply f | headers f =>
      obtain ⟨e, fr', hcompress, hsink⟩ := compressHeaders_fails hnone
      exact ⟨e, fr', FramerM.bind_error hcompress, congrArg Prod.fst hsink⟩
  | rstStream _ | settings _ | ping _ | goAway _ | windowUpdate _ | data _ => cases hnone

/-- Any other frame is written in one go. -/
theorem writeFrame_eq {f : Frame (HeaderMap X)} {fr : Framer Z} {block : Bytes}
    (hsome : f.block? fr = some block) :
    ∃ fr', fr'.sink = fr.sink ∧ writeFrame f fr = writeAll (frameBytes f block) fr' := by
  cases f with
  | synStream f | synReply f | headers f =>
      obtain ⟨fr', hcompress, hsink⟩ := compressHeaders_returns hsome
      exact ⟨fr', hsink, (FramerM.bind_ok hcompress).trans (writeControlFrame_eq _ _ _ fr')⟩
  | rstStream _ | settings _ | ping _ | goAway _ | windowUpdate _ | data _ =>
      cases hsome
      exact ⟨fr, rfl, writeFrame_plain rfl fr⟩

/-- It is written whole, or the transport fails in it. -/
theorem writeFrame_writes {f : Frame (HeaderMap X)} {fr : Framer Z} {block : Bytes}
    (hsome : f.block? fr = some block) :
    (fr.takes (frameBytes f block).length ∧
      ∃ fr', writeFrame f fr = .ok () fr' ∧ fr'.writer = fr.writer ++ frameBytes f block) ∨
    ∃ n, fr.room = some n ∧ n < (frameBytes f block).length ∧
      ∃ e fr', writeFrame f fr = .error e fr' ∧
        fr'.writer = fr.writer ++ (frameBytes f block).take n := by
  obtain ⟨fr', hsink, hwrite⟩ := writeFrame_eq hsome
  obtain ⟨hwriter, hroom⟩ := Prod.ext_iff.mp hsink
  have hwriter : fr'.writer = fr.writer := hwriter
  have hroom : fr'.room = fr.room := hroom
  rw [hwrite, ← hwriter, ← hroom, Framer.takes, ← hroom]
  exact writeAll_cases _ fr'

/-! ## The length field -/

/-- The length field of a frame. -/
def lengthField : Bytes → Nat
  | _ :: _ :: _ :: _ :: _ :: h5 :: h6 :: h7 :: _ =>
      ((h5.toUInt32 <<< 16) ||| (h6.toUInt32 <<< 8) ||| h7.toUInt32).toNat
  | _ => 0

theorem lengthField_lt (bytes : Bytes) : lengthField bytes < 2 ^ 24 := by
  unfold lengthField
  split
  · rw [or_eq_fromBeBytes32]
    exact toNat_fromBeBytes32_zero_lt _ _ _
  · decide

theorem length_header (f : Frame (HeaderMap X)) (payload : Bytes) :
    (f.header payload).length = 8 := by
  cases f with
  | _ => rfl

theorem length_frameBytes (f : Frame (HeaderMap X)) (block : Bytes) :
    (frameBytes f block).length = 8 + (f.payload block).length := by
  rw [frameBytes, List.length_append, length_header]

theorem lengthField_frameBytes {f : Frame (HeaderMap X)} {block : Bytes}
    (h : (f.payload block).length < 2 ^ 24) :
    lengthField (frameBytes f block) = (f.payload block).length := by
  have hfield := lengthField_toNat h
  cases f with
  | data f =>
      simp only [frameBytes, Frame.header, lengthBytes_eq]
      exact hfield
  | _ =>
      simp only [frameBytes, Frame.header, controlHeader, lengthBytes_eq]
      exact hfield

/-! ## The reader behind a frame -/

/-- Masking a stream id twice is masking it once. -/
theorem frameBytes_masked (f : DataFrame) (block : Bytes) :
    frameBytes (X := X) (.data { f with streamId := f.streamId &&& 0x7fffffff }) block =
      frameBytes (X := X) (.data f) block := by
  have hmask : f.streamId &&& 0x7fffffff &&& 0x7fffffff = f.streamId &&& 0x7fffffff := by
    rw [UInt32.and_assoc, UInt32.and_self]
  simp only [frameBytes, Frame.header, Frame.payload, hmask]

/-- The reader stops behind a frame whose length field counts its payload. -/
theorem readFrame_stops {f : Frame (HeaderMap X)} {block : Bytes}
    (h : (f.payload block).length < 2 ^ 24) {fr fr' : Framer Z} {rest : Bytes}
    {g : Frame (HeaderMap X)}
    (hread : readFrame X (fr.withBytes (frameBytes f block ++ rest)) = .ok g fr') :
    fr'.reader.bytes = rest := by
  have hcontrol : ∀ (frameType : UInt16) (flags : UInt8) (payload : Bytes),
      parseControlFrame X frameType flags payload (fr.withBytes rest) = .ok g fr' →
        fr'.reader.bytes = rest := fun frameType flags payload hparse => by
    rw [parseControlFrame_keepsReader frameType flags payload _ _ _ hparse]
    rfl
  cases f with
  | data f =>
      have hid : (f.streamId &&& 0x7fffffff).toNat < 2 ^ 31 := by
        rw [toNat_and_mask _ _ 31 (by decide)]
        exact Nat.mod_lt _ (by decide)
      let masked : DataFrame := { f with streamId := f.streamId &&& 0x7fffffff }
      have hmasked := readFrame_data (X := X) (f := masked) rest fr hid h
      rw [frameBytes_masked f []] at hmasked
      cases hmasked.symm.trans hread
      rfl
  | synStream _ | synReply _ | rstStream _ | settings _ | ping _ | goAway _ | headers _
  | windowUpdate _ =>
      rw [frameBytes, List.append_assoc] at hread
      exact hcontrol _ _ _ ((readFrame_control _ _ rest fr (by decide) h).symm.trans hread)

/-- `write_frame` keeps the boundary between frames: it fails and writes nothing, or
the length field it writes counts the bytes behind the header, and the reader stops
behind them. -/
def KeepsBoundary (f : Frame (HeaderMap X)) (fr : Framer Z) : Prop :=
  match writeFrame f fr with
  | .error _ fr' => fr'.writer = fr.writer
  | .ok _ fr' => ∃ bytes, fr'.writer = fr.writer ++ bytes ∧
      bytes.length = 8 + lengthField bytes ∧
      ∀ (reader reader' : Framer Z) rest g,
        readFrame X (reader.withBytes (bytes ++ rest)) = .ok g reader' →
          reader'.reader.bytes = rest

/-- The transport fails before the frame, or takes all of it, and then the payload fits
the length field. -/
def FitsBoundary (f : Frame (HeaderMap X)) (fr : Framer Z) : Prop :=
  ∀ block, f.block? fr = some block → fr.room = some 0 ∨
    fr.takes (frameBytes f block).length ∧ (f.payload block).length < 2 ^ 24

theorem keepsBoundary_of_fits {f : Frame (HeaderMap X)} {fr : Framer Z} (h : FitsBoundary f fr) :
    KeepsBoundary f fr := by
  unfold KeepsBoundary
  cases hblock : f.block? fr with
  | none =>
      obtain ⟨e, fr', hwrite, hwriter⟩ := writeFrame_fails hblock
      rw [hwrite]
      exact hwriter
  | some block =>
      rcases writeFrame_writes hblock with ⟨htakes, fr', hwrite, hwriter⟩ |
        ⟨n, hroom, hn, e, fr', hwrite, hwriter⟩
      · have hfits : (f.payload block).length < 2 ^ 24 := by
          rcases h block hblock with hnone | ⟨-, hfits⟩
          · -- a transport without room takes no frame
            have hlength := htakes 0 hnone
            rw [length_frameBytes] at hlength
            omega
          · exact hfits
        rw [hwrite]
        refine ⟨frameBytes f block, hwriter, ?_, fun _ _ _ _ => readFrame_stops hfits⟩
        rw [length_frameBytes, lengthField_frameBytes hfits]
      · rw [hwrite]
        rcases h block hblock with hnone | ⟨htakes, -⟩
        · cases hroom.symm.trans hnone
          exact hwriter.trans (List.append_nil _)
        · exact absurd (htakes n hroom) (Nat.not_le.mpr hn)

theorem fits_of_keepsBoundary {f : Frame (HeaderMap X)} {fr : Framer Z} (h : KeepsBoundary f fr) :
    FitsBoundary f fr := by
  intro block hblock
  unfold KeepsBoundary at h
  rcases writeFrame_writes hblock with ⟨htakes, fr', hwrite, hwriter⟩ |
    ⟨n, hroom, hn, e, fr', hwrite, hwriter⟩
  · right
    rw [hwrite] at h
    obtain ⟨bytes, hbytes, hlength, -⟩ := h
    rw [hwriter] at hbytes
    obtain rfl := List.append_cancel_left hbytes
    have hlt := lengthField_lt (frameBytes f block)
    rw [length_frameBytes] at hlength
    exact ⟨htakes, by omega⟩
  · left
    rw [hwrite] at h
    have hnone : (frameBytes f block).take n = [] :=
      List.append_right_eq_self.mp (hwriter.symm.trans h)
    have hlength := congrArg List.length hnone
    rw [List.length_take, List.length_nil] at hlength
    obtain rfl : n = 0 := by omega
    exact hroom

/-- **Frame boundaries.**  `write_frame` keeps the boundary between frames exactly when
`compress_headers` fails, or the transport fails before it has taken a byte, or it takes
the whole frame and the payload is shorter than `2^24` bytes. -/
theorem keepsBoundary_iff (f : Frame (HeaderMap X)) (fr : Framer Z) :
    KeepsBoundary f fr ↔ FitsBoundary f fr :=
  ⟨fits_of_keepsBoundary, keepsBoundary_of_fits⟩

/-- A DATA frame of `2^24` bytes, as `write_data` builds it. -/
def overlong : Frame (HeaderMap X) :=
  .data { streamId := 1, flags := 0, data := List.replicate (2 ^ 24) 0 }

/-- A DATA frame of `2^24` bytes is written behind a length field of zero. -/
theorem overlong_lost : ¬ ∀ (f : Frame (HeaderMap Http.reference)) (fr : Framer Zlib.reference),
    KeepsBoundary f fr := by
  intro hall
  have hlength : ((overlong : Frame (HeaderMap Http.reference)).payload []).length = 2 ^ 24 :=
    List.length_replicate
  rcases fits_of_keepsBoundary (hall overlong (Framer.new _ [] ⟨[], .other⟩)) [] rfl with
    hnone | ⟨-, hfits⟩
  · cases hnone
  · rw [hlength] at hfits
    exact Nat.lt_irrefl _ hfits

end SpdyStream.Framing
