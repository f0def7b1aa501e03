/-
  Framing/Unambiguous.lean --- the bytes determine the frames.

  A decoder that takes exactly the bytes of each frame leaves no choice: where the bytes of
  some frames begin with the bytes of others, the frames begin with the others, up to the
  order of their headers.  So no two messages look alike on the wire, and no message looks
  like the beginning of another.
-/
import SpdyStream.Framing.Canonical
import SpdyStream.Framing.Truncated

set_option autoImplicit false

namespace SpdyStream.Framing

open SpdyStream.Foundation

variable {Z : Zlib} {X : Http}

/-! ## Frames that agree -/

theorem withHeaders_withHeaders (f : Frame (HeaderMap X)) (m m' : HeaderMap X) :
    (f.withHeaders m).withHeaders m' = f.withHeaders m' := by
  cases f with
  | _ => rfl

theorem withHeaders_self {f : Frame (HeaderMap X)} {h : HeaderMap X} (hf : f.headers? = some h) :
    f.withHeaders h = f := by
  cases f with
  | synStream _ | synReply _ | headers _ =>
      cases hf
      rfl
  | _ => cases hf

/-- Frames agree where they are equal, or differ in header maps that agree. -/
theorem Frame.same_iff {f g : Frame (HeaderMap X)} : f.Same g ↔
    f.headers? = none ∧ f = g ∨
      ∃ h h', f.headers? = some h ∧ g.headers? = some h' ∧ h.Same h' ∧ f = g.withHeaders h := by
  unfold Frame.Same
  constructor
  · intro hsame
    split at hsame
    · rename_i hf _
      exact .inl ⟨hf, hsame⟩
    · rename_i h h' hf hg
      exact .inr ⟨h, h', hf, hg, hsame⟩
    · cases hsame
  · rintro (⟨hf, rfl⟩ | ⟨h, h', hf, hg, hsame⟩)
    · rw [hf]
    · rw [hf, hg]
      exact hsame

theorem Frame.Same.symm {f g : Frame (HeaderMap X)} (h : f.Same g) : g.Same f := by
  rcases Frame.same_iff.mp h with ⟨hf, rfl⟩ | ⟨m, m', hf, hg, hsame, rfl⟩
  · exact h
  · refine Frame.same_iff.mpr (.inr ⟨m', m, hg, hf, fun k => (hsame k).symm, ?_⟩)
    rw [withHeaders_withHeaders, withHeaders_self hg]

theorem Frame.Same.trans {f g k : Frame (HeaderMap X)} (h : f.Same g) (h' : g.Same k) :
    f.Same k := by
  rcases Frame.same_iff.mp h with ⟨-, rfl⟩ | ⟨m, m₁, hf, hg, hsame, rfl⟩
  · exact h'
  · rcases Frame.same_iff.mp h' with ⟨hnone, rfl⟩ | ⟨m₂, m₃, hg', hk, hsame', rfl⟩
    · exact h
    · cases hg.symm.trans hg'
      refine Frame.same_iff.mpr (.inr ⟨m, m₃, hf, hk, fun x => (hsame x).trans (hsame' x), ?_⟩)
      exact withHeaders_withHeaders _ _ _

/-! ## One reading -/

theorem same_trans {fs gs ks : List (Frame (HeaderMap X))} (h : List.Forall₂ Frame.Same gs fs)
    (h' : List.Forall₂ Frame.Same gs ks) : List.Forall₂ Frame.Same fs ks := by
  induction h generalizing ks with
  | nil => exact h'
  | cons hsame _ ih =>
      cases h' with
      | cons hsame' hrest => exact .cons (hsame.symm.trans hsame') (ih hrest)

/-- **The bytes determine the frames.**  If what one writer has written is the beginning of
what another has written, then its frames are the first of the other's, but for the order
of their headers.  It is assumed of both that `decompressBlock` restores each header block,
which its loop does not do for all (`headersRestored_iff`). -/
theorem written_unambiguous {fs gs : List (Frame (HeaderMap X))} {source source' : Reader}
    {one other : Framer Z} (hone : writeFrames fs (Framer.new Z [] source) = .ok () one)
    (hother : writeFrames gs (Framer.new Z [] source') = .ok () other)
    (hbegins : one.writer <+: other.writer)
    (hfs : ∀ f ∈ fs, f.InRange) (hgs : ∀ g ∈ gs, g.InRange)
    (hlenFs : ∀ p ∈ withBlocks Z Z.start fs, (p.1.payload p.2).length < 2 ^ 24)
    (hlenGs : ∀ p ∈ withBlocks Z Z.start gs, (p.1.payload p.2).length < 2 ^ 24)
    (hzlibFs : BlocksRestored Z Z.start Z.newDecompress (rawBlocks fs))
    (hzlibGs : BlocksRestored Z Z.start Z.newDecompress (rawBlocks gs)) :
    fs.length ≤ gs.length ∧ List.Forall₂ Frame.Same fs (gs.take fs.length) := by
  obtain ⟨c, hc⟩ := writeFrames_run fs (Framer.new Z [] source) _ rfl hzlibFs
  cases hone.symm.trans hc
  obtain ⟨c', hc'⟩ := writeFrames_run gs (Framer.new Z [] source') _ rfl hzlibGs
  cases hother.symm.trans hc'
  obtain ⟨rest, hrest⟩ : wireBytes Z Z.start fs <+: wireBytes Z Z.start gs := hbegins
  -- The same bytes, read as the one and as the other.
  obtain ⟨fs', last, hreadFs, hsameFs, -⟩ :=
    readFrames_run fs (Framer.new Z [] source) _ _ rest rfl hfs hlenFs hzlibFs
  obtain ⟨gs', final, hreadGs, hsameGs, hnone⟩ :=
    readFrames_run gs (Framer.new Z [] source) _ _ [] rfl hgs hlenGs hzlibGs
  rw [List.append_nil, ← hrest] at hreadGs
  have hempty : final.reader.bytes.length < 8 := by
    rw [hnone]
    exact Nat.zero_lt_succ 7
  obtain ⟨fr', hshort⟩ := readExact_short headerReadError final hempty
  obtain ⟨hle, rfl⟩ := readFrames_atMost (FramerM.bind_error hshort) gs.length _ _ _ _ _
    hreadGs hreadFs
  exact ⟨hle, same_trans hsameFs (List.forall₂_take fs.length hsameGs)⟩

/-- A reply. -/
def replyFrames : List (Frame (HeaderMap Http.reference)) := [.synReply ⟨1, interleaved, 0⟩]

/-- The same with its headers in another order, and a PING behind it. -/
def reorderedFrames : List (Frame (HeaderMap Http.reference)) :=
  [.synReply ⟨1, grouped, 0⟩, .ping ⟨9⟩]

/-- The bytes of the reply begin those of the other frames, and the reply agrees with the
first of these. -/
theorem written_unambiguous_reordered :
    (writerOf replyFrames).writer <+: (writerOf reorderedFrames).writer ∧
      List.Forall₂ Frame.Same replyFrames (reorderedFrames.take 1) := by
  have hone : BlocksRestored Zlib.reference Zlib.reference.start Zlib.reference.newDecompress
      (rawBlocks replyFrames) := ⟨by decide +kernel, by decide +kernel, trivial⟩
  have hother : BlocksRestored Zlib.reference Zlib.reference.start Zlib.reference.newDecompress
      (rawBlocks reorderedFrames) := ⟨by decide +kernel, by decide +kernel, trivial⟩
  have hbegins : (writerOf replyFrames).writer <+: (writerOf reorderedFrames).writer := by
    decide +kernel
  exact ⟨hbegins, (written_unambiguous (writerOf_wrote hone) (writerOf_wrote hother) hbegins
    (by decide) (by decide) (by decide +kernel) (by decide +kernel) hone hother).2⟩

end SpdyStream.Framing
