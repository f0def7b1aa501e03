/-
  Framing/Decompression.lean --- what `decompress_headers` returns, for any
  zlib, and exactly when a sequence of header maps survives compression.

  The loop of `decompress_headers` ends at the first call that reports `Ok`.  A
  block that needs more room than the loop starts with is therefore cut short
  (`Answers`), and a header block cut short is refused.  So the maps come back
  if and only if every block fits (`headers_restored_iff`).

  What is assumed of zlib there is `Zlib.Documented`: the two streams are in step
  or about to begin, and a call stops where its output is full.
-/
import SpdyStream.Framing.FrameRoundTrip

set_option autoImplicit false

namespace SpdyStream.Framing

open SpdyStream.Foundation

variable {Z : Zlib} {X : Http}

/-! ## The loop -/

theorem Output.grow_of_lt {o : Output} (h : o.bytes.length < o.capacity) : o.grow = o := by
  rw [Output.grow, if_neg (Nat.ne_of_lt h)]

theorem Output.bytes_grow (o : Output) : o.grow.bytes = o.bytes := by
  rw [Output.grow]
  split
  · rfl
  · rfl

/-- The output at most doubles, and stays within its capacity. -/
theorem Output.capacity_grow {o : Output} (hfit : o.bytes.length ≤ o.capacity)
    (hcap : 512 ≤ o.capacity) :
    o.grow.bytes.length ≤ o.grow.capacity ∧ o.capacity ≤ o.grow.capacity ∧
      o.grow.capacity ≤ 2 * o.capacity := by
  rw [Output.bytes_grow, Output.grow]
  split
  · rw [Nat.max_eq_left hcap]
    show o.bytes.length ≤ o.capacity + o.capacity ∧ o.capacity ≤ o.capacity + o.capacity ∧
      o.capacity + o.capacity ≤ 2 * o.capacity
    omega
  · omega

/-- A stream that has its dictionary is done after one round. -/
theorem decompressLoop_asked {compressed : Bytes} {dec : Z.Decompress} {pos : Nat}
    (h : Z.mayAskDictionary dec = false) (hpos : pos ≤ compressed.length) (n : Nat)
    (output : Output) :
    decompressLoop Z compressed (n + 1) dec pos output =
        decompressLoop Z compressed 1 dec pos output ∧
      (decompressLoop Z compressed 1 dec pos output).1 ≠ .error .panic := by
  have hnot : ∀ input space,
      (Z.decompressVec dec input space).status ≠ .error .needsDictionary := by
    intro input space hs
    rw [Z.mayAsk_of_needsDictionary hs] at h
    exact absurd h (by simp)
  simp only [decompressLoop, slice_to_end hpos]
  split
  · exact ⟨rfl, by simp⟩
  · exact ⟨rfl, by simp⟩
  · rename_i hs
    exact absurd hs (hnot _ _)

/-- **Two rounds are never too few**: more do not change the outcome, and the
outcome is not the panic that stands for running out of rounds. -/
theorem decompressLoop_rounds {compressed : Bytes} {dec : Z.Decompress} {pos : Nat}
    (hpos : pos ≤ compressed.length) (n : Nat) (output : Output) :
    decompressLoop Z compressed (n + 2) dec pos output =
        decompressLoop Z compressed 2 dec pos output ∧
      (decompressLoop Z compressed 2 dec pos output).1 ≠ .error .panic := by
  rw [decompressLoop, decompressLoop]
  simp only [slice_to_end hpos]
  have hconsumed := Z.consumed_le dec (compressed.drop pos)
    (output.grow.capacity - output.grow.bytes.length)
  rw [List.length_drop] at hconsumed
  split
  · exact ⟨rfl, by simp⟩
  · exact ⟨rfl, by simp⟩
  · split
    · exact ⟨rfl, by simp⟩
    · rename_i hset
      split
      · exact ⟨rfl, by simp⟩
      · -- The dictionary is set now, so the next round is the last.
        exact decompressLoop_asked (Z.asked_of_setDictionary hset) (by omega) n _

/-- What comes out is within the capacity, which each round at most doubles. -/
theorem length_decompressLoop {compressed : Bytes} (rounds : Nat) :
    ∀ (dec : Z.Decompress) (pos : Nat) (output : Output) (bs : Bytes), pos ≤ compressed.length →
      output.bytes.length ≤ output.capacity → 512 ≤ output.capacity →
      (decompressLoop Z compressed rounds dec pos output).1 = .ok bs →
        bs.length ≤ 2 ^ rounds * output.capacity := by
  induction rounds with
  | zero =>
      intro dec pos output bs _ _ _ h
      exact absurd h (by simp [decompressLoop])
  | succ rounds ih =>
      intro dec pos output bs hpos hfit hcap h
      obtain ⟨hfit', hle, hdouble⟩ := Output.capacity_grow hfit hcap
      let d := Z.decompressVec dec (compressed.drop pos)
        (output.grow.capacity - output.grow.bytes.length)
      have hproduced : d.produced.length ≤ output.grow.capacity - output.grow.bytes.length :=
        Z.produced_le _ _ _
      have hconsumed : d.consumed ≤ (compressed.drop pos).length := Z.consumed_le _ _ _
      have hbytes : (output.grow.bytes ++ d.produced).length ≤ output.grow.capacity := by
        rw [List.length_append]
        omega
      have hpow : 2 * output.capacity ≤ 2 ^ (rounds + 1) * output.capacity :=
        Nat.mul_le_mul_right _ (Nat.le_self_pow (Nat.succ_ne_zero _) 2)
      rw [List.length_drop] at hconsumed
      rw [decompressLoop] at h
      simp only [slice_to_end hpos] at h
      split at h
      · exact Except.ok.inj h ▸ hbytes.trans (hdouble.trans hpow)
      · exact absurd h (by simp)
      · split at h
        · exact absurd h (by simp)
        · split at h
          · exact Except.ok.inj h ▸ hbytes.trans (hdouble.trans hpow)
          · have hrest := ih _ (pos + d.consumed)
              ⟨output.grow.bytes ++ d.produced, output.grow.capacity⟩ bs (by omega) hbytes
              (hcap.trans hle) h
            refine hrest.trans ?_
            rw [Nat.pow_succ, Nat.mul_assoc]
            exact Nat.mul_le_mul_left _ hdouble

theorem decompressBlock_ne_panic (dec : Z.Decompress) (compressed : Bytes) :
    (decompressBlock Z dec compressed).1 ≠ .error .panic :=
  (decompressLoop_rounds (Nat.zero_le _) 0 _).2

theorem length_decompressBlock {dec : Z.Decompress} {compressed bs : Bytes}
    (h : (decompressBlock Z dec compressed).1 = .ok bs) :
    bs.length ≤ 2 ^ 2 * (compressed.length * 4 + 512) :=
  length_decompressLoop 2 dec 0 ⟨[], initialCapacity compressed⟩ bs (Nat.zero_le _)
    (Nat.zero_le _) (Nat.le_add_left _ _) h

/-! ## A zlib that behaves as documented -/

/-- A stream that is given the block `input`, made from `raw` by a compressor
whose state is `c` since: it puts out what there is room for, and is in step
with the compressor once everything is out. -/
def Inflates (Z : Zlib) (InStep : Z.Compress → Z.Decompress → Prop) (c : Z.Compress)
    (d : Z.Decompress) (input raw : Bytes) (space : Nat) : Prop :=
  let back := Z.decompressVec d input space
  back.status = .ok .ok ∧ back.produced = raw.take space ∧
    (raw.length ≤ space → InStep c back.state)

/-- The compressor of a new framer. -/
def Zlib.start (Z : Zlib) : Z.Compress := Z.compressDictionary Z.newCompress spdyDict

/-- What `compress_headers` and `decompress_headers` rely on: a block is flushed
whole, inflates whole given enough room, stops where the room ends, and the
preset dictionary is asked for once, at the start of the stream. -/
structure Zlib.Documented (Z : Zlib) (InStep : Z.Compress → Z.Decompress → Prop) : Prop where
  first : ∀ (raw : Bytes) (space : Nat), raw ≠ [] → 0 < space →
    let out := compressBlock Z Z.start raw
    let ask := Z.decompressVec Z.newDecompress out.produced space
    out.status = .ok .ok ∧ ask.status = .error .needsDictionary ∧ ask.produced = [] ∧
      ask.consumed < out.produced.length ∧
        ∃ d, Z.setDictionary ask.state spdyDict = .ok d ∧
          Inflates Z InStep out.state d (out.produced.drop ask.consumed) raw space
  later : ∀ {c : Z.Compress} {d : Z.Decompress} (raw : Bytes) (space : Nat), InStep c d →
    raw ≠ [] → 0 < space →
    let out := compressBlock Z c raw
    out.status = .ok .ok ∧ Inflates Z InStep out.state d out.produced raw space

/-- The two streams agree on what has gone over, or neither has begun. -/
def Paired (Z : Zlib) (InStep : Z.Compress → Z.Decompress → Prop) (c : Z.Compress)
    (d : Z.Decompress) : Prop :=
  InStep c d ∨ (c = Z.start ∧ d = Z.newDecompress)

variable {InStep : Z.Compress → Z.Decompress → Prop}

/-- The loop starts with room to spare. -/
theorem grow_initial (compressed : Bytes) :
    Output.grow ⟨[], initialCapacity compressed⟩ = ⟨[], initialCapacity compressed⟩ :=
  Output.grow_of_lt (Nat.lt_of_lt_of_le (by decide : 0 < 512) (Nat.le_add_left _ _))

/-- **A block comes back as far as the first output buffer reaches**, and no
further. -/
theorem decompressBlock_paired (hz : Z.Documented InStep) {c : Z.Compress} {d : Z.Decompress}
    (hp : Paired Z InStep c d) {raw : Bytes} (hraw : raw ≠ []) :
    let out := compressBlock Z c raw
    let back := decompressBlock Z d out.produced
    out.status = .ok .ok ∧ back.1 = .ok (raw.take (initialCapacity out.produced)) ∧
      (raw.length ≤ initialCapacity out.produced → Paired Z InStep out.state back.2) := by
  have hspace : 0 < initialCapacity (compressBlock Z c raw).produced :=
    Nat.lt_of_lt_of_le (by decide : 0 < 512) (Nat.le_add_left _ _)
  cases hp with
  | inl hstep =>
      obtain ⟨hok, hstatus, hproduced, hnext⟩ := hz.later raw _ hstep hraw hspace
      refine ⟨hok, ?_⟩
      simp only [decompressBlock, decompressLoop, slice_to_end (Nat.zero_le _), grow_initial,
        List.drop_zero, List.length_nil, Nat.sub_zero, hstatus, hproduced, List.nil_append]
      exact ⟨trivial, fun hfit => Or.inl (hnext hfit)⟩
  | inr hstart =>
      obtain ⟨rfl, rfl⟩ := hstart
      obtain ⟨hok, hask, hnone, hconsumed, d, hset, hstatus, hproduced, hnext⟩ :=
        hz.first raw _ hraw hspace
      refine ⟨hok, ?_⟩
      -- The first round asks for the dictionary, the second inflates.
      simp only [decompressBlock, decompressLoop, slice_to_end (Nat.zero_le _), grow_initial,
        List.drop_zero, List.length_nil, Nat.sub_zero, hask, hset, hnone, List.nil_append,
        Nat.zero_add, if_neg (Nat.not_le.mpr hconsumed), slice_to_end (Nat.le_of_lt hconsumed),
        hstatus, hproduced]
      exact ⟨trivial, fun hfit => Or.inl (hnext hfit)⟩

/-! ## Sequences of header maps -/

/-- `compress_headers` on every map in turn. -/
def compressAll : List (HeaderMap X) → FramerM Z (List Bytes)
  | [] => pure []
  | h :: hs => do
      let block ← compressHeaders h
      let blocks ← compressAll hs
      return block :: blocks

/-- `decompress_headers` on every block in turn. -/
def decompressAll (X : Http) : List Bytes → FramerM Z (List (HeaderMap X))
  | [] => pure []
  | block :: blocks => do
      let h ← decompressHeaders X block
      let hs ← decompressAll X blocks
      return h :: hs

/-- The maps, compressed on one framer, come back from another. -/
def HeadersRestored (hs : List (HeaderMap X)) (sender receiver : Framer Z) : Prop :=
  ∃ blocks sender', compressAll hs sender = .ok blocks sender' ∧
    ∃ ms receiver', decompressAll X blocks receiver = .ok ms receiver' ∧
      List.Forall₂ HeaderMap.Same ms hs

/-- Each raw block with what a compressor makes of it. -/
def blocksOf (Z : Zlib) : Z.Compress → List Bytes → List (Bytes × Bytes)
  | _, [] => []
  | c, raw :: raws =>
      let out := compressBlock Z c raw
      (raw, out.produced) :: blocksOf Z out.state raws

/-- Every block fits the first output buffer of `decompress_headers`. -/
def BlocksFit (Z : Zlib) (c : Z.Compress) (raws : List Bytes) : Prop :=
  ∀ p ∈ blocksOf Z c raws, p.1.length ≤ p.2.length * 4 + 512

instance (Z : Zlib) (c : Z.Compress) (raws : List Bytes) : Decidable (BlocksFit Z c raws) :=
  inferInstanceAs (Decidable (∀ p ∈ blocksOf Z c raws, _ ≤ _))

theorem encodeHeaders_ne_nil (h : HeaderMap X) : encodeHeaders h ≠ [] := by
  rw [encodeHeaders]
  exact List.append_ne_nil_of_left_ne_nil (List.cons_ne_nil _ _) _

/-- The block begins with the number of names. -/
theorem encodeHeaders_count (h : HeaderMap X) :
    ∃ body, encodeHeaders h = toBeBytes32 (UInt32.ofNat (keyCount h.iter)) ++ body := by
  obtain ⟨groups, hg⟩ := exists_groups h
  exact ⟨encodeGroups groups, by rw [← hg.length_eq]; exact hg.encodeHeaders_eq⟩

/-- No vector is longer than `isize::MAX` bytes. -/
def maxVecLength : Nat := 2 ^ 63 - 1

/-- **A block that comes back was in range and fitted.** -/
theorem fit_of_parse {h m : HeaderMap X} (hmem : (encodeHeaders h).length ≤ maxVecLength)
    {space : Nat} (hspace : 4 ≤ space)
    (hok : parseHeaderBlock X usizeBits ((encodeHeaders h).take space) = .ok m)
    (hsame : m.Same h) : h.InRange ∧ (encodeHeaders h).length ≤ space := by
  have hbits : maxVecLength + 2 ^ 32 ≤ 2 ^ usizeBits := by decide
  have hw : (encodeHeaders h).length + 2 ^ 32 ≤ 2 ^ usizeBits :=
    (Nat.add_le_add_right hmem _).trans hbits
  have hrange : h.InRange := by
    obtain ⟨body, hbody⟩ := encodeHeaders_count h
    have hcut : (encodeHeaders h).take space =
        toBeBytes32 (UInt32.ofNat (keyCount h.iter)) ++ body.take (space - 4) := by
      rw [hbody, List.take_append, List.take_of_length_le (by simpa using hspace),
        length_toBeBytes32]
    have hwcut : ((encodeHeaders h).take space).length + 2 ^ 32 ≤ 2 ^ usizeBits :=
      (Nat.add_le_add_right (List.length_take_le' _ _) _).trans hw
    rw [hcut] at hok hwcut
    exact inRange_of_parse hwcut hok hsame
  refine ⟨hrange, ?_⟩
  by_contra hlong
  exact parseHeaderBlock_take_ne_ok hrange hw (Nat.not_le.mp hlong) m hok

/-- A call followed by others returns when all of them do. -/
theorem FramerM.bind_eq_ok {α β : Type} {x : FramerM Z α} {f : α → FramerM Z β}
    {fr fr' : Framer Z} {b : β} :
    (x >>= f) fr = .ok b fr' ↔ ∃ a fr₁, x fr = .ok a fr₁ ∧ f a fr₁ = .ok b fr' := by
  show EStateM.bind x f fr = _ ↔ _
  unfold EStateM.bind
  cases x fr with
  | ok a fr₁ => simp
  | error e fr₁ => simp

theorem compressAll_cons {h : HeaderMap X} (hs : List (HeaderMap X)) {sender : Framer Z}
    (hok : (compressBlock Z sender.compressor (encodeHeaders h)).status = .ok .ok)
    (bs : List Bytes) (sender' : Framer Z) :
    compressAll (h :: hs) sender = .ok bs sender' ↔
      ∃ blocks, bs = (compressBlock Z sender.compressor (encodeHeaders h)).produced :: blocks ∧
        compressAll hs { sender with
          compressor := (compressBlock Z sender.compressor (encodeHeaders h)).state } =
            .ok blocks sender' := by
  rw [compressAll, FramerM.bind_ok (compressHeaders_run hok), FramerM.bind_eq_ok]
  constructor
  · rintro ⟨blocks, s₁, hrest, hpure⟩
    cases hpure
    exact ⟨blocks, rfl, hrest⟩
  · rintro ⟨blocks, rfl, hrest⟩
    exact ⟨blocks, sender', hrest, rfl⟩

/-- The first map comes back exactly when it is in range and its block fits;
then the rest go on from where that leaves the two streams. -/
theorem headersRestored_cons (hz : Z.Documented InStep) {h : HeaderMap X}
    {hs : List (HeaderMap X)} {sender receiver : Framer Z}
    (hp : Paired Z InStep sender.compressor (receiver.decompressor.getD Z.newDecompress))
    (hmem : (encodeHeaders h).length ≤ maxVecLength) {out : Compressed Z.Compress}
    (hout : compressBlock Z sender.compressor (encodeHeaders h) = out)
    {back : Except Fault Bytes × Z.Decompress}
    (hback : decompressBlock Z (receiver.decompressor.getD Z.newDecompress) out.produced = back) :
    HeadersRestored (h :: hs) sender receiver ↔
      (h.InRange ∧ (encodeHeaders h).length ≤ initialCapacity out.produced) ∧
        HeadersRestored hs { sender with compressor := out.state }
          { receiver with decompressor := some back.2 } := by
  obtain ⟨hok, hfirst, -⟩ := decompressBlock_paired hz hp (encodeHeaders_ne_nil h)
  have hcompress := compressAll_cons hs hok
  rw [hout] at hok hfirst hcompress
  rw [hback] at hfirst
  have hspace : 4 ≤ initialCapacity out.produced :=
    (by decide : 4 ≤ 512).trans (Nat.le_add_left _ _)
  have hdecompress : decompressHeaders X out.produced receiver =
      FramerM.lift (parseHeaderBlock X usizeBits
        ((encodeHeaders h).take (initialCapacity out.produced)))
          { receiver with decompressor := some back.2 } := by
    simp only [decompressHeaders, hback, hfirst, Except.bind]
  constructor
  · rintro ⟨bs, sender', hall, ms, receiver', hback', hsame⟩
    obtain ⟨blocks, hcons, hrest⟩ := (hcompress bs sender').mp hall
    subst hcons
    rw [decompressAll, FramerM.bind_eq_ok] at hback'
    obtain ⟨m, r₁, hm, hback'⟩ := hback'
    obtain ⟨ms', r₂, hms', hpure⟩ := FramerM.bind_eq_ok.mp hback'
    cases hpure
    obtain ⟨hmh, htail⟩ := List.forall₂_cons.mp hsame
    rw [hdecompress] at hm
    cases hparse : parseHeaderBlock X usizeBits
        ((encodeHeaders h).take (initialCapacity out.produced)) with
    | error e =>
        rw [hparse] at hm
        exact absurd hm (by simp [FramerM.lift])
    | ok m' =>
        rw [hparse] at hm
        cases hm
        exact ⟨fit_of_parse hmem hspace hparse hmh, blocks, sender', hrest, ms', _, hms', htail⟩
  · rintro ⟨⟨hrange, hfit⟩, blocks, sender', hrest, ms, receiver', hms, htail⟩
    obtain ⟨m, hparse, hmh⟩ :=
      parseHeaderBlock_encodeHeaders hrange (length_encodeHeaders_le hrange)
    refine ⟨_, sender', (hcompress _ sender').mpr ⟨blocks, rfl, hrest⟩, m :: ms, receiver', ?_,
      .cons hmh htail⟩
    have hm : decompressHeaders X out.produced receiver =
        .ok m { receiver with decompressor := some back.2 } := by
      rw [hdecompress, List.take_of_length_le hfit, hparse]
      rfl
    rw [decompressAll, FramerM.bind_ok hm, FramerM.bind_ok hms]
    rfl

/-- The maps come back exactly when each is in range and its block fits. -/
theorem headersRestored_iff_of_paired (hz : Z.Documented InStep) (hs : List (HeaderMap X)) :
    ∀ sender receiver : Framer Z,
      Paired Z InStep sender.compressor (receiver.decompressor.getD Z.newDecompress) →
      (∀ h ∈ hs, (encodeHeaders h).length ≤ maxVecLength) →
        (HeadersRestored hs sender receiver ↔
          (∀ h ∈ hs, h.InRange) ∧ BlocksFit Z sender.compressor (hs.map encodeHeaders)) := by
  induction hs with
  | nil =>
      intro sender receiver _ _
      exact ⟨fun _ => ⟨by simp, by simp [BlocksFit, blocksOf]⟩,
        fun _ => ⟨[], sender, rfl, [], receiver, rfl, .nil⟩⟩
  | cons h hs ih =>
      intro sender receiver hp hmem
      obtain ⟨-, -, hnext⟩ := decompressBlock_paired hz hp (encodeHeaders_ne_nil h)
      have hmem' : ∀ h' ∈ hs, (encodeHeaders h').length ≤ maxVecLength :=
        fun h' hh => hmem h' (List.mem_cons_of_mem _ hh)
      rw [headersRestored_cons hz hp (hmem h List.mem_cons_self) rfl rfl, List.forall_mem_cons]
      simp only [BlocksFit, List.map_cons, blocksOf, List.forall_mem_cons]
      constructor
      · rintro ⟨⟨hrange, hfit⟩, hrest⟩
        obtain ⟨hranges, hfits⟩ := (ih _ _ (hnext hfit) hmem').mp hrest
        exact ⟨⟨hrange, hranges⟩, hfit, hfits⟩
      · rintro ⟨⟨hrange, hranges⟩, hfit, hfits⟩
        exact ⟨⟨hrange, hfit⟩, (ih _ _ (hnext hfit) hmem').mpr ⟨hranges, hfits⟩⟩

/-- **When header maps survive compression.**  Compressed in order on one new
framer and decompressed in order on another, the maps come back if and only if
all their lengths are in range and no block is longer than four times its
compressed size and 512 bytes. -/
theorem headersRestored_iff (hz : Z.Documented InStep) (hs : List (HeaderMap X))
    (hmem : ∀ h ∈ hs, (encodeHeaders h).length ≤ maxVecLength) (sink sink' : Bytes)
    (source source' : Reader) :
    HeadersRestored hs (Framer.new Z sink source) (Framer.new Z sink' source') ↔
      (∀ h ∈ hs, h.InRange) ∧ BlocksFit Z Z.start (hs.map encodeHeaders) :=
  headersRestored_iff_of_paired hz hs _ _ (Or.inr ⟨rfl, rfl⟩) hmem

/-! ## A block that does not fit -/

/-- The reference streams agree when both are past the header and no output is
held back. -/
def ReferenceInStep (c : DeflateStream) (d : InflateStream) : Prop :=
  c.first = false ∧ d = .blocks false []

theorem compressBlock_reference (c : DeflateStream) (raw : Bytes)
    (hh : c.first = true → c.header.length ≤ 6) :
    compressBlock Zlib.reference c raw = ⟨.ok .ok, c.block raw, { c with first := false }⟩ := by
  have hdeflate := length_deflate_le c.first raw
  have hblock : (c.block raw).length ≤ raw.length * 2 + 512 := by
    rw [DeflateStream.block, List.length_append]
    have hheader : (if c.first then c.header else []).length ≤ 6 := by
      split
      · rename_i hfirst
        exact hh hfirst
      · exact Nat.zero_le _
    omega
  exact if_pos hblock

theorem inflates_reference (c : DeflateStream) (hc : c.first = false) (first : Bool) (raw : Bytes)
    (space : Nat) :
    Inflates Zlib.reference ReferenceInStep c (.blocks first []) (deflate first raw) raw space := by
  have hrun : InflateStream.run (.blocks first []) (deflate first raw) space =
      ⟨.ok .ok, (deflate first raw).length, raw.take space, .blocks false (raw.drop space)⟩ := by
    simp only [InflateStream.run, inflate_deflate, List.nil_append]
  refine ⟨congrArg Decompressed.status hrun, congrArg Decompressed.produced hrun, ?_⟩
  intro hfit
  refine ⟨hc, (congrArg Decompressed.state hrun).trans ?_⟩
  rw [List.drop_eq_nil_of_le hfit]

/-- The first block of a stream, whatever its dictionary. -/
theorem first_reference (dict raw : Bytes) (space : Nat) :
    let out := compressBlock Zlib.reference
      (Zlib.reference.compressDictionary Zlib.reference.newCompress dict) raw
    let ask := Zlib.reference.decompressVec Zlib.reference.newDecompress out.produced space
    out.status = .ok .ok ∧ ask.status = .error .needsDictionary ∧ ask.produced = [] ∧
      ask.consumed < out.produced.length ∧
        ∃ d, Zlib.reference.setDictionary ask.state dict = .ok d ∧
          Inflates Zlib.reference ReferenceInStep out.state d (out.produced.drop ask.consumed)
            raw space := by
  obtain ⟨hask, hset⟩ := InflateStream.run_header dict (deflate true raw) space
  have hout := compressBlock_reference ⟨dictionaryHeader dict, true⟩ raw fun _ => le_refl 6
  rw [DeflateStream.block_first rfl] at hout
  have hlength : (dictionaryHeader dict ++ deflate true raw).length =
      6 + (deflate true raw).length := List.length_append
  have hpos := List.length_pos_iff.mpr (deflate_ne_nil true raw)
  intro out ask
  have hout' : out = ⟨.ok .ok, dictionaryHeader dict ++ deflate true raw,
    ⟨dictionaryHeader dict, false⟩⟩ := hout
  have hask' : ask = ⟨.error .needsDictionary, 6, [],
      .dictionary (toBeBytes32 (UInt32.ofNat (adler32 dict)))⟩ := by
    simp only [ask, hout']
    exact hask
  rw [hout', hask']
  refine ⟨rfl, rfl, rfl, by simp only [hlength]; omega, .blocks true [], hset, ?_⟩
  simp only [drop_dictionaryHeader]
  exact inflates_reference _ rfl true raw space

theorem documented_reference : Zlib.reference.Documented ReferenceInStep where
  first raw space _ _ := first_reference spdyDict raw space
  later {c d} raw space hstep _ _ := by
    obtain ⟨hfirst, rfl⟩ := hstep
    have hout := compressBlock_reference c raw fun h => absurd h (by simp [hfirst])
    rw [DeflateStream.block_later hfirst] at hout
    rw [hout]
    exact ⟨rfl, inflates_reference _ rfl false raw space⟩

/-- The header `a` with a value of seven hundred bytes. -/
def sevenHundred : HeaderMap Http.reference where
  iter := [(⟨[0x61], by decide⟩, ⟨List.replicate 700 0x61, by decide +kernel⟩)]
  size_le := by decide +kernel

/-- The map is lost: its block takes 713 bytes, is compressed to 28, and the
output buffer holds 624. -/
theorem sevenHundred_lost :
    Zlib.reference.Documented ReferenceInStep ∧
    ([sevenHundred].map encodeHeaders) = [rawSevenHundred] ∧
      ¬ HeadersRestored [sevenHundred] (Framer.new Zlib.reference [] ⟨[], .unexpectedEof⟩)
        (Framer.new Zlib.reference [] ⟨[], .unexpectedEof⟩) := by
  refine ⟨documented_reference, by decide +kernel, ?_⟩
  rw [headersRestored_iff_of_paired documented_reference _ _ _ (Or.inr ⟨rfl, rfl⟩)
    (by decide +kernel)]
  rintro ⟨-, hfit⟩
  exact absurd hfit (by decide +kernel)

theorem headersRestored_iff_methodGet :
    HeadersRestored [methodGet, methodGet] (Framer.new Zlib.reference [] ⟨[], .unexpectedEof⟩)
        (Framer.new Zlib.reference [] ⟨[], .unexpectedEof⟩) ↔
      (∀ h ∈ [methodGet, methodGet], h.InRange) ∧
        BlocksFit Zlib.reference Zlib.reference.start ([methodGet, methodGet].map encodeHeaders) :=
  headersRestored_iff documented_reference [methodGet, methodGet] (by decide +kernel) [] []
    ⟨[], .unexpectedEof⟩ ⟨[], .unexpectedEof⟩

end SpdyStream.Framing
