/-
  Upgrade/BlankLine.lean --- where `parse_upgrade_request` stops reading.

  The loop counts CR and LF bytes alike, and looks at the size only when it does
  not stop.  `readHead_ok_iff` says what this amounts to: it reads up to and
  including the first four line-end bytes in a row, as long as these are at most
  one byte past the limit.  So it never stops behind the blank line, but it may
  stop before, and `consumed_iff` says on which streams it does neither.
-/
import SpdyStream.Upgrade.Server

set_option autoImplicit false

namespace SpdyStream.Upgrade

open SpdyStream.Foundation SpdyStream.Framing

variable {X : Http}

/-! ## The loop -/

/-- What the loop reads when it starts with `buf` read: `head` in all, and `rest`
is left. -/
def ReadsHead (buf input head rest : Bytes) : Prop :=
  ∃ tail, head = buf ++ tail ∧ input = tail ++ rest ∧ FirstRun isLineEnd 4 head ∧
    head.length ≤ maxRequest + 1

theorem counter_step (buf : Bytes) (b : UInt8) :
    ((buf ++ [b]).rtakeWhile isLineEnd).length =
      if isLineEnd b then (buf.rtakeWhile isLineEnd).length + 1 else 0 := by
  rw [List.rtakeWhile_concat]
  split
  · rw [List.length_append, List.length_singleton]
  · rfl

/-- A byte that does not complete four line ends leaves none behind. -/
theorem not_hasRun_concat {buf : Bytes} {b : UInt8} (hnone : ¬ HasRun isLineEnd 4 buf)
    (hgo : ¬ (isLineEnd b ∧
      (if isLineEnd b then (buf.rtakeWhile isLineEnd).length + 1 else 0) = 4)) :
    ¬ HasRun isLineEnd 4 (buf ++ [b]) := by
  intro hrun
  have hlt : ¬ 4 ≤ (buf.rtakeWhile isLineEnd).length := by
    intro hle
    obtain ⟨w, hw, hlen, hall⟩ := run_at_end_iff.mpr hle
    exact hnone ⟨w, hw.isInfix, hlen, hall⟩
  rcases hasRun_concat.mp hrun with hend | hin
  · rw [counter_step] at hend
    split at hend
    · rename_i hb
      exact hgo ⟨hb, by rw [if_pos hb]; omega⟩
    · omega
  · exact hnone hin

/-- A run that is there is read, and no more than it. -/
theorem ReadsHead.stop_iff {buf rest' head rest : Bytes} {b : UInt8}
    (hnone : ¬ HasRun isLineEnd 4 buf) (hrun : HasRun isLineEnd 4 (buf ++ [b]))
    (hbuf : buf.length ≤ maxRequest) :
    ReadsHead buf (b :: rest') head rest ↔ head = buf ++ [b] ∧ rest = rest' := by
  have hfirst : FirstRun isLineEnd 4 (buf ++ [b]) := ⟨hrun, by rwa [List.dropLast_concat]⟩
  constructor
  · rintro ⟨tail, rfl, htail, hhead, -⟩
    have hinput : buf ++ tail <+: (buf ++ [b]) ++ rest' := by
      rw [List.append_assoc, List.singleton_append, htail, ← List.append_assoc]
      exact List.prefix_append _ _
    obtain rfl := List.append_cancel_left
      (hhead.unique hfirst hinput (List.prefix_append _ _))
    exact ⟨rfl, (List.cons.inj htail).2.symm⟩
  · rintro ⟨rfl, rfl⟩
    refine ⟨[b], rfl, rfl, hfirst, ?_⟩
    rw [List.length_append, List.length_singleton]
    omega

/-- Where no run is yet, the next byte is read. -/
theorem ReadsHead.next_iff {buf rest' head rest : Bytes} {b : UInt8}
    (hnone : ¬ HasRun isLineEnd 4 buf) :
    ReadsHead buf (b :: rest') head rest ↔ ReadsHead (buf ++ [b]) rest' head rest := by
  constructor
  · rintro ⟨tail, rfl, htail, hhead, hlen⟩
    cases tail with
    | nil => exact absurd (by simpa using hhead.1) hnone
    | cons c tail =>
        obtain ⟨rfl, rfl⟩ := List.cons.inj htail
        exact ⟨tail, by simp, rfl, hhead, hlen⟩
  · rintro ⟨tail, rfl, rfl, hhead, hlen⟩
    exact ⟨b :: tail, by simp, rfl, hhead, hlen⟩

/-- One byte past the limit there must be a run. -/
theorem ReadsHead.not_of_full {buf input head rest : Bytes} (hnone : ¬ HasRun isLineEnd 4 buf)
    (hfull : maxRequest < buf.length) : ¬ ReadsHead buf input head rest := by
  rintro ⟨tail, rfl, -, hhead, hlen⟩
  have htail : tail = [] := by
    rw [List.length_append] at hlen
    exact List.eq_nil_of_length_eq_zero (by omega)
  rw [htail, List.append_nil] at hhead
  exact hnone hhead.1

/-- The loop from any of its states: the counter is the number of line ends at the
end of the buffer, and four of them have not been seen. -/
theorem readHead_iff {atEnd atEnd' : IoErrorKind} {input head rest : Bytes} :
    ∀ {buf : Bytes}, ¬ HasRun isLineEnd 4 buf → buf.length ≤ maxRequest →
      (readHead atEnd buf (buf.rtakeWhile isLineEnd).length input = .ok head ⟨rest, atEnd'⟩ ↔
        atEnd' = atEnd ∧ ReadsHead buf input head rest) := by
  induction input with
  | nil =>
      intro buf hnone _
      refine iff_of_false (by simp [readHead]) ?_
      rintro ⟨-, tail, rfl, htail, hhead, -⟩
      obtain ⟨rfl, -⟩ := List.append_eq_nil_iff.mp htail.symm
      exact hnone (by simpa using hhead.1)
  | cons b rest' ih =>
      intro buf hnone hbuf
      have hcount := counter_step buf b
      rw [readHead]
      simp only [← hcount]
      split
      · rename_i hstop
        have hrun : HasRun isLineEnd 4 (buf ++ [b]) :=
          hasRun_concat.mpr (Or.inl (Nat.le_of_eq hstop.2.symm))
        rw [ReadsHead.stop_iff hnone hrun hbuf]
        constructor
        · intro h
          cases h
          exact ⟨rfl, rfl, rfl⟩
        · rintro ⟨rfl, rfl, rfl⟩
          rfl
      · rename_i hgo
        rw [hcount] at hgo
        have hnone' := not_hasRun_concat hnone hgo
        rw [ReadsHead.next_iff hnone]
        split
        · rename_i hfull
          exact iff_of_false (by simp) fun h => ReadsHead.not_of_full hnone' hfull h.2
        · rename_i hfits
          exact ih hnone' (Nat.not_lt.mp hfits)

/-- **The loop reads up to the first four line ends in a row**, whichever these
are, if no more than one byte past the limit is read. -/
theorem readHead_ok_iff {atEnd : IoErrorKind} {input head : Bytes} {r : Reader} :
    readHead atEnd [] 0 input = .ok head r ↔
      r.atEnd = atEnd ∧ input = head ++ r.bytes ∧ FirstRun isLineEnd 4 head ∧
        head.length ≤ maxRequest + 1 := by
  have hnone : ¬ HasRun isLineEnd 4 ([] : Bytes) := by
    rintro ⟨w, hw, hlen, -⟩
    rw [List.infix_nil.mp hw] at hlen
    exact absurd hlen (by decide)
  have h : readHead atEnd [] 0 input = .ok head ⟨r.bytes, r.atEnd⟩ ↔ _ :=
    readHead_iff hnone (Nat.zero_le _)
  refine h.trans (and_congr_right fun _ => ?_)
  simp [ReadsHead]

/-! ## The blank line -/

/-- CR LF CR LF. -/
def blankLine : Bytes := [13, 10, 13, 10]

/-- `head` is the shortest prefix of the input that ends in the blank line. -/
def ShortestHead (input head : Bytes) : Prop :=
  head <+: input ∧ blankLine <:+ head ∧
    ∀ p, p <+: input → blankLine <:+ p → head.length ≤ p.length

/-- The first four line-end bytes in a row are CR LF CR LF, and they are within the
limit. -/
def BlankLineFirst (input : Bytes) : Prop :=
  ∃ pre post, input = pre ++ blankLine ++ post ∧
    ¬ HasRun isLineEnd 4 (pre ++ blankLine.dropLast) ∧ (pre ++ blankLine).length ≤ maxRequest

theorem hasRun_of_blankLine {p : Bytes} (h : blankLine <:+ p) : HasRun isLineEnd 4 p :=
  ⟨blankLine, h.isInfix, rfl, by simp [blankLine, isLineEnd]⟩

theorem dropLast_append_blankLine (pre : Bytes) :
    (pre ++ blankLine).dropLast = pre ++ blankLine.dropLast :=
  List.dropLast_append_of_ne_nil (by decide)

/-- What the loop reads is the shortest head if it ends in the blank line at all. -/
theorem shortestHead_iff {input head rest : Bytes} (hinput : input = head ++ rest)
    (hfirst : FirstRun isLineEnd 4 head) : ShortestHead input head ↔ blankLine <:+ head := by
  have hpre : head <+: input := hinput ▸ List.prefix_append _ _
  constructor
  · rintro ⟨-, hblank, -⟩
    exact hblank
  · intro hblank
    refine ⟨hpre, hblank, fun p hp hpblank => ?_⟩
    exact hfirst.length_le hpre hp (hasRun_of_blankLine hpblank)

/-- The condition on the input, in terms of what the loop reads. -/
theorem blankLineFirst_iff {input head rest : Bytes} (hinput : input = head ++ rest)
    (hfirst : FirstRun isLineEnd 4 head) :
    BlankLineFirst input ↔ blankLine <:+ head ∧ head.length ≤ maxRequest := by
  constructor
  · rintro ⟨pre, post, hsplit, hnone, hlen⟩
    have hblank : blankLine <:+ pre ++ blankLine := List.suffix_append _ _
    have hfirst' : FirstRun isLineEnd 4 (pre ++ blankLine) :=
      ⟨hasRun_of_blankLine hblank, by rwa [dropLast_append_blankLine]⟩
    -- Both have their first run at the end, so they are one prefix.
    obtain rfl := hfirst.unique hfirst' (hinput ▸ List.prefix_append _ _)
      (hsplit ▸ List.prefix_append _ _)
    exact ⟨hblank, hlen⟩
  · rintro ⟨⟨pre, rfl⟩, hlen⟩
    refine ⟨pre, rest, hinput, ?_, hlen⟩
    rw [← dropLast_append_blankLine]
    exact hfirst.2

/-- A request that is parsed was read by the loop. -/
theorem head_of_parseUpgradeRequest {S : FromStr X} {r r' : Reader} {request : UpgradeRequest X}
    (h : parseUpgradeRequest S r = .ok request r') :
    ∃ head, r.bytes = head ++ r'.bytes ∧ FirstRun isLineEnd 4 head ∧
      head.length ≤ maxRequest + 1 ∧ parseHead S head = .ok request := by
  unfold parseUpgradeRequest at h
  split at h
  · cases h
  · rename_i head r₁ hread
    obtain ⟨-, hinput, hfirst, hlen⟩ := readHead_ok_iff.mp hread
    split at h
    · cases h
    · rename_i request' hparse
      cases h
      exact ⟨head, hinput, hfirst, hlen, hparse⟩

/-- `accept` begins to read frames where the request was read to. -/
theorem accept_reader {S : FromStr X} {r r' : Reader} {request : UpgradeRequest X}
    (h : parseUpgradeRequest S r = .ok request r') (Z : Zlib) (written : Bytes) :
    ∃ served, accept S Z ⟨r, ⟨written, none⟩⟩ = .ok served ∧ served.readFramer.reader = r' := by
  rw [accept]
  simp only [h]
  exact ⟨_, rfl, rfl⟩

/-- **A parsed request ends with its blank line, within the limit, exactly where
CR LF CR LF are the first four line-end bytes in a row**, and then the framer that
`accept` starts reads on behind it. -/
theorem consumed_iff {S : FromStr X} {r r' : Reader} {request : UpgradeRequest X}
    (h : parseUpgradeRequest S r = .ok request r') :
    (∃ head, r.bytes = head ++ r'.bytes ∧ ShortestHead r.bytes head ∧ head.length ≤ maxRequest ∧
        ∀ (Z : Zlib) (written : Bytes), ∃ served, accept S Z ⟨r, ⟨written, none⟩⟩ = .ok served ∧
          served.readFramer.reader.bytes = r.bytes.drop head.length) ↔
      BlankLineFirst r.bytes := by
  obtain ⟨head, hinput, hfirst, -, -⟩ := head_of_parseUpgradeRequest h
  rw [blankLineFirst_iff hinput hfirst, ← shortestHead_iff hinput hfirst]
  constructor
  · rintro ⟨head', hinput', hshort, hlen, -⟩
    obtain rfl := List.append_cancel_right (hinput.symm.trans hinput')
    exact ⟨hshort, hlen⟩
  · rintro ⟨hshort, hlen⟩
    refine ⟨head, hinput, hshort, hlen, fun Z written => ?_⟩
    obtain ⟨served, haccept, hreader⟩ := accept_reader h Z written
    refine ⟨served, haccept, ?_⟩
    rw [hreader, hinput, List.drop_left]

/-- What a result leaves to be read. -/
def leftOver {α : Type} : EStateM.Result Fault Reader α → Option Reader
  | .ok _ r => some r
  | .error _ _ => none

theorem leftOver_eq_some {α : Type} {x : EStateM.Result Fault Reader α} {r : Reader}
    (h : leftOver x = some r) : ∃ a, x = .ok a r := by
  cases x with
  | ok a r' => exact ⟨a, by rw [← Option.some.inj h]⟩
  | error e r' => cases h

/-- The request of a SPDY client. -/
def handshake : Bytes :=
  asBytes ("GET /exec HTTP/1.1\r\nHost: localhost\r\nUpgrade: spdy/3.1\r\n" ++
    "Connection: Upgrade\r\n\r\n").toList

/-- The bytes behind the request of a client are the first of its frames. -/
theorem consumed_handshake :
    ∃ request, parseUpgradeRequest FromStr.reference ⟨handshake ++ [0x80, 0x03], .unexpectedEof⟩ =
        .ok request ⟨[0x80, 0x03], .unexpectedEof⟩ ∧
      BlankLineFirst (handshake ++ [0x80, 0x03]) ∧
      ShortestHead (handshake ++ [0x80, 0x03]) handshake := by
  have hleft : leftOver (parseUpgradeRequest FromStr.reference
      ⟨handshake ++ [0x80, 0x03], .unexpectedEof⟩) = some ⟨[0x80, 0x03], .unexpectedEof⟩ := by
    decide +kernel
  obtain ⟨request, h⟩ := leftOver_eq_some hleft
  obtain ⟨head, hinput, hfirst, -, -⟩ := head_of_parseUpgradeRequest h
  obtain rfl := List.append_cancel_right hinput
  have hblank : blankLine <:+ handshake ∧ handshake.length ≤ maxRequest := by decide +kernel
  have hcond : BlankLineFirst (handshake ++ [0x80, 0x03]) :=
    (blankLineFirst_iff hinput hfirst).mpr hblank
  obtain ⟨head', hinput', hshort, -, -⟩ := (consumed_iff h).mpr hcond
  obtain rfl := List.append_cancel_right hinput'
  exact ⟨request, h, hcond, hshort⟩

/-- A request whose last header line ends in LF only, twice. -/
def bareLineEnds : Bytes :=
  asBytes "GET /exec HTTP/1.1\r\nUpgrade: spdy/3.1\n\n\r\n\r\n".toList

/-- **A request is parsed two bytes before its blank line ends**: they are left to the
framer. -/
theorem consumed_early :
    ∃ request, parseUpgradeRequest FromStr.reference ⟨bareLineEnds, .unexpectedEof⟩ =
        .ok request ⟨[13, 10], .unexpectedEof⟩ ∧
      ¬ ∃ head, bareLineEnds = head ++ [13, 10] ∧ ShortestHead bareLineEnds head := by
  have hleft : leftOver (parseUpgradeRequest FromStr.reference ⟨bareLineEnds, .unexpectedEof⟩) =
      some ⟨[13, 10], .unexpectedEof⟩ := by
    decide +kernel
  obtain ⟨request, h⟩ := leftOver_eq_some hleft
  refine ⟨request, h, ?_⟩
  rintro ⟨head, hinput, -, hblank, -⟩
  have hend : ¬ blankLine <:+ bareLineEnds.take (bareLineEnds.length - 2) := by decide +kernel
  have hhead : bareLineEnds.take (bareLineEnds.length - 2) = head := by
    rw [hinput, List.length_append]
    exact List.take_left' rfl
  exact hend (hhead ▸ hblank)

end SpdyStream.Upgrade
