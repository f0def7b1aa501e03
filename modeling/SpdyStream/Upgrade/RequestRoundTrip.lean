/-
  Upgrade/RequestRoundTrip.lean --- a rendered request is parsed to its parts.

  `renderRequest` writes a request as a client does: the request line, a line for
  each header, and the blank line.  None of these lines is empty or holds a CR or
  LF, so the loop reads exactly the request, and splitting at CR LF gives its
  lines back.  The loop over the header lines keeps one pair for each of them.

  What is assumed of the `http` crate there is `FromStr.Documented`.
-/
import SpdyStream.Framing.HeaderGrammar
import SpdyStream.Upgrade.BlankLine

set_option autoImplicit false

namespace SpdyStream.Upgrade

open SpdyStream.Foundation SpdyStream.Framing

variable {X : Http} {S : FromStr X}

/-! ## Requests as they are written -/

/-- CR LF. -/
def crlf : Str := ['\r', '\n']

/-- `METHOD path version`. -/
def requestLine (method path version : Str) : Str := method ++ ' ' :: (path ++ ' ' :: version)

/-- `name: value`. -/
def renderHeader (header : Str × Str) : Str := header.1 ++ ':' :: ' ' :: header.2

/-- A request: the request line, the header lines, and the blank line. -/
def renderRequest (method path version : Str) (headers : List (Str × Str)) : Str :=
  requestLine method path version ++ crlf ++ headers.flatMap (fun h => renderHeader h ++ crlf) ++
    crlf

/-- A name that is a token of HTTP. -/
def IsToken (s : Str) : Prop := s ≠ [] ∧ ∀ c ∈ s, c.toNat < 128 ∧ isTokenByte c.toUInt8 = true

/-- Visible ASCII, spaces and tabs. -/
def IsVisible (s : Str) : Prop := ∀ c ∈ s, (32 ≤ c.toNat ∧ c.toNat < 127) ∨ c = '\t'

-- The characters of the text are tried, not all there are.
instance (s : Str) : Decidable (IsToken s) :=
  @instDecidableAnd _ _ inferInstance (List.decidableBAll _ s)

instance (s : Str) : Decidable (IsVisible s) := List.decidableBAll _ s

/-- The parts of a request. -/
structure IsRequest (method path version : Str) (headers : List (Str × Str)) : Prop where
  method : ∀ c ∈ method, c ≠ ' ' ∧ c ≠ '\r' ∧ c ≠ '\n'
  path : ∀ c ∈ path, c ≠ ' ' ∧ c ≠ '\r' ∧ c ≠ '\n'
  version : ∀ c ∈ version, c ≠ '\r' ∧ c ≠ '\n'
  headers : ∀ h ∈ headers, IsToken h.1 ∧ IsVisible h.2

/-- The header asks for SPDY: `Upgrade: spdy/3.1` in any case. -/
def AsksUpgrade (header : Str × Str) : Prop :=
  eqIgnoreAsciiCase header.1 "upgrade".toList = true ∧
    eqIgnoreAsciiCase (trim header.2) "spdy/3.1".toList = true

instance (header : Str × Str) : Decidable (AsksUpgrade header) :=
  inferInstanceAs (Decidable (_ ∧ _))

/-- What the map of a request holds for a header: the name in lower case, and the
trimmed value. -/
def entryOf (header : Str × Str) : Bytes × Bytes :=
  ((asBytes header.1).map toAsciiLowercase, asBytes (trim header.2))

/-- The documented behaviour of the `http` crate on such headers: it accepts every
token as a name and visible ASCII as a value, and a map has room for some thousand
pairs. -/
structure FromStr.Documented (S : FromStr X) : Prop where
  name : ∀ {b : Bytes}, b ≠ [] → b.length < 2 ^ 16 → (∀ c ∈ b, isTokenByte c = true) →
    (X.headerName b).isSome = true
  value : ∀ {v : Bytes}, (∀ b ∈ v, (32 ≤ b.toNat ∧ b.toNat < 127) ∨ b = 9) →
    S.headerValue v = true
  room : ∀ {names pairs : Nat}, names ≤ pairs → pairs ≤ 2048 →
    X.size names pairs ≤ maxHeaderMapSize

/-! ## Lines -/

/-- A line that is not empty and ends nowhere. -/
structure IsLine (l : Str) : Prop where
  ne_nil : l ≠ []
  char : ∀ c ∈ l, c ≠ '\r' ∧ c ≠ '\n'

/-- Lines, each with its end, and the blank line. -/
def joinLines (lines : List Str) : Str := lines.flatMap (· ++ crlf) ++ crlf

theorem renderRequest_eq_joinLines (method path version : Str) (headers : List (Str × Str)) :
    renderRequest method path version headers =
      joinLines (requestLine method path version :: headers.map renderHeader) := by
  rw [renderRequest, joinLines, List.flatMap_cons, List.flatMap_map]

theorem isLineEnd_of_mem_asBytes {s : Str} (h : ∀ c ∈ s, c ≠ '\r' ∧ c ≠ '\n') {b : UInt8}
    (hb : b ∈ asBytes s) : isLineEnd b = false := by
  by_contra hend
  have hcases : b = 13 ∨ b = 10 := isLineEnd_iff.mp (Bool.not_eq_false _ ▸ hend)
  have hlow : b.toNat < 128 := by rcases hcases with rfl | rfl <;> decide
  obtain ⟨c, hc, hcb⟩ := mem_of_mem_asBytes hlow hb
  rcases hcases with rfl | rfl
  · exact (h c hc).1 (Char.toNat_inj.mp hcb)
  · exact (h c hc).2 (Char.toNat_inj.mp hcb)

theorem asBytes_ne_nil {s : Str} (h : s ≠ []) : asBytes s ≠ [] := by
  obtain ⟨c, t, rfl⟩ := List.exists_cons_of_ne_nil h
  intro hnil
  exact String.utf8EncodeChar_ne_nil (List.append_eq_nil_iff.mp hnil).1

/-- A line and up to three line ends behind it make no run of four. -/
theorem IsLine.not_hasRun {l : Str} (hl : IsLine l) {before ends : Bytes}
    (hbefore : ¬ HasRun isLineEnd 4 before) (hends : ends.length < 4) :
    ¬ HasRun isLineEnd 4 (before ++ (asBytes l ++ ends)) := by
  have hplain : ∀ b ∈ asBytes l, isLineEnd b = false := fun b hb =>
    isLineEnd_of_mem_asBytes hl.char hb
  obtain ⟨b, w, hw⟩ := List.exists_cons_of_ne_nil (asBytes_ne_nil hl.ne_nil)
  rw [hw] at hplain
  rw [hw, List.cons_append]
  refine not_hasRun_append_cons (hplain b List.mem_cons_self) hbefore fun h => ?_
  have hcount := h.le_countP
  have hnone : w.countP isLineEnd = 0 := by
    rw [List.countP_eq_zero]
    intro c hc
    simp [hplain c (List.mem_cons_of_mem _ hc)]
  have hfew : ends.countP isLineEnd ≤ ends.length := List.countP_le_length
  rw [List.countP_append, hnone] at hcount
  omega

theorem not_hasRun_lines {lines : List Str} (h : ∀ l ∈ lines, IsLine l) :
    ¬ HasRun isLineEnd 4 (asBytes (lines.flatMap (· ++ crlf))) := by
  induction lines using List.reverseRecOn with
  | nil =>
      intro hrun
      exact absurd hrun.le_countP (by decide)
  | append_singleton lines l ih =>
      have hinit := ih fun l' hl' => h l' (List.mem_append_left _ hl')
      have hlast := h l (List.mem_append_right _ List.mem_cons_self)
      have hcut : asBytes ((lines ++ [l]).flatMap (· ++ crlf)) =
          asBytes (lines.flatMap (· ++ crlf)) ++ (asBytes l ++ asBytes crlf) := by
        simp
      rw [hcut]
      exact hlast.not_hasRun hinit (by decide)

/-- The first four line ends in a row of a text are those of its blank line. -/
theorem firstRun_joinLines {lines : List Str} (hne : lines ≠ []) (h : ∀ l ∈ lines, IsLine l) :
    FirstRun isLineEnd 4 (asBytes (joinLines lines)) := by
  obtain ⟨init, last, rfl⟩ := (List.eq_nil_or_concat' lines).resolve_left hne
  have hinit := not_hasRun_lines fun l hl => h l (List.mem_append_left _ hl)
  have hlast := h last (List.mem_append_right _ List.mem_cons_self)
  have hcut : asBytes (joinLines (init ++ [last])) =
      (asBytes (init.flatMap (· ++ crlf)) ++ asBytes last) ++ blankLine := by
    have hblank : asBytes crlf ++ asBytes crlf = blankLine := by decide
    simp [joinLines, ← hblank]
  rw [hcut]
  refine ⟨hasRun_of_blankLine (List.suffix_append _ _), ?_⟩
  rw [dropLast_append_blankLine, List.append_assoc]
  exact hlast.not_hasRun hinit (by decide)

/-- The loop reads the lines and the blank line. -/
theorem readHead_joinLines {lines : List Str} (hne : lines ≠ []) (h : ∀ l ∈ lines, IsLine l)
    (hlen : (asBytes (joinLines lines)).length ≤ maxRequest) (rest : Bytes)
    (atEnd : IoErrorKind) :
    readHead atEnd [] 0 (asBytes (joinLines lines) ++ rest) =
      .ok (asBytes (joinLines lines)) ⟨rest, atEnd⟩ :=
  readHead_ok_iff.mpr ⟨rfl, rfl, firstRun_joinLines hne h, Nat.le_succ_of_le hlen⟩

/-- Splitting gives the lines back, and two empty ones. -/
theorem splitCrlf_joinLines {lines : List Str} (h : ∀ l ∈ lines, IsLine l) :
    splitCrlf (joinLines lines) = lines ++ [[], []] := by
  have hcr : ∀ l ∈ lines, '\r' ∉ l := fun l hl hmem => ((h l hl).char _ hmem).1 rfl
  exact splitPair_pieces hcr crlf

theorem splitnSpace_requestLine {method path version : Str} (hmethod : ' ' ∉ method)
    (hpath : ' ' ∉ path) :
    splitnSpace 3 (requestLine method path version) = [method, path, version] := by
  rw [splitnSpace, requestLine, splitN_piece hmethod, splitN_piece hpath, splitN]

/-! ## Characters of names and values -/

/-- The characters of a token are visible, and none is a colon. -/
theorem IsToken.char {s : Str} (hs : IsToken s) {c : Char} (hc : c ∈ s) :
    32 < c.toNat ∧ c.toNat < 127 ∧ c.toNat ≠ 58 := by
  have htable : ∀ n < 128, isTokenByte (UInt8.ofNat n) = true → 32 < n ∧ n < 127 ∧ n ≠ 58 := by
    decide
  obtain ⟨hlow, htoken⟩ := hs.2 c hc
  have hbyte : UInt8.ofNat c.toNat = c.toUInt8 := by
    rw [← toNat_toUInt8 hlow, UInt8.ofNat_toNat]
  exact htable c.toNat hlow (hbyte ▸ htoken)

theorem isWhitespace_of_visible {c : Char} (h : 32 < c.toNat ∧ c.toNat < 127) :
    isWhitespace c = false := by
  simp only [isWhitespace, Bool.or_eq_false_iff, Bool.and_eq_false_iff, decide_eq_false_iff_not,
    List.mem_cons, List.not_mem_nil, or_false]
  omega

theorem IsToken.trim_eq {s : Str} (hs : IsToken s) : trim s = s :=
  strip_eq_self fun _ hc => isWhitespace_of_visible ⟨(hs.char hc).1, (hs.char hc).2.1⟩

theorem IsToken.notMem_colon {s : Str} (hs : IsToken s) : ':' ∉ s := fun h => (hs.char h).2.2 rfl

theorem IsToken.headerName (hS : S.Documented) {s : Str} (hs : IsToken s)
    (hlen : (asBytes s).length < 2 ^ 16) :
    ∃ name : HeaderName X, HeaderName.fromBytes X (asBytes s) = .ok name ∧
      name.asStr = (asBytes s).map toAsciiLowercase := by
  have htoken : ∀ b ∈ asBytes s, isTokenByte b = true := by
    rw [asBytes_ascii fun c hc => (hs.2 c hc).1]
    intro b hb
    obtain ⟨c, hc, rfl⟩ := List.mem_map.mp hb
    exact (hs.2 c hc).2
  obtain ⟨name, hname⟩ := fromBytes_ok_iff.mp (hS.name (asBytes_ne_nil hs.1) hlen htoken)
  exact ⟨name, hname, HeaderName.asStr_fromBytes hname⟩

theorem IsVisible.trim {s : Str} (hs : IsVisible s) : IsVisible (trim s) := fun c hc =>
  hs c (mem_of_mem_strip hc)

theorem IsVisible.headerValue (hS : S.Documented) {s : Str} (hs : IsVisible s) :
    ∃ value : HeaderValue X, S.value s = some value ∧ value.asBytes = asBytes s := by
  have hlow : ∀ c ∈ s, c.toNat < 128 := by
    intro c hc
    rcases hs c hc with hvisible | rfl
    · omega
    · decide
  have hbytes : ∀ b ∈ asBytes s, (32 ≤ b.toNat ∧ b.toNat < 127) ∨ b = 9 := by
    rw [asBytes_ascii hlow]
    intro b hb
    obtain ⟨c, hc, rfl⟩ := List.mem_map.mp hb
    rw [toNat_toUInt8 (hlow c hc)]
    rcases hs c hc with hvisible | rfl
    · exact Or.inl hvisible
    · exact Or.inr rfl
  exact ⟨⟨asBytes s, S.accepted (hS.value hbytes)⟩, dif_pos (hS.value hbytes), rfl⟩

theorem isLine_renderHeader {h : Str × Str} (hname : IsToken h.1) (hvalue : IsVisible h.2) :
    IsLine (renderHeader h) where
  ne_nil hnil := absurd (List.append_eq_nil_iff.mp hnil).2 (by simp)
  char c hc := by
    have hends : ∀ d : Char, 32 ≤ d.toNat ∨ d = '\t' → d ≠ '\r' ∧ d ≠ '\n' := by
      rintro d (hd | rfl)
      · constructor <;> (rintro rfl; exact absurd hd (by decide))
      · decide
    rcases List.mem_append.mp hc with hc | hc
    · exact hends c (Or.inl (hname.char hc).1.le)
    · rcases List.mem_cons.mp hc with rfl | hc
      · decide
      · rcases List.mem_cons.mp hc with rfl | hc
        · decide
        · exact hends c ((hvalue c hc).imp_left And.left)

theorem isLine_requestLine {method path version : Str} {headers : List (Str × Str)}
    (h : IsRequest method path version headers) : IsLine (requestLine method path version) where
  ne_nil hnil := absurd (List.append_eq_nil_iff.mp hnil).2 (by simp)
  char c hc := by
    simp only [requestLine, List.mem_append, List.mem_cons] at hc
    rcases hc with hc | rfl | hc | rfl | hc
    · exact (h.method c hc).2
    · decide
    · exact (h.path c hc).2
    · decide
    · exact h.version c hc

/-- Every line of a request is a line. -/
theorem isLine_of_isRequest {method path version : Str} {headers : List (Str × Str)}
    (h : IsRequest method path version headers) :
    ∀ l ∈ requestLine method path version :: headers.map renderHeader, IsLine l := by
  intro l hl
  rcases List.mem_cons.mp hl with rfl | hl
  · exact isLine_requestLine h
  · obtain ⟨header, hheader, rfl⟩ := List.mem_map.mp hl
    exact isLine_renderHeader (h.headers header hheader).1 (h.headers header hheader).2

/-! ## The loop over the header lines -/

theorem append_of_room (hS : S.Documented) (m : HeaderMap X) (name : HeaderName X)
    (value : HeaderValue X) (hroom : m.iter.length < 2048) :
    ∃ m', m.append name value = .ok m' ∧ m'.iter = m.iter ++ [(name, value)] := by
  have hfits : pairsSize X (m.iter ++ [(name, value)]) ≤ maxHeaderMapSize :=
    hS.room (keyCount_le_length _) (by simpa using hroom)
  exact ⟨⟨_, hfits⟩, dif_pos hfits, rfl⟩

/-- One header line adds its entry, and tells whether it asks for SPDY. -/
theorem parseHeaderLines_header (hS : S.Documented) {h : Str × Str} (hname : IsToken h.1)
    (hvalue : IsVisible h.2) (hlen : (asBytes h.1).length < 2 ^ 16) (m : HeaderMap X)
    (hroom : m.iter.length < 2048) :
    ∃ p m', (HeaderName.asStr p.1, HeaderValue.asBytes p.2) = entryOf h ∧
      m'.iter = m.iter ++ [p] ∧ ∀ (lines : List Str) (flag : Bool),
        parseHeaderLines S (renderHeader h :: lines) m flag =
          parseHeaderLines S lines m' (flag || decide (AsksUpgrade h)) := by
  obtain ⟨name, hn, hnStr⟩ := hname.headerName hS hlen
  obtain ⟨value, hv, hvBytes⟩ := hvalue.trim.headerValue hS
  obtain ⟨m', happend, hiter⟩ := append_of_room hS m name value hroom
  refine ⟨(name, value), m', Prod.ext hnStr hvBytes, hiter, fun lines flag => ?_⟩
  have hline : (renderHeader h).isEmpty = false := by
    rw [List.isEmpty_eq_false_iff]
    exact (isLine_renderHeader hname hvalue).ne_nil
  have hcolon : findColon (renderHeader h) = some h.1.length :=
    findElem_append hname.notMem_colon _
  have htake : trim ((renderHeader h).take h.1.length) = h.1 := by
    rw [renderHeader, List.take_left, hname.trim_eq]
  have hdrop : trim ((renderHeader h).drop (h.1.length + 1)) = trim h.2 := by
    rw [renderHeader, ← List.drop_drop, List.drop_left]
    exact strip_cons (by decide) _
  have hasks : (eqIgnoreAsciiCase h.1 "upgrade".toList &&
      eqIgnoreAsciiCase (trim h.2) "spdy/3.1".toList) = decide (AsksUpgrade h) := by
    rw [Bool.eq_iff_iff, Bool.and_eq_true, decide_eq_true_iff]
    rfl
  rw [parseHeaderLines, if_neg (by simp [hline]), hcolon]
  simp only [okOr, bind, Except.bind, htake, hdrop, hn, hv, happend, Except.toOption, hasks]

/-- All header lines, up to the blank line. -/
theorem parseHeaderLines_headers (hS : S.Documented) {headers : List (Str × Str)} :
    ∀ (m : HeaderMap X) (flag : Bool),
      (∀ h ∈ headers, IsToken h.1 ∧ IsVisible h.2 ∧ (asBytes h.1).length < 2 ^ 16) →
      m.iter.length + headers.length ≤ 2048 →
      ∃ ps m', ps.map (fun p => (HeaderName.asStr p.1, HeaderValue.asBytes p.2)) =
          headers.map entryOf ∧ m'.iter = m.iter ++ ps ∧
        parseHeaderLines S (headers.map renderHeader ++ [[], []]) m flag =
          .ok (m', flag || headers.any fun h => AsksUpgrade h) := by
  induction headers with
  | nil =>
      intro m flag _ _
      refine ⟨[], m, rfl, (List.append_nil _).symm, ?_⟩
      simp [parseHeaderLines]
  | cons h headers ih =>
      intro m flag hall hroom
      rw [List.length_cons] at hroom
      obtain ⟨hname, hvalue, hlen⟩ := hall h List.mem_cons_self
      obtain ⟨p, m₁, hp, hiter₁, hstep⟩ :=
        parseHeaderLines_header hS hname hvalue hlen m (by omega)
      have hroom₁ : m₁.iter.length + headers.length ≤ 2048 := by
        rw [hiter₁, List.length_append, List.length_singleton]
        omega
      obtain ⟨ps, m', hps, hiter, hrest⟩ :=
        ih m₁ _ (fun h' hh' => hall h' (List.mem_cons_of_mem _ hh')) hroom₁
      refine ⟨p :: ps, m', ?_, ?_, ?_⟩
      · rw [List.map_cons, List.map_cons, hp, hps]
      · rw [hiter, hiter₁, List.append_assoc, List.singleton_append]
      · rw [List.map_cons, List.cons_append, hstep, hrest, List.any_cons, Bool.or_assoc]

/-! ## Requests -/

/-- The text of a request is parsed to its parts if it asks for SPDY. -/
theorem parseHttpRequest_rendered (hS : S.Documented) {method path version : Str}
    {headers : List (Str × Str)} (hreq : IsRequest method path version headers)
    (hshort : ∀ h ∈ headers, (asBytes h.1).length < 2 ^ 16) (hfew : headers.length ≤ 2048) :
    ∃ m : HeaderMap X,
      m.iter.map (fun p => (p.1.asStr, p.2.asBytes)) = headers.map entryOf ∧
        parseHttpRequest S (renderRequest method path version headers) =
          if ∃ h ∈ headers, AsksUpgrade h then .ok { path, headers := m, method }
          else protocolError "missing or incorrect Upgrade: spdy/3.1 header" := by
  have hall : ∀ h ∈ headers, IsToken h.1 ∧ IsVisible h.2 ∧ (asBytes h.1).length < 2 ^ 16 :=
    fun h hh => ⟨(hreq.headers h hh).1, (hreq.headers h hh).2, hshort h hh⟩
  have hroom : (HeaderMap.new X).iter.length + headers.length ≤ 2048 := by
    show 0 + headers.length ≤ 2048
    omega
  obtain ⟨ps, m, hps, hiter, hlines⟩ :=
    parseHeaderLines_headers hS (HeaderMap.new X) false hall hroom
  have hparts : splitnSpace 3 (requestLine method path version) = [method, path, version] :=
    splitnSpace_requestLine (fun h => (hreq.method _ h).1 rfl) fun h => (hreq.path _ h).1 rfl
  refine ⟨m, by rw [hiter]; exact hps, ?_⟩
  rw [parseHttpRequest, renderRequest_eq_joinLines,
    splitCrlf_joinLines (isLine_of_isRequest hreq)]
  simp only [okOr, bind, Except.bind, List.cons_append, List.head?_cons, List.tail_cons, hparts,
    hlines, Bool.false_or]
  show (if (!headers.any fun h => decide (AsksUpgrade h)) = true then _ else _) = _
  by_cases hasks : ∃ h ∈ headers, AsksUpgrade h
  · have hany : (headers.any fun h => decide (AsksUpgrade h)) = true := by simpa using hasks
    rw [if_pos hasks, hany]
    rfl
  · have hany : (headers.any fun h => decide (AsksUpgrade h)) = false := by simpa using hasks
    rw [if_neg hasks, hany]
    rfl

/-- A request bounds the number of its headers and the length of each name. -/
theorem length_headers (headers : List (Str × Str)) :
    headers.length * 4 ≤ (asBytes (headers.flatMap fun h => renderHeader h ++ crlf)).length ∧
      ∀ h ∈ headers, (asBytes h.1).length ≤
        (asBytes (headers.flatMap fun h => renderHeader h ++ crlf)).length := by
  induction headers with
  | nil => exact ⟨Nat.le_refl _, fun h hh => absurd hh List.not_mem_nil⟩
  | cons h headers ih =>
      have hcut : renderHeader h ++ crlf = h.1 ++ ([':', ' '] ++ (h.2 ++ crlf)) := by
        simp [renderHeader]
      have hcolon : (asBytes [':', ' ']).length = 2 := by decide
      have hcrlf : (asBytes crlf).length = 2 := by decide
      rw [List.flatMap_cons, hcut]
      simp only [asBytes_append, List.length_append, List.length_cons, hcolon, hcrlf]
      refine ⟨by omega, fun h' hh' => ?_⟩
      rcases List.mem_cons.mp hh' with rfl | hh'
      · omega
      · have := ih.2 h' hh'
        omega

/-- **A rendered request is parsed exactly if some header asks for SPDY**, to its
method, its path and its headers, and what is behind it is left. -/
theorem parseUpgradeRequest_rendered (hS : S.Documented) {method path version : Str}
    {headers : List (Str × Str)} (hreq : IsRequest method path version headers)
    (hlen : (asBytes (renderRequest method path version headers)).length ≤ maxRequest)
    (rest : Bytes) (atEnd : IoErrorKind) :
    ((∃ request r, parseUpgradeRequest S
        ⟨asBytes (renderRequest method path version headers) ++ rest, atEnd⟩ = .ok request r) ↔
      ∃ h ∈ headers, AsksUpgrade h) ∧
    ∀ request r, parseUpgradeRequest S
        ⟨asBytes (renderRequest method path version headers) ++ rest, atEnd⟩ = .ok request r →
      request.method = method ∧ request.path = path ∧
        (∀ name : HeaderName X, (valuesOf name request.headers.iter).map HeaderValue.asBytes =
          valuesOf name.asStr (headers.map entryOf)) ∧
        r = ⟨rest, atEnd⟩ := by
  have hparts :
      (asBytes (headers.flatMap fun h => renderHeader h ++ crlf)).length ≤ maxRequest := by
    refine Nat.le_trans ?_ hlen
    simp only [renderRequest, asBytes_append, List.length_append]
    omega
  obtain ⟨hcount, hnames⟩ := length_headers headers
  have hlimit : maxRequest = 2048 * 4 ∧ maxRequest < 2 ^ 16 := by decide
  obtain ⟨m, hm, hparse⟩ := parseHttpRequest_rendered hS hreq
    (fun h hh => by have := hnames h hh; omega) (by omega)
  have hread : readHead atEnd [] 0 (asBytes (renderRequest method path version headers) ++ rest) =
      .ok (asBytes (renderRequest method path version headers)) ⟨rest, atEnd⟩ := by
    rw [renderRequest_eq_joinLines] at hlen ⊢
    exact readHead_joinLines (List.cons_ne_nil _ _) (isLine_of_isRequest hreq) hlen rest atEnd
  have hhead : parseHead S (asBytes (renderRequest method path version headers)) =
      parseHttpRequest S (renderRequest method path version headers) := by
    rw [parseHead, fromUtf8_asBytes]
    rfl
  by_cases hasks : ∃ h ∈ headers, AsksUpgrade h
  · have hok : parseUpgradeRequest S
        ⟨asBytes (renderRequest method path version headers) ++ rest, atEnd⟩ =
          .ok { path, headers := m, method } ⟨rest, atEnd⟩ := by
      rw [parseUpgradeRequest]
      simp only [hread, hhead, hparse, if_pos hasks]
    refine ⟨iff_of_true ⟨_, _, hok⟩ hasks, fun request r h => ?_⟩
    cases hok.symm.trans h
    refine ⟨rfl, rfl, fun name => ?_, rfl⟩
    rw [← valuesOf_map HeaderName.asStr_injective HeaderValue.asBytes, hm]
  · have herror : parseUpgradeRequest S
        ⟨asBytes (renderRequest method path version headers) ++ rest, atEnd⟩ =
          .error (.error (.protocol "missing or incorrect Upgrade: spdy/3.1 header"))
            ⟨rest, atEnd⟩ := by
      rw [parseUpgradeRequest]
      simp only [hread, hhead, hparse, if_neg hasks, protocolError]
    have hno : ¬ ∃ request r, parseUpgradeRequest S
        ⟨asBytes (renderRequest method path version headers) ++ rest, atEnd⟩ = .ok request r := by
      rintro ⟨request, r, h⟩
      cases herror.symm.trans h
    exact ⟨iff_of_false hno hasks, fun request r h => absurd ⟨request, r, h⟩ hno⟩

/-! ## One request -/

theorem FromStr.documented_reference : FromStr.reference.Documented where
  name hne hlen htoken := by
    rename_i b
    have hall : b.all isTokenByte = true := List.all_eq_true.mpr htoken
    show (referenceName b).isSome = true
    rw [referenceName, if_pos ⟨hne, hlen, hall⟩]
    rfl
  value hvisible := by
    refine List.all_eq_true.mpr fun b hb => ?_
    rcases hvisible b hb with ⟨hlow, hhigh⟩ | rfl
    · have hne : b.toNat ≠ 127 := by omega
      simp [isValueByte, hlow, hne]
    · decide
  room hnames hpairs := (hnames.trans hpairs).trans (by decide)

/-- Headers with a name twice, a colon in a value, and no value. -/
def someHeaders : List (Str × Str) :=
  [("Host".toList, "localhost:8080".toList), ("UPGRADE".toList, "websocket".toList),
    ("Upgrade".toList, " SPDY/3.1\t".toList), ("X-Empty".toList, [])]

/-- Both values of `upgrade` are there, in their order. -/
theorem parseUpgradeRequest_someHeaders :
    ∃ request r, parseUpgradeRequest FromStr.reference
        ⟨asBytes (renderRequest "GET".toList "/exec".toList "HTTP/1.1".toList someHeaders) ++
          [0x80], .unexpectedEof⟩ = .ok request r ∧
      request.method = "GET".toList ∧ request.path = "/exec".toList ∧
      (valuesOf ⟨asBytes "upgrade".toList, by decide⟩ request.headers.iter).map
          HeaderValue.asBytes = [asBytes "websocket".toList, asBytes "SPDY/3.1".toList] ∧
      r = ⟨[0x80], .unexpectedEof⟩ := by
  have hreq : IsRequest "GET".toList "/exec".toList "HTTP/1.1".toList someHeaders :=
    { method := by simp, path := by simp, version := by simp, headers := by decide +kernel }
  have hlen : (asBytes (renderRequest "GET".toList "/exec".toList "HTTP/1.1".toList
      someHeaders)).length ≤ maxRequest := by
    decide +kernel
  obtain ⟨hiff, hparts⟩ := parseUpgradeRequest_rendered FromStr.documented_reference hreq hlen
    [0x80] .unexpectedEof
  have hasks : ∃ h ∈ someHeaders, AsksUpgrade h := by decide +kernel
  obtain ⟨request, r, h⟩ := hiff.mpr hasks
  obtain ⟨hmethod, hpath, hvalues, hrest⟩ := hparts request r h
  refine ⟨request, r, h, hmethod, hpath, (hvalues _).trans ?_, hrest⟩
  decide +kernel

end SpdyStream.Upgrade
