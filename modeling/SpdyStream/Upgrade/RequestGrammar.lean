/-
  Upgrade/RequestGrammar.lean --- what is taken for a request, and what is not.

  `parse_upgrade_request` takes more than clients write: names with blanks around them,
  no blank behind the colon, an empty path, any text for a version, line ends that are no
  blank line.  `IsUpgrade` says which texts it takes, and it takes no others.  No bytes make
  it panic: a head that is read has too few lines to fill a `HeaderMap`.
-/
import SpdyStream.Upgrade.RequestRoundTrip

set_option autoImplicit false

namespace SpdyStream.Upgrade

open SpdyStream.Foundation SpdyStream.Framing

variable {X : Http} {S : FromStr X}

/-! ## Header lines -/

/-- The line of a header: what is before the first colon, and what is behind it. -/
def headerLine (header : Str × Str) : Str := header.1 ++ ':' :: header.2

/-- The header with its name trimmed. -/
def trimName (header : Str × Str) : Str × Str := (trim header.1, header.2)

/-- The header is taken. -/
structure Takes (S : FromStr X) (header : Str × Str) : Prop where
  colon : ':' ∉ header.1
  name : (X.headerName (asBytes (trim header.1))).isSome = true
  value : S.headerValue (asBytes (trim header.2)) = true

theorem headerLine_inj {h h' : Str × Str} (hcolon : ':' ∉ h.1) (hcolon' : ':' ∉ h'.1)
    (heq : headerLine h = headerLine h') : h = h' := by
  obtain ⟨hname, hvalue⟩ := append_sep_inj hcolon hcolon' heq
  exact Prod.ext hname hvalue

theorem headerLine_ne_nil (h : Str × Str) : headerLine h ≠ [] := by
  simp [headerLine]

/-- The lines begin with those of some headers, and an empty line or none comes next. -/
structure HoldsHeaders (S : FromStr X) (headers : List (Str × Str)) (lines : List Str) : Prop where
  taken : ∀ h ∈ headers, Takes S h
  front : ∃ rest, lines = headers.map headerLine ++ rest ∧
    ∀ line, rest.head? = some line → line = []

theorem HoldsHeaders.nil {lines : List Str} (h : ∀ line, lines.head? = some line → line = []) :
    HoldsHeaders S [] lines := ⟨by simp, lines, rfl, h⟩

theorem HoldsHeaders.cons {header : Str × Str} {headers : List (Str × Str)} {lines : List Str}
    (hheader : Takes S header) (h : HoldsHeaders S headers lines) :
    HoldsHeaders S (header :: headers) (headerLine header :: lines) := by
  obtain ⟨rest, hlines, hrest⟩ := h.front
  exact ⟨List.forall_mem_cons.mpr ⟨hheader, h.taken⟩, rest, by rw [hlines]; rfl, hrest⟩

/-- Lines that begin with an empty one hold no headers. -/
theorem HoldsHeaders.eq_nil {headers : List (Str × Str)} {lines : List Str}
    (h : HoldsHeaders S headers lines) (hempty : ∀ line, lines.head? = some line → line = []) :
    headers = [] := by
  obtain ⟨rest, hlines, -⟩ := h.front
  cases headers with
  | nil => rfl
  | cons header headers =>
      have hfirst := hempty (headerLine header) (by rw [hlines]; rfl)
      exact absurd hfirst (headerLine_ne_nil header)

/-- Other lines begin with the line of a header. -/
theorem HoldsHeaders.of_cons {headers : List (Str × Str)} {line : Str} {lines : List Str}
    (h : HoldsHeaders S headers (line :: lines)) (hne : line ≠ []) :
    ∃ header headers', headers = header :: headers' ∧ line = headerLine header ∧
      Takes S header ∧ HoldsHeaders S headers' lines := by
  obtain ⟨rest, hlines, hrest⟩ := h.front
  cases headers with
  | nil =>
      rw [List.map_nil, List.nil_append] at hlines
      exact absurd (hrest line (by rw [← hlines]; rfl)) hne
  | cons header headers =>
      obtain ⟨hline, hbehind⟩ := List.cons.inj hlines
      obtain ⟨hheader, hall⟩ := List.forall_mem_cons.mp h.taken
      exact ⟨header, headers, rfl, hline, hheader, hall, rest, hbehind, hrest⟩

/-- Lines hold the headers of one list only. -/
theorem HoldsHeaders.unique {lines : List Str} : ∀ {headers headers' : List (Str × Str)},
    HoldsHeaders S headers lines → HoldsHeaders S headers' lines → headers = headers' := by
  induction lines with
  | nil =>
      intro headers headers' h h'
      rw [h.eq_nil (by simp), h'.eq_nil (by simp)]
  | cons line lines ih =>
      intro headers headers' h h'
      by_cases hne : line = []
      · subst hne
        rw [h.eq_nil (by simp), h'.eq_nil (by simp)]
      · obtain ⟨header, hs, rfl, hline, hheader, hrest⟩ := h.of_cons hne
        obtain ⟨header', hs', rfl, hline', hheader', hrest'⟩ := h'.of_cons hne
        rw [headerLine_inj hheader.colon hheader'.colon (hline.symm.trans hline'), ih hrest hrest']

/-! ## The loop over the header lines -/

/-- The bytes of a pair. -/
def pairBytes (p : HeaderName X × HeaderValue X) : Bytes × Bytes := (p.1.asStr, p.2.asBytes)

/-- A line that is not empty is wrong, or that of a header, whose pair is put into the map. -/
theorem parseHeaderLines_line {line : Str} (hne : line ≠ []) (lines : List Str) (m : HeaderMap X)
    (flag : Bool) :
    ((∃ err, parseHeaderLines S (line :: lines) m flag = .error (.error err)) ∧
      ∀ h, line = headerLine h → ¬ Takes S h) ∨
    ∃ h p, line = headerLine h ∧ Takes S h ∧ pairBytes p = entryOf (trimName h) ∧
      parseHeaderLines S (line :: lines) m flag =
        (m.append p.1 p.2 >>= fun m' =>
          parseHeaderLines S lines m' (flag || decide (AsksUpgrade (trimName h)))) := by
  have hempty : ¬ line.isEmpty = true := by simpa using hne
  rw [parseHeaderLines, if_neg hempty]
  cases hcolon : findColon line with
  | none =>
      refine .inl ⟨⟨_, rfl⟩, fun h hline _ => findElem_eq_none.mp hcolon ?_⟩
      rw [hline]
      exact List.mem_append_right _ List.mem_cons_self
  | some i =>
      obtain ⟨name, value, rfl, hname, rfl⟩ := findElem_eq_some hcolon
      have htake : (name ++ ':' :: value).take name.length = name := List.take_left
      have hdrop : (name ++ ':' :: value).drop (name.length + 1) = value := by
        rw [← List.drop_drop, List.drop_left]
        rfl
      have hone : ∀ h : Str × Str, name ++ ':' :: value = headerLine h → Takes S h →
          h = (name, value) := fun h hline ht =>
        headerLine_inj ht.colon (show ':' ∉ (name, value).1 from hname) hline.symm
      simp only [okOr, bind, Except.bind, htake, hdrop]
      cases hn : HeaderName.fromBytes X (asBytes (trim name)) with
      | error e =>
          refine .inl ⟨⟨_, rfl⟩, fun h hline ht => ?_⟩
          cases hone h hline ht
          obtain ⟨n, hn'⟩ := fromBytes_ok_iff.mp ht.name
          cases hn.symm.trans hn'
      | ok n =>
          by_cases hv : S.headerValue (asBytes (trim value)) = true
          · refine .inr ⟨(name, value), (n, ⟨asBytes (trim value), S.accepted hv⟩), rfl,
              ⟨hname, fromBytes_ok_iff.mpr ⟨n, hn⟩, hv⟩, ?_, ?_⟩
            · exact Prod.ext (HeaderName.asStr_fromBytes hn) rfl
            · have hasks : (eqIgnoreAsciiCase (trim name) "upgrade".toList &&
                  eqIgnoreAsciiCase (trim value) "spdy/3.1".toList) =
                  decide (AsksUpgrade (trimName (name, value))) := by
                rw [Bool.eq_iff_iff, Bool.and_eq_true, decide_eq_true_iff]
                rfl
              simp only [FromStr.value, dif_pos hv, Except.toOption, hasks]
          · refine .inl ⟨?_, fun h hline ht => ?_⟩
            · simp only [FromStr.value, dif_neg hv, Except.toOption]
              exact ⟨_, rfl⟩
            · cases hone h hline ht
              exact hv ht.value

/-- The documented size of a map: it has room for a few thousand pairs. -/
def HoldsThousands (X : Http) : Prop :=
  ∀ {names pairs : Nat}, names ≤ pairs → pairs ≤ 4096 → X.size names pairs ≤ maxHeaderMapSize

/-- The loop fails, or takes the headers that the lines hold. -/
theorem parseHeaderLines_grammar (hroom : HoldsThousands X) (lines : List Str) :
    ∀ (m : HeaderMap X) (flag : Bool), m.iter.length + lines.length ≤ 4096 →
      ((∃ err, parseHeaderLines S lines m flag = .error (.error err)) ∧
        ∀ headers, ¬ HoldsHeaders S headers lines) ∨
      ∃ headers m', HoldsHeaders S headers lines ∧
        m'.iter.map pairBytes = m.iter.map pairBytes ++ headers.map (entryOf ∘ trimName) ∧
        parseHeaderLines S lines m flag =
          .ok (m', flag || headers.any fun h => AsksUpgrade (trimName h)) := by
  induction lines with
  | nil =>
      intro m flag _
      refine .inr ⟨[], m, .nil (by simp), (List.append_nil _).symm, ?_⟩
      simp [parseHeaderLines]
  | cons line lines ih =>
      intro m flag hfew
      rw [List.length_cons] at hfew
      by_cases hne : line = []
      · subst hne
        refine .inr ⟨[], m, .nil (by simp), (List.append_nil _).symm, ?_⟩
        simp [parseHeaderLines]
      · rcases parseHeaderLines_line hne lines m flag with
          ⟨herr, hnone⟩ | ⟨h, p, hline, ht, hp, heq⟩
        · refine .inl ⟨herr, fun headers hholds => ?_⟩
          obtain ⟨header, _, -, hline, hheader, -⟩ := hholds.of_cons hne
          exact hnone header hline hheader
        · have hfits : pairsSize X (m.iter ++ [p]) ≤ maxHeaderMapSize := by
            refine hroom (keyCount_le_length _) ?_
            rw [List.length_append, List.length_singleton]
            omega
          have happend : m.append p.1 p.2 = .ok ⟨m.iter ++ [p], hfits⟩ := dif_pos hfits
          rw [heq, happend]
          have hfew' : (m.iter ++ [p]).length + lines.length ≤ 4096 := by
            rw [List.length_append, List.length_singleton]
            omega
          rcases ih ⟨m.iter ++ [p], hfits⟩ (flag || decide (AsksUpgrade (trimName h))) hfew' with
            ⟨herr, hnone⟩ | ⟨headers, m', hholds, hpairs, hok⟩
          · refine .inl ⟨herr, fun headers hholds => ?_⟩
            obtain ⟨_, headers', -, -, -, hrest⟩ := hholds.of_cons hne
            exact hnone headers' hrest
          · refine .inr ⟨h :: headers, m', hline ▸ hholds.cons ht, ?_, ?_⟩
            · rw [hpairs, List.map_append, List.map_singleton, hp, List.append_assoc]
              rfl
            · rw [List.any_cons, ← Bool.or_assoc]
              exact hok

/-! ## Requests -/

/-- A text that is taken for a request. -/
structure IsUpgrade (S : FromStr X) (method path version : Str) (headers : List (Str × Str))
    (text : Str) : Prop where
  spaces : ' ' ∉ method ∧ ' ' ∉ path
  lines : ∃ lines, splitCrlf text = requestLine method path version :: lines ∧
    HoldsHeaders S headers lines
  asks : ∃ h ∈ headers, AsksUpgrade (trimName h)

/-- A text is one request at most. -/
theorem IsUpgrade.unique {method path version method' path' version' text : Str}
    {headers headers' : List (Str × Str)} (h : IsUpgrade S method path version headers text)
    (h' : IsUpgrade S method' path' version' headers' text) :
    method = method' ∧ path = path' ∧ headers = headers' := by
  obtain ⟨lines, hlines, hholds⟩ := h.lines
  obtain ⟨lines', hlines', hholds'⟩ := h'.lines
  obtain ⟨hline, rfl⟩ := List.cons.inj (hlines.symm.trans hlines')
  obtain ⟨rfl, hbehind⟩ := append_sep_inj h.spaces.1 h'.spaces.1 hline
  obtain ⟨rfl, -⟩ := append_sep_inj h.spaces.2 h'.spaces.2 hbehind
  exact ⟨rfl, rfl, hholds.unique hholds'⟩

/-- A line is a request line, or has fewer than three parts. -/
theorem splitnSpace_cases (line : Str) :
    (∃ method path version, ' ' ∉ method ∧ ' ' ∉ path ∧ line = requestLine method path version ∧
      splitnSpace 3 line = [method, path, version]) ∨
    (splitnSpace 3 line)[2]? = none ∧ ∀ method path version, ' ' ∉ method → ' ' ∉ path →
      line ≠ requestLine method path version := by
  have hthree : ∀ method path version, ' ' ∉ method → ' ' ∉ path →
      line = requestLine method path version → (splitnSpace 3 line)[2]? = some version := by
    rintro method path version hmethod hpath rfl
    rw [splitnSpace_requestLine hmethod hpath]
    rfl
  have hshort : (splitnSpace 3 line)[2]? = none → (splitnSpace 3 line)[2]? = none ∧
      ∀ method path version, ' ' ∉ method → ' ' ∉ path →
        line ≠ requestLine method path version := by
    refine fun hnone => ⟨hnone, fun method path version hmethod hpath hline => ?_⟩
    cases hnone.symm.trans (hthree method path version hmethod hpath hline)
  cases hfirst : findElem ' ' line with
  | none =>
      refine .inr (hshort ?_)
      rw [splitnSpace, splitN, hfirst]
      rfl
  | some i =>
      obtain ⟨method, behind, rfl, hmethod, -⟩ := findElem_eq_some hfirst
      cases hsecond : findElem ' ' behind with
      | none =>
          refine .inr (hshort ?_)
          rw [splitnSpace, splitN_piece hmethod, splitN, hsecond]
          rfl
      | some j =>
          obtain ⟨path, version, rfl, hpath, -⟩ := findElem_eq_some hsecond
          exact .inl ⟨method, path, version, hmethod, hpath, rfl,
            splitnSpace_requestLine hmethod hpath⟩

/-- Parsing fails, or the text is a request. -/
theorem parseHttpRequest_grammar (hroom : HoldsThousands X) {text : Str}
    (hshort : text.length ≤ maxRequest + 1) :
    ((∃ err, parseHttpRequest S text = .error (.error err)) ∧
      ∀ method path version headers, ¬ IsUpgrade S method path version headers text) ∨
    ∃ method path version headers m, IsUpgrade S method path version headers text ∧
      m.iter.map pairBytes = headers.map (entryOf ∘ trimName) ∧
      parseHttpRequest S text = .ok { path, headers := m, method } := by
  have hpieces : 2 * (splitCrlf text).length ≤ text.length + 2 := length_splitPair _ _ text
  have hlimit : maxRequest = 2 * 4096 := rfl
  rw [parseHttpRequest]
  cases hlines : splitCrlf text with
  | nil =>
      refine .inl ⟨⟨_, rfl⟩, fun method path version headers h => ?_⟩
      obtain ⟨lines, hcut, -⟩ := h.lines
      cases hlines.symm.trans hcut
  | cons line lines =>
      rw [hlines, List.length_cons] at hpieces
      have hfew : (HeaderMap.new X).iter.length + lines.length ≤ 4096 := by
        show 0 + lines.length ≤ 4096
        omega
      rcases splitnSpace_cases line with ⟨method, path, version, hmethod, hpath, rfl, hparts⟩ |
        ⟨hnone, hother⟩
      · simp only [okOr, bind, Except.bind, List.head?_cons, List.tail_cons, hparts,
          List.getElem?_cons_zero, List.getElem?_cons_succ]
        rcases parseHeaderLines_grammar (S := S) hroom lines (HeaderMap.new X) false hfew with
          ⟨⟨err, herr⟩, hno⟩ | ⟨headers, m, hholds, hpairs, hok⟩
        · rw [herr]
          refine .inl ⟨⟨err, rfl⟩, fun method' path' version' headers h => ?_⟩
          obtain ⟨lines', hcut, hholds⟩ := h.lines
          obtain ⟨-, rfl⟩ := List.cons.inj (hlines.symm.trans hcut)
          exact hno headers hholds
        · rw [hok]
          by_cases hasks : ∃ h ∈ headers, AsksUpgrade (trimName h)
          · have hany : (headers.any fun h => decide (AsksUpgrade (trimName h))) = true := by
              simpa using hasks
            refine .inr ⟨method, path, version, headers, m,
              ⟨⟨hmethod, hpath⟩, ⟨lines, hlines, hholds⟩, hasks⟩, hpairs, ?_⟩
            rw [hany]
            rfl
          · have hany : (headers.any fun h => decide (AsksUpgrade (trimName h))) = false := by
              simpa using hasks
            rw [hany]
            refine .inl ⟨⟨_, rfl⟩, fun method' path' version' headers' h => hasks ?_⟩
            obtain ⟨lines', hcut, hholds'⟩ := h.lines
            obtain ⟨-, rfl⟩ := List.cons.inj (hlines.symm.trans hcut)
            rw [hholds.unique hholds']
            exact h.asks
      · refine .inl ⟨?_, fun method path version headers h => ?_⟩
        · simp only [okOr, bind, Except.bind, List.head?_cons, hnone]
          cases (splitnSpace 3 line)[0]? with
          | none => exact ⟨_, rfl⟩
          | some method =>
              cases (splitnSpace 3 line)[1]? with
              | none => exact ⟨_, rfl⟩
              | some path => exact ⟨_, rfl⟩
        · obtain ⟨lines', hcut, -⟩ := h.lines
          obtain ⟨hline, -⟩ := List.cons.inj (hlines.symm.trans hcut)
          exact hother method path version h.spaces.1 h.spaces.2 hline

/-! ## Bytes -/

/-- The bytes that are decoded are those of the text. -/
theorem asBytes_of_fromUtf8 {bs : Bytes} {text : Str} (h : fromUtf8 bs = some text) :
    asBytes text = bs := by
  obtain ⟨chars, hdecode, rfl⟩ := Option.map_eq_some_iff.mp h
  have hsome : (ByteArray.utf8Decode? ⟨bs.toArray⟩).isSome = true := by
    rw [hdecode]
    rfl
  obtain ⟨text, hbytes⟩ := ByteArray.isSome_utf8Decode?_iff.mp hsome
  rw [hbytes, List.utf8Decode?_utf8Encode] at hdecode
  cases hdecode
  have hdata := congrArg (fun b : ByteArray => b.data.toList) hbytes
  rw [List.utf8Encode, List.data_toByteArray] at hdata
  exact hdata.symm

theorem length_le_asBytes (s : Str) : s.length ≤ (asBytes s).length := by
  induction s with
  | nil => exact Nat.le_refl 0
  | cons c s ih =>
      have hone : 0 < (String.utf8EncodeChar c).length :=
        List.length_pos_of_ne_nil String.utf8EncodeChar_ne_nil
      have hcut : asBytes (c :: s) = String.utf8EncodeChar c ++ asBytes s := List.flatMap_cons
      rw [hcut, List.length_cons, List.length_append]
      omega

/-- Reading the head does not panic. -/
theorem readHead_ne_panic (atEnd : IoErrorKind) (input : Bytes) :
    ∀ (buf : Bytes) (n : Nat) (r : Reader), readHead atEnd buf n input ≠ .error .panic r := by
  induction input with
  | nil =>
      intro buf n r
      simp [readHead]
  | cons b input ih =>
      intro buf n r
      simp only [readHead]
      generalize (if isLineEnd b = true then n + 1 else 0) = k
      split
      · simp
      · split
        · simp
        · exact ih _ _ r

/-- The stream begins with a request, up to the first four line ends in a row, and goes on
with `rest`. -/
structure BeginsRequest (S : FromStr X) (stream : Reader) (method path : Str)
    (headers : List (Str × Str)) (rest : Reader) : Prop where
  atEnd : rest.atEnd = stream.atEnd
  text : ∃ text version, stream.bytes = asBytes text ++ rest.bytes ∧
    FirstRun isLineEnd 4 (asBytes text) ∧ (asBytes text).length ≤ maxRequest + 1 ∧
    IsUpgrade S method path version headers text

/-- It is one request at most. -/
theorem BeginsRequest.unique {stream rest : Reader} {method path method' path' : Str}
    {headers headers' : List (Str × Str)} (h : BeginsRequest S stream method path headers rest)
    (h' : BeginsRequest S stream method' path' headers' rest) :
    method = method' ∧ path = path' ∧ headers = headers' := by
  obtain ⟨text, version, hinput, -, -, hrequest⟩ := h.text
  obtain ⟨text', version', hinput', -, -, hrequest'⟩ := h'.text
  have hbytes : asBytes text = asBytes text' :=
    List.append_cancel_right (hinput.symm.trans hinput')
  have htext := fromUtf8_asBytes text
  rw [hbytes, fromUtf8_asBytes] at htext
  cases htext
  exact hrequest.unique hrequest'

theorem length_text {text : Str} (h : (asBytes text).length ≤ maxRequest + 1) :
    text.length ≤ maxRequest + 1 := (length_le_asBytes text).trans h

/-- What is parsed is what the stream begins with. -/
theorem begins_of_parse (hroom : HoldsThousands X) {stream r : Reader} {request : UpgradeRequest X}
    (h : parseUpgradeRequest S stream = .ok request r) :
    ∃ headers, BeginsRequest S stream request.method request.path headers r ∧
      request.headers.iter.map pairBytes = headers.map (entryOf ∘ trimName) := by
  obtain ⟨head, hinput, hfirst, hlen, hparse⟩ := head_of_parseUpgradeRequest h
  have hatEnd : r.atEnd = stream.atEnd := by
    rw [parseUpgradeRequest] at h
    split at h
    · cases h
    · rename_i _ r' hread
      split at h
      · cases h
      · cases h
        exact (readHead_ok_iff.mp hread).1
  cases hdecode : fromUtf8 head with
  | none =>
      rw [parseHead, hdecode] at hparse
      cases hparse
  | some text =>
      obtain rfl := asBytes_of_fromUtf8 hdecode
      rw [parseHead, hdecode] at hparse
      rcases parseHttpRequest_grammar (S := S) hroom (length_text hlen) with
        ⟨⟨err, herr⟩, -⟩ | ⟨method, path, version, headers, m, hrequest, hpairs, hok⟩
      · cases hparse.symm.trans herr
      · cases hparse.symm.trans hok
        exact ⟨headers, ⟨hatEnd, text, version, hinput, hfirst, hlen, hrequest⟩, hpairs⟩

/-- What the stream begins with is parsed. -/
theorem parse_of_begins (hroom : HoldsThousands X) {stream r : Reader} {method path : Str}
    {headers : List (Str × Str)} (h : BeginsRequest S stream method path headers r) :
    ∃ request, parseUpgradeRequest S stream = .ok request r := by
  obtain ⟨text, version, hinput, hfirst, hlen, hrequest⟩ := h.text
  have hread : readHead stream.atEnd [] 0 stream.bytes = .ok (asBytes text) r :=
    readHead_ok_iff.mpr ⟨h.atEnd, hinput, hfirst, hlen⟩
  rcases parseHttpRequest_grammar (S := S) hroom (length_text hlen) with
    ⟨-, hnone⟩ | ⟨method', path', _, headers', m, hrequest', hpairs', hok⟩
  · exact absurd hrequest (hnone _ _ _ _)
  · have hparse : parseHead S (asBytes text) =
        .ok { path := path', headers := m, method := method' } := by
      rw [parseHead, fromUtf8_asBytes]
      exact hok
    refine ⟨{ path := path', headers := m, method := method' }, ?_⟩
    rw [parseUpgradeRequest]
    simp only [hread, hparse]

theorem parse_ne_panic (hroom : HoldsThousands X) (S : FromStr X) (stream r : Reader) :
    parseUpgradeRequest S stream ≠ .error .panic r := by
  rw [parseUpgradeRequest]
  cases hread : readHead stream.atEnd [] 0 stream.bytes with
  | error e r' =>
      intro heq
      cases heq
      exact readHead_ne_panic _ _ _ _ _ hread
  | ok head r' =>
      have hlen := (readHead_ok_iff.mp hread).2.2.2
      simp only [parseHead]
      cases hdecode : fromUtf8 head with
      | none => simp [okOr, protocolError, bind, Except.bind]
      | some text =>
          rw [← asBytes_of_fromUtf8 hdecode] at hlen
          simp only [okOr, bind, Except.bind]
          rcases parseHttpRequest_grammar (S := S) hroom (length_text hlen) with
            ⟨⟨err, herr⟩, -⟩ | ⟨_, _, _, _, _, -, -, hok⟩
          · simp [herr]
          · simp [hok]

/-- What `parse_upgrade_request` makes of a stream. -/
structure UpgradeParsed (S : FromStr X) (stream : Reader) : Prop where
  /-- it returns, whatever the peer sends -/
  noPanic : ∀ r, parseUpgradeRequest S stream ≠ .error .panic r
  /-- it takes a request, and nothing else -/
  accepted : ∀ r, (∃ request, parseUpgradeRequest S stream = .ok request r) ↔
    ∃ method path headers, BeginsRequest S stream method path headers r
  /-- of which it returns the method, the path, and for each name the trimmed values in
  their order -/
  parts : ∀ request r method path headers, parseUpgradeRequest S stream = .ok request r →
    BeginsRequest S stream method path headers r →
    request.method = method ∧ request.path = path ∧
      ∀ name : HeaderName X, (valuesOf name request.headers.iter).map HeaderValue.asBytes =
        valuesOf name.asStr (headers.map (entryOf ∘ trimName))

/-- **The upgrade is parsed as its grammar says**, on every stream of bytes. -/
theorem parseUpgradeRequest_grammar (hroom : HoldsThousands X) (S : FromStr X) (stream : Reader) :
    UpgradeParsed S stream := by
  refine ⟨parse_ne_panic hroom S stream, fun r => ?_, ?_⟩
  · constructor
    · rintro ⟨request, h⟩
      obtain ⟨headers, hbegins, -⟩ := begins_of_parse hroom h
      exact ⟨_, _, headers, hbegins⟩
    · rintro ⟨method, path, headers, hbegins⟩
      exact parse_of_begins hroom hbegins
  · intro request r method path headers h hbegins
    obtain ⟨headers', hbegins', hpairs⟩ := begins_of_parse hroom h
    obtain ⟨hmethod, hpath, rfl⟩ := hbegins'.unique hbegins
    refine ⟨hmethod, hpath, fun name => ?_⟩
    rw [← valuesOf_map HeaderName.asStr_injective HeaderValue.asBytes, ← hpairs]
    rfl

/-- A request that no client writes: no path, blanks around a name, and line ends that belong
to a value. -/
def looseRequest : Bytes := asBytes "GET  \r\n upgrade\t:spdy/3.1\n\n\r\n!".toList

theorem parseUpgradeRequest_grammar_loose :
    (∃ request, parseUpgradeRequest FromStr.reference ⟨looseRequest, .unexpectedEof⟩ =
      .ok request ⟨[0x21], .unexpectedEof⟩) ∧
    UpgradeParsed FromStr.reference ⟨looseRequest, .unexpectedEof⟩ := by
  have hroom : HoldsThousands Http.reference := fun hnames hpairs =>
    (hnames.trans hpairs).trans (by decide)
  have hleft : leftOver (parseUpgradeRequest FromStr.reference ⟨looseRequest, .unexpectedEof⟩) =
      some ⟨[0x21], .unexpectedEof⟩ := by
    decide +kernel
  exact ⟨leftOver_eq_some hleft, parseUpgradeRequest_grammar hroom _ _⟩

end SpdyStream.Upgrade
