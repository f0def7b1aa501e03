/-
  Framing/WordSize.lean --- the size computations of `parse_settings` and
  `parse_header_block` on targets with 32-bit and with 64-bit `usize`.

  Counts and lengths are 32-bit words of the peer, and the length checks add and
  multiply them without a look at the width of `usize`.  With 64 bits no
  computation can wrap.  With 32 bits a check may be passed by wrapping; the
  results say exactly which payloads and blocks do that.
-/
import SpdyStream.Framing.ReadLoop

set_option autoImplicit false

namespace SpdyStream.Framing

open SpdyStream.Foundation

variable {X : Http} {width : Nat}

/-! ## SETTINGS -/

/-- The exact results of the computations of `parse_settings`, each on the operands it
has: `count * 8` and `4 + ..` in front of the check, `i * 8` and `4 + ..` in the rounds
of the loop. -/
def settingsSizes (width : Nat) (payload : Bytes) : List Nat :=
  match beWord payload 0 with
  | .error _ => []
  | .ok count =>
      let size := usizeMul width count.toNat 8
      count.toNat * 8 :: (4 + size) ::
        if payload.length < usizeAdd width 4 size then []
        else (List.range count.toNat).flatMap fun i => [i * 8, 4 + usizeMul width i 8]

/-- The capacity that is requested for the settings, if it comes to that. -/
def settingsCapacity (width : Nat) (payload : Bytes) : Option Nat :=
  match beWord payload 0 with
  | .error _ => none
  | .ok count =>
      if payload.length < usizeAdd width 4 (usizeMul width count.toNat 8) then none
      else some count.toNat

/-- `parse_settings` is right about the size of a payload: nothing wraps, it is rejected
as truncated exactly when it is, and neither the capacity nor a read is beyond it. -/
structure SettingsSized (X : Http) (width : Nat) (flags : UInt8) (payload : Bytes) : Prop where
  fits : ∀ n ∈ settingsSizes width payload, n < 2 ^ width
  rejects : parseSettings X width flags payload = protocolError "Settings payload truncated" ↔
    ∃ count, beWord payload 0 = .ok count ∧ payload.length < 4 + count.toNat * 8
  capacity : ∀ n, settingsCapacity width payload = some n → 4 + n * 8 ≤ payload.length
  reads : parseSettings X width flags payload ≠ .error .panic

theorem beWord_short {payload : Bytes} (h : payload.length < 4) :
    beWord payload 0 = .error .panic := by
  rcases short_cases h with rfl | ⟨a, rfl⟩ | ⟨a, b, rfl⟩ | ⟨a, b, c, rfl⟩
  · rfl
  · rfl
  · rfl
  · rfl

/-- What `parse_settings` does with a count that it can compute with. -/
theorem parseSettings_of_fits (flags : UInt8) {payload : Bytes} (hlen : payload.length < 2 ^ width)
    {count : UInt32} (hcount : beWord payload 0 = .ok count)
    (hfits : 4 + count.toNat * 8 < 2 ^ width) :
    (payload.length < 4 + count.toNat * 8 ∧
      parseSettings X width flags payload = protocolError "Settings payload truncated") ∨
    (4 + count.toNat * 8 ≤ payload.length ∧
      ∃ settings, parseSettings X width flags payload = .ok (.settings { settings, flags })) := by
  have hlong : ¬ payload.length < 4 := fun hshort => by
    rw [beWord_short hshort] at hcount
    cases hcount
  have hadd : usizeAdd width 4 (usizeMul width count.toNat 8) = 4 + count.toNat * 8 := by
    rw [usizeMul_of_lt (by omega), usizeAdd_of_lt hfits]
  rw [parseSettings, if_neg hlong, hcount]
  simp only [bind, Except.bind, hadd]
  by_cases htrunc : payload.length < 4 + count.toNat * 8
  · exact .inl ⟨htrunc, if_pos htrunc⟩
  · obtain ⟨settings, hsettings⟩ := settingsLoop_in_bounds hlen count.toNat 0 (by omega)
    refine .inr ⟨Nat.not_lt.mp htrunc, settings, ?_⟩
    rw [if_neg htrunc, hsettings]
    rfl

/-- `parse_settings` is right about a payload if and only if its count, taken as eight
bytes each, can be computed with. -/
theorem settingsSized_iff (flags : UInt8) {payload : Bytes} (hlen : payload.length < 2 ^ width) :
    SettingsSized X width flags payload ↔
      ∀ count, beWord payload 0 = .ok count → 4 + count.toNat * 8 < 2 ^ width := by
  constructor
  · intro h count hcount
    have hfits := h.fits
    simp only [settingsSizes, hcount] at hfits
    have hmul := hfits (count.toNat * 8) (by simp)
    have hadd := hfits (4 + usizeMul width count.toNat 8) (by simp)
    rwa [usizeMul_of_lt hmul] at hadd
  · intro hcond
    cases hcount : beWord payload 0 with
    | error e =>
        have hshort : payload.length < 4 := by
          by_contra hlong
          obtain ⟨x, hx⟩ := beWord_in_bounds payload 0 (by omega)
          cases hx.symm.trans hcount
        have hparse : parseSettings X width flags payload = protocolError "Settings too short" :=
          if_pos hshort
        refine ⟨?_, ?_, ?_, ?_⟩
        · simp [settingsSizes, hcount]
        · rw [hparse]
          simp [protocolError, hcount]
        · simp [settingsCapacity, hcount]
        · rw [hparse]
          simp [protocolError]
    | ok count =>
        have hfits := hcond count hcount
        have hmul : usizeMul width count.toNat 8 = count.toNat * 8 := usizeMul_of_lt (by omega)
        have hadd : usizeAdd width 4 (count.toNat * 8) = 4 + count.toNat * 8 := usizeAdd_of_lt hfits
        refine ⟨fun n hn => ?_, ?_, fun n hn => ?_, ?_⟩
        · simp only [settingsSizes, hcount, hmul, List.mem_cons] at hn
          rcases hn with rfl | rfl | hn
          · omega
          · exact hfits
          · split at hn
            · cases hn
            · obtain ⟨i, hi, hn⟩ := List.mem_flatMap.mp hn
              have hi := List.mem_range.mp hi
              rw [usizeMul_of_lt (by omega)] at hn
              simp only [List.mem_cons, List.not_mem_nil, or_false] at hn
              omega
        · rcases parseSettings_of_fits (X := X) flags hlen hcount hfits with ⟨htrunc, hparse⟩ |
            ⟨hheld, settings, hparse⟩
          · simp [hparse, hcount, htrunc]
          · rw [hparse]
            simp [protocolError, hcount, hheld]
        · simp only [settingsCapacity, hcount, hmul, hadd] at hn
          split at hn
          · cases hn
          · cases hn
            omega
        · rcases parseSettings_of_fits (X := X) flags hlen hcount hfits with ⟨htrunc, hparse⟩ |
            ⟨hheld, settings, hparse⟩
          · rw [hparse]
            simp [protocolError]
          · rw [hparse]
            simp

/-! ## Header blocks -/

/-- The exact results of the computations of one round at `pos`, each on the operands it
has: `pos + 4` and `pos + name_len`, `pos + 4` and `pos + val_len`. -/
def entrySizes (width : Nat) (raw : Bytes) (pos : Nat) : List Nat :=
  (pos + 4) :: match lengthAt width "header name length truncated" raw pos with
    | .error _ => []
    | .ok (nameLen, pos) =>
        (pos + nameLen.toNat) :: match bytesAt width "header name truncated" nameLen raw pos with
          | .error _ => []
          | .ok (_, pos) =>
              (pos + 4) :: match lengthAt width "header value length truncated" raw pos with
                | .error _ => []
                | .ok (valLen, pos) => [pos + valLen.toNat]

/-- The loop of `parse_header_block` comes to `pos` with `n` entries to read. -/
inductive LoopAt (X : Http) (width : Nat) (raw : Bytes) : Nat → Nat → HeaderMap X → Prop where
  | first {count : UInt32} (long : 4 ≤ raw.length) (word : beWord raw 0 = .ok count) :
      LoopAt X width raw count.toNat 4 (HeaderMap.new X)
  | next {n pos pos' : Nat} {map map' : HeaderMap X} {nameBytes valBytes : Bytes}
      {name : HeaderName X} (before : LoopAt X width raw (n + 1) pos map)
      (entry : headerEntry width raw pos = .ok ((nameBytes, valBytes), pos'))
      (accepted : HeaderName.fromBytes X nameBytes = .ok name)
      (appended : appendParts map name (valBytes.splitOn 0) = .ok map') :
      LoopAt X width raw n pos' map'

/-- What `parse_header_block` should make of a block: what the grammar finds in it. -/
def exactHeaderBlock (X : Http) (raw : Bytes) : Except Fault (HeaderMap X) :=
  match takeLength "header block too short" raw with
  | .error e => .error (.error e)
  | .ok (count, body) =>
      (appendScan (HeaderMap.new X) (scan X count.toNat body)).map Prod.fst

/-- `parse_header_block` is right about the size of a block: nothing wraps, and it
rejects what is truncated and slices what is not, as the grammar has it. -/
structure HeaderBlockSized (X : Http) (width : Nat) (raw : Bytes) : Prop where
  fits : ∀ n pos map, LoopAt X width raw (n + 1) pos map →
    ∀ size ∈ entrySizes width raw pos, size < 2 ^ width
  exact : parseHeaderBlock X width raw = exactHeaderBlock X raw

/-- Where the name and the value of the entry at the front of `bs` end, as far as their
lengths can be read; `total` is the length of the whole block. -/
def announcedEnds (total : Nat) (bs : Bytes) : List Nat :=
  match takeLength "header name length truncated" bs with
  | .error _ => []
  | .ok (nameLen, bs) =>
      (total - bs.length + nameLen.toNat) ::
        match takeBytes "header name truncated" nameLen bs with
        | .error _ => []
        | .ok (_, bs) =>
            match takeLength "header value length truncated" bs with
            | .error _ => []
            | .ok (valLen, bs) => [total - bs.length + valLen.toNat]

/-- The grammar, reading entry after entry, comes to `bs` with `n` entries to read. -/
inductive ReadsTo (X : Http) (raw : Bytes) : Nat → Bytes → HeaderMap X → Prop where
  | first {count : UInt32} {body : Bytes}
      (word : takeLength "header block too short" raw = .ok (count, body)) :
      ReadsTo X raw count.toNat body (HeaderMap.new X)
  | next {n : Nat} {bs rest : Bytes} {map map' : HeaderMap X} {nameBytes valBytes : Bytes}
      {name : HeaderName X} (before : ReadsTo X raw (n + 1) bs map)
      (entry : takeEntry bs = .ok ((nameBytes, valBytes), rest))
      (accepted : HeaderName.fromBytes X nameBytes = .ok name)
      (appended : appendParts map name (valBytes.splitOn 0) = .ok map') :
      ReadsTo X raw n rest map'

/-- Every name and value that the entries of a block announce, as far as they are read,
ends below `2^width`. -/
def LengthsFit (X : Http) (width : Nat) (raw : Bytes) : Prop :=
  ∀ n bs map, ReadsTo X raw (n + 1) bs map → ∀ e ∈ announcedEnds raw.length bs, e < 2 ^ width

variable {raw : Bytes}

/-- If the announced ends of an entry fit, or the sizes that are computed for it do, then
both do, and the entry is read as the grammar reads it. -/
theorem entry_exact (hroom : raw.length + 4 < 2 ^ width) {bs : Bytes} (hsuf : bs <:+ raw)
    (hfit : (∀ e ∈ announcedEnds raw.length bs, e < 2 ^ width) ∨
      ∀ size ∈ entrySizes width raw (raw.length - bs.length), size < 2 ^ width) :
    (∀ e ∈ announcedEnds raw.length bs, e < 2 ^ width) ∧
      (∀ size ∈ entrySizes width raw (raw.length - bs.length), size < 2 ^ width) ∧
      headerEntry width raw (raw.length - bs.length) = atPosition raw (takeEntry bs) := by
  have hle : ∀ rest : Bytes, raw.length - rest.length ≤ raw.length := fun rest => Nat.sub_le _ _
  have hlength : ∀ (message : String) {rest : Bytes}, rest <:+ raw →
      lengthAt width message raw (raw.length - rest.length) =
        atPosition raw (takeLength message rest) := fun message rest hrest => by
    have heq : lengthAt width message raw (raw.length - rest.length) = _ :=
      lengthAt_eq (hle rest) (by omega) message
    rwa [drop_of_suffix hrest] at heq
  have hbytes : ∀ (message : String) {rest : Bytes} {len : UInt32}, rest <:+ raw →
      raw.length - rest.length + len.toNat < 2 ^ width →
      bytesAt width message len raw (raw.length - rest.length) =
        atPosition raw (takeBytes message len rest) := fun message rest len hrest hlen => by
    have heq : bytesAt width message len raw (raw.length - rest.length) = _ :=
      bytesAt_eq (hle rest) hlen message
    rwa [drop_of_suffix hrest] at heq
  have hpos : ∀ rest : Bytes, raw.length - rest.length + 4 < 2 ^ width := fun rest => by omega
  have h₁ := hlength "header name length truncated" hsuf
  cases t₁ : takeLength "header name length truncated" bs with
  | error e =>
      rw [t₁] at h₁
      simp [announcedEnds, entrySizes, headerEntry, takeEntry, t₁, h₁, atPosition, hpos, bind,
        Except.bind]
  | ok r =>
      obtain ⟨nameLen, bs₁⟩ := r
      have hsuf₁ := (takeLength_suffix t₁).trans hsuf
      rw [t₁, atPosition] at h₁
      have hname : raw.length - bs₁.length + nameLen.toNat < 2 ^ width := by
        rcases hfit with hends | hsizes
        · exact hends _ (by simp [announcedEnds, t₁])
        · exact hsizes _ (by simp [entrySizes, h₁])
      have h₂ := hbytes "header name truncated" hsuf₁ hname
      cases t₂ : takeBytes "header name truncated" nameLen bs₁ with
      | error e =>
          rw [t₂] at h₂
          simp [announcedEnds, entrySizes, headerEntry, takeEntry, t₁, t₂, h₁, h₂, atPosition, hpos,
            hname, bind, Except.bind]
      | ok r =>
          obtain ⟨nameBytes, bs₂⟩ := r
          have hsuf₂ := (takeBytes_suffix t₂).trans hsuf₁
          rw [t₂, atPosition] at h₂
          have h₃ := hlength "header value length truncated" hsuf₂
          cases t₃ : takeLength "header value length truncated" bs₂ with
          | error e =>
              rw [t₃] at h₃
              simp [announcedEnds, entrySizes, headerEntry, takeEntry, t₁, t₂, t₃, h₁, h₂, h₃,
                atPosition, hpos, hname, bind, Except.bind]
          | ok r =>
              obtain ⟨valLen, bs₃⟩ := r
              have hsuf₃ := (takeLength_suffix t₃).trans hsuf₂
              rw [t₃, atPosition] at h₃
              have hval : raw.length - bs₃.length + valLen.toNat < 2 ^ width := by
                rcases hfit with hends | hsizes
                · exact hends _ (by simp [announcedEnds, t₁, t₂, t₃])
                · exact hsizes _ (by simp [entrySizes, h₁, h₂, h₃])
              have h₄ := hbytes "header value truncated" hsuf₃ hval
              refine ⟨?_, ?_, ?_⟩
              · simp [announcedEnds, t₁, t₂, t₃, hname, hval]
              · simp [entrySizes, h₁, h₂, h₃, hpos, hname, hval]
              · simp only [headerEntry, takeEntry, t₁, t₂, t₃, h₁, h₂, h₃, h₄, bind, Except.bind]
                cases takeBytes "header value truncated" valLen bs₃ with
                | error e => rfl
                | ok r => rfl

/-- The first word of a block, for the parser and for the grammar. -/
theorem takeLength_first {message : String} {raw body : Bytes} {count : UInt32}
    (h : takeLength message raw = .ok (count, body)) :
    4 ≤ raw.length ∧ beWord raw 0 = .ok count ∧ body = raw.drop 4 := by
  by_cases hlen : raw.length < 4
  · rw [takeLength_eq_error hlen] at h
    cases h
  · obtain ⟨a, b, c, d, rest, rfl⟩ := exists_four _ (Nat.not_lt.mp hlen)
    obtain ⟨rfl, rfl⟩ := Prod.mk.inj (Except.ok.inj h)
    exact ⟨Nat.not_lt.mp hlen, beWord_eq rest List.drop_zero, rfl⟩

theorem takeLength_of_first (message : String) {raw : Bytes} {count : UInt32}
    (hlong : 4 ≤ raw.length) (hword : beWord raw 0 = .ok count) :
    takeLength message raw = .ok (count, raw.drop 4) := by
  obtain ⟨a, b, c, d, rest, rfl⟩ := exists_four _ hlong
  rw [beWord_eq rest List.drop_zero] at hword
  cases hword
  rfl

/-- Where nothing wraps, the parser comes wherever the grammar comes. -/
theorem loopAt_of_readsTo (hroom : raw.length + 4 < 2 ^ width)
    (hfits : ∀ n pos map, LoopAt X width raw (n + 1) pos map →
      ∀ size ∈ entrySizes width raw pos, size < 2 ^ width) {n : Nat} {bs : Bytes}
    {map : HeaderMap X} (h : ReadsTo X raw n bs map) :
    bs <:+ raw ∧ LoopAt X width raw n (raw.length - bs.length) map := by
  induction h with
  | first word =>
      obtain ⟨hlong, hword, rfl⟩ := takeLength_first word
      refine ⟨List.drop_suffix _ _, ?_⟩
      rw [List.length_drop, Nat.sub_sub_self hlong]
      exact .first hlong hword
  | next before entry accepted appended ih =>
      obtain ⟨hsuf, hat⟩ := ih
      obtain ⟨-, -, hentry⟩ := entry_exact hroom hsuf (.inr (hfits _ _ _ hat))
      rw [entry] at hentry
      exact ⟨(takeEntry_suffix entry).trans hsuf, .next hat hentry accepted appended⟩

/-- Where every announced end fits, the grammar comes wherever the parser comes. -/
theorem readsTo_of_loopAt (hroom : raw.length + 4 < 2 ^ width) (hfit : LengthsFit X width raw)
    {n pos : Nat} {map : HeaderMap X} (h : LoopAt X width raw n pos map) :
    ∃ bs, bs <:+ raw ∧ pos = raw.length - bs.length ∧ ReadsTo X raw n bs map := by
  induction h with
  | first long word =>
      refine ⟨raw.drop 4, List.drop_suffix _ _, ?_, .first (takeLength_of_first _ long word)⟩
      rw [List.length_drop, Nat.sub_sub_self long]
  | next before entry accepted appended ih =>
      obtain ⟨bs, hsuf, rfl, hto⟩ := ih
      obtain ⟨-, -, hentry⟩ := entry_exact hroom hsuf (.inl (hfit _ _ _ hto))
      rw [entry] at hentry
      cases ht : takeEntry bs with
      | error e =>
          rw [ht] at hentry
          cases hentry
      | ok r =>
          obtain ⟨e, rest⟩ := r
          rw [ht] at hentry
          cases hentry
          exact ⟨rest, (takeEntry_suffix ht).trans hsuf, rfl, .next hto ht accepted appended⟩

/-- `parse_header_block` is right about a block if and only if every announced end fits. -/
theorem headerBlockSized_iff (hroom : raw.length + 4 < 2 ^ width) :
    HeaderBlockSized X width raw ↔ LengthsFit X width raw := by
  constructor
  · intro h n bs map hto
    obtain ⟨hsuf, hat⟩ := loopAt_of_readsTo hroom h.fits hto
    exact (entry_exact hroom hsuf (.inr (h.fits _ _ _ hat))).1
  · intro hfit
    refine ⟨fun n pos map hat => ?_, ?_⟩
    · obtain ⟨bs, hsuf, rfl, hto⟩ := readsTo_of_loopAt hroom hfit hat
      exact (entry_exact hroom hsuf (.inl (hfit _ _ _ hto))).2.1
    · cases ht : takeLength "header block too short" raw with
      | error e =>
          have hshort : raw.length < 4 := by
            by_contra hlong
            obtain ⟨a, b, c, d, rest, rfl⟩ := exists_four _ (Nat.not_lt.mp hlong)
            cases ht
          rw [takeLength_eq_error hshort] at ht
          cases ht
          rw [exactHeaderBlock, takeLength_eq_error hshort, parseHeaderBlock, if_pos hshort]
          rfl
      | ok r =>
          obtain ⟨count, body⟩ := r
          obtain ⟨hlong, hword, rfl⟩ := takeLength_first ht
          have hloop : headerLoop width raw count.toNat (raw.length - (raw.drop 4).length)
              (HeaderMap.new X) = _ := headerLoop_follows (P := ReadsTo X raw)
            (fun hto hsuf => (entry_exact hroom hsuf (.inl (hfit _ _ _ hto))).2.2)
            (fun hto => .next hto) count.toNat (raw.drop 4) (HeaderMap.new X) (.first ht)
            (List.drop_suffix _ _)
          rw [List.length_drop, Nat.sub_sub_self hlong] at hloop
          rw [exactHeaderBlock, ht, parseHeaderBlock, if_neg (Nat.not_lt.mpr hlong), hword]
          simp only [bind, Except.bind, hloop]
          cases appendScan (HeaderMap.new X) (scan X count.toNat (raw.drop 4)) with
          | error e => rfl
          | ok r => rfl

/-! ## Both widths -/

/-- With 64 bits every announced end fits: a block is no longer than `isize::MAX`. -/
theorem lengthsFit_wide (hraw : raw.length < 2 ^ 63) : LengthsFit X 64 raw := by
  intro n bs map _ e he
  have hle : ∀ rest : Bytes, raw.length - rest.length ≤ raw.length := fun rest => Nat.sub_le _ _
  have hlen : ∀ (rest : Bytes) (len : UInt32), raw.length - rest.length + len.toNat < 2 ^ 64 :=
    fun rest len => by
      have hlt := len.toNat_lt
      have hrest := hle rest
      omega
  unfold announcedEnds at he
  split at he
  · cases he
  · rcases List.mem_cons.mp he with rfl | he
    · exact hlen _ _
    · split at he
      · cases he
      · split at he
        · cases he
        · rw [List.mem_singleton.mp he]
          exact hlen _ _

/-- **Sizes on both targets.**  `parse_settings` is right about the size of every payload
with 64-bit `usize`, and with 32 bits of the payloads whose count is below `2^29`;
`parse_header_block` is right about the size of every block with 64 bits, and with 32 bits
of the blocks whose announced ends fit. -/
theorem sized_iff (hwidth : width = 32 ∨ width = 64) (flags : UInt8) {payload raw : Bytes}
    (hpayload : payload.length < 2 ^ (width - 1)) (hraw : raw.length < 2 ^ (width - 1)) :
    (SettingsSized X width flags payload ↔
      width = 64 ∨ ∀ count, beWord payload 0 = .ok count → count.toNat < 2 ^ 29) ∧
    (HeaderBlockSized X width raw ↔ width = 64 ∨ LengthsFit X 32 raw) := by
  rcases hwidth with rfl | rfl
  · have hlt : payload.length < 2 ^ 32 := by omega
    have hroom : raw.length + 4 < 2 ^ 32 := by omega
    refine ⟨?_, ?_⟩
    · rw [settingsSized_iff flags hlt]
      constructor
      · intro h
        refine .inr fun count hcount => ?_
        have hfits := h count hcount
        omega
      · rintro (h | h) count hcount
        · cases h
        · have hfits := h count hcount
          omega
    · rw [headerBlockSized_iff hroom]
      simp
  · have hlt : payload.length < 2 ^ 64 := by omega
    have hroom : raw.length + 4 < 2 ^ 64 := by omega
    refine ⟨?_, ?_⟩
    · rw [settingsSized_iff flags hlt]
      refine ⟨fun _ => .inl rfl, fun _ count _ => ?_⟩
      have hcount := count.toNat_lt
      omega
    · rw [headerBlockSized_iff hroom]
      exact ⟨fun _ => .inl rfl, fun _ => lengthsFit_wide (by omega)⟩

/-- A SETTINGS payload that announces `2^29` settings and holds none. -/
def hugeCount : Bytes := [32, 0, 0, 0]

/-- A block whose only entry announces a name of `2^32 - 8` bytes at position 8. -/
def hugeLength : Bytes := [0, 0, 0, 1, 255, 255, 255, 248]

theorem sized_iff_hugeCount : SettingsSized Http.reference 64 0 hugeCount ∧
    HeaderBlockSized Http.reference 64 hugeLength :=
  have hboth : (SettingsSized Http.reference 64 0 hugeCount ↔ _) ∧
      (HeaderBlockSized Http.reference 64 hugeLength ↔ _) :=
    sized_iff (.inr rfl) 0 (by decide) (by decide)
  ⟨hboth.1.mpr (.inl rfl), hboth.2.mpr (.inl rfl)⟩

/-- With 32 bits `4 + count * 8` wraps to 4 and `pos + name_len` to 0: both checks are
passed. -/
theorem sizes_wrap : ¬ SettingsSized Http.reference 32 0 hugeCount ∧
    ¬ HeaderBlockSized Http.reference 32 hugeLength := by
  constructor
  · rw [settingsSized_iff 0 (by decide)]
    intro h
    have hfits := h 536870912 (by decide)
    exact absurd hfits (by decide)
  · rw [headerBlockSized_iff (by decide)]
    intro h
    have hword : takeLength "header block too short" hugeLength =
        .ok (1, [255, 255, 255, 248]) := by decide
    have hend := h 0 _ _ (.first hword) (2 ^ 32) (by decide)
    exact absurd hend (by decide)

end SpdyStream.Framing
