/-
  Framing/HeaderRoundTrip.lean --- what the grammar finds in an encoded block.

  A block written by `encode_headers` is one entry per name, the name's values
  joined with NUL.  `exists_groups` takes it apart into names with their values,
  `scan_encodeGroups` reads such entries back, and the two together give the
  round trip.  The converse results say when the round trip cannot succeed: a
  proper prefix of a block is refused, and no block gives back a map with a name
  or joined value too long for its length field.
-/
import SpdyStream.Framing.HeaderBlock

set_option autoImplicit false

namespace SpdyStream.Framing

open SpdyStream.Foundation

variable {X : Http}

/-! ## Values joined and split -/

/-- A name with all its values. -/
abbrev Group (X : Http) : Type := HeaderName X × List (HeaderValue X)

/-- The values of a group, joined with NUL. -/
def Group.joined (g : Group X) : Bytes := [0].intercalate (g.2.map HeaderValue.asBytes)

/-- The entry that is written for a group. -/
def Group.entry (g : Group X) : Bytes × Bytes := (g.1.asStr, Group.joined g)

/-- Joining value after value is joining them all. -/
theorem foldl_joinValue (vs : List Bytes) :
    ∀ v : Bytes, vs.foldl (fun acc v => some (joinValue v acc)) (some v) =
      some ([0].intercalate (v :: vs)) := by
  induction vs with
  | nil =>
      intro v
      simp
  | cons w ws ih =>
      intro v
      have hstep : joinValue w (some v) = v ++ [0] ++ w := rfl
      rw [List.foldl_cons, hstep, ih]
      cases ws with
      | nil => simp [List.intercalate_cons_cons]
      | cons u us => simp [List.intercalate_cons_cons]

/-- The parts of a joined value are the values. -/
theorem splitOn_joined {g : Group X} (h : g.2 ≠ []) :
    (Group.joined g).splitOn 0 = g.2.map HeaderValue.asBytes := by
  refine List.splitOn_intercalate 0 ?_ (by simpa using h)
  intro l hl
  obtain ⟨v, -, rfl⟩ := List.mem_map.mp hl
  exact v.nul_notMem

theorem scanParts_values (name : HeaderName X) (vs : List (HeaderValue X)) :
    scanParts name (vs.map HeaderValue.asBytes) = ⟨vs.map fun v => (name, v), .ok ()⟩ := by
  induction vs with
  | nil => rfl
  | cons v vs ih =>
      rw [List.map_cons, scanParts, dif_pos v.accepted, ih]
      rfl

/-- Parts that are all accepted are the bytes of values. -/
theorem scanParts_ok {name : HeaderName X} {parts : List Bytes}
    {ps : List (HeaderName X × HeaderValue X)}
    (h : scanParts name parts = ⟨ps, .ok ()⟩) :
    ∃ vs : List (HeaderValue X), parts = vs.map HeaderValue.asBytes ∧
      ps = vs.map fun v => (name, v) := by
  induction parts generalizing ps with
  | nil =>
      refine ⟨[], rfl, ?_⟩
      exact (congrArg Scan.pairs h).symm
  | cons part parts ih =>
      rw [scanParts] at h
      split at h
      · rename_i hv
        cases hrec : scanParts name parts with
        | mk qs result =>
            rw [hrec] at h
            have hpairs : (name, ⟨part, hv⟩) :: qs = ps := congrArg Scan.pairs h
            have hresult : result = .ok () := congrArg Scan.result h
            rw [hresult] at hrec
            obtain ⟨vs, hparts, hqs⟩ := ih hrec
            refine ⟨⟨part, hv⟩ :: vs, ?_, ?_⟩
            · rw [List.map_cons, hparts]
            · rw [← hpairs, hqs, List.map_cons]
      · exact absurd (congrArg Scan.result h) (by simp [Scan.fail])

/-! ## Entries written and read -/

theorem takeLength_toBeBytes32 (message : String) (n : UInt32) (rest : Bytes) :
    takeLength message (toBeBytes32 n ++ rest) = .ok (n, rest) := by
  have h := fromBeBytes32_toBeBytes32 n
  simp only [toBeBytes32, List.cons_append, List.nil_append, takeLength, h]

theorem takeBytes_append {message : String} {len : UInt32} {bs rest : Bytes}
    (h : len.toNat = bs.length) : takeBytes message len (bs ++ rest) = .ok (bs, rest) := by
  simp [takeBytes, h]

theorem toNat_ofNat_length {bs : Bytes} (h : bs.length < 2 ^ 32) :
    (UInt32.ofNat bs.length).toNat = bs.length := by
  simpa using h

theorem takeEntry_encodeEntry {e : Bytes × Bytes} (hname : e.1.length < 2 ^ 32)
    (hval : e.2.length < 2 ^ 32) (rest : Bytes) :
    takeEntry (encodeEntry e ++ rest) = .ok (e, rest) := by
  obtain ⟨name, val⟩ := e
  simp only [takeEntry, encodeEntry, List.append_assoc, takeLength_toBeBytes32, bind, Except.bind,
    takeBytes_append (toNat_ofNat_length hname), takeBytes_append (toNat_ofNat_length hval)]
  rfl

/-- The name and joined value of a group fit their length fields. -/
def Group.InRange (g : Group X) : Prop :=
  g.1.asStr.length < 2 ^ 32 ∧ (Group.joined g).length < 2 ^ 32

/-- The entries of groups, one after the other. -/
def encodeGroups (groups : List (Group X)) : Bytes :=
  groups.flatMap fun g => encodeEntry (Group.entry g)

/-- The entries of groups are read back as their pairs. -/
theorem scan_encodeGroups {groups : List (Group X)} (hne : ∀ g ∈ groups, g.2 ≠ [])
    (hrange : ∀ g ∈ groups, Group.InRange g) (rest : Bytes) :
    scan X groups.length (encodeGroups groups ++ rest) = ⟨ungroup groups, .ok rest⟩ := by
  induction groups with
  | nil => rfl
  | cons g groups ih =>
      obtain ⟨hname, hval⟩ := hrange g List.mem_cons_self
      have hrec := ih (fun g' h => hne g' (List.mem_cons_of_mem _ h))
        (fun g' h => hrange g' (List.mem_cons_of_mem _ h))
      have hcons : encodeGroups (g :: groups) ++ rest =
          encodeEntry (g.1.asStr, Group.joined g) ++ (encodeGroups groups ++ rest) :=
        List.append_assoc _ _ _
      rw [hcons, List.length_cons, scan, takeEntry_encodeEntry hname hval]
      simp only [HeaderName.fromBytes_asStr]
      rw [splitOn_joined (hne g List.mem_cons_self), scanParts_values]
      simp only [Scan.andThen]
      rw [hrec]
      rfl

theorem takeLength_ok {message : String} {bs rest : Bytes} {n : UInt32}
    (h : takeLength message bs = .ok (n, rest)) : bs = toBeBytes32 n ++ rest := by
  by_cases hlen : bs.length < 4
  · rw [takeLength_eq_error hlen] at h
    exact absurd h (by simp)
  · obtain ⟨a, b, c, d, tail, rfl⟩ := exists_four _ (Nat.not_lt.mp hlen)
    obtain ⟨rfl, rfl⟩ := Prod.mk.inj (Except.ok.inj h)
    rw [toBeBytes32_fromBeBytes32]
    rfl

theorem takeBytes_ok {message : String} {bs taken rest : Bytes} {n : UInt32}
    (h : takeBytes message n bs = .ok (taken, rest)) :
    bs = taken ++ rest ∧ n.toNat = taken.length := by
  rw [takeBytes] at h
  split at h
  · rename_i hle
    obtain ⟨rfl, rfl⟩ := Prod.mk.inj (Except.ok.inj h)
    exact ⟨(List.take_append_drop _ _).symm, by rw [List.length_take, Nat.min_eq_left hle]⟩
  · exact absurd h (by simp)

/-- What is read as an entry is an entry as it would be written. -/
theorem takeEntry_ok {bs rest : Bytes} {e : Bytes × Bytes} (h : takeEntry bs = .ok (e, rest)) :
    (e.1.length < 2 ^ 32 ∧ e.2.length < 2 ^ 32) ∧ bs = encodeEntry e ++ rest := by
  obtain ⟨⟨nameLen, bs₁⟩, h₁, h⟩ := bind_ok h
  obtain ⟨⟨nameBytes, bs₂⟩, h₂, h⟩ := bind_ok h
  obtain ⟨⟨valLen, bs₃⟩, h₃, h⟩ := bind_ok h
  obtain ⟨⟨valBytes, bs₄⟩, h₄, h⟩ := bind_ok h
  obtain ⟨rfl, rfl⟩ := Prod.mk.inj (Except.ok.inj h)
  obtain ⟨happ₂, hlen₂⟩ := takeBytes_ok h₂
  obtain ⟨happ₄, hlen₄⟩ := takeBytes_ok h₄
  have hname : nameBytes.length < 2 ^ 32 := hlen₂ ▸ nameLen.toNat_lt
  have hval : valBytes.length < 2 ^ 32 := hlen₄ ▸ valLen.toNat_lt
  refine ⟨⟨hname, hval⟩, ?_⟩
  have hn : UInt32.ofNat nameBytes.length = nameLen := by
    apply UInt32.toNat_inj.mp
    rw [toNat_ofNat_length hname, hlen₂]
  have hv : UInt32.ofNat valBytes.length = valLen := by
    apply UInt32.toNat_inj.mp
    rw [toNat_ofNat_length hval, hlen₄]
  rw [takeLength_ok h₁, happ₂, takeLength_ok h₃, happ₄, encodeEntry, hn, hv]
  simp only [List.append_assoc]

/-- A scan of one more entry that succeeds reads the entry, accepts its name and
its parts, and goes on behind it. -/
theorem scan_succ_ok {n : Nat} {bs rest : Bytes} {ps : List (HeaderName X × HeaderValue X)}
    (h : scan X (n + 1) bs = ⟨ps, .ok rest⟩) :
    ∃ (nameBytes valBytes bs' : Bytes) (name : HeaderName X) (vs : List (HeaderValue X))
      (qs : List (HeaderName X × HeaderValue X)),
      takeEntry bs = .ok ((nameBytes, valBytes), bs') ∧
        HeaderName.fromBytes X nameBytes = .ok name ∧
        valBytes.splitOn 0 = vs.map HeaderValue.asBytes ∧
        scan X n bs' = ⟨qs, .ok rest⟩ ∧ ps = (vs.map fun v => (name, v)) ++ qs := by
  rw [scan] at h
  cases ht : takeEntry bs with
  | error e =>
      rw [ht] at h
      exact absurd (congrArg Scan.result h) (by simp [Scan.fail])
  | ok r =>
      obtain ⟨⟨nameBytes, valBytes⟩, bs'⟩ := r
      rw [ht] at h
      simp only [] at h
      cases hn : HeaderName.fromBytes X nameBytes with
      | error f =>
          rw [hn] at h
          exact absurd (congrArg Scan.result h) (by simp [Scan.fail])
      | ok name =>
          rw [hn] at h
          simp only [] at h
          cases hp : scanParts name (valBytes.splitOn 0) with
          | mk partPairs result =>
              rw [hp] at h
              cases result with
              | error e => exact absurd (congrArg Scan.result h) (by simp [Scan.andThen])
              | ok u =>
                  obtain ⟨vs, hsplit, hpart⟩ := scanParts_ok hp
                  refine ⟨nameBytes, valBytes, bs', name, vs, (scan X n bs').pairs, rfl, hn, hsplit,
                    ?_, ?_⟩
                  · have hr : (scan X n bs').result = .ok rest := congrArg Scan.result h
                    rw [← hr]
                  · rw [← hpart]
                    exact (congrArg Scan.pairs h).symm

/-- What is read from a block is read the same with more bytes behind it. -/
theorem scan_append {n : Nat} {bs rest : Bytes} {ps : List (HeaderName X × HeaderValue X)}
    (h : scan X n bs = ⟨ps, .ok rest⟩) (more : Bytes) :
    scan X n (bs ++ more) = ⟨ps, .ok (rest ++ more)⟩ := by
  induction n generalizing bs ps with
  | zero =>
      obtain ⟨rfl, hr⟩ := Scan.mk.inj h
      rw [← Except.ok.inj hr]
      rfl
  | succ n ih =>
      obtain ⟨nameBytes, valBytes, bs', name, vs, qs, ht, hn, hsplit, hscan, rfl⟩ :=
        scan_succ_ok h
      obtain ⟨⟨hname, hval⟩, rfl⟩ := takeEntry_ok ht
      rw [scan, List.append_assoc, takeEntry_encodeEntry hname hval]
      simp only [hn]
      rw [hsplit, scanParts_values]
      simp only [Scan.andThen]
      rw [ih hscan]

/-- A name has as many bytes as it was read from. -/
theorem HeaderName.length_fromBytes {b : Bytes} {n : HeaderName X}
    (h : HeaderName.fromBytes X b = .ok n) : n.asStr.length = b.length := by
  unfold HeaderName.fromBytes at h
  split at h
  · rename_i m hm
    rw [← Except.ok.inj h]
    simp only [X.headerName_lowercase hm, List.length_map]
  · exact absurd h (by simp)

/-- Whatever `n` entries are read, they are the entries of `n` groups whose
lengths fit their fields. -/
theorem scan_ok {n : Nat} {bs rest : Bytes} {ps : List (HeaderName X × HeaderValue X)}
    (h : scan X n bs = ⟨ps, .ok rest⟩) :
    ∃ groups : List (Group X), groups.length = n ∧ ps = ungroup groups ∧
      ∀ g ∈ groups, Group.InRange g := by
  induction n generalizing bs ps with
  | zero => exact ⟨[], rfl, (congrArg Scan.pairs h).symm, by simp⟩
  | succ n ih =>
      obtain ⟨nameBytes, valBytes, bs', name, vs, qs, ht, hn, hsplit, hscan, rfl⟩ :=
        scan_succ_ok h
      obtain ⟨⟨hname, hval⟩, -⟩ := takeEntry_ok ht
      obtain ⟨groups, hlen, rfl, hrange⟩ := ih hscan
      refine ⟨(name, vs) :: groups, by simp [hlen], rfl, ?_⟩
      intro g hg
      rcases List.mem_cons.mp hg with rfl | hg
      · refine ⟨by rw [HeaderName.length_fromBytes hn]; exact hname, ?_⟩
        have hjoin : Group.joined (name, vs) = valBytes := by
          rw [Group.joined, ← hsplit, List.intercalate_splitOn]
        rw [hjoin]
        exact hval
      · exact hrange g hg

/-! ## The groups of a header map -/

/-- Elements that all have a preimage are the image of a list. -/
theorem exists_map_eq {α β : Type} {f : β → α} {P : β → Prop} {l : List α}
    (h : ∀ a ∈ l, ∃ b, f b = a ∧ P b) : ∃ bs : List β, bs.map f = l ∧ ∀ b ∈ bs, P b := by
  induction l with
  | nil => exact ⟨[], rfl, by simp⟩
  | cons a l ih =>
      obtain ⟨b, rfl, hb⟩ := h a List.mem_cons_self
      obtain ⟨bs, rfl, hbs⟩ := ih fun a' ha' => h a' (List.mem_cons_of_mem _ ha')
      refine ⟨b :: bs, rfl, ?_⟩
      intro b' hb'
      rcases List.mem_cons.mp hb' with rfl | hb'
      · exact hb
      · exact hbs b' hb'

/-- What `encode_headers` has under a name are the name's values, joined. -/
theorem lookup_headerEntries (h : HeaderMap X) (n : HeaderName X) :
    (headerEntries h).lookup n.asStr =
      if valuesOf n h.iter = [] then none
      else some (Group.joined (n, valuesOf n h.iter)) := by
  rw [headerEntries, SortedMap.lookup_ofPairs,
    valuesOf_map HeaderName.asStr_injective HeaderValue.asBytes]
  cases valuesOf n h.iter with
  | nil => rfl
  | cons v vs => exact foldl_joinValue (vs.map HeaderValue.asBytes) v.asBytes

/-- The names of the map are names of headers. -/
theorem exists_name_of_lookup {h : HeaderMap X} {k v : Bytes}
    (hk : (headerEntries h).lookup k = some v) : ∃ n : HeaderName X, n.asStr = k := by
  rw [headerEntries, SortedMap.lookup_ofPairs] at hk
  cases hv : valuesOf k (h.iter.map fun p => (p.1.asStr, p.2.asBytes)) with
  | nil =>
      rw [hv] at hk
      exact absurd hk (by simp)
  | cons w ws =>
      have hmem : (k, w) ∈ h.iter.map fun p => (p.1.asStr, p.2.asBytes) := by
        rw [← mem_valuesOf, hv]
        exact List.mem_cons_self
      obtain ⟨p, -, hp⟩ := List.mem_map.mp hmem
      exact ⟨p.1, congrArg Prod.fst hp⟩

/-- `groups` are the names of a map, each once, with their values. -/
structure GroupsOf (h : HeaderMap X) (groups : List (Group X)) : Prop where
  entries : groups.map Group.entry = (headerEntries h).entries
  values : ∀ g ∈ groups, g.2 = valuesOf g.1 h.iter ∧ g.2 ≠ []

theorem exists_groups (h : HeaderMap X) : ∃ groups, GroupsOf h groups := by
  have hpre : ∀ e ∈ (headerEntries h).entries, ∃ g : Group X, Group.entry g = e ∧
      (g.2 = valuesOf g.1 h.iter ∧ g.2 ≠ []) := by
    rintro ⟨k, v⟩ he
    have hk := ((headerEntries h).mem_entries_iff k v).mp he
    obtain ⟨n, rfl⟩ := exists_name_of_lookup hk
    rw [lookup_headerEntries] at hk
    split at hk
    · exact absurd hk (by simp)
    · rename_i hne
      exact ⟨(n, valuesOf n h.iter), Prod.ext rfl (Option.some.inj hk), rfl, hne⟩
  obtain ⟨groups, hmap, hvalues⟩ := exists_map_eq hpre
  exact ⟨groups, hmap, hvalues⟩

namespace GroupsOf

variable {h : HeaderMap X} {groups : List (Group X)}

theorem names_nodup (hg : GroupsOf h groups) : (groups.map Prod.fst).Nodup := by
  have hkeys : ((groups.map Prod.fst).map HeaderName.asStr).Nodup := by
    have hnodup := (headerEntries h).keys_nodup
    rw [← hg.entries, List.map_map] at hnodup
    rw [List.map_map]
    exact hnodup
  exact List.Nodup.of_map _ hkeys

/-- Every name of the map has its group. -/
theorem mem_of_values (hg : GroupsOf h groups) {n : HeaderName X}
    (hn : valuesOf n h.iter ≠ []) : (n, valuesOf n h.iter) ∈ groups := by
  have hlook := lookup_headerEntries h n
  rw [if_neg hn, ← SortedMap.mem_entries_iff, ← hg.entries] at hlook
  obtain ⟨g, hmem, hentry⟩ := List.mem_map.mp hlook
  have hname : g.1 = n := HeaderName.asStr_injective (congrArg Prod.fst hentry)
  have hg' : g = (n, valuesOf n h.iter) := by
    rw [← hname, ← (hg.values g hmem).1]
  exact hg' ▸ hmem

/-- The pairs of the groups are the pairs of the map, up to the order of names. -/
theorem same (hg : GroupsOf h groups) : SameValues (ungroup groups) h.iter := by
  intro n
  by_cases hn : valuesOf n h.iter = []
  · rw [hn]
    apply valuesOf_ungroup_of_notMem
    intro hmem
    obtain ⟨g, hgmem, rfl⟩ := List.mem_map.mp hmem
    obtain ⟨hval, hne⟩ := hg.values g hgmem
    exact hne (hval.trans hn)
  · exact valuesOf_ungroup hg.names_nodup (hg.mem_of_values hn)

theorem length_eq (hg : GroupsOf h groups) : groups.length = keyCount h.iter := by
  have hperm : (groups.map Prod.fst).Perm (h.iter.map Prod.fst).dedup := by
    rw [List.perm_ext_iff_of_nodup hg.names_nodup (List.nodup_dedup _)]
    intro n
    rw [List.mem_dedup]
    constructor
    · intro hmem
      obtain ⟨g, hgmem, rfl⟩ := List.mem_map.mp hmem
      obtain ⟨hval, hne⟩ := hg.values g hgmem
      by_contra hnot
      exact hne (hval.trans (valuesOf_eq_nil_iff.mpr hnot))
    · intro hmem
      have hn : valuesOf n h.iter ≠ [] := fun he => valuesOf_eq_nil_iff.mp he hmem
      exact List.mem_map.mpr ⟨_, hg.mem_of_values hn, rfl⟩
  rw [keyCount, ← hperm.length_eq, List.length_map]

theorem length_le (hg : GroupsOf h groups) : groups.length ≤ maxHeaderMapSize := by
  rw [hg.length_eq]
  exact (keyCount_le_pairsSize h.iter).trans h.size_le

theorem encodeHeaders_eq (hg : GroupsOf h groups) :
    encodeHeaders h = toBeBytes32 (UInt32.ofNat groups.length) ++ encodeGroups groups := by
  rw [encodeHeaders, ← hg.entries, List.length_map, List.flatMap_map]
  rfl

/-- The count in front of the block is the number of groups. -/
theorem toNat_count (hg : GroupsOf h groups) :
    (UInt32.ofNat groups.length).toNat = groups.length := by
  have hle := hg.length_le
  have hmax : maxHeaderMapSize < 2 ^ 32 := by decide
  have hlt : groups.length < 2 ^ 32 := Nat.lt_of_le_of_lt hle hmax
  simpa using hlt

end GroupsOf

/-! ## The round trip -/

/-- Each name and each NUL-joined value of a map is shorter than `2^32` bytes. -/
def HeaderMap.InRange (h : HeaderMap X) : Prop :=
  ∀ e ∈ (headerEntries h).entries, e.1.length < 2 ^ 32 ∧ e.2.length < 2 ^ 32

instance (h : HeaderMap X) : Decidable h.InRange :=
  inferInstanceAs (Decidable (∀ e ∈ (headerEntries h).entries, _ ∧ _))

theorem GroupsOf.inRange {h : HeaderMap X} {groups : List (Group X)} (hg : GroupsOf h groups) :
    h.InRange ↔ ∀ g ∈ groups, Group.InRange g := by
  unfold HeaderMap.InRange
  rw [← hg.entries]
  simp only [List.mem_map, forall_exists_index, and_imp, forall_apply_eq_imp_iff₂]
  rfl

/-- A block that begins with a count is read by scanning that many entries. -/
theorem parseHeaderBlock_count {width : Nat} (n : UInt32) (body : Bytes)
    (hw : (toBeBytes32 n ++ body).length + 2 ^ 32 ≤ 2 ^ width) :
    parseHeaderBlock X width (toBeBytes32 n ++ body) =
      (appendScan (HeaderMap.new X) (scan X n.toNat body)).map Prod.fst := by
  have hcount := fromBeBytes32_toBeBytes32 n
  have hbytes : toBeBytes32 n ++ body = (n >>> 24).toUInt8 :: (n >>> 16).toUInt8 ::
      (n >>> 8).toUInt8 :: n.toUInt8 :: body := rfl
  rw [hbytes] at hw ⊢
  rw [parseHeaderBlock_eq hw, hcount]

/-- What a successful parse returns are the pairs the grammar found. -/
theorem appendScan_new_ok {α : Type} {s : Scan X α} {m : HeaderMap X}
    (h : (appendScan (HeaderMap.new X) s).map Prod.fst = .ok m) :
    m.iter = s.pairs ∧ ∃ a, s.result = .ok a := by
  by_cases hfit : pairsSize X ((HeaderMap.new X).iter ++ s.pairs) ≤ maxHeaderMapSize
  · cases hs : s.result with
    | error e =>
        rw [appendScan_error hs hfit] at h
        exact absurd h (by simp [Except.map])
    | ok a =>
        rw [appendScan_ok hs hfit] at h
        exact ⟨(congrArg HeaderMap.iter (Except.ok.inj h)).symm, a, rfl⟩
  · rw [appendScan_panic hfit] at h
    exact absurd h (by simp [Except.map])

/-- **The round trip.**  A block written for a map is parsed, and to a map with
the same values under every name. -/
theorem parseHeaderBlock_encodeHeaders {width : Nat} {h : HeaderMap X} (hrange : h.InRange)
    (hw : (encodeHeaders h).length + 2 ^ 32 ≤ 2 ^ width) :
    ∃ m : HeaderMap X, parseHeaderBlock X width (encodeHeaders h) = .ok m ∧ m.Same h := by
  obtain ⟨groups, hg⟩ := exists_groups h
  have hscan : scan X groups.length (encodeGroups groups) = ⟨ungroup groups, .ok []⟩ := by
    have := scan_encodeGroups (fun g hmem => (hg.values g hmem).2) (hg.inRange.mp hrange) []
    rwa [List.append_nil] at this
  have hfit : pairsSize X ((HeaderMap.new X).iter ++ ungroup groups) ≤ maxHeaderMapSize := by
    have hnil : (HeaderMap.new X).iter ++ ungroup groups = ungroup groups := List.nil_append _
    rw [hnil, pairsSize_congr hg.same]
    exact h.size_le
  rw [hg.encodeHeaders_eq] at hw ⊢
  rw [parseHeaderBlock_count _ _ hw, hg.toNat_count, hscan,
    appendScan_ok (s := ⟨ungroup groups, .ok []⟩) rfl hfit]
  exact ⟨_, rfl, hg.same⟩

/-! ## When the round trip cannot succeed -/

/-- A block cut short is refused. -/
theorem parseHeaderBlock_take_ne_ok {width : Nat} {h : HeaderMap X} (hrange : h.InRange)
    (hw : (encodeHeaders h).length + 2 ^ 32 ≤ 2 ^ width) {k : Nat}
    (hk : k < (encodeHeaders h).length) (m : HeaderMap X) :
    parseHeaderBlock X width ((encodeHeaders h).take k) ≠ .ok m := by
  obtain ⟨groups, hg⟩ := exists_groups h
  intro hok
  rw [hg.encodeHeaders_eq] at hw hk hok
  by_cases hshort : k < 4
  · have hlen :
        ((toBeBytes32 (UInt32.ofNat groups.length) ++ encodeGroups groups).take k).length < 4 := by
      rw [List.length_take]
      omega
    rw [parseHeaderBlock, if_pos hlen] at hok
    exact absurd hok (by simp [protocolError])
  · -- The count is there; the entries are cut after `k - 4` bytes.
    have htake : (toBeBytes32 (UInt32.ofNat groups.length) ++ encodeGroups groups).take k =
        toBeBytes32 (UInt32.ofNat groups.length) ++ (encodeGroups groups).take (k - 4) := by
      rw [List.take_append, List.take_of_length_le (by simp; omega), length_toBeBytes32]
    have hw' : (toBeBytes32 (UInt32.ofNat groups.length) ++
        (encodeGroups groups).take (k - 4)).length + 2 ^ 32 ≤ 2 ^ width := by
      rw [List.length_append] at hw ⊢
      have := List.length_take_le' (k - 4) (encodeGroups groups)
      omega
    rw [htake, parseHeaderBlock_count _ _ hw', hg.toNat_count] at hok
    obtain ⟨-, rest, hrest⟩ := appendScan_new_ok hok
    -- Read from the cut entries, the same is read from all of them with bytes to spare.
    have hcut : scan X groups.length ((encodeGroups groups).take (k - 4)) =
        ⟨(scan X groups.length ((encodeGroups groups).take (k - 4))).pairs, .ok rest⟩ := by
      rw [← hrest]
    have hmore := scan_append hcut ((encodeGroups groups).drop (k - 4))
    have hall := scan_encodeGroups (fun g hmem => (hg.values g hmem).2) (hg.inRange.mp hrange) []
    rw [List.take_append_drop] at hmore
    rw [List.append_nil, hmore] at hall
    have hnil : rest ++ (encodeGroups groups).drop (k - 4) = [] :=
      Except.ok.inj (congrArg Scan.result hall)
    have hdrop : (encodeGroups groups).length ≤ k - 4 :=
      List.drop_eq_nil_iff.mp (List.append_eq_nil_iff.mp hnil).2
    rw [List.length_append, length_toBeBytes32] at hk
    omega

/-- A map that comes back from a block counting its names has all lengths in
range: each entry gave one name, so each name came from one entry. -/
theorem inRange_of_parse {width : Nat} {h m : HeaderMap X} {body : Bytes}
    (hw : (toBeBytes32 (UInt32.ofNat (keyCount h.iter)) ++ body).length + 2 ^ 32 ≤ 2 ^ width)
    (hok : parseHeaderBlock X width
      (toBeBytes32 (UInt32.ofNat (keyCount h.iter)) ++ body) = .ok m)
    (hsame : m.Same h) : h.InRange := by
  obtain ⟨groups, hg⟩ := exists_groups h
  rw [← hg.length_eq] at hw hok
  rw [parseHeaderBlock_count _ _ hw, hg.toNat_count] at hok
  obtain ⟨hiter, rest, hrest⟩ := appendScan_new_ok hok
  have hscan : scan X groups.length body =
      ⟨(scan X groups.length body).pairs, .ok rest⟩ := by
    rw [← hrest]
  obtain ⟨read, hlen, hpairs, hread⟩ := scan_ok hscan
  have hvalues : ∀ n, valuesOf n (ungroup read) = valuesOf n h.iter := by
    intro n
    rw [← hpairs, ← hiter]
    exact hsame n
  -- The names read include the names of the map and are no more of them.
  have hsub : groups.map Prod.fst ⊆ read.map Prod.fst := by
    intro n hn
    obtain ⟨g, hgmem, rfl⟩ := List.mem_map.mp hn
    obtain ⟨hval, hne⟩ := hg.values g hgmem
    by_contra hnot
    have hnil := valuesOf_ungroup_of_notMem hnot
    rw [hvalues, ← hval] at hnil
    exact hne hnil
  have hperm : (groups.map Prod.fst).Perm (read.map Prod.fst) := by
    apply (List.subperm_of_subset hg.names_nodup hsub).perm_of_length_le
    rw [List.length_map, List.length_map, hlen]
  have hnodup : (read.map Prod.fst).Nodup := hperm.nodup_iff.mp hg.names_nodup
  rw [hg.inRange]
  intro g hgmem
  obtain ⟨g', hg'mem, hname⟩ := List.mem_map.mp (hsub (List.mem_map.mpr ⟨g, hgmem, rfl⟩))
  have hg' : g' = g := by
    have hvals : valuesOf g'.1 (ungroup read) = g'.2 := valuesOf_ungroup hnodup hg'mem
    rw [hvalues, hname, ← (hg.values g hgmem).1] at hvals
    exact Prod.ext hname hvals.symm
  exact hg' ▸ hread g' hg'mem

end SpdyStream.Framing
