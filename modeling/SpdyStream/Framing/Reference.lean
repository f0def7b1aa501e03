/-
  Framing/Reference.lean --- one `http` crate and one zlib to run the framer on.

  The framer takes both libraries as parameters.  Here they are given values on
  which the theorems are tried out.  Header names and values are checked as the
  crate checks them, and names alone count against the size of a map.

  The zlib stores its input in uncompressed deflate blocks, which every inflater
  accepts.  Two first blocks of a stream are not stored: for these it answers
  with the bytes that zlib gives at its best level with the SPDY dictionary.  It
  inflates whole blocks only.
-/
import SpdyStream.Framing.Framer

set_option autoImplicit false

namespace SpdyStream.Framing

open SpdyStream.Foundation

/-! ## Headers -/

/-- The bytes a header name is made of, upper case included. -/
def isTokenByte (b : UInt8) : Bool :=
  (48 ≤ b.toNat && b.toNat ≤ 57) || (65 ≤ b.toNat && b.toNat ≤ 90) ||
    (97 ≤ b.toNat && b.toNat ≤ 122) ||
      b ∈ ([33, 35, 36, 37, 38, 39, 42, 43, 45, 46, 94, 95, 96, 124, 126] : Bytes)

/-- The bytes a header value is made of. -/
def isValueByte (b : UInt8) : Bool := (32 ≤ b.toNat && b.toNat ≠ 127) || b = 9

/-- An upper case letter is folded to the letter 32 places on. -/
theorem toAsciiLowercase_upper {b : UInt8} (h : 65 ≤ b.toNat ∧ b.toNat ≤ 90) :
    toAsciiLowercase b = b + 32 ∧ (b + 32).toNat = b.toNat + 32 := by
  refine ⟨if_pos h, ?_⟩
  rw [UInt8.toNat_add]
  exact Nat.mod_eq_of_lt (by simp only [UInt8.reduceToNat]; omega)

theorem toAsciiLowercase_other {b : UInt8} (h : ¬ (65 ≤ b.toNat ∧ b.toNat ≤ 90)) :
    toAsciiLowercase b = b := if_neg h

theorem toAsciiLowercase_idem (b : UInt8) :
    toAsciiLowercase (toAsciiLowercase b) = toAsciiLowercase b := by
  by_cases h : 65 ≤ b.toNat ∧ b.toNat ≤ 90
  · obtain ⟨hfold, hval⟩ := toAsciiLowercase_upper h
    rw [hfold, toAsciiLowercase_other (by omega)]
  · rw [toAsciiLowercase_other h, toAsciiLowercase_other h]

theorem isTokenByte_toAsciiLowercase {b : UInt8} (h : isTokenByte b = true) :
    isTokenByte (toAsciiLowercase b) = true := by
  by_cases hup : 65 ≤ b.toNat ∧ b.toNat ≤ 90
  · obtain ⟨hfold, hval⟩ := toAsciiLowercase_upper hup
    have hlow : (97 ≤ (b + 32).toNat && (b + 32).toNat ≤ 122) = true := by
      rw [Bool.and_eq_true, decide_eq_true_iff, decide_eq_true_iff]
      omega
    rw [hfold, isTokenByte, hlow]
    simp
  · rw [toAsciiLowercase_other hup]
    exact h

/-- `HeaderName::from_bytes`. -/
def referenceName (b : Bytes) : Option Bytes :=
  if b ≠ [] ∧ b.length < 2 ^ 16 ∧ b.all isTokenByte then some (b.map toAsciiLowercase) else none

theorem referenceName_self {b n : Bytes} (h : referenceName b = some n) :
    referenceName n = some n := by
  unfold referenceName at h
  split at h
  · rename_i hb
    obtain rfl := Option.some.inj h
    have hall : (b.map toAsciiLowercase).all isTokenByte = true := by
      rw [List.all_map, List.all_eq_true]
      intro c hc
      exact isTokenByte_toAsciiLowercase (List.all_eq_true.mp hb.2.2 c hc)
    have hidem : (b.map toAsciiLowercase).map toAsciiLowercase = b.map toAsciiLowercase := by
      rw [List.map_map]
      exact List.map_congr_left fun c _ => toAsciiLowercase_idem c
    rw [referenceName, if_pos ⟨by simpa using hb.1, by simpa using hb.2.1, hall⟩, hidem]
  · exact absurd h (by simp)

/-- The `http` crate. -/
def Http.reference : Http where
  headerName := referenceName
  invalidHeaderName := "invalid HTTP header name"
  headerValue v := v.all isValueByte
  invalidHeaderValue := "failed to parse header value"
  size names _ := names
  headerName_lowercase h := by
    unfold referenceName at h
    split at h
    · exact (Option.some.inj h).symm
    · exact absurd h (by simp)
  headerName_self := referenceName_self
  headerValue_nul h hmem := absurd (List.all_eq_true.mp h 0 hmem) (by decide)
  size_zero := rfl
  size_mono h _ := h
  le_size _ := le_refl _

/-! ## Stored blocks -/

/-- The longest stored block. -/
def maxStored : Nat := 65535

/-- One stored block that is not the last: its length, the complement of its
length, and its bytes. -/
def storedBlock (bs : Bytes) : Bytes :=
  let len := UInt16.ofNat bs.length
  [0, len.toUInt8, (len >>> 8).toUInt8, (~~~len).toUInt8, ((~~~len) >>> 8).toUInt8] ++ bs

/-- The bytes in stored blocks, and the empty block of a sync flush. -/
def store : Nat → Bytes → Bytes
  | 0, _ => storedBlock []
  | n + 1, bs =>
      if bs.length ≤ maxStored then storedBlock bs ++ storedBlock []
      else storedBlock (bs.take maxStored) ++ store n (bs.drop maxStored)

/-- The bytes of a run of stored blocks. -/
def unstore : Nat → Bytes → Option Bytes
  | 0, _ => none
  | _ + 1, [] => some []
  | n + 1, kind :: l0 :: l1 :: c0 :: c1 :: rest =>
      let len := fromBeBytes16 l1 l0
      if kind = 0 ∧ fromBeBytes16 c1 c0 = ~~~len ∧ len.toNat ≤ rest.length then
        (unstore n (rest.drop len.toNat)).map (rest.take len.toNat ++ ·)
      else none
  | _ + 1, _ => none

theorem fromBeBytes16_bytes (x : UInt16) : fromBeBytes16 (x >>> 8).toUInt8 x.toUInt8 = x := by
  apply UInt16.toNat_inj.mp
  have hx := x.toNat_lt
  have hhigh : (x >>> 8).toUInt8.toNat = x.toNat / 2 ^ 8 % 2 ^ 8 := by
    rw [UInt16.toNat_toUInt8, UInt16.toNat_shiftRight, Nat.shiftRight_eq_div_pow]
    rfl
  have hlow : x.toUInt8.toNat = x.toNat % 2 ^ 8 := UInt16.toNat_toUInt8 x
  rw [fromBeBytes16, UInt16.toNat_or, UInt16.toNat_shiftLeft, UInt8.toNat_toUInt16,
    UInt8.toNat_toUInt16, hhigh, hlow]
  show (x.toNat / 2 ^ 8 % 2 ^ 8) <<< 8 % 2 ^ 16 ||| x.toNat % 2 ^ 8 = x.toNat
  have hshift : (x.toNat / 2 ^ 8 % 2 ^ 8) <<< 8 % 2 ^ 16 = (x.toNat / 2 ^ 8 % 2 ^ 8) <<< 8 := by
    rw [Nat.shiftLeft_eq]
    exact Nat.mod_eq_of_lt (by omega)
  rw [hshift, shiftLeft_or_eq_add (Nat.mod_lt _ (by decide))]
  omega

/-- A stored block is taken off the front. -/
theorem unstore_storedBlock (bs rest : Bytes) (h : bs.length ≤ maxStored) (n : Nat) :
    unstore (n + 1) (storedBlock bs ++ rest) = (unstore n rest).map (bs ++ ·) := by
  have hlt : bs.length < 2 ^ 16 := Nat.lt_of_le_of_lt h (by decide)
  have hlen : (UInt16.ofNat bs.length).toNat = bs.length := by
    rw [UInt16.toNat_ofNat']
    exact Nat.mod_eq_of_lt hlt
  have hfit : bs.length ≤ (bs ++ rest).length := by
    rw [List.length_append]
    exact Nat.le_add_right _ _
  rw [storedBlock, List.append_assoc]
  simp only [List.cons_append, List.nil_append, unstore, fromBeBytes16_bytes, hlen, hfit,
    and_self, if_true, List.drop_left, List.take_left]

/-- What is stored is read back, with a round for each block and one more. -/
theorem unstore_store (n : Nat) :
    ∀ (bs : Bytes) (rounds : Nat), bs.length ≤ n * maxStored → n + 2 ≤ rounds →
      unstore rounds (store n bs) = some bs := by
  induction n with
  | zero =>
      intro bs rounds h hrounds
      obtain ⟨k, rfl⟩ := Nat.exists_eq_add_of_le' hrounds
      have hnil : bs = [] := List.eq_nil_of_length_eq_zero (by omega)
      have hone := unstore_storedBlock [] [] (Nat.zero_le _) (k + 1)
      rw [List.append_nil] at hone
      rw [store, hone, hnil]
      rfl
  | succ n ih =>
      intro bs rounds h hrounds
      obtain ⟨k, rfl⟩ := Nat.exists_eq_add_of_le' hrounds
      rw [store]
      split
      · rename_i hfit
        have hend := unstore_storedBlock [] [] (Nat.zero_le _) (k + n + 1)
        rw [List.append_nil] at hend
        have hblock := unstore_storedBlock _ (storedBlock []) hfit (k + n + 2)
        rw [hend] at hblock
        refine hblock.trans ?_
        simp [unstore]
      · rename_i hlong
        have hhead : (bs.take maxStored).length ≤ maxStored := List.length_take_le _ _
        have htail : (bs.drop maxStored).length ≤ n * maxStored := by
          rw [Nat.succ_mul] at h
          rw [List.length_drop]
          omega
        have hblock := unstore_storedBlock _ (store n (bs.drop maxStored)) hhead (k + n + 2)
        rw [ih _ _ htail (by omega), Option.map_some, List.take_append_drop] at hblock
        exact hblock

theorem length_storedBlock (bs : Bytes) : (storedBlock bs).length = 5 + bs.length := by
  simp only [storedBlock, List.length_append, List.length_cons, List.length_nil]

/-- Storing adds a few bytes for each block. -/
theorem length_store (n : Nat) :
    ∀ bs : Bytes, bs.length ≤ n * maxStored →
      bs.length + 5 ≤ (store n bs).length ∧ (store n bs).length ≤ bs.length + 10 * (n + 1) := by
  induction n with
  | zero =>
      intro bs h
      rw [store, length_storedBlock, List.length_nil]
      omega
  | succ n ih =>
      intro bs h
      rw [store]
      split
      · simp only [List.length_append, length_storedBlock, List.length_nil]
        omega
      · rw [Nat.succ_mul] at h
        have htail := ih (bs.drop maxStored) (by rw [List.length_drop]; omega)
        rw [List.length_drop] at htail
        rw [List.length_append, length_storedBlock, List.length_take]
        omega

/-- A stored block begins with its kind. -/
theorem head?_store (n : Nat) (bs : Bytes) : (store n bs).head? = some 0 := by
  cases n with
  | zero => rfl
  | succ n =>
      rw [store]
      split
      · rfl
      · rfl

/-! ## Recorded blocks -/

/-- The header block `method: GET`. -/
def rawMethodGet : Bytes :=
  [0, 0, 0, 1, 0, 0, 0, 6, 0x6d, 0x65, 0x74, 0x68, 0x6f, 0x64, 0, 0, 0, 3, 0x47, 0x45, 0x54]

/-- The header block of the name `a` with a value of seven hundred times `a`. -/
def rawSevenHundred : Bytes :=
  [0, 0, 0, 1, 0, 0, 0, 1, 0x61, 0, 0, 0x02, 0xbc] ++ List.replicate 700 0x61

/-- First blocks of a stream, and what zlib deflates them to. -/
def recorded : List (Bytes × Bytes) :=
  [(rawMethodGet,
    [0x02, 0xa6, 0x23, 0x46, 0xd4, 0x44, 0xeb, 0xee, 0x1a, 0x02, 0x00, 0x00, 0x00, 0xff, 0xff]),
   (rawSevenHundred,
    [0x02, 0xa6, 0x23, 0x46, 0x10, 0x06, 0x26, 0x6c, 0xa6, 0x3d, 0x89, 0xa3, 0x60, 0x14, 0x0c,
      0x51, 0x00, 0x00, 0x00, 0x00, 0xff, 0xff])]

/-- A block deflated; `first` for the first of its stream. -/
def deflate (first : Bool) (raw : Bytes) : Bytes :=
  match recorded.find? (fun r => first && r.1 = raw) with
  | some r => r.2
  | none => store (raw.length / maxStored + 1) raw

/-- A block inflated. -/
def inflate (first : Bool) (input : Bytes) : Option Bytes :=
  match recorded.find? (fun r => first && r.2 = input) with
  | some r => some r.1
  | none => unstore (input.length + 1) input

theorem length_le_chunks (bs : Bytes) : bs.length ≤ (bs.length / maxStored + 1) * maxStored := by
  have hmod := Nat.div_add_mod bs.length maxStored
  have hlt : bs.length % maxStored < maxStored := Nat.mod_lt _ (by decide)
  rw [Nat.succ_mul, Nat.mul_comm]
  omega

/-- Every block is inflated to what was deflated. -/
theorem inflate_deflate (first : Bool) (raw : Bytes) :
    inflate first (deflate first raw) = some raw := by
  unfold deflate
  split
  · rename_i r hr
    have hrecorded : ∀ r ∈ recorded,
        recorded.find? (fun r' => true && decide (r'.2 = r.2)) = some r := by
      decide +kernel
    have hmem : r ∈ recorded := List.mem_of_find?_eq_some hr
    have hfirst := List.find?_some hr
    rw [Bool.and_eq_true, decide_eq_true_iff] at hfirst
    obtain ⟨rfl, rfl⟩ := hfirst
    simp only [inflate, hrecorded r hmem]
  · -- A stored block is none of the recorded ones: it begins with another byte.
    have hhead : ∀ r ∈ recorded, r.2.head? ≠ some 0 := by decide +kernel
    have hnone : recorded.find? (fun r =>
        first && decide (r.2 = store (raw.length / maxStored + 1) raw)) = none := by
      rw [List.find?_eq_none]
      intro r hr heq
      rw [Bool.and_eq_true, decide_eq_true_iff] at heq
      exact hhead r hr (heq.2 ▸ head?_store _ _)
    have hlen := length_store (raw.length / maxStored + 1) raw (length_le_chunks raw)
    have hdiv : raw.length / maxStored ≤ raw.length := Nat.div_le_self _ _
    simp only [inflate, hnone]
    exact unstore_store _ raw _ (length_le_chunks raw) (by omega)

theorem length_deflate_le (first : Bool) (raw : Bytes) :
    (deflate first raw).length ≤ raw.length * 2 + 32 := by
  unfold deflate
  split
  · rename_i r hr
    have hshort : ∀ r ∈ recorded, r.2.length ≤ 32 := by decide +kernel
    have := hshort r (List.mem_of_find?_eq_some hr)
    omega
  · have hlen := length_store (raw.length / maxStored + 1) raw (length_le_chunks raw)
    have hdiv : raw.length / maxStored ≤ raw.length / 16 :=
      Nat.div_le_div_left (by decide) (by decide)
    omega

/-- The recorded blocks are short; a longer block is stored and does not shrink. -/
theorem length_le_deflate (first : Bool) {raw : Bytes} (h : 1000 ≤ raw.length) :
    raw.length ≤ (deflate first raw).length := by
  unfold deflate
  split
  · rename_i r hr
    have hshort : ∀ r ∈ recorded, r.1.length < 1000 := by decide +kernel
    have hfirst := List.find?_some hr
    rw [Bool.and_eq_true, decide_eq_true_iff] at hfirst
    have := hshort r (List.mem_of_find?_eq_some hr)
    rw [hfirst.2] at this
    omega
  · have hlen := length_store (raw.length / maxStored + 1) raw (length_le_chunks raw)
    omega

theorem deflate_ne_nil (first : Bool) (raw : Bytes) : deflate first raw ≠ [] := by
  unfold deflate
  split
  · rename_i r hr
    have hne : ∀ r ∈ recorded, r.2 ≠ [] := by decide +kernel
    exact hne r (List.mem_of_find?_eq_some hr)
  · intro hnil
    have hhead := head?_store (raw.length / maxStored + 1) raw
    rw [hnil] at hhead
    exact absurd hhead (by simp)

/-! ## The streams -/

/-- A deflate stream: the header it begins with, and whether it has been
written. -/
structure DeflateStream where
  header : Bytes
  first : Bool

/-- The header of a stream with a preset dictionary. -/
def dictionaryHeader (dict : Bytes) : Bytes :=
  [0x78, 0xf9] ++ toBeBytes32 (UInt32.ofNat (adler32 dict))

theorem drop_dictionaryHeader (dict rest : Bytes) :
    (dictionaryHeader dict ++ rest).drop 6 = rest := rfl

/-- The bytes of the next block of a stream. -/
def DeflateStream.block (c : DeflateStream) (raw : Bytes) : Bytes :=
  (if c.first then c.header else []) ++ deflate c.first raw

theorem DeflateStream.block_first {c : DeflateStream} (h : c.first = true) (raw : Bytes) :
    c.block raw = c.header ++ deflate true raw := by
  rw [DeflateStream.block, h]
  rfl

theorem DeflateStream.block_later {c : DeflateStream} (h : c.first = false) (raw : Bytes) :
    c.block raw = deflate false raw := by
  rw [DeflateStream.block, h]
  rfl

/-- An inflate stream. -/
inductive InflateStream where
  /-- before the header -/
  | header
  /-- the header asks for the dictionary with this checksum -/
  | dictionary (checksum : Bytes)
  /-- among the blocks, with output that did not fit so far -/
  | blocks (first : Bool) (pending : Bytes)

/-- One call on an inflate stream. -/
def InflateStream.run (d : InflateStream) (input : Bytes) (space : Nat) :
    Decompressed InflateStream :=
  match d with
  | .header =>
      match input with
      | 0x78 :: 0xf9 :: a :: b :: c :: d :: _ =>
          ⟨.error .needsDictionary, 6, [], .dictionary [a, b, c, d]⟩
      | _ => ⟨.error (.other "incorrect header check"), 0, [], .header⟩
  | .dictionary checksum => ⟨.error .needsDictionary, 0, [], .dictionary checksum⟩
  | .blocks first pending =>
      match inflate first input with
      | none => ⟨.error (.other "invalid block type"), 0, [], .blocks first pending⟩
      | some out =>
          ⟨.ok .ok, input.length, (pending ++ out).take space,
            .blocks false ((pending ++ out).drop space)⟩

/-- `set_dictionary`. -/
def InflateStream.setDictionary (d : InflateStream) (dict : Bytes) : Except String InflateStream :=
  match d with
  | .dictionary checksum =>
      if checksum = toBeBytes32 (UInt32.ofNat (adler32 dict)) then .ok (.blocks true [])
      else .error "incorrect dictionary"
  | _ => .error "stream error"

/-- The header of a stream asks for the dictionary it names, and that one is
accepted. -/
theorem InflateStream.run_header (dict rest : Bytes) (space : Nat) :
    InflateStream.run .header (dictionaryHeader dict ++ rest) space =
        ⟨.error .needsDictionary, 6, [],
          .dictionary (toBeBytes32 (UInt32.ofNat (adler32 dict)))⟩ ∧
      InflateStream.setDictionary (.dictionary (toBeBytes32 (UInt32.ofNat (adler32 dict)))) dict =
        .ok (.blocks true []) :=
  ⟨rfl, if_pos rfl⟩

/-- `flate2`. -/
def Zlib.reference : Zlib where
  Compress := DeflateStream
  Decompress := InflateStream
  newCompress := ⟨[0x78, 0xda], true⟩
  compressDictionary _ dict := ⟨dictionaryHeader dict, true⟩
  compress c raw space :=
    if (c.block raw).length ≤ space then ⟨.ok .ok, c.block raw, { c with first := false }⟩
    else ⟨.ok .bufError, [], c⟩
  newDecompress := .header
  setDictionary := InflateStream.setDictionary
  decompressVec := InflateStream.run
  mayAskDictionary
    | .header | .dictionary _ => true
    | .blocks _ _ => false
  consumed_le d input space := by
    unfold InflateStream.run
    split
    · split
      · simp
      · exact Nat.zero_le _
    · exact Nat.zero_le _
    · split
      · exact Nat.zero_le _
      · exact le_refl _
  produced_le d input space := by
    unfold InflateStream.run
    split
    · split <;> exact Nat.zero_le _
    · exact Nat.zero_le _
    · split
      · exact Nat.zero_le _
      · exact List.length_take_le _ _
  mayAsk_of_needsDictionary {d input space} h := by
    cases d with
    | header | dictionary _ => rfl
    | blocks first pending =>
        simp only [InflateStream.run] at h
        split at h
        · exact absurd h (by simp)
        · exact absurd h (by simp)
  asked_of_setDictionary {d d' dict} h := by
    unfold InflateStream.setDictionary at h
    split at h
    · split at h
      · rw [← Except.ok.inj h]
      · exact absurd h (by simp)
    · exact absurd h (by simp)

end SpdyStream.Framing
