/-
  Framing/Http.lean --- the parts of the `http` crate that the framer calls.

  The crate is not part of this repository, so what it decides is a parameter:
  which bytes `HeaderName::from_bytes` and `HeaderValue::from_bytes` accept, the
  texts of their errors, and how the size of a `HeaderMap` is counted against
  its limit.  The fields ending in a law state documented behaviour.

  A `HeaderMap` is represented by its pairs, those of one name in the order
  `HeaderMap::iter` visits them.  How the names are interleaved is not the order
  of the crate, which visits all values of a name together; nothing below depends
  on it, and two maps are compared by the values of each name (`HeaderMap.Same`).
-/
import SpdyStream.Foundation.Multimap
import SpdyStream.Framing.Frame

set_option autoImplicit false

namespace SpdyStream.Framing

open SpdyStream.Foundation

/-- Byte strings are ordered as `String` orders its bytes. -/
instance linearOrderUInt8 : LinearOrder UInt8 where
  le_refl _ := UInt8.le_refl _
  le_trans _ _ _ := UInt8.le_trans
  le_antisymm _ _ := UInt8.le_antisymm
  le_total := UInt8.le_total
  lt_iff_le_not_ge a b := by
    simp only [UInt8.le_iff_toNat_le, UInt8.lt_iff_toNat_lt]
    omega
  toDecidableLE := inferInstance

/-- ASCII lower case. -/
def toAsciiLowercase (b : UInt8) : UInt8 :=
  if 65 ≤ b.toNat ∧ b.toNat ≤ 90 then b + 32 else b

/-- The `http` crate. -/
structure Http where
  /-- `HeaderName::from_bytes`, giving the bytes of the name it builds -/
  headerName : Bytes → Option Bytes
  /-- the text of `InvalidHeaderName` -/
  invalidHeaderName : String
  /-- whether `HeaderValue::from_bytes` accepts the bytes -/
  headerValue : Bytes → Bool
  /-- the text of `InvalidHeaderValue` -/
  invalidHeaderValue : String
  /-- the size of a map with this many names and this many pairs -/
  size : Nat → Nat → Nat
  /-- a name is its bytes folded to lower case -/
  headerName_lowercase : ∀ {b n : Bytes}, headerName b = some n → n = b.map toAsciiLowercase
  /-- the bytes of a name are accepted and name it again -/
  headerName_self : ∀ {b n : Bytes}, headerName b = some n → headerName n = some n
  /-- no value holds a NUL byte -/
  headerValue_nul : ∀ {v : Bytes}, headerValue v = true → 0 ∉ v
  /-- an empty map has size zero -/
  size_zero : size 0 0 = 0
  /-- a map does not shrink when names or pairs are added -/
  size_mono : ∀ {n n' p p' : Nat}, n ≤ n' → p ≤ p' → size n p ≤ size n' p'
  /-- every name counts -/
  le_size : ∀ {n p : Nat}, n ≤ p → n ≤ size n p

/-- The most entries a `HeaderMap` holds. -/
def maxHeaderMapSize : Nat := 32768

variable {X : Http}

/-- A `HeaderName`: the bytes of a name the crate accepts, in lower case. -/
structure HeaderName (X : Http) where
  /-- `HeaderName::as_str` -/
  asStr : Bytes
  accepted : X.headerName asStr = some asStr
  deriving DecidableEq

/-- A `HeaderValue`: bytes the crate accepts. -/
structure HeaderValue (X : Http) where
  /-- `HeaderValue::as_bytes` -/
  asBytes : Bytes
  accepted : X.headerValue asBytes = true
  deriving DecidableEq

theorem HeaderName.asStr_injective : Function.Injective (HeaderName.asStr (X := X)) := by
  rintro ⟨n, hn⟩ ⟨n', hn'⟩ h
  cases h
  rfl

theorem HeaderValue.nul_notMem (v : HeaderValue X) : 0 ∉ v.asBytes := X.headerValue_nul v.accepted

/-- `HeaderName::from_bytes`. -/
def HeaderName.fromBytes (X : Http) (b : Bytes) : Except Fault (HeaderName X) :=
  match h : X.headerName b with
  | some n => .ok ⟨n, X.headerName_self h⟩
  | none => .error (.error (.protocol ("invalid header name: " ++ X.invalidHeaderName)))

/-- `HeaderValue::from_bytes`. -/
def HeaderValue.fromBytes (X : Http) (b : Bytes) : Except Fault (HeaderValue X) :=
  if h : X.headerValue b = true then .ok ⟨b, h⟩
  else .error (.error (.protocol ("invalid header value: " ++ X.invalidHeaderValue)))

@[simp] theorem HeaderName.fromBytes_asStr (n : HeaderName X) :
    HeaderName.fromBytes X n.asStr = .ok n := by
  unfold HeaderName.fromBytes
  split
  · rename_i m hm
    have hmn : m = n.asStr := Option.some.inj (hm.symm.trans n.accepted)
    exact congrArg Except.ok (HeaderName.asStr_injective hmn)
  · rename_i hm
    exact absurd (hm.symm.trans n.accepted) (by simp)

theorem HeaderName.fromBytes_error {b : Bytes} {f : Fault}
    (h : HeaderName.fromBytes X b = .error f) :
    f = .error (.protocol ("invalid header name: " ++ X.invalidHeaderName)) := by
  unfold HeaderName.fromBytes at h
  split at h
  · exact absurd h (by simp)
  · exact (Except.error.inj h).symm

theorem HeaderValue.fromBytes_of_accepted {b : Bytes} (h : X.headerValue b = true) :
    HeaderValue.fromBytes X b = .ok ⟨b, h⟩ := by
  rw [HeaderValue.fromBytes, dif_pos h]

theorem HeaderValue.fromBytes_of_not {b : Bytes} (h : ¬ X.headerValue b = true) :
    HeaderValue.fromBytes X b =
      .error (.error (.protocol ("invalid header value: " ++ X.invalidHeaderValue))) := by
  rw [HeaderValue.fromBytes, dif_neg h]

/-! ## Header maps -/

/-- The size of the map with these pairs. -/
def pairsSize (X : Http) (ps : List (HeaderName X × HeaderValue X)) : Nat :=
  X.size (keyCount ps) ps.length

/-- A `HeaderMap`, as its pairs, those of one name in the order of `iter`. -/
structure HeaderMap (X : Http) where
  iter : List (HeaderName X × HeaderValue X)
  size_le : pairsSize X iter ≤ maxHeaderMapSize
  deriving DecidableEq

/-- `HeaderMap::new`. -/
def HeaderMap.new (X : Http) : HeaderMap X where
  iter := []
  size_le := by
    have h : pairsSize X [] = 0 := X.size_zero
    rw [h]
    exact Nat.zero_le _

/-- Every name has the same values in the same order. -/
def HeaderMap.Same (m m' : HeaderMap X) : Prop := SameValues m.iter m'.iter

theorem pairsSize_mono {ps qs : List (HeaderName X × HeaderValue X)} (h : ps <+: qs) :
    pairsSize X ps ≤ pairsSize X qs :=
  X.size_mono (keyCount_mono h) h.length_le

theorem pairsSize_congr {ps qs : List (HeaderName X × HeaderValue X)} (h : SameValues ps qs) :
    pairsSize X ps = pairsSize X qs := by
  rw [pairsSize, pairsSize, h.keyCount_eq, h.length_eq]

/-- Every name of a map counts against the limit, whatever else does. -/
theorem keyCount_le_pairsSize (ps : List (HeaderName X × HeaderValue X)) :
    keyCount ps ≤ pairsSize X ps :=
  X.le_size (keyCount_le_length ps)

/-- `HeaderMap::append`: it panics rather than exceed the maximum size. -/
def HeaderMap.append (m : HeaderMap X) (name : HeaderName X) (value : HeaderValue X) :
    Except Fault (HeaderMap X) :=
  if h : pairsSize X (m.iter ++ [(name, value)]) ≤ maxHeaderMapSize then
    .ok ⟨m.iter ++ [(name, value)], h⟩
  else .error .panic

end SpdyStream.Framing
