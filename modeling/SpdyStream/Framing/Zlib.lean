/-
  Framing/Zlib.lean --- the calls into `flate2` that the framer makes.

  The library is not part of this repository and is a parameter.  Each call is
  a function of the stream state and the arguments, and gives the new state with
  what the call reports.  The laws are the ones its interface promises whatever
  the input: a call consumes no more than it is given, produces no more than
  there is room for, and a stream that has been given its preset dictionary
  does not ask for one.
-/
import SpdyStream.Foundation.Words

set_option autoImplicit false

namespace SpdyStream.Framing

open SpdyStream.Foundation

/-- `flate2::Status`. -/
inductive Status where
  | ok
  | bufError
  | streamEnd
  deriving DecidableEq, Repr

/-- `flate2::DecompressError`. -/
inductive DecompressError where
  /-- `needs_dictionary().is_some()` -/
  | needsDictionary
  | other (message : String)
  deriving DecidableEq, Repr

/-- What one `compress` call did. -/
structure Compressed (σ : Type) where
  status : Except String Status
  /-- the bytes put into the output buffer, `total_out` apart -/
  produced : Bytes
  state : σ

/-- What one `decompress_vec` call did. -/
structure Decompressed (σ : Type) where
  status : Except DecompressError Status
  /-- by how much `total_in` has grown -/
  consumed : Nat
  /-- the bytes pushed to the output vector -/
  produced : Bytes
  state : σ

/-- `flate2` with zlib streams. -/
structure Zlib where
  /-- `flate2::Compress` -/
  Compress : Type
  /-- `flate2::Decompress` -/
  Decompress : Type
  /-- `Compress::new(Compression::best(), true)` -/
  newCompress : Compress
  /-- `Compress::set_dictionary` on a new stream, which accepts it -/
  compressDictionary : Compress → Bytes → Compress
  /-- `compress(input, output, FlushCompress::Sync)` with this much output space -/
  compress : Compress → Bytes → Nat → Compressed Compress
  /-- `Decompress::new(true)` -/
  newDecompress : Decompress
  /-- `Decompress::set_dictionary` -/
  setDictionary : Decompress → Bytes → Except String Decompress
  /-- `decompress_vec(input, output, FlushDecompress::Sync)` with this much spare
  capacity in the output -/
  decompressVec : Decompress → Bytes → Nat → Decompressed Decompress
  /-- the stream may still ask for a preset dictionary -/
  mayAskDictionary : Decompress → Bool
  consumed_le : ∀ (d : Decompress) (input : Bytes) (space : Nat),
    (decompressVec d input space).consumed ≤ input.length
  produced_le : ∀ (d : Decompress) (input : Bytes) (space : Nat),
    (decompressVec d input space).produced.length ≤ space
  mayAsk_of_needsDictionary : ∀ {d : Decompress} {input : Bytes} {space : Nat},
    (decompressVec d input space).status = .error .needsDictionary → mayAskDictionary d = true
  asked_of_setDictionary : ∀ {d d' : Decompress} {dict : Bytes},
    setDictionary d dict = .ok d' → mayAskDictionary d' = false

end SpdyStream.Framing
