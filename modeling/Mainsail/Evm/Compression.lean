import Mainsail.Serializer.ByteBuffer

/-!
# Compressed values

`compression.rs`, the encoding of most values of the database. A value is serialized with bincode
and then compressed with zstd if that makes it smaller. The first byte says which of the two forms
is stored, and the compressed form begins with the length before compression.

bincode and zstd are any codecs that lose nothing.
-/

namespace Mainsail.Evm

open Endian Except

structure Bincode (α : Type) where
  serialize : α → Except String Bytes
  deserialize : Bytes → Except String α
  lossless : ∀ {a raw}, serialize a = .ok raw → deserialize raw = .ok a

structure Zstd where
  compress : Bytes → Except String Bytes
  /-- The second argument is the capacity of the buffer for the result. -/
  decompress : Bytes → Nat → Except String Bytes
  lossless : ∀ {raw compressed capacity}, compress raw = .ok compressed →
    raw.length ≤ capacity → decompress compressed capacity = .ok raw

namespace CompactBincode

def tagRaw : UInt8 := 0

def tagZstd : UInt8 := 1

def minCompressLen : Nat := 256

def maxDecompressedLen : Nat := 256 * 1024 * 1024

variable {α : Type} (bincode : Bincode α) (zstd : Zstd)

def bytesEncode (item : α) : Except String Bytes := do
  let raw ← bincode.serialize item
  if 2 ^ 32 ≤ raw.length then
    .error ("CompressedBincode: value too large (" ++ toString raw.length ++ " bytes)")
  else if minCompressLen ≤ raw.length then do
    let compressed ← zstd.compress raw
    if compressed.length + 4 < raw.length then
      .ok (tagZstd :: (little 4 raw.length ++ compressed))
    else .ok (tagRaw :: raw)
  else .ok (tagRaw :: raw)

def bytesDecode : Bytes → Except String α
  | [] => .error "CompressedBincode: empty value"
  | tag :: payload =>
    if tag = tagZstd then
      if payload.length < 4 then .error "CompressedBincode: truncated zstd header"
      else
        let origLen := ofLittle (payload.take 4)
        if maxDecompressedLen < origLen then
          .error ("CompressedBincode: implausible original length " ++ toString origLen)
        else zstd.decompress (payload.drop 4) origLen >>= bincode.deserialize
    else if tag = tagRaw then bincode.deserialize payload
    else .error ("CompressedBincode: unknown tag " ++ toString tag)

variable {bincode zstd} {item : α} {compressed stored : Bytes}

/-- The two forms in which a value is stored. -/
theorem bytesEncode_cases (encoded : bytesEncode bincode zstd item = .ok stored) :
    ∃ raw, bincode.serialize item = .ok raw ∧ raw.length < 2 ^ 32 ∧
      (stored = tagRaw :: raw ∧ (minCompressLen ≤ raw.length → ∃ compressed,
          zstd.compress raw = .ok compressed ∧ raw.length ≤ compressed.length + 4) ∨
        ∃ compressed, zstd.compress raw = .ok compressed ∧ compressed.length + 4 < raw.length ∧
          stored = tagZstd :: (little 4 raw.length ++ compressed)) := by
  obtain ⟨raw, serialized, rest⟩ := bind_eq_ok.mp encoded
  split at rest
  · cases rest
  · next small =>
    refine ⟨raw, serialized, Nat.not_le.mp small, ?_⟩
    split at rest
    · obtain ⟨compressed, done, rest⟩ := bind_eq_ok.mp rest
      split at rest
      · next shorter => exact .inr ⟨compressed, done, shorter, (ok.inj rest).symm⟩
      · next longer =>
        exact .inl ⟨(ok.inj rest).symm, fun _ => ⟨compressed, done, Nat.not_lt.mp longer⟩⟩
    · next short => exact .inl ⟨(ok.inj rest).symm, fun long => absurd long short⟩

theorem bytesDecode_zstd {origLen : Nat} (small : origLen < 2 ^ 32) :
    bytesDecode bincode zstd (tagZstd :: (little 4 origLen ++ compressed)) =
      if maxDecompressedLen < origLen then
        .error ("CompressedBincode: implausible original length " ++ toString origLen)
      else zstd.decompress compressed origLen >>= bincode.deserialize := by
  have header : (little 4 origLen ++ compressed).take 4 = little 4 origLen :=
    List.take_left' (length_little ..)
  have rest : (little 4 origLen ++ compressed).drop 4 = compressed :=
    List.drop_left' (length_little ..)
  rw [bytesDecode, if_pos rfl, if_neg (by simp), header, rest, ofLittle_little small]

/-- What is stored is read back unless it is compressed and longer than what the decoder
admits. -/
theorem decodes_iff_le_limit (encoded : bytesEncode bincode zstd item = .ok stored) :
    bytesDecode bincode zstd stored = .ok item ↔
      ∀ raw compressed, bincode.serialize item = .ok raw → zstd.compress raw = .ok compressed →
        compressed.length + 4 < raw.length → raw.length ≤ maxDecompressedLen := by
  obtain ⟨raw, serialized, small, ⟨rfl, kept⟩ | ⟨compressed, done, shorter, rfl⟩⟩ :=
    bytesEncode_cases encoded
  · refine iff_of_true (bincode.lossless serialized) ?_
    intro raw' compressed serialized' done shorter
    obtain rfl := ok.inj (serialized.symm.trans serialized')
    by_cases long : minCompressLen ≤ raw.length
    · obtain ⟨compressed', done', longer⟩ := kept long
      obtain rfl := ok.inj (done.symm.trans done')
      omega
    · exact (Nat.not_le.mp long).le.trans (by decide)
  · rw [bytesDecode_zstd small]
    constructor
    · intro decoded raw' _ serialized' _ _
      obtain rfl := ok.inj (serialized.symm.trans serialized')
      split at decoded
      · cases decoded
      · next within => exact Nat.not_lt.mp within
    · intro within
      rw [if_neg (Nat.not_lt.mpr (within _ _ serialized done shorter)),
        zstd.lossless done le_rfl]
      exact bincode.lossless serialized

namespace Sample

/-- A number as that many zeros. -/
def zeros : Bincode Nat where
  serialize n := .ok (List.replicate n 0)
  deserialize raw := .ok raw.length
  lossless := by
    rintro n raw serialized
    rw [← ok.inj serialized, List.length_replicate]

/-- A run of zeros as its length. -/
def runLength : Zstd where
  compress raw := .ok (if raw = List.replicate raw.length 0 ∧ raw.length < 2 ^ 32 then
    1 :: little 4 raw.length else 0 :: raw)
  decompress compressed _ := .ok (if compressed.head? = some 1 then
    List.replicate (ofLittle compressed.tail) 0 else compressed.tail)
  lossless := by
    rintro raw compressed capacity done -
    obtain rfl := ok.inj done
    split
    · next run =>
      rw [List.head?_cons, if_pos rfl, List.tail_cons, ofLittle_little run.2, ← run.1]
    · rfl

theorem bytesEncode_zeros {n : Nat} (long : minCompressLen ≤ n) (small : n < 2 ^ 32) :
    bytesEncode zeros runLength n = .ok (tagZstd :: (little 4 n ++ 1 :: little 4 n)) := by
  have shorter : 9 < n := (show 9 < minCompressLen by decide).trans_le long
  have below : n < 4294967296 := small
  simp [bytesEncode, zeros, runLength, long, below, below.not_ge, shorter, bind, Except.bind]

end Sample

open Sample

theorem decodes_iff_le_limit_zeros : ∃ stored, bytesEncode zeros runLength 300 = .ok stored ∧
      bytesDecode zeros runLength stored = .ok 300 := by
  have encoded := bytesEncode_zeros (n := 300) (by decide) (by decide)
  refine ⟨_, encoded, (decodes_iff_le_limit encoded).mpr ?_⟩
  intro raw _ serialized _ _
  rw [← ok.inj serialized, List.length_replicate]
  decide

/-- A little over 256 MiB of zeros is stored, and then cannot be read. -/
theorem zeros_over_limit : ∃ stored,
    bytesEncode zeros runLength (maxDecompressedLen + 1) = .ok stored ∧
      bytesDecode zeros runLength stored = .error
        ("CompressedBincode: implausible original length " ++ toString (maxDecompressedLen + 1)) := by
  refine ⟨_, bytesEncode_zeros (by decide) (by decide), ?_⟩
  rw [bytesDecode_zstd (by decide), if_pos (Nat.lt_succ_self _)]

end Mainsail.Evm.CompactBincode
