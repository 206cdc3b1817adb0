import TesserasDht.Code.Basic
import TesserasDht.Lib.Slices

/-!
# Erasure coding

`src/erasure/mod.rs`. The `reed-solomon-erasure` and `sha2` crates are parameters. The products
`(i + 1) * size` stay below `2^64` for every `Vec<u8>`, so they are plain numbers here.
-/

open Lib.Slices

namespace TesserasDht

def defaultBlockSize : Nat := 256 * 1024

/-! ## The configuration -/

structure ErasureConfig where
  dataShards : UInt64
  parityShards : UInt64
deriving DecidableEq, Repr

def ErasureConfig.default : ErasureConfig := ⟨10, 4⟩

def ErasureConfig.new (b : Build) (dataShards parityShards : UInt64) : Outcome ErasureConfig :=
  if dataShards = 0 then
    fail (.erasureCoding "data_shards must be >= 1")
  else if parityShards = 0 then
    fail (.erasureCoding "parity_shards must be >= 1")
  else do
    let total ← b.add dataShards.toNat parityShards.toNat
    if 256 < total then
      fail (.erasureCoding s!"total shards {total} exceeds GF(2^8) limit of 256")
    else
      return ⟨dataShards, parityShards⟩

def ErasureConfig.totalShards (b : Build) (c : ErasureConfig) : Outcome Nat :=
  b.add c.dataShards.toNat c.parityShards.toNat

/-! ## The crate -/

/-- `reed_solomon_erasure::galois_8::ReedSolomon` for `d` data and `p` parity shards. An error is
the text it prints. -/
structure ReedSolomon where
  new : (d p : Nat) → Except String Unit
  encode : (d p : Nat) → List Bytes → Except String (List Bytes)
  reconstruct : (d p : Nat) → List (Option Bytes) → Except String (List (Option Bytes))

/-- `.map_err(|e| TesseraError::ErasureCoding(format!("<what>: {}", e)))?` -/
def orErasure {α : Type} (what : String) : Except String α → Outcome α
  | .ok a => .ok a
  | .error e => fail (.erasureCoding s!"{what}: {e}")

/-! ## One block -/

structure EncodedTessera where
  chunks : List Bytes
  chunkHashes : List Hash
  config : ErasureConfig
  originalLen : Nat

/-- `&data[start..end]` with `start = i * size` and `end = ((i + 1) * size).min(data.len())`, or
nothing when `start` is past the end. -/
def sliceAt (data : Bytes) (size i : Nat) : Bytes :=
  if i * size < data.length then
    (data.drop (i * size)).take (min ((i + 1) * size) data.length - i * size)
  else
    []

/-- `Vec::resize`. -/
def resize (v : Bytes) (n : Nat) (x : UInt8) : Bytes := v.take n ++ List.replicate (n - v.length) x

section

variable (rs : ReedSolomon) (sha256 : Bytes → Hash)

def encode (b : Build) (data : Bytes) (config : ErasureConfig) : Outcome EncodedTessera := do
  let d := config.dataShards.toNat
  let p := config.parityShards.toNat
  let _ ← orErasure "init" (rs.new d p)
  let shardSize := divCeil data.length d
  let _ ← config.totalShards b
  let shards := (List.range d).map fun i => resize (sliceAt data shardSize i) shardSize 0
  let parity := List.replicate p (List.replicate shardSize 0)
  let shards ← orErasure "encode" (rs.encode d p (shards ++ parity))
  return { chunks := shards, chunkHashes := shards.map sha256, config, originalLen := data.length }

def decode (b : Build) (shards : List (Option Bytes)) (config : ErasureConfig) (originalLen : Nat) :
    Outcome Bytes := do
  let d := config.dataShards.toNat
  let p := config.parityShards.toNat
  let total ← config.totalShards b
  let got := shards.length
  if got ≠ total then
    fail (.erasureCoding s!"expected {total} shards, got {got}")
  else
    let present := shards.countP Option.isSome
    if present < d then
      fail (.insufficientChunks d present)
    else do
      let _ ← orErasure "init" (rs.new d p)
      let shards ← orErasure "reconstruct" (rs.reconstruct d p shards)
      withCapacity originalLen
      return ((shards.take d).filterMap id).flatten.take originalLen

/-! ## Many blocks -/

structure EncodedBlocks where
  blocks : List EncodedTessera
  blockSize : Nat
  originalLen : Nat

def encodeBlocks (b : Build) (data : Bytes) (config : ErasureConfig) (blockSize : Nat) :
    Outcome EncodedBlocks := do
  let numBlocks ←
    if data = [] then pure 1
    else if blockSize = 0 then .error (.panic .divideByZero)
    else pure (divCeil data.length blockSize)
  let blocks ← (List.range numBlocks).mapM fun i => encode rs sha256 b (sliceAt data blockSize i) config
  return { blocks, blockSize, originalLen := data.length }

/-- The loop of `decode_blocks`, from block `i` on. -/
def decodeBlocksFrom (b : Build) (config : ErasureConfig) (numBlocks blockSize originalLen : Nat) :
    Nat → List (List (Option Bytes)) → Outcome Bytes
  | _, [] => .ok []
  | i, shards :: rest => do
    let blockOriginalLen ←
      if i = numBlocks - 1 then do
        let before ← b.mul (numBlocks - 1) blockSize
        b.sub originalLen before
      else
        pure blockSize
    let decoded ← decode rs b shards config blockOriginalLen
    let result ← decodeBlocksFrom b config numBlocks blockSize originalLen (i + 1) rest
    return decoded ++ result

def decodeBlocks (b : Build) (blockShards : List (List (Option Bytes))) (config : ErasureConfig)
    (blockSize originalLen : Nat) : Outcome Bytes := do
  withCapacity originalLen
  decodeBlocksFrom rs b config blockShards.length blockSize originalLen 0 blockShards

end

end TesserasDht
