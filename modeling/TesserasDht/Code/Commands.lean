import TesserasDht.Code.Node

/-!
# The store and get commands

`cmd_store` and `cmd_get` of `src/bin/tessera-node.rs`, without their progress output. The `hex` crate is a
parameter, and an argument is the list of its characters. The node is an ephemeral one that has been
bootstrapped.
-/

namespace TesserasDht

/-- `hex::encode` and `hex::decode`. An error is the text it prints. -/
structure Hex where
  encode : Bytes → List Char
  decode : List Char → Except String Bytes

/-- `char::is_whitespace`. -/
def isWhitespace (c : Char) : Bool :=
  let n := c.toNat
  9 ≤ n ∧ n ≤ 13 ∨ n = 0x20 ∨ n = 0x85 ∨ n = 0xa0 ∨ n = 0x1680 ∨ 0x2000 ≤ n ∧ n ≤ 0x200a ∨ n = 0x2028 ∨
    n = 0x2029 ∨ n = 0x202f ∨ n = 0x205f ∨ n = 0x3000

/-- `str::trim`. -/
def trim (text : List Char) : List Char :=
  ((text.dropWhile isWhitespace).reverse.dropWhile isWhitespace).reverse

/-! ## How a command ends early -/

/-- What is printed before `std::process::exit(1)`. -/
inductive ExitError
  | bootstrapFailed (e : TesseraError)
  | storeFailed (e : TesseraError)
  | retrieveFailed (e : TesseraError)
  | invalidHex (e : String)
  | hashLength (got : Nat)
  | hashCount (expected got : Nat)
deriving DecidableEq

inductive Stop
  | exit (e : ExitError)
  | panic (f : Failure)
deriving DecidableEq

/-- `.expect(..)`. -/
def expect {α : Type} : Outcome α → Except Stop α
  | .ok a => .ok a
  | .error f => .error (.panic f)

/-- The reply of the node to a command. If its task panics, the reply channel is dropped. -/
def orExit {α : Type} (what : TesseraError → ExitError) : Outcome α → Except Stop α
  | .ok a => .ok a
  | .error (.error e) => .error (.exit (what e))
  | .error (.panic _) => .error (.exit (what (.network "node stopped")))

/-! ## Store -/

/-- The arguments of `cmd_get` that `cmd_store` prints. -/
structure RetrievalMetadata where
  hashes : List Char
  dataShards : UInt64
  parityShards : UInt64
  originalLen : UInt64
deriving DecidableEq

section

variable (hex : Hex) (rs : ReedSolomon) (sha256 : Bytes → Hash) (codec : Codec) (b : Build)

def cmdStore (env : StoreEnv) (file : Outcome VecU8) (bootstrapped : Outcome Node) (dataShards parityShards : UInt64) :
    Except Stop RetrievalMetadata := do
  let data ← expect file
  let node ← orExit .bootstrapFailed bootstrapped
  let config ← expect (ErasureConfig.new b dataShards parityShards)
  let result ← orExit .storeFailed (doStoreTessera rs sha256 codec b env node data config).1
  return { hashes := [','].intercalate (result.chunkHashes.map fun h => hex.encode h.bytes),
           dataShards := result.config.dataShards, parityShards := result.config.parityShards,
           originalLen := result.originalLen }

/-! ## Get -/

def parseHash (h : List Char) : Except Stop Hash :=
  match hex.decode (trim h) with
  | .error e => .error (.exit (.invalidHex e))
  | .ok bytes => match toArray32 bytes with
    | none => .error (.exit (.hashLength bytes.length))
    | some arr => .ok arr

/-- The result is the content of the output file. -/
def cmdGet (net manifestNet : Net) (lookup : Node → Node) (bootstrapped : Outcome Node) (written : Outcome Unit)
    (hashes : List Char) (dataShards parityShards originalLen : UInt64) : Except Stop Bytes := do
  let chunkHashes ← (hashes.splitOn ',').mapM (parseHash hex)
  let config ← expect (ErasureConfig.new b dataShards parityShards)
  let expected ← expect (config.totalShards b)
  if chunkHashes.length ≠ expected then
    .error (.exit (.hashCount expected chunkHashes.length))
  else do
    let node ← orExit .bootstrapFailed bootstrapped
    let result : StoreTesseraResult :=
      { chunkHashes, config, originalLen, blockSize := 0, manifestHash := none }
    let data ← orExit .retrieveFailed
      (doRetrieveTessera rs sha256 codec b net manifestNet lookup result node).1
    expect written
    return data

end

end TesserasDht
