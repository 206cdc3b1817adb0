import TesserasDht.Lib.MessagePack
import TesserasDht.Code.Node

/-!
# Tokens and manifests as values

What `serde` derives for the types of `src/node.rs`, and `Display` of `StoreTesseraResult`. The bytes
of MessagePack values and base64 are parameters.
-/

open Lib.MessagePack

namespace TesserasDht

/-- `rmp_serde` and `base64`. An error is the text it prints. -/
structure Serde where
  encode : Value → Bytes
  decode : Bytes → Except String Value
  /-- What is said of a value that is not one of the type. -/
  mismatch : Value → String
  toBase64 : Bytes → String
  fromBase64 : String → Except String Bytes

namespace Serde

/-! ## Fields -/

def name (c : Char) : List UInt8 := [UInt8.ofNat c.toNat]

def ofBytes (v : Bytes) : Value := .array (v.map fun x => .uint x.toUInt64)

def ofHashes (hs : List Bytes) : Value := .array (hs.map ofBytes)

def toByte : Value → Option UInt8
  | .uint n => if n.toNat < 256 then some n.toUInt8 else none
  | _ => none

def toBytes : Value → Option Bytes
  | .array xs => xs.mapM toByte
  | _ => none

def toHashes : Value → Option (List Bytes)
  | .array xs => xs.mapM toBytes
  | _ => none

def toWord : Value → Option UInt64
  | .uint n => some n
  | _ => none

/-- The `i`-th of `count` fields, if the value has it. An array holds the fields in order, and a map
each field at most once. -/
def field (v : Value) (count i : Nat) (c : Char) : Option (Option Value) :=
  match v with
  | .array xs => if xs.length ≤ count then some xs[i]? else none
  | .map xs =>
    match xs.filter fun x => x.1 = name c with
    | [] => some none
    | [x] => some (some x.2)
    | _ => none
  | _ => none

/-- A field with `#[serde(default)]`. -/
def defaulted {α : Type} (default : α) (read : Value → Option α) : Option Value → Option α
  | none => some default
  | some v => read v

def required {α : Type} (read : Value → Option α) : Option Value → Option α
  | none => none
  | some v => read v

/-- A field that is skipped when it is zero. -/
def word (c : Char) (n : UInt64) : List (List UInt8 × Value) :=
  if n = 0 then [] else [(name c, .uint n)]

end Serde

open Serde

/-! ## The types -/

/-- `rmp_serde::to_vec` writes a struct as an array. -/
def TesseraManifest.toValue (m : TesseraManifest) : Value :=
  .array ([ofHashes m.h, .uint m.d, .uint m.p, .uint m.l] ++ if m.b = 0 then [] else [.uint m.b])

def TesseraManifest.fromValue (v : Value) : Option TesseraManifest := do
  let h ← required toHashes (← field v 5 0 'h')
  let d ← required toWord (← field v 5 1 'd')
  let p ← required toWord (← field v 5 2 'p')
  let l ← required toWord (← field v 5 3 'l')
  let b ← defaulted 0 toWord (← field v 5 4 'b')
  return { h, d, p, l, b }

/-- `rmp_serde::to_vec_named` writes a struct as a map. -/
def StoreTesseraResultToken.toValue (t : StoreTesseraResultToken) : Value :=
  .map ((if t.h = [] then [] else [(name 'h', ofHashes t.h)]) ++ word 'd' t.d ++ word 'p' t.p ++
    word 'l' t.l ++ word 'b' t.b ++ if t.m = [] then [] else [(name 'm', ofBytes t.m)])

def StoreTesseraResultToken.fromValue (v : Value) : Option StoreTesseraResultToken := do
  let h ← defaulted [] toHashes (← field v 6 0 'h')
  let d ← defaulted 0 toWord (← field v 6 1 'd')
  let p ← defaulted 0 toWord (← field v 6 2 'p')
  let l ← defaulted 0 toWord (← field v 6 3 'l')
  let b ← defaulted 0 toWord (← field v 6 4 'b')
  let m ← defaulted [] toBytes (← field v 6 5 'm')
  return { h, d, p, l, b, m }

/-! ## The codec -/

/-- `rmp_serde::from_slice`. -/
def Serde.fromSlice {α : Type} (S : Serde) (read : Value → Option α) (bytes : Bytes) :
    Except String α :=
  match S.decode bytes with
  | .error e => .error e
  | .ok v => match read v with
    | some a => .ok a
    | none => .error (S.mismatch v)

def Serde.codec (S : Serde) : Codec where
  encodeManifest m := S.encode m.toValue
  decodeManifest := S.fromSlice TesseraManifest.fromValue
  decodeToken := S.fromSlice StoreTesseraResultToken.fromValue
  decodeBase64 := S.fromBase64

/-- A result with a manifest has a token of its hash alone. -/
def StoreTesseraResult.token (r : StoreTesseraResult) : StoreTesseraResultToken :=
  match r.manifestHash with
  | some mh => { h := [], d := 0, p := 0, l := 0, b := 0, m := mh.bytes }
  | none =>
    { h := r.chunkHashes.map Bytes32.bytes, d := r.config.dataShards, p := r.config.parityShards,
      l := r.originalLen, b := r.blockSize, m := [] }

/-- `Display`. -/
def StoreTesseraResult.fmt (S : Serde) (r : StoreTesseraResult) : String :=
  S.toBase64 (S.encode r.token.toValue)

end TesserasDht
