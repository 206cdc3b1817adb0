import TesserasDht.Lib.Formats
import TesserasDht.Code.Node

/-!
# The bytes of tokens and manifests

What `rmp_serde` and `base64` write for the types of `src/node.rs`. A `Vec<u8>` is an array of
integers, and a field that is zero or empty is skipped where the source says so.
-/

open Lib.Formats

namespace TesserasDht

def encodeHashes (hs : List Bytes) : Bytes := array (hs.map fun h => array (h.map fun x => uint x.toNat))

/-- `rmp_serde::to_vec` writes the fields without their names. -/
def TesseraManifest.toVec (m : TesseraManifest) : Bytes :=
  array ([encodeHashes m.h, uint m.d.toNat, uint m.p.toNat, uint m.l.toNat] ++
    if m.b = 0 then [] else [uint m.b.toNat])

/-- `rmp_serde::to_vec_named` writes a map. -/
def StoreTesseraResultToken.toVecNamed (t : StoreTesseraResultToken) : Bytes :=
  let word (name : Char) (n : UInt64) := if n = 0 then [] else [(name, uint n.toNat)]
  map ((if t.h = [] then [] else [('h', encodeHashes t.h)]) ++ word 'd' t.d ++ word 'p' t.p ++
    word 'l' t.l ++ word 'b' t.b ++
    if t.m = [] then [] else [('m', array (t.m.map fun x => uint x.toNat))])

def StoreTesseraResultToken.text (t : StoreTesseraResultToken) : String :=
  String.ofList (base64 t.toVecNamed)

/-- The codec, on the encodings of the given values only. -/
def Codec.knowing (tokens : List StoreTesseraResultToken) (manifests : List TesseraManifest) :
    Codec where
  encodeManifest := TesseraManifest.toVec
  decodeManifest bytes := match manifests.find? fun m => m.toVec = bytes with
    | some m => .ok m
    | none => .error "not a manifest"
  decodeToken bytes := match tokens.find? fun t => t.toVecNamed = bytes with
    | some t => .ok t
    | none => .error "not a token"
  decodeBase64 s := match tokens.find? fun t => t.text = s with
    | some t => .ok t.toVecNamed
    | none => .error "not a text"

end TesserasDht
