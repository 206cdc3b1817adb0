import Mathlib
import TesserasDht.Lib.Sha256

/-! # Bytes, errors and machine words -/

namespace TesserasDht

abbrev Bytes := List UInt8

/-- `[u8; 32]`. -/
structure Bytes32 where
  bytes : Bytes
  len : bytes.length = 32
deriving DecidableEq, Repr

abbrev Hash := Bytes32

/-- The check in front of every `copy_from_slice` into a `[u8; 32]`. -/
def toArray32 (v : Bytes) : Option Bytes32 :=
  if h : v.length = 32 then some ⟨v, h⟩ else none

theorem toArray32_bytes (b : Bytes32) : toArray32 b.bytes = some b := dif_pos b.len

theorem bytes_inj {a b : Bytes32} (h : a.bytes = b.bytes) : a = b := by
  cases a; cases b; cases h; rfl

/-- `[b; 32]`. -/
def Bytes32.fill (b : UInt8) : Bytes32 := ⟨List.replicate 32 b, by simp⟩

/-- `Sha256::digest` of the `sha2` crate. The functions of the model take their hash as a parameter;
this is the one that the program gives them. -/
def Sha256.digest (m : Bytes) : Hash := ⟨Lib.Sha256.digest m, Lib.Sha256.digest_length m⟩

/-- `isize::MAX`, the length that no `Vec<u8>` passes. -/
def isizeMax : Nat := 2 ^ 63 - 1

/-- `Vec<u8>` as the caller hands it in. -/
abbrev VecU8 := { l : Bytes // l.length ≤ isizeMax }

/-! ## Addresses -/

structure Ipv6Addr where
  segments : List UInt16
  len : segments.length = 8
deriving DecidableEq, Repr

inductive SocketAddr
  | v4 (a b c d : UInt8) (port : UInt16)
  | v6 (ip : Ipv6Addr) (port : UInt16) (flowinfo scopeId : UInt32)
deriving DecidableEq, Repr

/-! ## Errors -/

inductive IoErrorKind
  | invalidInput
  | notFound
  | other
deriving DecidableEq, Repr

inductive TesseraError
  | network (msg : String)
  | timeout
  | noProviders
  | insufficientChunks (needed got : Nat)
  | storageFull (available : Nat)
  | invalidIdentity (reason : String)
  | storage (msg : String)
  | erasureCoding (msg : String)
  | serialization (msg : String)
  | io (kind : IoErrorKind) (msg : String)
deriving DecidableEq, Repr

inductive Panic
  | addOverflow
  | subOverflow
  | mulOverflow
  | divideByZero
  | indexOutOfBounds
  | unwrapNone
  | zeroChunkSize
  | capacityOverflow
deriving DecidableEq, Repr

/-- How a function ends without a value. -/
inductive Failure
  | error (e : TesseraError)
  | panic (p : Panic)
deriving DecidableEq, Repr

abbrev Outcome (α : Type) := Except Failure α

def fail {α : Type} (e : TesseraError) : Outcome α := .error (.error e)

theorem bind_ok {α β : Type} {x : Outcome α} {f : α → Outcome β} {r : β} (h : x >>= f = .ok r) :
    ∃ a, x = .ok a ∧ f a = .ok r := by
  cases x with
  | error e => cases h
  | ok a => exact ⟨a, rfl, h⟩

theorem bind_error {α β : Type} {x : Outcome α} {f : α → Outcome β} {e : Failure}
    (h : x >>= f = .error e) : x = .error e ∨ ∃ a, x = .ok a ∧ f a = .error e := by
  cases x with
  | error e' =>
    cases h
    exact Or.inl rfl
  | ok a => exact Or.inr ⟨a, rfl, h⟩

/-- `Vec::<u8>::with_capacity`. Memory does not run out here. -/
def withCapacity (n : Nat) : Outcome Unit :=
  if isizeMax < n then .error (.panic .capacityOverflow) else .ok ()

theorem withCapacity_of_le {n : Nat} (h : n ≤ isizeMax) : withCapacity n = .ok () :=
  if_neg (Nat.not_lt.mpr h)

theorem withCapacity_panic {n : Nat} {e : Failure} (h : withCapacity n = .error e) :
    e = .panic .capacityOverflow ∧ isizeMax < n := by
  unfold withCapacity at h
  split at h
  next hlt =>
    cases h
    exact ⟨rfl, hlt⟩
  next => cases h

theorem withCapacity_ok {n : Nat} {u : Unit} (h : withCapacity n = .ok u) : n ≤ isizeMax := by
  unfold withCapacity at h
  split at h
  · cases h
  next hge => exact Nat.not_lt.mp hge

/-! ## `usize` and `u64` -/

def wordSize : Nat := 2 ^ 64

/-- Debug builds panic on overflow, release builds wrap. The manifest sets no `overflow-checks`. -/
inductive Build
  | debug
  | release
deriving DecidableEq, Repr

def Build.overflow (b : Build) (p : Panic) (wrapped : Nat) : Outcome Nat :=
  match b with
  | .debug => .error (.panic p)
  | .release => .ok wrapped

def Build.add (b : Build) (x y : Nat) : Outcome Nat :=
  if x + y < wordSize then .ok (x + y) else b.overflow .addOverflow ((x + y) % wordSize)

def Build.sub (b : Build) (x y : Nat) : Outcome Nat :=
  if y ≤ x then .ok (x - y) else b.overflow .subOverflow ((x + wordSize - y) % wordSize)

def Build.mul (b : Build) (x y : Nat) : Outcome Nat :=
  if x * y < wordSize then .ok (x * y) else b.overflow .mulOverflow ((x * y) % wordSize)

/-- `AtomicU64::fetch_add` wraps in every build. -/
def fetchAdd (x y : Nat) : Nat := (x + y) % wordSize

/-- `AtomicU64::fetch_sub` wraps in every build. -/
def fetchSub (x y : Nat) : Nat := (x + (wordSize - y % wordSize)) % wordSize

theorem fetchAdd_of_lt {x y : Nat} (h : x + y < wordSize) : fetchAdd x y = x + y :=
  Nat.mod_eq_of_lt h

theorem fetchSub_of_le {x y : Nat} (h : y ≤ x) (hx : x < wordSize) : fetchSub x y = x - y := by
  unfold fetchSub
  rw [Nat.mod_eq_of_lt (by omega : y < wordSize), show x + (wordSize - y) = wordSize + (x - y) by omega,
    Nat.add_mod_left]
  exact Nat.mod_eq_of_lt (by omega)

theorem Build.add_of_lt (b : Build) {x y : Nat} (h : x + y < wordSize) : b.add x y = .ok (x + y) :=
  if_pos h

theorem Build.sub_of_le (b : Build) {x y : Nat} (h : y ≤ x) : b.sub x y = .ok (x - y) :=
  if_pos h

theorem Build.add_ok {b : Build} {x y z : Nat} (h : b.add x y = .ok z) : z = (x + y) % wordSize := by
  unfold Build.add at h
  split at h
  next hlt =>
    cases h
    exact (Nat.mod_eq_of_lt hlt).symm
  next =>
    cases b with
    | debug => cases h
    | release =>
      cases h
      rfl

theorem Build.mul_ok {b : Build} {x y z : Nat} (h : b.mul x y = .ok z) : z = x * y % wordSize := by
  unfold Build.mul at h
  split at h
  next hlt =>
    cases h
    exact (Nat.mod_eq_of_lt hlt).symm
  next =>
    cases b with
    | debug => cases h
    | release =>
      cases h
      rfl

theorem Build.sub_ok {b : Build} {x y z : Nat} (hx : x < wordSize) (hy : y < wordSize)
    (h : b.sub x y = .ok z) : z = (x + (wordSize - y)) % wordSize := by
  unfold Build.sub at h
  split at h
  next hle =>
    cases h
    rw [show x + (wordSize - y) = wordSize + (x - y) by omega, Nat.add_mod_left,
      Nat.mod_eq_of_lt (by omega)]
  next =>
    cases b with
    | debug => cases h
    | release =>
      cases h
      rw [Nat.add_sub_assoc (Nat.le_of_lt hy)]

theorem Build.mul_of_lt (b : Build) {x y : Nat} (h : x * y < wordSize) : b.mul x y = .ok (x * y) :=
  if_pos h

end TesserasDht
