import Mathlib.Data.List.MinMax
import TesserasDht.Lib.Tables
import TesserasDht.Code.Frames
import TesserasDht.Code.Message

/-!
# Outbound requests

`send_request` of `src/transport/quic.rs` with what it calls, and the other tasks that lock the
connection pool. What a task does under one lock is one step, with one reading of the clock.
-/

open Lib.Tables

namespace TesserasDht

def maxPoolSize : Nat := 128

/-- `POOL_STALE_THRESHOLD` in nanoseconds. -/
def poolStaleThreshold : Nat := 10 * 10 ^ 9

/-- A `quinn::Connection` with the address at its other end, and whether it has a `close_reason`. -/
structure QuicConnection where
  remoteAddress : SocketAddr
  closed : Bool
deriving DecidableEq

/-- `conn` is the number of the connection. -/
structure PoolEntry where
  conn : Nat
  lastUsed : Nat
deriving DecidableEq

/-- The map, in the order in which it is iterated. -/
abbrev ConnectionPool := List (SocketAddr × PoolEntry)

namespace ConnectionPool

/-- Drop the oldest entry if the pool is full. -/
def evictOldest (pool : ConnectionPool) : ConnectionPool :=
  if maxPoolSize ≤ pool.length then
    match pool.argmin fun e => e.2.lastUsed with
    | some oldest => pool.filter fun e => e.1 ≠ oldest.1
    | none => pool
  else
    pool

def insert (addr : SocketAddr) (entry : PoolEntry) (pool : ConnectionPool) : ConnectionPool :=
  replace Prod.fst pool (addr, entry)

def remove (addr : SocketAddr) (pool : ConnectionPool) : ConnectionPool :=
  pool.filter fun e => e.1 ≠ addr

end ConnectionPool

/-! ## One stream -/

/-- How a stream goes after `open_bi`. -/
inductive Exchange
  /-- While the length or the data is written. -/
  | writeFails (during reason : String)
  | finishFails (reason : String)
  | timesOut
  /-- The other side writes `stream`. What the errors are called comes from outside. -/
  | receives (stream : Bytes) (early reason : String)

/-- `Display`. -/
def TesseraError.display : TesseraError → String
  | .network msg => "network: " ++ msg
  | .timeout => "request timed out"
  | .noProviders => "no providers found for key"
  | .insufficientChunks needed got =>
    "insufficient chunks: need " ++ toString needed ++ ", got " ++ toString got
  | .storageFull available => "storage full: " ++ toString available ++ " bytes remaining"
  | .invalidIdentity reason => "invalid identity: " ++ reason
  | .storage msg => "storage: " ++ msg
  | .erasureCoding msg => "erasure coding: " ++ msg
  | .serialization msg => "serialization: " ++ msg
  | .io _ msg => "io: " ++ msg

/-- `send_on_connection` after `open_bi`. -/
def exchange (crates : Crates) (data : Bytes) (e : Exchange) : Except TesseraError Message := do
  let _ ← writeMessage data
  match e with
  | .writeFails during reason => .error (.network ("write " ++ during ++ ": " ++ reason))
  | .finishFails reason => .error (.network ("finish: " ++ reason))
  | .timesOut => .error .timeout
  | .receives stream early reason =>
    match readMessage early stream with
    | .error e => .error (.network ("read response: " ++ e.display))
    | .ok (resp, _) =>
      match crates.fromBytes resp with
      | none => .error (.serialization reason)
      | some msg => .ok msg

/-! ## The tasks -/

/-- The calls of `get_or_create_connection` in `send_request`. -/
inductive Try
  | first
  | second
deriving DecidableEq

/-- Where a call of `send_request` stands. -/
inductive RequestPc
  /-- It is about to look into the pool. -/
  | lookup (n : Try)
  | connecting (n : Try)
  /-- It has a new connection that is not in the pool. -/
  | connected (n : Try) (conn : Nat)
  /-- It is about to open a stream. -/
  | opening (n : Try) (conn : Nat)
  /-- Its stream is open. -/
  | awaiting (n : Try) (stream : Nat)
  /-- The first try failed. -/
  | evicting (e : TesseraError)
  | finished (result : Except TesseraError Message)

structure OutboundRequest where
  addr : SocketAddr
  data : Bytes
  pc : RequestPc

/-- A stream that was opened: its connection, its request, and what came of it. -/
structure OutboundStream where
  conn : Nat
  request : Nat
  outcome : Option (Except TesseraError Message)

structure Outbound where
  now : Nat
  pool : ConnectionPool
  conns : List QuicConnection
  streams : List OutboundStream
  requests : List OutboundRequest
  /-- Connections of the acceptor that are not in the pool yet. -/
  accepted : List Nat

namespace Outbound

inductive Action
  | tick (d : Nat)
  /-- A call of `send_request`, for a message that is encoded. -/
  | request (addr : SocketAddr) (data : Bytes)
  | lookup (i : Nat)
  | connectFails (i : Nat) (reason : String)
  | connectTimesOut (i : Nat)
  | connect (i : Nat)
  | insert (i : Nat)
  | openFails (i : Nat) (reason : String)
  | openStream (i : Nat)
  | exchange (i : Nat) (e : Exchange)
  | evict (i : Nat)
  | accept (addr : SocketAddr)
  /-- An accepted connection goes to the pool. -/
  | cache (n : Nat)
  | close (conn : Nat)
  /-- The cleanup every minute. -/
  | cleanup
  /-- The map is iterated in another order. -/
  | reorder (pool : ConnectionPool)

def empty : Outbound := ⟨0, [], [], [], [], []⟩

def setPc (t : Outbound) (i : Nat) (pc : RequestPc) : Outbound :=
  { t with requests := t.requests.modify i fun r => { r with pc } }

/-- `close_reason().is_none()`. -/
def isOpen (t : Outbound) (conn : Nat) : Bool := (t.conns[conn]?.map QuicConnection.closed) = some false

/-- The first lock of `get_or_create_connection`. -/
def lookUp (t : Outbound) (i : Nat) (addr : SocketAddr) (n : Try) : Outbound :=
  match t.pool.find? fun e => e.1 = addr with
  | none => t.setPc i (.connecting n)
  | some (_, entry) =>
    if t.isOpen entry.conn ∧ t.now - entry.lastUsed < poolStaleThreshold then
      { t.setPc i (.opening n entry.conn) with
        pool := t.pool.map fun e => if e.1 = addr then (addr, { entry with lastUsed := t.now }) else e }
    else
      { t.setPc i (.connecting n) with pool := t.pool.remove addr }

/-- A new connection goes to the pool. -/
def pooled (t : Outbound) (addr : SocketAddr) (conn : Nat) : Outbound :=
  { t with pool := t.pool.evictOldest.insert addr ⟨conn, t.now⟩ }

/-- A failed connect ends the request, whichever the try. -/
def fails (t : Outbound) (i : Nat) (e : TesseraError) : Outbound := t.setPc i (.finished (.error e))

/-- The end of `send_on_connection`. -/
def sent (t : Outbound) (i : Nat) (n : Try) (result : Except TesseraError Message) : Outbound :=
  match n, result with
  | .first, .error e => t.setPc i (.evicting e)
  | _, result => t.setPc i (.finished result)

/-- The step of request `i`. -/
def ofRequest (t : Outbound) (i : Nat) (f : OutboundRequest → Outbound) : Outbound :=
  match t.requests[i]? with
  | some r => f r
  | none => t

def step (crates : Crates) (t : Outbound) : Action → Outbound
  | .tick d => { t with now := t.now + d }
  | .request addr data => { t with requests := t.requests ++ [⟨addr, data, .lookup .first⟩] }
  | .lookup i => t.ofRequest i fun r => match r.pc with
    | .lookup n => t.lookUp i r.addr n
    | _ => t
  | .connectFails i reason => t.ofRequest i fun r => match r.pc with
    | .connecting _ => t.fails i (.network ("connect: " ++ reason))
    | _ => t
  | .connectTimesOut i => t.ofRequest i fun r => match r.pc with
    | .connecting _ => t.fails i .timeout
    | _ => t
  | .connect i => t.ofRequest i fun r => match r.pc with
    | .connecting n =>
      { t.setPc i (.connected n t.conns.length) with conns := t.conns ++ [⟨r.addr, false⟩] }
    | _ => t
  | .insert i => t.ofRequest i fun r => match r.pc with
    | .connected n conn => (t.pooled r.addr conn).setPc i (.opening n conn)
    | _ => t
  | .openFails i reason => t.ofRequest i fun r => match r.pc with
    | .opening n _ => t.sent i n (.error (.network ("open stream: " ++ reason)))
    | _ => t
  | .openStream i => t.ofRequest i fun r => match r.pc with
    | .opening n conn =>
      if t.isOpen conn then
        { t.setPc i (.awaiting n t.streams.length) with streams := t.streams ++ [⟨conn, i, none⟩] }
      else
        t
    | _ => t
  | .exchange i e => t.ofRequest i fun r => match r.pc with
    | .awaiting n stream =>
      let result := TesserasDht.exchange crates r.data e
      { t with streams := t.streams.modify stream fun s => { s with outcome := some result } }.sent i n
        result
    | _ => t
  | .evict i => t.ofRequest i fun r => match r.pc with
    | .evicting e =>
      let t := { t with pool := t.pool.remove r.addr }
      if e = .timeout then t.fails i e else t.setPc i (.lookup .second)
    | _ => t
  | .accept addr =>
    { t with conns := t.conns ++ [⟨addr, false⟩], accepted := t.accepted ++ [t.conns.length] }
  | .cache n => match t.accepted[n]? with
    | some conn => match t.conns[conn]? with
      | some c => { t.pooled c.remoteAddress conn with accepted := t.accepted.eraseIdx n }
      | none => t
    | none => t
  | .close conn => { t with conns := t.conns.modify conn fun c => { c with closed := true } }
  | .cleanup => { t with pool := t.pool.filter fun e => t.isOpen e.2.conn }
  | .reorder pool => if pool.Perm t.pool then { t with pool } else t

end Outbound

end TesserasDht
