import TesserasDht.Code.Context

/-!
# Inbound streams

The task of an inbound stream and `send_response` of `src/transport/quic.rs`. A stream begins here
once its request is decoded. A response carries the stream whose request it answers, of which the
transport knows nothing.
-/

namespace TesserasDht

def maxPendingResponses : Nat := 4096

structure Response where
  stream : Nat
  msg : Message
deriving DecidableEq

/-- Where the task of a stream stands. -/
inductive StreamPc
  /-- It is about to lock the map. -/
  | decoded
  /-- It is about to hand the request to the node. -/
  | registered
  | waiting
  /-- The request was not taken, or there was no response. It is about to clean up. -/
  | givenUp
  | received (resp : Response)
  | wrote (resp : Response)
  | closed
deriving DecidableEq

/-- A stream, with what is in its oneshot channel. -/
structure InboundStream where
  msg : Message
  oneshot : Option Response
  pc : StreamPc
deriving DecidableEq

/-- A request that the node has not answered: it is in the channel, or its handler runs. -/
structure PendingRequest where
  stream : Nat
  msg : Message
deriving DecidableEq

/-- `inbound_response_senders` leads from the id of a message to the stream that holds the other end
of the channel. -/
structure QuicTransport where
  inboundResponseSenders : List (UInt64 × Nat)
  streams : List InboundStream
  requests : List PendingRequest

namespace QuicTransport

inductive Action
  /-- A stream brings a request. -/
  | accept (msg : Message)
  | register (i : Nat)
  | forward (i : Nat)
  /-- The node takes no more requests. -/
  | forwardFails (i : Nat)
  | receive (i : Nat)
  /-- `RESPONSE_ONESHOT_TIMEOUT` is over, or the other end was dropped. -/
  | giveUp (i : Nat)
  | cleanUp (i : Nat)
  | write (i : Nat)
  | writeFails (i : Nat)
  /-- A handler ends with a response. -/
  | respond (request : Nat) (payload : Payload)
  /-- A handler ends without one. -/
  | ignore (request : Nat)

def empty : QuicTransport := ⟨[], [], []⟩

def setPc (t : QuicTransport) (i : Nat) (pc : StreamPc) : QuicTransport :=
  { t with streams := t.streams.modify i fun s => { s with pc } }

/-- `remove(&msg_id)`, whichever stream the entry leads to. -/
def remove (t : QuicTransport) (msgId : UInt64) : QuicTransport :=
  { t with inboundResponseSenders := t.inboundResponseSenders.filter fun e => e.1 ≠ msgId }

/-- The channel of a stream that does not wait any more is closed. -/
def listens (s : InboundStream) : Bool := s.pc = .registered ∨ s.pc = .waiting

def sendResponse (t : QuicTransport) (resp : Response) : QuicTransport :=
  match t.inboundResponseSenders.lookup resp.msg.msgId with
  | none => t
  | some i =>
    let t := t.remove resp.msg.msgId
    { t with streams := t.streams.modify i fun s =>
        if listens s then { s with oneshot := some resp } else s }

/-- What a handler sends for a payload. -/
def answerTo (ctx : HandlerContext) (request : PendingRequest) (payload : Payload) : Response :=
  { stream := request.stream
    msg := (request.msg.response ctx.nodeId.asBytes ctx.publicKey ctx.pow payload).sign ctx.crates
      ctx.secret }

def register (t : QuicTransport) (i : Nat) (s : InboundStream) : QuicTransport :=
  if maxPendingResponses ≤ t.inboundResponseSenders.length then
    t.setPc i .closed
  else if (t.inboundResponseSenders.lookup s.msg.msgId).isSome then
    t.setPc i .closed
  else
    { t.setPc i .registered with
      inboundResponseSenders := (s.msg.msgId, i) :: t.inboundResponseSenders }

/-- The step of stream `i`, if it stands at `pc`. -/
def atPc (t : QuicTransport) (i : Nat) (pc : StreamPc) (f : InboundStream → QuicTransport) :
    QuicTransport :=
  match t.streams[i]? with
  | some s => if s.pc = pc then f s else t
  | none => t

def step (ctx : HandlerContext) (t : QuicTransport) : Action → QuicTransport
  | .accept msg => { t with streams := t.streams ++ [⟨msg, none, .decoded⟩] }
  | .register i => t.atPc i .decoded (t.register i)
  | .forward i => t.atPc i .registered fun s =>
    { t.setPc i .waiting with requests := t.requests ++ [⟨i, s.msg⟩] }
  | .forwardFails i => t.atPc i .registered fun _ => t.setPc i .givenUp
  | .receive i => t.atPc i .waiting fun s =>
    match s.oneshot with
    | some resp => t.setPc i (.received resp)
    | none => t
  | .giveUp i => t.atPc i .waiting fun s =>
    match s.oneshot with
    | some _ => t
    | none => t.setPc i .givenUp
  | .cleanUp i => t.atPc i .givenUp fun s => (t.setPc i .closed).remove s.msg.msgId
  | .write i => match t.streams[i]? with
    | some ⟨_, _, .received resp⟩ => t.setPc i (.wrote resp)
    | _ => t
  | .writeFails i => match t.streams[i]? with
    | some ⟨_, _, .received _⟩ => t.setPc i .closed
    | _ => t
  | .respond n payload => match t.requests[n]? with
    | some request =>
      { t with requests := t.requests.eraseIdx n }.sendResponse (answerTo ctx request payload)
    | none => t
  | .ignore n => { t with requests := t.requests.eraseIdx n }

end QuicTransport

end TesserasDht
