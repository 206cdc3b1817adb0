import TesserasDht.Code.Message
import TesserasDht.Code.Node
import TesserasDht.Lib.Channels

/-!
# The actor of a node

`NodeHandle`, `NodeActor::run` and `handle_command` of `src/node.rs`. What a command computes is
modelled elsewhere; here its answer comes from outside. A panic ends the task that it happens in.
-/

open Lib.Channels

namespace TesserasDht

/-- `is_channel_closed`. -/
def TesseraError.isChannelClosed : TesseraError → Bool
  | .network msg => "closed".toList <:+: msg.toList
  | _ => false

/-- The error that stands for a dropped channel. -/
def nodeStopped : TesseraError := .network "node stopped"

/-- `Command`, without its channels. -/
inductive Command
  | bootstrap (addrs : List SocketAddr)
  | findNode (target : NodeId)
  | getProviders (key : Hash)
  | storeTessera (data : Bytes) (config : ErasureConfig)
  | storeTesseraWithProgress (data : Bytes) (config : ErasureConfig)
  | retrieveTessera (result : StoreTesseraResult)
  | retrieveTesseraWithProgress (result : StoreTesseraResult)
  | shutdown

/-- What the reply channel carries if the command succeeds. `shutdown` has no reply channel. -/
def Command.Value : Command → Type
  | .bootstrap _ => Unit
  | .findNode _ => List NodeInfo
  | .getProviders _ => List NodeInfoSerde
  | .storeTessera _ _ | .storeTesseraWithProgress _ _ => StoreTesseraResult
  | .retrieveTessera _ | .retrieveTesseraWithProgress _ => Bytes
  | .shutdown => Unit

abbrev Command.Reply (command : Command) : Type := Except TesseraError command.Value

/-- What a command computes, whichever it is. -/
abbrev Answer : Type := (command : Command) → command.Reply

/-! ## Calls -/

/-- Where the caller stands. -/
inductive CallPc (α : Type)
  /-- It waits for room in the channel. -/
  | sending
  /-- It waits for the reply. -/
  | waiting
  | returned (r : α)
  | abandoned

/-- A call of a method of the handle, and its reply channel. -/
structure Call where
  command : Command
  pc : CallPc command.Reply
  reply : Oneshot command.Reply

namespace Call

/-- The handle is borrowed by the call. -/
def borrows (c : Call) : Bool := match c.pc with
  | .sending | .waiting => true
  | _ => false

def isSending (c : Call) : Bool := match c.pc with
  | .sending => true
  | _ => false

def new (command : Command) : Call := ⟨command, .sending, .pending⟩

/-- The command is in the channel. `shutdown` waits for no reply. -/
def enter : Call → Call
  | ⟨.shutdown, _, reply⟩ => ⟨.shutdown, .returned (.ok ()), reply⟩
  | ⟨command, _, reply⟩ => ⟨command, .waiting, reply⟩

/-- The channel is closed. -/
def refuse : Call → Call
  | ⟨.shutdown, _, _⟩ => ⟨.shutdown, .returned (.ok ()), .dropped⟩
  | ⟨command, _, _⟩ => ⟨command, .returned (.error nodeStopped), .dropped⟩

/-- The caller goes away. A command that is not in the channel yet goes with it. -/
def abandon (c : Call) : Call :=
  match c.pc with
  | .sending => { c with pc := .abandoned, reply := .dropped }
  | .waiting => { c with pc := .abandoned }
  | _ => c

/-- The caller reads what the reply channel has. -/
def read (c : Call) : Call :=
  match c.pc, c.reply with
  | .waiting, .sent r => { c with pc := .returned r }
  | .waiting, .dropped => { c with pc := .returned (.error nodeStopped) }
  | _, _ => c

def answer (a : Answer) (c : Call) : Call := { c with reply := .sent (a c.command) }

def drop (c : Call) : Call := { c with reply := .dropped }

end Call

/-! ## The actor -/

/-- A command in the channel, and the call whose reply channel it has. -/
structure QueuedCommand where
  call : Nat
  command : Command

inductive Tick
  | rtSave
  | provider
  | refresh
  | limiterCleanup

/-- Where the loop of the actor stands. -/
inductive Loop
  | select
  | executing (queued : QueuedCommand)
  | ticking (t : Tick)
  /-- The loop has ended, and the routing table is about to be saved. -/
  | stopping
  | stopped

def Loop.isStopped : Loop → Bool
  | .stopped => true
  | _ => false

/-- The command that is executed. -/
def Loop.executes : Loop → List QueuedCommand
  | .executing queued => [queued]
  | _ => []

structure Actor where
  channel : Channel QueuedCommand
  /-- Some sender of the channel is left. -/
  connected : Bool
  loop : Loop
  /-- The bootstraps that were spawned. -/
  background : List QueuedCommand
  maxConcurrentHandlers : Nat
  handlers : List (SocketAddr × Message)
  /-- The messages that were dropped because of the limit. -/
  handlerDropped : Nat
  calls : List Call
  /-- The commands that went into the channel, that came out of it, that were answered, and whose
  background task panicked. -/
  entered : List QueuedCommand
  received : List QueuedCommand
  answered : List QueuedCommand
  panicked : List QueuedCommand

namespace Actor

inductive Action
  | call (command : Command)
  /-- The command of a call goes into the channel. -/
  | enter (i : Nat)
  | refuse (i : Nat)
  | abandon (i : Nat)
  | read (i : Nat)
  /-- The last sender is dropped. -/
  | disconnect
  | recvCommand
  /-- The command that is executed ends. -/
  | finish (a : Answer)
  /-- The bootstrap with this number ends. -/
  | finishBackground (n : Nat) (a : Answer)
  | recvRequest (fromAddr : SocketAddr) (msg : Message)
  | recvError (e : TesseraError)
  /-- The handler with this number ends. -/
  | handled (n : Nat)
  | tick (t : Tick)
  | tickDone
  | stop
  | panic
  | panicBackground (n : Nat)

def new (commandChannelSize maxConcurrentHandlers : Nat) : Actor where
  channel := .empty commandChannelSize
  connected := true
  loop := .select
  background := []
  maxConcurrentHandlers
  handlers := []
  handlerDropped := 0
  calls := []
  entered := []
  received := []
  answered := []
  panicked := []

def modifyCall (s : Actor) (i : Nat) (f : Call → Call) : Actor := { s with calls := s.calls.modify i f }

/-- The command of the call goes into the channel if there is room. -/
def enter (s : Actor) (i : Nat) (c : Call) : Actor :=
  match s.channel.send ⟨i, c.command⟩ with
  | some channel =>
    { s.modifyCall i Call.enter with channel, entered := s.entered ++ [⟨i, c.command⟩] }
  | none => s

/-- What the loop does with a command. -/
def dispatch (s : Actor) (queued : QueuedCommand) : Actor :=
  match queued.command with
  | .shutdown => { s with loop := .stopping }
  | .bootstrap _ => { s with background := s.background ++ [queued] }
  | _ => { s with loop := .executing queued }

/-- The reply to a command. -/
def send (s : Actor) (queued : QueuedCommand) (a : Answer) : Actor :=
  { s.modifyCall queued.call (Call.answer a) with answered := s.answered ++ [queued] }

/-- The actor is dropped, with the command that it executes and those in the channel. -/
def dropAll (s : Actor) : Actor :=
  let held := s.loop.executes ++ s.channel.items
  { s with
    channel := s.channel.close
    loop := .stopped
    calls := s.calls.mapIdx fun i c => if held.any (fun queued => queued.call = i) then c.drop else c }

def step (s : Actor) : Action → Actor
  | .call command => if s.connected then { s with calls := s.calls ++ [.new command] } else s
  | .enter i => match s.calls[i]? with
    | some c => if c.isSending ∧ ¬s.loop.isStopped then s.enter i c else s
    | none => s
  | .refuse i => match s.calls[i]? with
    | some c => if c.isSending ∧ s.loop.isStopped then s.modifyCall i Call.refuse else s
    | none => s
  | .abandon i => s.modifyCall i Call.abandon
  | .read i => s.modifyCall i Call.read
  | .disconnect => if s.calls.any Call.borrows then s else { s with connected := false }
  | .recvCommand => match s.loop, s.channel.recv with
    | .select, some (queued, channel) =>
      { s with channel, received := s.received ++ [queued] }.dispatch queued
    | .select, none => if s.connected then s else { s with loop := .stopping }
    | _, _ => s
  | .finish a => match s.loop with
    | .executing queued => { s.send queued a with loop := .select }
    | _ => s
  | .finishBackground n a => match s.background[n]? with
    | some queued => { s.send queued a with background := s.background.eraseIdx n }
    | none => s
  | .recvRequest fromAddr msg => match s.loop with
    | .select =>
      if s.handlers.length < s.maxConcurrentHandlers then
        { s with handlers := s.handlers ++ [(fromAddr, msg)] }
      else
        { s with handlerDropped := s.handlerDropped + 1 }
    | _ => s
  | .recvError e => match s.loop with
    | .select => if e.isChannelClosed then { s with loop := .stopping } else s
    | _ => s
  | .handled n => { s with handlers := s.handlers.eraseIdx n }
  | .tick t => match s.loop with
    | .select => { s with loop := .ticking t }
    | _ => s
  | .tickDone => match s.loop with
    | .ticking _ => { s with loop := .select }
    | _ => s
  | .stop => match s.loop with
    | .stopping => s.dropAll
    | _ => s
  | .panic => match s.loop with
    | .executing _ | .ticking _ => s.dropAll
    | _ => s
  | .panicBackground n => match s.background[n]? with
    | some queued =>
      { s.modifyCall queued.call Call.drop with
        background := s.background.eraseIdx n, panicked := s.panicked ++ [queued] }
    | none => s

end Actor

end TesserasDht
