import Ironhide.Model.Handler

namespace Ironhide.Model.Server
open Lib.Bytes Lib.Program PacketUtils

/-- The servers that `start` sets up: one for packets from the chain and, on the
ingress, one for datagrams and one for connections of clients. -/
inductive Role where
  | internalUdp
  | externalUdp
  | tcp
  deriving DecidableEq, Repr

/-- What `args` points to when it is handed over. `pkt` is the block of the buffer. -/
inductive Args (φ π : Type) where
  | udp (args : UdpArgs φ) (pkt : π)
  | tcp (args : TcpArgs φ)
  deriving DecidableEq, Repr

/-- What `start` and its servers do to the world. `π` is for blocks of memory. -/
inductive Op (φ π : Type) where
  | thread (server : Role)
  | join (server : Role)
  | setStopped (stopped : Bool)
  | isStopped
  | socket (type : Nat)
  | setReuseAddr (fd : φ)
  | bind (fd : φ) (addr : SockaddrIn)
  | listen (fd : φ) (backlog : Nat)
  | signal (number : Nat)
  | malloc
  | newBuffer (size : Nat)
  | recvfrom (fd : φ) (pkt : π) (size : Nat)
  | accept (fd : φ)
  | free (args : π)
  | goAsync (block : π) (args : Args φ π)
  deriving DecidableEq, Repr

/-- What comes back: `none` and `false` where the call fails. A new buffer comes
with the bytes that are in it. -/
abbrev Reply (φ π : Type) : Op φ π → Type
  | .isStopped => Bool
  | .socket _ => Option φ
  | .bind .. | .listen .. | .signal _ => Bool
  | .malloc => Option π
  | .newBuffer _ => Option (π × List Byte)
  | .recvfrom .. => Option (List Byte × SockaddrIn)
  | .accept _ => Option (φ × SockaddrIn)
  | _ => Unit

inductive Stop where
  | exit
  /-- `new` finds no memory, and nobody catches it. -/
  | badAlloc
  /-- The loop is still going after the given number of rounds. -/
  | running
  deriving DecidableEq, Repr

def Stop.Fatal (stop : Stop) : Prop := stop ≠ .running

instance : DecidablePred Stop.Fatal := fun stop => inferInstanceAs (Decidable (stop ≠ .running))

abbrev Service (φ π α : Type) := Prog (Op φ π) (Reply φ π) Stop α

variable {φ π : Type}

def anyAddress (port : BitVec 16) : SockaddrIn where
  sinFamily := 2
  sinPort := htons port
  sinAddr := 0

/-- The part of both `run` up to the bound socket. -/
def openSocket (type : Nat) (port : BitVec 16) : Service φ π φ := do
  Prog.perform (Op.setStopped false)
  match ← Prog.perform (Op.socket type) with
  | none => .throw .exit
  | some socketFd =>
    Prog.perform (Op.setReuseAddr socketFd)
    if ← Prog.perform (Op.bind socketFd (anyAddress port)) then pure socketFd else .throw .exit

def catchSignal (number : Nat) : Service φ π Unit := do
  if ← Prog.perform (Op.signal number) then pure () else .throw .exit

/-- `Server::setup_sign_catching`: `SIGPIPE`, `SIGTERM` and `SIGINT`. -/
def setupSignCatching : Service φ π Unit := do
  catchSignal 13
  catchSignal 15
  catchSignal 2

/-- The loop of both `run`, for as many rounds as `fuel`. -/
def serve (round : Service φ π Unit) : Nat → Service φ π Unit
  | 0 => .throw .running
  | fuel + 1 => do
    if ← Prog.perform Op.isStopped then pure ()
    else
      round
      serve round fuel

/-- A round of `ServerUDP::run`. A receive that fails frees `args`, but not its buffer. -/
def udpRound (socketFd : φ) : Service φ π Unit := do
  match ← Prog.perform Op.malloc with
  | none => pure ()
  | some args =>
    match ← Prog.perform (Op.newBuffer bufferSize) with
    | none => .throw .badAlloc
    | some (pkt, bytes) =>
      match ← Prog.perform (Op.recvfrom socketFd pkt bufferSize) with
      | none => Prog.perform (Op.free args)
      | some (received, clientAddress) =>
        Prog.perform (Op.goAsync args
          (.udp ⟨socketFd, clientAddress, overwrite bytes received, received.length⟩ pkt))

def tcpRound (socketFd : φ) : Service φ π Unit := do
  match ← Prog.perform Op.malloc with
  | none => pure ()
  | some args =>
    match ← Prog.perform (Op.accept socketFd) with
    | none => Prog.perform (Op.free args)
    | some (newSocketFd, clientAddress) =>
      Prog.perform (Op.goAsync args (.tcp ⟨newSocketFd, clientAddress⟩))

def runUdp (port : BitVec 16) (fuel : Nat) : Service φ π Unit := do
  let socketFd ← openSocket 2 port
  setupSignCatching
  serve (udpRound socketFd) fuel

def runTcp (port : BitVec 16) (fuel : Nat) : Service φ π Unit := do
  let socketFd ← openSocket 1 port
  if ← Prog.perform (Op.listen socketFd 10) then
    setupSignCatching
    serve (tcpRound socketFd) fuel
  else .throw .exit

/-- The threads of an endpoint's `start`: the one that `main` runs in, and those
of the servers. `fuel` is for a server's loop. -/
inductive Thread where
  | main
  | server (role : Role) (fuel : Nat)
  deriving DecidableEq, Repr

/-- `Ingress::start`. When it returns so does `main`, which ends the process. -/
def ingressStart : Service φ π Unit := do
  Prog.perform (Op.thread .internalUdp)
  Prog.perform (Op.thread .externalUdp)
  Prog.perform (Op.thread .tcp)
  Prog.perform (Op.join .tcp)
  Prog.perform (Op.join .externalUdp)
  Prog.perform (Op.join .internalUdp)
  .throw .exit

def egressStart : Service φ π Unit := do
  Prog.perform (Op.thread .internalUdp)
  Prog.perform (Op.join .internalUdp)
  .throw .exit

def run (extPort intPort : BitVec 16) (fuel : Nat) : Role → Service φ π Unit
  | .internalUdp => runUdp intPort fuel
  | .externalUdp => runUdp extPort fuel
  | .tcp => runTcp extPort fuel

/-- What each thread runs, with `main` for the one that starts the servers. -/
def start (main : Service φ π Unit) (extPort intPort : BitVec 16) : Thread → Service φ π Unit
  | .main => main
  | .server role fuel => run extPort intPort fuel role

end Ironhide.Model.Server
