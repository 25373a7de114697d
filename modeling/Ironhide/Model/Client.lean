import Ironhide.Model.Handler

namespace Ironhide.Model.Client
open Lib.Bytes Lib.Text Lib.Program

/-- What the clients read of a `struct addrinfo`; the address as its bytes. -/
structure Addrinfo where
  aiFamily : Nat
  aiSocktype : Nat
  aiProtocol : Nat
  aiAddr : List Byte
  deriving DecidableEq, Repr

inductive Op (φ : Type) where
  | getaddrinfo (dst port : String) (socktype protocol : Nat)
  | socket (family socktype protocol : Nat)
  | connect (fd : φ) (addr : List Byte)
  | sendto (fd : φ) (message addr : List Byte)
  | close (fd : φ)
  deriving DecidableEq, Repr

/-- What comes back: the numbers of the calls, and no list where `getaddrinfo` fails. -/
abbrev Reply (φ : Type) : Op φ → Type
  | .getaddrinfo .. => Option (List Addrinfo)
  | .socket .. => φ
  | .connect .. | .sendto .. => Int
  | .close .. => Unit

abbrev Calls (φ α : Type) := Prog (Op φ) (Reply φ) Stop α

/-- `inet_pton(AF_INET, ...)` on dotted quads. -/
def inetPton (s : String) : Option (BitVec 32) :=
  match (s.toList.splitOn '.').map octet with
  | [some b0, some b1, some b2, some b3] => some (b3 ++ b2 ++ b1 ++ b0)
  | _ => none

theorem inetPton_inetNtoa (w : BitVec 32) : inetPton (inetNtoa w) = some w := by
  simp only [inetPton, splitOn_inetNtoa, List.map_cons, List.map_nil, octet_decimal, join32]

variable {φ : Type} [Descriptor φ]

def closeOpen (sfd : φ) : Calls φ Unit :=
  if Descriptor.num sfd > 0 then Prog.perform (Op.close sfd) else .ret ()

/-- The loop of `send_and_wait_response`: gives the last descriptor. -/
def sendLoop (message : List Byte) : List Addrinfo → φ → Calls φ φ
  | [], sfd => .ret sfd
  | rp :: rps, sfd => do
    closeOpen sfd
    let sfd ← Prog.perform (Op.socket rp.aiFamily rp.aiSocktype rp.aiProtocol)
    if Descriptor.num sfd > 0 then
      let connected ← Prog.perform (Op.connect sfd rp.aiAddr)
      if connected ≠ -1 then
        let res ← Prog.perform (Op.sendto sfd message rp.aiAddr)
        if res > 0 then .ret sfd else sendLoop message rps sfd
      else sendLoop message rps sfd
    else sendLoop message rps sfd

def sendAndWaitResponse (message : List Byte) (dst : String) (port : BitVec 16) : Calls φ Unit := do
  match ← Prog.perform (Op.getaddrinfo dst (toString port.toNat) 2 17) with
  | none => .throw .exit
  | some result =>
    let sfd ← sendLoop message result Descriptor.notFound
    closeOpen sfd

/-- The loop of `connect_to_server`: the last descriptor, and whether it is connected. -/
def connectLoop : List Addrinfo → φ → Calls φ (φ × Bool)
  | [], sfd => .ret (sfd, false)
  | rp :: rps, sfd => do
    closeOpen sfd
    let sfd ← Prog.perform (Op.socket rp.aiFamily rp.aiSocktype rp.aiProtocol)
    if Descriptor.num sfd > 0 then
      let connected ← Prog.perform (Op.connect sfd rp.aiAddr)
      if connected ≠ -1 then .ret (sfd, true) else connectLoop rps sfd
    else connectLoop rps sfd

/-- `ClientTCP::connect_to_server`, and what `access_to_socket` and
`access_to_sockaddr_in` then give. The first socket is never used. -/
def connectToServer (dst : String) (port : BitVec 16) : Calls φ (φ × SockaddrIn) := do
  let sock ← Prog.perform (Op.socket 2 1 0)
  if Descriptor.num sock < 0 then .throw .exit
  else
    match inetPton dst with
    | none => .throw .exit
    | some addr =>
      let servAddr : SockaddrIn := { sinFamily := 2, sinPort := htons port, sinAddr := addr }
      match ← Prog.perform (Op.getaddrinfo dst (toString port.toNat) 1 6) with
      | none => .throw .exit
      | some result =>
        let (sfd, connected) ← connectLoop result Descriptor.notFound
        if connected then .ret (sfd, servAddr) else .throw .exit

end Ironhide.Model.Client
