import Ironhide.Lib.GetOpt
import Ironhide.Model.Address
import Ironhide.Model.PacketUtils

namespace Ironhide.Model.Main
open Lib.Bytes Lib.Text Lib.GetOpt PacketUtils

structure Settings where
  extPort : BitVec 16
  intPort : BitVec 16
  isEgress : Bool
  deriving DecidableEq, Repr

def Settings.default : Settings where
  extPort := 8787
  intPort := 8778
  isEgress := false

inductive Ended where
  | exit (status : Nat) (printed : String)
  | uncaught (e : Exn)
  deriving DecidableEq, Repr

def usage : String :=
  "\nExample of usage:\n" ++
  "\t ./ironhide [OPTIONS]\n" ++
  " -e   To set the egress mode - Default ingress mode\n" ++
  " -i   To set the port used for internal connections - Default 8778\n" ++
  " -o   To set the external port used - Default 8787\n" ++
  " -h   Show this message\n" ++
  "'ROULETTE_SERVICE' can be set into the env to change remote address\n"

def optstring : OptString
  | 'e' => some false
  | 'i' => some true
  | 'o' => some true
  | 'h' => some false
  | _ => none

def port (optarg : List Char) : Except Ended (BitVec 16) :=
  match stoi (String.ofList optarg) with
  | .ok n => .ok (BitVec.ofInt 16 n)
  | .error e => .error (.uncaught e)

/-- The body of the `while` loop, for what a call of `getopt` gives. -/
def choose (s : Settings) : Found → Except Ended Settings
  | .option 'e' _ => .ok { s with isEgress := true }
  | .option 'i' (some optarg) => do .ok { s with intPort := ← port optarg }
  | .option 'o' (some optarg) => do .ok { s with extPort := ← port optarg }
  | .option 'h' _ => .error (.exit 0 usage)
  | _ => .error (.exit 1 ("Unrecognized option\n" ++ usage))

/-- The `while` loop, over the elements behind the program's name. -/
def configure (permutes : Bool) (argv : List (List Char)) : Except Ended Settings :=
  (getopt optstring permutes none argv).foldlM choose .default

/-- What `retrieve_ip` looks at of a `struct ifaddrs`. -/
inductive IfaAddr where
  | inet (sinAddr : BitVec 32)
  | other (family : Nat)
  deriving DecidableEq, Repr

structure Ifaddrs where
  ifaName : List Char
  ifaAddr : Option IfaAddr
  deriving DecidableEq, Repr

/-- One turn of the loop of `retrieve_ip`; the first four letters of the name count. -/
def retrieveIpStep (myIp : String) (ifa : Ifaddrs) : String :=
  match ifa.ifaAddr with
  | some (.inet sinAddr) => if ifa.ifaName.take 4 = ['e', 't', 'h', '0'] then intToIp sinAddr else myIp
  | _ => myIp

def retrieveIp (ifAddrStruct : List Ifaddrs) : String := ifAddrStruct.foldl retrieveIpStep ""

structure Started where
  settings : Settings
  myIp : String
  roulette : Address
  deriving DecidableEq, Repr

/-- The address that the build sets for roulette. -/
def rouletteDefault : Address := Address.ofParts "localhost" 57684

/-- `set_remote`, when `ROULETTE_SERVICE` is set. -/
def remote (rouletteService : Option String) : Except Ended Address :=
  match rouletteService with
  | none => .ok rouletteDefault
  | some ip =>
    match Address.parse ip with
    | .ok address => .ok address
    | .error e => .error (.uncaught e)

/-- `main` up to the call of `start`. -/
def main (permutes : Bool) (argv : List (List Char)) (rouletteService : Option String)
    (ifAddrStruct : List Ifaddrs) : Except Ended Started := do
  let settings ← configure permutes argv
  let roulette ← remote rouletteService
  .ok ⟨settings, retrieveIp ifAddrStruct, roulette⟩

end Ironhide.Model.Main
