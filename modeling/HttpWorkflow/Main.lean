import HttpWorkflow.CommandLine.Basic
import HttpWorkflow.Redirect
import Std.Async.DNS
import Std.Async.TCP
import Std.Async.Timer

/-! The program on a real machine: its files, its variables, and its network, without encryption. -/

set_option autoImplicit false

namespace HttpWorkflow.CommandLine

open Std.Async Std.Net

def readText (path : String) : IO (Option String) := do
  try return String.fromUTF8? (← IO.FS.readBinFile path)
  catch _ => return none

/-- The text of the nearest file of settings, in this folder or one around it. -/
def readSettings : IO (Option String) := do
  let levels := (← IO.currentDir).components.length
  for level in List.range (levels + 1) do
    let path := String.join (List.replicate level "../") ++ ".env"
    if let some text ← readText path then return some text
  return none

def addresses (host : Host) (port : Nat) : Async (List SocketAddress) := do
  let port16 := port.toUInt16
  let found ← match host with
    | .domain name => Array.toList <$> DNS.getAddrInfo name (toString port)
    | .ipv4 n =>
      let part (i : Nat) : UInt8 := (n / Nat.pow 256 i).toUInt8
      pure [.v4 (.ofParts (part 3) (part 2) (part 1) (part 0))]
    | .ipv6 pieces =>
      let part (i : Nat) : UInt16 := (pieces.getD i 0).toUInt16
      pure [.v6 (.ofParts (part 0) (part 1) (part 2) (part 3) (part 4) (part 5) (part 6) (part 7))]
  return found.map fun
    | .v4 a => .v4 ⟨a, port16⟩
    | .v6 a => .v6 ⟨a, port16⟩

/-- A connection to the first address that takes it. -/
def openAny : List SocketAddress → Async (Option TCP.Socket.Client)
  | [] => return none
  | address :: others => do
    try
      let socket ← TCP.Socket.Client.mk
      socket.connect address
      return some socket
    catch _ => openAny others

def exchange (c : Call) : Async (Option Message.Reply) := do
  let some host := c.url.host | return none
  if c.url.scheme ≠ "http" then return none
  let some socket ← openAny (← addresses host (c.url.port.getD 80)) | return none
  socket.send ⟨((Message.ofCall c).map Nat.toUInt8).toArray⟩
  let mut received : Message.Octets := []
  repeat
    match ← socket.recv? 65536 with
    | some part =>
      received := received ++ part.toList.map UInt8.toNat
      if let some reply := Message.reply? false received then return some reply
    | none => return Message.reply? true received
  return none

/-- Make a call and the ones that replies ask for instead. -/
def follow : Nat → Call → Async (Option Response)
  | redirects, c => do
    match ← exchange c with
    | none => return none
    | some reply =>
      match c.next? reply, redirects with
      | none, _ => return some reply.response
      | some _, 0 => return none
      | some next, redirects + 1 => follow redirects next

def connect : Connection IO := fun c => do
  let late : Async (Option Response) := do
    sleep (.ofNat c.timeout)
    return none
  try (Async.race (follow Call.maxRedirects c) late).block
  catch _ => return none

def machine : Surroundings IO where
  file? := readText
  lookup := fun name => IO.getEnv name
  settings? := readSettings
  connect := connect

end HttpWorkflow.CommandLine

open HttpWorkflow CommandLine in
def main (args : List String) : IO UInt32 := do
  let ending ← program machine args
  IO.print ending.output
  IO.eprint ending.errors
  return ending.code.toUInt32
