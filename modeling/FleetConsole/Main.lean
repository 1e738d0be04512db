import FleetConsole.Command.Run
import FleetConsole.Dump.Delivery
import FleetConsole.Http.Wire
import Std.Async.DNS
import Std.Async.TCP
import Std.Async.Timer

/-!
# The program

The command line in the real world: settings come from the file system and the environment, requests
go over the network, and dumps are files. Only plain connections are made; a request that would need
an encrypted one fails as if nobody listened.
-/

namespace FleetConsole.Program

open Std.Async Std.Net

/-! ### The network -/

/-- Where a host can be reached. -/
def addresses : Url.Host → Async (List IPAddr)
  | .domain name => return (← DNS.getAddrInfo (String.ofList name) "").toList
  | .ipv4 address =>
    let byte (i : Nat) : UInt8 := UInt8.ofNat (address / Nat.pow 256 i)
    return [.v4 (.ofParts (byte 3) (byte 2) (byte 1) (byte 0))]
  | .ipv6 pieces =>
    let piece (i : Nat) : UInt16 := UInt16.ofNat (pieces.getD i 0)
    return [.v6 (.ofParts (piece 0) (piece 1) (piece 2) (piece 3) (piece 4) (piece 5) (piece 6)
      (piece 7))]

def connect (port : UInt16) : List IPAddr → Async TCP.Socket.Client
  | [] => throw (IO.userError "nobody listens")
  | address :: others => do
    let client ← TCP.Socket.Client.mk
    let place : SocketAddress :=
      match address with
      | .v4 addr => .v4 ⟨addr, port⟩
      | .v6 addr => .v6 ⟨addr, port⟩
    try
      client.connect place
      return client
    catch _ => connect port others

/-- All that comes over a connection until it ends. -/
partial def receive (client : TCP.Socket.Client) (received : ByteArray) : Async ByteArray := do
  let next ← try client.recv? 65536 catch _ => pure none
  match next with
  | some bytes => receive client (received ++ bytes)
  | none => return received

def exchange (request : Http.Request) (host : Url.Host) : Async Http.Reply := do
  let port := request.url.port.getD 80
  let client ← connect (UInt16.ofNat port) (← addresses host)
  client.send request.wireText.toUTF8
  return Http.response? (← receive client .empty).toList

/-- No reply after a number of seconds. -/
def giveUp (seconds : Nat) : Async Http.Reply := do
  let timer ← Sleep.mk (Std.Time.Millisecond.Offset.ofNat (1000 * seconds))
  timer.wait
  return none

/-- A request over the network, which may take a number of seconds. -/
def connection (timeout : Nat) (request : Http.Request) : IO Http.Reply := do
  match request.url.host with
  | some host =>
    if request.url.scheme = "http".toList then
      try (Async.race (exchange request host) (giveUp timeout)).block catch _ => return none
    else return none
  | none => return none

/-! ### Files -/

def faultText : IO.Error → String
  | .noFileOrDirectory .. => Storage.Fault.text .notFound
  | .alreadyExists .. => Storage.Fault.text .exists
  | error => toString error

/-- A dump is written to a temporary file, which is then renamed. -/
def store (dir : String) (artifact : Dump.Artifact) : IO (Except Failure String) := do
  let path := Dump.target dir artifact
  try
    unless dir.isEmpty do IO.FS.createDirAll dir
    let temporary :=
      Storage.Path.join dir
        (Storage.Tree.numberedName Dump.temporaryStart (← IO.monoNanosNow))
    try
      IO.FS.writeBinFile temporary ⟨artifact.bytes.toArray⟩
      IO.FS.rename temporary path
    catch error =>
      try IO.FS.removeFile temporary catch _ => pure ()
      throw error
    return .ok path
  catch error => return .error (.storage path (faultText error))

def settingsFiles (config : Option String) : IO Storage.Tree := do
  let here := toString (← IO.currentDir)
  let root := (({} : Storage.Tree).ensureDirectory here).2
  let mut tree := { root with here := (Storage.Path.ofText here).names }
  for name in Settings.candidates (config.getD Settings.usualName) do
    try
      let bytes ← IO.FS.readBinFile name
      tree := tree.plant name bytes.toList
    catch _ => pure ()
  return tree

def environment : IO (List (String × String)) := do
  let bytes ← try IO.FS.readBinFile "/proc/self/environ" catch _ => pure .empty
  let texts := Text.splitChars (· = '\x00') (Text.lenientChars bytes.toList)
  return texts.map fun cs =>
    (String.ofList (cs.takeWhile (· ≠ '=')), String.ofList (cs.dropWhile (· ≠ '=')).tail)

/-! ### The program -/

def services (settings : Settings) : Services IO where
  ask := Server.ask (fun request => Server.Outcome.result <$> Server.exchange Server.usualClient
    (connection settings.timeout) Server.redirectLimit request) settings.server
  overtake := return false
  deliver := store

end FleetConsole.Program

open FleetConsole in
/-- A command line is carried out; what it prints goes to the standard output, and a problem to the
standard error. -/
def main (words : List String) : IO UInt32 := do
  match CommandLine.parse words with
  | .error rejection =>
    IO.eprintln rejection.name
    return UInt32.ofNat rejection.exitCode
  | .ok invocation =>
    let files ← Program.settingsFiles invocation.config
    let result ← Command.run Program.services files (← Program.environment) invocation
    match result with
    | .ok text =>
      IO.print text
      return 0
    | .error problem =>
      IO.eprintln ("Error: " ++ problem.text)
      return problem.exitCode
