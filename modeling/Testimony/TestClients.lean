import Testimony.Client.Iter
import Testimony.GoClient.Iter

/-!
# `Testimony.TestClients`: the two test programs

`main` of `c/testimony_client.c` and `main` of `go/testclient/testclient.go`, from the first block
on. Both print the packets of the blocks they get as lines of hexadecimal digits, until they have
printed `count` of them. The integration test of the repository compares what they print with the
same file.

What `testimony_get_block` and `Conn.Block` return and how the return of a block goes is up to the
environment, one `Round` for each block.
-/

set_option autoImplicit false

namespace Testimony.TestClients

open Tpacket

/-- One round of a main loop: the answer to the call for a block, and whether the return of the
block succeeds. -/
inductive Round where
  | block (B : GoClient.Slice) (returned : Bool)
  | failed

/-- Where a program is at the end of a run. -/
inductive Exit where
  /-- In the call for another block. -/
  | waiting
  | done
  /-- With an error message and status 1. -/
  | failed
  deriving DecidableEq

/-- What a program has written to its standard output, and how many blocks it has returned. -/
structure Output where
  text : List Char
  returned : Nat
  exit : Exit
  deriving DecidableEq

/-- The output of a program that goes on after a block. -/
def Output.after (text : List Char) (out : Output) : Output :=
  { out with text := text ++ out.text, returned := out.returned + 1 }

/-! ### `c/testimony_client.c` -/

/-- `printf("%02x", b)` -/
def printf02x (b : UInt8) : List Char :=
  let digits := Nat.toDigits 16 b.toNat
  List.replicate (2 - digits.length) '0' ++ digits

/-- The line of a packet. -/
def dumpPacket (m : Mem) (pkt : Nat) : List Char :=
  (bytes m (Client.packetData m pkt) (tpSnaplen m pkt).toNat).flatMap printf02x ++ ['\n']

/-- What is printed of a packet that the iterator has come to. -/
def clientLine (flagDump : Bool) (iter : Client.Iter) (pkt : Nat) : List Char :=
  if flagDump then iter.block.elim [] (dumpPacket · pkt) else []

/-- The loop over the packets of a block, which is left by `goto done` when the result is `true`.
It ends when the count of the iterator does, so `fuel` is that count and one more. -/
def clientPackets (flagDump : Bool) : Nat → Client.Iter → Int32 →
    Except Client.Fault (List Char × Client.Iter × Int32 × Bool)
  | 0, iter, flagCount => .ok ([], iter, flagCount, false)
  | fuel + 1, iter, flagCount => do
      match ← Client.iterNext iter with
      | (none, iter) => return ([], iter, flagCount, false)
      | (some pkt, iter) =>
          let line := clientLine flagDump iter pkt
          let flagCount := flagCount - 1
          if flagCount = 0 then
            return (line, iter, flagCount, true)
          let (text, rest) ← clientPackets flagDump fuel iter flagCount
          return (line ++ text, rest)

/-- The main loop of `c/testimony_client.c`. -/
def clientMain (flagDump : Bool) : Client.Iter → Int32 → List Round → Except Client.Fault Output
  | _, _, [] => return ⟨[], 0, .waiting⟩
  | _, _, .failed :: _ => return ⟨[], 0, .failed⟩
  | iter, flagCount, .block B returned :: rounds => do
      -- The program does not look at what `testimony_iter_reset` returns.
      let iter := (Client.iterReset iter B.mem).toOption.getD iter
      let (text, iter, flagCount, stop) ←
        clientPackets flagDump (iter.left.toUInt32.toNat + 1) iter flagCount
      if stop then
        return ⟨text, 0, .done⟩
      if returned then
        return .after text (← clientMain flagDump iter flagCount rounds)
      return ⟨text, 0, .failed⟩

/-! ### `go/testclient/testclient.go` -/

/-- The digits of `fmt`. -/
def ldigits : List Char := "0123456789abcdef".toList

/-- `fmt.Printf("%x\n", data)` -/
def printfX (data : List UInt8) : List Char :=
  data.flatMap (fun c : UInt8 =>
    [ldigits.getD (c >>> 4).toNat '0', ldigits.getD (c &&& 0xF).toNat '0']) ++ ['\n']

/-- What is printed of a packet. -/
def testclientLine (dump : Bool) (block : GoClient.Block) : Except GoClient.Panic (List Char) := do
  if dump then
    return printfX ((← block.packetData).getD [])
  else
    return []

/-- The loop over the packets of a block, with the count it leaves. -/
def testclientPackets (dump : Bool) : Nat → GoClient.Block → Int →
    Except GoClient.Panic (List Char × Int)
  | 0, _, count => .ok ([], count)
  | fuel + 1, block, count => do
      let (more, block) ← block.next
      if more then
        if count = 0 then
          return ([], count)
        let count := count - 1
        let line ← testclientLine dump block
        let (text, count) ← testclientPackets dump fuel block count
        return (line ++ text, count)
      else
        return ([], count)

/-- The main loop of `go/testclient/testclient.go`. -/
def testclientMain (dump : Bool) : Int → List Round → Except GoClient.Panic Output
  | _, [] => return ⟨[], 0, .waiting⟩
  | _, .failed :: _ => return ⟨[], 0, .failed⟩
  | count, .block B returned :: rounds => do
      let (text, count) ← testclientPackets dump ((numPkts B.mem 0).toNat + 1) (.fresh B) count
      if returned then
        if count = 0 then
          return ⟨text, 1, .done⟩
        return .after text (← testclientMain dump count rounds)
      return ⟨text, 0, .failed⟩

end Testimony.TestClients
