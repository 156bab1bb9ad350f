import Testimony.Client.Block

/-!
# `Testimony.Client.Init`: `testimony_init`

`testimony_init` sends the fanout index in two messages, receives the descriptor of the ring
with `recvmsg`, and maps it. It does not look at how much of a message `send` took.
-/

set_option autoImplicit false

namespace Testimony.Client

open Wire

/-- The two messages of `testimony_init`, a TLV head and the index. -/
def initMsgs (conn : Connection) : List (List UInt8) :=
  [setBe32 ((typeFanoutIndex.toUInt32 <<< 16) + 4), setBe32 conn.fanoutIndex.toUInt32]

/-- The client once the ring is mapped at `ring`: `calloc` has cleared the counts. -/
def T.init (sockFd : Nat) (conn : Connection) (sock : Sock) (ring : Nat) : T where
  sockFd := sockFd
  sock := sock
  conn := conn
  ring := ring
  blockCounts := fun _ => 0

end Testimony.Client
