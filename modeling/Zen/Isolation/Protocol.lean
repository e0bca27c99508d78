import Zen.Core.Binary
import Zen.Lib.Framing

/-!
# The wire protocol between host and child

Frames are `[u32 payload_len][u8 op][payload]`. An `Op` may hold any byte: what comes from the wire is
cast to it unchecked.
-/

namespace Zen.Isolation
open Lib

structure Op where
  value : UInt8
  deriving DecidableEq

namespace Op

def hello : Op := ⟨1⟩
def emit : Op := ⟨2⟩
def snapshot : Op := ⟨3⟩
def deliver : Op := ⟨16⟩
def revive : Op := ⟨17⟩
def shutdown : Op := ⟨18⟩

end Op

def kMaxFrameLen : Nat := 64 * 1024 * 1024
def kEmitSend : UInt8 := 0
def kEmitPublish : UInt8 := 1

def putU8 (v : UInt8) : ByteString := [v]
def putU32 (v : UInt32) : ByteString := putLe 4 v.toNat
def putU64 (v : UInt64) : ByteString := putLe 8 v.toNat
def putBytes (b : ByteString) : ByteString := putU32 (UInt32.ofNat b.length) ++ b

/-- The state is what the cursor has not read yet. A read that fails leaves it where it was, but for
the length that `bytes` has read by then. -/
abbrev Cursor (α : Type) := Reader Unit UInt8 α

namespace Cursor

def u8 : Cursor UInt8 := BinReader.u8
def u32 : Cursor UInt32 := do return UInt32.ofNat (readLe (← BinReader.take 4))
def u64 : Cursor UInt64 := do return UInt64.ofNat (readLe (← BinReader.take 8))
def bytes : Cursor ByteString := do BinReader.take (← u32).toNat
def rest : Cursor ByteString := fun data => .ok data []

end Cursor

structure Incoming where
  op : Op
  payload : ByteString
  deriving DecidableEq

/-! ## Frames -/

def frameBytes (f : Incoming) : ByteString :=
  putU32 (UInt32.ofNat f.payload.length) ++ putU8 f.op.value ++ f.payload

/-- One round of the loop of `poll` over the inbox. -/
def scanFrame (inbox : ByteString) : Scan Incoming UInt8 :=
  if inbox.length < 5 then .short
  else
    let len := readLe (inbox.take 4)
    if kMaxFrameLen < len then .bad
    else if inbox.length < 5 + len then .short
    else .frame ⟨⟨inbox.getD 4 0⟩, (inbox.drop 5).take len⟩ (inbox.drop (5 + len))

/-! ## Payloads -/

structure DeliverHeader where
  sender : UInt64
  replyTo : UInt64
  correlation : UInt64
  deriving DecidableEq

def deliverPayload (header : DeliverHeader) (bytes : ByteString) : ByteString :=
  putU64 header.sender ++ putU64 header.replyTo ++ putU64 header.correlation ++ bytes

def readDeliver : Cursor (DeliverHeader × ByteString) := do
  let sender ← Cursor.u64
  let replyTo ← Cursor.u64
  let correlation ← Cursor.u64
  return (⟨sender, replyTo, correlation⟩, ← Cursor.rest)

structure EmitHeader where
  kind : UInt8
  target : UInt64
  replyTo : UInt64
  correlation : UInt64
  deriving DecidableEq

def emitPayload (header : EmitHeader) (bytes : ByteString) : ByteString :=
  putU8 header.kind ++ putU64 header.target ++ putU64 header.replyTo ++ putU64 header.correlation ++ bytes

def readEmit : Cursor (EmitHeader × ByteString) := do
  let kind ← Cursor.u8
  let target ← Cursor.u64
  let replyTo ← Cursor.u64
  let correlation ← Cursor.u64
  return (⟨kind, target, replyTo, correlation⟩, ← Cursor.rest)

def helloPayload (manifest policy snapshot : ByteString) : ByteString :=
  putBytes manifest ++ putBytes policy ++ putBytes snapshot

def readHello : Cursor (ByteString × ByteString × ByteString) := do
  let manifest ← Cursor.bytes
  let policy ← Cursor.bytes
  let snapshot ← Cursor.bytes
  return (manifest, policy, snapshot)

end Zen.Isolation
