import Zen.Isolation.Protocol

/-!
# The host's end of a link

What the kernel answers to each `send` and `recv` is an argument: any number of bytes taken or given,
and any error. The two loops end when their answers do, as they would at `EAGAIN`.
-/

namespace Zen.Isolation
open Lib

def kMaxBacklog : Nat := 64 * 1024 * 1024

structure Channel where
  outbox : ByteString := []
  outPos : Nat := 0
  inbox : ByteString := []
  failed : Bool := false
  eof : Bool := false
  deriving DecidableEq

inductive SendResult where
  | sent (n : Nat)
  | again
  | interrupted
  | broken
  deriving DecidableEq

inductive RecvResult where
  | data (bytes : ByteString)
  | again
  | interrupted
  | broken
  deriving DecidableEq

namespace Channel

def done (ch : Channel) : Bool := ch.failed || ch.eof

def queue (ch : Channel) (op : Op) (payload : ByteString) : Channel :=
  if ch.failed then ch
  else if kMaxFrameLen < payload.length then { ch with failed := true }
  else
    let ch := { ch with outbox := ch.outbox ++ frameBytes ⟨op, payload⟩ }
    if kMaxBacklog < ch.outbox.length - ch.outPos then { ch with failed := true } else ch

/-- The loop of `flush`, with the bytes that the socket has taken. -/
def flushLoop : List SendResult → Channel → Channel × ByteString
  | [], ch => (ch, [])
  | result :: results, ch =>
      if ch.outPos < ch.outbox.length then
        match result with
        | .sent 0 | .broken => ({ ch with failed := true }, [])
        | .sent n =>
            let taken := (ch.outbox.drop ch.outPos).take n
            let (ch, more) := flushLoop results { ch with outPos := ch.outPos + taken.length }
            (ch, taken ++ more)
        | .again => (ch, [])
        | .interrupted => flushLoop results ch
      else (ch, [])

def flush (ch : Channel) (results : List SendResult) : Channel × ByteString :=
  if ch.failed then (ch, [])
  else
    let (ch, taken) := flushLoop results ch
    if ch.failed then (ch, taken)
    else if ch.outPos = ch.outbox.length then ({ ch with outbox := [], outPos := 0 }, taken)
    else (ch, taken)

def recvLoop : List RecvResult → Channel → Channel
  | [], ch => ch
  | .data bytes :: results, ch =>
      if bytes = [] then { ch with eof := true }
      else
        let ch := { ch with inbox := ch.inbox ++ bytes }
        if kMaxBacklog < ch.inbox.length then { ch with failed := true } else recvLoop results ch
  | .again :: _, ch => ch
  | .interrupted :: results, ch => recvLoop results ch
  | .broken :: _, ch => { ch with failed := true }

/-- The bytes that `recvLoop` has taken from the socket. -/
def recvTaken : List RecvResult → Channel → ByteString
  | [], _ => []
  | .data bytes :: results, ch =>
      let ch := { ch with inbox := ch.inbox ++ bytes }
      if bytes = [] ∨ kMaxBacklog < ch.inbox.length then bytes else bytes ++ recvTaken results ch
  | .interrupted :: results, ch => recvTaken results ch
  | .again :: _, _ | .broken :: _, _ => []

def poll (ch : Channel) (results : List RecvResult) : Channel × List Incoming :=
  if ch.failed then (ch, [])
  else
    let ch := recvLoop results ch
    if ch.failed then (ch, [])
    else
      let (frames, left, fine) := scanAll scanFrame ch.inbox.length ch.inbox
      ({ ch with inbox := left, failed := !fine }, frames)

end Channel
end Zen.Isolation
