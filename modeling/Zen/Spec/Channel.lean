import Zen.Isolation.Channel
import Zen.Lib.Run

/-!
# A channel by itself

The calls on one channel, what bounds its buffers, and what it means that a frame crosses from one
fresh channel to another.
-/

namespace Zen.Isolation
open Lib

inductive ChannelInput where
  | queue (op : Op) (payload : ByteString)
  | flush (results : List SendResult)
  | poll (results : List RecvResult)

namespace Channel

def step : ChannelInput → Channel → Option Channel
  | .queue op payload, ch => some (ch.queue op payload)
  | .flush results, ch => some (ch.flush results).1
  | .poll results, ch => some (ch.poll results).1

/-- All the bytes held, sent or not, are within the cap. -/
def Bounded (ch : Channel) : Prop :=
  ch.failed = false → ch.outbox.length ≤ kMaxBacklog ∧ ch.inbox.length ≤ kMaxBacklog

/-- A frame is queued only where it fits next to the bytes already sent, or is too much for the channel
without them. -/
def Room : ChannelInput → Channel → Prop
  | .queue _ payload, ch => ch.failed = false → payload.length ≤ kMaxFrameLen →
      ch.outbox.length + 5 + payload.length ≤ kMaxBacklog ∨
        kMaxBacklog < ch.outbox.length - ch.outPos + 5 + payload.length
  | _, _ => True

/-! ## One frame -/

/-- The frames of successive polls. -/
def pollAll : List (List RecvResult) → Channel → Channel × List Incoming
  | [], ch => (ch, [])
  | results :: polls, ch =>
      let (ch, frames) := ch.poll results
      let (ch, more) := pollAll polls ch
      (ch, frames ++ more)

end Channel

namespace RecvResult

def bytes : RecvResult → ByteString
  | data bytes => bytes
  | _ => []

/-- Some bytes, or an interruption. -/
def isPiece : RecvResult → Bool
  | data bytes => !bytes.isEmpty
  | interrupted => true
  | _ => false

end RecvResult

/-- What each poll receives until `recv` would block, of a peer that sends these bytes. -/
structure Segments (polls : List (List RecvResult)) (word : ByteString) : Prop where
  pieces : ∀ results ∈ polls, ∀ result ∈ results, result.isPiece
  whole : (polls.flatMap fun results => results.flatMap RecvResult.bytes) = word

/-- The channel works, and the polls gave this frame and no other. -/
def Delivers (polls : List (List RecvResult)) (f : Incoming) : Prop :=
  (Channel.pollAll polls {}).1.failed = false ∧ (Channel.pollAll polls {}).2 = [f]

end Zen.Isolation
