import Zen.Isolation.Channel
import Zen.Lib.Run

/-!
# A link, end to end

The host's channel, the two directions of the socket as byte streams, and the child's blocking reads
and writes. One input is one call on either side, or one `recv` or `send` of the child, with as many
bytes as the kernel pleases. The lists of frames are what went in and came out at the four ends.
-/

namespace Zen.Isolation
open Lib

structure Wire where
  channel : Channel := {}
  down : ByteString := []
  up : ByteString := []
  got : ByteString := []
  sending : ByteString := []
  broken : Bool := false
  queued : List Incoming := []
  received : List Incoming := []
  sent : List Incoming := []
  polled : List Incoming := []

/-- What the `read_exact` that is running asks for, when `got` has come of the frame so far. -/
def wanted (got : ByteString) : Nat :=
  if got.length < 5 then 5 - got.length else 5 + readLe (got.take 4) - got.length

inductive WireInput where
  | queue (f : Incoming)
  | flush (results : List SendResult)
  | poll (results : List RecvResult)
  | childRecv (n : Nat)
  | childSendFrame (f : Incoming)
  | childSend (n : Nat)
  | childFails

namespace Wire

/-- One `recv` of a `read_frame`. -/
def childRecv (w : Wire) (n : Nat) : Option Wire :=
  if w.broken ∨ n = 0 ∨ wanted w.got < n ∨ w.down.length < n then none
  else
    let got := w.got ++ w.down.take n
    let w := { w with down := w.down.drop n }
    match scanFrame got with
    | .short => some { w with got }
    | .bad => some { w with got, broken := true }
    | .frame f rest => some { w with got := rest, received := w.received ++ [f] }

def step : WireInput → Wire → Option Wire
  | .queue f, w => some { w with channel := w.channel.queue f.op f.payload, queued := w.queued ++ [f] }
  | .flush results, w =>
      let (channel, taken) := w.channel.flush results
      some { w with channel, down := w.down ++ taken }
  | .poll results, w =>
      if w.channel.failed then some w
      else
        let taken := Channel.recvTaken results w.channel
        if taken <+: w.up then
          let (channel, frames) := w.channel.poll results
          some { w with channel, up := w.up.drop taken.length, polled := w.polled ++ frames }
        else none
  | .childRecv n, w => w.childRecv n
  | .childSendFrame f, w =>
      if w.broken ∨ w.sending ≠ [] then none
      else some { w with sending := frameBytes f, sent := w.sent ++ [f] }
  | .childSend n, w =>
      if w.broken ∨ n = 0 ∨ w.sending.length < n then none
      else some { w with up := w.up ++ w.sending.take n, sending := w.sending.drop n }
  | .childFails, w => some { w with broken := true, sending := [] }

end Wire
end Zen.Isolation
