import UdpCustom.Lib.Transition
import UdpCustom.Receiver

-- One direction of a session end to end. The network keeps every datagram it
-- was ever given and may hand any of them over at any time, any number of
-- times and in any order; loss is that it never does.
namespace UdpCustom.Link

open UdpCustom.Frame Transition
open UdpCustom.Sender (Config)

structure State where
  sender : Sender.State
  receiver : Receiver.State
  wire : List UDPCFrame
  feedback : List UDPCFrame

inductive Label
  | send (l : Sender.Label)
  | recv (l : Receiver.Label)

def next (cfg : Config) (s : State) : Label → Option State
  | .send l =>
    if ∀ frame ∈ l.input, frame ∈ s.feedback then
      (Sender.next cfg s.sender l).map fun (sender, out) =>
        { s with sender := sender, wire := out ++ s.wire }
    else none
  | .recv l =>
    if ∀ frame ∈ l.input, frame ∈ s.wire then
      (Receiver.next cfg s.receiver l).map fun (receiver, out) =>
        { s with receiver := receiver, feedback := out ++ s.feedback }
    else none

def initial (cfg : Config) : State where
  sender := Sender.initial cfg
  receiver := Receiver.initial cfg
  wire := []
  feedback := []

def system (cfg : Config) : System State Label where
  init := fun s => s = initial cfg
  next := next cfg

end UdpCustom.Link
