import UdpCustom.Link
import UdpCustom.Receiver.Theorems

-- What the receiver writes is what the sender was given.
namespace UdpCustom.Link

open UdpCustom.Frame UdpCustom.Fec Transition
open UdpCustom.Sender (Config)

variable {cfg : Config} {s s' : State}

theorem next_send {l : Sender.Label} (hst : next cfg s (.send l) = some s') :
    (∀ frame ∈ l.input, frame ∈ s.feedback) ∧ ∃ sender out,
      Sender.next cfg s.sender l = some (sender, out) ∧
        s' = { s with sender := sender, wire := out ++ s.wire } := by
  obtain ⟨hinput, hst⟩ := Option.ite_none_right_eq_some.1 hst
  obtain ⟨⟨sender, out⟩, hsender, rfl⟩ := Option.map_eq_some_iff.1 hst
  exact ⟨hinput, sender, out, hsender, rfl⟩

theorem next_recv {l : Receiver.Label} (hst : next cfg s (.recv l) = some s') :
    (∀ frame ∈ l.input, frame ∈ s.wire) ∧ ∃ receiver out,
      Receiver.next cfg s.receiver l = some (receiver, out) ∧
        s' = { s with receiver := receiver, feedback := out ++ s.feedback } := by
  obtain ⟨hinput, hst⟩ := Option.ite_none_right_eq_some.1 hst
  obtain ⟨⟨receiver, out⟩, hreceiver, rfl⟩ := Option.map_eq_some_iff.1 hst
  exact ⟨hinput, receiver, out, hreceiver, rfl⟩

theorem reachable_next {l : Label} (h : Reachable (system cfg) s) (hst : next cfg s l = some s') :
    Reachable (system cfg) s' :=
  .step h trivial hst

-- A step that is not the pump's call of `sendRecord`.
theorem lasting_next {l : Label} (hcall : ∀ payload, l ≠ .send (.call payload))
    (hst : next cfg s l = some s') : Sender.Lasting s.sender s'.sender := by
  cases l with
  | send sl =>
      obtain ⟨_, sender, out, hsender, rfl⟩ := next_send hst
      exact Sender.lasting_next (fun payload he => hcall payload (he ▸ rfl)) hsender
  | recv rl =>
      obtain ⟨_, receiver, out, _, rfl⟩ := next_recv hst
      exact ⟨rfl, id⟩

-- Both ends and the datagrams between them agree on what was sent.
structure Agree (cfg : Config) (s : State) : Prop where
  sender : Sender.Inv cfg s.sender
  receiver : Receiver.Inv cfg s.sender.records s.receiver
  wire : ∀ f ∈ s.wire, Sender.Genuine cfg s.sender.records f

theorem agree_initial (cfg : Config) : Agree cfg (initial cfg) := by
  refine ⟨Sender.inv_initial cfg, ⟨?_, ?_, ?_, Delivery.inWindow_new _, ?_, rfl⟩,
    fun _ hf => absurd hf List.not_mem_nil⟩
  · exact fun _ ht => absurd ht List.not_mem_nil
  · intro r hr
    obtain ⟨-, ⟨⟩⟩ := Option.ite_none_right_eq_some.1 hr
    exact genuine_newFECReceiverExt _ _ _
  · intro seq payload hp
    simp [initial, Receiver.initial, Delivery.newOrderedDelivery] at hp
  · intro i payload hp
    simp [initial, Receiver.initial] at hp

theorem agree_step {l : Label} (h : Agree cfg s) (hst : next cfg s l = some s') : Agree cfg s' := by
  cases l with
  | send l =>
      obtain ⟨_, sender, out, hsender, rfl⟩ := next_send hst
      have hstep := Sender.stepped_next h.sender hsender
      refine ⟨hstep.inv, h.receiver.mono hstep.kept, fun f hf => ?_⟩
      rcases List.mem_append.1 hf with hf | hf
      · exact hstep.out f hf
      · exact (h.wire f hf).mono hstep.kept
  | recv l =>
      obtain ⟨hinput, receiver, out, hreceiver, rfl⟩ := next_recv hst
      have hgenuine : ∀ frame ∈ l.input, Sender.Genuine cfg s.sender.records frame :=
        fun frame hframe => h.wire frame (hinput frame hframe)
      exact ⟨h.sender, Receiver.inv_next h.receiver hgenuine hreceiver, h.wire⟩

theorem agree_reachable (h : Reachable (system cfg) s) : Agree cfg s := by
  refine h.invariant (I := Agree cfg) ?_ ?_
  · rintro s rfl
    exact agree_initial cfg
  · exact fun s l s' hs _ hst => agree_step hs hst

theorem Agree.written_prefix_sent (h : Agree cfg s) : s.receiver.written <+: s.sender.passed := by
  rw [List.prefix_iff_getElem?]
  intro i hi
  have hrec := h.receiver.written i _ (List.getElem?_eq_getElem hi)
  obtain ⟨-, hrec⟩ := Option.ite_none_right_eq_some.1 hrec
  exact hrec

theorem written_prefix_passed {cfg : Config} {s : State} (h : Reachable (system cfg) s) :
    s.receiver.written <+: s.sender.passed :=
  (agree_reachable h).written_prefix_sent

-- Two records and their parity leave; the first record is lost and rebuilt.
def sampleConfig : Config where
  role := .client
  magic := 1
  sessionID := 7
  code := .pairParity (· ^^^ ·) UInt8.xor_comm ErasureCode.byte_xor_cancel
  recovery := true
  wideWindow := false
  westwood := true
  sendWindow := 0
  autoWindow := true
  fec := true
  fecExt := false

def sendRecord (payload : Bytes) : List Label :=
  [.call payload, .windowOpen, .check, .number, .encode 0 0, .file 0 1000000, .submit,
    .addFec 0].map .send

def numbered (frame : UDPCFrame) (no : ℕ) : UDPCFrame :=
  { frame with packetNo := no }

def sampleParity : ParityShard where
  baseSeq := 1
  dataShards := 2
  parityShards := 1
  index := 0
  data := [0, 0, 3]

def sampleRun : List Label :=
  let block := [{ seq := 1, payload := [1] }, { seq := 2, payload := [2] }]
  let second := numbered (Sender.dataFrame sampleConfig 2 0 0 [2]) 2
  let parity := numbered { Sender.fecFrame sampleConfig 0 with
    seq := 1, flags := metaFlags 0 2 1 0 false ||| flagFecFeedback, data := sampleParity.data } 3
  let rebuilt := [{ seq := 1, payload := [1] }]
  sendRecord [1] ++ sendRecord [2] ++
    [.flushFec 1, .emitBlock block 0, .emitParity sampleParity 0 0, .gather, .gather, .gather,
      .transmit, .markTransmitted 5].map .send ++
    [.receive second, .fec { frame := second, stage := .accepted } 9 [] [],
      .offer { frame := second, stage := .offering [] },
      .receive parity, .fec { frame := parity, stage := .accepted } 9 [] [],
      .offer { frame := parity, stage := .offering rebuilt },
      .offer { frame := parity, stage := .offering [] },
      .wakeUp, .drain, .write true, .complete, .drain, .write true, .complete].map .recv

theorem rebuilt_record_written : ∃ s, (Reachable (system sampleConfig) s ∧
      s.receiver.written = [[1], [2]]) ∧ s.receiver.written <+: s.sender.passed := by
  obtain ⟨s, hs, hw⟩ := (system sampleConfig).exists_run
    (P := fun s => s.receiver.written = [[1], [2]]) rfl sampleRun (by decide +kernel)
  exact ⟨s, ⟨hs, hw⟩, written_prefix_passed hs⟩

end UdpCustom.Link
