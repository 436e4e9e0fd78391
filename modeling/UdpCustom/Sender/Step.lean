import UdpCustom.Sender

-- The steps of a sender, one constructor for each way a step can go.
namespace UdpCustom.Sender

open UdpCustom.Frame UdpCustom.Flow UdpCustom.Recovery UdpCustom.Fec

-- The record that carries a parity shard.
def parityWire (cfg : Config) (frame : UDPCFrame) (windowSize no : ℕ) : UDPCFrame :=
  { frame with
    flags := frame.flags ||| feedbackFlags cfg
    windowSize := windowSize
    packetNo := no }

inductive Step (cfg : Config) (s : State) : Label → State → List UDPCFrame → Prop
  | turnedAway (payload : Bytes) (nonempty : payload ≠ []) (idle : s.pump = .idle)
      (closed : s.closed = true) :
      Step cfg s (.call payload) { s with passed := s.passed ++ [payload] } []
  | call (payload : Bytes) (nonempty : payload ≠ []) (idle : s.pump = .idle) :
      Step cfg s (.call payload)
        { s with passed := s.passed ++ [payload], pump := .waiting payload } []
  | windowOpen (payload : Bytes) (pump : s.pump = .waiting payload)
      (room : s.closed = true ∨ SeqMap.size s.outstanding.unacked < s.window cfg) :
      Step cfg s .windowOpen { s with pump := .admitted payload } []
  | checkClosed (payload : Bytes) (pump : s.pump = .admitted payload) (closed : s.closed = true) :
      Step cfg s .check { s with pump := .idle } []
  | check (payload : Bytes) (pump : s.pump = .admitted payload) (opened : s.closed = false) :
      Step cfg s .check { s with pump := .cleared payload } []
  | number (payload : Bytes) (pump : s.pump = .cleared payload) :
      Step cfg s .number
        { s with sendSeq := s.sendSeq + 1, pump := .numbered s.sendSeq payload } []
  | encodeFails (ack windowSize seq : ℕ) (payload : Bytes) (pump : s.pump = .numbered seq payload) :
      Step cfg s (.encode ack windowSize) { s with closed := true, pump := .idle } []
  | encode (ack windowSize seq : ℕ) (payload : Bytes) (pump : s.pump = .numbered seq payload) :
      Step cfg s (.encode ack windowSize)
        { s with
          sendPacketNo := s.sendPacketNo + 1
          pump := .encoded { dataFrame cfg seq ack windowSize payload with
            packetNo := s.sendPacketNo + 1 } } []
  | file (now rto : ℕ) (wire : UDPCFrame) (pump : s.pump = .encoded wire) :
      Step cfg s (.file now rto)
        { s with
          outstanding := s.outstanding.file wire now rto
          pump := .filed wire
          lastFiled := wire.seq } []
  | submit (wire : UDPCFrame) (pump : s.pump = .filed wire) :
      Step cfg s .submit { s with queue := s.queue ++ [wire], pump := .submitted wire } []
  | submitClosed (wire : UDPCFrame) (pump : s.pump = .filed wire) (closed : s.closed = true) :
      Step cfg s .submitClosed { s with pump := .idle } []
  | skipFec (loss : Float) (wire : UDPCFrame) (pump : s.pump = .submitted wire) :
      Step cfg s (.addFec loss) { s with pump := .idle } []
  | addFec (loss : Float) (wire : UDPCFrame) (pump : s.pump = .submitted wire) (f : FecSender)
      (fec : s.fecSend = some f) :
      Step cfg s (.addFec loss)
        { s with
          pump := .idle
          fecSend := some (f.add { seq := wire.seq, payload := wire.data } loss).2
          blocks := (f.add { seq := wire.seq, payload := wire.data } loss).1 ++ s.blocks } []
  | gather (wire : UDPCFrame) (rest : List UDPCFrame) (queue : s.queue = wire :: rest)
      (unsent : s.batchSent = false) :
      Step cfg s .gather { s with queue := rest, batch := s.batch ++ [wire] } []
  | transmit (unsent : s.batchSent = false) :
      Step cfg s .transmit { s with batchSent := true } s.batch
  | markTransmitted (now : ℕ) (sent : s.batchSent = true) :
      Step cfg s (.markTransmitted now)
        { s with
          outstanding := s.outstanding.markTransmitted s.batch now
          batch := []
          batchSent := false } []
  | bestEffort (wire : UDPCFrame) (mem : wire ∈ s.repairs)
      (room : s.queue.length < transmitBurst) :
      Step cfg s (.bestEffort wire)
        { s with repairs := s.repairs.erase wire, queue := s.queue ++ [wire] } []
  | dropRepair (wire : UDPCFrame) (mem : wire ∈ s.repairs)
      (full : ¬s.queue.length < transmitBurst) :
      Step cfg s (.bestEffort wire) { s with repairs := s.repairs.erase wire } []
  | abandon (now rtt bdp : ℕ) : Step cfg s (.retryDue now rtt bdp) { s with closed := true } []
  | retryDue (now rtt bdp : ℕ)
      (goes : (s.outstanding.retryDue now rttMaxRTO rtt bdp).1.abandoned = false) :
      Step cfg s (.retryDue now rtt bdp)
        { s with
          outstanding := (s.outstanding.retryDue now rttMaxRTO rtt bdp).2
          repairs := (s.outstanding.retryDue now rttMaxRTO rtt bdp).1.wires ++ s.repairs } []
  | sack (frame : UDPCFrame) (now rtt : ℕ) (cmd : frame.cmd = .sack) (dueAcks : List ℕ)
      (due : ∀ a ∈ dueAcks, a ∈ s.dueAcks ∨ frame.ack = a) :
      Step cfg s (.receive frame now rtt)
        { s with
          outstanding := (s.outstanding.updateSACK frame (s.sendSeq - 1) now rtt).2
          repairs := (s.outstanding.updateSACK frame (s.sendSeq - 1) now rtt).1.1 ++ s.repairs
          dueAcks := dueAcks } []
  | receive (frame : UDPCFrame) (now rtt : ℕ) (dueAcks : List ℕ)
      (due : ∀ a ∈ dueAcks, a ∈ s.dueAcks ∨ frame.ack = a) :
      Step cfg s (.receive frame now rtt) { s with dueAcks := dueAcks } []
  | handleAck (ack now srtt : ℕ) (due : ack ∈ s.dueAcks) :
      Step cfg s (.handleAck ack now srtt)
        { s with
          outstanding := s.outstanding.handleAck s.sendSeq ack now srtt
          dueAcks := s.dueAcks.erase ack } []
  | controlFails (frame : UDPCFrame) : Step cfg s (.control frame) { s with closed := true } []
  | control (frame : UDPCFrame) (notData : frame.cmd ≠ .data) (notFec : frame.cmd ≠ .fec) :
      Step cfg s (.control frame) { s with sendPacketNo := s.sendPacketNo + 1 }
        [{ frame with packetNo := s.sendPacketNo + 1 }]
  | flushFec (gen : ℕ) (f : FecSender) (fec : s.fecSend = some f) :
      Step cfg s (.flushFec gen)
        { s with fecSend := some (f.flushTimer gen).2, blocks := (f.flushTimer gen).1 :: s.blocks } []
  | emitBlock (block : List SourceShard) (loss : Float) (f : FecSender) (fec : s.fecSend = some f)
      (mem : block ∈ s.blocks) :
      Step cfg s (.emitBlock block loss)
        { s with
          fecSend := some (f.emitBlock cfg.code block loss).2
          blocks := s.blocks.erase block
          parity := (f.emitBlock cfg.code block loss).1 ++ s.parity } []
  | skipParity (p : ParityShard) (ack windowSize : ℕ) (mem : p ∈ s.parity) :
      Step cfg s (.emitParity p ack windowSize) { s with parity := s.parity.erase p } []
  | parityFails (p : ParityShard) (ack windowSize : ℕ) (mem : p ∈ s.parity) :
      Step cfg s (.emitParity p ack windowSize)
        { s with parity := s.parity.erase p, closed := true } []
  | dropParity (p : ParityShard) (ack windowSize : ℕ) (mem : p ∈ s.parity) :
      Step cfg s (.emitParity p ack windowSize)
        { s with parity := s.parity.erase p, sendPacketNo := s.sendPacketNo + 1 } []
  | emitParity (p : ParityShard) (ack windowSize : ℕ) (mem : p ∈ s.parity) (frame : UDPCFrame)
      (applied : p.applyToFrame (fecFrame cfg ack) cfg.fecExt = some frame) :
      Step cfg s (.emitParity p ack windowSize)
        { s with
          parity := s.parity.erase p
          sendPacketNo := s.sendPacketNo + 1
          queue := s.queue ++ [parityWire cfg frame windowSize (s.sendPacketNo + 1)] } []
  | close : Step cfg s .close { s with closed := true } []
  | closeFec : Step cfg s .closeFec { s with fecSend := s.fecSend.map (·.close) } []

variable {cfg : Config} {s s' : State} {l : Label} {out : List UDPCFrame}

theorem encodeFrame_cases (s : State) (frame : UDPCFrame) :
    s.encodeFrame frame = (none, { s with closed := true }) ∨
      s.encodeFrame frame = (some { frame with packetNo := s.sendPacketNo + 1 },
        { s with sendPacketNo := s.sendPacketNo + 1 }) := by
  unfold State.encodeFrame
  split
  · exact .inr rfl
  · exact .inl rfl

theorem step_receive (s : State) (frame : UDPCFrame) (now rtt : ℕ) :
    Step cfg s (.receive frame now rtt) (s.receive frame now rtt) [] := by
  have hdue : ∀ a ∈ frame.ack :: s.dueAcks, a ∈ s.dueAcks ∨ frame.ack = a := by
    intro a ha
    rcases List.mem_cons.1 ha with rfl | ha
    · exact .inr rfl
    · exact .inl ha
  unfold State.receive
  split
  · rename_i hsack
    refine .sack frame now rtt hsack _ fun a ha => ?_
    split at ha
    · exact hdue a ha
    · exact .inl ha
  · split
    · exact .receive frame now rtt _ hdue
    · exact .receive frame now rtt s.dueAcks fun _ ha => .inl ha

theorem step_emitParity {p : ParityShard} (hmem : p ∈ s.parity) (ack windowSize : ℕ) :
    Step cfg s (.emitParity p ack windowSize) (s.emitParity cfg p ack windowSize) [] := by
  unfold State.emitParity
  dsimp only
  split
  · exact .skipParity p ack windowSize hmem
  · split
    · exact .skipParity p ack windowSize hmem
    · rename_i frame happly
      rcases encodeFrame_cases { s with parity := s.parity.erase p }
        { frame with flags := frame.flags ||| feedbackFlags cfg, windowSize := windowSize } with he | he
      · rw [he]
        exact .parityFails p ack windowSize hmem
      · rw [he]
        unfold State.enqueue
        dsimp only
        split
        · exact .emitParity p ack windowSize hmem frame happly
        · exact .dropParity p ack windowSize hmem

theorem step_call {payload : Bytes} (hst : next cfg s (.call payload) = some (s', out)) :
    Step cfg s (.call payload) s' out := by
  obtain ⟨⟨hidle, hne, -⟩, hst⟩ := Option.ite_none_right_eq_some.1 hst
  dsimp only at hst
  split at hst
  · rename_i hclosed
    cases hst
    exact .turnedAway payload hne hidle hclosed.2
  · cases hst
    exact .call payload hne hidle

theorem step_encode {ack windowSize : ℕ} (hst : next cfg s (.encode ack windowSize) = some (s', out)) :
    Step cfg s (.encode ack windowSize) s' out := by
  simp only [next] at hst
  split at hst
  · rename_i seq payload hpump
    rcases encodeFrame_cases s (dataFrame cfg seq ack windowSize payload) with he | he
    · rw [he] at hst
      cases hst
      exact .encodeFails ack windowSize seq payload hpump
    · rw [he] at hst
      cases hst
      exact .encode ack windowSize seq payload hpump
  · cases hst

theorem step_addFec {loss : Float} (hst : next cfg s (.addFec loss) = some (s', out)) :
    Step cfg s (.addFec loss) s' out := by
  simp only [next] at hst
  split at hst
  · rename_i wire hpump
    split at hst
    · cases hst
      exact .skipFec loss wire hpump
    · rename_i f hf
      cases hst
      exact .addFec loss wire hpump f hf
  · cases hst

theorem step_bestEffort {wire : UDPCFrame}
    (hst : next cfg s (.bestEffort wire) = some (s', out)) :
    Step cfg s (.bestEffort wire) s' out := by
  obtain ⟨hmem, ⟨⟩⟩ := Option.ite_none_right_eq_some.1 hst
  unfold State.enqueue
  dsimp only
  split
  · rename_i hroom
    exact .bestEffort wire hmem hroom
  · rename_i hfull
    exact .dropRepair wire hmem hfull

theorem step_control {frame : UDPCFrame} (hst : next cfg s (.control frame) = some (s', out)) :
    Step cfg s (.control frame) s' out := by
  obtain ⟨⟨hdata, hfec⟩, hst⟩ := Option.ite_none_right_eq_some.1 hst
  rcases encodeFrame_cases s frame with he | he
  · rw [he] at hst
    cases hst
    exact .controlFails frame
  · rw [he] at hst
    cases hst
    exact .control frame hdata hfec

theorem step_of_next (hst : next cfg s l = some (s', out)) : Step cfg s l s' out := by
  cases l with
  | call payload => exact step_call hst
  | windowOpen =>
      simp only [next] at hst
      split at hst
      · rename_i payload hpump
        obtain ⟨hroom, ⟨⟩⟩ := Option.ite_none_right_eq_some.1 hst
        exact .windowOpen payload hpump hroom
      · cases hst
  | check =>
      simp only [next] at hst
      split at hst
      · rename_i payload hpump
        cases hst
        split
        · rename_i hclosed
          exact .checkClosed payload hpump hclosed
        · rename_i hopen
          exact .check payload hpump (Bool.eq_false_iff.2 hopen)
      · cases hst
  | number =>
      simp only [next] at hst
      split at hst
      · rename_i payload hpump
        cases hst
        exact .number payload hpump
      · cases hst
  | encode ack windowSize => exact step_encode hst
  | file now rto =>
      simp only [next] at hst
      split at hst
      · rename_i wire hpump
        cases hst
        exact .file now rto wire hpump
      · cases hst
  | submit =>
      simp only [next] at hst
      split at hst
      · rename_i wire hpump
        obtain ⟨-, ⟨⟩⟩ := Option.ite_none_right_eq_some.1 hst
        exact .submit wire hpump
      · cases hst
  | submitClosed =>
      simp only [next] at hst
      split at hst
      · rename_i wire hpump
        obtain ⟨hclosed, ⟨⟩⟩ := Option.ite_none_right_eq_some.1 hst
        exact .submitClosed wire hpump hclosed
      · cases hst
  | addFec loss => exact step_addFec hst
  | gather =>
      simp only [next] at hst
      split at hst
      · cases hst
      · rename_i wire rest hqueue
        obtain ⟨hopen, ⟨⟩⟩ := Option.ite_none_right_eq_some.1 hst
        exact .gather wire rest hqueue hopen.1
  | transmit =>
      obtain ⟨hbatch, ⟨⟩⟩ := Option.ite_none_right_eq_some.1 hst
      exact .transmit hbatch.2
  | markTransmitted now =>
      obtain ⟨hsent, ⟨⟩⟩ := Option.ite_none_right_eq_some.1 hst
      exact .markTransmitted now hsent
  | bestEffort wire => exact step_bestEffort hst
  | retryDue now rtt bdp =>
      simp only [next] at hst
      split at hst
      · cases hst
        exact .abandon now rtt bdp
      · rename_i hgoes
        cases hst
        exact .retryDue now rtt bdp (Bool.eq_false_iff.2 hgoes)
  | receive frame now rtt =>
      cases hst
      exact step_receive s frame now rtt
  | handleAck ack now srtt =>
      obtain ⟨hdue, ⟨⟩⟩ := Option.ite_none_right_eq_some.1 hst
      exact .handleAck ack now srtt hdue
  | control frame => exact step_control hst
  | flushFec gen =>
      simp only [next] at hst
      split at hst
      · cases hst
      · rename_i f hf
        cases hst
        exact .flushFec gen f hf
  | emitBlock block loss =>
      simp only [next] at hst
      split at hst
      · cases hst
      · rename_i f hf
        obtain ⟨hmem, ⟨⟩⟩ := Option.ite_none_right_eq_some.1 hst
        exact .emitBlock block loss f hf hmem
  | emitParity p ack windowSize =>
      obtain ⟨hmem, ⟨⟩⟩ := Option.ite_none_right_eq_some.1 hst
      exact step_emitParity hmem ack windowSize
  | close =>
      cases hst
      exact .close
  | closeFec =>
      obtain ⟨-, ⟨⟩⟩ := Option.ite_none_right_eq_some.1 hst
      exact .closeFec

end UdpCustom.Sender
