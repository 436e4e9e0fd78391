import UdpCustom.Downstream.Theorems
import UdpCustom.Link.Retention

-- What becomes of the stream after the target has ended it.
namespace UdpCustom.Downstream

open UdpCustom.Frame Transition
open UdpCustom.Sender (Config)

variable {cfg : Config} {stream : Bytes} {s s' : State} {l : Label}

structure Ended (stream : Bytes) (s : State) : Prop where
  pump : s.pumpDone = true
  closed : s.link.sender.closed = true
  sent : s.link.sender.passed.flatten = stream

theorem ended_eof (h : Reachable (system cfg stream) s) (heof : next cfg s .eof = some s') :
    Ended stream s' ∧ s'.link.receiver = s.link.receiver ∧
      s'.link.sender.passed = s.link.sender.passed := by
  cases step_of_next heof with
  | eof _ hopen hchunk hunread hlink =>
      obtain ⟨_, sender, out, hsender, rfl⟩ := Link.next_send hlink
      cases hsender
      have htotal := (shipped_reachable h).total hopen
      rw [hchunk, hunread, List.append_nil, List.append_nil] at htotal
      exact ⟨⟨rfl, rfl, htotal⟩, rfl, rfl⟩

-- The pump has returned, so nothing more is passed on.
theorem Ended.next (h : Ended stream s) (hst : Downstream.next cfg s l = some s') :
    Ended stream s' ∧ s'.link.sender.passed = s.link.sender.passed := by
  have hstopped : s.pumping = true → False := by
    simp [State.pumping, h.pump]
  cases step_of_next hst with
  | link hallows hlink =>
      obtain ⟨hpassed, hclosed⟩ := lasting_link hallows hlink
      exact ⟨⟨h.pump, hclosed h.closed, hpassed ▸ h.sent⟩, hpassed⟩
  | runClosed _ _ | retransmitClosed _ => exact ⟨⟨h.pump, h.closed, h.sent⟩, rfl⟩
  | read hpumping _ _ _ _ _ => exact (hstopped hpumping).elim
  | sendRecord hpumping _ _ _ => exact (hstopped hpumping).elim
  | sendFailed hpumping _ => exact (hstopped hpumping).elim
  | eof hpumping _ _ _ _ => exact (hstopped hpumping).elim
  | pumpClosed hpumping _ _ => exact (hstopped hpumping).elim

-- The client gives nothing back.
theorem advances_next (h : Open cfg s) (hst : next cfg s l = some s') :
    s.link.receiver.delivery.Advances s'.link.receiver.delivery := by
  rcases next_link hst with ⟨-, he, -⟩ | ⟨rl, -, hopen, hlink⟩
  · rw [he]
    exact .refl _
  · obtain ⟨_, receiver, out, hreceiver, hs'⟩ := Link.next_recv hlink
    rw [hs']
    exact (Receiver.reports_next (Link.agree_reachable h.reachable).receiver.writer
      (Link.tracked_reachable h.reachable).snapshots hreceiver).advances

theorem State.AllIn.next (hall : s.AllIn) (hended : Ended stream s) (h : Open cfg s)
    (hst : Downstream.next cfg s l = some s') : s'.AllIn := by
  intro seq hpos hle
  rw [(hended.next hst).2] at hle
  have hheld : s'.link.receiver.delivery.Held seq := by
    refine (advances_next h hst).held seq ?_
    rcases hall seq hpos hle with hdelivered | hpending
    · exact .inr (.inr hdelivered)
    · exact .inr (.inl hpending)
  rcases hheld with hclosed | hpending | hdelivered
  · exact absurd (hclosed.symm.trans (h.next hst).awake.closed) Bool.noConfusion
  · exact .inr hpending
  · exact .inl hdelivered

-- With everything there, the writer has a step to take until it has written all.
structure Draining (cfg : Config) (stream : Bytes) (s : State) : Prop where
  isOpen : Open cfg s
  ended : Ended stream s
  allIn : s.AllIn

theorem Draining.next (h : Draining cfg stream s) (hst : Downstream.next cfg s l = some s') :
    Draining cfg stream s' :=
  ⟨h.isOpen.next hst, (h.ended.next hst).1, h.allIn.next h.ended h.isOpen hst⟩

theorem Draining.head (h : Draining cfg stream s)
    (hmore : s.link.receiver.written.length < s.link.sender.passed.length)
    (hat : s.link.receiver.written.length = s.link.receiver.delivery.delivered) :
    s.link.receiver.delivery.delivered + 1 ∈ s.link.receiver.delivery.pending := by
  rcases h.allIn (s.link.receiver.delivery.delivered + 1) (Nat.succ_pos _) (by omega) with hle | hmem
  · omega
  · exact hmem

theorem Draining.writerReady (h : Draining cfg stream s)
    (hmore : s.link.receiver.written.length < s.link.sender.passed.length) :
    s.writerReady = true := by
  have hw := (Link.agree_reachable h.isOpen.reachable).receiver.writer
  unfold State.writerReady
  unfold Receiver.WriterAt at hw
  split
  · rename_i hwriter
    rw [hwriter] at hw
    exact h.isOpen.awake.wake (.inl hwriter) (h.head hmore hw)
  · rename_i hwriter
    exact absurd hwriter h.isOpen.awake.running
  · rfl

-- The writes to come, each at most four steps of the writer away from the last.
def remaining (s : State) : ℕ :=
  4 * (s.link.sender.passed.length - s.link.receiver.written.length) +
    Receiver.distance s.link.receiver.writer

theorem distance_le (w : Delivery.Writer) : Receiver.distance w ≤ 3 := by
  cases w <;> simp [Receiver.distance]

theorem Draining.nearer (h : Draining cfg stream s)
    (hmore : s.link.receiver.written.length < s.link.sender.passed.length)
    (hst : Downstream.next cfg s l = some s') :
    remaining s' ≤ remaining s ∧ (l.ofWriter = true → remaining s' < remaining s) := by
  have hpassed := (h.ended.next hst).2
  rcases next_link hst with ⟨hl, he, -⟩ | ⟨rl, rfl, hopen, hlink⟩
  · rw [remaining, remaining, hpassed, he, hl]
    exact ⟨Nat.le_refl _, nofun⟩
  · obtain ⟨_, receiver, out, hreceiver, hs'⟩ := Link.next_recv hlink
    cases hl : rl.ofWriter with
    | false =>
        have hbeside := Receiver.beside_next hl hopen hreceiver
        rw [remaining, remaining, hpassed, hs']
        dsimp only
        rw [hbeside.writer, hbeside.written]
        exact ⟨Nat.le_refl _, fun hw => absurd (hl.symm.trans hw) Bool.noConfusion⟩
    | true =>
        obtain ⟨-, hle, hnear⟩ := Receiver.awake_writer hl hopen h.isOpen.awake hreceiver
        have hlt := hnear fun hdraining => by
          have hw := (Link.agree_reachable h.isOpen.reachable).receiver.writer
          rw [Receiver.WriterAt, hdraining] at hw
          exact h.head hmore hw
        have hfar := distance_le receiver.writer
        have hfalls : remaining s' < remaining s := by
          rw [remaining, remaining, hpassed, hs']
          dsimp only
          omega
        exact ⟨hfalls.le, fun _ => hfalls⟩

theorem Draining.drained {ρ : Execution (system cfg stream)} (hfair : Fair ρ)
    (h : Draining cfg stream (ρ.state 0)) :
    ∃ i, (ρ.state i).link.receiver.written.flatten = stream := by
  have hall : ∀ i, Draining cfg stream (ρ.state i) := fun i =>
    ρ.always h (fun j _ hj => hj.next (ρ.step j)) i (Nat.zero_le i)
  obtain ⟨i, hi⟩ := ρ.reaches
    (fun s => s.link.sender.passed.length ≤ s.link.receiver.written.length) remaining
    (fun j => (ρ.label j).ofWriter = true)
    (fun j hj => ((hall j).nearer (Nat.not_le.1 hj) (ρ.step j)).1)
    (fun j hj => ((hall j).nearer (Nat.not_le.1 hj) (ρ.step j)).2)
    (fun hno i => by
      obtain ⟨j, hj, hwriter | hidle⟩ := hfair.writer i
      · exact ⟨j, hj, hwriter⟩
      · rw [(hall j).writerReady (Nat.not_le.1 (hno j))] at hidle
        cases hidle)
  have hwrote := (Link.agree_reachable (hall i).isOpen.reachable).written_prefix_sent
  refine ⟨i, ?_⟩
  rw [hwrote.eq_of_length (Nat.le_antisymm hwrote.length_le hi)]
  exact (hall i).ended.sent

section Lost

-- The network has nothing more to hand over, the server's goroutines have
-- returned, and the client writes what it has.
def writerStep (r : Receiver.State) : Receiver.Label :=
  match r.writer with
  | .sleeping => if r.delivery.wake then .wakeUp else .snapshot
  | .draining => .drain
  | .writing .. => .write true
  | .written .. => .complete
  | .idling => .idle
  | .stopped => .snapshot

def silence (i : ℕ) (s : State) : Label :=
  if i = 0 then
    if s.link.sender.batchSent then .link (.send (.markTransmitted 0)) else .link (.recv .snapshot)
  else if i = 1 then .runClosed
  else if i = 2 then .retransmitClosed
  else if i % 3 = 0 then .link (.recv (writerStep s.link.receiver))
  else if i % 3 = 1 then .link (.recv .snapshot)
  else .link (.recv (.sendAck s.link.receiver.delivery.snapshot .ack))

-- What a step of the client does to a record it lacks.
theorem lacks_next {r r' : Receiver.State} {rl : Receiver.Label} {out : List UDPCFrame} {seq : ℕ}
    (hawake : Receiver.Awake r) {records : Fec.Records} (hw : Receiver.WriterAt records r)
    (hl : rl.ofWriter = true ∨ rl = .snapshot ∨ ∃ snap cmd, rl = .sendAck snap cmd)
    (hopen : rl.keepsOpen = true) (hst : Receiver.next cfg r rl = some (r', out))
    (hlacks : seq ∉ r.delivery.pending ∧ r.delivery.delivered < seq) :
    seq ∉ r'.delivery.pending ∧ r'.delivery.delivered < seq := by
  cases Receiver.step_of_next hst with
  | complete done payload hwriter =>
      have hmem := hawake.busy done payload (.inr hwriter)
      rw [Receiver.WriterAt, hwriter] at hw
      refine ⟨fun hmem => hlacks.1 (Finmap.mem_erase.1 hmem).2, ?_⟩
      have hne : done ≠ seq := fun he => hlacks.1 (he ▸ hmem)
      show done < seq
      omega
  | sendAck snap cmd =>
      obtain ⟨no, hno⟩ := Receiver.send_state r (Receiver.ackFrame cfg snap cmd)
      rw [hno]
      exact hlacks
  | stop | wakeUp | drain | write | idle | snapshot => exact hlacks
  | _ => simp [Receiver.Label.ofWriter] at hl

theorem writerStep_cases (r : Receiver.State) :
    ((writerStep r).ofWriter = true ∨ writerStep r = .snapshot) ∧
      (writerStep r).keepsOpen = true ∧ (writerStep r).input = none := by
  unfold writerStep
  split
  · split
    · exact ⟨.inl rfl, rfl, rfl⟩
    · exact ⟨.inr rfl, rfl, rfl⟩
  · exact ⟨.inl rfl, rfl, rfl⟩
  · exact ⟨.inl rfl, rfl, rfl⟩
  · exact ⟨.inl rfl, rfl, rfl⟩
  · exact ⟨.inl rfl, rfl, rfl⟩
  · exact ⟨.inr rfl, rfl, rfl⟩

theorem writerStep_ready (s : State) :
    (writerStep s.link.receiver).ofWriter = true ∨ s.writerReady = false := by
  unfold writerStep State.writerReady
  cases s.link.receiver.writer with
  | sleeping =>
      cases s.link.receiver.delivery.wake with
      | true => exact .inl rfl
      | false => exact .inr rfl
  | stopped => exact .inr rfl
  | _ => exact .inl rfl

theorem next_writerStep (cfg : Config) {r : Receiver.State} (h : Receiver.Awake r) :
    ∃ r', Receiver.next cfg r (writerStep r) = some (r', []) := by
  unfold writerStep
  split
  · rename_i hwriter
    split
    · rename_i hwake
      simp [Receiver.next, hwriter, hwake, h.done]
    · exact ⟨_, rfl⟩
  · rename_i hwriter
    simp [Receiver.next, hwriter]
  · rename_i hwriter
    simp [Receiver.next, hwriter]
  · rename_i hwriter
    simp [Receiver.next, hwriter]
  · rename_i hwriter
    simp [Receiver.next, hwriter]
  · exact ⟨_, rfl⟩

structure Silent (cfg : Config) (stream : Bytes) (seq i : ℕ) (s : State) : Prop where
  isOpen : Open cfg s
  ended : Ended stream s
  lacks : Link.Lacks s.link seq
  start : i = 0 → s.runDone = false
  idle : 1 ≤ i → s.link.sender.batchSent = false
  run : 2 ≤ i → s.runDone = true
  retransmit : 3 ≤ i → s.retransmitDone = true
  view : i % 3 = 2 → 3 ≤ i →
    s.link.receiver.delivery.snapshot ∈ s.link.receiver.snapshots

theorem Silent.client {seq i : ℕ} (h : Silent cfg stream seq i s) (hi : i ≠ 1) (hi' : i ≠ 2)
    (hidle : s.link.sender.batchSent = false) {rl : Receiver.Label}
    (hl : rl.ofWriter = true ∨ rl = .snapshot ∨ ∃ snap cmd, rl = .sendAck snap cmd)
    (hopen : rl.keepsOpen = true) (hinput : rl.input = none) {r' : Receiver.State}
    {out : List UDPCFrame} (hst : Receiver.next cfg s.link.receiver rl = some (r', out))
    (hview : (i + 1) % 3 = 2 → r'.delivery.snapshot ∈ r'.snapshots) :
    ∃ s', next cfg s (.link (.recv rl)) = some s' ∧ Silent cfg stream seq (i + 1) s' := by
  have hnext : next cfg s (.link (.recv rl)) = some { s with
      link := { s.link with receiver := r', feedback := out ++ s.link.feedback } } := by
    simp [next, State.allows, hopen, Link.next, hinput, hst]
  refine ⟨_, hnext, h.isOpen.next hnext, (h.ended.next hnext).1, ?_,
    fun hz => absurd hz (Nat.succ_ne_zero i), fun _ => hidle,
    fun hle => h.run (by omega), fun hle => h.retransmit (by omega), fun hmod _ => hview hmod⟩
  exact lacks_next h.isOpen.awake (Link.agree_reachable h.isOpen.reachable).receiver.writer hl hopen
    hst h.lacks

theorem silent_next {seq i : ℕ} (h : Silent cfg stream seq i s) :
    ∃ s', next cfg s (silence i s) = some s' ∧ Silent cfg stream seq (i + 1) s' := by
  unfold silence
  split_ifs with hzero hbatch hone htwo hwrite hsnap
  · have hstep : next cfg s (.link (.send (.markTransmitted 0))) = some { s with
        link := { s.link with
          sender := { s.link.sender with
            outstanding := s.link.sender.outstanding.markTransmitted s.link.sender.batch 0
            batch := []
            batchSent := false } } } := by
      simp [next, State.allows, h.start hzero, Link.next, Sender.Label.input, Sender.next, hbatch]
    refine ⟨_, hstep, h.isOpen.next hstep, (h.ended.next hstep).1, h.lacks,
      fun hz => absurd hz (Nat.succ_ne_zero i), fun _ => rfl, fun hle => ?_, fun hle => ?_, fun hmod => ?_⟩ <;> omega
  · exact h.client (by omega) (by omega) (Bool.eq_false_iff.2 hbatch) (.inr (.inl rfl)) rfl rfl rfl
      fun hmod => by omega
  · have hstep : next cfg s .runClosed = some { s with runDone := true } := by
      simp [next, h.ended.closed, h.idle (by omega)]
    refine ⟨_, hstep, h.isOpen.next hstep, (h.ended.next hstep).1, h.lacks,
      fun hz => absurd hz (Nat.succ_ne_zero i), fun _ => h.idle (by omega), fun _ => rfl, fun hle => ?_, fun hmod => ?_⟩ <;> omega
  · have hstep : next cfg s .retransmitClosed = some { s with retransmitDone := true } := by
      simp [next, h.ended.closed]
    refine ⟨_, hstep, h.isOpen.next hstep, (h.ended.next hstep).1, h.lacks,
      fun hz => absurd hz (Nat.succ_ne_zero i), fun _ => h.idle (by omega),
      fun _ => h.run (by omega), fun _ => rfl, fun hmod => ?_⟩
    omega
  · obtain ⟨r', hr'⟩ := next_writerStep cfg h.isOpen.awake
    obtain ⟨hl, hopen, hinput⟩ := writerStep_cases s.link.receiver
    exact h.client hone htwo (h.idle (by omega)) (hl.imp_right .inl) hopen hinput hr'
      fun hmod => by omega
  · exact h.client hone htwo (h.idle (by omega)) (.inr (.inl rfl)) rfl rfl rfl
      fun _ => List.mem_cons_self
  · have hmem := h.view (by omega) (by omega)
    have hsend : Receiver.next cfg s.link.receiver
        (.sendAck s.link.receiver.delivery.snapshot .ack) = some (s.link.receiver.send
          (Receiver.ackFrame cfg s.link.receiver.delivery.snapshot .ack)) := by
      simp [Receiver.next, hmem]
    exact h.client hone htwo (h.idle (by omega)) (.inr (.inr ⟨_, _, rfl⟩)) rfl rfl hsend
      fun hmod => by omega

theorem Silent.fair {ρ : Execution (system cfg stream)} {seq : ℕ}
    (hlabel : ∀ i, ρ.label i = silence i (ρ.state i))
    (h : ∀ i, Silent cfg stream seq i (ρ.state i)) : Fair ρ := by
  refine ⟨fun i => ⟨3 * (i + 1), by omega, ?_⟩, fun i => ⟨3 * (i + 1) + 2, by omega, .ack, ?_⟩,
    fun seq hsent => ?_, fun i _ => ⟨i + 3, by omega, (h _).run (by omega), (h _).retransmit (by omega)⟩⟩
  · have hstep : ρ.label (3 * (i + 1)) =
        .link (.recv (writerStep (ρ.state (3 * (i + 1))).link.receiver)) := by
      rw [hlabel, silence, if_neg (by omega), if_neg (by omega), if_neg (by omega),
        if_pos (by omega)]
    rw [hstep]
    exact writerStep_ready _
  · rw [hlabel, silence, if_neg (by omega), if_neg (by omega), if_neg (by omega), if_neg (by omega),
      if_neg (by omega)]
  · obtain ⟨j, -, htransmit, -⟩ := hsent 0
    rw [hlabel] at htransmit
    unfold silence at htransmit
    split_ifs at htransmit <;> cases htransmit

theorem flatten_of_prefix {written passed : List Bytes} (h : written <+: passed)
    (hne : ∀ payload ∈ passed, payload ≠ []) (he : written.flatten = passed.flatten) :
    written = passed := by
  obtain ⟨rest, rfl⟩ := h
  rw [List.flatten_append, List.self_eq_append_right, List.flatten_eq_nil_iff] at he
  cases rest with
  | nil => rw [List.append_nil]
  | cons payload rest =>
      refine absurd (he payload List.mem_cons_self) (hne payload ?_)
      exact List.mem_append_right _ List.mem_cons_self

theorem Silent.short {seq i : ℕ} (h : Silent cfg stream seq i s)
    (hshipped : Shipped stream s) (hseq : seq ≤ s.link.sender.passed.length) :
    s.link.receiver.written.flatten ≠ stream := by
  intro hall
  have hagree := (Link.agree_reachable h.isOpen.reachable).receiver
  have hwritten := flatten_of_prefix (Link.agree_reachable h.isOpen.reachable).written_prefix_sent
    hshipped.nonempty (hall.trans h.ended.sent.symm)
  rw [← hwritten] at hseq
  have hw := hagree.writer
  obtain ⟨hpending, hdelivered⟩ := h.lacks
  unfold Receiver.WriterAt at hw
  split at hw
  · omega
  · omega
  · omega
  · omega
  · rename_i done payload hwriter
    have hmem := h.isOpen.awake.busy done payload (.inr hwriter)
    have he : done = seq := by omega
    exact hpending (he ▸ hmem)
  · rename_i hwriter
    exact h.isOpen.awake.running hwriter

theorem exists_lost (h : Reachable (system cfg stream) s) (heof : next cfg s .eof = some s')
    {seq : ℕ} (hseq : seq ≤ s.link.sender.passed.length) (hlacks : Link.Lacks s.link seq) :
    ∃ ρ : Execution (system cfg stream), ρ.state 0 = s' ∧ Fair ρ ∧
      ∀ i, (ρ.state i).link.receiver.written.flatten ≠ stream := by
  have h' : Reachable (system cfg stream) s' := .step h (l := .eof) trivial heof
  obtain ⟨hended, hreceiver, hpassed⟩ := ended_eof h heof
  have hrunning : s'.runDone = false := by
    have hrun := (shipped_reachable h).running
    cases step_of_next heof with
    | eof _ hopen _ _ _ =>
        refine Bool.eq_false_iff.2 fun hdone => ?_
        exact absurd ((hrun hdone).symm.trans hopen) Bool.noConfusion
  have hsilent : Silent cfg stream seq 0 s' := by
    refine ⟨open_reachable h', hended, ?_, fun _ => hrunning, fun hle => ?_, fun hle => ?_,
      fun hle => ?_, fun hmod => ?_⟩
    · rw [Link.Lacks, hreceiver]
      exact hlacks
    all_goals omega
  obtain ⟨ρ, hzero, hlabel, hall⟩ := Execution.exists_scheduled (S := system cfg stream)
    (I := Silent cfg stream seq) silence hsilent fun _ _ => silent_next
  refine ⟨ρ, hzero, Silent.fair hlabel hall, fun i => ?_⟩
  refine (hall i).short (shipped_reachable (ρ.reachable (hzero ▸ h') i)) ?_
  have hkept : ∀ i, (ρ.state i).link.sender.passed = s'.link.sender.passed := by
    intro i
    induction i with
    | zero => rw [hzero]
    | succ i ih => exact ((hall i).ended.next (ρ.step i)).2.trans ih
  rw [hkept, hpassed]
  exact hseq

end Lost

theorem stream_delivered_iff (h : Reachable (system cfg stream) s)
    (heof : next cfg s .eof = some s') :
    (∀ ρ : Execution (system cfg stream), ρ.state 0 = s' → Fair ρ →
      ∃ i, (ρ.state i).link.receiver.written.flatten = stream) ↔ s.AllIn := by
  have h' : Reachable (system cfg stream) s' := .step h (l := .eof) trivial heof
  obtain ⟨hended, hreceiver, hpassed⟩ := ended_eof h heof
  constructor
  · intro hdelivered seq hpos hle
    by_contra hlost
    have hlacks : Link.Lacks s.link seq :=
      ⟨fun hmem => hlost (.inr hmem), Nat.not_le.1 fun hle => hlost (.inl hle)⟩
    obtain ⟨ρ, hzero, hfair, hnever⟩ := exists_lost h heof hle hlacks
    obtain ⟨i, hi⟩ := hdelivered ρ hzero hfair
    exact hnever i hi
  · intro hall ρ hzero hfair
    refine Draining.drained hfair ?_
    rw [hzero]
    refine ⟨open_reachable h', hended, ?_⟩
    rw [State.AllIn, hpassed, hreceiver]
    exact hall

def sampleConfig : Config :=
  { Link.sampleConfig with role := .server }

def sampleStream : Bytes := [1]

-- The whole stream is read and sent in one record.
def sampleSend : List Label :=
  [.read 1, .sendRecord 1] ++ [.windowOpen, .check, .number, .encode 0 0, .file 0 1000000, .submit,
    .addFec 0].map fun sl => .link (.send sl)

def sampleReceive : List Label :=
  let frame := { Sender.dataFrame sampleConfig 1 0 0 [1] with packetNo := 1 }
  [.gather, .transmit, .markTransmitted 5].map (fun sl => .link (.send sl)) ++
    [.receive frame, .fec { frame := frame, stage := .accepted } 9 [] [],
      .offer { frame := frame, stage := .offering [] }].map fun rl => .link (.recv rl)

-- The target ends its stream once the client has the record.
theorem received_stream_delivered : ∃ s s', (Reachable (system sampleConfig sampleStream) s ∧
    next sampleConfig s .eof = some s' ∧ s.AllIn) ∧
      ∀ ρ : Execution (system sampleConfig sampleStream), ρ.state 0 = s' → Fair ρ →
        ∃ i, (ρ.state i).link.receiver.written.flatten = sampleStream := by
  obtain ⟨s, hs, heof, hlen, hmem⟩ := (system sampleConfig sampleStream).exists_run
    (P := fun s => (next sampleConfig s .eof).isSome = true ∧ s.link.sender.passed.length = 1 ∧
      1 ∈ s.link.receiver.delivery.pending) rfl (sampleSend ++ sampleReceive) (by decide +kernel)
  obtain ⟨s', heof⟩ := Option.isSome_iff_exists.1 heof
  have hall : s.AllIn := by
    intro seq hpos hle
    obtain rfl : seq = 1 := by omega
    exact .inr hmem
  exact ⟨s, s', ⟨hs, heof, hall⟩, (stream_delivered_iff hs heof).2 hall⟩

-- The record is still in the transmit queue when the stream ends.
theorem queued_record_dropped_at_eof : ∃ s s', Reachable (system sampleConfig sampleStream) s ∧
    next sampleConfig s .eof = some s' ∧
      ∃ ρ : Execution (system sampleConfig sampleStream), ρ.state 0 = s' ∧ Fair ρ ∧
        ∀ i, (ρ.state i).link.receiver.written.flatten ≠ sampleStream := by
  obtain ⟨s, hs, heof, hlen, hmem, hnone⟩ := (system sampleConfig sampleStream).exists_run
    (P := fun s => (next sampleConfig s .eof).isSome = true ∧ s.link.sender.passed.length = 1 ∧
      1 ∉ s.link.receiver.delivery.pending ∧ s.link.receiver.delivery.delivered = 0) rfl sampleSend
    (by decide +kernel)
  obtain ⟨s', heof⟩ := Option.isSome_iff_exists.1 heof
  have hlacks : Link.Lacks s.link 1 := ⟨hmem, by omega⟩
  exact ⟨s, s', hs, heof, exists_lost hs heof (by omega) hlacks⟩

end UdpCustom.Downstream
