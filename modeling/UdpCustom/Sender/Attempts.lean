import UdpCustom.Link.Stream
import UdpCustom.Recovery.Repair
import UdpCustom.Sender.Outstanding

-- How often a record was really handed to the socket before the session is given
-- up because of it.
namespace UdpCustom.Attempts

open UdpCustom.Frame UdpCustom.Recovery UdpCustom.Fec UdpCustom.Sender Transition

variable {s' : State}

structure State where
  sender : Sender.State
  -- history: everything handed to the socket, and every wire the queue did not take
  sent : List UDPCFrame
  dropped : List UDPCFrame

-- `refuse` is a `bestEffort` that finds the session closed.
inductive Label
  | step (l : Sender.Label)
  | refuse (wire : UDPCFrame)

-- The wires a step of the sender gives up.
def refused (s : Sender.State) : Sender.Label → List UDPCFrame
  | .bestEffort wire => if s.queue.length < transmitBurst then [] else [wire]
  | .submitClosed =>
    match s.pump with
    | .filed wire => [wire]
    | _ => []
  | _ => []

def next (cfg : Config) (s : State) : Label → Option State
  | .step l =>
    match Sender.next cfg s.sender l with
    | none => none
    | some (sender, out) =>
      some { sender := sender, sent := out ++ s.sent, dropped := refused s.sender l ++ s.dropped }
  | .refuse wire =>
    if s.sender.closed ∧ wire ∈ s.sender.repairs then
      some { s with
        sender := { s.sender with repairs := s.sender.repairs.erase wire }
        dropped := wire :: s.dropped }
    else none

def system (cfg : Config) : System State Label where
  init := fun s => s = { sender := Sender.initial cfg, sent := [], dropped := [] }
  next := next cfg

-- The record `sendRecord` is about to submit.
def submitting : Pump → List UDPCFrame
  | .filed wire => [wire]
  | _ => []

-- The batch as long as it waits for its pace.
def unsent (batch : List UDPCFrame) : Bool → List UDPCFrame
  | true => []
  | false => batch

-- What is on its way to the socket.
def waiting (s : Sender.State) : List UDPCFrame :=
  submitting s.pump ++ s.queue ++ unsent s.batch s.batchSent ++ s.repairs

def State.copies (s : State) : List UDPCFrame :=
  s.sent ++ waiting s.sender ++ s.dropped

-- Every attempt counted is a copy somewhere.
structure Accounted (s : State) (seq : ℕ) (p : UnackedPkt) : Prop where
  key : p.wire.seq = seq
  data : p.wire.cmd = .data
  retries : p.retries ≤ clientMaxRetries
  total : s.copies.count p.wire = p.retries + 1

structure Inv (cfg : Config) (s : State) : Prop where
  sender : Sender.Inv cfg s.sender
  bounded : ∀ f ∈ s.copies, f.cmd = .data → f.seq ≤ s.sender.lastFiled
  accounted : ∀ seq p, s.sender.outstanding.unacked.lookup seq = some p → Accounted s seq p

-- A step that files nothing: it repeats `wires` and counts an attempt for each.
structure Moved (s s' : State) (wires : List UDPCFrame) : Prop where
  charged : s.sender.outstanding.Keyed →
    s.sender.outstanding.Charged s'.sender.outstanding wires
  copies : ∀ f, f.cmd = .data → s'.copies.count f = s.copies.count f + wires.count f
  wires : ∀ w ∈ wires, ∃ seq p, s.sender.outstanding.unacked.lookup seq = some p ∧ p.wire = w
  filed : s'.sender.lastFiled = s.sender.lastFiled

-- A step that only carries copies around.
theorem Moved.carried {s s' : State} (houtstanding : s'.sender.outstanding = s.sender.outstanding)
    (hcopies : ∀ f, f.cmd = .data → s'.copies.count f = s.copies.count f)
    (hfiled : s'.sender.lastFiled = s.sender.lastFiled) : Moved s s' [] where
  charged := fun _ => houtstanding ▸ .refl _
  copies := hcopies
  wires := fun _ hw => absurd hw List.not_mem_nil
  filed := hfiled

-- A step that leaves all copies where they are.
theorem Moved.still {s s' : State} (houtstanding : s'.sender.outstanding = s.sender.outstanding)
    (hsent : s'.sent = s.sent) (hwaiting : waiting s'.sender = waiting s.sender)
    (hdropped : s'.dropped = s.dropped) (hfiled : s'.sender.lastFiled = s.sender.lastFiled) :
    Moved s s' [] := by
  refine .carried houtstanding (fun f _ => ?_) hfiled
  rw [State.copies, State.copies, hsent, hwaiting, hdropped]

-- A step of the pump that neither finds nor leaves a record to submit.
theorem waiting_pump {t t' : Sender.State} (hpump : submitting t.pump = [])
    (hpump' : submitting t'.pump = []) (hqueue : t'.queue = t.queue)
    (hbatch : t'.batch = t.batch) (hsent : t'.batchSent = t.batchSent)
    (hrepairs : t'.repairs = t.repairs) : waiting t' = waiting t := by
  rw [waiting, waiting, hpump, hpump', hqueue, hbatch, hsent, hrepairs]

-- The state after a step of the sender.
def State.after (s : State) (l : Sender.Label) (t : Sender.State) (out : List UDPCFrame) : State where
  sender := t
  sent := out ++ s.sent
  dropped := refused s.sender l ++ s.dropped

variable {cfg : Config} {s : State} {t : Sender.State} {out : List UDPCFrame} {wire : UDPCFrame}

-- A repair leaves for the queue, or is given up.
theorem count_erase_repair (hmem : wire ∈ s.sender.repairs) (f : UDPCFrame) :
    (s.sender.repairs.erase wire).count f + [wire].count f = s.sender.repairs.count f := by
  rw [(List.perm_cons_erase hmem).count_eq f, List.count_cons, List.count_cons, List.count_nil,
    Nat.zero_add]

-- A wire of the closed sender is given up.
def State.without (s : State) (wire : UDPCFrame) : State :=
  { s with
    sender := { s.sender with repairs := s.sender.repairs.erase wire }
    dropped := wire :: s.dropped }

theorem next_cases {l : Label} (hst : next cfg s l = some s') :
    (∃ l' t out, Sender.next cfg s.sender l' = some (t, out) ∧ s' = s.after l' t out) ∨
      ∃ wire ∈ s.sender.repairs, s' = s.without wire := by
  cases l with
  | step l =>
      simp only [next] at hst
      split at hst
      · cases hst
      · rename_i t out hnext
        exact .inl ⟨l, t, out, hnext, (Option.some.inj hst).symm⟩
  | refuse wire =>
      obtain ⟨hclosed, hs'⟩ := Option.ite_none_right_eq_some.1 hst
      exact .inr ⟨wire, hclosed.2, (Option.some.inj hs').symm⟩

theorem moved_without (hmem : wire ∈ s.sender.repairs) :
    Moved s (s.without wire) [] := by
  refine .carried rfl (fun f _ => ?_) rfl
  have hf := (List.perm_cons_erase hmem).count_eq f
  rw [List.count_cons] at hf
  simp only [State.without, State.copies, waiting, List.count_append, List.count_cons]
  omega

-- The one step that adds a record to those outstanding.
structure Filed (s s' : State) (wire : UDPCFrame) : Prop where
  pump : s.sender.pump = .encoded wire
  outstanding : ∃ now rto, s'.sender.outstanding = s.sender.outstanding.file wire now rto
  copies : ∀ f, s'.copies.count f = s.copies.count f + [wire].count f
  filed : s'.sender.lastFiled = wire.seq

-- Where the copies of a record go in a step of the sender.
theorem moved_step {l : Sender.Label} (hst : Step cfg s.sender l t out) :
    (∃ wires, Moved s (s.after l t out) wires) ∨ ∃ wire, Filed s (s.after l t out) wire := by
  cases hst with
  | call _ _ hpump | windowOpen _ hpump | checkClosed _ hpump | check _ hpump | number _ hpump
  | encodeFails _ _ _ _ hpump | encode _ _ _ _ hpump | skipFec _ _ hpump | addFec _ _ hpump =>
      exact .inl ⟨[], .still rfl rfl (waiting_pump (hpump ▸ rfl) rfl rfl rfl rfl rfl) rfl rfl⟩
  | file now rto wire hpump =>
      refine .inr ⟨wire, hpump, ⟨now, rto, rfl⟩, fun f => ?_, rfl⟩
      simp only [State.copies, State.after, refused, waiting, hpump, submitting, List.count_append,
        List.count_nil]
      omega
  | submit wire hpump | submitClosed wire hpump =>
      refine .inl ⟨[], .carried rfl (fun f _ => ?_) rfl⟩
      simp only [State.copies, State.after, refused, waiting, hpump, submitting, List.count_append,
        List.count_nil]
      omega
  | gather wire rest hqueue hunsent =>
      refine .inl ⟨[], .carried rfl (fun f _ => ?_) rfl⟩
      simp only [State.copies, State.after, refused, waiting, hqueue, hunsent, unsent,
        List.count_append, List.count_cons, List.count_nil]
      omega
  | transmit hunsent =>
      refine .inl ⟨[], .carried rfl (fun f _ => ?_) rfl⟩
      simp only [State.copies, State.after, refused, waiting, hunsent, unsent, List.count_append,
        List.count_nil]
      omega
  | markTransmitted now hsent =>
      refine .inl ⟨[], fun _ => charged_markTransmitted _ _ _, fun f _ => ?_, List.forall_mem_nil _, rfl⟩
      simp [State.copies, State.after, refused, waiting, hsent, unsent]
  | bestEffort wire hmem hroom =>
      refine .inl ⟨[], .carried rfl (fun f _ => ?_) rfl⟩
      have hf := count_erase_repair hmem f
      simp only [State.copies, State.after, refused, waiting, List.count_append, List.count_nil]
      rw [if_pos hroom, List.count_nil]
      omega
  | dropRepair wire hmem hfull =>
      refine .inl ⟨[], .carried rfl (fun f _ => ?_) rfl⟩
      have hf := count_erase_repair hmem f
      simp only [State.copies, State.after, refused, waiting, List.count_append, List.count_nil]
      rw [if_neg hfull]
      omega
  | retryDue now rtt bdp hgoes =>
      refine .inl ⟨_, fun h => charged_retryDue h hgoes, fun f _ => ?_, fun w hw => retryDue_wires hw, rfl⟩
      simp only [State.copies, State.after, refused, waiting, List.count_append, List.count_nil]
      omega
  | sack frame now rtt =>
      refine .inl ⟨_, fun h => charged_updateSACK h frame _ now rtt, fun f _ => ?_,
        fun w hw => updateSACK_wires hw, rfl⟩
      simp only [State.copies, State.after, refused, waiting, List.count_append, List.count_nil]
      omega
  | handleAck ack now srtt =>
      exact .inl ⟨[], fun _ => charged_handleAck _ _ _ _ _, fun _ _ => rfl, List.forall_mem_nil _, rfl⟩
  | control frame hdata =>
      refine .inl ⟨[], .carried rfl (fun f hf => List.count_cons_of_ne fun he => hdata ?_) rfl⟩
      rw [← hf, ← he]
  | emitParity p ack windowSize hmem frame happly =>
      refine .inl ⟨[], .carried rfl (fun f hf => ?_) rfl⟩
      have hne : parityWire cfg frame windowSize (s.sender.sendPacketNo + 1) ≠ f := by
        rintro rfl
        exact absurd ((cmd_applyToFrame happly).symm.trans hf) (by decide)
      simp [State.copies, State.after, refused, waiting, List.count_append, hne]
  | turnedAway | abandon | receive | controlFails | flushFec | emitBlock | skipParity | parityFails
  | dropParity | close | closeFec => exact .inl ⟨[], .still rfl rfl rfl rfl rfl⟩

theorem moved_next {l : Label} (hst : next cfg s l = some s') :
    (∃ wires, Moved s s' wires) ∨ ∃ wire, Filed s s' wire := by
  rcases next_cases hst with ⟨l', t, out, hnext, rfl⟩ | ⟨wire, hmem, rfl⟩
  · exact moved_step (step_of_next hnext)
  · exact .inl ⟨[], moved_without hmem⟩

theorem sender_next {l : Label} (h : Sender.Inv cfg s.sender)
    (hst : next cfg s l = some s') : Sender.Inv cfg s'.sender := by
  rcases next_cases hst with ⟨l', t, out, hnext, rfl⟩ | ⟨wire, hmem, rfl⟩
  · exact (stepped_next h hnext).inv
  · have hholds : Holds cfg s.sender.records (s.without wire).sender :=
      { h.holds with repairs := fun f hf => h.holds.repairs f (List.mem_of_mem_erase hf) }
    have hstep : Stepped cfg s.sender (s.without wire).sender [] :=
      .silent h rfl rfl rfl rfl id hholds
    exact hstep.inv

theorem Inv.keyed (h : Inv cfg s) : s.sender.outstanding.Keyed :=
  fun seq p hp => (h.accounted seq p hp).key

theorem Inv.moved {wires : List UDPCFrame} (h : Inv cfg s)
    (hsender : Sender.Inv cfg s'.sender) (hmoved : Moved s s' wires) : Inv cfg s' := by
  refine ⟨hsender, ?_, ?_⟩
  · intro f hf hdata
    have hcount := hmoved.copies f hdata
    have hpos := List.count_pos_iff.2 hf
    rw [hmoved.filed]
    by_cases hold : f ∈ s.copies
    · exact h.bounded f hold hdata
    · -- a repeated wire has a copy already
      rw [List.count_eq_zero_of_not_mem hold, Nat.zero_add] at hcount
      obtain ⟨seq, p, hp, rfl⟩ := hmoved.wires f (List.count_pos_iff.1 (hcount ▸ hpos))
      have htotal := (h.accounted seq p hp).total
      rw [List.count_eq_zero_of_not_mem hold] at htotal
      omega
  · intro seq p' hp'
    obtain ⟨p, hp, hwire, hretries, hmax⟩ := hmoved.charged h.keyed seq p' hp'
    obtain ⟨hkey, hdata, hle, htotal⟩ := h.accounted seq p hp
    refine ⟨hwire ▸ hkey, hwire ▸ hdata, hmax hle, ?_⟩
    rw [hwire, hmoved.copies p.wire hdata, htotal, hretries]
    omega

theorem Inv.filed (h : Inv cfg s) (hsender : Sender.Inv cfg s'.sender)
    (hfiled : Filed s s' wire) : Inv cfg s' := by
  have haligned := h.sender.aligned
  simp only [Aligned, hfiled.pump] at haligned
  obtain ⟨-, -, hseq, -, hcmd, -⟩ := haligned
  have hfresh : wire ∉ s.copies := by
    intro hmem
    have hle := h.bounded wire hmem hcmd
    omega
  refine ⟨hsender, ?_, ?_⟩
  · intro f hf hdata
    have hcount := hfiled.copies f
    have hpos := List.count_pos_iff.2 hf
    rw [hfiled.filed]
    by_cases hwire : wire = f
    · rw [hwire]
    · rw [List.count_cons_of_ne hwire, List.count_nil] at hcount
      have hle := h.bounded f (List.count_pos_iff.1 (by omega)) hdata
      omega
  · intro seq p hp
    obtain ⟨now, rto, houtstanding⟩ := hfiled.outstanding
    rw [houtstanding] at hp
    rcases SeqMap.of_lookup_insert hp with ⟨hkey, rfl⟩ | ⟨hkey, hp⟩
    · refine ⟨hkey.symm, hcmd, Nat.zero_le _, ?_⟩
      rw [hfiled.copies, List.count_eq_zero_of_not_mem hfresh, List.count_cons_self, List.count_nil]
    · obtain ⟨hseqp, hdata, hle, htotal⟩ := h.accounted seq p hp
      refine ⟨hseqp, hdata, hle, ?_⟩
      rw [hfiled.copies, List.count_cons_of_ne, List.count_nil, htotal]
      rintro rfl
      exact hkey hseqp.symm

theorem inv_of_reachable (h : Reachable (system cfg) s) : Inv cfg s := by
  apply h.invariant
  · rintro s rfl
    refine ⟨inv_initial cfg, ?_, ?_⟩
    · intro f hf
      cases hf
    · intro seq p hp
      simp [Sender.initial, Outstanding.new] at hp
  · intro s l s' hinv _ hst
    have hsender := sender_next hinv.sender hst
    rcases moved_next hst with ⟨wires, hmoved⟩ | ⟨wire, hfiled⟩
    · exact hinv.moved hsender hmoved
    · exact hinv.filed hsender hfiled

-- The session is given up because of a record that has had all its attempts
-- counted; they were all made exactly if no copy of it still waits and the queue
-- took every one.
theorem abandoned_after_attempts_iff (h : Reachable (system cfg) s) (now maximumRTO rtt bdp : ℕ) :
    ((s.sender.outstanding.retryDue now maximumRTO rtt bdp).1.abandoned = true ↔
      ∃ p, s.sender.outstanding.Blames now p) ∧
    ∀ p, s.sender.outstanding.Blames now p →
      (clientMaxRetries + 1 ≤ s.sent.count p.wire ↔
        p.wire ∉ waiting s.sender ∧ p.wire ∉ s.dropped) := by
  refine ⟨abandoned_iff _ _ _ _ _, ?_⟩
  rintro p ⟨seq, hp, -, hmax⟩
  obtain ⟨-, -, hle, htotal⟩ := (inv_of_reachable h).accounted seq p hp
  rw [State.copies, List.count_append, List.count_append] at htotal
  rw [← List.count_eq_zero, ← List.count_eq_zero]
  omega

def sampleWire : UDPCFrame :=
  { dataFrame Link.sampleConfig 1 0 0 [1] with packetNo := 1 }

-- The first transmission of the record.
def sampleSend : List Label :=
  [.call [1], .windowOpen, .check, .number, .encode 0 0, .file 0 1000000, .submit, .addFec 0,
    .gather, .transmit, .markTransmitted 0].map .step

-- The attempts, each past the longest timeout after the one before, and what the
-- session does after each.
def sampleRetries (after : ℕ → List Sender.Label) : List Label :=
  (List.range clientMaxRetries).flatMap fun i =>
    (.retryDue ((i + 1) * (2 * rttMaxRTO)) 0 0 :: after i).map .step

def giveUp : ℕ := (clientMaxRetries + 1) * (2 * rttMaxRTO)

-- The sample record is overdue with all its attempts counted.
def overdue (s : State) : Bool :=
  (s.sender.outstanding.unacked.lookup 1).any fun p =>
    p.wire = sampleWire ∧ p.expired giveUp = true ∧ clientMaxRetries ≤ p.retries

theorem blames_of_overdue (h : overdue s = true) :
    ∃ p, s.sender.outstanding.Blames giveUp p ∧ p.wire = sampleWire := by
  obtain ⟨p, hp, hoverdue⟩ := (Option.any_eq_true _ _).1 h
  obtain ⟨hwire, hexpired, hmax⟩ := of_decide_eq_true hoverdue
  exact ⟨p, ⟨1, hp, hexpired, hmax⟩, hwire⟩

-- Every repair goes out before the next one is due.
theorem repairs_all_sent : ∃ s p, (Reachable (system Link.sampleConfig) s ∧
    s.sender.outstanding.Blames giveUp p) ∧ clientMaxRetries + 1 ≤ s.sent.count p.wire := by
  obtain ⟨s, hs, hoverdue, hgone⟩ := (system Link.sampleConfig).exists_run
    (P := fun s => overdue s = true ∧ sampleWire ∉ waiting s.sender ∧ sampleWire ∉ s.dropped) rfl
    (sampleSend ++ sampleRetries fun i =>
      [.bestEffort sampleWire, .gather, .transmit, .markTransmitted ((i + 1) * (2 * rttMaxRTO))])
    (by decide +kernel)
  obtain ⟨p, hblames, hwire⟩ := blames_of_overdue hoverdue
  refine ⟨s, p, ⟨hs, hblames⟩, ?_⟩
  exact ((abandoned_after_attempts_iff hs giveUp rttMaxRTO 0 0).2 p hblames).2 (hwire ▸ hgone)

-- The transmit loop waits for its pace: each repair is counted and none goes out.
theorem given_up_after_one_send : ∃ s p, Reachable (system Link.sampleConfig) s ∧
    s.sender.outstanding.Blames giveUp p ∧
    (s.sender.outstanding.retryDue giveUp rttMaxRTO 0 0).1.abandoned = true ∧
    s.sent.count p.wire = 1 := by
  obtain ⟨s, hs, hoverdue, habandoned, hsent⟩ := (system Link.sampleConfig).exists_run
    (P := fun s => overdue s = true ∧
      (s.sender.outstanding.retryDue giveUp rttMaxRTO 0 0).1.abandoned = true ∧
      s.sent.count sampleWire = 1) rfl
    (sampleSend ++ sampleRetries fun i =>
      if i = 0 then [.bestEffort sampleWire, .gather] else [.bestEffort sampleWire])
    (by decide +kernel)
  obtain ⟨p, hblames, hwire⟩ := blames_of_overdue hoverdue
  exact ⟨s, p, hs, hblames, habandoned, hwire ▸ hsent⟩

end UdpCustom.Attempts
