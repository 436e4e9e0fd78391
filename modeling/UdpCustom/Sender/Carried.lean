import UdpCustom.Sender.Theorems

-- Where the datagrams come from: whatever a sender holds or hands to the socket
-- was built by an earlier step, and stays as it was built.
namespace UdpCustom.Sender

open UdpCustom.Frame UdpCustom.Flow UdpCustom.Recovery UdpCustom.Fec UdpCustom.Receive

variable {cfg : Config} {s s' : State} {out : List UDPCFrame} {good : UDPCFrame → Prop}

def wireOf : Pump → Option UDPCFrame
  | .encoded wire | .filed wire | .submitted wire => some wire
  | _ => none

-- The records a step builds.
def Builds (cfg : Config) (s : State) : Label → UDPCFrame → Prop
  | .encode ack windowSize, f => ∃ seq payload no, s.pump = .numbered seq payload ∧
    f = { dataFrame cfg seq ack windowSize payload with packetNo := no }
  | .emitParity p ack windowSize, f => p ∈ s.parity ∧ ∃ frame no,
    p.applyToFrame (fecFrame cfg ack) cfg.fecExt = some frame ∧ f = { frame with
      flags := frame.flags ||| feedbackFlags cfg, windowSize := windowSize, packetNo := no }
  | .control frame, f => ∃ no, f = { frame with packetNo := no }
  | _, _ => False

structure Carries (good : UDPCFrame → Prop) (s : State) : Prop where
  pump : ∀ wire, wireOf s.pump = some wire → good wire
  queue : ∀ f ∈ s.queue, good f
  batch : ∀ f ∈ s.batch, good f
  repairs : ∀ f ∈ s.repairs, good f
  unacked : ∀ seq p, s.outstanding.unacked.lookup seq = some p → good p.wire

theorem carries_initial (cfg : Config) : Carries good (initial cfg) := by
  refine ⟨nofun, nofun, nofun, nofun, fun seq p hp => ?_⟩
  simp [initial, Outstanding.new] at hp

theorem Carries.kept {o : Outstanding} (h : Carries good s) (hkept : s.outstanding.Kept o) :
    ∀ seq p, o.unacked.lookup seq = some p → good p.wire := by
  intro seq p hp
  obtain ⟨q, hq, hw⟩ := hkept.lookup hp
  rw [← hw]
  exact h.unacked seq q hq

theorem Carries.repeated {wires : List UDPCFrame} (h : Carries good s)
    (hwires : ∀ f ∈ wires, ∃ seq p, s.outstanding.unacked.lookup seq = some p ∧ p.wire = f) :
    ∀ f ∈ wires ++ s.repairs, good f := by
  intro f hf
  rcases List.mem_append.1 hf with hf | hf
  · obtain ⟨seq, p, hp, rfl⟩ := hwires f hf
    exact h.unacked seq p hp
  · exact h.repairs f hf

-- A pump that has built nothing yet, or is done with it.
theorem good_of_none {p : Pump} (hp : wireOf p = none) (wire : UDPCFrame)
    (hwire : wireOf p = some wire) : good wire := by
  rw [hp] at hwire
  cases hwire

theorem good_of_some {p : Pump} {built : UDPCFrame} (hp : wireOf p = some built)
    (hbuilt : good built) (wire : UDPCFrame) (hwire : wireOf p = some wire) : good wire := by
  rw [hp] at hwire
  cases hwire
  exact hbuilt

theorem Carries.step {l : Label} (h : Carries good s) (hnew : ∀ f, Builds cfg s l f → good f)
    (hst : Step cfg s l s' out) : Carries good s' ∧ ∀ f ∈ out, good f := by
  have hrepairs : ∀ wire, ∀ f ∈ s.repairs.erase wire, good f :=
    fun wire f hf => h.repairs f (List.mem_of_mem_erase hf)
  have hnone : ∀ f ∈ ([] : List UDPCFrame), good f := List.forall_mem_nil _
  cases hst with
  | call | windowOpen | checkClosed | check | number | encodeFails | submitClosed | skipFec | addFec =>
      exact ⟨{ h with pump := good_of_none rfl }, hnone⟩
  | encode ack windowSize seq payload hpump =>
      have hbuilt := hnew _ ⟨seq, payload, s.sendPacketNo + 1, hpump, rfl⟩
      exact ⟨{ h with pump := good_of_some rfl hbuilt }, hnone⟩
  | file now rto wire hpump =>
      have hwire := h.pump wire (hpump ▸ rfl)
      refine ⟨{ h with pump := good_of_some rfl hwire, unacked := fun seq p hp => ?_ }, hnone⟩
      rcases SeqMap.of_lookup_insert hp with ⟨-, rfl⟩ | ⟨-, hold⟩
      · exact hwire
      · exact h.unacked seq p hold
  | submit wire hpump =>
      have hwire := h.pump wire (hpump ▸ rfl)
      exact ⟨{ h with
        pump := good_of_some rfl hwire
        queue := forall_mem_concat h.queue hwire }, hnone⟩
  | gather wire rest hqueue =>
      have hall := h.queue
      rw [hqueue] at hall
      obtain ⟨hwire, hrest⟩ := List.forall_mem_cons.1 hall
      exact ⟨{ h with queue := hrest, batch := forall_mem_concat h.batch hwire }, hnone⟩
  | transmit => exact ⟨{ h with }, h.batch⟩
  | markTransmitted now =>
      exact ⟨{ h with
        batch := List.forall_mem_nil _
        unacked := h.kept (markTransmitted_kept _ _ _) }, hnone⟩
  | bestEffort wire hmem =>
      exact ⟨{ h with
        repairs := hrepairs wire
        queue := forall_mem_concat h.queue (h.repairs wire hmem) }, hnone⟩
  | dropRepair wire => exact ⟨{ h with repairs := hrepairs wire }, hnone⟩
  | retryDue now rtt bdp =>
      exact ⟨{ h with
        repairs := h.repeated fun f hf => retryDue_wires hf
        unacked := h.kept (retryDue_kept _ _ _ _ _) }, hnone⟩
  | sack frame now rtt =>
      exact ⟨{ h with
        repairs := h.repeated fun f hf => updateSACK_wires hf
        unacked := h.kept (updateSACK_kept _ _ _ _ _) }, hnone⟩
  | handleAck ack now srtt =>
      exact ⟨{ h with unacked := fun seq p hp => h.unacked seq p (lookup_of_handleAck hp) }, hnone⟩
  | control frame => exact ⟨{ h with }, List.forall_mem_singleton.2 (hnew _ ⟨_, rfl⟩)⟩
  | emitParity p ack windowSize hmem frame happly =>
      have hbuilt := hnew _ ⟨hmem, frame, s.sendPacketNo + 1, happly, rfl⟩
      exact ⟨{ h with queue := forall_mem_concat h.queue hbuilt }, hnone⟩
  | _ => exact ⟨{ h with }, hnone⟩

theorem carries_next {l : Label} (h : Carries good s) (hnew : ∀ f, Builds cfg s l f → good f)
    (hst : next cfg s l = some (s', out)) : Carries good s' ∧ ∀ f ∈ out, good f :=
  h.step hnew (step_of_next hst)

-- A session that did not agree on FEC has no parity to send.
structure Plain (s : State) : Prop where
  fecSend : s.fecSend = none
  parity : s.parity = []

theorem plain_next {l : Label} (h : Plain s) (hst : next cfg s l = some (s', out)) : Plain s' := by
  have hnone : ∀ f, s.fecSend ≠ some f := by
    intro f hf
    rw [h.fecSend] at hf
    cases hf
  have hempty : ∀ p, p ∉ s.parity := by
    intro p
    rw [h.parity]
    exact List.not_mem_nil
  cases step_of_next hst with
  | addFec _ _ _ f hf | flushFec _ f hf | emitBlock _ _ f hf => exact absurd hf (hnone f)
  | skipParity p _ _ hp | parityFails p _ _ hp | dropParity p _ _ hp | emitParity p _ _ hp =>
      exact absurd hp (hempty p)
  | closeFec => exact ⟨by rw [h.fecSend]; rfl, h.parity⟩
  | _ => exact { h with }

end UdpCustom.Sender
