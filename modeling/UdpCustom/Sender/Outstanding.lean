import UdpCustom.Sender.Theorems

-- How the sender's steps change the records it keeps for retransmission.
namespace UdpCustom.Sender

open UdpCustom.Frame UdpCustom.Flow UdpCustom.Recovery UdpCustom.Fec UdpCustom.Receive

variable {cfg : Config} {s s' : State} {l : Label} {out : List UDPCFrame}

-- The pump has passed the window check and not yet filed its record.
def Reserved (s : State) : Prop :=
  match s.pump with
  | .admitted _ => s.closed = false
  | .cleared _ | .numbered _ _ | .encoded _ => True
  | _ => False

-- Bookkeeping: nothing is filed or forgotten, and only a SACK marks records.
structure Bookkept (s s' : State) (l : Label) : Prop where
  kept : s.outstanding.Kept s'.outstanding
  filed : s'.lastFiled = s.lastFiled
  sacked : ∀ seq, s'.outstanding.Sacked seq →
    s.outstanding.Sacked seq ∨ ∃ f ∈ l.input, f.cmd = .sack ∧ seq ∈ sackedSeqs f

theorem Bookkept.same (houtstanding : s'.outstanding = s.outstanding)
    (hfiled : s'.lastFiled = s.lastFiled) : Bookkept s s' l := by
  refine ⟨?_, hfiled, fun seq hseq => .inl ?_⟩
  · rw [houtstanding]
    exact .refl _
  · rwa [houtstanding] at hseq

inductive Recorded (s s' : State) (l : Label) : Prop
  | bookkept : Bookkept s s' l → Recorded s s' l
  | filed {wire : UDPCFrame} {now rto : ℕ} : s.pump = .encoded wire → s'.pump = .filed wire →
      s'.outstanding = s.outstanding.file wire now rto → s'.lastFiled = wire.seq → Recorded s s' l
  | acked {ack now srtt : ℕ} : ack ∈ s.dueAcks →
      s'.outstanding = s.outstanding.handleAck s.sendSeq ack now srtt →
      s'.lastFiled = s.lastFiled → Recorded s s' l

structure Change (cfg : Config) (s s' : State) (l : Label) : Prop where
  acks : ∀ a ∈ s'.dueAcks, a ∈ s.dueAcks ∨ ∃ f ∈ l.input, f.ack = a
  reserved : Reserved s' →
    Reserved s ∨ SeqMap.size s.outstanding.unacked < s.window cfg
  recorded : Recorded s s' l

-- A step of another goroutine: the pump stays where it is.
theorem Change.beside (hacks : ∀ a ∈ s'.dueAcks, a ∈ s.dueAcks ∨ ∃ f ∈ l.input, f.ack = a)
    (hpump : s'.pump = s.pump) (hclosed : s'.closed = false → s.closed = false)
    (hrecorded : Recorded s s' l) : Change cfg s s' l := by
  refine ⟨hacks, fun hres => .inl ?_, hrecorded⟩
  unfold Reserved at *
  rw [hpump] at hres
  split at hres
  · exact hclosed hres
  all_goals exact hres

theorem Change.quiet (hacks : s'.dueAcks = s.dueAcks) (hpump : s'.pump = s.pump)
    (hclosed : s'.closed = false → s.closed = false) (hrecorded : Recorded s s' l) :
    Change cfg s s' l :=
  .beside (fun _ ha => .inl (hacks ▸ ha)) hpump hclosed hrecorded

-- A step of the pump that gives its place in the window up, or has none.
theorem Change.unreserved (hacks : s'.dueAcks = s.dueAcks) (hres : ¬Reserved s')
    (hrecorded : Recorded s s' l) : Change cfg s s' l :=
  ⟨fun _ ha => .inl (hacks ▸ ha), fun h => absurd h hres, hrecorded⟩

theorem change_next (hst : next cfg s l = some (s', out)) : Change cfg s s' l := by
  have hsame : ∀ a ∈ s.dueAcks, a ∈ s.dueAcks ∨ ∃ f ∈ l.input, f.ack = a := fun _ ha => .inl ha
  cases step_of_next hst with
  | turnedAway => exact .quiet rfl rfl id (.bookkept (.same rfl rfl))
  | windowOpen payload _ hroom =>
      refine ⟨hsame, fun hres => .inr ?_, .bookkept (.same rfl rfl)⟩
      exact hroom.resolve_left (Bool.eq_false_iff.1 hres)
  | check payload hpump hopen =>
      refine ⟨hsame, fun _ => .inl ?_, .bookkept (.same rfl rfl)⟩
      simp only [Reserved, hpump]
      exact hopen
  | number payload hpump | encode _ _ _ _ hpump =>
      refine ⟨hsame, fun _ => .inl ?_, .bookkept (.same rfl rfl)⟩
      simp only [Reserved, hpump]
  | file now rto wire hpump => exact .unreserved rfl id (.filed hpump rfl rfl rfl)
  | call | checkClosed | encodeFails | submit | submitClosed | skipFec | addFec =>
      exact .unreserved rfl id (.bookkept (.same rfl rfl))
  | markTransmitted now =>
      refine .quiet rfl rfl id (.bookkept ⟨markTransmitted_kept _ _ _, rfl, fun seq hseq => .inl ?_⟩)
      exact (sacked_markTransmitted _ _ _ seq).1 hseq
  | retryDue now rtt bdp =>
      refine .quiet rfl rfl id (.bookkept ⟨retryDue_kept _ _ _ _ _, rfl, fun seq hseq => .inl ?_⟩)
      exact (sacked_retryDue _ _ _ _ _ seq).1 hseq
  | sack frame now rtt hsack dueAcks hdue =>
      refine .beside (fun a ha => (hdue a ha).imp_right fun he => ⟨frame, rfl, he⟩) rfl id
        (.bookkept ⟨updateSACK_kept _ _ _ _ _, rfl, fun seq hseq => ?_⟩)
      rcases sacked_updateSACK hseq with h | h
      · exact .inl h
      · exact .inr ⟨frame, rfl, hsack, h⟩
  | receive frame now rtt dueAcks hdue =>
      exact .beside (fun a ha => (hdue a ha).imp_right fun he => ⟨frame, rfl, he⟩) rfl id
        (.bookkept (.same rfl rfl))
  | handleAck ack now srtt hdue =>
      exact .beside (fun a ha => .inl (List.mem_of_mem_erase ha)) rfl id (.acked hdue rfl rfl)
  | abandon | controlFails | parityFails | close =>
      exact .quiet rfl rfl (fun hopen => by cases hopen) (.bookkept (.same rfl rfl))
  | gather | transmit | bestEffort | dropRepair | control | flushFec | emitBlock | skipParity
  | dropParity | emitParity | closeFec =>
      exact .quiet rfl rfl id (.bookkept (.same rfl rfl))

-- The window bounds what is outstanding, the record the pump is about to file
-- included.
structure Windowed (bound : ℕ) (s : State) : Prop where
  max : s.outstanding.flow.map (·.max) = some bound
  size : SeqMap.size s.outstanding.unacked ≤ bound
  reserved : Reserved s → SeqMap.size s.outstanding.unacked < bound

theorem window_le {bound : ℕ} (h : s.outstanding.flow.map (·.max) = some bound) :
    s.window cfg ≤ bound := by
  obtain ⟨f, hf, rfl⟩ := Option.map_eq_some_iff.1 h
  simp only [State.window, hf]
  exact window_le_max f

theorem size_file_le (o : Outstanding) (wire : UDPCFrame) (now rto : ℕ) :
    SeqMap.size (o.file wire now rto).unacked ≤ SeqMap.size o.unacked + 1 := by
  have hsub : (o.file wire now rto).unacked.keys ⊆ insert wire.seq o.unacked.keys := by
    intro k hk
    rw [Finset.mem_insert, Finmap.mem_keys]
    exact Finmap.mem_insert.1 (Finmap.mem_keys.1 hk)
  exact (Finset.card_le_card hsub).trans (Finset.card_insert_le _ _)

theorem windowed_next {bound : ℕ} (h : Windowed bound s) (hst : next cfg s l = some (s', out)) :
    Windowed bound s' := by
  obtain ⟨_, hres, hrec⟩ := change_next hst
  have hbound : Reserved s' → SeqMap.size s.outstanding.unacked < bound := by
    intro hr
    rcases hres hr with hr | hroom
    · exact h.reserved hr
    · exact hroom.trans_le (window_le h.max)
  cases hrec with
  | bookkept hb =>
      refine ⟨hb.kept.max.trans h.max, ?_, fun hr => ?_⟩
      · rw [hb.kept.size_eq]
        exact h.size
      · rw [hb.kept.size_eq]
        exact hbound hr
  | @filed wire now rto hpump hpump' hfile _ =>
      have hroom := h.reserved (by simp only [Reserved, hpump])
      have hsize := size_file_le s.outstanding wire now rto
      refine ⟨?_, ?_, fun hr => ?_⟩
      · rw [hfile]
        exact h.max
      · rw [hfile]
        omega
      · simp only [Reserved, hpump'] at hr
  | @acked ack now srtt _ hack _ =>
      have hsize := size_handleAck_le s.outstanding s.sendSeq ack now srtt
      refine ⟨?_, ?_, fun hr => ?_⟩
      · rw [hack, (steadyFlow_handleAck _ _ _ _ _).max]
        exact h.max
      · rw [hack]
        exact hsize.trans h.size
      · rw [hack]
        exact hsize.trans_lt (hbound hr)

end UdpCustom.Sender
