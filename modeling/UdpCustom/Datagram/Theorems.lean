import UdpCustom.Datagram
import UdpCustom.Link.Stream
import UdpCustom.Receiver.Writer

-- Whether a datagram stays one datagram from end to end.
namespace UdpCustom.Datagram

open UdpCustom.Frame UdpCustom.Mtu UdpCustom.Budget UdpCustom.ChunkPipe Transition
open UdpCustom.Sender (Config)

variable {cfg : Config} {limit : SendCap}

-- The bytes some buffer holds of one datagram.
def whole (b : Bytes) : List Bytes :=
  if b = [] then [] else [b]

theorem whole_nil : whole [] = [] :=
  rfl

theorem whole_of_ne {b : Bytes} (h : b ≠ []) : whole b = [b] :=
  if_neg h

theorem not_call {l : Link.Label} (h : besidePump l = true) (payload : Bytes) :
    l ≠ .send (.call payload) := by
  rintro rfl
  cases h

-- The pump sends what it has left in one record.
theorem passed_sendRecord {link link' : Link.State} {flushing : Bytes} {n : ℕ}
    (hfits : flushing.length ≤ n)
    (hlink : Link.next cfg link (.send (.call (flushing.take n))) = some link') :
    link'.sender.passed ++ whole (flushing.drop n) = link.sender.passed ++ whole flushing := by
  obtain ⟨_, sender, out, hsender, rfl⟩ := Link.next_send hlink
  obtain ⟨hpassed, -, hne⟩ := Sender.call_cases hsender
  rw [List.take_of_length_le hfits] at hpassed hne
  rw [List.drop_eq_nil_of_le hfits, whole_nil, List.append_nil, whole_of_ne hne]
  exact hpassed

theorem receiver_sendRecord {link link' : Link.State} {payload : Bytes}
    (hlink : Link.next cfg link (.send (.call payload)) = some link') :
    link'.receiver = link.receiver := by
  obtain ⟨_, sender, out, _, rfl⟩ := Link.next_send hlink
  rfl

namespace Up

variable {s s' : State} {l : Label}

-- Every `Write` is one record, one buffer's contents or one chunk of the pipe.
structure Kept (cfg : Config) (s : State) : Prop where
  reachable : Reachable (Link.system cfg) s.link
  total : s.link.sender.passed ++ whole s.flushing ++ whole s.acc ++ s.pipe.chunks ++
    whole s.writing = s.writes
  sized : ∀ w ∈ s.writes, w ≠ [] ∧ w.length ≤ udpcMaxData

theorem Kept.chunk (h : Kept cfg s) {chunk : Bytes} (hmem : chunk ∈ s.pipe.chunks) :
    chunk ≠ [] ∧ chunk.length ≤ udpcMaxData := by
  refine h.sized chunk ?_
  rw [← h.total]
  exact List.mem_append_left _ (List.mem_append_right _ hmem)

theorem Kept.written (h : Kept cfg s) {chunk : Bytes} (hmem : chunk ∈ whole s.writing) :
    chunk ≠ [] ∧ chunk.length ≤ udpcMaxData := by
  refine h.sized chunk ?_
  rw [← h.total]
  exact List.mem_append_right _ hmem

theorem Kept.read (h : Kept cfg s) (hidle : s.flushing = []) (hacc : s.acc = [])
    {chunk : Bytes} {rest : List Bytes} (hchunks : s.pipe.chunks = chunk :: rest) {pipe : ChunkDir}
    (hpipe : pipe.chunks = rest) : Kept cfg ({ s with pipe := pipe }.gather cfg chunk) := by
  have hne : chunk ≠ [] := (h.chunk (hchunks ▸ List.mem_cons_self)).1
  have htotal := h.total
  rw [hidle, hacc, hchunks, whole_nil, List.append_nil, List.append_nil] at htotal
  unfold State.gather
  dsimp only
  rw [hacc, List.nil_append]
  split
  · refine ⟨h.reachable, ?_, h.sized⟩
    dsimp only
    rw [whole_of_ne hne, whole_nil, hpipe, List.append_nil, List.append_assoc _ [chunk]]
    exact htotal
  · refine ⟨h.reachable, ?_, h.sized⟩
    dsimp only
    rw [hidle, whole_of_ne hne, whole_nil, hpipe, List.append_nil, List.append_assoc _ [chunk]]
    exact htotal

theorem take_alone (h : Kept cfg s) (hok : Apart cfg s .read)
    {chunk : Bytes} {rest : List Bytes} (hchunks : s.pipe.chunks = chunk :: rest) :
    (s.pipe.take (Uplink.bufSize - s.acc.length)).1 = chunk ∧
      (s.pipe.take (Uplink.bufSize - s.acc.length)).2.chunks = rest := by
  obtain ⟨hacc, halone⟩ := hok
  obtain ⟨hne, hlen⟩ := h.chunk (hchunks ▸ List.mem_cons_self : chunk ∈ s.pipe.chunks)
  have hbuf : Uplink.bufSize - s.acc.length = Uplink.bufSize := by
    rw [hacc]
    rfl
  rw [hbuf]
  refine take_head hchunks hne hlen ?_
  rw [hchunks] at halone
  rcases halone with hrest | ⟨c, hc, hfull⟩
  · exact .inl hrest
  · cases hc
    exact .inr hfull

theorem Kept.next (h : Kept cfg s) (hok : Apart cfg s l) (hst : Up.next cfg s l = some s') :
    Kept cfg s' := by
  cases l with
  | write b =>
      obtain ⟨⟨hwriting, -, hne, hlen⟩, hst⟩ := Option.ite_none_right_eq_some.1 hst
      cases hst
      refine ⟨h.reachable, ?_, fun w hw => ?_⟩
      · have htotal := h.total
        rw [hwriting, whole_nil, List.append_nil] at htotal
        dsimp only
        rw [whole_of_ne hne, htotal]
      · rcases List.mem_append.1 hw with hold | hnew
        · exact h.sized w hold
        · rw [List.mem_singleton.1 hnew]
          exact ⟨hne, hlen.trans (maxPayload_bounds _ _).2⟩
  | push =>
      obtain ⟨hguard, ⟨⟩⟩ := Option.ite_none_right_eq_some.1 hst
      have hwhole := whole_of_ne hguard.1
      have hlen := (h.written (hwhole ▸ List.mem_singleton_self s.writing)).2
      obtain ⟨hchunks, hrest⟩ := chunks_push s.pipe hlen
      refine ⟨h.reachable, ?_, h.sized⟩
      dsimp only
      rw [hchunks, hrest, whole_nil, List.append_nil, ← List.append_assoc, ← hwhole]
      exact h.total
  | read =>
      obtain ⟨hguard, ⟨⟩⟩ := Option.ite_none_right_eq_some.1 hst
      obtain ⟨chunk, rest, hchunks⟩ := exists_chunk hguard.2.2
      obtain ⟨hgot, hleft⟩ := take_alone h hok hchunks
      rw [hgot]
      exact h.read hguard.2.1 hok.1 hchunks hleft
  | timeout =>
      obtain ⟨hguard, ⟨⟩⟩ := Option.ite_none_right_eq_some.1 hst
      have htotal := h.total
      rw [hguard.2, whole_nil, List.append_nil] at htotal
      refine ⟨h.reachable, ?_, h.sized⟩
      dsimp only
      rw [whole_nil, List.append_nil]
      exact htotal
  | sendRecord =>
      obtain ⟨-, hst⟩ := Option.ite_none_right_eq_some.1 hst
      obtain ⟨link, hlink, rfl⟩ := Option.map_eq_some_iff.1 hst
      refine ⟨Link.reachable_next h.reachable hlink, ?_, h.sized⟩
      dsimp only
      rw [passed_sendRecord hok hlink]
      exact h.total
  | link l =>
      obtain ⟨hbeside, hst⟩ := Option.ite_none_right_eq_some.1 hst
      obtain ⟨link, hlink, rfl⟩ := Option.map_eq_some_iff.1 hst
      refine ⟨Link.reachable_next h.reachable hlink, ?_, h.sized⟩
      dsimp only
      rw [(Link.lasting_next (not_call hbeside) hlink).passed]
      exact h.total
  | pumpEnds =>
      obtain ⟨-, ⟨⟩⟩ := Option.ite_none_right_eq_some.1 hst
      exact ⟨h.reachable, h.total, h.sized⟩
  | closePipe | setCap c =>
      cases hst
      exact ⟨h.reachable, h.total, h.sized⟩

theorem kept_initial (cfg : Config) (cap : SendCap) : Kept cfg (initial cfg cap) :=
  ⟨.init rfl, rfl, nofun⟩

theorem Kept.passed_prefix_writes (h : Kept cfg s) : s.link.sender.passed <+: s.writes := by
  rw [← h.total]
  simp only [List.append_assoc]
  exact List.prefix_append _ _

-- The target gets no empty record.
theorem Kept.datagrams_eq (h : Kept cfg s) : s.datagrams = s.link.receiver.written := by
  have hwritten := (Link.agree_reachable h.reachable).written_prefix_sent.trans h.passed_prefix_writes
  refine List.filter_eq_self.2 fun w hw => ?_
  exact decide_eq_true (h.sized w (hwritten.subset hw)).1

theorem Kept.datagrams_prefix_writes (h : Kept cfg s) : s.datagrams <+: s.writes := by
  rw [h.datagrams_eq]
  exact (Link.agree_reachable h.reachable).written_prefix_sent.trans h.passed_prefix_writes

theorem Kept.datagrams_quiet (h : Kept cfg s) (hquiet : s.Quiet) : s.datagrams = s.writes := by
  have hpassed := h.total
  rw [hquiet.flushing, hquiet.acc, hquiet.pipe, hquiet.writing, whole_nil] at hpassed
  simp only [List.append_nil] at hpassed
  rw [h.datagrams_eq, ← hpassed]
  exact (Link.agree_reachable h.reachable).written_prefix_sent.eq_of_length hquiet.link

end Up

namespace Down

variable {s s' : State} {l : Label}

-- Every datagram is one record on the way to the client, and one chunk of the
-- pipe once its writer has it.
structure Kept (cfg : Config) (s : State) : Prop where
  reachable : Reachable (Link.system cfg) s.link
  total : s.link.sender.passed ++ whole s.flushing = s.arrived
  sized : ∀ d ∈ s.arrived, d ≠ [] ∧ d.length ≤ udpcMaxData
  handed : s.reads ++ s.pipe.chunks <+: s.link.receiver.written
  running : s.link.receiver.writer ≠ .stopped →
    s.reads ++ s.pipe.chunks = s.link.receiver.written

theorem Kept.written_prefix_arrived (h : Kept cfg s) : s.link.receiver.written <+: s.arrived := by
  rw [← h.total]
  exact (Link.agree_reachable h.reachable).written_prefix_sent.trans (List.prefix_append _ _)

theorem Kept.written_sized (h : Kept cfg s) {d : Bytes} (hd : d ∈ s.link.receiver.written) :
    d ≠ [] ∧ d.length ≤ udpcMaxData :=
  h.sized d (h.written_prefix_arrived.subset hd)

theorem Kept.upstreamRead (h : Kept cfg s) (hidle : s.flushing = []) {d : Bytes} (hne : d ≠ []) :
    Kept cfg (s.upstreamRead cfg limit d) := by
  unfold State.upstreamRead
  split
  · exact h
  · rename_i hbuf
    split
    · exact h
    · refine ⟨h.reachable, ?_, fun d' hd' => ?_, h.handed, h.running⟩
      · have htotal := h.total
        rw [hidle, whole_nil, List.append_nil] at htotal
        dsimp only
        rw [whole_of_ne hne, htotal]
      · rcases List.mem_append.1 hd' with hold | hnew
        · exact h.sized d' hold
        · rw [List.mem_singleton.1 hnew]
          have hceiling : (effectivePayloadCap limit.size).toNat ≤ udpcMaxData :=
            (maxPayload_bounds false limit).2
          exact ⟨hne, by omega⟩

-- A step of the client's writer or beside it, and what it leaves in the pipe.
theorem Kept.receiver (h : Kept cfg s) {rl : Receiver.Label} {link : Link.State}
    (hlink : Link.next cfg s.link (.recv rl) = some link) :
    Kept cfg { s with link := link, pipe := s.queued (.recv rl) } := by
  have hreachable := Link.reachable_next h.reachable hlink
  have hwrote := (Link.agree_reachable hreachable).written_prefix_sent
  obtain ⟨_, receiver, out, hreceiver, rfl⟩ := Link.next_recv hlink
  by_cases hwrite : ∃ ok, rl = .write ok
  · obtain ⟨ok, rfl⟩ := hwrite
    obtain ⟨seq, payload, hwriter, hwritten, hstopped⟩ := Receiver.write_cases hreceiver
    have hsofar : s.reads ++ s.pipe.chunks = s.link.receiver.written :=
      h.running fun hs => Delivery.Writer.noConfusion (hwriter.symm.trans hs)
    cases ok with
    | true =>
        have hmem : payload ∈ receiver.written := hwritten ▸ List.mem_append_right _ (.head _)
        have hlen : payload.length ≤ udpcMaxData := by
          refine (h.sized payload ?_).2
          rw [← h.total]
          exact List.mem_append_left _ (hwrote.subset hmem)
        have hpush : s.reads ++ (s.queued (.recv (.write true))).chunks = receiver.written := by
          unfold State.queued
          dsimp only
          rw [hwriter]
          dsimp only
          rw [(chunks_push s.pipe hlen).1, ← List.append_assoc, hsofar, hwritten]
        exact ⟨hreachable, h.total, h.sized, hpush ▸ List.prefix_refl _, fun _ => hpush⟩
    | false =>
        refine ⟨hreachable, h.total, h.sized, ?_, fun hs => absurd (hstopped hs) Bool.false_ne_true⟩
        dsimp only [State.queued]
        rw [hsofar, hwritten]
        exact List.prefix_append _ _
  · have hother : ∀ ok, rl ≠ .write ok := fun ok he => hwrite ⟨ok, he⟩
    obtain ⟨hwritten, hrunning⟩ := Receiver.written_next hother hreceiver
    have hqueued : s.queued (.recv rl) = s.pipe := by
      unfold State.queued
      split
      · rename_i he
        cases he
        exact absurd rfl (hother true)
      · rfl
    rw [hqueued]
    refine ⟨hreachable, h.total, h.sized, ?_, fun hs => ?_⟩
    · dsimp only
      rw [hwritten]
      exact h.handed
    · dsimp only
      rw [hwritten]
      exact h.running (hrunning hs)

theorem Kept.next (h : Kept cfg s) (hok : Apart cfg limit s l)
    (hst : Down.next cfg limit s l = some s') : Kept cfg s' := by
  cases l with
  | datagram d =>
      obtain ⟨hguard, ⟨⟩⟩ := Option.ite_none_right_eq_some.1 hst
      exact h.upstreamRead hguard.2 hok
  | sendRecord =>
      obtain ⟨-, hst⟩ := Option.ite_none_right_eq_some.1 hst
      obtain ⟨link, hlink, rfl⟩ := Option.map_eq_some_iff.1 hst
      refine ⟨Link.reachable_next h.reachable hlink, ?_, h.sized, ?_, ?_⟩
      · dsimp only
        rw [passed_sendRecord hok hlink]
        exact h.total
      · dsimp only
        rw [receiver_sendRecord hlink]
        exact h.handed
      · dsimp only
        rw [receiver_sendRecord hlink]
        exact h.running
  | link l =>
      obtain ⟨hguard, hst⟩ := Option.ite_none_right_eq_some.1 hst
      obtain ⟨link, hlink, rfl⟩ := Option.map_eq_some_iff.1 hst
      cases l with
      | recv rl => exact h.receiver hlink
      | send sl =>
          have hpassed := (Link.lasting_next (not_call hguard.1) hlink).passed
          have hreachable := Link.reachable_next h.reachable hlink
          obtain ⟨_, sender, out, _, rfl⟩ := Link.next_send hlink
          refine ⟨hreachable, ?_, h.sized, h.handed, h.running⟩
          dsimp only at hpassed ⊢
          rw [hpassed]
          exact h.total
  | read n =>
      obtain ⟨hgot, ⟨⟩⟩ := Option.ite_none_right_eq_some.1 hst
      obtain ⟨chunk, rest, hchunks⟩ := exists_chunk hgot
      have hmem : chunk ∈ s.link.receiver.written :=
        h.handed.subset (List.mem_append_right _ (hchunks ▸ List.mem_cons_self))
      have hhead : chunk ∈ s.pipe.chunks.head? := by
        rw [hchunks]
        rfl
      obtain ⟨hfits, halone⟩ := hok chunk hhead
      rw [hchunks] at halone
      obtain ⟨hread, hleft⟩ := take_head hchunks (h.written_sized hmem).1 hfits halone
      have hsame : s.reads ++ [(s.pipe.take n).1] ++ (s.pipe.take n).2.chunks =
          s.reads ++ s.pipe.chunks := by
        rw [hread, hleft, hchunks, List.append_assoc]
        rfl
      refine ⟨h.reachable, h.total, h.sized, ?_, fun hs => ?_⟩
      · dsimp only
        rw [hsame]
        exact h.handed
      · dsimp only
        rw [hsame]
        exact h.running hs
  | pumpEnds =>
      obtain ⟨-, ⟨⟩⟩ := Option.ite_none_right_eq_some.1 hst
      exact ⟨h.reachable, h.total, h.sized, h.handed, h.running⟩
  | applyMtuCommit n | noteObservedPayload n | closePipe =>
      cases hst
      exact ⟨h.reachable, h.total, h.sized, h.handed, h.running⟩

theorem kept_initial (cfg : Config) : Kept cfg (initial cfg) :=
  ⟨.init rfl, rfl, nofun, List.prefix_refl _, fun _ => rfl⟩

theorem Kept.reads_prefix_arrived (h : Kept cfg s) : s.reads <+: s.arrived :=
  ((List.prefix_append _ _).trans h.handed).trans h.written_prefix_arrived

theorem Kept.reads_quiet (h : Kept cfg s) (hquiet : s.Quiet) : s.reads = s.arrived := by
  have hwritten := h.running hquiet.writer
  have hpassed := h.total
  rw [hquiet.pipe, List.append_nil] at hwritten
  rw [hquiet.flushing, whole_nil, List.append_nil] at hpassed
  rw [hwritten, ← hpassed]
  exact (Link.agree_reachable h.reachable).written_prefix_sent.eq_of_length hquiet.link

end Down

theorem kept_reachable {ses : Session} {s : State}
    (h : ReachableBy (system ses) (Apart ses) s) :
    Up.Kept ses.up s.up ∧ Down.Kept ses.down s.down := by
  refine h.invariant (I := fun s => Up.Kept ses.up s.up ∧ Down.Kept ses.down s.down) ?_ ?_
  · rintro s rfl
    exact ⟨Up.kept_initial _ _, Down.kept_initial _⟩
  · intro s l s' hs hok hst
    cases l with
    | up l =>
        obtain ⟨up, hup, rfl⟩ := Option.map_eq_some_iff.1 hst
        exact ⟨hs.1.next hok hup, hs.2⟩
    | down l =>
        obtain ⟨down, hdown, rfl⟩ := Option.map_eq_some_iff.1 hst
        exact ⟨hs.1, hs.2.next hok hdown⟩

-- One datagram for each `Write` and one `Read` for each datagram, in order; all of
-- them once nothing is on its way.
theorem boundaries_kept {ses : Session} {s : State} (h : ReachableBy (system ses) (Apart ses) s) :
    (s.up.datagrams <+: s.up.writes ∧ (s.up.Quiet → s.up.datagrams = s.up.writes)) ∧
      s.down.reads <+: s.down.arrived ∧ (s.down.Quiet → s.down.reads = s.down.arrived) := by
  obtain ⟨hup, hdown⟩ := kept_reachable h
  exact ⟨⟨hup.datagrams_prefix_writes, hup.datagrams_quiet⟩, hdown.reads_prefix_arrived, hdown.reads_quiet⟩

instance (cfg : Config) (s : Up.State) (l : Up.Label) : Decidable (Up.Apart cfg s l) := by
  unfold Up.Apart
  split
  all_goals infer_instance

instance (cfg : Config) (limit : SendCap) (s : Down.State) (l : Down.Label) :
    Decidable (Down.Apart cfg limit s l) := by
  unfold Down.Apart
  split
  all_goals infer_instance

instance (ses : Session) (s : State) (l : Label) : Decidable (Apart ses s l) := by
  unfold Apart
  split
  all_goals infer_instance

def sampleSession : Session where
  up := Link.sampleConfig
  down := { Link.sampleConfig with role := .server }
  startCap := .ceiling
  limit := .ceiling

-- The way of record `seq` after its `sendRecord` was called: it leaves, arrives and
-- is written.
def carried (cfg : Config) (seq : ℕ) (payload : Bytes) : List Link.Label :=
  let frame := Link.numbered (Sender.dataFrame cfg seq 0 0 payload) seq
  (Link.sendRecord payload).tail ++
    [.gather, .transmit, .markTransmitted 5].map .send ++
    [.receive frame, .fec { frame := frame, stage := .accepted } 9 [] [],
      .offer { frame := frame, stage := .offering [] },
      .wakeUp, .drain, .write true, .complete, .drain, .idle].map .recv

def flushed (seq : ℕ) (payload : Bytes) : List Label :=
  [.up .read, .up .timeout, .up .sendRecord] ++
    (carried sampleSession.up seq payload).map fun l => .up (.link l)

def forwarded (seq : ℕ) (d : Bytes) : List Label :=
  [.down (.datagram d), .down .sendRecord] ++
    (carried sampleSession.down seq d).map fun l => .down (.link l)

-- Two `Write`s and two replies, each waiting for the one before it.
def spacedRun : List Label :=
  [.up (.write [1]), .up .push] ++ flushed 1 [1] ++
    [.up (.write [2]), .up .push] ++ flushed 2 [2] ++
    forwarded 1 [3] ++ [.down (.read 2048)] ++ forwarded 2 [4] ++ [.down (.read 2048)]

theorem spaced_datagrams_kept : ∃ s, (ReachableBy (system sampleSession) (Apart sampleSession) s ∧
      s.up.writes = [[1], [2]] ∧ s.down.arrived = [[3], [4]]) ∧
    s.up.datagrams = s.up.writes ∧ s.down.reads = s.down.arrived := by
  obtain ⟨s, hs, hsent, hquiet⟩ := (system sampleSession).exists_runBy (Apart sampleSession)
    (P := fun s => (s.up.writes = [[1], [2]] ∧ s.down.arrived = [[3], [4]]) ∧
      (s.up.writing = [] ∧ s.up.pipe.chunks = [] ∧ s.up.acc = [] ∧ s.up.flushing = [] ∧
        s.up.link.receiver.written.length = s.up.link.sender.passed.length) ∧
      s.down.flushing = [] ∧
        s.down.link.receiver.written.length = s.down.link.sender.passed.length ∧
        s.down.link.receiver.writer ≠ .stopped ∧ s.down.pipe.chunks = [])
    rfl spacedRun (by decide +kernel)
  obtain ⟨⟨hwriting, hpipe, hacc, hflushing, hlink⟩, hflushing', hlink', hwriter, hpipe'⟩ := hquiet
  obtain ⟨⟨-, hup⟩, -, hdown⟩ := boundaries_kept hs
  exact ⟨s, ⟨hs, hsent⟩, hup ⟨hwriting, hpipe, hacc, hflushing, hlink⟩,
    hdown ⟨hflushing', hlink', hwriter, hpipe'⟩⟩

-- Both `Write`s are queued before the pump reads, and both replies before the
-- application does.
def burstRun : List Label :=
  [.up (.write [1]), .up .push, .up (.write [2]), .up .push] ++ flushed 1 [1, 2] ++
    forwarded 1 [3] ++ forwarded 2 [4] ++ [.down (.read 2048)]

theorem burst_datagrams_merged : ∃ s, Reachable (system sampleSession) s ∧
    (s.up.writes = [[1], [2]] ∧ s.up.datagrams = [[1, 2]]) ∧
    s.down.arrived = [[3], [4]] ∧ s.down.reads = [[3, 4]] := by
  exact (system sampleSession).exists_run
    (P := fun s => (s.up.writes = [[1], [2]] ∧ s.up.datagrams = [[1, 2]]) ∧
      s.down.arrived = [[3], [4]] ∧ s.down.reads = [[3, 4]])
    rfl burstRun (by decide +kernel)

end UdpCustom.Datagram
