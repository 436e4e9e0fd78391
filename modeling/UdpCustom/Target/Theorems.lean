import UdpCustom.Target
import UdpCustom.Delivery.Theorems

namespace UdpCustom.Target

open UdpCustom.Frame UdpCustom.Delivery Transition

variable {r : WriteResult} {u u' : Upstream}

-- What an operation on the connection may do: it only adds to what the target
-- has taken, and without a failure it accounts for every byte `p` handed to it.
structure Upstream.Moves (u u' : Upstream) (p : Bytes) : Prop where
  network : u'.network = u.network
  out : u.out <+: u'.out
  healthy : u'.failed = false → u.failed = false ∧ u'.out ++ u'.buffered = u.out ++ u.buffered ++ p
  unbuffered : u.network = .udp → u'.failed = u.failed ∧ u'.buffered = u.buffered

theorem Upstream.Moves.refl (u : Upstream) : u.Moves u [] := by
  refine ⟨rfl, List.prefix_refl _, fun h => ⟨h, ?_⟩, fun _ => ⟨rfl, rfl⟩⟩
  rw [List.append_nil]

theorem flush_moves {ok : Bool} (htcp : u.network = .tcp)
    (h : u.flush r = (ok, u')) : u.Moves u' [] ∧ (ok = false → u'.failed = true) := by
  have hudp : u.network = .udp → False := by simp [htcp]
  unfold Upstream.flush at h
  split_ifs at h with hfailed hempty htakes
  · cases h
    exact ⟨.refl u, fun _ => hfailed⟩
  · cases h
    exact ⟨.refl u, by simp⟩
  · cases h
    refine ⟨⟨rfl, List.prefix_append _ _, fun hf => ⟨hf, by simp⟩, fun hn => (hudp hn).elim⟩, by simp⟩
  · cases r with
    | done | failed accepted =>
        cases h
        exact ⟨⟨rfl, List.prefix_refl _, by simp, fun hn => (hudp hn).elim⟩, fun _ => rfl⟩

theorem idle_moves (u : Upstream) (r : WriteResult) : u.Moves (u.idle r) [] := by
  unfold Upstream.idle
  split
  · rename_i htcp
    split_ifs
    · exact .refl u
    · exact (flush_moves htcp rfl).1
  · exact .refl u

theorem writeBuffered_moves {p : Bytes} {ok : Bool}
    (htcp : u.network = .tcp) (h : u.writeBuffered p r = (ok, u')) :
    u.Moves u' (if ok then p else []) := by
  have hudp : u.network = .udp → False := by simp [htcp]
  unfold Upstream.writeBuffered at h
  dsimp only at h
  split_ifs at h with hfailed hfull
  · cases h
    exact .refl u
  · obtain ⟨hmoves, hbroken⟩ :=
      flush_moves (u := { u with buffered := u.buffered ++ p }) htcp h
    refine ⟨hmoves.network, hmoves.out, ?_, fun hn => (hudp hn).elim⟩
    intro hf
    have hsum := hmoves.healthy hf
    cases ok with
    | false =>
        rw [hbroken rfl] at hf
        cases hf
    | true => simpa using hsum
  · cases h
    exact ⟨rfl, List.prefix_refl _, fun hf => ⟨hf, by simp⟩, fun hn => (hudp hn).elim⟩

theorem writeToTarget_moves {p : Bytes} {ok : Bool}
    (hempty : u.buffered = []) (h : u.writeToTarget p r = (ok, u')) :
    u.Moves u' (if ok then p else []) := by
  unfold Upstream.writeToTarget at h
  split_ifs at h with hnil htakes
  · cases h
    rw [if_pos rfl, hnil]
    exact .refl u
  · cases h
    exact ⟨rfl, List.prefix_append _ _, fun hf => ⟨hf, by simp [hempty]⟩, fun _ => ⟨rfl, rfl⟩⟩
  · cases h
    exact .refl u

-- A write that succeeds has moved its record, one that fails nothing.
theorem write_moves {p : Bytes} {ok : Bool}
    (hempty : u.network = .udp → u.buffered = []) (h : u.write p r = (ok, u')) :
    u.Moves u' (if ok then p else []) := by
  unfold Upstream.write at h
  cases hnet : u.network with
  | tcp =>
      rw [hnet] at h
      exact writeBuffered_moves hnet h
  | udp =>
      rw [hnet] at h
      exact writeToTarget_moves (hempty hnet) h

-- `n` may be acknowledged: the target has taken all of the first `n` records.
def Covered (taken : List Bytes) (out : Bytes) (n : ℕ) : Prop :=
  n ≤ taken.length ∧ (taken.take n).flatten <+: out

theorem Covered.mono {taken : List Bytes} {out out' : Bytes} {n : ℕ} (h : Covered taken out n)
    (more : List Bytes) (hout : out <+: out') : Covered (taken ++ more) out' n := by
  refine ⟨?_, ?_⟩
  · rw [List.length_append]
    exact Nat.le_add_right_of_le h.1
  · rw [List.take_append_of_le_length h.1]
    exact h.2.trans hout

structure Inv (s : State) : Prop where
  delivered : s.delivery.delivered = s.taken.length
  writing : ∀ seq p, s.writer = .writing seq p ∨ s.writer = .written seq p →
    seq = s.delivery.delivered + 1
  account : s.upstream.failed = false →
    s.upstream.out ++ s.upstream.buffered = s.taken.flatten ++ s.inProgress
  unbuffered : s.upstream.network = .udp →
    s.upstream.failed = false ∧ s.upstream.buffered = []
  held : ∀ n ∈ s.heldAcks, Covered s.taken s.upstream.out n
  sent : ∀ a ∈ s.sentAcks, Covered s.taken a.2 a.1

-- Steps that leave the connection and the history alone.
theorem Inv.rest {s s' : State} (hinv : Inv s) (hd : s'.delivery.delivered = s.delivery.delivered)
    (hu : s'.upstream.network = s.upstream.network ∧ s'.upstream.out = s.upstream.out ∧
      s'.upstream.buffered = s.upstream.buffered ∧ s'.upstream.failed = s.upstream.failed)
    (ht : s'.taken = s.taken) (hh : s'.heldAcks = s.heldAcks) (ha : s'.sentAcks = s.sentAcks)
    (hp : s'.inProgress = s.inProgress)
    (hw : ∀ seq p, s'.writer = .writing seq p ∨ s'.writer = .written seq p →
      seq = s.delivery.delivered + 1) : Inv s' := by
  obtain ⟨hnet, hout, hbuf, hfail⟩ := hu
  refine ⟨?_, ?_, ?_, ?_, ?_, ?_⟩
  · rw [hd, ht]
    exact hinv.delivered
  · rw [hd]
    exact hw
  · rw [hfail, hout, hbuf, ht, hp]
    exact hinv.account
  · rw [hnet, hfail, hbuf]
    exact hinv.unbuffered
  · rw [hh, ht, hout]
    exact hinv.held
  · rw [ha, ht]
    exact hinv.sent

-- The connection has moved, and the writer with it.
theorem Inv.moved {s s' : State} {p : Bytes} (hinv : Inv s)
    (hmoves : s.upstream.Moves s'.upstream p) (hd : s'.delivery = s.delivery)
    (ht : s'.taken = s.taken) (hh : s'.heldAcks = s.heldAcks) (ha : s'.sentAcks = s.sentAcks)
    (hp : s'.inProgress = s.inProgress ++ p)
    (hw : ∀ seq q, s'.writer = .writing seq q ∨ s'.writer = .written seq q →
      seq = s.delivery.delivered + 1) : Inv s' := by
  refine ⟨?_, ?_, ?_, ?_, ?_, ?_⟩
  · rw [hd, ht]
    exact hinv.delivered
  · rw [hd]
    exact hw
  · intro hf
    obtain ⟨hbefore, hsum⟩ := hmoves.healthy hf
    rw [hsum, hinv.account hbefore, ht, hp, List.append_assoc]
  · intro hn
    rw [hmoves.network] at hn
    obtain ⟨hf, hb⟩ := hmoves.unbuffered hn
    rw [hf, hb]
    exact hinv.unbuffered hn
  · rw [hh, ht]
    intro n hn
    have := (hinv.held n hn).mono [] hmoves.out
    rwa [List.append_nil] at this
  · rw [ha, ht]
    exact hinv.sent

theorem inv_write {s : State} {seq : ℕ} {payload : Bytes} (hinv : Inv s)
    (hw : s.writer = .writing seq payload) (r : WriteResult) :
    Inv (writeStep s seq payload r) := by
  have hseq := hinv.writing seq payload (.inl hw)
  have hnone : s.inProgress = [] := by simp [State.inProgress, hw]
  unfold writeStep
  cases hres : s.upstream.write payload r with
  | mk ok u =>
      have hmoves := write_moves (fun hn => (hinv.unbuffered hn).2) hres
      cases ok with
      | true =>
          refine hinv.moved hmoves rfl rfl rfl rfl ?_ ?_
          · rw [hnone]
            rfl
          · rintro seq' q (h | h)
            · cases h
            · cases h
              exact hseq
      | false =>
          refine hinv.moved hmoves rfl rfl rfl rfl ?_ ?_
          · rw [hnone]
            rfl
          · rintro seq' q (h | h) <;> cases h

theorem inv_complete {s : State} {seq : ℕ} {payload : Bytes} (hinv : Inv s)
    (hw : s.writer = .written seq payload) :
    Inv { s with
      delivery := s.delivery.complete seq
      taken := s.taken ++ [payload]
      writer := .draining } := by
  have hseq := hinv.writing seq payload (.inr hw)
  have hprogress : s.inProgress = payload := by simp [State.inProgress, hw]
  refine ⟨?_, ?_, ?_, hinv.unbuffered, ?_, ?_⟩
  · simp only [OrderedDelivery.complete, List.length_append, List.length_singleton]
    rw [hseq, hinv.delivered]
  · rintro seq' q (h | h) <;> cases h
  · intro hf
    have := hinv.account hf
    rw [hprogress] at this
    simpa [State.inProgress] using this
  · intro n hn
    exact (hinv.held n hn).mono _ (List.prefix_refl _)
  · intro a ha
    exact (hinv.sent a ha).mono _ (List.prefix_refl _)

-- Reading `delivered` while nothing delivered is still in the buffer.
theorem inv_readAck {s : State} (hinv : Inv s) (hok : ReadsFlushed s .readAck) :
    Inv { s with heldAcks := s.delivery.delivered :: s.heldAcks } := by
  have hcovered : Covered s.taken s.upstream.out s.delivery.delivered := by
    rw [hinv.delivered]
    refine ⟨Nat.le_refl _, ?_⟩
    rw [List.take_length]
    have hflushed : s.upstream.failed = false ∧
        s.upstream.buffered.length ≤ s.inProgress.length := by
      rcases hok with hudp | h
      · obtain ⟨hf, hb⟩ := hinv.unbuffered hudp
        exact ⟨hf, by simp [hb]⟩
      · exact h
    have hsum := hinv.account hflushed.1
    have hlen := congrArg List.length hsum
    simp only [List.length_append] at hlen
    have hall : s.taken.flatten <+: s.upstream.out ++ s.upstream.buffered :=
      hsum ▸ List.prefix_append _ _
    exact List.prefix_of_prefix_length_le hall (List.prefix_append _ _) (by omega)
  refine ⟨hinv.delivered, hinv.writing, hinv.account, hinv.unbuffered, ?_, hinv.sent⟩
  intro n hn
  rcases List.mem_cons.1 hn with rfl | hn
  · exact hcovered
  · exact hinv.held n hn

theorem inv_tearDown {s : State} (hinv : Inv s) : Inv (tearDown s) := by
  unfold tearDown
  split <;> exact hinv.rest rfl ⟨rfl, rfl, rfl, rfl⟩ rfl rfl rfl rfl hinv.writing

theorem inv_step {s s' : State} {l : Label} (hinv : Inv s) (hok : ReadsFlushed s l)
    (hst : next s l = some s') : Inv s' := by
  cases l with
  | offer seq payload =>
      simp only [next] at hst
      split_ifs at hst
      cases hst
      exact hinv.rest (delivered_offerObserved _ _ _) ⟨rfl, rfl, rfl, rfl⟩ rfl rfl rfl rfl
        hinv.writing
  | wakeUp =>
      simp only [next] at hst
      split at hst
      · rename_i hw
        have hnone : s.inProgress = [] := by simp [State.inProgress, hw]
        split_ifs at hst
        · cases hst
          exact hinv.rest rfl ⟨rfl, rfl, rfl, rfl⟩ rfl rfl rfl hnone.symm (by simp)
        · cases hst
          exact hinv.rest rfl ⟨rfl, rfl, rfl, rfl⟩ rfl rfl rfl hnone.symm (by simp)
      · cases hst
  | drain =>
      simp only [next] at hst
      split at hst
      · rename_i hw
        cases hst
        have hnone : s.inProgress = [] := by simp [State.inProgress, hw]
        refine hinv.rest rfl ⟨rfl, rfl, rfl, rfl⟩ rfl rfl rfl ?_ ?_
        · rw [hnone]
          unfold State.inProgress Writer.drain
          split
          · rename_i h
            split at h
            · cases h
            · split_ifs at h
          · rfl
        · intro seq p h
          unfold Writer.drain at h
          split at h
          · simp at h
          · split_ifs at h
            · simp at h
            · rcases h with h | h
              · cases h
                rfl
              · cases h
      · cases hst
  | write r =>
      simp only [next] at hst
      split at hst
      · rename_i seq payload hw
        cases hst
        exact inv_write hinv hw r
      · cases hst
  | complete =>
      simp only [next] at hst
      split at hst
      · rename_i seq payload hw
        cases hst
        exact inv_complete hinv hw
      · cases hst
  | idle r =>
      simp only [next] at hst
      split at hst
      · rename_i hw
        cases hst
        have hnone : s.inProgress = [] := by simp [State.inProgress, hw]
        refine hinv.moved (idle_moves s.upstream r) rfl rfl rfl rfl ?_ (by simp)
        rw [hnone]
        rfl
      · cases hst
  | readAck =>
      cases hst
      exact inv_readAck hinv hok
  | sendAck n =>
      simp only [next] at hst
      split_ifs at hst with hn
      cases hst
      refine ⟨hinv.delivered, hinv.writing, hinv.account, hinv.unbuffered, hinv.held, ?_⟩
      intro a ha
      rcases List.mem_cons.1 ha with rfl | ha
      · exact hinv.held n hn
      · exact hinv.sent a ha
  | teardown =>
      cases hst
      exact inv_tearDown hinv

theorem inv_initial (network : Network) (limit : ℕ) : Inv (initial network limit) := by
  refine ⟨rfl, ?_, fun _ => rfl, fun _ => ⟨rfl, rfl⟩, ?_, ?_⟩ <;> simp [initial]

-- When every Ack value is read with the delivered records flushed, every Ack
-- that leaves speaks of records the target had already taken whole.
theorem sent_acks_covered (network : Network) (limit : ℕ) {s : State}
    (h : ReachableBy (system network limit) ReadsFlushed s) :
    ∀ a ∈ s.sentAcks, Covered s.taken a.2 a.1 := by
  have hinv : Inv s := by
    refine h.invariant (I := Inv) ?_ fun _ _ _ hinv hok hst => inv_step hinv hok hst
    rintro _ rfl
    exact inv_initial network limit
  exact hinv.sent

def twoRecords : List Label :=
  [.offer 1 [104], .offer 2 [105], .wakeUp, .drain, .write .done, .complete, .drain, .write .done,
    .complete]

-- Both records are flushed at the idle point before the Ack is read.
theorem acked_after_idle_flush : ∃ s, ReachableBy (system .tcp deliveryWindow) ReadsFlushed s ∧
    s.sentAcks = [(2, [104, 105])] ∧ ∀ a ∈ s.sentAcks, Covered s.taken a.2 a.1 := by
  obtain ⟨s, hreach, hsent⟩ := (system .tcp deliveryWindow).exists_runBy ReadsFlushed
    (P := fun s : State => s.sentAcks = [(2, [104, 105])]) rfl
    (twoRecords ++ [.drain, .idle .done, .readAck, .sendAck 2]) (by decide)
  exact ⟨s, hreach, hsent, sent_acks_covered .tcp deliveryWindow hreach⟩

-- The second delivery of a burst acknowledges both records before the idle
-- flush, and a close that cuts in leaves their bytes in the buffer for good.
theorem acked_before_flush : ∃ s, Reachable (system .tcp deliveryWindow) s ∧
    s.taken = [[104], [105]] ∧ s.sentAcks = [(2, [])] ∧ ¬Covered s.taken [] 2 ∧
    s.upstream.out = [] ∧ s.upstream.isOpen = false := by
  obtain ⟨s, hreach, htaken, hsent, hout, hclosed⟩ := (system .tcp deliveryWindow).exists_run
    (P := fun s : State => s.taken = [[104], [105]] ∧ s.sentAcks = [(2, [])] ∧
      s.upstream.out = [] ∧ s.upstream.isOpen = false) rfl
    (twoRecords ++ [.readAck, .sendAck 2, .teardown, .teardown, .teardown]) (by decide)
  refine ⟨s, hreach, htaken, hsent, ?_, hout, hclosed⟩
  rw [htaken]
  rintro ⟨-, h⟩
  exact absurd (List.prefix_nil.1 h) (by decide)

end UdpCustom.Target
