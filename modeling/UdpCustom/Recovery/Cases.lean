import UdpCustom.Recovery

-- The ways `retryDue` and `updateSACK` can go.
namespace UdpCustom.Recovery

open UdpCustom.Frame UdpCustom.Delivery UdpCustom.Flow UdpCustom.Sack

-- The sequences due at a wake, oldest first.
def Outstanding.overdue (o : Outstanding) (now : ℕ) : List ℕ :=
  (SeqMap.ascending o.unacked).filter fun seq => (o.unacked.lookup seq).any (·.expired now)

theorem pairwise_overdue (o : Outstanding) (now : ℕ) : (o.overdue now).Pairwise (· < ·) :=
  (SeqMap.pairwise_ascending o.unacked).filter _

theorem mem_overdue {o : Outstanding} {now seq : ℕ} :
    seq ∈ o.overdue now ↔ ∃ p, o.unacked.lookup seq = some p ∧ p.expired now = true := by
  rw [Outstanding.overdue, List.mem_filter, Option.any_eq_true, and_iff_right_iff_imp]
  rintro ⟨p, hp, _⟩
  exact SeqMap.mem_ascending.2 (SeqMap.mem_iff_isSome.2 (by rw [hp]; rfl))

-- The burst of a wake: the oldest records due.
def Outstanding.burst (o : Outstanding) (now : ℕ) : List ℕ :=
  (o.overdue now).take retryBurstMax

theorem nodup_burst (o : Outstanding) (now : ℕ) : (o.burst now).Nodup :=
  ((pairwise_overdue o now).imp Nat.ne_of_lt).sublist (List.take_sublist _ _)

theorem mem_of_mem_burst {o : Outstanding} {now seq : ℕ} (h : seq ∈ o.burst now) :
    seq ∈ o.unacked :=
  SeqMap.mem_ascending.1 (List.mem_filter.1 (List.mem_of_mem_take h)).1

def Outstanding.backedOff (o : Outstanding) (now maximumRTO : ℕ) : SeqMap UnackedPkt :=
  SeqMap.modifyAll (.backOff now maximumRTO) o.unacked (o.burst now)

-- What a wake makes of the flow: a probe is noted, a burst counts as a loss.
def Outstanding.wakeFlow (o : Outstanding) (now rtt bdp : ℕ) (f : SendFlow) : SendFlow :=
  let probed := if (creditProbeInterval o).2 then { f with lastProbe := some now } else f
  if o.burst now = [] then probed else probed.loss now rtt true bdp

inductive Outstanding.Wakes (o : Outstanding) (now maximumRTO rtt bdp : ℕ) :
    Retry × Outstanding → Prop
  | abandons {seq : ℕ} {p : UnackedPkt} (hp : o.unacked.lookup seq = some p)
      (hexpired : p.expired now = true) (hmax : clientMaxRetries ≤ p.retries) :
      Wakes o now maximumRTO rtt bdp (.abandon, o)
  | repairs (hspared : ∀ seq p, o.unacked.lookup seq = some p → p.expired now = true →
        p.retries < clientMaxRetries) :
      Wakes o now maximumRTO rtt bdp
        ({ wires := wiresAt o.unacked (o.burst now)
           abandoned := false
           delay := o.nextDelay (o.backedOff now maximumRTO) (o.burst now) now
           probe := (creditProbeInterval o).2 ∧ SeqMap.size o.unacked ≠ 0 },
          { o with
            unacked := o.backedOff now maximumRTO
            flow := o.flow.map (o.wakeFlow now rtt bdp) })

theorem any_exhausted_iff (o : Outstanding) (now : ℕ) :
    ((o.overdue now).any fun seq =>
      (o.unacked.lookup seq).any fun p => clientMaxRetries ≤ p.retries) = true ↔
      ∃ seq p, o.unacked.lookup seq = some p ∧ p.expired now = true ∧
        clientMaxRetries ≤ p.retries := by
  rw [List.any_eq_true]
  constructor
  · rintro ⟨seq, hseq, hmax⟩
    obtain ⟨p, hp, hexpired⟩ := mem_overdue.1 hseq
    rw [hp] at hmax
    exact ⟨seq, p, hp, hexpired, of_decide_eq_true hmax⟩
  · rintro ⟨seq, p, hp, hexpired, hmax⟩
    refine ⟨seq, mem_overdue.2 ⟨p, hp, hexpired⟩, ?_⟩
    rw [hp]
    exact decide_eq_true hmax

theorem retryDue_cases (o : Outstanding) (now maximumRTO rtt bdp : ℕ) :
    o.Wakes now maximumRTO rtt bdp (o.retryDue now maximumRTO rtt bdp) := by
  unfold Outstanding.retryDue
  by_cases hany : ((o.overdue now).any fun seq =>
      (o.unacked.lookup seq).any fun p => clientMaxRetries ≤ p.retries) = true
  · obtain ⟨seq, p, hp, hexpired, hmax⟩ := (any_exhausted_iff o now).1 hany
    refine Eq.subst (if_pos hany).symm ?_
    exact .abandons hp hexpired hmax
  · refine Eq.subst (if_neg hany).symm ?_
    refine .repairs fun seq p hp hexpired => ?_
    by_contra hmax
    exact hany ((any_exhausted_iff o now).2 ⟨seq, p, hp, hexpired, Nat.not_lt.1 hmax⟩)

-- The records as a report marks them.
def Outstanding.marked (o : Outstanding) (frame : UDPCFrame) : SeqMap UnackedPkt :=
  SeqMap.modifyAll UnackedPkt.markSacked o.unacked (sackedSeqs frame)

-- The sequences feedback repairs in a map.
def Outstanding.due (o : Outstanding) (frame : UDPCFrame) (highest now rtt : ℕ) : List ℕ :=
  fastRepairs (SeqMap.modifyAll UnackedPkt.markSacked o.unacked (sackedSeqs frame)) frame highest now
    rtt

inductive Outstanding.Hears (o : Outstanding) (frame : UDPCFrame) (highest now rtt : ℕ) :
    (List UDPCFrame × Bool) × Outstanding → Prop
  | ignored (hinvalid : ∀ f, o.flow = some f → validSACK f frame highest = false) :
      Hears o frame highest now rtt (([], false), o)
  | taken {f : SendFlow} (hflow : o.flow = some f) (hvalid : validSACK f frame highest = true) :
      Hears o frame highest now rtt
        ((wiresAt (o.marked frame) (o.due frame highest now rtt), true),
          { o with
            unacked := SeqMap.modifyAll (.backOff now rttMaxRTO) (o.marked frame)
              (o.due frame highest now rtt)
            flow := some { f with
              feedbackNo := frame.packetNo
              credit := min (sackCredit frame.data) deliveryWindowWide
              fastRepairs := f.fastRepairs + (o.due frame highest now rtt).length } })

theorem updateSACK_cases (o : Outstanding) (frame : UDPCFrame) (highest now rtt : ℕ) :
    o.Hears frame highest now rtt (o.updateSACK frame highest now rtt) := by
  unfold Outstanding.updateSACK
  split
  · rename_i hflow
    refine .ignored fun f hf => ?_
    rw [hflow] at hf
    cases hf
  · rename_i f hflow
    split
    · rename_i hvalid
      exact .taken hflow hvalid
    · rename_i hvalid
      refine .ignored fun g hg => ?_
      rw [hflow, Option.some.injEq] at hg
      rw [← hg]
      exact Bool.eq_false_iff.2 hvalid

end UdpCustom.Recovery
