import UdpCustom.Downstream
import UdpCustom.Link.Stream
import UdpCustom.Receiver.Reports
import UdpCustom.Receiver.Writer

-- What the pump, the session under it and the client's writer do together.
namespace UdpCustom.Downstream

open UdpCustom.Frame Transition
open UdpCustom.Sender (Config)

variable {cfg : Config} {stream : Bytes} {s s' : State} {l : Label}

inductive Step (cfg : Config) (s : State) : Label → State → Prop
  | read {n : ℕ} (pumping : s.pumping = true) (isOpen : s.link.sender.closed = false)
      (idle : s.chunk = []) (some : 0 < n) (fits : n ≤ upstreamReadBuf) (there : n ≤ s.unread.length) :
      Step cfg s (.read n) { s with chunk := s.unread.take n, unread := s.unread.drop n }
  | sendRecord {maxPayload : ℕ} {link : Link.State} (pumping : s.pumping = true)
      (more : s.chunk ≠ []) (room : 0 < maxPayload)
      (linked : Link.next cfg s.link (.send (.call (s.chunk.take maxPayload))) = some link) :
      Step cfg s (.sendRecord maxPayload) { s with link := link, chunk := s.chunk.drop maxPayload }
  | sendFailed (pumping : s.pumping = true) (closed : s.link.sender.closed = true) :
      Step cfg s .sendFailed { s with chunk := [] }
  | eof {link : Link.State} (pumping : s.pumping = true) (isOpen : s.link.sender.closed = false)
      (idle : s.chunk = []) (ended : s.unread = [])
      (linked : Link.next cfg s.link (.send .close) = some link) :
      Step cfg s .eof { s with link := link, pumpDone := true }
  | pumpClosed (pumping : s.pumping = true) (closed : s.link.sender.closed = true) (idle : s.chunk = []) :
      Step cfg s .pumpClosed { s with pumpDone := true }
  | runClosed (closed : s.link.sender.closed = true) (batch : s.link.sender.batchSent = false) :
      Step cfg s .runClosed { s with runDone := true }
  | retransmitClosed (closed : s.link.sender.closed = true) :
      Step cfg s .retransmitClosed { s with retransmitDone := true }
  | link {ll : Link.Label} {link : Link.State} (allowed : s.allows ll = true)
      (linked : Link.next cfg s.link ll = some link) : Step cfg s (.link ll) { s with link := link }

theorem step_of_next (hst : next cfg s l = some s') : Step cfg s l s' := by
  cases l with
  | read n =>
      obtain ⟨⟨hpumping, hopen, hidle, hsome, hfits, hthere⟩, ⟨⟩⟩ := Option.ite_none_right_eq_some.1 hst
      exact .read hpumping hopen hidle hsome hfits hthere
  | sendRecord maxPayload =>
      obtain ⟨⟨hpumping, hmore, hroom⟩, hst⟩ := Option.ite_none_right_eq_some.1 hst
      obtain ⟨link, hlink, rfl⟩ := Option.map_eq_some_iff.1 hst
      exact .sendRecord hpumping hmore hroom hlink
  | sendFailed =>
      obtain ⟨⟨hpumping, hclosed⟩, ⟨⟩⟩ := Option.ite_none_right_eq_some.1 hst
      exact .sendFailed hpumping hclosed
  | eof =>
      obtain ⟨⟨hpumping, hopen, hidle, hended⟩, hst⟩ := Option.ite_none_right_eq_some.1 hst
      obtain ⟨link, hlink, rfl⟩ := Option.map_eq_some_iff.1 hst
      exact .eof hpumping hopen hidle hended hlink
  | pumpClosed =>
      obtain ⟨⟨hpumping, hclosed, hidle⟩, ⟨⟩⟩ := Option.ite_none_right_eq_some.1 hst
      exact .pumpClosed hpumping hclosed hidle
  | runClosed =>
      obtain ⟨⟨hclosed, hbatch⟩, ⟨⟩⟩ := Option.ite_none_right_eq_some.1 hst
      exact .runClosed hclosed hbatch
  | retransmitClosed =>
      obtain ⟨hclosed, ⟨⟩⟩ := Option.ite_none_right_eq_some.1 hst
      exact .retransmitClosed hclosed
  | link ll =>
      obtain ⟨hallows, hst⟩ := Option.ite_none_right_eq_some.1 hst
      obtain ⟨link, hlink, rfl⟩ := Option.map_eq_some_iff.1 hst
      exact .link hallows hlink

theorem receiver_send {link : Link.State} {sl : Sender.Label}
    (hlink : Link.next cfg s.link (.send sl) = some link) :
    link.receiver = s.link.receiver ∧
      (Reachable (Link.system cfg) s.link → Reachable (Link.system cfg) link) := by
  refine ⟨?_, fun h => Link.reachable_next h hlink⟩
  obtain ⟨_, sender, out, _, rfl⟩ := Link.next_send hlink
  rfl

-- A step changes the client only as a step of the client.
theorem next_link (hst : next cfg s l = some s') :
    (l.ofWriter = false ∧ s'.link.receiver = s.link.receiver ∧
      (Reachable (Link.system cfg) s.link → Reachable (Link.system cfg) s'.link)) ∨
    ∃ rl, l = .link (.recv rl) ∧ rl.keepsOpen = true ∧
      Link.next cfg s.link (.recv rl) = some s'.link := by
  cases step_of_next hst with
  | sendRecord _ _ _ hlink | eof _ _ _ _ hlink => exact .inl ⟨rfl, receiver_send hlink⟩
  | @link ll _ hallows hlink =>
      cases ll with
      | send sl => exact .inl ⟨rfl, receiver_send hlink⟩
      | recv rl => exact .inr ⟨rl, rfl, hallows, hlink⟩
  | _ => exact .inl ⟨rfl, rfl, id⟩

structure Open (cfg : Config) (s : State) : Prop where
  reachable : Reachable (Link.system cfg) s.link
  awake : Receiver.Awake s.link.receiver

theorem Open.next (h : Open cfg s) (hst : Downstream.next cfg s l = some s') : Open cfg s' := by
  rcases next_link hst with ⟨-, hreceiver, hreachable⟩ | ⟨rl, -, hopen, hlink⟩
  · exact ⟨hreachable h.reachable, hreceiver ▸ h.awake⟩
  · refine ⟨Link.reachable_next h.reachable hlink, ?_⟩
    obtain ⟨_, receiver, out, hreceiver, hs'⟩ := Link.next_recv hlink
    rw [hs']
    exact Receiver.awake_next hopen h.awake hreceiver

theorem open_reachable (h : Reachable (system cfg stream) s) : Open cfg s := by
  refine h.invariant (I := Open cfg) ?_ fun s l s' hs _ hst => hs.next hst
  rintro s rfl
  exact ⟨.init rfl, Receiver.awake_initial cfg⟩

-- Until the session closes, the stream is what was sent, what is left of the last
-- read, and what the target has still to send.
structure Shipped (stream : Bytes) (s : State) : Prop where
  total : s.link.sender.closed = false → s.link.sender.passed.flatten ++ s.chunk ++ s.unread = stream
  nonempty : ∀ payload ∈ s.link.sender.passed, payload ≠ []
  running : s.runDone = true → s.link.sender.closed = true

-- A step of the session that the pump does not take.
theorem lasting_link {ll : Link.Label} (hallows : s.allows ll = true) {link : Link.State}
    (hlink : Link.next cfg s.link ll = some link) : Sender.Lasting s.link.sender link.sender := by
  refine Link.lasting_next (fun payload he => ?_) hlink
  rw [he] at hallows
  cases hallows

theorem Shipped.next (h : Shipped stream s) (hst : Downstream.next cfg s l = some s') :
    Shipped stream s' := by
  cases step_of_next hst with
  | read _ _ hidle _ _ _ =>
      refine ⟨fun hopen => ?_, h.nonempty, h.running⟩
      have htotal := h.total hopen
      rw [hidle, List.append_nil] at htotal
      rw [List.append_assoc, List.take_append_drop]
      exact htotal
  | sendRecord _ _ _ hlink =>
      obtain ⟨_, sender, out, hsender, rfl⟩ := Link.next_send hlink
      obtain ⟨hpassed, hclosed, hne⟩ := Sender.call_cases hsender
      refine ⟨fun hopen => ?_, fun payload hmem => ?_, fun hdone => hclosed ▸ h.running hdone⟩
      · have htotal := h.total (hclosed ▸ hopen)
        dsimp only
        rw [hpassed, List.flatten_append, List.flatten_singleton, List.append_assoc _ (List.take _ _),
          List.take_append_drop]
        exact htotal
      · rw [hpassed] at hmem
        rcases List.mem_append.1 hmem with hold | hnew
        · exact h.nonempty payload hold
        · rw [List.mem_singleton.1 hnew]
          exact hne
  | sendFailed _ hclosed =>
      exact ⟨fun hopen => absurd (hclosed.symm.trans hopen) Bool.noConfusion, h.nonempty, h.running⟩
  | eof _ _ _ _ hlink =>
      obtain ⟨_, sender, out, hsender, rfl⟩ := Link.next_send hlink
      cases hsender
      exact ⟨nofun, h.nonempty, fun _ => rfl⟩
  | link hallows hlink =>
      obtain ⟨hpassed, hclosed⟩ := lasting_link hallows hlink
      refine ⟨fun hopen => ?_, fun payload hmem => h.nonempty payload (hpassed ▸ hmem),
        fun hdone => hclosed (h.running hdone)⟩
      dsimp only at hopen ⊢
      rw [hpassed]
      refine h.total (Bool.eq_false_iff.2 fun hc => ?_)
      exact absurd (hopen.symm.trans (hclosed hc)) Bool.noConfusion
  | runClosed hclosed _ => exact ⟨h.total, h.nonempty, fun _ => hclosed⟩
  | pumpClosed _ _ _ | retransmitClosed _ => exact ⟨h.total, h.nonempty, h.running⟩

theorem shipped_reachable (h : Reachable (system cfg stream) s) : Shipped stream s := by
  refine h.invariant (I := Shipped stream) ?_ fun s l s' hs _ hst => hs.next hst
  rintro s rfl
  exact ⟨fun _ => rfl, nofun, nofun⟩

end UdpCustom.Downstream
