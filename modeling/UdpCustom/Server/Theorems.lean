import UdpCustom.Path.Theorems
import UdpCustom.Replay.Theorems
import UdpCustom.Server

namespace UdpCustom.Server

open UdpCustom.Frame UdpCustom.Replay UdpCustom.Delivery UdpCustom.Recovery UdpCustom.Coalesce
open UdpCustom.Fec UdpCustom.Budget UdpCustom.Path

variable {Addr : Type} [DecidableEq Addr] (cfg : Config) {s s' s₁ : Session Addr}
  {remoteAddr : AddrPort Addr}

-- What the session's answers and its bookkeeping leave alone.
structure Session.Kept (s s' : Session Addr) : Prop where
  maxPkt : s'.budget.maxPkt = s.budget.maxPkt
  replayFilter : s'.replayFilter = s.replayFilter
  paths : s.paths.Stays s'.paths

omit [DecidableEq Addr] in
theorem Session.Kept.refl (s : Session Addr) : s.Kept s :=
  ⟨rfl, rfl, .refl _⟩

omit [DecidableEq Addr] in
theorem Session.Kept.trans (h : s.Kept s₁) (h' : s₁.Kept s') : s.Kept s' :=
  ⟨h'.maxPkt.trans h.maxPkt, h'.replayFilter.trans h.replayFilter, h.paths.trans h'.paths⟩

omit [DecidableEq Addr] in
-- The common case: none of the three components is touched at all.
theorem Session.Kept.of_eq (hbudget : s'.budget = s.budget)
    (hfilter : s'.replayFilter = s.replayFilter) (hpaths : s'.paths = s.paths) : s.Kept s' :=
  ⟨congrArg _ hbudget, hfilter, hpaths ▸ .refl _⟩

omit [DecidableEq Addr] in
theorem Session.Kept.after (h : s₁.Kept s') (hmaxPkt : s₁.budget.maxPkt = s.budget.maxPkt)
    (hfilter : s₁.replayFilter = s.replayFilter) (hpaths : s₁.paths = s.paths) : s.Kept s' :=
  ⟨h.maxPkt.trans hmaxPkt, h.replayFilter.trans hfilter, hpaths ▸ h.paths⟩

omit [DecidableEq Addr] in
theorem kept_close (s : Session Addr) : s.Kept s.close := by
  unfold Session.close
  split_ifs
  · exact .refl s
  · exact .of_eq rfl rfl rfl

omit [DecidableEq Addr] in
theorem kept_sendControl (s : Session Addr) (f : UDPCFrame)
    {routed : (ℕ × AddrPort Addr) × Paths Addr} (hrouted : s.paths.Stays routed.2) :
    s.Kept (s.sendControl f routed) := by
  unfold Session.sendControl
  dsimp only
  split_ifs
  · exact (kept_close _).after rfl rfl rfl
  · exact .of_eq rfl rfl rfl
  · exact ⟨rfl, rfl, hrouted⟩

omit [DecidableEq Addr] in
theorem kept_reply (s : Session Addr) (f : UDPCFrame) (scan : List ℕ) : s.Kept (s.reply f scan) :=
  kept_sendControl s f (stays_route s.paths scan)

omit [DecidableEq Addr] in
theorem kept_sendCumulativeACK (s : Session Addr) (ackSeq : ℕ) (env : Env) :
    s.Kept (s.sendCumulativeACK cfg ackSeq env) := by
  unfold Session.sendCumulativeACK
  split
  · exact .refl s
  · dsimp only
    generalize (if s.flow.isSome then _ else ackSeq) = ack
    split
    · exact (kept_reply _ _ _).after rfl rfl rfl
    · exact .of_eq rfl rfl rfl

omit [DecidableEq Addr] in
theorem kept_reackDuplicateData (s : Session Addr) (env : Env) :
    s.Kept (s.reackDuplicateData cfg env) := by
  unfold Session.reackDuplicateData
  split
  · exact kept_sendCumulativeACK cfg s _ env
  · exact .refl s

omit [DecidableEq Addr] in
theorem kept_handleAck (s : Session Addr) (ackSeq now : ℕ) : s.Kept (s.handleAck ackSeq now) := by
  unfold Session.handleAck
  split
  · exact .refl s
  · dsimp only
    split
    · exact .of_eq rfl rfl rfl
    · split
      · exact .of_eq rfl rfl rfl
      · exact .of_eq rfl rfl rfl

omit [DecidableEq Addr] in
theorem kept_dispatchWires (s : Session Addr) (wires : List UDPCFrame) :
    s.Kept (wires.foldl Session.dispatchWire s) := by
  induction wires generalizing s with
  | nil => exact .refl s
  | cons wire rest ih =>
      rw [List.foldl_cons]
      refine Session.Kept.trans ?_ (ih _)
      unfold Session.dispatchWire
      split_ifs
      · exact .of_eq rfl rfl rfl
      · exact .refl s

omit [DecidableEq Addr] in
theorem kept_handleSACK (s : Session Addr) (frame : UDPCFrame) (now : ℕ) :
    s.Kept (s.handleSACK frame now) := by
  unfold Session.handleSACK
  dsimp only
  refine Session.Kept.trans ?_ (kept_dispatchWires _ _)
  split
  · exact (kept_handleAck _ _ _).after rfl rfl rfl
  · exact .of_eq rfl rfl rfl

omit [DecidableEq Addr] in
theorem kept_offer (s : Session Addr) (seq : ℕ) (payload : Bytes) (env : Env) :
    s.Kept (s.offer cfg seq payload env).2 := by
  unfold Session.offer
  dsimp only
  have hstalled : s.Kept (if (s.delivery.offerObserved seq payload).1.fresh ∧ env.stalled then
      { s with delivery := (s.delivery.offerObserved seq payload).2 }.sendCumulativeACK cfg
        (s.delivery.offerObserved seq payload).2.delivered env
    else { s with delivery := (s.delivery.offerObserved seq payload).2 }) := by
    split
    · exact (kept_sendCumulativeACK cfg _ _ env).after rfl rfl rfl
    · exact .of_eq rfl rfl rfl
  split
  · exact hstalled
  · exact hstalled.trans (kept_sendCumulativeACK cfg _ _ env)

theorem kept_moveTo (hsame : s.paths.raddr.addr = remoteAddr.addr)
    (origPort : ℕ) (allow : Bool) (env : Env) :
    s.Kept (s.moveTo cfg remoteAddr origPort allow env) := by
  have hmoved := stays_updateRemoteAddr hsame allow
  exact ⟨rfl, rfl, hmoved.trans (stays_setPath (hmoved.addr.trans hsame) _ _ _ _)⟩

theorem kept_handleDataFromPath
    (hsame : s.paths.raddr.addr = remoteAddr.addr) (frame : UDPCFrame) (origPort : ℕ) (env : Env) :
    s.Kept (s.handleDataFromPath cfg frame remoteAddr origPort env).2 := by
  unfold Session.handleDataFromPath
  dsimp only
  generalize hs : (if 0 < frame.ack then Session.handleAck _ frame.ack env.now else _) = t
  have hacked : s.Kept t := by
    rw [← hs]
    split
    · exact (kept_handleAck _ _ _).after rfl rfl rfl
    · exact ⟨rfl, rfl, .refl _⟩
  have hoffered := hacked.trans (kept_offer cfg t frame.seq frame.data env)
  split
  · exact hoffered.trans (kept_moveTo cfg (hoffered.paths.addr.trans hsame) _ _ _)
  · exact hoffered

theorem kept_deliverRecoveredFEC
    (hsame : s.paths.raddr.addr = remoteAddr.addr) (recovered : List SourceShard) (origPort : ℕ)
    (env : Env) : s.Kept (s.deliverRecoveredFEC cfg recovered remoteAddr origPort env) := by
  unfold Session.deliverRecoveredFEC
  induction recovered generalizing s with
  | nil => exact .refl s
  | cons src rest ih =>
      rw [List.foldl_cons]
      have hfirst : s.Kept (if src.seq = 0 then s else
          (s.handleDataFromPath cfg (recoveredFrame cfg src) remoteAddr origPort env).2) := by
        split
        · exact .refl s
        · exact kept_handleDataFromPath cfg hsame _ _ _
      exact hfirst.trans (ih (hfirst.paths.addr.trans hsame))

omit [DecidableEq Addr] in
theorem kept_fecOnData (s : Session Addr) (frame : UDPCFrame) (env : Env) :
    s.Kept (s.fecOnData cfg frame env).2 := by
  unfold Session.fecOnData
  split
  · exact .refl s
  · exact .of_eq rfl rfl rfl

omit [DecidableEq Addr] in
theorem kept_fecOnParity (s : Session Addr) (frame : UDPCFrame) (env : Env) :
    s.Kept (s.fecOnParity cfg frame env).2 := by
  unfold Session.fecOnParity
  split
  · exact .refl s
  · exact .of_eq rfl rfl rfl

-- The size a commit stands for, on its way to `applyMtuCommit`.
def committedSize (frame : UDPCFrame) : ℤ :=
  fieldAt frame.data 0 mtuCommitSize

-- What one record from the known address does, whatever its command.
structure Session.Served (cfg : Config) (s s' : Session Addr) (frame : UDPCFrame) : Prop where
  maxPkt : s'.budget.maxPkt =
    if frame.cmd = .mtuCommit then clampCommit cfg.maxPkt (committedSize frame) else s.budget.maxPkt
  replayFilter : s'.replayFilter = s.replayFilter
  paths : s.paths.Stays s'.paths

omit [DecidableEq Addr] in
theorem Session.Kept.served {frame : UDPCFrame} (h : s.Kept s') (hcmd : frame.cmd ≠ .mtuCommit) :
    s.Served cfg s' frame :=
  ⟨by rw [if_neg hcmd, h.maxPkt], h.replayFilter, h.paths⟩

omit [DecidableEq Addr] in
theorem Session.Kept.then_served {frame : UDPCFrame} (h : s.Kept s₁) (h' : s₁.Served cfg s' frame) :
    s.Served cfg s' frame := by
  refine ⟨h'.maxPkt.trans ?_, h'.replayFilter.trans h.replayFilter, h.paths.trans h'.paths⟩
  rw [h.maxPkt]

theorem served_dispatch (hsame : s.paths.raddr.addr = remoteAddr.addr)
    (frame : UDPCFrame) (origPort : ℕ) (env : Env) :
    s.Served cfg (s.dispatch cfg frame remoteAddr origPort env) frame := by
  unfold Session.dispatch
  split
  · rename_i hcmd
    refine Session.Kept.served cfg ?_ (by rw [hcmd]; decide)
    split
    · exact kept_handleSACK s frame env.now
    · exact .refl s
  · rename_i hcmd
    exact (kept_reply s _ _).served cfg (by rw [hcmd]; decide)
  · rename_i hcmd
    have hfound := kept_fecOnParity cfg s frame env
    refine Session.Kept.served cfg ?_ (by rw [hcmd]; decide)
    exact hfound.trans (kept_deliverRecoveredFEC cfg (hfound.paths.addr.trans hsame) _ _ _)
  · rename_i hcmd
    exact (kept_close s).served cfg (by rw [hcmd]; decide)
  · rename_i hcmd
    refine Session.Kept.served cfg ?_ (by rw [hcmd]; decide)
    split
    · exact kept_reply s _ _
    · exact .refl s
  · rename_i hcmd
    refine ⟨?_, rfl, .refl _⟩
    rw [if_pos hcmd]
    exact maxPkt_applyMtuCommit _ _ _
  · rename_i hcmd
    exact (Session.Kept.refl s).served cfg hcmd

-- A record from the known address is served; only DATA can be turned down.
theorem handleIncomingFrame_known
    (hsame : s.paths.raddr.addr = remoteAddr.addr) (frame : UDPCFrame) (origPort : ℕ) (env : Env) :
    s.Served cfg (s.handleIncomingFrame cfg frame remoteAddr origPort env).2 frame ∧
      ((s.handleIncomingFrame cfg frame remoteAddr origPort env).1 = false → frame.cmd = .data) := by
  unfold Session.handleIncomingFrame
  rw [if_neg (by simp [Paths.sameRemoteIP, hsame])]
  split
  · rename_i hdata
    refine ⟨Session.Kept.served cfg ?_ (by rw [hdata]; decide), fun _ => hdata⟩
    have hfound : s.Kept ({ s with budget := s.budget.openMtuGate }.fecOnData cfg frame env).2 :=
      (kept_fecOnData cfg _ frame env).after rfl rfl rfl
    have hrebuilt := hfound.trans
      (kept_deliverRecoveredFEC cfg (hfound.paths.addr.trans hsame)
        ({ s with budget := s.budget.openMtuGate }.fecOnData cfg frame env).1 origPort env)
    exact hrebuilt.trans (kept_handleDataFromPath cfg (hrebuilt.paths.addr.trans hsame) _ _ _)
  · refine ⟨?_, fun h => Bool.noConfusion h⟩
    dsimp only
    have hmoved := kept_moveTo cfg hsame origPort false env
    generalize hs : (if 0 < frame.ack ∧ frame.cmd ≠ .sack then Session.handleAck _ frame.ack env.now
      else _) = t
    have hacked : s.Kept t := by
      rw [← hs]
      split
      · exact hmoved.trans (kept_handleAck _ _ _)
      · exact hmoved
    exact hacked.then_served cfg (served_dispatch cfg (hacked.paths.addr.trans hsame) frame origPort env)

-- The record gets past the checks before the path.
def Admissible (s : Session Addr) (frame : UDPCFrame) : Prop :=
  ¬(frame.cmd = .sack ∧ s.flow.isNone = true) ∧ validSessionFrameShape frame = true ∧
    (s.replayFilter.accept frame.packetNo).1 = true

-- The session as it stands before the path check.
def Session.screened (s : Session Addr) (frame : UDPCFrame) : Session Addr :=
  { s with
    replayFilter := (s.replayFilter.accept frame.packetNo).2
    adaptive := if s.fecSend.isSome ∧ frame.flags &&& flagFecFeedback ≠ 0 then
        s.adaptive.observeRemoteBasisPoints frame.windowSize
      else s.adaptive }

-- The ways a record of a known session can go.
inductive Processed (s : Session Addr) (frame : UDPCFrame) (remoteAddr : AddrPort Addr)
    (origPort : ℕ) (env : Env) : Bool × Session Addr → Prop
  | discarded (hbad : frame.cmd = .sack ∧ s.flow.isNone = true ∨ validSessionFrameShape frame = false) :
      Processed s frame remoteAddr origPort env (false, s)
  | reacked (hseen : (s.replayFilter.accept frame.packetNo).1 = false) (hdata : frame.cmd = .data) :
      Processed s frame remoteAddr origPort env (false,
        { s with replayFilter := (s.replayFilter.accept frame.packetNo).2 }.reackDuplicateData cfg env)
  | replayed (hseen : (s.replayFilter.accept frame.packetNo).1 = false) :
      Processed s frame remoteAddr origPort env (false,
        { s with replayFilter := (s.replayFilter.accept frame.packetNo).2 })
  | handled (hadm : Admissible s frame)
      (hdone : ((s.screened frame).handleIncomingFrame cfg frame remoteAddr origPort env).1 = true) :
      Processed s frame remoteAddr origPort env
        ((s.screened frame).handleIncomingFrame cfg frame remoteAddr origPort env)
  | withdrawn (hadm : Admissible s frame) (hdata : frame.cmd = .data)
      (hrefused : ((s.screened frame).handleIncomingFrame cfg frame remoteAddr origPort env).1 = false) :
      Processed s frame remoteAddr origPort env (false,
        { ((s.screened frame).handleIncomingFrame cfg frame remoteAddr origPort env).2 with
          replayFilter := ((s.screened frame).handleIncomingFrame cfg frame remoteAddr origPort
            env).2.replayFilter.remove frame.packetNo })
  | refused (hadm : Admissible s frame) (hcmd : frame.cmd ≠ .data)
      (hrefused : ((s.screened frame).handleIncomingFrame cfg frame remoteAddr origPort env).1 = false) :
      Processed s frame remoteAddr origPort env (false,
        ((s.screened frame).handleIncomingFrame cfg frame remoteAddr origPort env).2)

omit [DecidableEq Addr] in
theorem screened_eq (s : Session Addr) (frame : UDPCFrame) :
    (if s.fecSend.isSome ∧ frame.flags &&& flagFecFeedback ≠ 0 then
      { s with
        replayFilter := (s.replayFilter.accept frame.packetNo).2
        adaptive := s.adaptive.observeRemoteBasisPoints frame.windowSize }
    else { s with replayFilter := (s.replayFilter.accept frame.packetNo).2 }) =
      s.screened frame := by
  unfold Session.screened
  split <;> rfl

theorem processIncomingFrame_cases (s : Session Addr) (frame : UDPCFrame)
    (remoteAddr : AddrPort Addr) (origPort : ℕ) (env : Env) :
    Processed cfg s frame remoteAddr origPort env
      (s.processIncomingFrame cfg frame remoteAddr origPort env) := by
  unfold Session.processIncomingFrame
  by_cases hsack : frame.cmd = .sack ∧ s.flow.isNone = true
  · rw [if_pos hsack]
    exact .discarded (.inl hsack)
  rw [if_neg hsack]
  by_cases hshape : validSessionFrameShape frame = false
  · rw [if_pos hshape]
    exact .discarded (.inr hshape)
  rw [if_neg hshape]
  dsimp only
  by_cases hseen : (s.replayFilter.accept frame.packetNo).1 = false
  · rw [if_pos hseen]
    by_cases hdata : frame.cmd = .data
    · rw [if_pos hdata]
      exact .reacked hseen hdata
    · rw [if_neg hdata]
      exact .replayed hseen
  rw [if_neg hseen, screened_eq]
  have hadm : Admissible s frame := ⟨hsack, by simpa using hshape, by simpa using hseen⟩
  cases hdone : ((s.screened frame).handleIncomingFrame cfg frame remoteAddr origPort env).1 with
  | true =>
      rw [if_pos rfl]
      exact .handled hadm hdone
  | false =>
      rw [if_neg Bool.false_ne_true]
      by_cases hdata : frame.cmd = .data
      · rw [if_pos hdata]
        exact .withdrawn hadm hdata hdone
      · rw [if_neg hdata]
        exact .refused hadm hdata hdone

end UdpCustom.Server
