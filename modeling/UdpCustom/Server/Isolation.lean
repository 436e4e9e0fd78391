import UdpCustom.Server.Migration

-- What a record from an address that has not been validated can reach.
namespace UdpCustom.Server

open UdpCustom.Frame UdpCustom.Replay UdpCustom.Fec UdpCustom.Path

variable {Addr : Type} [DecidableEq Addr] {cfg : Config}

-- Everything but the replay filter, the challenges and the packet counter is as
-- before; `sent` only records what left.
def Session.Untouched (s s' : Session Addr) : Prop :=
  ∃ replayFilter sendPacketNo sent pathChallenges issued,
    s' = { s with
      replayFilter := replayFilter
      sendPacketNo := sendPacketNo
      sent := sent
      paths := { s.paths with pathChallenges := pathChallenges, issued := issued } }

-- The session has a token for this address, or the random source gives one.
def Challengeable (s : Session Addr) (remoteAddr : AddrPort Addr) (env : Env) : Prop :=
  env.random.isSome = true ∨
    ∃ c ∈ s.paths.pathChallenges, c.ip = remoteAddr.addr ∧ env.now ≤ c.expires

-- A session that is still open has a number left for the challenge.
def Numbered (s : Session Addr) : Prop :=
  s.closed = false → (s.sendPacketNo + 1) % Nonce.packetNoSpace ≠ 0

-- The loss report a record carries is none, or the average takes it in without a change:
-- it equals the estimate, or a quarter of the difference is lost in rounding.
def Unreported (s : Session Addr) (frame : UDPCFrame) : Prop :=
  s.fecSend.isSome = true → frame.flags &&& flagFecFeedback ≠ 0 →
    s.adaptive.peerLoss.observeValue (reportedLoss frame.windowSize) 0.25 = s.adaptive.peerLoss

theorem sendPathChallenge_isSome (s : Session Addr) (remoteAddr : AddrPort Addr) (env : Env) :
    (s.paths.sendPathChallenge remoteAddr env.now env.random env.evict).1.isSome = true ↔
      Challengeable s remoteAddr env := by
  unfold Paths.sendPathChallenge Challengeable
  dsimp only
  split
  · rename_i c hfind
    simp only [Option.isSome_some, true_iff]
    have hmem := List.mem_filter.1 (List.mem_of_find?_eq_some hfind)
    have hip := List.find?_some hfind
    simp only [decide_eq_true_eq] at hmem hip
    exact .inr ⟨c, hmem.1, hip, hmem.2⟩
  · rename_i hfind
    have hnone : ¬∃ c ∈ s.paths.pathChallenges, c.ip = remoteAddr.addr ∧ env.now ≤ c.expires := by
      rintro ⟨c, hc, hip, hlive⟩
      have hno := List.find?_eq_none.1 hfind c (List.mem_filter.2 ⟨hc, decide_eq_true hlive⟩)
      exact hno (decide_eq_true hip)
    cases env.random <;> simp [hnone]

-- A challenge that finds a number, or is not sent at all, only uses it up.
theorem challenge_eq (cfg : Config) {s : Session Addr} {remoteAddr : AddrPort Addr} {env : Env}
    (h : Challengeable s remoteAddr env → Numbered s) (origPort : ℕ) :
    ∃ sendPacketNo sent pathChallenges issued, s.challenge cfg remoteAddr origPort env =
      { s with
        sendPacketNo := sendPacketNo
        sent := sent
        paths := { s.paths with pathChallenges := pathChallenges, issued := issued } } := by
  obtain ⟨challenges, issued, hpaths⟩ :=
    paths_sendPathChallenge s.paths remoteAddr env.now env.random env.evict
  unfold Session.challenge
  dsimp only
  rw [hpaths]
  split
  · exact ⟨_, _, _, _, rfl⟩
  · rename_i token htoken
    have hnumbered := h ((sendPathChallenge_isSome s remoteAddr env).1 (by rw [htoken]; rfl))
    unfold Session.sendControl Session.close
    dsimp only
    split_ifs with hwrap hclosed
    · exact ⟨_, _, _, _, rfl⟩
    · exact absurd hwrap (hnumbered (by simpa using hclosed))
    · exact ⟨_, _, _, _, rfl⟩
    · exact ⟨_, _, _, _, rfl⟩

-- One that finds none retires the session.
theorem closed_challenge (cfg : Config) {s : Session Addr} {remoteAddr : AddrPort Addr} {env : Env}
    (hsend : Challengeable s remoteAddr env) (h : ¬Numbered s) (origPort : ℕ) :
    s.closed = false ∧ (s.challenge cfg remoteAddr origPort env).closed = true := by
  obtain ⟨hopen, hwrap⟩ := Classical.not_imp.1 h
  rw [not_not] at hwrap
  refine ⟨hopen, ?_⟩
  obtain ⟨token, htoken⟩ :=
    Option.isSome_iff_exists.1 ((sendPathChallenge_isSome s remoteAddr env).2 hsend)
  unfold Session.challenge Session.sendControl Session.close
  simp [htoken, hwrap, hopen]

theorem challenge_keeps (cfg : Config) (s : Session Addr) (remoteAddr : AddrPort Addr)
    (origPort : ℕ) (env : Env) :
    (s.challenge cfg remoteAddr origPort env).adaptive = s.adaptive ∧
      (s.challenge cfg remoteAddr origPort env).replayFilter = s.replayFilter := by
  unfold Session.challenge Session.sendControl Session.close
  dsimp only
  split
  · exact ⟨rfl, rfl⟩
  · split_ifs <;> exact ⟨rfl, rfl⟩

-- A record that reaches the path check from a foreign address without an
-- answer is challenged.
theorem handleIncomingFrame_foreign {s : Session Addr} {remoteAddr : AddrPort Addr}
    {frame : UDPCFrame} {env : Env} (hforeign : remoteAddr.addr ≠ s.paths.raddr.addr)
    (hno : ¬(frame.cmd = .pathResponse ∧
      (s.paths.answered remoteAddr frame.data env.now).isSome = true)) (origPort : ℕ) :
    s.handleIncomingFrame cfg frame remoteAddr origPort env =
      (false, s.challenge cfg remoteAddr origPort env) := by
  unfold Session.handleIncomingFrame
  rw [if_pos (by simpa [Paths.sameRemoteIP] using fun he => hforeign he.symm)]
  dsimp only
  rw [if_neg]
  rintro ⟨hcmd, haccept⟩
  refine hno ⟨hcmd, ?_⟩
  cases hc : s.paths.answered remoteAddr frame.data env.now with
  | none => simp [Paths.acceptPathResponse, hc] at haccept
  | some c => rfl

omit [DecidableEq Addr] in
theorem adaptive_screened_iff (s : Session Addr) (frame : UDPCFrame) :
    (s.screened frame).adaptive = s.adaptive ↔ Unreported s frame := by
  unfold Session.screened Unreported
  dsimp only
  split
  · rename_i hreport
    constructor
    · exact fun h _ _ => congrArg AdaptiveLoss.peerLoss h
    · intro h
      rw [AdaptiveLoss.observeRemoteBasisPoints, h hreport.1 hreport.2]
  · rename_i hreport
    exact ⟨fun _ hsend hflag => absurd ⟨hsend, hflag⟩ hreport, fun _ => rfl⟩

-- Just below a full loss, the report of one is rounded away.
example : (LossEstimator.mk 0.9999999999999999).observeValue (reportedLoss 10000) 0.25 =
    ⟨0.9999999999999999⟩ := by
  decide +kernel

section Foreign

variable {s : Session Addr} {remoteAddr : AddrPort Addr} {frame : UDPCFrame} {env : Env}

omit [DecidableEq Addr] in
theorem Session.Untouched.refl (s : Session Addr) : s.Untouched s :=
  ⟨_, _, _, _, _, rfl⟩

-- The record is fresh if it is DATA, and once it reaches the path check it brings
-- no loss report and finds a number for the challenge.
def Harmless (s : Session Addr) (frame : UDPCFrame) (remoteAddr : AddrPort Addr) (env : Env) : Prop :=
  (frame.cmd = .data → (s.replayFilter.accept frame.packetNo).1 = true) ∧
    (Admissible s frame → Unreported s frame ∧ (Challengeable s remoteAddr env → Numbered s))

section Admitted

variable (cfg) (hadm : Admissible s frame) (hforeign : remoteAddr.addr ≠ s.paths.raddr.addr)
  (hno : ¬(frame.cmd = .pathResponse ∧
    (s.paths.answered remoteAddr frame.data env.now).isSome = true)) (origPort : ℕ)
include hadm hforeign hno

theorem processIncomingFrame_admissible :
    (s.processIncomingFrame cfg frame remoteAddr origPort env).2 =
      { (s.screened frame).challenge cfg remoteAddr origPort env with
        replayFilter := if frame.cmd = .data then
            (s.replayFilter.accept frame.packetNo).2.remove frame.packetNo
          else (s.replayFilter.accept frame.packetNo).2 } := by
  have hhandled : (s.screened frame).handleIncomingFrame cfg frame remoteAddr origPort env =
      (false, (s.screened frame).challenge cfg remoteAddr origPort env) :=
    handleIncomingFrame_foreign (s := s.screened frame) hforeign hno origPort
  have hfilter : ((s.screened frame).challenge cfg remoteAddr origPort env).replayFilter =
      (s.replayFilter.accept frame.packetNo).2 :=
    (challenge_keeps cfg (s.screened frame) remoteAddr origPort env).2
  have hways := processIncomingFrame_cases cfg s frame remoteAddr origPort env
  generalize s.processIncomingFrame cfg frame remoteAddr origPort env = r at hways ⊢
  cases hways with
  | discarded hbad =>
      rcases hbad with hsack | hshape
      · exact absurd hsack hadm.1
      · rw [hadm.2.1] at hshape
        cases hshape
  | reacked hseen _ | replayed hseen =>
      rw [hadm.2.2] at hseen
      cases hseen
  | handled _ hdone =>
      rw [hhandled] at hdone
      cases hdone
  | withdrawn _ hdata _ => rw [hhandled, if_pos hdata, ← hfilter]
  | refused _ hcmd _ => rw [hhandled, if_neg hcmd, ← hfilter]

theorem untouched_admissible_iff :
    s.Untouched (s.processIncomingFrame cfg frame remoteAddr origPort env).2 ↔
      Unreported s frame ∧ (Challengeable s remoteAddr env → Numbered s) := by
  rw [processIncomingFrame_admissible cfg hadm hforeign hno]
  have hkeeps := challenge_keeps cfg (s.screened frame) remoteAddr origPort env
  constructor
  · rintro ⟨replayFilter, sendPacketNo, sent, challenges, issued, heq⟩
    have hadaptive := congrArg Session.adaptive heq
    have hclosed := congrArg Session.closed heq
    dsimp only at hadaptive hclosed
    refine ⟨(adaptive_screened_iff s frame).1 (hkeeps.1.symm.trans hadaptive), ?_⟩
    intro hsend
    by_contra hnumbered
    have hsend : Challengeable (s.screened frame) remoteAddr env := hsend
    obtain ⟨hopen, hdone⟩ := closed_challenge cfg hsend hnumbered origPort
    rw [hdone] at hclosed
    exact absurd (hclosed.trans hopen) (by decide)
  · rintro ⟨hreport, hnumbered⟩
    have hnumbered : Challengeable (s.screened frame) remoteAddr env → Numbered (s.screened frame) :=
      hnumbered
    obtain ⟨no, sent, challenges, issued, heq⟩ := challenge_eq cfg hnumbered origPort
    refine ⟨if frame.cmd = .data then (s.replayFilter.accept frame.packetNo).2.remove frame.packetNo
      else (s.replayFilter.accept frame.packetNo).2, no, sent, challenges, issued, ?_⟩
    rw [heq]
    have hadaptive := (adaptive_screened_iff s frame).2 hreport
    simp only [hadaptive]
    rfl

theorem filter_admissible (hdata : frame.cmd = .data) :
    ((s.processIncomingFrame cfg frame remoteAddr origPort env).2.replayFilter.accept
      frame.packetNo).1 = true := by
  rw [processIncomingFrame_admissible cfg hadm hforeign hno]
  dsimp only
  rw [if_pos hdata]
  exact accept_remove_accept hadm.2.2

end Admitted

-- A record that does not get as far as the path check changes nothing, unless
-- it is a replay of DATA, which stays rejected.
theorem processIncomingFrame_inadmissible (cfg : Config) (hadm : ¬Admissible s frame)
    (remoteAddr : AddrPort Addr) (origPort : ℕ) (env : Env) :
    (s.processIncomingFrame cfg frame remoteAddr origPort env).2.replayFilter = s.replayFilter ∧
      (s.Untouched (s.processIncomingFrame cfg frame remoteAddr origPort env).2 ∨
        frame.cmd = .data ∧ (s.replayFilter.accept frame.packetNo).1 = false) := by
  have hways := processIncomingFrame_cases cfg s frame remoteAddr origPort env
  generalize s.processIncomingFrame cfg frame remoteAddr origPort env = r at hways ⊢
  cases hways with
  | discarded _ => exact ⟨rfl, .inl (.refl s)⟩
  | reacked hseen hdata =>
      refine ⟨?_, .inr ⟨hdata, hseen⟩⟩
      exact (kept_reackDuplicateData cfg
        { s with replayFilter := (s.replayFilter.accept frame.packetNo).2 } env).replayFilter.trans
          (accept_false hseen)
  | replayed hseen => exact ⟨accept_false hseen, .inl ⟨_, _, _, _, _, rfl⟩⟩
  | handled hyes _ | withdrawn hyes _ _ | refused hyes _ _ => exact absurd hyes hadm

-- Before its path is validated a record leaves the session as it was exactly if
-- it is harmless.
theorem unvalidated_untouched_iff (hforeign : remoteAddr.addr ≠ s.paths.raddr.addr)
    (hno : ¬(frame.cmd = .pathResponse ∧
      (s.paths.answered remoteAddr frame.data env.now).isSome = true)) (origPort : ℕ) :
    (s.Untouched (s.processIncomingFrame cfg frame remoteAddr origPort env).2 ∧
      (frame.cmd = .data →
        ((s.processIncomingFrame cfg frame remoteAddr origPort env).2.replayFilter.accept
          frame.packetNo).1 = true)) ↔ Harmless s frame remoteAddr env := by
  by_cases hadm : Admissible s frame
  · have hiff := untouched_admissible_iff cfg hadm hforeign hno origPort
    constructor
    · rintro ⟨huntouched, -⟩
      exact ⟨fun _ => hadm.2.2, fun _ => hiff.1 huntouched⟩
    · rintro ⟨-, hquiet⟩
      exact ⟨hiff.2 (hquiet hadm), filter_admissible cfg hadm hforeign hno origPort⟩
  · obtain ⟨hfilter, houtcome⟩ := processIncomingFrame_inadmissible cfg hadm remoteAddr origPort env
    rw [hfilter]
    constructor
    · rintro ⟨-, hfresh⟩
      exact ⟨hfresh, fun h => absurd h hadm⟩
    · rintro ⟨hfresh, -⟩
      rcases houtcome with huntouched | ⟨hdata, hreplayed⟩
      · exact ⟨huntouched, hfresh⟩
      · exact absurd (hfresh hdata) (by simp [hreplayed])

end Foreign

def samplePing (flags windowSize : ℕ) : UDPCFrame :=
  { controlFrame sampleConfig .ping 0 [] with
    packetNo := 1, flags := flags, windowSize := windowSize }

def freshSession : Session ℕ := newSession sampleConfig ⟨1, 4000⟩ 53 0

-- A keepalive without a loss report is challenged and leaves no other trace.
theorem plain_ping_isolated :
    (2 ≠ freshSession.paths.raddr.addr ∧ (samplePing 0 0).cmd ≠ .pathResponse) ∧
      freshSession.Untouched (freshSession.processIncomingFrame sampleConfig (samplePing 0 0)
        ⟨2, 4000⟩ 53 (sampleEnv 10 (some sampleToken))).2 := by
  have hforeign : 2 ≠ freshSession.paths.raddr.addr := by decide +kernel
  refine ⟨⟨hforeign, by decide⟩, ((unvalidated_untouched_iff hforeign ?_ 53).2 ⟨?_, ?_⟩).1⟩
  · rintro ⟨hcmd, -⟩
    exact absurd hcmd (by decide)
  · intro hdata
    exact absurd hdata (by decide)
  · intro _
    refine ⟨fun _ hflag => absurd rfl hflag, fun _ _ => ?_⟩
    decide +kernel

-- A report of total loss from an address nobody has validated moves the
-- estimate that decides how much parity the session sends.
theorem foreign_report_moves_estimate :
    2 ≠ freshSession.paths.raddr.addr ∧ (samplePing flagFecFeedback 10000).cmd ≠ .pathResponse ∧
      freshSession.adaptive.peerLoss.value = 0 ∧
      (freshSession.processIncomingFrame sampleConfig (samplePing flagFecFeedback 10000) ⟨2, 4000⟩ 53
        (sampleEnv 10 (some sampleToken))).2.adaptive.peerLoss.value = 0.25 ∧
      ¬freshSession.Untouched (freshSession.processIncomingFrame sampleConfig
        (samplePing flagFecFeedback 10000) ⟨2, 4000⟩ 53 (sampleEnv 10 (some sampleToken))).2 := by
  have hmoved : (freshSession.processIncomingFrame sampleConfig (samplePing flagFecFeedback 10000)
      ⟨2, 4000⟩ 53 (sampleEnv 10 (some sampleToken))).2.adaptive.peerLoss.value = 0.25 := by
    decide +kernel
  refine ⟨by decide +kernel, by decide, rfl, hmoved, ?_⟩
  rintro ⟨replayFilter, sendPacketNo, sent, challenges, issued, heq⟩
  rw [heq] at hmoved
  have hsame : freshSession.adaptive.peerLoss.value = 0.25 := hmoved
  exact absurd hsame (by decide +kernel)

end UdpCustom.Server
