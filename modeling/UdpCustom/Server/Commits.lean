import UdpCustom.Server.Isolation

-- The MTU commits of one client session on their way to the server's budget.
namespace UdpCustom.Server

open UdpCustom.Frame UdpCustom.Mtu UdpCustom.Budget UdpCustom.Path

variable {Addr : Type} [DecidableEq Addr] {cfg : Config}

theorem maxPkt_challenge (s : Session Addr) (remoteAddr : AddrPort Addr) (origPort : ℕ) (env : Env) :
    (s.challenge cfg remoteAddr origPort env).budget.maxPkt = s.budget.maxPkt := by
  unfold Session.challenge Session.sendControl Session.close
  dsimp only
  split
  · rfl
  · split_ifs <;> rfl

theorem maxPkt_handleIncomingFrame (cfg : Config) (s : Session Addr) (frame : UDPCFrame)
    (remoteAddr : AddrPort Addr) (origPort : ℕ) (env : Env) :
    (s.handleIncomingFrame cfg frame remoteAddr origPort env).2.budget.maxPkt =
      if frame.cmd = .mtuCommit ∧
          (s.handleIncomingFrame cfg frame remoteAddr origPort env).1 = true then
        clampCommit cfg.maxPkt (committedSize frame)
      else s.budget.maxPkt := by
  by_cases hsame : s.paths.raddr.addr = remoteAddr.addr
  · obtain ⟨hserved, hrefused⟩ := handleIncomingFrame_known cfg hsame frame origPort env
    rw [hserved.maxPkt]
    by_cases hcmd : frame.cmd = .mtuCommit
    · have hhandled : (s.handleIncomingFrame cfg frame remoteAddr origPort env).1 = true := by
        by_contra hno
        have hdata := hrefused (by simpa using hno)
        rw [hcmd] at hdata
        cases hdata
      rw [if_pos hcmd, if_pos ⟨hcmd, hhandled⟩]
    · rw [if_neg hcmd, if_neg fun h => hcmd h.1]
  · unfold Session.handleIncomingFrame
    rw [if_pos (by simpa [Paths.sameRemoteIP] using hsame)]
    dsimp only
    split
    · rename_i hresponse
      rw [if_neg]
      · rfl
      · rintro ⟨hcmd, -⟩
        rw [hcmd] at hresponse
        cases hresponse.1
    · rw [if_neg fun h => Bool.false_ne_true h.2]
      exact maxPkt_challenge s remoteAddr origPort env

-- The budget's size is the last commit that was let through, and nothing else
-- touches it.
theorem maxPkt_processIncomingFrame (cfg : Config) (s : Session Addr) (frame : UDPCFrame)
    (remoteAddr : AddrPort Addr) (origPort : ℕ) (env : Env) :
    (s.processIncomingFrame cfg frame remoteAddr origPort env).2.budget.maxPkt =
      if frame.cmd = .mtuCommit ∧
          (s.processIncomingFrame cfg frame remoteAddr origPort env).1 = true then
        clampCommit cfg.maxPkt (committedSize frame)
      else s.budget.maxPkt := by
  have hways := processIncomingFrame_cases cfg s frame remoteAddr origPort env
  have hhandled := maxPkt_handleIncomingFrame cfg (s.screened frame) frame remoteAddr origPort env
  generalize s.processIncomingFrame cfg frame remoteAddr origPort env = r at hways ⊢
  cases hways with
  | discarded _ | replayed _ => rw [if_neg fun h => Bool.false_ne_true h.2]
  | reacked _ _ =>
      rw [if_neg fun h => Bool.false_ne_true h.2]
      exact (kept_reackDuplicateData cfg
        { s with replayFilter := (s.replayFilter.accept frame.packetNo).2 } env).maxPkt
  | handled _ _ => exact hhandled
  | withdrawn _ _ hrefused | refused _ _ hrefused =>
      rw [if_neg fun h => Bool.false_ne_true h.2]
      rw [hrefused, if_neg fun h => Bool.false_ne_true h.2] at hhandled
      exact hhandled

-- What it takes for a commit to be let through.
def Taken (s : Session Addr) (frame : UDPCFrame) (remoteAddr : AddrPort Addr) : Prop :=
  validSessionFrameShape frame = true ∧ (s.replayFilter.accept frame.packetNo).1 = true ∧
    remoteAddr.addr = s.paths.raddr.addr

instance (s : Session Addr) (frame : UDPCFrame) (remoteAddr : AddrPort Addr) :
    Decidable (Taken s frame remoteAddr) := by
  unfold Taken
  infer_instance

theorem commit_handled_iff (cfg : Config) (s : Session Addr) {frame : UDPCFrame}
    (hcmd : frame.cmd = .mtuCommit) (remoteAddr : AddrPort Addr) (origPort : ℕ) (env : Env) :
    (s.processIncomingFrame cfg frame remoteAddr origPort env).1 = true ↔
      Taken s frame remoteAddr := by
  unfold Taken
  have hscreened : ((s.screened frame).handleIncomingFrame cfg frame remoteAddr origPort env).1 = true ↔
      remoteAddr.addr = s.paths.raddr.addr := by
    by_cases hsame : s.paths.raddr.addr = remoteAddr.addr
    · have hrefused := (handleIncomingFrame_known cfg (s := s.screened frame) hsame frame origPort env).2
      rw [hcmd] at hrefused
      refine iff_of_true ?_ hsame.symm
      by_contra hno
      exact absurd (hrefused (by simpa using hno)) (by decide)
    · have hforeign : remoteAddr.addr ≠ s.paths.raddr.addr := fun he => hsame he.symm
      rw [handleIncomingFrame_foreign (s := s.screened frame) hforeign (by rw [hcmd]; simp)]
      exact iff_of_false Bool.false_ne_true hforeign
  have hways := processIncomingFrame_cases cfg s frame remoteAddr origPort env
  generalize s.processIncomingFrame cfg frame remoteAddr origPort env = r at hways ⊢
  cases hways with
  | discarded hbad =>
      refine iff_of_false Bool.false_ne_true fun htaken => ?_
      rcases hbad with hsack | hshape
      · rw [hcmd] at hsack
        cases hsack.1
      · rw [htaken.1] at hshape
        cases hshape
  | reacked hseen _ | replayed hseen =>
      refine iff_of_false Bool.false_ne_true fun htaken => ?_
      rw [htaken.2.1] at hseen
      cases hseen
  | handled hadm hdone => exact iff_of_true hdone ⟨hadm.2.1, hadm.2.2, hscreened.1 hdone⟩
  | withdrawn _ _ hrefused | refused _ _ hrefused =>
      refine iff_of_false Bool.false_ne_true fun htaken => ?_
      rw [hscreened.2 htaken.2.2] at hrefused
      cases hrefused

end UdpCustom.Server

-- A client that publishes sizes, a network that loses, repeats and reorders, and
-- the session that takes them in.
namespace UdpCustom.Commits

open UdpCustom.Frame UdpCustom.Mtu UdpCustom.Budget UdpCustom.Path UdpCustom.Server Transition

def mtuCommitSends : ℕ := 2

structure State (Addr : Type) where
  sendPacketNo : ℕ
  -- the sizes of which `sendMtuCommit` has copies left to send
  due : List ℕ
  -- every record the client ever put on the wire
  wire : List UDPCFrame
  session : Session Addr
  -- history: the commits the session handled, the latest first
  processed : List UDPCFrame

inductive Label (Addr : Type)
  | publish (size : ℕ)
  | sendCopy (size : ℕ)
  | sendOther (frame : UDPCFrame)
  | receive (frame : UDPCFrame) (remoteAddr : AddrPort Addr) (origPort : ℕ) (env : Env)
  | elsewhere (t : Session Addr)

variable {Addr : Type} [DecidableEq Addr] {cfg : Config} {home : AddrPort Addr}

def commitFrame (cfg : Config) (size : ℕ) : UDPCFrame :=
  controlFrame cfg .mtuCommit 0 (BigEndian.put mtuCommitSize size)

-- Numbered like every record of the client; an exhausted counter sends nothing.
def State.send (s : State Addr) (frame : UDPCFrame) : State Addr :=
  if s.sendPacketNo + 1 < Nonce.packetNoSpace then
    { s with
      sendPacketNo := s.sendPacketNo + 1
      wire := { frame with packetNo := s.sendPacketNo + 1 } :: s.wire }
  else s

def State.receive (cfg : Config) (s : State Addr) (frame : UDPCFrame) (remoteAddr : AddrPort Addr)
    (origPort : ℕ) (env : Env) : State Addr :=
  let handled := s.session.processIncomingFrame cfg frame remoteAddr origPort env
  { s with
    session := handled.2
    processed := if frame.cmd = .mtuCommit ∧ handled.1 then frame :: s.processed else s.processed }

def next (cfg : Config) (s : State Addr) : Label Addr → Option (State Addr)
  | .publish size =>
    if 0 < size ∧ (size : ℤ) ≤ maxPktCeiling then
      some { s with due := List.replicate mtuCommitSends size ++ s.due }
    else some s
  | .sendCopy size =>
    if size ∈ s.due then some ({ s with due := s.due.erase size }.send (commitFrame cfg size)) else none
  | .sendOther frame => if frame.cmd ≠ .mtuCommit then some (s.send frame) else none
  | .receive frame remoteAddr origPort env =>
    if frame ∈ s.wire then some (s.receive cfg frame remoteAddr origPort env) else none
  | .elsewhere t => some { s with session := s.session.elsewhere t }

def initial (cfg : Config) (home : AddrPort Addr) (origPort now : ℕ) : State Addr where
  sendPacketNo := 0
  due := []
  wire := []
  session := newSession cfg home origPort now
  processed := []

def system (cfg : Config) (home : AddrPort Addr) : System (State Addr) (Label Addr) where
  init := fun s => ∃ origPort now, s = initial cfg home origPort now
  next := next cfg

omit [DecidableEq Addr] in
theorem session_send (s : State Addr) (frame : UDPCFrame) :
    (s.send frame).session = s.session ∧ (s.send frame).processed = s.processed := by
  unfold State.send
  split_ifs <;> exact ⟨rfl, rfl⟩

-- No commit handled has a greater packet number.
def Newest (s : State Addr) (newest : UDPCFrame) : Prop :=
  ∀ f ∈ s.processed, f.packetNo ≤ newest.packetNo

-- The budget has the size of the newest commit handled.
def NewestWins (cfg : Config) (s : State Addr) : Prop :=
  ∀ newest ∈ s.processed, Newest s newest →
    s.session.budget.maxPkt = clampCommit cfg.maxPkt (committedSize newest)

-- A commit that is let through is newer than all before it, or comes to the
-- same size as the newest of them.
def InOrder (cfg : Config) (s : State Addr) : Label Addr → Prop
  | .receive frame remoteAddr _ _ => frame.cmd = .mtuCommit → Taken s.session frame remoteAddr →
      ∀ newest ∈ s.processed, Newest s newest → newest.packetNo < frame.packetNo ∨
        clampCommit cfg.maxPkt (committedSize newest) = clampCommit cfg.maxPkt (committedSize frame)
  | _ => True

instance (s : State Addr) (newest : UDPCFrame) : Decidable (Newest s newest) := by
  unfold Newest
  infer_instance

instance (cfg : Config) (s : State Addr) : Decidable (NewestWins cfg s) := by
  unfold NewestWins
  infer_instance

instance (cfg : Config) (s : State Addr) (l : Label Addr) : Decidable (InOrder cfg s l) := by
  cases l <;> simp only [InOrder] <;> infer_instance

omit [DecidableEq Addr] in
theorem NewestWins.of_eq {s s' : State Addr} (h : NewestWins cfg s)
    (hmaxPkt : s'.session.budget.maxPkt = s.session.budget.maxPkt)
    (hprocessed : s'.processed = s.processed) : NewestWins cfg s' := by
  unfold NewestWins Newest
  rw [hmaxPkt, hprocessed]
  exact h

-- After a commit has been let through the budget has its size.
theorem newestWins_receive_iff {s : State Addr} {frame : UDPCFrame} (hcmd : frame.cmd = .mtuCommit)
    {remoteAddr : AddrPort Addr} (htaken : Taken s.session frame remoteAddr) (origPort : ℕ)
    (env : Env) : NewestWins cfg (s.receive cfg frame remoteAddr origPort env) ↔
      InOrder cfg s (.receive frame remoteAddr origPort env) := by
  have hhandled := (commit_handled_iff cfg s.session hcmd remoteAddr origPort env).2 htaken
  have hmaxPkt : (s.receive cfg frame remoteAddr origPort env).session.budget.maxPkt =
      clampCommit cfg.maxPkt (committedSize frame) :=
    (maxPkt_processIncomingFrame cfg s.session frame remoteAddr origPort env).trans
      (if_pos ⟨hcmd, hhandled⟩)
  have hprocessed : (s.receive cfg frame remoteAddr origPort env).processed =
      frame :: s.processed := if_pos ⟨hcmd, hhandled⟩
  unfold NewestWins Newest
  rw [hmaxPkt, hprocessed]
  constructor
  · intro hwins _ _ newest hmem hmax
    by_contra hout
    rw [not_or, not_lt] at hout
    refine hout.2 (hwins newest (List.mem_cons_of_mem _ hmem) ?_).symm
    intro f hf
    rcases List.mem_cons.1 hf with rfl | hf
    · exact hout.1
    · exact hmax f hf
  · intro horder newest hmem hmax
    rcases List.mem_cons.1 hmem with rfl | hmem
    · rfl
    · have hnewest : Newest s newest := fun f hf => hmax f (List.mem_cons_of_mem _ hf)
      rcases horder hcmd htaken newest hmem hnewest with hlt | heq
      · exact absurd hlt (Nat.not_lt.2 (hmax frame List.mem_cons_self))
      · exact heq.symm

-- Every other step keeps the size and the commits handled.
theorem newestWins_next_iff {s s' : State Addr} {l : Label Addr} (hs : NewestWins cfg s)
    (hst : next cfg s l = some s') : NewestWins cfg s' ↔ InOrder cfg s l := by
  cases l with
  | publish size =>
      simp only [next] at hst
      split at hst <;> cases hst <;> exact iff_of_true (hs.of_eq rfl rfl) trivial
  | sendCopy size =>
      obtain ⟨-, ⟨⟩⟩ := Option.ite_none_right_eq_some.1 hst
      obtain ⟨hsession, hprocessed⟩ :=
        session_send { s with due := s.due.erase size } (commitFrame cfg size)
      exact iff_of_true (hs.of_eq (by rw [hsession]) hprocessed) trivial
  | sendOther frame =>
      obtain ⟨-, ⟨⟩⟩ := Option.ite_none_right_eq_some.1 hst
      obtain ⟨hsession, hprocessed⟩ := session_send s frame
      exact iff_of_true (hs.of_eq (by rw [hsession]) hprocessed) trivial
  | elsewhere t =>
      cases hst
      exact iff_of_true (hs.of_eq rfl rfl) trivial
  | receive frame remoteAddr origPort env =>
      obtain ⟨-, ⟨⟩⟩ := Option.ite_none_right_eq_some.1 hst
      by_cases hcommit : frame.cmd = .mtuCommit ∧ Taken s.session frame remoteAddr
      · exact newestWins_receive_iff hcommit.1 hcommit.2 origPort env
      · have hrefused : ¬(frame.cmd = .mtuCommit ∧ (s.session.processIncomingFrame cfg frame
            remoteAddr origPort env).1 = true) := fun h =>
          hcommit ⟨h.1, (commit_handled_iff cfg s.session h.1 remoteAddr origPort env).1 h.2⟩
        refine iff_of_true (hs.of_eq ?_ (if_neg hrefused)) fun hcmd htaken =>
          absurd ⟨hcmd, htaken⟩ hcommit
        exact (maxPkt_processIncomingFrame cfg s.session frame remoteAddr origPort env).trans
          (if_neg hrefused)

theorem newestWins_of_inOrder {s : State Addr} (h : ReachableBy (system cfg home) (InOrder cfg) s) :
    NewestWins cfg s := by
  apply h.invariant
  · rintro s ⟨origPort, now, rfl⟩ newest hmem
    cases hmem
  · intro s l s' hs horder hst
    exact (newestWins_next_iff hs hst).2 horder

-- As long as commits have been let through in order the newest one is in force,
-- and it stays in force exactly if the next step keeps the order.
theorem newest_commit_wins_iff {s s' : State Addr} {l : Label Addr}
    (h : ReachableBy (system cfg home) (InOrder cfg) s) (hst : next cfg s l = some s') :
    NewestWins cfg s ∧ (NewestWins cfg s' ↔ InOrder cfg s l) := by
  have hs := newestWins_of_inOrder h
  exact ⟨hs, newestWins_next_iff hs hst⟩

-- Both copies of a commit of 1200, then one of a commit of 1450.
def sampleCommits : List (Label ℕ) :=
  [.publish 1200, .sendCopy 1200, .sendCopy 1200, .publish 1450, .sendCopy 1450]

def sampleCommit (packetNo size : ℕ) : Label ℕ :=
  .receive { commitFrame sampleConfig size with packetNo := packetNo } ⟨1, 4000⟩ 53
    (sampleEnv packetNo none)

theorem commits_in_order : ∃ s s' : State ℕ,
    (ReachableBy (system sampleConfig ⟨1, 4000⟩) (InOrder sampleConfig) s ∧
      next sampleConfig s (sampleCommit 3 1450) = some s' ∧
      InOrder sampleConfig s (sampleCommit 3 1450) ∧ s'.processed.length = 2) ∧
    NewestWins sampleConfig s' := by
  obtain ⟨s, hs, hstep⟩ := (system sampleConfig ⟨1, 4000⟩).exists_runBy (InOrder sampleConfig)
    (P := fun s => InOrder sampleConfig s (sampleCommit 3 1450) ∧
      (next sampleConfig s (sampleCommit 3 1450)).any (·.processed.length = 2) = true)
    ⟨53, 0, rfl⟩ (sampleCommits ++ [sampleCommit 1 1200]) (by decide +kernel)
  obtain ⟨s', hst, hlength⟩ := (Option.any_eq_true _ _).1 hstep.2
  exact ⟨s, s', ⟨hs, hst, hstep.1, of_decide_eq_true hlength⟩,
    (newest_commit_wins_iff hs hst).2.2 hstep.1⟩

-- The second copy of the older commit arrives after the newer commit.
theorem older_commit_replaces_newer : ∃ s : State ℕ,
    Reachable (system sampleConfig ⟨1, 4000⟩) s ∧
      s.processed.map (fun f => (f.packetNo, committedSize f)) = [(2, 1200), (3, 1450), (1, 1200)] ∧
      s.session.budget.maxPkt = 1200 ∧ ¬NewestWins sampleConfig s :=
  (system sampleConfig ⟨1, 4000⟩).exists_run ⟨53, 0, rfl⟩
    (sampleCommits ++ [sampleCommit 1 1200, sampleCommit 3 1450, sampleCommit 2 1200])
    (by decide +kernel)

end UdpCustom.Commits
