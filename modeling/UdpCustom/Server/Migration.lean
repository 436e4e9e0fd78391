import UdpCustom.Link.Stream
import UdpCustom.Server.Theorems

-- Where a session may be moved to, when records are handled one at a time.
namespace UdpCustom.Server

open UdpCustom.Frame UdpCustom.Path Transition

variable {Addr : Type} [DecidableEq Addr] {cfg : Config} {home : AddrPort Addr} {p p' : Paths Addr}

-- A challenge is open as long as it was drawn more often than it was answered.
def Open (p : Paths Addr) (c : PathChallenge Addr) : Prop :=
  p.validated.count c < p.issued.count c

-- The step is a PATH_RESPONSE that answers `c`: it comes from the address the
-- challenge was drawn for and carries its token in time.
def Validates (s : Session Addr) (l : Label Addr) (c : PathChallenge Addr) : Prop :=
  ∃ frame remoteAddr origPort env, l = .receive frame remoteAddr origPort env ∧
    frame.cmd = .pathResponse ∧ c.ip = remoteAddr.addr ∧ frame.data = c.token ∧
    env.now ≤ c.expires ∧ Open s.paths c

-- The handshake's address, or one whose challenge was answered.
def Known (home : AddrPort Addr) (p : Paths Addr) (ip : Addr) : Prop :=
  ip = home.addr ∨ ∃ c ∈ p.validated, c.ip = ip

structure Sound (home : AddrPort Addr) (p : Paths Addr) : Prop where
  accounted : ∀ c, p.pathChallenges.count c + p.validated.count c ≤ p.issued.count c
  raddr : Known home p p.raddr.addr
  pathAddrs : ∀ port pe, p.pathAddrs.lookup port = some pe → Known home p pe.addr.addr

omit [DecidableEq Addr] in
theorem Known.mono {ip : Addr} (h : Known home p ip)
    (hsub : p.validated ⊆ p'.validated) : Known home p' ip := by
  rcases h with hhome | ⟨c, hc, hip⟩
  · exact .inl hhome
  · exact .inr ⟨c, hsub hc, hip⟩

theorem Sound.stays (h : Sound home p) (hstays : p.Stays p') : Sound home p' := by
  have hsub : p.validated ⊆ p'.validated := by rw [hstays.validated]; exact List.Subset.refl _
  refine ⟨?_, hstays.addr ▸ h.raddr.mono hsub, ?_⟩
  · intro c
    rw [hstays.pathChallenges, hstays.validated, hstays.issued]
    exact h.accounted c
  · intro port pe hpe
    rcases hstays.pathAddrs port pe hpe with hold | hown
    · exact (h.pathAddrs port pe hold).mono hsub
    · exact hown ▸ h.raddr.mono hsub

theorem Sound.is_open {p : Paths Addr} (h : Sound home p) {c : PathChallenge Addr}
    (hc : c ∈ p.pathChallenges) : Open p c := by
  have hpos := List.count_pos_iff.2 hc
  have hle := h.accounted c
  unfold Open
  omega

-- Drawing a challenge files one more copy of it, and everything it evicts on
-- the way only leaves room.
theorem Sound.sendPathChallenge {p : Paths Addr} (h : Sound home p) (remoteAddr : AddrPort Addr)
    (now : ℕ) (random : Option Bytes) (evict : ℕ) :
    Sound home (p.sendPathChallenge remoteAddr now random evict).2 := by
  set live := p.pathChallenges.filter fun c => now ≤ c.expires with hlive
  have hle : ∀ c, live.count c ≤ p.pathChallenges.count c := fun c =>
    List.filter_sublist.count_le c
  have hpurged : Sound home { p with pathChallenges := live } := by
    refine ⟨fun c => ?_, h.raddr, h.pathAddrs⟩
    exact (Nat.add_le_add_right (hle c) _).trans (h.accounted c)
  unfold Paths.sendPathChallenge
  dsimp only
  rw [← hlive]
  split
  · exact hpurged
  · split
    · exact hpurged
    · refine ⟨?_, h.raddr, h.pathAddrs⟩
      intro c
      have hkept : (if maxPathChallenges ≤ live.length then live.eraseIdx (evict % live.length)
          else live).count c ≤ p.pathChallenges.count c := by
        split
        · exact ((List.eraseIdx_sublist live _).count_le c).trans (hle c)
        · exact hle c
      have hacc := h.accounted c
      dsimp only
      rw [List.count_cons, List.count_cons]
      omega

-- An answer spends the challenge and lets the session move.
theorem Sound.accept {p : Paths Addr} (h : Sound home p) {remoteAddr : AddrPort Addr} {data : Bytes}
    {now : ℕ} {c : PathChallenge Addr} (hc : p.answered remoteAddr data now = some c)
    (limit origPort : ℕ) (scan : List ℕ) :
    Sound home (((p.acceptPathResponse remoteAddr data now).2.updateRemoteAddr remoteAddr true).setPath
      limit origPort remoteAddr now scan) := by
  obtain ⟨hmem, hip, -, -⟩ := answered_some hc
  set q := (p.acceptPathResponse remoteAddr data now).2 with hq
  have hq : q = { p with
      pathChallenges := p.pathChallenges.filter fun c => c.ip ≠ remoteAddr.addr
      validated := c :: p.validated } := by
    rw [hq, Paths.acceptPathResponse, hc]
  have hknown : Known home q remoteAddr.addr := by
    rw [hq]
    exact .inr ⟨c, List.mem_cons_self, hip⟩
  have hold : ∀ ip, Known home p ip → Known home q ip := by
    intro ip hk
    rw [hq]
    exact hk.mono (List.subset_cons_self c p.validated)
  have hspent : ∀ d, q.pathChallenges.count d + q.validated.count d ≤ q.issued.count d := by
    intro d
    have hacc := h.accounted d
    have hfilter : (p.pathChallenges.filter fun c => c.ip ≠ remoteAddr.addr).count d ≤
        p.pathChallenges.count d := List.filter_sublist.count_le d
    rw [hq]
    dsimp only
    rw [List.count_cons]
    split
    · rename_i hd
      -- the copy that was answered is no longer filed
      obtain rfl := eq_of_beq hd
      have hgone : (p.pathChallenges.filter fun c => c.ip ≠ remoteAddr.addr).count c = 0 := by
        rw [List.count_eq_zero]
        simp [hip]
      have hpos := List.count_pos_iff.2 hmem
      omega
    · omega
  have hmoved : Sound home (q.updateRemoteAddr remoteAddr true) := by
    unfold Paths.updateRemoteAddr
    split_ifs with heq hne
    · exact ⟨hspent, heq ▸ hknown, fun port pe hpe => hold _ (h.pathAddrs port pe (by rwa [hq] at hpe))⟩
    · cases hne.2
    · exact ⟨hspent, hknown, fun port pe hpe => hold _ (h.pathAddrs port pe (by rwa [hq] at hpe))⟩
  exact hmoved.stays (stays_setPath (addr_updateRemoteAddr_true q remoteAddr) _ _ _ _)

-- A control record sent to the challenged path takes nothing else with it.
theorem paths_challenge (s : Session Addr) (remoteAddr : AddrPort Addr) (origPort : ℕ) (env : Env) :
    (s.challenge cfg remoteAddr origPort env).paths =
      (s.paths.sendPathChallenge remoteAddr env.now env.random env.evict).2 := by
  unfold Session.challenge
  dsimp only
  split
  · rfl
  · unfold Session.sendControl Session.close
    dsimp only
    split_ifs <;> rfl

-- What a record does to the paths: it stays on the known one, it answers a
-- challenge, or it is challenged itself.
inductive Effect (cfg : Config) (p : Paths Addr) (frame : UDPCFrame) (remoteAddr : AddrPort Addr)
    (origPort : ℕ) (env : Env) : Paths Addr → Prop
  | stays {p' : Paths Addr} : p.Stays p' → Effect cfg p frame remoteAddr origPort env p'
  | answers {c : PathChallenge Addr} : frame.cmd = .pathResponse →
      p.answered remoteAddr frame.data env.now = some c →
      Effect cfg p frame remoteAddr origPort env
        (((p.acceptPathResponse remoteAddr frame.data env.now).2.updateRemoteAddr remoteAddr
          true).setPath cfg.sendSockMax origPort remoteAddr env.now env.pathScan)
  | challenged : Effect cfg p frame remoteAddr origPort env
      (p.sendPathChallenge remoteAddr env.now env.random env.evict).2

theorem effect_handleIncomingFrame (cfg : Config) (s : Session Addr) (frame : UDPCFrame)
    (remoteAddr : AddrPort Addr) (origPort : ℕ) (env : Env) :
    Effect cfg s.paths frame remoteAddr origPort env
      (s.handleIncomingFrame cfg frame remoteAddr origPort env).2.paths := by
  by_cases hsame : s.paths.raddr.addr = remoteAddr.addr
  · exact .stays (handleIncomingFrame_known cfg hsame frame origPort env).1.paths
  · unfold Session.handleIncomingFrame
    rw [if_pos (by simpa [Paths.sameRemoteIP] using hsame)]
    dsimp only
    split
    · rename_i haccept
      cases hc : s.paths.answered remoteAddr frame.data env.now with
      | none => simp [Paths.acceptPathResponse, hc] at haccept
      | some c => exact .answers haccept.1 hc
    · rw [paths_challenge]
      exact .challenged

theorem effect_processIncomingFrame (cfg : Config) (s : Session Addr) (frame : UDPCFrame)
    (remoteAddr : AddrPort Addr) (origPort : ℕ) (env : Env) :
    Effect cfg s.paths frame remoteAddr origPort env
      (s.processIncomingFrame cfg frame remoteAddr origPort env).2.paths := by
  have hways := processIncomingFrame_cases cfg s frame remoteAddr origPort env
  have hscreened : Effect cfg s.paths frame remoteAddr origPort env
      ((s.screened frame).handleIncomingFrame cfg frame remoteAddr origPort env).2.paths :=
    effect_handleIncomingFrame cfg (s.screened frame) frame remoteAddr origPort env
  generalize s.processIncomingFrame cfg frame remoteAddr origPort env = r at hways ⊢
  cases hways with
  | discarded _ | replayed _ => exact .stays (.refl _)
  | reacked _ _ =>
      exact .stays (kept_reackDuplicateData cfg
        { s with replayFilter := (s.replayFilter.accept frame.packetNo).2 } env).paths
  | handled _ _ | withdrawn _ _ _ | refused _ _ _ => exact hscreened

theorem Sound.effect (h : Sound home p) {frame : UDPCFrame}
    {remoteAddr : AddrPort Addr} {origPort : ℕ} {env : Env}
    (heffect : Effect cfg p frame remoteAddr origPort env p') : Sound home p' := by
  cases heffect with
  | stays hstays => exact h.stays hstays
  | answers _ hc => exact h.accept hc _ _ _
  | challenged => exact h.sendPathChallenge _ _ _ _

theorem sound_of_reachable {s : Session Addr} (h : Reachable (system cfg home) s) :
    Sound home s.paths := by
  apply h.invariant
  · rintro s ⟨origPort, now, rfl⟩
    have hnew : Sound home (newPaths home origPort) :=
      ⟨fun _ => Nat.le_refl 0, .inl rfl, fun _ _ hpe => by cases hpe⟩
    exact hnew.stays (stays_setPath rfl _ _ _ _)
  · intro s l s' hs _ hst
    cases l with
    | receive frame remoteAddr origPort env =>
        cases hst
        exact hs.effect (effect_processIncomingFrame cfg s frame remoteAddr origPort env)
    | elsewhere t =>
        cases hst
        exact ⟨hs.accounted, hs.raddr, hs.pathAddrs⟩

-- One step of a sound session: whatever it validates is a challenge answered in
-- time, and without that the address keeps its IP.
theorem step_validates {s s' : Session Addr} {l : Label Addr} (hs : Sound home s.paths)
    (hst : next cfg s l = some s') :
    (s'.paths.raddr.addr = s.paths.raddr.addr ∧ s'.paths.validated = s.paths.validated) ∨
    ∃ c, Validates s l c ∧ s'.paths.raddr.addr = c.ip ∧
      s'.paths.validated = c :: s.paths.validated := by
  cases l with
  | elsewhere t =>
      cases hst
      exact .inl ⟨rfl, rfl⟩
  | receive frame remoteAddr origPort env =>
      cases hst
      have heffect := effect_processIncomingFrame cfg s frame remoteAddr origPort env
      generalize (s.processIncomingFrame cfg frame remoteAddr origPort env).2.paths = p' at heffect ⊢
      cases heffect with
      | stays hstays => exact .inl ⟨hstays.addr, hstays.validated⟩
      | challenged =>
          refine .inl ?_
          unfold Paths.sendPathChallenge
          dsimp only
          split
          · exact ⟨rfl, rfl⟩
          · split <;> exact ⟨rfl, rfl⟩
      | @answers c hcmd hc =>
          obtain ⟨hmem, hip, htoken, hlive⟩ := answered_some hc
          refine .inr ⟨c, ⟨frame, remoteAddr, origPort, env, rfl, hcmd, hip, htoken, hlive,
            hs.is_open hmem⟩, ?_, ?_⟩
          · rw [raddr_setPath, addr_updateRemoteAddr_true, hip]
          · rw [validated_setPath, Paths.acceptPathResponse, hc]
            unfold Paths.updateRemoteAddr
            dsimp only
            split_ifs <;> rfl

-- The session moves to another IP only on an answer to an open challenge drawn
-- for it, and every stored path belongs to the handshake's address or to one
-- that gave such an answer.
theorem migration_validated {s : Session Addr} (h : Reachable (system cfg home) s) :
    (∀ l s', next cfg s l = some s' → s'.paths.raddr.addr ≠ s.paths.raddr.addr →
      ∃ c, Validates s l c ∧ c.ip = s'.paths.raddr.addr) ∧
    (∀ l s', next cfg s l = some s' → ∀ c ∈ s'.paths.validated,
      c ∈ s.paths.validated ∨ Validates s l c) ∧
    ∀ port pe, s.paths.pathAddrs.lookup port = some pe → Known home s.paths pe.addr.addr := by
  have hsound := sound_of_reachable h
  refine ⟨?_, ?_, hsound.pathAddrs⟩
  · intro l s' hst hmoved
    rcases step_validates hsound hst with ⟨hsame, -⟩ | ⟨c, hval, hip, -⟩
    · exact absurd hsame hmoved
    · exact ⟨c, hval, hip.symm⟩
  · intro l s' hst c hc
    rcases step_validates hsound hst with ⟨-, hsame⟩ | ⟨d, hval, -, hnew⟩
    · exact .inl (hsame ▸ hc)
    · rw [hnew] at hc
      rcases List.mem_cons.1 hc with rfl | hold
      · exact .inr hval
      · exact .inl hold

def sampleConfig : Config where
  toConfig := Link.sampleConfig
  maxPkt := .ceiling
  mtuProbe := true
  sendSockMax := 512
  maxRecvQueue := 512

def sampleEnv (now : ℕ) (random : Option Bytes) : Env where
  now := now
  stalled := false
  random := random
  evict := 0
  pathScan := []
  blockScan := []
  blockEvict := []

def sampleToken : Bytes := List.replicate pathChallengeSize 9

-- A keepalive from a new address is challenged, and the answer moves the session.
theorem answered_challenge_moves : ∃ s, (Reachable (system sampleConfig ⟨1, 4000⟩) s ∧
    s.paths.raddr.addr = 2 ∧ (s.paths.pathAddrs.lookup 53).isSome = true) ∧
    ∀ port pe, s.paths.pathAddrs.lookup port = some pe → Known ⟨1, 4000⟩ s.paths pe.addr.addr := by
  obtain ⟨s, hs, hmoved⟩ := (system sampleConfig ⟨1, 4000⟩).exists_run
    (P := fun s => s.paths.raddr.addr = 2 ∧ (s.paths.pathAddrs.lookup 53).isSome = true)
    ⟨53, 0, rfl⟩
    [.receive { controlFrame sampleConfig .ping 0 [] with packetNo := 1 } ⟨2, 4000⟩ 53
        (sampleEnv 10 (some sampleToken)),
      .receive { controlFrame sampleConfig .pathResponse 0 sampleToken with packetNo := 2 } ⟨2, 4000⟩
        53 (sampleEnv 20 none)]
    (by decide +kernel)
  exact ⟨s, ⟨hs, hmoved⟩, (migration_validated hs).2.2⟩

end UdpCustom.Server
