import UdpCustom.Lib.Transition
import UdpCustom.Path.Theorems

-- The addresses of one session under several receive goroutines: each check and
-- each update of them is a critical section of its own.
namespace UdpCustom.Race

open UdpCustom.Frame UdpCustom.Path Transition

-- What a goroutine does next with the record it holds. A count is the number of
-- records, rebuilt ones included, it will still offer for delivery.
inductive Stage
  | received
  | answering
  | challenging
  -- `updateRemoteAddr` after an accepted PATH_RESPONSE, for a control record,
  -- and after a record was admitted for delivery
  | validated
  | rebinding
  | moving (offers : ℕ)
  | storing (offers : ℕ)
  | offering (offers : ℕ)
  deriving DecidableEq

structure Task (Addr : Type) where
  frame : UDPCFrame
  remoteAddr : AddrPort Addr
  origPort : ℕ
  stage : Stage
  deriving DecidableEq

structure State (Addr : Type) where
  paths : Paths Addr
  tasks : List (Task Addr)

inductive Label (Addr : Type)
  | receive (frame : UDPCFrame) (remoteAddr : AddrPort Addr) (origPort : ℕ)
  | check (t : Task Addr) (rebuilt : ℕ)
  | accept (t : Task Addr) (now : ℕ)
  | challenge (t : Task Addr) (now : ℕ) (random : Option Bytes) (evict : ℕ)
  | offer (t : Task Addr) (ok : Bool)
  | update (t : Task Addr) (rebuilt : ℕ)
  | store (t : Task Addr) (now : ℕ) (scan : List ℕ)

variable {Addr : Type} [DecidableEq Addr] {limit : ℕ}

def State.drop (s : State Addr) (t : Task Addr) : State Addr :=
  { s with tasks := s.tasks.erase t }

def State.advance (s : State Addr) (t : Task Addr) (stage : Stage) : State Addr :=
  { s with tasks := { t with stage := stage } :: s.tasks.erase t }

-- The records left to offer: the goroutine goes on or is done.
def State.offerRest (s : State Addr) (t : Task Addr) : ℕ → State Addr
  | 0 => s.drop t
  | n + 1 => s.advance t (.offering n)

-- The head of `handleIncomingFrame`.
def State.check (s : State Addr) (t : Task Addr) (rebuilt : ℕ) : State Addr :=
  if s.paths.sameRemoteIP t.remoteAddr then
    if t.frame.cmd = .data then s.advance t (.offering rebuilt) else s.advance t .rebinding
  else if t.frame.cmd = .pathResponse then s.advance t .answering
  else s.advance t .challenging

def State.accept (s : State Addr) (t : Task Addr) (now : ℕ) : State Addr :=
  let accepted := s.paths.acceptPathResponse t.remoteAddr t.frame.data now
  if accepted.1 then { s with paths := accepted.2 }.advance t .validated
  else s.advance t .challenging

def State.challenge (s : State Addr) (t : Task Addr) (now : ℕ) (random : Option Bytes) (evict : ℕ) :
    State Addr :=
  { s with paths := (s.paths.sendPathChallenge t.remoteAddr now random evict).2 }.drop t

-- Parity that completes a block goes on to offer what it rebuilt.
def State.update (s : State Addr) (t : Task Addr) (rebuilt : ℕ) : Option (State Addr) :=
  match t.stage with
  | .validated =>
    some ({ s with paths := s.paths.updateRemoteAddr t.remoteAddr true }.advance t (.storing 0))
  | .rebinding =>
    some ({ s with paths := s.paths.updateRemoteAddr t.remoteAddr false }.advance t
      (.storing (if t.frame.cmd = Command.fec then rebuilt else 0)))
  | .moving offers =>
    some ({ s with paths := s.paths.updateRemoteAddr t.remoteAddr true }.advance t (.storing offers))
  | _ => none

def next (limit : ℕ) (s : State Addr) : Label Addr → Option (State Addr)
  | .receive frame remoteAddr origPort =>
    some { s with tasks := Task.mk frame remoteAddr origPort .received :: s.tasks }
  | .check t rebuilt => if t ∈ s.tasks ∧ t.stage = .received then some (s.check t rebuilt) else none
  | .accept t now => if t ∈ s.tasks ∧ t.stage = .answering then some (s.accept t now) else none
  | .challenge t now random evict =>
    if t ∈ s.tasks ∧ t.stage = .challenging then some (s.challenge t now random evict) else none
  | .offer t ok =>
    if t ∈ s.tasks then
      match t.stage with
      | .offering offers => some (if ok then s.advance t (.moving offers) else s.offerRest t offers)
      | _ => none
    else none
  | .update t rebuilt => if t ∈ s.tasks then s.update t rebuilt else none
  | .store t now scan =>
    if t ∈ s.tasks then
      match t.stage with
      | .storing offers =>
        some ({ s with
          paths := s.paths.setPath limit t.origPort t.remoteAddr now scan }.offerRest t offers)
      | _ => none
    else none

-- `limit` is the size of the pool of reply sockets.
def system (limit : ℕ) (home : AddrPort Addr) : System (State Addr) (Label Addr) where
  init := fun s => ∃ origPort now,
    s = { paths := (newPaths home origPort).setPath limit origPort home now [], tasks := [] }
  next := next limit

-- A goroutine that was let through to update the address answered a challenge
-- drawn for the address it comes from.
def Validated (s : State Addr) (t : Task Addr) : Prop :=
  t.frame.cmd = .pathResponse ∧
    ∃ c ∈ s.paths.validated, c.ip = t.remoteAddr.addr ∧ c.token = t.frame.data

-- Whoever admits a record for delivery still finds the session where it checked it.
def Undisturbed (s : State Addr) : Label Addr → Prop
  | .update t _ => ∀ offers, t.stage = .moving offers → t.remoteAddr.addr = s.paths.raddr.addr
  | _ => True

omit [DecidableEq Addr] in
theorem Validated.mono {s s' : State Addr} {t : Task Addr} (h : Validated s t)
    (hsub : s.paths.validated ⊆ s'.paths.validated) : Validated s' t := by
  obtain ⟨hcmd, c, hc, hip, htoken⟩ := h
  exact ⟨hcmd, c, hsub hc, hip, htoken⟩

-- Every goroutine past `acceptPathResponse` is there by right.
def Inv (s : State Addr) : Prop :=
  ∀ t ∈ s.tasks, (t.stage = .answering → t.frame.cmd = .pathResponse) ∧
    (t.stage = .validated → Validated s t)

inductive Step (limit : ℕ) (s : State Addr) : Label Addr → State Addr → Prop
  | receive (frame : UDPCFrame) (remoteAddr : AddrPort Addr) (origPort : ℕ) :
      Step limit s (.receive frame remoteAddr origPort)
        { s with tasks := Task.mk frame remoteAddr origPort .received :: s.tasks }
  | check {t : Task Addr} (rebuilt : ℕ) (mem : t ∈ s.tasks) (stage : t.stage = .received) :
      Step limit s (.check t rebuilt) (s.check t rebuilt)
  | accept {t : Task Addr} (now : ℕ) (mem : t ∈ s.tasks) (stage : t.stage = .answering) :
      Step limit s (.accept t now) (s.accept t now)
  | challenge {t : Task Addr} (now : ℕ) (random : Option Bytes) (evict : ℕ) (mem : t ∈ s.tasks)
      (stage : t.stage = .challenging) :
      Step limit s (.challenge t now random evict) (s.challenge t now random evict)
  | admitted {t : Task Addr} {offers : ℕ} (mem : t ∈ s.tasks) (stage : t.stage = .offering offers) :
      Step limit s (.offer t true) (s.advance t (.moving offers))
  | refused {t : Task Addr} {offers : ℕ} (mem : t ∈ s.tasks) (stage : t.stage = .offering offers) :
      Step limit s (.offer t false) (s.offerRest t offers)
  | update {t : Task Addr} {rebuilt : ℕ} {s' : State Addr} (mem : t ∈ s.tasks)
      (updated : s.update t rebuilt = some s') : Step limit s (.update t rebuilt) s'
  | store {t : Task Addr} {offers : ℕ} (now : ℕ) (scan : List ℕ) (mem : t ∈ s.tasks)
      (stage : t.stage = .storing offers) :
      Step limit s (.store t now scan)
        ({ s with
          paths := s.paths.setPath limit t.origPort t.remoteAddr now scan }.offerRest t offers)

section Steps

variable {s s' : State Addr} {t : Task Addr} {stage : Stage}

theorem step_of_next {l : Label Addr} (hst : next limit s l = some s') :
    Step limit s l s' := by
  cases l with
  | receive frame remoteAddr origPort =>
      cases hst
      exact .receive frame remoteAddr origPort
  | check t rebuilt =>
      obtain ⟨hguard, ⟨⟩⟩ := Option.ite_none_right_eq_some.1 hst
      exact .check rebuilt hguard.1 hguard.2
  | accept t now =>
      obtain ⟨hguard, ⟨⟩⟩ := Option.ite_none_right_eq_some.1 hst
      exact .accept now hguard.1 hguard.2
  | challenge t now random evict =>
      obtain ⟨hguard, ⟨⟩⟩ := Option.ite_none_right_eq_some.1 hst
      exact .challenge now random evict hguard.1 hguard.2
  | offer t ok =>
      obtain ⟨hmem, hst⟩ := Option.ite_none_right_eq_some.1 hst
      split at hst
      · rename_i hstage
        cases hst
        cases ok with
        | true => exact .admitted hmem hstage
        | false => exact .refused hmem hstage
      · cases hst
  | update t rebuilt =>
      obtain ⟨hmem, hupdated⟩ := Option.ite_none_right_eq_some.1 hst
      exact .update hmem hupdated
  | store t now scan =>
      obtain ⟨hmem, hst⟩ := Option.ite_none_right_eq_some.1 hst
      split at hst
      · rename_i hstage
        cases hst
        exact .store now scan hmem hstage
      · cases hst

theorem Inv.drop (h : Inv s) (htasks : s'.tasks = s.tasks.erase t)
    (hsub : s.paths.validated ⊆ s'.paths.validated) : Inv s' := by
  intro t' ht'
  rw [htasks] at ht'
  obtain ⟨hans, hval⟩ := h t' (List.mem_of_mem_erase ht')
  exact ⟨hans, fun hstage => (hval hstage).mono hsub⟩

-- A task that moves on only has to account for where it arrives.
theorem Inv.advance (h : Inv s) (htasks : s'.tasks = { t with stage := stage } :: s.tasks.erase t)
    (hsub : s.paths.validated ⊆ s'.paths.validated)
    (hanswering : stage = .answering → t.frame.cmd = .pathResponse)
    (hvalidated : stage = .validated → Validated s' t) : Inv s' := by
  intro t' ht'
  rw [htasks] at ht'
  rcases List.mem_cons.1 ht' with rfl | hold
  · exact ⟨hanswering, hvalidated⟩
  · obtain ⟨hans, hval⟩ := h t' (List.mem_of_mem_erase hold)
    exact ⟨hans, fun hstage => (hval hstage).mono hsub⟩

theorem Inv.advance_plain (h : Inv s)
    (htasks : s'.tasks = { t with stage := stage } :: s.tasks.erase t)
    (hsub : s.paths.validated ⊆ s'.paths.validated)
    (hplain : stage ≠ .answering ∧ stage ≠ .validated) : Inv s' :=
  h.advance htasks hsub (fun he => absurd he hplain.1) fun he => absurd he hplain.2

theorem Inv.offerRest (h : Inv s) (offers : ℕ) : Inv (s.offerRest t offers) := by
  cases offers with
  | zero => exact h.drop rfl (List.Subset.refl _)
  | succ n => exact h.advance_plain rfl (List.Subset.refl _) ⟨by simp, by simp⟩

theorem Inv.check (h : Inv s) (rebuilt : ℕ) : Inv (s.check t rebuilt) := by
  unfold State.check
  split_ifs with hsame hdata hresponse
  · exact h.advance_plain rfl (List.Subset.refl _) ⟨by simp, by simp⟩
  · exact h.advance_plain rfl (List.Subset.refl _) ⟨by simp, by simp⟩
  · exact h.advance rfl (List.Subset.refl _) (fun _ => hresponse) fun he => by cases he
  · exact h.advance_plain rfl (List.Subset.refl _) ⟨by simp, by simp⟩

theorem Inv.accept (h : Inv s) (ht : t ∈ s.tasks) (hstage : t.stage = .answering) (now : ℕ) :
    Inv (s.accept t now) := by
  have hcmd := (h t ht).1 hstage
  unfold State.accept Paths.acceptPathResponse
  cases hc : s.paths.answered t.remoteAddr t.frame.data now with
  | none => exact h.advance_plain rfl (List.Subset.refl _) ⟨by simp, by simp⟩
  | some c =>
      obtain ⟨-, hip, htoken, -⟩ := answered_some hc
      refine h.advance rfl (List.subset_cons_self c _) (fun he => by cases he) fun _ => ?_
      exact ⟨hcmd, c, List.mem_cons_self, hip, htoken.symm⟩

theorem validated_updateRemoteAddr (p : Paths Addr) (addr : AddrPort Addr) (allow : Bool) :
    (p.updateRemoteAddr addr allow).validated = p.validated := by
  unfold Paths.updateRemoteAddr
  split_ifs <;> rfl

theorem Inv.update (h : Inv s) {rebuilt : ℕ} (hst : s.update t rebuilt = some s') : Inv s' := by
  have hsub : ∀ allow, s.paths.validated ⊆
      (s.paths.updateRemoteAddr t.remoteAddr allow).validated := by
    intro allow
    rw [validated_updateRemoteAddr]
    exact List.Subset.refl _
  unfold State.update at hst
  split at hst
  · cases hst
    exact h.advance_plain rfl (hsub true) ⟨by simp, by simp⟩
  · cases hst
    exact h.advance_plain rfl (hsub false) ⟨by simp, by simp⟩
  · cases hst
    exact h.advance_plain rfl (hsub true) ⟨by simp, by simp⟩
  · cases hst

theorem Inv.step {l : Label Addr} (h : Inv s) (hst : Step limit s l s') : Inv s' := by
  cases hst with
  | receive frame remoteAddr origPort =>
      intro t' ht'
      rcases List.mem_cons.1 ht' with rfl | hold
      · exact ⟨(nomatch ·), (nomatch ·)⟩
      · exact h t' hold
  | check rebuilt _ _ => exact h.check rebuilt
  | accept now ht hstage => exact h.accept ht hstage now
  | @challenge t now random evict _ _ =>
      refine h.drop rfl ?_
      obtain ⟨challenges, issued, heq⟩ :=
        paths_sendPathChallenge s.paths t.remoteAddr now random evict
      dsimp only [State.challenge, State.drop]
      rw [heq]
      exact List.Subset.refl _
  | admitted _ _ => exact h.advance_plain rfl (List.Subset.refl _) ⟨by simp, by simp⟩
  | refused _ _ => exact h.offerRest _
  | update _ hupdated => exact h.update hupdated
  | store now scan _ _ =>
      refine Inv.offerRest (fun t' ht' => ?_) _
      obtain ⟨hans, hval⟩ := h t' ht'
      refine ⟨hans, fun hstage => (hval hstage).mono ?_⟩
      rw [validated_setPath]
      exact List.Subset.refl _

omit [DecidableEq Addr] in
theorem raddr_offerRest [DecidableEq Addr] (s : State Addr) (t : Task Addr) (offers : ℕ) :
    (s.offerRest t offers).paths = s.paths := by
  cases offers <;> rfl

-- Checks, answers, challenges and stored paths all leave the address alone.
theorem raddr_step {l : Label Addr} (hst : Step limit s l s') :
    (Undisturbed s l ∧ s'.paths.raddr = s.paths.raddr) ∨
      ∃ t rebuilt, l = .update t rebuilt ∧ t ∈ s.tasks ∧ s.update t rebuilt = some s' := by
  cases hst with
  | receive frame remoteAddr origPort => exact .inl ⟨trivial, rfl⟩
  | check rebuilt _ _ =>
      unfold State.check
      split_ifs <;> exact .inl ⟨trivial, rfl⟩
  | @accept t now _ _ =>
      unfold State.accept Paths.acceptPathResponse
      cases s.paths.answered t.remoteAddr t.frame.data now <;> exact .inl ⟨trivial, rfl⟩
  | @challenge t now random evict _ _ =>
      obtain ⟨challenges, issued, heq⟩ :=
        paths_sendPathChallenge s.paths t.remoteAddr now random evict
      dsimp only [State.challenge, State.drop]
      rw [heq]
      exact .inl ⟨trivial, rfl⟩
  | admitted _ _ => exact .inl ⟨trivial, rfl⟩
  | refused _ _ =>
      rw [raddr_offerRest]
      exact .inl ⟨trivial, rfl⟩
  | @update t rebuilt _ ht hupdated => exact .inr ⟨t, rebuilt, rfl, ht, hupdated⟩
  | store now scan _ _ =>
      rw [raddr_offerRest]
      exact .inl ⟨trivial, raddr_setPath _ _ _ _ _ _⟩

-- What an update does to the IP depends on the permission it comes with.
theorem addr_update {rebuilt : ℕ} (hst : s.update t rebuilt = some s') :
    (t.stage = .validated ∧ s'.paths.raddr.addr = t.remoteAddr.addr) ∨
    (t.stage = .rebinding ∧ s'.paths.raddr.addr = s.paths.raddr.addr) ∨
    ∃ offers, t.stage = .moving offers ∧ s'.paths.raddr.addr = t.remoteAddr.addr := by
  unfold State.update at hst
  split at hst
  · rename_i hstage
    cases hst
    exact .inl ⟨hstage, addr_updateRemoteAddr_true _ _⟩
  · rename_i hstage
    cases hst
    exact .inr (.inl ⟨hstage, addr_updateRemoteAddr_false _ _⟩)
  · rename_i offers hstage
    cases hst
    exact .inr (.inr ⟨offers, hstage, addr_updateRemoteAddr_true _ _⟩)
  · cases hst

end Steps

theorem inv_of_reachable {home : AddrPort Addr} {s : State Addr}
    (h : Reachable (system limit home) s) : Inv s := by
  apply h.invariant
  · rintro s ⟨origPort, now, rfl⟩ t ht
    cases ht
  · intro s l s' hinv _ hst
    exact hinv.step (step_of_next hst)

-- A step moves the session to another IP only as the update of an accepted
-- PATH_RESPONSE from there: exactly if no goroutine that admitted a record finds
-- the session moved in the meantime.
theorem migration_kept_iff {limit : ℕ} {home : AddrPort Addr} {s s' : State Addr} {l : Label Addr}
    (h : Reachable (system limit home) s) (hst : next limit s l = some s') :
    (s'.paths.raddr.addr ≠ s.paths.raddr.addr →
      ∃ t rebuilt, l = .update t rebuilt ∧ t.stage = .validated ∧ Validated s t ∧
        s'.paths.raddr.addr = t.remoteAddr.addr) ↔ Undisturbed s l := by
  have hinv := inv_of_reachable h
  rcases raddr_step (step_of_next hst) with ⟨hcalm, hsame⟩ | ⟨t, rebuilt, rfl, ht, hupdate⟩
  · exact ⟨fun _ => hcalm, fun _ hmoved => absurd (congrArg _ hsame) hmoved⟩
  · rcases addr_update hupdate with ⟨hstage, haddr⟩ | ⟨hstage, haddr⟩ | ⟨offers, hstage, haddr⟩
    · constructor
      · intro _ offers hmoving
        rw [hstage] at hmoving
        cases hmoving
      · intro _ _
        exact ⟨t, rebuilt, rfl, hstage, (hinv t ht).2 hstage, haddr⟩
    · constructor
      · intro _ offers hmoving
        rw [hstage] at hmoving
        cases hmoving
      · intro _ hmoved
        exact absurd haddr hmoved
    · constructor
      · intro honly _ _
        by_contra hdiff
        obtain ⟨t', rebuilt', he, hvalidated, -⟩ := honly (haddr ▸ hdiff)
        obtain ⟨rfl, -⟩ := Label.update.inj he
        rw [hstage] at hvalidated
        cases hvalidated
      · intro hcalm hmoved
        exact absurd (haddr.trans (hcalm offers hstage)) hmoved

def sampleTask (cmd : Command) (data : Bytes) (ip : ℕ) (stage : Stage) : Task ℕ where
  frame :=
    { magic := 1, version := udpcVersion, cmd := cmd, flags := 0, sessionID := 7, packetNo := 1,
      seq := 0, ack := 0, windowSize := 0, data := data }
  remoteAddr := ⟨ip, 4000⟩
  origPort := 53
  stage := stage

def sampleToken : Bytes := List.replicate pathChallengeSize 9

-- A DATA record from the first address passes its check, then the second address
-- is challenged and answers.
def sampleRun : List (Label ℕ) :=
  let data := sampleTask .data [1] 1
  let ping := sampleTask .ping [] 2
  let response := sampleTask .pathResponse sampleToken 2
  [.receive (data .received).frame ⟨1, 4000⟩ 53, .check (data .received) 0,
    .receive (ping .received).frame ⟨2, 4000⟩ 53, .check (ping .received) 0,
    .challenge (ping .challenging) 10 (some sampleToken) 0,
    .receive (response .received).frame ⟨2, 4000⟩ 53, .check (response .received) 0,
    .accept (response .answering) 20]

theorem accepted_response_migrates : ∃ s s', (Reachable (system 512 ⟨1, 4000⟩) s ∧
    next 512 s (.update (sampleTask .pathResponse sampleToken 2 .validated) 0) = some s' ∧
    s.paths.raddr.addr = 1 ∧ s'.paths.raddr.addr = 2) ∧
    Undisturbed s (.update (sampleTask .pathResponse sampleToken 2 .validated) 0) := by
  obtain ⟨s, hs, haddr, ht⟩ := (system 512 ⟨1, 4000⟩).exists_run
    (P := fun s => s.paths.raddr.addr = 1 ∧
      sampleTask .pathResponse sampleToken 2 .validated ∈ s.tasks)
    ⟨53, 0, rfl⟩ sampleRun (by decide +kernel)
  have hst : next 512 s (.update (sampleTask .pathResponse sampleToken 2 .validated) 0) = some _ :=
    if_pos ht
  refine ⟨s, _, ⟨hs, hst, haddr, addr_updateRemoteAddr_true _ _⟩,
    (migration_kept_iff hs hst).1 fun _ => ?_⟩
  refine ⟨_, 0, rfl, rfl, (inv_of_reachable hs _ ht).2 rfl, addr_updateRemoteAddr_true _ _⟩

-- The record that was checked before the migration undoes it.
theorem late_data_undoes_migration : ∃ s s', Reachable (system 512 ⟨1, 4000⟩) s ∧
    s.paths.raddr.addr = 2 ∧
    next 512 s (.update (sampleTask .data [1] 1 (.moving 0)) 0) = some s' ∧
    s'.paths.raddr.addr = 1 := by
  obtain ⟨s, hs, haddr, ht⟩ := (system 512 ⟨1, 4000⟩).exists_run
    (P := fun s => s.paths.raddr.addr = 2 ∧ sampleTask .data [1] 1 (.moving 0) ∈ s.tasks)
    ⟨53, 0, rfl⟩
    (sampleRun ++ [.update (sampleTask .pathResponse sampleToken 2 .validated) 0,
      .store (sampleTask .pathResponse sampleToken 2 (.storing 0)) 20 [],
      .offer (sampleTask .data [1] 1 (.offering 0)) true])
    (by decide +kernel)
  exact ⟨s, _, hs, haddr, if_pos ht, addr_updateRemoteAddr_true _ _⟩

end UdpCustom.Race
