import UdpCustom.Receive
import UdpCustom.Lib.Bag
import UdpCustom.Frame.Theorems
import UdpCustom.Replay.Theorems

namespace UdpCustom.Receive

open UdpCustom.Frame UdpCustom.Seal UdpCustom.Replay Transition

variable {Session Key : Type} [DecidableEq Session] [DecidableEq Key] {s : State Session}
  {t : Task Session} {cfg : Config Session Key}

-- `f` is, field by field, a record the peer of `session` sealed for it.
def Authentic (cfg : Config Session Key) (s : State Session) (session : Session)
    (f : UDPCFrame) : Prop :=
  ∃ r ∈ s.sealedLog, r.session = session ∧ r.dir = cfg.role.inbound ∧ f.cmd = r.frame.cmd ∧
    f.flags = r.frame.flags ∧ f.sessionID = r.frame.sessionID ∧ f.packetNo = r.frame.packetNo ∧
    f.seq = r.frame.seq ∧ f.ack = r.frame.ack ∧ f.windowSize = r.frame.windowSize ∧
    f.data = r.plaintext

omit [DecidableEq Session] [DecidableEq Key] in
theorem Authentic.mono {s s' : State Session} {session : Session}
    {f : UDPCFrame} (h : Authentic cfg s session f) (hlog : s.sealedLog ⊆ s'.sealedLog) :
    Authentic cfg s' session f := by
  obtain ⟨r, hr, hrest⟩ := h
  exact ⟨r, hlog hr, hrest⟩

omit [DecidableEq Session] in
-- Whatever passes shape and authentication is a record of the peer: the header
-- is the associated data, so it fixes every field the receiver reads.
theorem inspect_authentic {wire : Bytes}
    {session : Session} {f : UDPCFrame} (hfits : ∀ r ∈ s.sealedLog, r.frame.Fits)
    (h : inspect cfg s wire = some (session, f)) : Authentic cfg s session f := by
  simp only [inspect, Option.bind_eq_bind, Option.bind_eq_some_iff, Option.pure_def] at h
  obtain ⟨frame, hparse, -, -, -, -, loaded, -, -, -, -, -, plaintext, hopen, he⟩ := h
  obtain ⟨rfl, rfl⟩ := Prod.mk.inj (Option.some.inj he)
  have hok : parseUDPCFrame wire cfg.magic = .ok frame := by
    cases hp : parseUDPCFrame wire cfg.magic <;> simp_all [Except.toOption]
  obtain ⟨r, hr, hkey, hheader, hplain⟩ := openFrameAEAD_some _ _ hopen
  obtain ⟨hses, hdir⟩ := cfg.keys.injective _ _ _ _ hkey
  obtain ⟨-, -, hcmd, hflags, hsid, hno, hseq, hack, hwin⟩ :=
    parse_header_eq hok (hfits r hr) hheader
  exact ⟨r, hr, hses, hdir, hcmd, hflags, hsid, hno, hseq, hack, hwin, hplain.symm⟩

structure AuthenticInv (cfg : Config Session Key) (s : State Session) : Prop where
  fits : ∀ r ∈ s.sealedLog, r.frame.Fits
  tasks : ∀ t ∈ s.tasks, Authentic cfg s t.session t.frame
  reacked : ∀ p ∈ s.reacked, Authentic cfg s p.1 p.2
  processed : ∀ p ∈ s.processed, Authentic cfg s p.1 p.2
  admitted : ∀ p ∈ s.admitted, Authentic cfg s p.1 p.2

omit [DecidableEq Session] [DecidableEq Key] in
-- Steps that seal nothing only move frames that were authentic before.
theorem AuthenticInv.moved {s s' : State Session}
    (hinv : AuthenticInv cfg s) (hlog : s'.sealedLog = s.sealedLog)
    (htasks : ∀ t ∈ s'.tasks, Authentic cfg s t.session t.frame)
    (hreacked : ∀ p ∈ s'.reacked, Authentic cfg s p.1 p.2)
    (hprocessed : ∀ p ∈ s'.processed, Authentic cfg s p.1 p.2)
    (hadmitted : ∀ p ∈ s'.admitted, Authentic cfg s p.1 p.2) : AuthenticInv cfg s' := by
  have hsub : s.sealedLog ⊆ s'.sealedLog := by rw [hlog]; exact List.Subset.refl _
  refine ⟨?_, fun t ht => (htasks t ht).mono hsub, fun p hp => (hreacked p hp).mono hsub,
    fun p hp => (hprocessed p hp).mono hsub, fun p hp => (hadmitted p hp).mono hsub⟩
  rw [hlog]
  exact hinv.fits

theorem authentic_step {s s' : State Session} {l : Label Session}
    (hinv : AuthenticInv cfg s) (hst : next cfg s l = some s') : AuthenticInv cfg s' := by
  have herase : ∀ t u, u ∈ s.tasks.erase t → Authentic cfg s u.session u.frame :=
    fun t u hu => hinv.tasks u (List.mem_of_mem_erase hu)
  cases l with
  | sealRecord r =>
      simp only [next] at hst
      split_ifs at hst with hr
      cases hst
      have hsub : s.sealedLog ⊆ r :: s.sealedLog := List.subset_cons_self _ _
      refine ⟨?_, fun t ht => (hinv.tasks t ht).mono hsub,
        fun p hp => (hinv.reacked p hp).mono hsub, fun p hp => (hinv.processed p hp).mono hsub,
        fun p hp => (hinv.admitted p hp).mono hsub⟩
      intro x hx
      rcases List.mem_cons.1 hx with rfl | hx
      · exact hr.1
      · exact hinv.fits x hx
  | store sid session =>
      cases hst
      exact hinv.moved rfl hinv.tasks hinv.reacked hinv.processed hinv.admitted
  | receive wire =>
      simp only [next] at hst
      split at hst
      · cases hst
        exact hinv
      · rename_i session frame hin
        cases hst
        refine hinv.moved rfl ?_ hinv.reacked hinv.processed hinv.admitted
        intro t ht
        rcases List.mem_cons.1 ht with rfl | ht
        · exact inspect_authentic hinv.fits hin
        · exact hinv.tasks t ht
  | accept t =>
      simp only [next] at hst
      split_ifs at hst with ht
      cases hst
      have hauth := hinv.tasks t ht.1
      unfold acceptTask setFilter
      dsimp only
      split_ifs
      · refine hinv.moved rfl ?_ hinv.reacked ?_ hinv.admitted
        · intro u hu
          rcases List.mem_cons.1 hu with rfl | hu
          · exact hauth
          · exact herase t u hu
        · intro p hp
          rcases List.mem_cons.1 hp with rfl | hp
          · exact hauth
          · exact hinv.processed p hp
      · refine hinv.moved rfl (herase t) ?_ hinv.processed hinv.admitted
        intro p hp
        rcases List.mem_cons.1 hp with rfl | hp
        · exact hauth
        · exact hinv.reacked p hp
      · exact hinv.moved rfl (herase t) hinv.reacked hinv.processed hinv.admitted
  | handle t kept =>
      simp only [next] at hst
      split_ifs at hst with ht
      cases hst
      have hauth := hinv.tasks t ht.1
      unfold handleTask
      dsimp only
      split_ifs
      · refine hinv.moved rfl (herase t) hinv.reacked hinv.processed ?_
        intro p hp
        rcases List.mem_cons.1 hp with rfl | hp
        · exact hauth
        · exact hinv.admitted p hp
      · refine hinv.moved rfl ?_ hinv.reacked hinv.processed hinv.admitted
        intro u hu
        rcases List.mem_cons.1 hu with rfl | hu
        · exact hauth
        · exact herase t u hu
      · exact hinv.moved rfl (herase t) hinv.reacked hinv.processed hinv.admitted
  | remove t =>
      simp only [next] at hst
      split_ifs at hst with ht
      cases hst
      exact hinv.moved rfl (herase t) hinv.reacked hinv.processed hinv.admitted

def isFor (session : Session) (n : ℕ) (p : Session × UDPCFrame) : Bool :=
  p.1 = session ∧ p.2.packetNo = n

def isControl (session : Session) (n : ℕ) (p : Session × UDPCFrame) : Bool :=
  isFor session n p ∧ p.2.cmd ≠ .data

-- A goroutine that has passed the window with DATA and has not finished with it.
def Task.holds (session : Session) (n : ℕ) (t : Task Session) : Bool :=
  isFor session n (t.session, t.frame) ∧ t.frame.cmd = .data ∧ t.phase ≠ .opened

-- Everything that has used, or may still use, the acceptance of number `n`.
def holders (s : State Session) (session : Session) (n : ℕ) : ℕ :=
  s.processed.countP (isControl session n) + s.admitted.countP (isFor session n) +
    s.tasks.countP (Task.holds session n)

structure OnceInv (s : State Session) : Prop where
  refused_data : ∀ t ∈ s.tasks, t.phase = .refused → t.frame.cmd = .data
  single : ∀ session n, holders s session n ≤ 1
  known : ∀ session n, 0 < holders s session n →
    (s.replayFilter session).Recorded n ∨ (s.replayFilter session).Behind n

-- Passing the window is the only way to become a holder.
theorem holders_accept_fresh (ht : t.phase = .opened)
    (hfresh : ((s.replayFilter t.session).accept t.frame.packetNo).1 = true)
    (session : Session) (n : ℕ) :
    holders (acceptTask s t) session n =
      holders s session n + if isFor session n (t.session, t.frame) then 1 else 0 := by
  have hopened : Task.holds session n t = false := by simp [Task.holds, ht]
  simp only [acceptTask, setFilter, holders, hfresh, if_true, List.countP_cons]
  rw [Bag.countP_erase_of_neg hopened]
  by_cases hfor : isFor session n (t.session, t.frame) <;>
    by_cases hdata : t.frame.cmd = .data <;>
    simp_all [isControl, Task.holds, isFor] <;> omega

theorem holders_accept_stale (ht : t.phase = .opened)
    (hstale : ((s.replayFilter t.session).accept t.frame.packetNo).1 = false)
    (session : Session) (n : ℕ) : holders (acceptTask s t) session n = holders s session n := by
  have hopened : Task.holds session n t = false := by simp [Task.holds, ht]
  simp only [acceptTask, setFilter, holders, hstale, Bool.false_eq_true, if_false]
  split_ifs <;> simp only [Bag.countP_erase_of_neg hopened]

-- The handler passes its hold on, to the admission or to the rollback.
theorem holders_handle (ht : t ∈ s.tasks)
    (hphase : t.phase = .accepted) (kept : Bool) (session : Session) (n : ℕ) :
    holders (handleTask s t kept) session n = holders s session n := by
  have hcount := Bag.countP_erase_add (p := Task.holds session n) ht
  unfold handleTask holders
  dsimp only
  split_ifs with hdata hkept
  · simp only [List.countP_cons]
    have : Task.holds session n t = isFor session n (t.session, t.frame) := by
      simp [Task.holds, hdata, hphase]
    rw [← hcount, this]
    omega
  · simp only [List.countP_cons]
    have : Task.holds session n { t with phase := .refused } = Task.holds session n t := by
      simp [Task.holds, hphase]
    rw [← hcount, this]
  · have : Task.holds session n t = false := by simp [Task.holds, hdata]
    rw [← hcount, this]
    simp

theorem holders_remove (ht : t ∈ s.tasks)
    (hphase : t.phase = .refused) (hdata : t.frame.cmd = .data) (session : Session) (n : ℕ) :
    holders (removeTask s t) session n + (if isFor session n (t.session, t.frame) then 1 else 0) =
      holders s session n := by
  have hcount := Bag.countP_erase_add (p := Task.holds session n) ht
  have hholds : Task.holds session n t = isFor session n (t.session, t.frame) := by
    simp [Task.holds, hdata, hphase]
  rw [hholds] at hcount
  simp only [removeTask, setFilter, holders]
  omega

-- Steps that leave the filters and the holders of every number alone.
theorem OnceInv.kept {s s' : State Session} (hinv : OnceInv s)
    (hrefused : ∀ t ∈ s'.tasks, t.phase = .refused → t.frame.cmd = .data)
    (hfilter : s'.replayFilter = s.replayFilter)
    (hholders : ∀ session n, holders s' session n = holders s session n) : OnceInv s' := by
  refine ⟨hrefused, ?_, ?_⟩
  · intro session n
    rw [hholders]
    exact hinv.single session n
  · intro session n hpos
    rw [hholders] at hpos
    rw [hfilter]
    exact hinv.known session n hpos

theorem once_accept (hinv : OnceInv s) (ht : t.phase = .opened) : OnceInv (acceptTask s t) := by
  have herase : ∀ u ∈ s.tasks.erase t, u.phase = .refused → u.frame.cmd = .data :=
    fun u hu => hinv.refused_data u (List.mem_of_mem_erase hu)
  have hfilter : ∀ session, (acceptTask s t).replayFilter session =
      if session = t.session then ((s.replayFilter t.session).accept t.frame.packetNo).2
      else s.replayFilter session := by
    intro session
    simp only [acceptTask, setFilter]
    split_ifs <;> simp only [*, if_true, if_false]
  have hknown : ∀ session n, 0 < holders s session n →
      ((acceptTask s t).replayFilter session).Recorded n ∨
        ((acceptTask s t).replayFilter session).Behind n := by
    intro session n hpos
    have hk := hinv.known session n hpos
    rw [hfilter]
    split_ifs with hses
    · subst hses
      exact known_accept _ _ _ hk
    · exact hk
  cases hacc : ((s.replayFilter t.session).accept t.frame.packetNo).1 with
  | false =>
      refine ⟨?_, ?_, ?_⟩
      · simp only [acceptTask, setFilter, hacc, Bool.false_eq_true, if_false]
        split_ifs <;> exact herase
      · intro session n
        rw [holders_accept_stale ht hacc]
        exact hinv.single session n
      · intro session n hpos
        rw [holders_accept_stale ht hacc] at hpos
        exact hknown session n hpos
  | true =>
      -- the number was unknown to the filter, so nobody held it before
      have hfree : ∀ session n, isFor session n (t.session, t.frame) = true →
          session = t.session ∧ n = t.frame.packetNo ∧ holders s session n = 0 := by
        intro session n hfor
        simp only [isFor, Bool.decide_and, Bool.and_eq_true, decide_eq_true_eq] at hfor
        obtain ⟨rfl, rfl⟩ := hfor
        refine ⟨rfl, rfl, ?_⟩
        by_contra hne
        obtain ⟨_, hbehind, hrec⟩ := (accept_iff _ _).1 hacc
        rcases hinv.known t.session t.frame.packetNo (by omega) with h | h
        · exact hrec h
        · exact hbehind h
      refine ⟨?_, ?_, ?_⟩
      · simp only [acceptTask, setFilter, hacc, if_true]
        intro u hu hphase
        rcases List.mem_cons.1 hu with rfl | hu
        · cases hphase
        · exact herase u hu hphase
      · intro session n
        rw [holders_accept_fresh ht hacc]
        have hone := hinv.single session n
        split_ifs with hfor
        · have := (hfree session n hfor).2.2
          omega
        · omega
      · intro session n hpos
        rw [holders_accept_fresh ht hacc] at hpos
        split_ifs at hpos with hfor
        · obtain ⟨rfl, rfl, -⟩ := hfree session n hfor
          rw [hfilter, if_pos rfl]
          exact known_accepted hacc
        · exact hknown session n hpos

theorem once_remove (hinv : OnceInv s) (ht : t ∈ s.tasks)
    (hphase : t.phase = .refused) : OnceInv (removeTask s t) := by
  have hholders := holders_remove ht hphase (hinv.refused_data t ht hphase)
  refine ⟨fun u hu => hinv.refused_data u (List.mem_of_mem_erase hu), ?_, ?_⟩
  · intro session n
    have := hholders session n
    have := hinv.single session n
    omega
  · intro session n hpos
    have hone := hinv.single session n
    have heq := hholders session n
    have hk := hinv.known session n (by omega)
    simp only [removeTask, setFilter]
    split_ifs with hses
    · -- the rolled-back number has no holder left
      have hne : n ≠ t.frame.packetNo := by
        intro hn
        have hfor : isFor session n (t.session, t.frame) = true := by simp [isFor, hses, hn]
        rw [if_pos hfor] at heq
        omega
      subst hses
      rw [recorded_remove_of_ne _ hne, behind_remove]
      exact hk
    · exact hk

theorem once_step {s s' : State Session} {l : Label Session}
    (hinv : OnceInv s) (hst : next cfg s l = some s') : OnceInv s' := by
  cases l with
  | sealRecord r =>
      simp only [next] at hst
      split_ifs at hst
      cases hst
      exact hinv.kept hinv.refused_data rfl fun _ _ => rfl
  | store sid session =>
      cases hst
      exact hinv.kept hinv.refused_data rfl fun _ _ => rfl
  | receive wire =>
      simp only [next] at hst
      split at hst
      · cases hst
        exact hinv
      · cases hst
        refine hinv.kept ?_ rfl ?_
        · intro t ht hphase
          rcases List.mem_cons.1 ht with rfl | ht
          · cases hphase
          · exact hinv.refused_data t ht hphase
        · intro session n
          simp [holders, Task.holds]
  | accept t =>
      simp only [next] at hst
      split_ifs at hst with ht
      cases hst
      exact once_accept hinv ht.2
  | handle t kept =>
      simp only [next] at hst
      split_ifs at hst with ht
      cases hst
      refine hinv.kept ?_ (by unfold handleTask; dsimp only; split_ifs <;> rfl)
        (holders_handle ht.1 ht.2 kept)
      intro u hu hphase
      unfold handleTask at hu
      dsimp only at hu
      split_ifs at hu with hdata hkept
      · exact hinv.refused_data u (List.mem_of_mem_erase hu) hphase
      · rcases List.mem_cons.1 hu with rfl | hu
        · exact hdata
        · exact hinv.refused_data u (List.mem_of_mem_erase hu) hphase
      · exact hinv.refused_data u (List.mem_of_mem_erase hu) hphase
  | remove t =>
      simp only [next] at hst
      split_ifs at hst with ht
      cases hst
      exact once_remove hinv ht.1 ht.2

-- Whatever wires arrive: a frame is acted on only as the peer sealed it for
-- this session and direction, a control record at most once, and a DATA number
-- is admitted at most once.
theorem acted_authentic_at_most_once (cfg : Config Session Key) {s : State Session}
    (h : Reachable (system cfg) s) :
    (∀ p, p ∈ s.reacked ∨ p ∈ s.processed ∨ p ∈ s.admitted → Authentic cfg s p.1 p.2) ∧
      (∀ session n, s.processed.countP (isControl session n) ≤ 1) ∧
      (∀ session n, s.admitted.countP (isFor session n) ≤ 1) := by
  have hauth : AuthenticInv cfg s := by
    refine h.invariant (I := AuthenticInv cfg) ?_ fun _ _ _ hinv _ hst => authentic_step hinv hst
    rintro _ rfl
    constructor <;> simp [initial]
  have honce : OnceInv s := by
    refine h.invariant (I := OnceInv) ?_ fun _ _ _ hinv _ hst => once_step hinv hst
    rintro _ rfl
    constructor <;> simp [initial, holders]
  refine ⟨?_, ?_, ?_⟩
  · rintro p (hp | hp | hp)
    · exact hauth.reacked p hp
    · exact hauth.processed p hp
    · exact hauth.admitted p hp
  · intro session n
    have := honce.single session n
    unfold holders at this
    omega
  · intro session n
    have := honce.single session n
    unfold holders at this
    omega

-- A cipher that only frames its plaintext, enough to run the boundary.
def plainAead : Aead Direction where
  encrypt := fun _ _ p _ => p ++ List.replicate udpcTrailerSize 0
  decrypt := fun _ _ c _ => some (c.take (c.length - udpcTrailerSize))
  decrypt_encrypt := by simp
  length_encrypt := by simp

def plainConfig : Config Unit Direction where
  aead := plainAead
  keys := { key := fun _ d => d, injective := fun _ _ _ _ h => ⟨rfl, h⟩ }
  role := .server
  magic := 0
  flow := fun _ => true

def sampleData : UDPCFrame where
  magic := 0x55445043
  version := udpcVersion
  cmd := .data
  flags := 0
  sessionID := 7
  packetNo := 1
  seq := 1
  ack := 0
  windowSize := 0
  data := [104, 105]

-- The record arrives three times: refused and rolled back, then kept, then a duplicate.
def sampleRun : List (Label Unit) :=
  let r : Sealed Unit :=
    { session := (), dir := .toServer, frame := sampleData, plaintext := sampleData.data }
  let wire := (sealFrameAEAD plainAead .toServer sampleData sampleData.data).getD []
  let t : Phase → Task Unit := fun phase => { session := (), frame := sampleData, phase := phase }
  [.sealRecord r, .store 7 (some ()), .receive wire, .accept (t .opened),
    .handle (t .accepted) false, .remove (t .refused), .receive wire, .accept (t .opened),
    .handle (t .accepted) true, .receive wire, .accept (t .opened)]

theorem sample_run_admitted_once : ∃ s, Reachable (system plainConfig) s ∧
    s.admitted = [((), sampleData)] ∧ s.reacked = [((), sampleData)] ∧
    (∀ p, p ∈ s.reacked ∨ p ∈ s.processed ∨ p ∈ s.admitted → Authentic plainConfig s p.1 p.2) ∧
    (∀ session n, s.processed.countP (isControl session n) ≤ 1) ∧
    (∀ session n, s.admitted.countP (isFor session n) ≤ 1) := by
  obtain ⟨s, hreach, hadmitted, hreacked⟩ := (system plainConfig).exists_run
    (P := fun s : State Unit => s.admitted = [((), sampleData)] ∧ s.reacked = [((), sampleData)])
    rfl sampleRun (by decide)
  exact ⟨s, hreach, hadmitted, hreacked, acted_authentic_at_most_once plainConfig hreach⟩

end UdpCustom.Receive
