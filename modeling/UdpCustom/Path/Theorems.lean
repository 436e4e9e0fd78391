import UdpCustom.Path
import Mathlib.Data.List.Count

namespace UdpCustom.Path

open UdpCustom.Frame

variable {Addr : Type} [DecidableEq Addr] {p p' p₁ : Paths Addr} {addr : AddrPort Addr}

-- What handling a record from the known address may do: the port moves, and
-- every path stored in passing is that address's own.
structure Paths.Stays (p p' : Paths Addr) : Prop where
  addr : p'.raddr.addr = p.raddr.addr
  pathAddrs : ∀ port pe, p'.pathAddrs.lookup port = some pe →
    p.pathAddrs.lookup port = some pe ∨ pe.addr.addr = p.raddr.addr
  pathChallenges : p'.pathChallenges = p.pathChallenges
  issued : p'.issued = p.issued
  validated : p'.validated = p.validated

omit [DecidableEq Addr] in
theorem Paths.Stays.refl (p : Paths Addr) : p.Stays p :=
  ⟨rfl, fun _ _ h => .inl h, rfl, rfl, rfl⟩

omit [DecidableEq Addr] in
theorem Paths.Stays.trans (h : p.Stays p₁) (h' : p₁.Stays p') : p.Stays p' := by
  refine ⟨h'.addr.trans h.addr, ?_, h'.pathChallenges.trans h.pathChallenges,
    h'.issued.trans h.issued, h'.validated.trans h.validated⟩
  intro port pe hpe
  rcases h'.pathAddrs port pe hpe with hold | hown
  · exact h.pathAddrs port pe hold
  · exact .inr (hown.trans h.addr)

theorem stays_updateRemoteAddr (hsame : p.raddr.addr = addr.addr)
    (allow : Bool) : p.Stays (p.updateRemoteAddr addr allow) := by
  unfold Paths.updateRemoteAddr
  split_ifs
  · exact .refl p
  · exact .refl p
  · exact { Paths.Stays.refl p with addr := hsame.symm }

-- Without permission the address never moves to another IP.
theorem addr_updateRemoteAddr_false (p : Paths Addr) (addr : AddrPort Addr) :
    (p.updateRemoteAddr addr false).raddr.addr = p.raddr.addr := by
  unfold Paths.updateRemoteAddr
  split_ifs with heq hdiff
  · rfl
  · rfl
  · by_contra hne
    exact hdiff ⟨fun he => hne he.symm, rfl⟩

theorem addr_updateRemoteAddr_true (p : Paths Addr) (addr : AddrPort Addr) :
    (p.updateRemoteAddr addr true).raddr.addr = addr.addr := by
  unfold Paths.updateRemoteAddr
  split_ifs with heq hdiff
  · rw [heq]
  · cases hdiff.2
  · rfl

-- What `setPath` stores is what it was given; everything else was there before.
theorem lookup_setPath {limit origPort now : ℕ} {scan : List ℕ} {port : ℕ}
    {pe : PathEntry Addr} (h : (p.setPath limit origPort addr now scan).pathAddrs.lookup port = some pe) :
    p.pathAddrs.lookup port = some pe ∨ pe.addr = addr := by
  unfold Paths.setPath at h
  split_ifs at h with hzero hsame hfull
  · exact .inl h
  · exact .inl h
  · rcases SeqMap.of_lookup_insert h with ⟨-, rfl⟩ | ⟨-, hkept⟩
    · exact .inr rfl
    · exact .inl (SeqMap.of_lookup_erase hkept)
  · rcases SeqMap.of_lookup_insert h with ⟨-, rfl⟩ | ⟨-, hkept⟩
    · exact .inr rfl
    · exact .inl hkept

@[simp] theorem raddr_setPath (p : Paths Addr) (limit origPort : ℕ) (addr : AddrPort Addr) (now : ℕ)
    (scan : List ℕ) : (p.setPath limit origPort addr now scan).raddr = p.raddr := by
  unfold Paths.setPath
  split_ifs <;> rfl

@[simp] theorem pathChallenges_setPath (p : Paths Addr) (limit origPort : ℕ) (addr : AddrPort Addr)
    (now : ℕ) (scan : List ℕ) :
    (p.setPath limit origPort addr now scan).pathChallenges = p.pathChallenges := by
  unfold Paths.setPath
  split_ifs <;> rfl

@[simp] theorem issued_setPath (p : Paths Addr) (limit origPort : ℕ) (addr : AddrPort Addr) (now : ℕ)
    (scan : List ℕ) : (p.setPath limit origPort addr now scan).issued = p.issued := by
  unfold Paths.setPath
  split_ifs <;> rfl

@[simp] theorem validated_setPath (p : Paths Addr) (limit origPort : ℕ) (addr : AddrPort Addr)
    (now : ℕ) (scan : List ℕ) :
    (p.setPath limit origPort addr now scan).validated = p.validated := by
  unfold Paths.setPath
  split_ifs <;> rfl

theorem stays_setPath (hsame : p.raddr.addr = addr.addr) (limit origPort now : ℕ)
    (scan : List ℕ) : p.Stays (p.setPath limit origPort addr now scan) := by
  refine ⟨by simp, ?_, by simp, by simp, by simp⟩
  intro port pe hpe
  rcases lookup_setPath hpe with hold | hnew
  · exact .inl hold
  · exact .inr (hnew ▸ hsame.symm)

omit [DecidableEq Addr] in
theorem stays_route (p : Paths Addr) (scan : List ℕ) : p.Stays (p.route scan).2 := by
  unfold Paths.route
  dsimp only
  generalize (if p.lastOrigPort ∈ p.pathAddrs then p.lastOrigPort else _) = port
  split
  · split
    · exact { Paths.Stays.refl p with }
    · exact .refl p
  · exact .refl p

theorem answered_some {p : Paths Addr} {remoteAddr : AddrPort Addr} {data : Bytes} {now : ℕ}
    {c : PathChallenge Addr} (h : p.answered remoteAddr data now = some c) :
    c ∈ p.pathChallenges ∧ c.ip = remoteAddr.addr ∧ data = c.token ∧ now ≤ c.expires := by
  unfold Paths.answered at h
  split_ifs at h
  obtain ⟨hfind, hlive⟩ := Option.filter_eq_some_iff.1 h
  have hip := List.find?_some hfind
  simp only [decide_eq_true_eq] at hip hlive
  exact ⟨List.mem_of_find?_eq_some hfind, hip, hlive.2, hlive.1⟩

theorem paths_sendPathChallenge (p : Paths Addr) (remoteAddr : AddrPort Addr) (now : ℕ)
    (random : Option Bytes) (evict : ℕ) :
    ∃ pathChallenges issued, (p.sendPathChallenge remoteAddr now random evict).2 =
      { p with pathChallenges := pathChallenges, issued := issued } := by
  unfold Paths.sendPathChallenge
  dsimp only
  split
  · exact ⟨_, _, rfl⟩
  · split <;> exact ⟨_, _, rfl⟩

end UdpCustom.Path
