import UdpCustom.Path
import UdpCustom.Lib.Transition
import UdpCustom.Lib.Unordered
import Mathlib.Logic.Function.Basic

-- The reply paths of a session over its packets and replies: what the times stored in
-- the table have to do with when each port was last heard from.
namespace UdpCustom.Path

open Transition

variable {Addr : Type} [DecidableEq Addr] {scan : List ℕ} {paths : SeqMap (PathEntry Addr)}

-- The table, with the time and path of the last packet and when each port was last
-- heard from as history.
structure Hearing (Addr : Type) where
  paths : Paths Addr
  now : ℕ
  heard : ℕ → ℕ
  last : Option (ℕ × AddrPort Addr)

-- A packet for an original port, or a reply. A walk over the table is in any order.
inductive Heard (Addr : Type)
  | packet (origPort : ℕ) (addr : AddrPort Addr) (now : ℕ) (scan : List ℕ)
  | reply (scan : List ℕ)

def IsScan (paths : SeqMap (PathEntry Addr)) (scan : List ℕ) : Prop :=
  scan.Nodup ∧ scan.toFinset = paths.keys

instance (paths : SeqMap (PathEntry Addr)) (scan : List ℕ) : Decidable (IsScan paths scan) :=
  inferInstanceAs (Decidable (_ ∧ _))

def Hearing.next (limit : ℕ) (s : Hearing Addr) : Heard Addr → Option (Hearing Addr)
  | .packet origPort addr now scan =>
      if 0 < origPort ∧ s.now < now ∧ IsScan s.paths.pathAddrs scan then
        some
          { paths := s.paths.setPath limit origPort addr now scan
            now := now
            heard := Function.update s.heard origPort now
            last := some (origPort, addr) }
      else none
  | .reply scan =>
      if IsScan s.paths.pathAddrs scan then some { s with paths := (s.paths.route scan).2 } else none

def hearing (limit : ℕ) (remoteAddr : AddrPort Addr) (origPort : ℕ) : System (Hearing Addr) (Heard Addr) where
  init := (· = { paths := newPaths remoteAddr origPort, now := 0, heard := fun _ => 0, last := none })
  next := Hearing.next limit

-- The time of an entry is that of the first packet of the port's latest run of packets
-- from one address; the runs of two ports do not overlap.
structure Hearing.Ordered (limit : ℕ) (s : Hearing Addr) : Prop where
  size : SeqMap.size s.paths.pathAddrs ≤ limit
  empty : s.last = none → s.paths.pathAddrs = ∅
  last : ∀ port addr, s.last = some (port, addr) → s.paths.lastOrigPort = port ∧
    s.heard port = s.now ∧ ∃ pe, s.paths.pathAddrs.lookup port = some pe ∧ pe.addr = addr
  heard : ∀ port, s.heard port ≤ s.now
  used : ∀ port pe, s.paths.pathAddrs.lookup port = some pe → pe.usedAt ≤ s.heard port
  apart : ∀ j k pj pk, s.paths.pathAddrs.lookup j = some pj → s.paths.pathAddrs.lookup k = some pk →
    j ≠ k → s.heard j < pk.usedAt ∨ s.heard k < pj.usedAt

omit [DecidableEq Addr] in
theorem minimizing_leastRecent (paths : SeqMap (PathEntry Addr)) :
    Unordered.Minimizing (fun port => (paths.lookup port).map (·.usedAt)) fun best port =>
      match paths.lookup port, best.bind paths.lookup with
      | none, _ => best
      | some _, none => some port
      | some pe, some oldest => if pe.usedAt < oldest.usedAt then some port else best where
  pass_or_take := by
    intro best x
    split
    · exact .inl rfl
    · exact .inr rfl
    · split
      · exact .inr rfl
      · exact .inl rfl
  pass := by
    intro best x a hkept hx
    obtain ⟨pe, hpe, rfl⟩ := Option.map_eq_some_iff.1 hx
    split at hkept
    · rename_i hnone
      rw [hnone] at hpe
      cases hpe
    · subst hkept
      exact ⟨x, pe.usedAt, rfl, hx, le_refl _⟩
    · rename_i pe' oldest hpe' holdest
      obtain ⟨o, rfl, ho⟩ := Option.bind_eq_some_iff.1 holdest
      split at hkept
      · cases hkept
        exact ⟨x, pe.usedAt, rfl, hx, le_refl _⟩
      · rename_i hge
        cases hpe.symm.trans hpe'
        exact ⟨o, oldest.usedAt, rfl, congrArg (Option.map _) ho, not_lt.1 hge⟩
  take := by
    intro o x b htaken ho
    obtain ⟨po, hpo, rfl⟩ := Option.map_eq_some_iff.1 ho
    split at htaken
    · cases htaken
      exact ⟨_, ho, le_refl _⟩
    · rename_i hnone
      rw [Option.bind_some, hpo] at hnone
      cases hnone
    · rename_i pe oldest hpe holdest
      rw [Option.bind_some, hpo] at holdest
      cases holdest
      split at htaken
      · rename_i hlt
        exact ⟨pe.usedAt, congrArg (Option.map _) hpe, hlt.le⟩
      · cases htaken
        exact ⟨_, ho, le_refl _⟩

omit [DecidableEq Addr] in
theorem leastRecent_spec {k : ℕ} {pk : PathEntry Addr}
    (hk : k ∈ scan) (hpk : paths.lookup k = some pk) :
    ∃ o po, leastRecent paths scan = some o ∧ paths.lookup o = some po ∧ po.usedAt ≤ pk.usedAt := by
  obtain ⟨o, b, ho, hb, hle⟩ :=
    (minimizing_leastRecent paths).foldl_least hk (congrArg (Option.map _) hpk) none
  obtain ⟨po, hpo, rfl⟩ := Option.map_eq_some_iff.1 hb
  exact ⟨o, po, ho, hpo, hle⟩

section
variable {limit : ℕ} {s s' : Hearing Addr}

omit [DecidableEq Addr] in
theorem IsScan.mem (h : IsScan paths scan) {k : ℕ} :
    k ∈ scan ↔ k ∈ paths := by
  rw [← Finmap.mem_keys, ← h.2, List.mem_toFinset]

-- The entry with the oldest time is the one heard from least recently.
omit [DecidableEq Addr] in
theorem Hearing.Ordered.oldest (h : s.Ordered limit) (hscan : IsScan s.paths.pathAddrs scan) {o : ℕ}
    (ho : leastRecent s.paths.pathAddrs scan = some o) {k : ℕ} (hk : k ∈ s.paths.pathAddrs)
    (hne : k ≠ o) : s.heard o < s.heard k := by
  obtain ⟨pk, hpk⟩ := Option.isSome_iff_exists.1 (Finmap.lookup_isSome.2 hk)
  obtain ⟨o', po, ho', hpo, hle⟩ := leastRecent_spec (hscan.mem.2 hk) hpk
  obtain rfl : o' = o := Option.some.inj (ho'.symm.trans ho)
  have hused := h.used k pk hpk
  rcases h.apart k o' pk po hpk hpo hne with hbefore | hafter
  · omega
  · omega

-- A full table loses its oldest entry, if it has any.
def kept (limit : ℕ) (paths : SeqMap (PathEntry Addr)) (origPort : ℕ) (scan : List ℕ) :
    SeqMap (PathEntry Addr) :=
  if origPort ∉ paths ∧ limit ≤ SeqMap.size paths then paths.erase ((leastRecent paths scan).getD 0)
  else paths

theorem setPath_cases (p : Paths Addr) {origPort : ℕ} (hport : 0 < origPort) (addr : AddrPort Addr)
    (now : ℕ) (scan : List ℕ) :
    (p.setPath limit origPort addr now scan = p ∧ p.lastOrigPort = origPort ∧
      ∃ pe, p.pathAddrs.lookup origPort = some pe ∧ pe.addr = addr) ∨
    ((p.setPath limit origPort addr now scan).lastOrigPort = origPort ∧
      (p.setPath limit origPort addr now scan).pathAddrs =
        (kept limit p.pathAddrs origPort scan).insert origPort ⟨addr, now⟩) := by
  unfold Paths.setPath
  rw [if_neg hport.ne']
  split
  · rename_i hsame
    obtain ⟨hlast, hany⟩ := hsame
    obtain ⟨pe, hpe, haddr⟩ := (Option.any_eq_true _ _).1 hany
    exact .inl ⟨rfl, hlast, pe, hpe, of_decide_eq_true haddr⟩
  · exact .inr ⟨rfl, rfl⟩

omit [DecidableEq Addr] in
theorem lookup_kept {origPort : ℕ} {k : ℕ}
    {pe : PathEntry Addr} (h : (kept limit paths origPort scan).lookup k = some pe) :
    paths.lookup k = some pe := by
  unfold kept at h
  split at h
  · exact SeqMap.of_lookup_erase h
  · exact h

omit [DecidableEq Addr] in
theorem exists_leastRecent (hlimit : 0 < limit)
    (hfull : limit ≤ SeqMap.size paths) (hscan : IsScan paths scan) :
    ∃ o, leastRecent paths scan = some o ∧ o ∈ paths := by
  obtain ⟨k, hk⟩ : paths.keys.Nonempty := Finset.card_pos.1 (hlimit.trans_le hfull)
  have hk := Finmap.mem_keys.1 hk
  obtain ⟨pk, hpk⟩ := Option.isSome_iff_exists.1 (Finmap.lookup_isSome.2 hk)
  obtain ⟨o, po, ho, hpo, -⟩ := leastRecent_spec (hscan.mem.2 hk) hpk
  exact ⟨o, ho, Finmap.mem_of_lookup_eq_some hpo⟩

omit [DecidableEq Addr] in
theorem size_kept_insert (hlimit : 0 < limit)
    (hsize : SeqMap.size paths ≤ limit) {origPort : ℕ} (hscan : IsScan paths scan)
    (pe : PathEntry Addr) :
    SeqMap.size ((kept limit paths origPort scan).insert origPort pe) ≤ limit := by
  unfold kept
  split
  · rename_i hfull
    obtain ⟨o, ho, hmem⟩ := exists_leastRecent hlimit hfull.2 hscan
    have herase := SeqMap.size_erase_of_mem hmem
    have hnew : origPort ∉ paths.erase ((leastRecent paths scan).getD 0) :=
      fun hold => hfull.1 (Finmap.mem_erase.1 hold).2
    rw [SeqMap.size_insert_of_notMem hnew, ho, Option.getD_some]
    omega
  · rename_i hroom
    by_cases hmem : origPort ∈ paths
    · rw [SeqMap.size_insert, SeqMap.size_erase_of_mem hmem]
      exact hsize
    · rw [SeqMap.size_insert_of_notMem hmem]
      have hlt : ¬limit ≤ SeqMap.size paths := fun hfull => hroom ⟨hmem, hfull⟩
      omega

-- The state after a packet that leaves the table with `paths`.
def Hearing.hear (s : Hearing Addr) (paths : Paths Addr) (origPort : ℕ) (addr : AddrPort Addr) (now : ℕ) :
    Hearing Addr where
  paths := paths
  now := now
  heard := Function.update s.heard origPort now
  last := some (origPort, addr)

section
variable {origPort now : ℕ} {addr : AddrPort Addr}

omit [DecidableEq Addr] in
theorem Hearing.Ordered.heard_hear (h : s.Ordered limit) (hnow : s.now < now) (port : ℕ) :
    Function.update s.heard origPort now port ≤ now := by
  by_cases hp : port = origPort
  · rw [hp, Function.update_self]
  · rw [Function.update_of_ne hp]
    exact (h.heard port).trans hnow.le

-- Another packet of the run that the last one belongs to.
omit [DecidableEq Addr] in
theorem Hearing.Ordered.again (h : s.Ordered limit) (hnow : s.now < now)
    (hlast : s.paths.lastOrigPort = origPort) {pe : PathEntry Addr}
    (hpe : s.paths.pathAddrs.lookup origPort = some pe) (haddr : pe.addr = addr) :
    (s.hear s.paths origPort addr now).Ordered limit := by
  have hcur : s.heard origPort = s.now := by
    cases hl : s.last with
    | none =>
        rw [h.empty hl] at hpe
        cases hpe
    | some l =>
        obtain ⟨hport, hcur, -⟩ := h.last l.1 l.2 hl
        rw [← hlast, hport, hcur]
  have hbefore : ∀ k pk, s.paths.pathAddrs.lookup k = some pk → k ≠ origPort → s.heard k < pe.usedAt := by
    intro k pk hpk hne
    have hused := h.used k pk hpk
    have hle := h.heard k
    rcases h.apart k origPort pk pe hpk hpe hne with hk | hk
    · exact hk
    · omega
  refine ⟨h.size, nofun, ?_, h.heard_hear hnow, fun port pe' hpe' => ?_, fun j k pj pk hpj hpk hne => ?_⟩
  · rintro port addr' ⟨⟩
    exact ⟨hlast, Function.update_self _ _ _, pe, hpe, haddr⟩
  · dsimp only [Hearing.hear] at hpe' ⊢
    by_cases hp : port = origPort
    · rw [hp, Function.update_self]
      have hused := h.used port pe' hpe'
      have hle := h.heard port
      omega
    · rw [Function.update_of_ne hp]
      exact h.used port pe' hpe'
  · dsimp only [Hearing.hear] at hpj hpk ⊢
    by_cases hj : j = origPort
    · subst hj
      cases hpj.symm.trans hpe
      rw [Function.update_of_ne (Ne.symm hne)]
      exact .inr (hbefore k pk hpk (Ne.symm hne))
    · by_cases hk : k = origPort
      · subst hk
        cases hpk.symm.trans hpe
        rw [Function.update_of_ne hne]
        exact .inl (hbefore j pj hpj hne)
      · rw [Function.update_of_ne hj, Function.update_of_ne hk]
        exact h.apart j k pj pk hpj hpk hne

-- A new run begins; everybody else was heard from before.
omit [DecidableEq Addr] in
theorem Hearing.Ordered.fresh (h : s.Ordered limit) (hlimit : 0 < limit) (hnow : s.now < now)
    (hscan : IsScan s.paths.pathAddrs scan) {paths : Paths Addr}
    (hlast : paths.lastOrigPort = origPort)
    (hpaths : paths.pathAddrs = (kept limit s.paths.pathAddrs origPort scan).insert origPort ⟨addr, now⟩) :
    (s.hear paths origPort addr now).Ordered limit := by
  have hcases : ∀ {k pk}, paths.pathAddrs.lookup k = some pk →
      k = origPort ∧ pk = ⟨addr, now⟩ ∨ k ≠ origPort ∧ s.paths.pathAddrs.lookup k = some pk := by
    intro k pk hpk
    rw [hpaths] at hpk
    exact (SeqMap.of_lookup_insert hpk).imp_right fun ⟨hne, hold⟩ => ⟨hne, lookup_kept hold⟩
  refine ⟨?_, nofun, ?_, h.heard_hear hnow, fun port pe hpe => ?_, fun j k pj pk hpj hpk hne => ?_⟩
  · change SeqMap.size paths.pathAddrs ≤ limit
    rw [hpaths]
    exact size_kept_insert hlimit h.size hscan _
  · rintro port addr' ⟨⟩
    refine ⟨hlast, Function.update_self _ _ _, ⟨addr, now⟩, ?_, rfl⟩
    exact hpaths ▸ Finmap.lookup_insert _
  · dsimp only [Hearing.hear]
    rcases hcases hpe with ⟨rfl, rfl⟩ | ⟨hp, hold⟩
    · rw [Function.update_self]
    · rw [Function.update_of_ne hp]
      exact h.used port pe hold
  · dsimp only [Hearing.hear]
    rcases hcases hpj with ⟨rfl, rfl⟩ | ⟨hj, hpj⟩
    · rw [Function.update_of_ne (Ne.symm hne)]
      exact .inr ((h.heard k).trans_lt hnow)
    · rcases hcases hpk with ⟨rfl, rfl⟩ | ⟨hk, hpk⟩
      · rw [Function.update_of_ne hj]
        exact .inl ((h.heard j).trans_lt hnow)
      · rw [Function.update_of_ne hj, Function.update_of_ne hk]
        exact h.apart j k pj pk hpj hpk hne

theorem Hearing.Ordered.packet (h : s.Ordered limit) (hlimit : 0 < limit)
    (hport : 0 < origPort) (hnow : s.now < now) (hscan : IsScan s.paths.pathAddrs scan) :
    (s.hear (s.paths.setPath limit origPort addr now scan) origPort addr now).Ordered limit := by
  rcases setPath_cases s.paths hport addr now scan with ⟨hsame, hlast, pe, hpe, haddr⟩ | ⟨hlast, hpaths⟩
  · rw [hsame]
    exact h.again hnow hlast hpe haddr
  · exact h.fresh hlimit hnow hscan hlast hpaths

end

-- A reply leaves by the port of the last packet, which is in the table.
omit [DecidableEq Addr] in
theorem Hearing.Ordered.route (h : s.Ordered limit) (scan : List ℕ) : (s.paths.route scan).2 = s.paths := by
  unfold Paths.route
  dsimp only
  cases hl : s.last with
  | none =>
      have hempty := h.empty hl
      have hnone : ∀ k, s.paths.pathAddrs.lookup k = none := by
        intro k
        rw [hempty]
        rfl
      split
      · rename_i hpe
        rw [hnone] at hpe
        cases hpe
      · rfl
  | some l =>
      obtain ⟨hport, -, pe, hpe, -⟩ := h.last l.1 l.2 hl
      rw [if_pos (by rw [hport]; exact Finmap.mem_of_lookup_eq_some hpe), hport, hpe]
      dsimp only
      split
      · rw [← hport]
      · rfl

theorem Hearing.Ordered.step (h : s.Ordered limit) (hlimit : 0 < limit) {l : Heard Addr}
    (hst : s.next limit l = some s') : s'.Ordered limit := by
  cases l with
  | packet origPort addr now scan =>
      obtain ⟨⟨hport, hnow, hscan⟩, ⟨⟩⟩ := Option.ite_none_right_eq_some.1 hst
      exact h.packet hlimit hport hnow hscan
  | reply scan =>
      obtain ⟨-, ⟨⟩⟩ := Option.ite_none_right_eq_some.1 hst
      rw [h.route scan]
      exact h

end

theorem ordered_of_reachable {limit : ℕ} (hlimit : 0 < limit) {remoteAddr : AddrPort Addr}
    {origPort : ℕ} {s : Hearing Addr} (h : Reachable (hearing limit remoteAddr origPort) s) :
    s.Ordered limit := by
  refine h.invariant (fun s hs => ?_) fun s l s' ho _ hst => ho.step hlimit hst
  rw [hs]
  exact
    { size := Nat.zero_le _
      empty := fun _ => rfl
      last := nofun
      heard := fun _ => le_rfl
      used := nofun
      apart := nofun }

-- The table stays within its limit, has the path of the last packet, and loses an entry
-- only to a new port, and then the one heard from least recently.
theorem path_eviction_is_lru {limit : ℕ} (hlimit : 0 < limit) {remoteAddr : AddrPort Addr}
    {origPort : ℕ} {s : Hearing Addr} (h : Reachable (hearing limit remoteAddr origPort) s) :
    SeqMap.size s.paths.pathAddrs ≤ limit ∧
    (∀ port addr, s.last = some (port, addr) →
      ∃ pe, s.paths.pathAddrs.lookup port = some pe ∧ pe.addr = addr) ∧
    ∀ l s', s.next limit l = some s' → ∀ gone ∈ s.paths.pathAddrs, gone ∉ s'.paths.pathAddrs →
      (∃ port addr now scan, l = .packet port addr now scan ∧ port ∉ s.paths.pathAddrs) ∧
        ∀ k ∈ s.paths.pathAddrs, k ≠ gone → s.heard gone < s.heard k := by
  have ho := ordered_of_reachable hlimit h
  refine ⟨ho.size, fun port addr hl => (ho.last port addr hl).2.2, fun l s' hst gone hgone hnot => ?_⟩
  cases l with
  | reply scan =>
      obtain ⟨-, ⟨⟩⟩ := Option.ite_none_right_eq_some.1 hst
      rw [ho.route scan] at hnot
      exact absurd hgone hnot
  | packet port addr now scan =>
      obtain ⟨⟨hport, hnow, hscan⟩, ⟨⟩⟩ := Option.ite_none_right_eq_some.1 hst
      rcases setPath_cases s.paths hport addr now scan with ⟨hsame, -⟩ | ⟨-, hpaths⟩
      · rw [hsame] at hnot
        exact absurd hgone hnot
      · rw [hpaths] at hnot
        obtain ⟨hne, hkept⟩ := not_or.1 (mt Finmap.mem_insert.2 hnot)
        unfold kept at hkept
        split at hkept
        · rename_i hfull
          obtain ⟨o, hleast, -⟩ := exists_leastRecent hlimit hfull.2 hscan
          rw [hleast, Option.getD_some] at hkept
          obtain rfl : gone = o := by
            by_contra hdiff
            exact hkept (Finmap.mem_erase.2 ⟨hdiff, hgone⟩)
          exact ⟨⟨port, addr, now, scan, rfl, hfull.1⟩, fun k hk hkne => ho.oldest hscan hleast hk hkne⟩
        · exact absurd hgone hkept

-- Port 2 is heard from before and after port 1, so port 3 takes the place of port 1.
theorem third_port_evicts_least_recent : ∃ s s', Reachable (hearing 2 (⟨0, 9⟩ : AddrPort ℕ) 1) s ∧
    s.next 2 (.packet 3 ⟨0, 9⟩ 4 [1, 2]) = some s' ∧ 1 ∉ s'.paths.pathAddrs ∧ s.heard 1 < s.heard 2 := by
  have hrun := (hearing 2 (⟨0, 9⟩ : AddrPort ℕ) 1).exists_run
    (P := fun s => (1 ∈ s.paths.pathAddrs ∧ 2 ∈ s.paths.pathAddrs) ∧
      (s.next 2 (.packet 3 ⟨0, 9⟩ 4 [1, 2])).any fun s' => 1 ∉ s'.paths.pathAddrs)
    rfl [.packet 2 ⟨0, 9⟩ 1 [], .packet 1 ⟨0, 9⟩ 2 [2], .reply [2, 1], .packet 2 ⟨0, 9⟩ 3 [1, 2]]
    (by decide +kernel)
  obtain ⟨s, hreach, ⟨hone, htwo⟩, hany⟩ := hrun
  obtain ⟨s', hst, hgone⟩ := (Option.any_eq_true _ _).1 hany
  have hlru := (path_eviction_is_lru Nat.two_pos hreach).2.2 _ s' hst 1 hone (of_decide_eq_true hgone)
  exact ⟨s, s', hreach, hst, of_decide_eq_true hgone, hlru.2 2 htwo (by decide)⟩

end UdpCustom.Path
