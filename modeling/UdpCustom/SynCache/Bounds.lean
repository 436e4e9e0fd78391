import UdpCustom.SynCache.Theorems
import Mathlib.Data.List.Induction
import Mathlib.Data.List.Perm.Subperm

-- The cache under any sequence of calls: how much it holds, and whose ACK it hands out.
namespace UdpCustom.SynCache

open scoped List

-- An ACK frame is never empty, so a completed record is told from a reserved one.
inductive Call (Key Addr Ack : Type)
  | acquire (key : Key) (now : ℕ) (ip : Addr)
  | complete (key : Key) (ackFrame : Ack)
  | abort (key : Key)

variable {Key Addr Ack : Type}

def Call.time : Call Key Addr Ack → Option ℕ
  | .acquire _ now _ => some now
  | .complete _ _ => none
  | .abort _ => none

def acquireTimes (calls : List (Call Key Addr Ack)) : List ℕ :=
  calls.filterMap Call.time

def Call.settles (key : Key) : Call Key Addr Ack → Prop
  | .acquire _ _ _ => False
  | .complete k _ => k = key
  | .abort k => k = key

variable [DecidableEq Key] [DecidableEq Addr] {entries : List (SynRecord Key Addr Ack)}

def Cache.apply (c : Cache Key Addr Ack) : Call Key Addr Ack → Cache Key Addr Ack
  | .acquire key now ip => (c.acquire key now ip).2
  | .complete key ackFrame => c.complete key ackFrame
  | .abort key => c.abort key

def after (calls : List (Call Key Addr Ack)) : Cache Key Addr Ack :=
  calls.foldl Cache.apply newSynCache

theorem after_concat (calls : List (Call Key Addr Ack)) (call : Call Key Addr Ack) :
    after (calls ++ [call]) = (after calls).apply call := by
  rw [after, List.foldl_concat]
  rfl

def Cache.Filed (entries : List (SynRecord Key Addr Ack)) (fifo : List (SynFIFOEntry Key)) : Prop :=
  ∀ rec ∈ entries, ∃ item ∈ fifo, item.names rec = true

omit [DecidableEq Addr] in
theorem evict_sublist (entries : List (SynRecord Key Addr Ack)) (fifo : List (SynFIFOEntry Key)) :
    (evict entries fifo).1 <+ entries ∧ (evict entries fifo).2 <+ fifo := by
  induction fifo generalizing entries with
  | nil => exact ⟨List.Sublist.refl _, List.Sublist.refl _⟩
  | cons oldest fifo ih =>
      unfold evict
      split
      · obtain ⟨hentries, hfifo⟩ := ih (entries.filter fun rec => !oldest.names rec)
        exact ⟨hentries.trans List.filter_sublist, hfifo.cons oldest⟩
      · exact ⟨List.Sublist.refl _, List.Sublist.refl _⟩

-- Every record has an item left to evict it by, so popping makes room before the
-- queue runs out.
omit [DecidableEq Addr] in
theorem evict_filed {fifo : List (SynFIFOEntry Key)} (h : Cache.Filed entries fifo) :
    Cache.Filed (evict entries fifo).1 (evict entries fifo).2 ∧
      (evict entries fifo).1.length < synCacheMax := by
  induction fifo generalizing entries with
  | nil =>
      have hempty : entries = [] := List.eq_nil_iff_forall_not_mem.2 fun rec hrec => by
        obtain ⟨item, hitem, -⟩ := h rec hrec
        cases hitem
      exact ⟨h, by rw [evict, hempty]; exact Nat.zero_lt_succ _⟩
  | cons oldest fifo ih =>
      unfold evict
      split
      · refine ih fun rec hrec => ?_
        obtain ⟨hmem, hother⟩ := List.mem_filter.1 hrec
        obtain ⟨item, hitem, hnames⟩ := h rec hmem
        rcases List.mem_cons.1 hitem with rfl | hitem
        · rw [hnames] at hother
          cases hother
        · exact ⟨item, hitem, hnames⟩
      · rename_i hroom
        exact ⟨h, Nat.not_le.1 hroom⟩

omit [DecidableEq Addr] in
theorem length_compacted {fifo : List (SynFIFOEntry Key)} (h : (fifo.map (·.createdAt)).Nodup) :
    (fifo.filter fun item => entries.any item.names).length ≤ entries.length := by
  have hnodup : ((fifo.filter fun item => entries.any item.names).map (·.createdAt)).Nodup :=
    h.sublist (List.filter_sublist.map _)
  have hsub : (fifo.filter fun item => entries.any item.names).map (·.createdAt) ⊆
      entries.map (·.createdAt) := by
    intro t ht
    obtain ⟨item, hitem, rfl⟩ := List.mem_map.1 ht
    obtain ⟨rec, hrec, hnames⟩ := List.any_eq_true.1 (List.mem_filter.1 hitem).2
    exact List.mem_map.2 ⟨rec, hrec, (of_decide_eq_true hnames).2⟩
  simpa using (hnodup.subperm hsub).length_le

omit [DecidableEq Addr] in
theorem makeSpaceLocked_sublist (c : Cache Key Addr Ack) (now : ℕ) :
    (c.makeSpaceLocked now).entries <+ c.entries ∧ (c.makeSpaceLocked now).fifo <+ c.fifo := by
  obtain ⟨hentries, hfifo⟩ := evict_sublist (c.entries.filter (·.fresh now)) c.fifo
  unfold Cache.makeSpaceLocked
  refine ⟨hentries.trans List.filter_sublist, ?_⟩
  dsimp only
  split
  · exact List.filter_sublist.trans hfifo
  · exact hfifo

omit [DecidableEq Addr] in
theorem makeSpaceLocked_filed {c : Cache Key Addr Ack} (now : ℕ) (h : Cache.Filed c.entries c.fifo) :
    Cache.Filed (c.makeSpaceLocked now).entries (c.makeSpaceLocked now).fifo ∧
      (c.makeSpaceLocked now).entries.length < synCacheMax := by
  have hfresh : Cache.Filed (c.entries.filter (·.fresh now)) c.fifo := fun rec hrec =>
    h rec (List.mem_filter.1 hrec).1
  obtain ⟨hfiled, hroom⟩ := evict_filed hfresh
  unfold Cache.makeSpaceLocked
  refine ⟨fun rec hrec => ?_, hroom⟩
  obtain ⟨item, hitem, hnames⟩ := hfiled rec hrec
  refine ⟨item, ?_, hnames⟩
  dsimp only
  split
  · exact List.mem_filter.2 ⟨hitem, List.any_eq_true.2 ⟨rec, hrec, hnames⟩⟩
  · exact hitem

omit [DecidableEq Addr] in
theorem mem_reserve {c : Cache Key Addr Ack} {key : Key} {now : ℕ} {ip : Addr}
    {rec : SynRecord Key Addr Ack} (h : rec ∈ ((c.vacate key).reserve key now ip).entries) :
    rec = { key := key, ackFrame := none, createdAt := now, ownerIP := ip } ∨
      rec ∈ c.entries ∧ rec.key ≠ key := by
  refine (List.mem_cons.1 h).imp_right fun hrec => ?_
  obtain ⟨hmem, hkey⟩ := List.mem_filter.1 ((makeSpaceLocked_sublist _ now).1.subset hrec)
  exact ⟨hmem, of_decide_eq_true hkey⟩

-- Items with distinct dates name as many records, so a compacted queue is no longer
-- than the map.
omit [DecidableEq Addr] in
theorem length_fifo_makeSpaceLocked {c : Cache Key Addr Ack} (now : ℕ)
    (h : Cache.Filed c.entries c.fifo) (hdates : (c.fifo.map (·.createdAt)).Nodup) :
    (c.makeSpaceLocked now).fifo.length ≤ 2 * synCacheMax := by
  obtain ⟨-, hfifo⟩ := evict_sublist (c.entries.filter (·.fresh now)) c.fifo
  have hroom := (makeSpaceLocked_filed now h).2
  unfold Cache.makeSpaceLocked at hroom ⊢
  dsimp only at hroom ⊢
  split
  · exact (length_compacted (hdates.sublist (hfifo.map _))).trans (by omega)
  · omega

structure Cache.Sound (c : Cache Key Addr Ack) (times : List ℕ) : Prop where
  keys : (c.entries.map (·.key)).Nodup
  filed : Cache.Filed c.entries c.fifo
  dates : c.fifo.map (·.createdAt) <+ times
  entries_le : c.entries.length ≤ synCacheMax
  fifo_le : c.fifo.length ≤ 2 * synCacheMax + 1

variable {c : Cache Key Addr Ack} {times : List ℕ} {key : Key} {now : ℕ} {ip : Addr}

omit [DecidableEq Addr] in
theorem Cache.Sound.reserve (h : c.Sound times) (hkey : ∀ rec ∈ c.entries, rec.key ≠ key)
    (htimes : times.Nodup) (now : ℕ) (ip : Addr) :
    (c.reserve key now ip).Sound (times ++ [now]) := by
  obtain ⟨hentries, hfifo⟩ := makeSpaceLocked_sublist c now
  obtain ⟨hfiled, hroom⟩ := makeSpaceLocked_filed now h.filed
  have hfifolen := length_fifo_makeSpaceLocked now h.filed (htimes.sublist h.dates)
  constructor
  · refine List.nodup_cons.2 ⟨fun hmem => ?_, h.keys.sublist (hentries.map _)⟩
    obtain ⟨rec, hrec, he⟩ := List.mem_map.1 hmem
    exact hkey rec (hentries.subset hrec) he
  · intro rec hrec
    rcases List.mem_cons.1 hrec with rfl | hrec
    · exact ⟨_, List.mem_append_right _ (List.mem_singleton_self _), by simp [SynFIFOEntry.names]⟩
    · obtain ⟨item, hitem, hnames⟩ := hfiled rec hrec
      exact ⟨item, List.mem_append_left _ hitem, hnames⟩
  · rw [Cache.reserve, List.map_append]
    exact ((hfifo.map _).trans h.dates).append (List.Sublist.refl _)
  · exact hroom
  · rw [Cache.reserve, List.length_append]
    exact Nat.succ_le_succ hfifolen

omit [DecidableEq Addr] in
theorem Cache.Sound.shrink (h : c.Sound times)
    (hsub : entries <+ c.entries) : ({ c with entries := entries } : Cache Key Addr Ack).Sound times where
  keys := h.keys.sublist (hsub.map _)
  filed := fun rec hrec => h.filed rec (hsub.subset hrec)
  dates := h.dates
  entries_le := hsub.length_le.trans h.entries_le
  fifo_le := h.fifo_le

omit [DecidableEq Addr] in
theorem Cache.Sound.complete (h : c.Sound times) (key : Key) (ackFrame : Ack) :
    (c.complete key ackFrame).Sound times where
  keys := by
    have hkeys : (c.complete key ackFrame).entries.map (·.key) = c.entries.map (·.key) := by
      rw [Cache.complete, List.map_map]
      refine List.map_congr_left fun rec _ => ?_
      dsimp only [Function.comp]
      split <;> rfl
    exact hkeys ▸ h.keys
  filed := by
    intro rec hrec
    obtain ⟨old, hold, rfl⟩ := List.mem_map.1 hrec
    obtain ⟨item, hitem, hnames⟩ := h.filed old hold
    refine ⟨item, hitem, ?_⟩
    split
    · exact hnames
    · exact hnames
  dates := h.dates
  entries_le := (List.length_map _).trans_le h.entries_le
  fifo_le := h.fifo_le

theorem Cache.Sound.acquire (h : c.Sound times) (htimes : times.Nodup) (key : Key) (now : ℕ) (ip : Addr) :
    (c.acquire key now ip).2.Sound (times ++ [now]) := by
  rcases acquire_cases c key now ip with ⟨rec, -, -, he⟩ | ⟨-, he⟩
  · rw [he]
    exact { h with dates := h.dates.trans (List.sublist_append_left _ _) }
  · rw [he]
    refine (h.shrink List.filter_sublist).reserve (fun rec hrec => ?_) htimes now ip
    exact of_decide_eq_true (List.mem_filter.1 hrec).2

theorem sound_after (calls : List (Call Key Addr Ack)) (h : (acquireTimes calls).Pairwise (· < ·)) :
    (after calls).Sound (acquireTimes calls) := by
  induction calls using List.reverseRecOn with
  | nil =>
      exact ⟨List.nodup_nil, fun _ => nofun, List.Sublist.refl _, Nat.zero_le _, Nat.zero_le _⟩
  | append_singleton calls call ih =>
      rw [acquireTimes, List.filterMap_append] at h ⊢
      rw [after_concat]
      have hbefore := ih (List.pairwise_append.1 h).1
      cases call with
      | acquire key now ip =>
          exact hbefore.acquire ((List.pairwise_append.1 h).1.imp Nat.ne_of_lt) key now ip
      | complete key ackFrame =>
          exact (List.append_nil _).symm ▸ hbefore.complete key ackFrame
      | abort key =>
          exact (List.append_nil _).symm ▸ hbefore.shrink List.filter_sublist

-- What became of a reservation, by the calls since: nobody settled its key, or the
-- first to do so completed it.
def Settled (key : Key) (later : List (Call Key Addr Ack)) : Option Ack → Prop
  | none => ∀ call ∈ later, ¬call.settles key
  | some ack => ∃ before rest, later = before ++ .complete key ack :: rest ∧
      ∀ call ∈ before, ¬call.settles key

-- A record is what its owner reserved and, first of all, completed.
def SynRecord.Earned (calls : List (Call Key Addr Ack)) (rec : SynRecord Key Addr Ack) : Prop :=
  ∃ earlier later, calls = earlier ++ .acquire rec.key rec.createdAt rec.ownerIP :: later ∧
    ((after earlier).acquire rec.key rec.createdAt rec.ownerIP).1 = (none, true) ∧
    Settled rec.key later rec.ackFrame

theorem SynRecord.Earned.concat {calls : List (Call Key Addr Ack)} {rec : SynRecord Key Addr Ack}
    (h : rec.Earned calls) {call : Call Key Addr Ack}
    (hcall : call.settles rec.key → rec.ackFrame.isSome = true) : rec.Earned (calls ++ [call]) := by
  obtain ⟨earlier, later, rfl, howner, hsettled⟩ := h
  refine ⟨earlier, later ++ [call], by simp, howner, ?_⟩
  cases hack : rec.ackFrame with
  | none =>
      rw [hack] at hsettled hcall
      intro other hother
      rcases List.mem_append.1 hother with hother | hother
      · exact hsettled other hother
      · rw [List.mem_singleton.1 hother]
        exact fun hs => Bool.false_ne_true (hcall hs)
  | some ack =>
      rw [hack] at hsettled
      obtain ⟨before, rest, rfl, hbefore⟩ := hsettled
      exact ⟨before, rest ++ [call], by simp, hbefore⟩

theorem earned_complete {calls : List (Call Key Addr Ack)} {old : SynRecord Key Addr Ack}
    (h : old.Earned calls) (ackFrame : Ack) :
    (old.publish ackFrame).Earned (calls ++ [.complete old.key ackFrame]) := by
  cases hack : old.ackFrame with
  | some ack =>
      have hsame : old.publish ackFrame = old := by
        rw [SynRecord.publish, hack, Option.getD_some, ← hack]
      rw [hsame]
      exact h.concat fun _ => by rw [hack]; rfl
  | none =>
      obtain ⟨earlier, later, rfl, howner, hsettled⟩ := h
      rw [hack] at hsettled
      refine ⟨earlier, later ++ [.complete old.key ackFrame], by simp [SynRecord.publish], howner, ?_⟩
      rw [SynRecord.publish, hack]
      exact ⟨later, [], rfl, hsettled⟩

theorem earned_after (calls : List (Call Key Addr Ack)) :
    ∀ rec ∈ (after calls).entries, rec.Earned calls := by
  induction calls using List.reverseRecOn with
  | nil => exact fun _ => nofun
  | append_singleton calls call ih =>
      rw [after_concat]
      cases call with
      | acquire key now ip =>
          have hkept : ∀ rec ∈ (after calls).entries,
              rec.Earned (calls ++ [.acquire key now ip]) := fun rec hrec => (ih rec hrec).concat nofun
          rw [Cache.apply]
          rcases acquire_cases (after calls) key now ip with ⟨_, -, -, he⟩ | ⟨-, he⟩
          · rw [he]
            exact hkept
          · intro rec hrec
            rw [he] at hrec
            rcases mem_reserve hrec with rfl | ⟨hold, -⟩
            · exact ⟨calls, [], rfl, congrArg Prod.fst he, fun _ => nofun⟩
            · exact hkept rec hold
      | complete key ackFrame =>
          intro rec hrec
          obtain ⟨old, hold, rfl⟩ := List.mem_map.1 hrec
          split
          · rename_i hkey
            exact hkey ▸ earned_complete (ih old hold) ackFrame
          · rename_i hkey
            exact (ih old hold).concat fun hsettles => absurd hsettles.symm hkey
      | abort key =>
          intro rec hrec
          obtain ⟨hmem, hkept⟩ := List.mem_filter.1 hrec
          refine (ih rec hmem).concat fun hsettles => ?_
          have hnot := of_decide_eq_true hkept
          rw [not_and, Option.isNone_iff_eq_none, ← ne_eq, Option.ne_none_iff_isSome] at hnot
          exact hnot hsettles.symm

theorem cache_bounded_consistent (calls : List (Call Key Addr Ack))
    (h : (acquireTimes calls).Pairwise (· < ·)) :
    (after calls).entries.length ≤ synCacheMax ∧
    (after calls).fifo.length ≤ 2 * synCacheMax + 1 ∧
    (∀ rec ∈ (after calls).entries, ∃ item ∈ (after calls).fifo,
      item.key = rec.key ∧ item.createdAt = rec.createdAt) ∧
    (∀ now, ((after calls).makeSpaceLocked now).entries.length < synCacheMax) ∧
    ∀ key now ip ack owner, ((after calls).acquire key now ip).1 = (some ack, owner) →
      ∃ rec ∈ (after calls).entries, rec.key = key ∧ rec.ownerIP = ip ∧ rec.ackFrame = some ack ∧
        now - rec.createdAt ≤ synCacheTTL ∧
        ∃ earlier before rest, calls = earlier ++ .acquire key rec.createdAt ip ::
            (before ++ .complete key ack :: rest) ∧
          ((after earlier).acquire key rec.createdAt ip).1 = (none, true) ∧
          ∀ call ∈ before, ¬call.settles key := by
  have hsound := sound_after calls h
  refine ⟨hsound.entries_le, hsound.fifo_le, fun rec hrec => ?_,
    fun now => (makeSpaceLocked_filed now hsound.filed).2, ?_⟩
  · obtain ⟨item, hitem, hnames⟩ := hsound.filed rec hrec
    obtain ⟨hkey, hdate⟩ := of_decide_eq_true hnames
    exact ⟨item, hitem, hkey.symm, hdate.symm⟩
  · intro key now ip ack owner hack
    rcases acquire_cases (after calls) key now ip with ⟨rec, hfind, hfresh, he⟩ | ⟨-, he⟩
    · obtain ⟨hrec, hkey⟩ := of_find hfind
      rw [he, Prod.mk.injEq] at hack
      obtain ⟨hip, hframe⟩ := Option.ite_none_right_eq_some.1 hack.1
      obtain ⟨earlier, later, hcalls, howner, hsettled⟩ := earned_after calls rec hrec
      rw [hframe] at hsettled
      obtain ⟨before, rest, rfl, hbefore⟩ := hsettled
      subst hkey hip
      exact ⟨rec, hrec, rfl, rfl, hframe, of_decide_eq_true hfresh, earlier, before, rest, hcalls,
        howner, hbefore⟩
    · rw [he] at hack
      cases hack

-- A reservation at 0 from address 7, completed with ACK 99: the retransmitted SYN
-- of the same address gets it, at the end of the TTL still.
def completedCalls : List (Call ℕ ℕ ℕ) :=
  [.acquire 1 0 7, .complete 1 99]

theorem completed_ack_returned :
    (acquireTimes completedCalls).Pairwise (· < ·) ∧
    ((after completedCalls).acquire 1 synCacheTTL 7).1 = (some 99, false) ∧
    ∃ rec ∈ (after completedCalls).entries, rec.ownerIP = 7 ∧ rec.ackFrame = some 99 := by
  have hpaired : (acquireTimes completedCalls).Pairwise (· < ·) := by decide
  have hack : ((after completedCalls).acquire 1 synCacheTTL 7).1 = (some 99, false) := by decide
  obtain ⟨rec, hrec, -, hip, hframe, -⟩ :=
    (cache_bounded_consistent completedCalls hpaired).2.2.2.2 1 synCacheTTL 7 99 false hack
  exact ⟨hpaired, hack, rec, hrec, hip, hframe⟩

end UdpCustom.SynCache
