import UdpCustom.SynCache

namespace UdpCustom.SynCache

variable {Key Addr Ack : Type} [DecidableEq Key] [DecidableEq Addr] {c : Cache Key Addr Ack} {key : Key}
  {now : ℕ} {ip : Addr}

omit [DecidableEq Addr] in
theorem evict_of_room {entries : List (SynRecord Key Addr Ack)} (h : entries.length < synCacheMax)
    (fifo : List (SynFIFOEntry Key)) : evict entries fifo = (entries, fifo) := by
  cases fifo with
  | nil => rfl
  | cons oldest fifo => rw [evict, if_neg (Nat.not_le.2 h)]

-- As long as there is room only what has expired goes.
omit [DecidableEq Addr] in
theorem entries_reserve (h : c.entries.length < synCacheMax) (key : Key) (now : ℕ) (ip : Addr) :
    (c.reserve key now ip).entries =
      { key := key, ackFrame := none, createdAt := now, ownerIP := ip } ::
        c.entries.filter (·.fresh now) := by
  have hroom : (c.entries.filter (·.fresh now)).length < synCacheMax :=
    (List.length_filter_le _ _).trans_lt h
  rw [Cache.reserve, Cache.makeSpaceLocked, evict_of_room hroom]

omit [DecidableEq Addr] in
theorem of_find {rec : SynRecord Key Addr Ack} (hfind : c.entries.find? (·.key = key) = some rec) :
    rec ∈ c.entries ∧ rec.key = key := by
  have hkey := List.find?_some hfind
  exact ⟨List.mem_of_find?_eq_some hfind, of_decide_eq_true hkey⟩

def Cache.vacate (c : Cache Key Addr Ack) (key : Key) : Cache Key Addr Ack :=
  { c with entries := c.entries.filter (·.key ≠ key) }

theorem acquire_cases (c : Cache Key Addr Ack) (key : Key) (now : ℕ) (ip : Addr) :
    (∃ rec, c.entries.find? (·.key = key) = some rec ∧ rec.fresh now = true ∧
      c.acquire key now ip = ((if rec.ownerIP = ip then rec.ackFrame else none, false), c)) ∨
    ((∀ rec, c.entries.find? (·.key = key) = some rec → rec.fresh now = false) ∧
      c.acquire key now ip = ((none, true), (c.vacate key).reserve key now ip)) := by
  unfold Cache.acquire
  split
  · rename_i rec hrec
    split
    · rename_i hfresh
      exact .inl ⟨rec, hrec, hfresh, rfl⟩
    · rename_i hstale
      refine .inr ⟨fun rec' he => ?_, rfl⟩
      cases hrec.symm.trans he
      exact Bool.eq_false_iff.2 hstale
  · rename_i hnone
    refine .inr ⟨fun rec he => absurd (hnone.symm.trans he) nofun, ?_⟩
    have hsame : c.vacate key = c := by
      have hkeep : c.entries.filter (·.key ≠ key) = c.entries :=
        List.filter_eq_self.2 fun rec hrec => by simpa using List.find?_eq_none.1 hnone rec hrec
      rw [Cache.vacate, hkeep]
    rw [hsame]

-- A key with a record still fresh has no new owner.
theorem acquire_held {rec : SynRecord Key Addr Ack} (hfind : c.entries.find? (·.key = key) = some rec)
    (hfresh : rec.fresh now = true) (ip : Addr) :
    (c.acquire key now ip).1.2 = false ∧ (c.acquire key now ip).2 = c := by
  rcases acquire_cases c key now ip with ⟨_, -, -, he⟩ | ⟨hstale, -⟩
  · rw [he]
    exact ⟨rfl, rfl⟩
  · exact absurd hfresh (Bool.eq_false_iff.1 (hstale rec hfind))

-- Otherwise the caller owns it, and its record joins the fresh ones of other keys.
theorem acquire_free (hfind : ∀ rec, c.entries.find? (·.key = key) = some rec → rec.fresh now = false)
    (hroom : (c.entries.filter (·.key ≠ key)).length < synCacheMax) (ip : Addr) :
    (c.acquire key now ip).1 = (none, true) ∧ (c.acquire key now ip).2.entries =
      { key := key, ackFrame := none, createdAt := now, ownerIP := ip } ::
        c.entries.filter fun rec => rec.key ≠ key ∧ rec.fresh now := by
  rcases acquire_cases c key now ip with ⟨rec, hrec, hfresh, -⟩ | ⟨-, he⟩
  · exact absurd hfresh (Bool.eq_false_iff.1 (hfind rec hrec))
  · rw [he]
    refine ⟨rfl, ?_⟩
    rw [entries_reserve hroom, Cache.vacate, List.filter_filter]
    refine congrArg _ (List.filter_congr fun rec _ => ?_)
    simp [Bool.and_comm]

end UdpCustom.SynCache
