import UdpCustom.Fec.Completeness
import UdpCustom.Lib.Unordered

-- How much a receiver keeps, whatever it is sent.
namespace UdpCustom.Fec

open UdpCustom.Frame
open scoped List

variable {code : ErasureCode UInt8} {r : FecReceiver} {b : RecvBlock} {limit : ℕ}
  {frame : UDPCFrame}

-- An attempt caches records of the block only and files no block.
structure Attempted (b : RecvBlock) (r r' : FecReceiver) : Prop where
  recent : ∀ x ∈ r'.recent, x ∈ r.recent ∨ ∃ i < b.dataShards, x = b.baseSeq + i
  blocks : ∀ base c, r'.blocks.lookup base = some c → r.blocks.lookup base = some c

theorem Attempted.refl (r : FecReceiver) (b : RecvBlock) : Attempted b r r :=
  ⟨fun _ => .inl, fun _ _ => id⟩

theorem Attempted.drop {r' : FecReceiver} (h : Attempted b r r') (base : ℕ) :
    Attempted b r (r'.dropBlock base) :=
  ⟨h.recent, fun at' c hc => h.blocks at' c (SeqMap.of_lookup_erase hc)⟩

theorem attempted_rebuild {shards : List Bytes} {missing : List ℕ}
    (hmissing : ∀ i ∈ missing, i < b.dataShards) :
    Attempted b r (FecReceiver.rebuild b shards missing r).2 := by
  induction missing generalizing r with
  | nil => exact .refl r b
  | cons i rest ih =>
      rw [FecReceiver.rebuild]
      split
      · exact .refl r b
      · rename_i payload _
        have hrest := @ih { r with recent := r.recent.insert (b.baseSeq + i) payload }
          fun j hj => hmissing j (List.mem_cons_of_mem _ hj)
        refine ⟨fun x hx => ?_, hrest.blocks⟩
        rcases hrest.recent x hx with hmem | hnew
        · rcases Finmap.mem_insert.1 hmem with rfl | hold
          · exact .inr ⟨i, hmissing i List.mem_cons_self, rfl⟩
          · exact .inl hold
        · exact .inr hnew

theorem attempted_tryRecover (r : FecReceiver) (b : RecvBlock) :
    Attempted b r (r.tryRecover code b).2 := by
  unfold FecReceiver.tryRecover
  dsimp only
  rw [← FecReceiver.missing]
  split_ifs
  · exact .refl r b
  · exact (Attempted.refl r b).drop _
  · exact .refl r b
  · exact .refl r b
  · split
    · exact .refl r b
    · rename_i shards _
      have hrebuild : Attempted b r (FecReceiver.rebuild b shards (r.missing b) r).2 :=
        attempted_rebuild fun i hi => (mem_missing.1 hi).1
      split
      · rename_i heq
        rw [heq] at hrebuild
        exact hrebuild
      · rename_i heq
        rw [heq] at hrebuild
        exact hrebuild.drop _

-- One attempt to rebuild a block: the receiver just before it, and the block.
abbrev Attempt := FecReceiver × RecvBlock

def FecReceiver.attempts (code : ErasureCode UInt8) (seq : ℕ) : List ℕ → FecReceiver → List Attempt
  | [], _ => []
  | base :: rest, r =>
    match r.blocks.lookup base with
    | none => attempts code seq rest r
    | some b =>
      if b.contains seq then (r, b) :: attempts code seq rest (r.tryRecover code b).2
      else attempts code seq rest r

-- The attempts of one arrival cache nothing beyond `reach`, if that has the records of
-- every block they may try.
theorem tryBlocks_within (code) (scan : List ℕ) {reach : Finset ℕ} {seq : ℕ}
    (hrecent : ∀ x ∈ r.recent, x ∈ reach)
    (hblocks : ∀ base b, r.blocks.lookup base = some b → b.contains seq = true →
      ∀ i < b.dataShards, b.baseSeq + i ∈ reach) :
    (∀ a ∈ r.attempts code seq scan, ∀ x ∈ (a.1.tryRecover code a.2).2.recent, x ∈ reach) ∧
      (∀ x ∈ (FecReceiver.tryBlocks code seq scan r).2.recent, x ∈ reach) ∧
      ∀ base b, (FecReceiver.tryBlocks code seq scan r).2.blocks.lookup base = some b →
        r.blocks.lookup base = some b := by
  induction scan generalizing r with
  | nil => exact ⟨nofun, hrecent, fun _ _ => id⟩
  | cons base rest ih =>
      unfold FecReceiver.tryBlocks FecReceiver.attempts
      cases hb : r.blocks.lookup base with
      | none => exact ih hrecent hblocks
      | some b =>
          dsimp only
          split
          · rename_i hin
            have htried : Attempted b r (r.tryRecover code b).2 := attempted_tryRecover r b
            have hafter : ∀ x ∈ (r.tryRecover code b).2.recent, x ∈ reach := by
              intro x hx
              rcases htried.recent x hx with hold | ⟨i, hi, rfl⟩
              · exact hrecent x hold
              · exact hblocks base b hb hin i hi
            obtain ⟨hlater, hend, hkept⟩ := ih hafter fun base c hc =>
              hblocks base c (htried.blocks base c hc)
            exact ⟨List.forall_mem_cons.2 ⟨hafter, hlater⟩, hend,
              fun base c hc => htried.blocks base c (hkept base c hc)⟩
          · exact ih hrecent hblocks

-- The search for the oldest block finds one of those it is shown.
theorem mem_oldestBlock {blocks : SeqMap RecvBlock} {scan : List ℕ} (h : ∃ base ∈ scan, base ∈ blocks) :
    ∃ base ∈ oldestBlock blocks scan, base ∈ blocks := by
  unfold oldestBlock
  refine (Unordered.exists_foldl_best (fun best base => ?_) scan none (.inr h)).imp
    fun o ho => ⟨ho.1, (ho.2.resolve_left nofun).2⟩
  cases hfirst : blocks.lookup base with
  | none => exact .inl ⟨rfl, fun hin => absurd hin (Finmap.lookup_eq_none.1 hfirst)⟩
  | some b =>
      have hin : base ∈ blocks := SeqMap.mem_iff_isSome.2 (by rw [hfirst]; rfl)
      cases hold : best.bind blocks.lookup with
      | none => exact .inr ⟨rfl, hin⟩
      | some oldest =>
          dsimp only
          split
          · exact .inr ⟨rfl, hin⟩
          · refine .inl ⟨rfl, fun _ hnone => ?_⟩
            rw [hnone] at hold
            cases hold

theorem size_evictOldest {scan : List ℕ} {n : ℕ} {blocks : SeqMap RecvBlock}
    (hwalk : ∀ base ∈ blocks, base ∈ scan) (hn : SeqMap.size blocks ≤ n + fecMaxPendingBlocks) :
    SeqMap.size (evictOldest scan n blocks) ≤ fecMaxPendingBlocks := by
  induction n generalizing blocks with
  | zero =>
      rw [Nat.zero_add] at hn
      exact hn
  | succ n ih =>
      unfold evictOldest
      split
      · rename_i hmany
        have hany : ∃ base ∈ scan, base ∈ blocks := by
          obtain ⟨base, hbase⟩ := Finset.card_pos.1 (Nat.zero_lt_of_lt hmany)
          exact ⟨base, hwalk base (Finmap.mem_keys.1 hbase), Finmap.mem_keys.1 hbase⟩
        obtain ⟨oldest, holdest, hin⟩ := mem_oldestBlock hany
        rw [Option.mem_def.1 holdest]
        have hsize := SeqMap.size_erase_of_mem hin
        exact ih (fun base hbase => hwalk base (Finmap.mem_erase.1 hbase).2) (by omega)
      · rename_i hfew
        exact Nat.not_lt.1 hfew

theorem size_pruneBlocks {now : ℕ} {scan : List ℕ} (hwalk : ∀ base ∈ r.blocks, base ∈ scan) :
    SeqMap.size (r.pruneBlocks now scan).blocks ≤ fecMaxPendingBlocks :=
  size_evictOldest (fun base hbase => hwalk base (SeqMap.of_mem_eraseAll hbase))
    (Nat.le_add_right _ _)

theorem recent_pruneBlocks (r : FecReceiver) (now : ℕ) (scan : List ℕ) :
    (r.pruneBlocks now scan).recent = r.recent :=
  rfl

-- Their limits are large literals, which unification would otherwise count down.
seal FecReceiver.pruneRecent FecReceiver.pruneBlocks

-- The order in which a range over the map meets its keys.
abbrev Walk :=
  { walk : List ℕ → List ℕ // ∀ keys, walk keys ~ keys }

inductive Call
  | data (seq : ℕ) (payload : Bytes) (now : ℕ) (scan evict : Walk)
  | parity (frame : UDPCFrame) (now : ℕ) (evict : Walk)

-- A range over the blocks meets those there are, the one just filed included.
def FecReceiver.apply (code : ErasureCode UInt8) (r : FecReceiver) : Call → FecReceiver
  | .data seq payload now scan evict =>
    (r.onData code seq payload now (scan.1 (SeqMap.ascending r.blocks))
      (evict.1 (SeqMap.ascending r.blocks))).2
  | .parity frame now evict =>
    (r.onParityFrame code frame now (evict.1 (SeqMap.ascending r.blocks ++ [frame.seq]))).2

theorem baseSeq_of_parse {ext : Bool} {p : ParityShard}
    (h : parseFECParityFrameExt frame ext = .ok p) : p.baseSeq = frame.seq := by
  unfold parseFECParityFrameExt at h
  split at h
  · cases h
  · dsimp only at h
    split at h
    · cases h
    · split at h
      · cases h
      · cases h
        rfl

-- The one attempt that a parity frame leads to, unless it is turned away.
def FecReceiver.filing (r : FecReceiver) (frame : UDPCFrame) (now : ℕ) : Option Attempt :=
  match parseFECParityFrameExt frame r.extParity with
  | .error _ => none
  | .ok p => (r.fileParity p now).map fun block =>
    (r.putBlock p.baseSeq block, block)

theorem onParityFrame_filing (frame : UDPCFrame) (now : ℕ) (evict : List ℕ) :
    (r.onParityFrame code frame now evict).2 =
      match r.filing frame now with
      | none => r
      | some a => (a.1.tryRecover code a.2).2.pruneBlocks now evict := by
  unfold FecReceiver.filing
  cases hparse : parseFECParityFrameExt frame r.extParity with
  | error e =>
      unfold FecReceiver.onParityFrame
      rw [hparse]
  | ok p =>
      rw [onParityFrame_eq hparse]
      dsimp only
      cases r.fileParity p now with
      | none => rfl
      | some block => rfl

theorem mem_blocks_filing {now : ℕ} {a : Attempt}
    (h : r.filing frame now = some a) {base : ℕ} (hbase : base ∈ a.1.blocks) :
    base = frame.seq ∨ base ∈ r.blocks := by
  unfold FecReceiver.filing at h
  cases hparse : parseFECParityFrameExt frame r.extParity with
  | error e =>
      rw [hparse] at h
      cases h
  | ok p =>
      rw [hparse] at h
      obtain ⟨block, -, rfl⟩ := Option.map_eq_some_iff.1 h
      rcases Finmap.mem_insert.1 hbase with rfl | hold
      · exact .inl (baseSeq_of_parse hparse)
      · exact .inr hold

-- The attempts a call makes, one after another.
def FecReceiver.tries (code : ErasureCode UInt8) (r : FecReceiver) : Call → List Attempt
  | .data seq payload _ scan _ =>
    if seq = 0 then []
    else (r.remember seq payload).pruneRecent.attempts code seq (scan.1 (SeqMap.ascending r.blocks))
  | .parity frame now _ => (r.filing frame now).toList

-- The receiver at every point of a call at which it may hold more than before.
def FecReceiver.during (code : ErasureCode UInt8) (r : FecReceiver) (call : Call) : List FecReceiver :=
  (match call with
  | .data seq payload _ _ _ => if seq = 0 then [] else [r.remember seq payload]
  | .parity .. => []) ++
    (r.tries code call).map fun a => (a.1.tryRecover code a.2).2

structure Bounded (code : ErasureCode UInt8) (limit : ℕ) (r : FecReceiver) (call : Call) : Prop where
  during : ∀ r' ∈ r.during code call, SeqMap.size r'.recent ≤ limit + fecDataShardsMax
  recent : SeqMap.size (r.apply code call).recent ≤ limit
  blocks : SeqMap.size (r.apply code call).blocks ≤ fecMaxPendingBlocks

theorem size_remember (r : FecReceiver) (seq : ℕ) (payload : Bytes) :
    SeqMap.size (r.remember seq payload).recent ≤ SeqMap.size r.recent + 1 := by
  unfold FecReceiver.remember
  split
  · exact Nat.le_succ _
  · rename_i hnew
    exact (SeqMap.size_insert_of_notMem hnew payload).le

-- The receiver that the attempts of a call find, and the blocks they may try.
def FecReceiver.starts (r : FecReceiver) : Call → List (FecReceiver × List RecvBlock)
  | .data seq payload _ _ _ =>
    if seq = 0 then []
    else
      let r := (r.remember seq payload).pruneRecent
      [(r, ((SeqMap.ascending r.blocks).filterMap r.blocks.lookup).filter (·.contains seq))]
  | .parity frame now _ => (r.filing frame now).toList.map fun a => (a.1, [a.2])

-- What is in the cache, and every record of the blocks.
def FecReceiver.reach (r : FecReceiver) (blocks : List RecvBlock) : Finset ℕ :=
  r.recent.keys ∪ (blocks.flatMap fun b => (List.range b.dataShards).map (b.baseSeq + ·)).toFinset

def FecReceiver.HasRoom (limit : ℕ) (r : FecReceiver) (call : Call) : Prop :=
  ∀ start ∈ r.starts call, (start.1.reach start.2).card ≤ limit

instance (limit : ℕ) (r : FecReceiver) (call : Call) : Decidable (r.HasRoom limit call) := by
  unfold FecReceiver.HasRoom
  infer_instance

theorem mem_reach_of_recent {blocks : List RecvBlock} {x : ℕ} (h : x ∈ r.recent) :
    x ∈ r.reach blocks :=
  Finset.mem_union_left _ (Finmap.mem_keys.2 h)

theorem mem_reach_of_block {blocks : List RecvBlock} (hb : b ∈ blocks) {i : ℕ}
    (hi : i < b.dataShards) : b.baseSeq + i ∈ r.reach blocks := by
  refine Finset.mem_union_right _ (List.mem_toFinset.2 (List.mem_flatMap.2 ⟨b, hb, ?_⟩))
  exact List.mem_map.2 ⟨i, List.mem_range.2 hi, rfl⟩

theorem size_le_of_reach {reach : Finset ℕ} (hcard : reach.card ≤ limit)
    (h : ∀ x ∈ r.recent, x ∈ reach) : SeqMap.size r.recent ≤ limit :=
  (Finset.card_le_card fun x hx => h x (Finmap.mem_keys.1 hx)).trans hcard

theorem data_bounded (hrecent : SeqMap.size r.recent ≤ limit) {seq : ℕ}
    (hseq : seq ≠ 0) {payload : Bytes} {now : ℕ} {scan evict : Walk}
    (hroom : r.HasRoom limit (.data seq payload now scan evict)) :
    Bounded code limit r (.data seq payload now scan evict) := by
  set found := (r.remember seq payload).pruneRecent with hfound
  set blocks := ((SeqMap.ascending found.blocks).filterMap found.blocks.lookup).filter
    (·.contains seq) with hblocks
  have hcard : (found.reach blocks).card ≤ limit := by
    refine hroom (found, blocks) ?_
    rw [FecReceiver.starts, if_neg hseq]
    exact List.mem_singleton_self _
  have htried : ∀ base b, found.blocks.lookup base = some b → b.contains seq = true →
      ∀ i < b.dataShards, b.baseSeq + i ∈ found.reach blocks := by
    intro base b hb hin i hi
    refine mem_reach_of_block (List.mem_filter.2 ⟨List.mem_filterMap.2 ⟨base, ?_, hb⟩, hin⟩) hi
    exact SeqMap.mem_ascending.2 (Finmap.mem_of_lookup_eq_some hb)
  obtain ⟨hattempts, hafter, hkept⟩ := tryBlocks_within code
    (scan.1 (SeqMap.ascending r.blocks)) (fun x hx => mem_reach_of_recent hx) htried
  have happly : r.apply code (.data seq payload now scan evict) =
      (FecReceiver.tryBlocks code seq (scan.1 (SeqMap.ascending r.blocks)) found).2.pruneBlocks now
        (evict.1 (SeqMap.ascending r.blocks)) := by
    unfold FecReceiver.apply
    dsimp only
    rw [onData_eq r hseq]
  refine ⟨fun r' hr' => ?_, ?_, ?_⟩
  · unfold FecReceiver.during FecReceiver.tries at hr'
    dsimp only at hr'
    rw [if_neg hseq, if_neg hseq] at hr'
    rcases List.mem_append.1 hr' with hfirst | hlater
    · rw [List.mem_singleton.1 hfirst]
      have hone := size_remember r seq payload
      have hshards : 1 ≤ fecDataShardsMax := by decide
      omega
    · obtain ⟨a, ha, rfl⟩ := List.mem_map.1 hlater
      exact (size_le_of_reach hcard (hattempts a ha)).trans (Nat.le_add_right _ _)
  · rw [happly, recent_pruneBlocks]
    exact size_le_of_reach hcard hafter
  · rw [happly]
    refine size_pruneBlocks fun base hbase => (evict.2 _).mem_iff.2 (SeqMap.mem_ascending.2 ?_)
    obtain ⟨b, hb⟩ := Option.isSome_iff_exists.1 (SeqMap.mem_iff_isSome.1 hbase)
    have hin := Finmap.mem_of_lookup_eq_some (hkept base b hb)
    rw [hfound, blocks_pruneRecent, blocks_remember] at hin
    exact hin

theorem parity_bounded {now : ℕ} {a : Attempt}
    (hfiling : r.filing frame now = some a) {evict : Walk}
    (hroom : r.HasRoom limit (.parity frame now evict)) :
    Bounded code limit r (.parity frame now evict) := by
  have hcard : (a.1.reach [a.2]).card ≤ limit := by
    refine hroom (a.1, [a.2]) ?_
    rw [FecReceiver.starts, hfiling]
    exact List.mem_singleton_self _
  have htried : Attempted a.2 a.1 (a.1.tryRecover code a.2).2 := attempted_tryRecover a.1 a.2
  have hsize : SeqMap.size (a.1.tryRecover code a.2).2.recent ≤ limit := by
    refine size_le_of_reach hcard fun x hx => ?_
    rcases htried.recent x hx with hold | ⟨i, hi, rfl⟩
    · exact mem_reach_of_recent hold
    · exact mem_reach_of_block (List.mem_singleton_self _) hi
  have happly : r.apply code (.parity frame now evict) = (a.1.tryRecover code a.2).2.pruneBlocks now
      (evict.1 (SeqMap.ascending r.blocks ++ [frame.seq])) := by
    unfold FecReceiver.apply
    dsimp only
    rw [onParityFrame_filing, hfiling]
  refine ⟨fun r' hr' => ?_, ?_, ?_⟩
  · unfold FecReceiver.during FecReceiver.tries at hr'
    dsimp only at hr'
    rw [hfiling] at hr'
    cases List.mem_singleton.1 hr'
    exact hsize.trans (Nat.le_add_right _ _)
  · rw [happly, recent_pruneBlocks]
    exact hsize
  · rw [happly]
    refine size_pruneBlocks fun base hbase => (evict.2 _).mem_iff.2 (List.mem_append.2 ?_)
    obtain ⟨b, hb⟩ := Option.isSome_iff_exists.1 (SeqMap.mem_iff_isSome.1 hbase)
    have hin := Finmap.mem_of_lookup_eq_some (htried.blocks base b hb)
    rcases mem_blocks_filing hfiling hin with rfl | hold
    · exact .inr (List.mem_singleton_self _)
    · exact .inl (SeqMap.mem_ascending.2 hold)

-- A call that is turned away changes nothing.
theorem bounded_of_unchanged {call : Call} (hrecent : SeqMap.size r.recent ≤ limit)
    (hblocks : SeqMap.size r.blocks ≤ fecMaxPendingBlocks) (hduring : r.during code call = [])
    (happly : r.apply code call = r) : Bounded code limit r call := by
  refine ⟨fun r' hr' => ?_, ?_, ?_⟩
  · rw [hduring] at hr'
    cases hr'
  · rw [happly]
    exact hrecent
  · rw [happly]
    exact hblocks

theorem bounded_of_room (hrecent : SeqMap.size r.recent ≤ limit)
    (hblocks : SeqMap.size r.blocks ≤ fecMaxPendingBlocks) {call : Call}
    (hroom : r.HasRoom limit call) : Bounded code limit r call := by
  cases call with
  | data seq payload now scan evict =>
      by_cases hseq : seq = 0
      · subst hseq
        exact bounded_of_unchanged hrecent hblocks rfl rfl
      · exact data_bounded hrecent hseq hroom
  | parity frame now evict =>
      cases hfiling : r.filing frame now with
      | none =>
          refine bounded_of_unchanged hrecent hblocks ?_ ?_
          · unfold FecReceiver.during FecReceiver.tries
            dsimp only
            rw [hfiling]
            rfl
          · unfold FecReceiver.apply
            dsimp only
            rw [onParityFrame_filing, hfiling]
      | some a => exact parity_bounded hfiling hroom

-- The calls of a run, each with the receiver it finds.
def FecReceiver.history (code : ErasureCode UInt8) :
    List Call → FecReceiver → List (FecReceiver × Call)
  | [], _ => []
  | call :: rest, r => (r, call) :: history code rest (r.apply code call)

theorem history_bounded {calls : List Call} (hrecent : SeqMap.size r.recent ≤ limit)
    (hblocks : SeqMap.size r.blocks ≤ fecMaxPendingBlocks)
    (hroom : ∀ h ∈ r.history code calls, h.1.HasRoom limit h.2) :
    ∀ h ∈ r.history code calls, Bounded code limit h.1 h.2 := by
  induction calls generalizing r with
  | nil => nofun
  | cons call rest ih =>
      unfold FecReceiver.history at hroom ⊢
      rw [List.forall_mem_cons] at hroom ⊢
      have hfirst : Bounded code limit r call := bounded_of_room hrecent hblocks hroom.1
      exact ⟨hfirst, ih hfirst.recent hfirst.blocks hroom.2⟩

-- Parity of blocks of one record, each with a sequence number of its own. The parity of
-- one record is a copy of it; here it is empty.
def parityFlood (n : ℕ) : List Call :=
  (List.range n).map fun i =>
    .parity { sampleHeader with seq := i + 1, data := [0, 0] } 0 ⟨id, fun _ => .refl _⟩

-- Twenty of them and a DATA record after them fit.
def floodThenData : List Call :=
  parityFlood 20 ++ [.data 200 [1] 0 ⟨id, fun _ => .refl _⟩ ⟨id, fun _ => .refl _⟩]

end UdpCustom.Fec
