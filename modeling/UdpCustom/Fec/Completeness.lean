import UdpCustom.Fec.Reception

-- Every record of a block that has not arrived is returned, once, as soon as
-- enough of the block is there.
namespace UdpCustom.Fec

open UdpCustom.Frame Transition

variable {code : ErasureCode UInt8} {p : ParityShard} {now : ℕ} {evict : List ℕ}

section Receiver

variable {records : Records} {ext : Bool} {r : FecReceiver}

theorem mem_remember {seq : ℕ} {payload : Bytes} {x : ℕ} :
    x ∈ (r.remember seq payload).recent ↔ x = seq ∨ x ∈ r.recent := by
  unfold FecReceiver.remember
  split
  · rename_i hmem
    constructor
    · exact .inr
    · rintro (rfl | hx)
      · exact hmem
      · exact hx
  · exact Finmap.mem_insert

theorem blocks_remember (r : FecReceiver) (seq : ℕ) (payload : Bytes) :
    (r.remember seq payload).blocks = r.blocks := by
  unfold FecReceiver.remember
  split <;> rfl

theorem genuine_remember (h : r.Genuine code records ext) {seq : ℕ} {payload : Bytes}
    (hrec : records seq = some payload) : (r.remember seq payload).Genuine code records ext := by
  unfold FecReceiver.remember
  split
  · exact h
  · have hinsert := genuine_insert_recent h hrec
    exact ⟨hinsert.extParity, hinsert.recent, hinsert.blocks⟩

theorem blocks_pruneRecent (r : FecReceiver) : r.pruneRecent.blocks = r.blocks := by
  unfold FecReceiver.pruneRecent
  dsimp only
  split <;> rfl

theorem notMem_pruneRecent {x : ℕ} (h : x ∉ r.recent) : x ∉ r.pruneRecent.recent := by
  unfold FecReceiver.pruneRecent
  dsimp only
  generalize List.take _ _ = ks
  refine mt SeqMap.of_mem_eraseAll ?_
  split_ifs with hold
  · exact mt SeqMap.of_mem_eraseAll h
  · exact h

theorem lookup_pruneBlocks {base : ℕ} {b : RecvBlock}
    (h : (r.pruneBlocks now evict).blocks.lookup base = some b) : r.blocks.lookup base = some b := by
  have hlive := lookup_evictOldest h
  rw [SeqMap.lookup_eraseAll] at hlive
  split_ifs at hlive
  exact hlive

theorem lookup_of_unpruned {base : ℕ}
    (hkept : base ∈ r.blocks → base ∈ (r.pruneBlocks now evict).blocks) :
    (r.pruneBlocks now evict).blocks.lookup base = r.blocks.lookup base := by
  cases h : (r.pruneBlocks now evict).blocks.lookup base with
  | some b => exact (lookup_pruneBlocks h).symm
  | none =>
      rw [Finmap.lookup_eq_none] at h
      exact (Finmap.lookup_eq_none.2 (mt hkept h)).symm

end Receiver

-- Its limits are large literals, which unification would otherwise count down.
seal FecReceiver.pruneRecent

theorem mem_pruneRecent {r : FecReceiver} {x : ℕ} (h : x ∈ r.recent → x ∈ r.pruneRecent.recent) :
    x ∈ r.pruneRecent.recent ↔ x ∈ r.recent :=
  ⟨not_imp_not.1 notMem_pruneRecent, h⟩

-- A record of the block is remembered when it arrived or was returned, and it is
-- returned at most once.
structure Accounted (e : Emission) (s : Reception) : Prop where
  recent : ∀ src ∈ e.block,
    src.seq ∈ s.receiver.recent ↔ src.seq ∈ s.arrived ∨ src.seq ∈ s.returned.map (·.seq)
  once : ∀ src ∈ e.block, (s.returned.map (·.seq)).count src.seq ≤ 1

theorem Accounted.step {e : Emission} {s s' : Reception} (h : Accounted e s) {r : FecReceiver}
    {tried : List SourceShard × FecReceiver} (hadds : Adds r tried)
    (hr : ∀ src ∈ e.block,
      src.seq ∈ r.recent ↔ src.seq ∈ s'.arrived ∨ src.seq ∈ s.returned.map (·.seq))
    (hrecent : s'.receiver.recent = tried.2.recent)
    (hreturned : s'.returned = s.returned ++ sortRecovered tried.1) : Accounted e s' := by
  have hperm : (s'.returned.map (·.seq)).Perm (s.returned.map (·.seq) ++ tried.1.map (·.seq)) := by
    rw [hreturned, List.map_append]
    exact ((List.perm_insertionSort _ _).map _).append_left _
  refine ⟨fun src hsrc => ?_, fun src hsrc => ?_⟩
  · rw [hrecent, hadds.recent, hr src hsrc, hperm.mem_iff, List.mem_append, or_assoc]
  · rw [hperm.count_eq, List.count_append]
    by_cases hnew : src.seq ∈ tried.1.map (·.seq)
    · obtain ⟨x, hx, hseq⟩ := List.mem_map.1 hnew
      have hfresh : src.seq ∉ s.returned.map (·.seq) := fun hold =>
        hadds.fresh x hx (hseq ▸ (hr src hsrc).2 (.inr hold))
      have honce := List.nodup_iff_count_le_one.1 hadds.once src.seq
      rw [List.count_eq_zero_of_not_mem hfresh]
      omega
    · have hold := h.once src hsrc
      rw [List.count_eq_zero_of_not_mem hnew]
      omega

-- Some parity of the block fits a CMD_FEC record.
def Emission.Carried (sent : Sent code) (e : Emission) : Prop :=
  ∃ p ∈ e.parity code, ∃ header feedback, (carry sent.ext p header feedback).isSome = true

-- The block in the receiver holds every parity shard that has arrived, until the
-- whole block is there.
structure Tracked (code : ErasureCode UInt8) (e : Emission) (s : Reception) : Prop
    extends Accounted e s where
  shape : ∀ b, s.receiver.blocks.lookup e.base = some b →
    b.dataShards = e.block.length ∧ b.parityShards = (e.parity code).length
  ordered : ∀ i, (e.base, i) ∈ s.shards →
    consecutive e.base e.block = true ∧ e.base + e.block.length < 2 ^ 64
  filed : ∀ i, (e.base, i) ∈ s.shards → e.Held s.receiver ∨
    ∃ b, s.receiver.blocks.lookup e.base = some b ∧ (b.parity.getD i none).isSome = true
  ready : e.block.length ≤ e.gathered s → e.Held s.receiver

-- Without parity the block is there when all its records have arrived.
theorem arrived_of_gathered {e : Emission} {s : Reception}
    (hnone : ∀ i, (e.base, i) ∉ s.shards) (h : e.block.length ≤ e.gathered s) :
    ∀ src ∈ e.block, src.seq ∈ s.arrived := by
  have hshards : s.shards.filter (·.1 = e.base) = ∅ := by
    refine Finset.filter_eq_empty_iff.2 ?_
    rintro ⟨base, i⟩ hmem rfl
    exact hnone i hmem
  have hsize : e.seqs.card ≤ e.block.length := by
    rw [← List.length_map (f := fun src : SourceShard => src.seq)]
    exact List.toFinset_card_le _
  rw [Emission.gathered, hshards, Finset.card_empty, Nat.add_zero] at h
  have hall : s.arrived ∩ e.seqs = e.seqs :=
    Finset.eq_of_subset_of_card_le Finset.inter_subset_right (hsize.trans h)
  intro src hsrc
  have hmem := mem_seqs.2 ⟨src, hsrc, rfl⟩
  rw [← hall] at hmem
  exact (Finset.mem_inter.1 hmem).1

theorem contains_seq {e : Emission} (hordered : consecutive e.base e.block = true)
    (hend : e.base + e.block.length < 2 ^ 64) {b : RecvBlock} (hbase : b.baseSeq = e.base)
    (hk : b.dataShards = e.block.length) {seq : ℕ} (hin : seq ∈ e.seqs) : b.contains seq = true := by
  obtain ⟨src, hsrc, rfl⟩ := mem_seqs.1 hin
  obtain ⟨j, hj, hseq⟩ := seq_in_block hordered hsrc
  simp only [RecvBlock.contains, decide_eq_true_eq, hbase, hk, hseq, Nat.mod_eq_of_lt hend]
  omega

section Step

variable {sent : Sent code} {e : Emission} {s : Reception}

-- The shards that have been filed are together in one block.
theorem Tracked.together (h : Tracked code e s) (hnot : ¬e.Held s.receiver) {i : ℕ}
    (hi : (e.base, i) ∈ s.shards) :
    ∃ b, s.receiver.blocks.lookup e.base = some b ∧
      ∀ j, (e.base, j) ∈ s.shards → (b.parity.getD j none).isSome = true := by
  obtain ⟨b, hb, -⟩ := (h.filed i hi).resolve_left hnot
  refine ⟨b, hb, fun j hj => ?_⟩
  obtain ⟨b', hb', hparity⟩ := (h.filed j hj).resolve_left hnot
  rw [hb] at hb'
  cases hb'
  exact hparity

theorem Tracked.data (hs : Sound sent s) (h : Tracked code e s) {seq now : ℕ}
    {scan evict : List ℕ} {payload : Bytes} (hpayload : sent.records seq = some payload)
    (hscan : ∀ base ∈ SeqMap.ascending s.receiver.blocks, base ∈ scan)
    (hok : Unpruned sent e s (.data seq now scan evict)) :
    Tracked code e { s with
      receiver := (s.receiver.onData code seq payload now scan evict).2
      arrived := insert seq s.arrived
      returned := s.returned ++ (s.receiver.onData code seq payload now scan evict).1 } := by
  have hseq : seq ≠ 0 := by
    have hpos := (sent.numbered seq (hpayload ▸ rfl)).1
    omega
  obtain ⟨hrecords, hblock⟩ := hok payload hpayload
  rw [onData_eq _ hseq]
  have hblocks : (s.receiver.remember seq payload).pruneRecent.blocks = s.receiver.blocks :=
    (blocks_pruneRecent _).trans (blocks_remember _ _ _)
  have htried := triedAll_tryBlocks seq scan
    (genuine_pruneRecent (genuine_remember hs.genuine hpayload))
  have hcached : ∀ src ∈ e.block,
      src.seq ∈ (s.receiver.remember seq payload).pruneRecent.recent ↔
        src.seq ∈ insert seq s.arrived ∨ src.seq ∈ s.returned.map (·.seq) := by
    intro src hsrc
    rw [mem_pruneRecent (hrecords src hsrc), mem_remember, h.recent src hsrc, Finset.mem_insert,
      or_assoc]
  have hkeeps : ∀ src ∈ e.block, src.seq ∈ s.receiver.recent →
      src.seq ∈ (FecReceiver.tryBlocks code seq scan
        (s.receiver.remember seq payload).pruneRecent).2.recent := by
    intro src hsrc hmem
    exact htried.adds.keeps (hrecords src hsrc (mem_remember.2 (.inr hmem)))
  generalize FecReceiver.tryBlocks code seq scan
    (s.receiver.remember seq payload).pruneRecent = tried at *
  generalize (s.receiver.remember seq payload).pruneRecent = r at *
  rw [← hblocks] at hscan
  refine ⟨h.toAccounted.step htried.adds hcached rfl rfl, ?_, h.ordered, ?_, ?_⟩
  · intro b hb
    exact h.shape b (hblocks ▸ htried.older _ b (lookup_pruneBlocks hb))
  · intro i hi
    rcases h.filed i hi with hheld | ⟨b, hb, hparity⟩
    · exact .inl (hheld.mono hkeeps)
    · rcases htried.blocks e.base b (hblocks ▸ hb) with hsame | hcomplete
      · exact .inr ⟨b, (lookup_of_unpruned hblock).trans hsame, hparity⟩
      · rw [(h.shape b hb).1] at hcomplete
        exact .inl (held_of_complete (h.ordered i hi).1 hcomplete)
  · intro henough
    by_cases hheld : e.Held s.receiver
    · exact hheld.mono hkeeps
    by_cases hnone : ∀ i, (e.base, i) ∉ s.shards
    · intro src hsrc
      have harrived := arrived_of_gathered (s := { s with arrived := insert seq s.arrived }) hnone
        henough src hsrc
      exact htried.adds.keeps ((hcached src hsrc).2 (.inl harrived))
    · obtain ⟨i, hi⟩ := not_forall_not.1 hnone
      obtain ⟨b, hb, hshards⟩ := h.together hheld hi
      have hk := (h.shape b hb).1
      have hbase := (hs.genuine.blocks _ _ hb).1
      obtain ⟨hcons, hend⟩ := h.ordered i hi
      by_cases hin : seq ∈ e.seqs
      · have hcontains := contains_seq hcons hend hbase hk hin
        have hmem : e.base ∈ SeqMap.ascending r.blocks := by
          rw [SeqMap.mem_ascending, hblocks]
          exact SeqMap.mem_iff_isSome.2 (hb ▸ rfl)
        have hcomplete := htried.enough e.base b (hblocks ▸ hb) (hscan _ hmem) hcontains (by
          rw [hk]
          exact henough.trans (gathered_le hcons hbase hk
            (fun src hsrc hin => (hcached src hsrc).2 (.inl hin)) hshards))
        rw [hk] at hcomplete
        exact held_of_complete hcons hcomplete
      · -- a record of another block changes nothing for this one
        rw [Emission.gathered, Finset.insert_inter_of_notMem hin] at henough
        exact absurd (h.ready henough) hheld

-- The shard is filed, and with it everything the block held before.
theorem fileParity_filed {r : FecReceiver} (hindex : p.index < p.parityShards)
    (hblock : ∀ b, r.blocks.lookup p.baseSeq = some b → b.dataShards = p.dataShards ∧
      b.parityShards = p.parityShards ∧ b.shardSize = p.data.length ∧
        b.parity.length = b.parityShards) (now : ℕ) :
    ∃ block, r.fileParity p now = some block ∧ block.dataShards = p.dataShards ∧
      block.parityShards = p.parityShards ∧ (block.parity.getD p.index none).isSome = true ∧
      ∀ b, r.blocks.lookup p.baseSeq = some b → ∀ i, (b.parity.getD i none).isSome = true →
        (block.parity.getD i none).isSome = true := by
  unfold FecReceiver.fileParity
  dsimp only
  set old := (r.blocks.lookup p.baseSeq).getD _ with hold
  have hsame : ∀ b, r.blocks.lookup p.baseSeq = some b → b = old := by
    intro b hb
    rw [hold, hb, Option.getD_some]
  have hshape : old.dataShards = p.dataShards ∧ old.parityShards = p.parityShards ∧
      old.shardSize = p.data.length ∧ old.parity.length = old.parityShards := by
    cases hl : r.blocks.lookup p.baseSeq with
    | none =>
        rw [hold, hl, Option.getD_none]
        exact ⟨rfl, rfl, rfl, List.length_replicate⟩
    | some b => exact hsame b hl ▸ hblock b hl
  clear_value old
  obtain ⟨hk, hm, hsize, hlen⟩ := hshape
  have hlt : p.index < old.parity.length := by omega
  rw [if_neg (by simp [hk, hm, hsize])]
  refine ⟨_, rfl, hk, hm, ?_, ?_⟩
  · dsimp only
    split
    · simp [List.getD_eq_getElem?_getD, List.getElem?_set_self hlt]
    · rename_i hfilled
      simpa [Option.isSome_iff_ne_none] using hfilled
  · rintro b hb i hi
    rw [hsame b hb] at hi
    dsimp only
    split
    · by_cases he : p.index = i
      · subst he
        simp [List.getD_eq_getElem?_getD, List.getElem?_set_self hlt]
      · rw [List.getD_eq_getElem?_getD, List.getElem?_set_ne he, ← List.getD_eq_getElem?_getD]
        exact hi
    · exact hi

-- Parity of another block.
theorem Tracked.elsewhere (h : Tracked code e s) {tried : List SourceShard × FecReceiver}
    (hadds : Adds s.receiver tried) {r : FecReceiver} (hrecent : r.recent = tried.2.recent)
    (hblocks : r.blocks.lookup e.base = s.receiver.blocks.lookup e.base) {base i : ℕ}
    (hbase : base ≠ e.base) :
    Tracked code e { s with
      receiver := r
      shards := insert (base, i) s.shards
      returned := s.returned ++ sortRecovered tried.1 } := by
  have hsame : ∀ j, (e.base, j) ∈ insert (base, i) s.shards → (e.base, j) ∈ s.shards := by
    intro j hj
    refine (Finset.mem_insert.1 hj).resolve_left fun he => hbase ?_
    exact (congrArg Prod.fst he).symm
  have hkeeps : ∀ src ∈ e.block, src.seq ∈ s.receiver.recent → src.seq ∈ r.recent := by
    intro src _ hmem
    rw [hrecent]
    exact hadds.keeps hmem
  refine ⟨h.toAccounted.step hadds h.recent hrecent rfl, ?_, ?_, ?_, ?_⟩
  · intro b hb
    exact h.shape b (hblocks ▸ hb)
  · exact fun j hj => h.ordered j (hsame j hj)
  · intro j hj
    rcases h.filed j (hsame j hj) with hheld | ⟨b, hb, hparity⟩
    · exact .inl (hheld.mono hkeeps)
    · exact .inr ⟨b, hblocks.trans hb, hparity⟩
  · intro henough
    rw [Emission.gathered, Finset.filter_insert, if_neg hbase] at henough
    exact (h.ready henough).mono hkeeps

theorem Tracked.files (hs : Sound sent s) (he : e ∈ sent.emissions) (h : Tracked code e s)
    (hp : p ∈ e.parity code) (now : ℕ) :
    ∃ block, s.receiver.fileParity p now = some block ∧ block.dataShards = e.block.length ∧
      block.parityShards = (e.parity code).length ∧
      (block.parity.getD p.index none).isSome = true ∧
      ∀ b, s.receiver.blocks.lookup e.base = some b → ∀ i,
        (b.parity.getD i none).isSome = true → (block.parity.getD i none).isSome = true := by
  obtain ⟨hbase, hk, hm, hindex, -⟩ := emitBlock_shape hp
  have hsize := (Sent.genuine he hp).length_data
  rw [← hbase, ← hk, ← hm]
  refine fileParity_filed (hm.symm ▸ hindex) (fun b hb => ?_) now
  rw [hbase] at hb
  obtain ⟨hb', hgenuine⟩ := hs.genuine.blocks _ b hb
  obtain ⟨hbk, hbm⟩ := h.shape b hb
  refine ⟨hbk.trans hk.symm, hbm.trans hm.symm, ?_, hgenuine.length⟩
  rw [hgenuine.size, hsize, hb', hbk, hbase, hk]

theorem Sound.tried (hs : Sound sent s) (he : e ∈ sent.emissions)
    (hp : p ∈ e.parity code) {block : RecvBlock}
    (hfile : s.receiver.fileParity p now = some block) :
    block.baseSeq = p.baseSeq ∧ Tried (s.receiver.putBlock p.baseSeq block) block
      ((s.receiver.putBlock p.baseSeq block).tryRecover code block) := by
  obtain ⟨hsame, hblock⟩ := fileParity_genuine hs.genuine (Sent.genuine he hp) hfile
  rw [← hsame]
  exact ⟨rfl, tried_tryRecover (genuine_insert_block hs.genuine hblock) hblock⟩

-- Parity of the block itself.
theorem Tracked.here (hs : Sound sent s) (he : e ∈ sent.emissions) (h : Tracked code e s)
    (hend : e.base + e.block.length < 2 ^ 64) (hp : p ∈ e.parity code)
    {block : RecvBlock} (hfile : s.receiver.fileParity p now = some block)
    {tried : List SourceShard × FecReceiver}
    (hresult : (s.receiver.putBlock p.baseSeq block).tryRecover code block = tried)
    (hkept : e.base ∈ tried.2.blocks → e.base ∈ (tried.2.pruneBlocks now evict).blocks) :
    Tracked code e { s with
      receiver := tried.2.pruneBlocks now evict
      shards := insert (p.baseSeq, p.index) s.shards
      returned := s.returned ++ sortRecovered tried.1 } := by
  obtain ⟨hbase, -, -, -, hcons⟩ := emitBlock_shape hp
  obtain ⟨hsame, htried⟩ := hs.tried he hp hfile
  obtain ⟨filed, hfiled, hk, hm, hown, hothers⟩ := h.files hs he hp now
  rw [hfile] at hfiled
  cases hfiled
  rw [hresult] at htried
  have hblocks : tried.2.blocks.lookup e.base = some block ∨ e.Held tried.2 := by
    rcases htried.blocks with hsame' | ⟨-, hcomplete⟩
    · rw [hsame', ← hbase]
      exact .inl (Finmap.lookup_insert _)
    · rw [hsame, hbase, hk] at hcomplete
      exact .inr (held_of_complete hcons hcomplete)
  have hkeeps : ∀ src ∈ e.block, src.seq ∈ s.receiver.recent → src.seq ∈ tried.2.recent :=
    fun src _ hmem => htried.adds.keeps hmem
  -- the block holds what was filed before and the new shard
  have hshards : ¬e.Held s.receiver → ∀ i, (e.base, i) ∈ insert (p.baseSeq, p.index) s.shards →
      (block.parity.getD i none).isSome = true := by
    intro hnot i hi
    rcases Finset.mem_insert.1 hi with hnew | hold
    · obtain rfl : i = p.index := congrArg Prod.snd hnew
      exact hown
    · obtain ⟨b, hb, hparity⟩ := (h.filed i hold).resolve_left hnot
      exact hothers b hb i hparity
  refine ⟨h.toAccounted.step ⟨htried.adds.recent, htried.adds.fresh, htried.adds.once⟩ h.recent rfl
    rfl, ?_, fun _ _ => ⟨hcons, hend⟩, ?_, ?_⟩
  · intro b hb
    have hb := lookup_pruneBlocks hb
    rcases htried.blocks with hsame' | ⟨herased, -⟩
    · rw [hsame', ← hbase, FecReceiver.putBlock, Finmap.lookup_insert] at hb
      cases hb
      exact ⟨hk, hm⟩
    · rw [herased, hsame, hbase, Finmap.lookup_erase] at hb
      cases hb
  · intro i hi
    by_cases hheld : e.Held s.receiver
    · exact .inl (hheld.mono hkeeps)
    rcases hblocks with hlookup | hheld'
    · exact .inr ⟨block, (lookup_of_unpruned hkept).trans hlookup, hshards hheld i hi⟩
    · exact .inl hheld'
  · intro henough
    by_cases hheld : e.Held s.receiver
    · exact hheld.mono hkeeps
    have hcomplete := htried.enough (by
      rw [hk]
      exact henough.trans (gathered_le hcons (hsame.trans hbase) hk
        (fun src hsrc hin => (h.recent src hsrc).2 (.inl hin)) (hshards hheld)))
    rw [hsame, hbase, hk] at hcomplete
    exact held_of_complete hcons hcomplete

theorem Tracked.parity (hs : Sound sent s) (he : e ∈ sent.emissions) (h : Tracked code e s)
    (hend : e.Carried sent → e.base + e.block.length < 2 ^ 64)
    {e' : Emission} (he' : e' ∈ sent.emissions) (hp : p ∈ e'.parity code)
    {header frame : UDPCFrame} {feedback : Bool}
    (hcarry : carry sent.ext p header feedback = some frame)
    (hok : Unpruned sent e s (.parity p header feedback now evict)) :
    Tracked code e { s with
      receiver := (s.receiver.onParityFrame code frame now evict).2
      shards := insert (p.baseSeq, p.index) s.shards
      returned := s.returned ++ (s.receiver.onParityFrame code frame now evict).1 } := by
  have hparse := parse_carry he' hp hcarry
  rw [← hs.genuine.extParity] at hparse
  rw [onParityFrame_eq hparse]
  by_cases hbase : p.baseSeq = e.base
  · obtain rfl : e' = e := sent.apart e' he' e he ((emitBlock_shape hp).1.symm.trans hbase)
    obtain ⟨block, hfile, -⟩ := h.files hs he hp now
    have hcarried : e'.Carried sent := ⟨p, hp, header, feedback, by rw [hcarry]; rfl⟩
    have hhere := h.here hs he (hend hcarried) hp hfile rfl (hok block hfile)
    rwa [hfile]
  · cases hfile : s.receiver.fileParity p now with
    | none =>
        have hadds : Adds s.receiver ([], s.receiver) := .nothing rfl
        exact h.elsewhere hadds rfl rfl hbase
    | some block =>
        obtain ⟨hsame, htried⟩ := hs.tried he' hp hfile
        refine h.elsewhere (r := ((s.receiver.putBlock p.baseSeq block).tryRecover code
            block).2.pruneBlocks now evict)
          ⟨htried.adds.recent, htried.adds.fresh, htried.adds.once⟩ rfl ?_ hbase
        refine (lookup_of_unpruned (hok block hfile)).trans ?_
        have hput : (s.receiver.putBlock p.baseSeq block).blocks.lookup e.base =
            s.receiver.blocks.lookup e.base := Finmap.lookup_insert_of_ne _ (Ne.symm hbase)
        rcases htried.blocks with hkept | ⟨herased, -⟩
        · rw [hkept, hput]
        · rw [herased, hsame, Finmap.lookup_erase_ne (Ne.symm hbase), hput]

theorem Tracked.next (hs : Sound sent s) (he : e ∈ sent.emissions) (h : Tracked code e s)
    (hend : e.Carried sent → e.base + e.block.length < 2 ^ 64) {l : Arrival}
    (hok : Unpruned sent e s l) {s' : Reception} (hst : Fec.next sent s l = some s') :
    Tracked code e s' := by
  cases arrives_of_next hst with
  | data now evict hpayload hscan => exact h.data hs hpayload hscan hok
  | parity now evict he' hp hcarry => exact h.parity hs he hend he' hp hcarry hok

end Step

theorem tracked_of_reachable {sent : Sent code} {e : Emission} (he : e ∈ sent.emissions)
    (hend : e.Carried sent → e.base + e.block.length < 2 ^ 64) {s : Reception}
    (h : ReachableBy (system sent) (Unpruned sent e) s) :
    Sound sent s ∧ Tracked code e s := by
  apply h.invariant
  · rintro s rfl
    refine ⟨⟨genuine_newFECReceiverExt code _ _, List.forall_mem_nil _⟩,
      ⟨fun src _ => ?_, fun _ _ => Nat.zero_le _⟩, fun b hb => ?_,
      fun i hi => absurd hi (Finset.notMem_empty _), fun i hi => absurd hi (Finset.notMem_empty _),
      fun henough => ?_⟩
    · simp [initial, newFECReceiverExt, Finmap.notMem_empty]
    · simp [initial, newFECReceiverExt] at hb
    · have hempty := arrived_of_gathered (s := initial sent.ext) (fun _ => Finset.notMem_empty _) henough
      exact fun src hsrc => absurd (hempty src hsrc) (Finset.notMem_empty _)
  · intro s l s' hs hok hst
    exact ⟨hs.1.next hst, hs.2.next hs.1 he hend hok hst⟩

-- A block that ends at the last sequence number has the end zero as a uint64, so no record
-- that arrives is taken for one of its own.
theorem recovery_exact (sent : Sent code) {e : Emission} (he : e ∈ sent.emissions) :
    (∀ s, Reachable (system sent) s →
      ∀ src ∈ s.returned, sent.records src.seq = some src.payload) ∧
    ((e.Carried sent → e.base + e.block.length < 2 ^ 64) →
      ∀ s, ReachableBy (system sent) (Unpruned sent e) s → e.block.length ≤ e.gathered s →
        ∀ src ∈ e.block, src.seq ∉ s.arrived → s.returned.filter (·.seq = src.seq) = [src]) := by
  refine ⟨fun s hs => (sound_of_reachable hs).returned, fun hend s hs henough src hsrc hlost => ?_⟩
  obtain ⟨hsound, htracked⟩ := tracked_of_reachable he hend hs
  have hmem := ((htracked.recent src hsrc).1 (htracked.ready henough src hsrc)).resolve_left hlost
  have honce := htracked.once src hsrc
  have hcount : (s.returned.filter (·.seq = src.seq)).length = 1 := by
    have hpos := List.count_pos_iff.2 hmem
    rw [List.count, List.countP_map] at hpos honce
    rw [← List.countP_eq_length_filter]
    exact Nat.le_antisymm honce hpos
  obtain ⟨x, hx⟩ := List.length_eq_one_iff.1 hcount
  obtain ⟨hret, hseq⟩ := List.mem_filter.1 (hx ▸ List.mem_singleton_self x)
  have hseq := of_decide_eq_true hseq
  have hpayload := (hseq ▸ hsound.returned x hret).symm.trans (sent.sources e he src hsrc)
  rw [hx]
  obtain ⟨seq, payload⟩ := x
  obtain ⟨seq', payload'⟩ := src
  cases hseq
  cases hpayload
  rfl

-- Two consecutive records and their parity.
def samplePair (base : ℕ) : Emission where
  sender := newFECSenderExt false
  block := [{ seq := base, payload := [10] }, { seq := base + 1, payload := [20, 30] }]
  loss := 0

def sampleCode : ErasureCode UInt8 :=
  .pairParity (· ^^^ ·) UInt8.xor_comm ErasureCode.byte_xor_cancel

def sampleSent (base : ℕ) (hbase : 0 < base ∧ base + 1 < 2 ^ 64) : Sent sampleCode where
  ext := false
  records := fun seq => ((samplePair base).block.find? (·.seq = seq)).map (·.payload)
  emissions := [samplePair base]
  numbered := by
    intro seq hseq
    rw [Option.isSome_map, List.find?_isSome] at hseq
    obtain ⟨src, hsrc, he⟩ := hseq
    simp only [samplePair, List.mem_cons, List.not_mem_nil, or_false] at hsrc
    rw [← of_decide_eq_true he]
    rcases hsrc with rfl | rfl <;> dsimp only <;> omega
  sources := by
    intro e he
    rw [List.mem_singleton.1 he]
    simp [samplePair]
  extParity := by
    intro e he
    rw [List.mem_singleton.1 he]
    rfl
  apart := by
    intro e he e' he' _
    rw [List.mem_singleton.1 he, List.mem_singleton.1 he']

def sampleHeader : UDPCFrame where
  magic := 1
  version := 1
  cmd := .fec
  flags := 0
  sessionID := 7
  packetNo := 3
  seq := 0
  ack := 0
  windowSize := 0
  data := []

instance (sent : Sent code) (e : Emission) (s : Reception) :
    (l : Arrival) → Decidable (Unpruned sent e s l)
  | .data .. => by unfold Unpruned; infer_instance
  | .parity .. => by unfold Unpruned; infer_instance

-- One record of two and the parity give back the other record.
theorem lost_record_recovered : ∃ s,
    (ReachableBy (system (sampleSent 1 (by decide)))
        (Unpruned (sampleSent 1 (by decide)) (samplePair 1)) s ∧
      2 ≤ (samplePair 1).gathered s ∧ 2 ∉ s.arrived) ∧
    s.returned.filter (·.seq = 2) = [{ seq := 2, payload := [20, 30] }] := by
  obtain ⟨s, hs, henough, hlost⟩ := (system (sampleSent 1 (by decide))).exists_runBy
    (Unpruned (sampleSent 1 (by decide)) (samplePair 1))
    (P := fun s => 2 ≤ (samplePair 1).gathered s ∧ 2 ∉ s.arrived) rfl
    (.data 1 0 [] [] ::
      ((samplePair 1).parity sampleCode).map fun p => .parity p sampleHeader false 0 [1])
    (by decide +kernel)
  refine ⟨s, ⟨hs, henough, hlost⟩, ?_⟩
  exact (recovery_exact (sampleSent 1 (by decide)) List.mem_cons_self).2 (fun _ => by decide) s hs
    henough _ (List.mem_cons_of_mem _ List.mem_cons_self) hlost

def lastBase : ℕ := 2 ^ 64 - 2

def lastSent : Sent sampleCode :=
  sampleSent lastBase (by simp [lastBase])

-- The same pair at the end of the sequence numbers, with its parity first: the other
-- record is not returned.
theorem last_record_not_recovered : ∃ s,
    ReachableBy (system lastSent) (Unpruned lastSent (samplePair lastBase)) s ∧
      2 ≤ (samplePair lastBase).gathered s ∧ lastBase + 1 ∉ s.arrived ∧ s.returned = [] :=
  (system lastSent).exists_runBy (Unpruned lastSent (samplePair lastBase))
    (P := fun s =>
      2 ≤ (samplePair lastBase).gathered s ∧ lastBase + 1 ∉ s.arrived ∧ s.returned = []) rfl
    (((samplePair lastBase).parity sampleCode).map (fun p => .parity p sampleHeader false 0 []) ++
      [.data lastBase 0 [lastBase] []])
    (by decide +kernel)

end UdpCustom.Fec
