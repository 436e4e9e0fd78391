import UdpCustom.Fec
import UdpCustom.Frame.Theorems

namespace UdpCustom.Fec

open UdpCustom.Frame

variable {r : FecReceiver} {b : RecvBlock} {p : ParityShard}

def Records.Extends (old new : Records) : Prop :=
  ∀ seq payload, old seq = some payload → new seq = some payload

def blockPayloads (records : Records) (base k : ℕ) : List Bytes :=
  (List.range k).map fun i => (records (base + i)).getD []

def blockSize (payloads : List Bytes) : ℕ :=
  fecLengthPrefixSize + (payloads.map (·.length)).foldr max 0

def blockShards (payloads : List Bytes) : List Bytes :=
  payloads.map (shard (blockSize payloads))

theorem length_blockPayloads (records : Records) (base k : ℕ) :
    (blockPayloads records base k).length = k := by
  simp [blockPayloads]

theorem le_blockSize {payloads : List Bytes} {p : Bytes} (h : p ∈ payloads) :
    fecLengthPrefixSize + p.length ≤ blockSize payloads := by
  unfold blockSize
  apply Nat.add_le_add_left
  induction payloads with
  | nil => cases h
  | cons q rest ih =>
      rw [List.map_cons, List.foldr_cons]
      rcases List.mem_cons.1 h with rfl | h
      · exact Nat.le_max_left _ _
      · exact (ih h).trans (Nat.le_max_right _ _)

theorem length_shard {size : ℕ} {p : Bytes} (h : fecLengthPrefixSize + p.length ≤ size) :
    (shard size p).length = size := by
  simp only [shard, List.length_append, BigEndian.length_put, List.length_replicate]
  omega

theorem unshard_shard {size : ℕ} {p : Bytes} (h : fecLengthPrefixSize + p.length ≤ size)
    (hmax : size ≤ udpcMaxData) : unshard size (shard size p) = some p := by
  have hn : fieldAt (shard size p) 0 fecLengthPrefixSize = p.length := by
    rw [fieldAt, shard, List.drop_zero, List.append_assoc,
      List.take_left' (BigEndian.length_put _ _)]
    apply BigEndian.get_put_of_lt
    simp only [fecLengthPrefixSize, udpcMaxData, udpcMaxPkt, udpcHdrSize, udpcTrailerSize] at *
    omega
  unfold unshard
  simp only [hn, length_shard h]
  rw [if_neg (by omega), shard, List.append_assoc, List.drop_left' (BigEndian.length_put _ _),
    List.take_left' rfl]

variable {code : ErasureCode UInt8} {records old new : Records} {ext : Bool}
  {block : List SourceShard}

-- A block all of whose records were sent, in a geometry both ends can code.
structure GoodBlock (code : ErasureCode UInt8) (records : Records) (base k m : ℕ) : Prop where
  sent : ∀ i < k, (records (base + i)).isSome = true
  fits : blockSize (blockPayloads records base k) ≤ udpcMaxData
  supported : code.supported k m = true

def blockParity (code : ErasureCode UInt8) (records : Records) (base k m : ℕ) : List Bytes :=
  code.encode k m (blockShards (blockPayloads records base k))

structure ParityShard.Genuine (code : ErasureCode UInt8) (records : Records) (p : ParityShard) :
    Prop where
  block : GoodBlock code records p.baseSeq p.dataShards p.parityShards
  data : (blockParity code records p.baseSeq p.dataShards p.parityShards)[p.index]? = some p.data

theorem blockPayloads_extends (hext : old.Extends new) {base k : ℕ}
    (hsent : ∀ i < k, (old (base + i)).isSome = true) :
    blockPayloads new base k = blockPayloads old base k := by
  apply List.map_congr_left
  intro i hi
  obtain ⟨p, hp⟩ := Option.isSome_iff_exists.1 (hsent i (List.mem_range.1 hi))
  rw [hp, hext _ _ hp]

theorem GoodBlock.mono (hext : old.Extends new)
    {base k m : ℕ} (h : GoodBlock code old base k m) : GoodBlock code new base k m := by
  refine ⟨fun i hi => ?_, ?_, h.supported⟩
  · obtain ⟨p, hp⟩ := Option.isSome_iff_exists.1 (h.sent i hi)
    rw [hext _ _ hp]
    rfl
  · rw [blockPayloads_extends hext h.sent]
    exact h.fits

theorem blockParity_extends (hext : old.Extends new)
    {base k m : ℕ} (h : GoodBlock code old base k m) :
    blockParity code new base k m = blockParity code old base k m := by
  rw [blockParity, blockParity, blockPayloads_extends hext h.sent]

theorem ParityShard.Genuine.mono (hext : old.Extends new)
    (h : p.Genuine code old) : p.Genuine code new :=
  ⟨h.block.mono hext, (blockParity_extends hext h.block).symm ▸ h.data⟩

theorem length_of_mem_blockShards (payloads : List Bytes) :
    ∀ d ∈ blockShards payloads, d.length = blockSize payloads := by
  intro d hd
  obtain ⟨p, hp, rfl⟩ := List.mem_map.1 hd
  exact length_shard (le_blockSize hp)

theorem length_blockShards (records : Records) (base k : ℕ) :
    (blockShards (blockPayloads records base k)).length = k := by
  rw [blockShards, List.length_map, length_blockPayloads]

theorem ParityShard.Genuine.length_data (h : p.Genuine code records) :
    p.data.length = blockSize (blockPayloads records p.baseSeq p.dataShards) :=
  code.length_shard h.block.supported (length_blockShards _ _ _) (length_of_mem_blockShards _) _
    (List.mem_of_getElem? h.data)

-- The sender's side.
theorem seq_of_consecutive {base i : ℕ} {src : SourceShard}
    (h : consecutive base block = true) (hi : block[i]? = some src) : src.seq = base + i := by
  induction block generalizing base i with
  | nil => cases hi
  | cons first rest ih =>
      simp only [consecutive, decide_eq_true_eq] at h
      cases i with
      | zero =>
          cases hi
          exact h.1
      | succ i =>
          rw [ih h.2 (by simpa using hi)]
          omega

theorem payloads_of_consecutive {base : ℕ} (hcons : consecutive base block = true)
    (hsent : ∀ src ∈ block, records src.seq = some src.payload) :
    (∀ i < block.length, (records (base + i)).isSome = true) ∧
      blockPayloads records base block.length = block.map (·.payload) := by
  have hat : ∀ i (hi : i < block.length), records (base + i) = some (block[i].payload) := by
    intro i hi
    have hseq := seq_of_consecutive hcons (List.getElem?_eq_getElem hi)
    rw [← hseq]
    exact hsent _ (List.getElem_mem hi)
  refine ⟨fun i hi => by rw [hat i hi]; rfl, ?_⟩
  apply List.ext_getElem
  · rw [length_blockPayloads, List.length_map]
  · intro i hi _
    rw [length_blockPayloads] at hi
    simp only [blockPayloads, List.getElem_map, List.getElem_range, hat i hi, Option.getD_some]

theorem blockSize_payloads (block : List SourceShard) :
    blockSize (block.map (·.payload)) = shardSize block := by
  rw [blockSize, shardSize, List.map_map]
  rfl

-- A block taken from records that were sent yields genuine parity only.
theorem emitBlock_genuine {s : FecSender}
    {loss : Float}
    (hsent : ∀ src ∈ block, records src.seq = some src.payload) :
    ∀ p ∈ (s.emitBlock code block loss).1, p.Genuine code records := by
  intro p hp
  unfold FecSender.emitBlock at hp
  split at hp
  · cases hp
  · rename_i first rest
    dsimp only at hp
    split_ifs at hp with hbad hm
    · cases hp
    · cases hp
    · obtain ⟨hcons, hbad⟩ := not_or.1 hbad
      obtain ⟨hsize, _⟩ := not_or.1 hbad
      obtain ⟨_, hsup⟩ := not_or.1 hm
      obtain ⟨hall, hpay⟩ := payloads_of_consecutive (Bool.not_eq_false _ ▸ hcons) hsent
      obtain ⟨i, hi, rfl⟩ := List.mem_mapIdx.1 hp
      have hsz := blockSize_payloads (first :: rest)
      refine ⟨⟨hall, ?_, by simpa using hsup⟩, ?_⟩
      · dsimp only
        rw [hpay, hsz]
        omega
      · dsimp only
        rw [blockParity, hpay, blockShards, hsz, List.map_map]
        exact List.getElem?_eq_getElem hi

-- Every source the sender holds or detaches was added to it.
theorem add_sources (s : FecSender) (src : SourceShard) (loss : Float) :
    (∀ block ∈ (s.add src loss).1, ∀ x ∈ block, x ∈ s.pending ∨ x = src) ∧
      (∀ x ∈ (s.add src loss).2.pending, x ∈ s.pending ∨ x = src) := by
  have hopen : ∀ broken : Bool, ∀ x ∈ (if broken then [src] else s.pending ++ [src]),
      x ∈ s.pending ∨ x = src := by
    intro broken x hx
    cases broken <;> simp_all
  have hdetached : ∀ broken : Bool, ∀ block ∈ (if broken then [s.pending] else []),
      ∀ x ∈ block, x ∈ s.pending ∨ x = src := by
    intro broken block hblock x hx
    cases broken <;> simp_all
  unfold FecSender.add
  dsimp only
  split
  · exact ⟨fun _ h => absurd h List.not_mem_nil, fun x hx => .inl hx⟩
  split
  · exact ⟨fun _ h => absurd h List.not_mem_nil, fun x hx => .inl hx⟩
  generalize s.pending.getLast?.any _ = broken
  by_cases hfull : fecDataShardsMax ≤ (if broken then [src] else s.pending ++ [src]).length
  · rw [if_pos hfull]
    refine ⟨fun block hblock x hx => ?_, fun x hx => absurd hx List.not_mem_nil⟩
    rcases List.mem_append.1 hblock with h | h
    · exact hdetached broken block h x hx
    · rw [List.mem_singleton.1 h] at hx
      exact hopen broken x hx
  · rw [if_neg hfull]
    exact ⟨hdetached broken, hopen broken⟩

theorem flushTimer_sources (s : FecSender) (gen : ℕ) :
    (∀ x ∈ (s.flushTimer gen).1, x ∈ s.pending) ∧
      (∀ x ∈ (s.flushTimer gen).2.pending, x ∈ s.pending) := by
  unfold FecSender.flushTimer
  split
  · exact ⟨fun _ h => absurd h List.not_mem_nil, fun _ h => h⟩
  · exact ⟨fun _ h => h, fun _ h => absurd h List.not_mem_nil⟩

theorem emitBlock_pending (s : FecSender) (block : List SourceShard) (loss : Float) :
    (s.emitBlock code block loss).2.pending = s.pending := by
  unfold FecSender.emitBlock
  split
  · rfl
  · dsimp only
    split_ifs <;> rfl

-- The header fields of a parity record read back as they were written, with or
-- without the loss feedback that sealing adds to the flags.
private theorem metaFlags_read :
    ∀ ext : Bool, ∀ fb : Fin 2, ∀ k < 8, ∀ m < maxParity ext, ∀ i < m + 1,
      let flags := metaFlags 0 (k + 1) (m + 1) i ext ||| (fb.val * flagFecFeedback)
      metaDataShards flags = k + 1 ∧ metaParityShards flags ext = m + 1 ∧ metaIndex flags ext = i := by
  decide +kernel

theorem meta_applyToFrame {base f : UDPCFrame} {flags : ℕ}
    (happly : p.applyToFrame base ext = some f) (hbase : base.flags = 0)
    (hflags : flags = f.flags ∨ flags = f.flags ||| flagFecFeedback) :
    metaDataShards flags = p.dataShards ∧ metaParityShards flags ext = p.parityShards ∧
      metaIndex flags ext = p.index := by
  unfold ParityShard.applyToFrame at happly
  split_ifs at happly with hbad
  simp only [not_or, Nat.not_lt, Nat.not_le] at hbad
  obtain ⟨_, hk, hk', hm, hm', hi, _, _⟩ := hbad
  cases happly
  have hall := fun fb => metaFlags_read ext fb (p.dataShards - 1)
    (by simp only [fecDataShardsMax] at hk'; omega) (p.parityShards - 1) (by omega) p.index (by omega)
  have hk1 : p.dataShards - 1 + 1 = p.dataShards := by omega
  have hm1 : p.parityShards - 1 + 1 = p.parityShards := by omega
  rw [hk1, hm1] at hall
  rcases hflags with h | h
  · have h0 := hall 0
    simp only [Fin.val_zero, Nat.zero_mul, Nat.or_zero] at h0
    rwa [h, hbase]
  · have h1 := hall 1
    simp only [Fin.val_one, Nat.one_mul] at h1
    rwa [h, hbase]

theorem parse_applyToFrame {p q : ParityShard} {base f g : UDPCFrame}
    (happly : p.applyToFrame base ext = some f) (hbase : base.flags = 0)
    (hflags : g.flags = f.flags ∨ g.flags = f.flags ||| flagFecFeedback) (hseq : g.seq = f.seq)
    (hdata : g.data = f.data) (hparse : parseFECParityFrameExt g ext = .ok q) : q = p := by
  have hread := meta_applyToFrame happly hbase hflags
  unfold ParityShard.applyToFrame at happly
  split_ifs at happly
  cases happly
  unfold parseFECParityFrameExt at hparse
  dsimp only at hparse
  rw [hread.1, hread.2.1, hread.2.2, hseq, hdata] at hparse
  split_ifs at hparse
  cases hparse
  rfl

-- As long as the block does not run past the last sequence number it is read at all.
theorem parse_carried {base f g : UDPCFrame}
    (happly : p.applyToFrame base ext = some f) (hbase : base.flags = 0)
    (hflags : g.flags = f.flags ∨ g.flags = f.flags ||| flagFecFeedback) (hcmd : g.cmd = .fec)
    (hseq : g.seq = f.seq) (hdata : g.data = f.data)
    (hlast : p.baseSeq + (p.dataShards - 1) < 2 ^ 64) :
    parseFECParityFrameExt g ext = .ok p := by
  have hread := meta_applyToFrame happly hbase hflags
  unfold ParityShard.applyToFrame at happly
  split_ifs at happly with hbad
  simp only [not_or, Nat.not_lt, Nat.not_le] at hbad
  obtain ⟨hzero, hk, hk', hm, hm', hi, hlen, -⟩ := hbad
  cases happly
  have hover : ¬(2 ^ 64 - 1 - (p.dataShards - 1) < p.baseSeq) := by omega
  unfold parseFECParityFrameExt
  dsimp only
  rw [hread.1, hread.2.1, hread.2.2, hseq, hdata]
  rw [if_neg (by simp only [not_or, not_not, Nat.not_lt]; exact ⟨hcmd, hzero, hlen⟩),
    if_neg (by simp only [not_or, Nat.not_lt, Nat.not_le]; exact ⟨hk, hk', hm, hm', hi⟩),
    if_neg hover]

-- The receiver's side.
structure RecvBlock.Genuine (code : ErasureCode UInt8) (records : Records) (b : RecvBlock) :
    Prop where
  block : GoodBlock code records b.baseSeq b.dataShards b.parityShards
  size : b.shardSize = blockSize (blockPayloads records b.baseSeq b.dataShards)
  length : b.parity.length = b.parityShards
  parity : ∀ (i : ℕ) p, b.parity[i]? = some (some p) →
    (blockParity code records b.baseSeq b.dataShards b.parityShards)[i]? = some p

structure FecReceiver.Genuine (code : ErasureCode UInt8) (records : Records) (ext : Bool)
    (r : FecReceiver) : Prop where
  extParity : r.extParity = ext
  recent : ∀ seq p, r.recent.lookup seq = some p → records seq = some p
  blocks : ∀ base b, r.blocks.lookup base = some b → b.baseSeq = base ∧ b.Genuine code records

theorem RecvBlock.Genuine.mono (hext : old.Extends new)
    (h : b.Genuine code old) : b.Genuine code new := by
  refine ⟨h.block.mono hext, ?_, h.length, ?_⟩
  · rw [blockPayloads_extends hext h.block.sent]
    exact h.size
  · rw [blockParity_extends hext h.block]
    exact h.parity

theorem FecReceiver.Genuine.mono (hext : old.Extends new)
    (h : r.Genuine code old ext) : r.Genuine code new ext :=
  ⟨h.extParity, fun seq p hp => hext _ _ (h.recent seq p hp),
    fun base b hb => (h.blocks base b hb).imp_right (·.mono hext)⟩

theorem genuine_newFECReceiverExt (code : ErasureCode UInt8) (records : Records) (ext : Bool) :
    (newFECReceiverExt ext).Genuine code records ext := by
  refine ⟨rfl, fun seq p hp => ?_, fun base b hb => ?_⟩
  · simp [newFECReceiverExt] at hp
  · simp [newFECReceiverExt] at hb

-- The shards handed to the decoder are those of the block, as far as present.
private theorem forall₂_of_getElem? {α β : Type} {R : α → β → Prop} {as : List α} {bs : List β}
    (hlen : as.length = bs.length)
    (h : ∀ (i : ℕ) a b, as[i]? = some a → bs[i]? = some b → R a b) : List.Forall₂ R as bs := by
  rw [List.forall₂_iff_get]
  refine ⟨hlen, fun i ha hb => ?_⟩
  apply h i
  · exact List.getElem?_eq_getElem ha
  · exact List.getElem?_eq_getElem hb

theorem arrived_genuine (hr : r.Genuine code records ext) (hb : b.Genuine code records) :
    List.Forall₂ (fun (shard : Option Bytes) d => ∀ x ∈ shard, x = d)
      ((r.arrived b).map (·.map (shard b.shardSize)) ++ b.parity)
      (blockShards (blockPayloads records b.baseSeq b.dataShards) ++
        blockParity code records b.baseSeq b.dataShards b.parityShards) := by
  apply List.rel_append
  · apply forall₂_of_getElem?
    · simp [FecReceiver.arrived, length_blockShards]
    · intro i a d ha hd x hx
      have hi : i < b.dataShards := by
        have := (List.getElem?_eq_some_iff.1 ha).1
        simpa [FecReceiver.arrived] using this
      simp only [FecReceiver.arrived, List.getElem?_map, List.getElem?_range hi, Option.map_some,
        Option.some.injEq] at ha
      subst ha
      obtain ⟨p, hp, rfl⟩ := Option.map_eq_some_iff.1 hx
      have hrec := hr.recent _ _ hp
      simp only [blockShards, blockPayloads, List.getElem?_map, List.getElem?_range hi,
        Option.map_some, Option.some.injEq, hrec, Option.getD_some] at hd
      rw [hb.size, ← hd, blockPayloads]
  · apply forall₂_of_getElem?
    · rw [hb.length, blockParity, code.length_encode hb.block.supported (length_blockShards _ _ _)]
    · intro i a d ha hd x hx
      have hpar := hb.parity i x (ha.trans (congrArg some hx))
      exact Option.some.inj (hpar.symm.trans hd)

-- What a step of the receiver hands out and keeps is what was sent.
structure RecoversFrom (code : ErasureCode UInt8) (records : Records) (ext : Bool)
    (result : List SourceShard × FecReceiver) : Prop where
  out : ∀ src ∈ result.1, records src.seq = some src.payload
  kept : result.2.Genuine code records ext

theorem RecoversFrom.nothing
    (h : r.Genuine code records ext) : RecoversFrom code records ext ([], r) :=
  ⟨fun _ hsrc => absurd hsrc List.not_mem_nil, h⟩

theorem genuine_dropBlock
    (h : r.Genuine code records ext) (base : ℕ) : (r.dropBlock base).Genuine code records ext := by
  refine ⟨h.extParity, h.recent, fun key b hb => ?_⟩
  by_cases hkey : key = base
  · subst hkey
    simp [FecReceiver.dropBlock, Finmap.lookup_erase] at hb
  · rw [FecReceiver.dropBlock, Finmap.lookup_erase_ne hkey] at hb
    exact h.blocks key b hb

theorem genuine_insert_recent
    (h : r.Genuine code records ext) {seq : ℕ} {payload : Bytes} (hrec : records seq = some payload) :
    ({ r with recent := r.recent.insert seq payload } : FecReceiver).Genuine code records ext := by
  refine ⟨h.extParity, fun key p hp => ?_, h.blocks⟩
  rcases SeqMap.of_lookup_insert hp with ⟨rfl, rfl⟩ | ⟨-, hold⟩
  · exact hrec
  · exact h.recent key p hold

-- A shard of the block reads back as the payload it was made from.
theorem unshard_block (hb : b.Genuine code records) {i : ℕ} (hi : i < b.dataShards)
    {payload : Bytes} (hpayload : records (b.baseSeq + i) = some payload) :
    unshard b.shardSize
      ((blockShards (blockPayloads records b.baseSeq b.dataShards)).getD i []) = some payload := by
  have hmem : payload ∈ blockPayloads records b.baseSeq b.dataShards :=
    List.mem_map.2 ⟨i, List.mem_range.2 hi, by rw [hpayload]; rfl⟩
  have hshard : (blockShards (blockPayloads records b.baseSeq b.dataShards)).getD i [] =
      shard b.shardSize payload := by
    rw [hb.size, List.getD_eq_getElem?_getD]
    simp only [blockShards, List.getElem?_map]
    simp [blockPayloads, List.getElem?_range hi, hpayload]
  rw [hshard, hb.size]
  exact unshard_shard (le_blockSize hmem) hb.block.fits

-- The loop over the missing records, on the shards of the block itself.
theorem rebuild_genuine
    (hb : b.Genuine code records) {missing : List ℕ} (hmissing : ∀ i ∈ missing, i < b.dataShards)
    (hr : r.Genuine code records ext) :
    let rebuilt := FecReceiver.rebuild b
      (blockShards (blockPayloads records b.baseSeq b.dataShards)) missing r
    (∀ out, rebuilt.1 = some out → ∀ src ∈ out, records src.seq = some src.payload) ∧
      rebuilt.2.Genuine code records ext := by
  induction missing generalizing r with
  | nil =>
      refine ⟨fun out hout src hsrc => ?_, hr⟩
      cases hout
      cases hsrc
  | cons i rest ih =>
      have hi := hmissing i List.mem_cons_self
      obtain ⟨payload, hpayload⟩ := Option.isSome_iff_exists.1 (hb.block.sent i hi)
      have hback := unshard_block hb hi hpayload
      have hrest := ih (fun j hj => hmissing j (List.mem_cons_of_mem _ hj))
        (genuine_insert_recent hr hpayload)
      simp only [FecReceiver.rebuild, hback]
      refine ⟨fun out hout src hsrc => ?_, hrest.2⟩
      obtain ⟨later, hlater, rfl⟩ := Option.map_eq_some_iff.1 hout
      rcases List.mem_cons.1 hsrc with rfl | hsrc
      · exact hpayload
      · exact hrest.1 later hlater src hsrc

-- With enough genuine shards the decoder returns the block itself.
theorem decode_genuine (hr : r.Genuine code records ext) (hb : b.Genuine code records)
    (hcount : b.dataShards ≤ (r.arrived b).countP (·.isSome) + b.parity.countP (·.isSome)) :
    code.reconstructData b.dataShards b.parityShards
      ((r.arrived b).map (·.map (shard b.shardSize)) ++ b.parity) =
        some (blockShards (blockPayloads records b.baseSeq b.dataShards)) := by
  apply code.reconstruct_genuine hb.block.supported (length_blockShards _ _ _)
    (length_of_mem_blockShards _) (arrived_genuine hr hb)
  rw [List.countP_append, List.countP_map]
  have hsome : ((fun x : Option Bytes => x.isSome) ∘ fun x => x.map (shard b.shardSize)) =
      fun x : Option Bytes => x.isSome := by
    funext x
    exact Option.isSome_map
  exact hsome ▸ hcount

theorem tryRecover_genuine (hr : r.Genuine code records ext) (hb : b.Genuine code records) :
    RecoversFrom code records ext (r.tryRecover code b) := by
  unfold FecReceiver.tryRecover
  dsimp only
  split
  · exact .nothing hr
  split
  · exact .nothing (genuine_dropBlock hr _)
  split
  · exact .nothing hr
  split
  · exact .nothing hr
  rename_i _ _ henough _
  have hdecode := decode_genuine hr hb (Nat.not_lt.1 (not_or.1 henough).1)
  rw [hdecode]
  dsimp only
  have hmissing : ∀ i ∈ (List.range b.dataShards).filter
      (fun i => (r.recent.lookup (b.baseSeq + i)).isNone), i < b.dataShards :=
    fun i hi => List.mem_range.1 (List.mem_filter.1 hi).1
  have hrebuilt := rebuild_genuine hb hmissing hr
  split
  · rename_i r' heq
    rw [heq] at hrebuilt
    exact .nothing hrebuilt.2
  · rename_i out r' heq
    rw [heq] at hrebuilt
    exact ⟨hrebuilt.1 out rfl, genuine_dropBlock hrebuilt.2 _⟩

theorem tryBlocks_genuine (seq : ℕ) (scan : List ℕ)
    (hr : r.Genuine code records ext) :
    RecoversFrom code records ext (FecReceiver.tryBlocks code seq scan r) := by
  induction scan generalizing r with
  | nil => exact .nothing hr
  | cons base rest ih =>
      unfold FecReceiver.tryBlocks
      split
      · exact ih hr
      · rename_i b hb
        dsimp only
        split
        · have htried := tryRecover_genuine hr (hr.blocks base b hb).2
          have hlater := ih htried.kept
          refine ⟨fun src hsrc => ?_, hlater.kept⟩
          rcases List.mem_append.1 hsrc with h | h
          · exact htried.out src h
          · exact hlater.out src h
        · exact ih hr

-- Forgetting entries forges nothing.
theorem genuine_eraseAll_recent (h : r.Genuine code records ext) (ks : List ℕ) (prune : ℕ) :
    ({ r with recent := SeqMap.eraseAll r.recent ks, lastPrune := prune } : FecReceiver).Genuine
      code records ext := by
  refine ⟨h.extParity, fun seq p hp => ?_, h.blocks⟩
  rw [SeqMap.lookup_eraseAll] at hp
  split_ifs at hp
  exact h.recent seq p hp

theorem genuine_pruneRecent
    (h : r.Genuine code records ext) : r.pruneRecent.Genuine code records ext := by
  unfold FecReceiver.pruneRecent
  dsimp only
  split
  · exact genuine_eraseAll_recent (genuine_eraseAll_recent h _ _) _ _
  · exact genuine_eraseAll_recent h _ _

theorem lookup_evictOldest {scan : List ℕ} {n : ℕ} {blocks : SeqMap RecvBlock} {base : ℕ}
    (h : (evictOldest scan n blocks).lookup base = some b) :
    blocks.lookup base = some b := by
  induction n generalizing blocks with
  | zero => exact h
  | succ n ih =>
      unfold evictOldest at h
      split at h
      · split at h
        · exact h
        · rename_i oldest _
          have hb := ih h
          by_cases hbase : base = oldest
          · subst hbase
            simp [Finmap.lookup_erase] at hb
          · rwa [Finmap.lookup_erase_ne hbase] at hb
      · exact h

theorem genuine_pruneBlocks (h : r.Genuine code records ext) (now : ℕ) (scan : List ℕ) :
    (r.pruneBlocks now scan).Genuine code records ext := by
  refine ⟨h.extParity, h.recent, fun base b hb => ?_⟩
  have hlive := lookup_evictOldest hb
  rw [SeqMap.lookup_eraseAll] at hlive
  split_ifs at hlive
  exact h.blocks base b hlive

theorem RecoversFrom.pruned {result : List SourceShard × FecReceiver}
    (h : RecoversFrom code records ext result) (now : ℕ) (scan : List ℕ) :
    RecoversFrom code records ext (sortRecovered result.1, result.2.pruneBlocks now scan) := by
  refine ⟨fun src hsrc => ?_, genuine_pruneBlocks h.kept now scan⟩
  exact h.out src ((List.mem_insertionSort _).1 hsrc)

theorem onData_genuine
    (hr : r.Genuine code records ext) {seq : ℕ} {payload : Bytes} (hrec : records seq = some payload)
    (now : ℕ) (scan evict : List ℕ) :
    RecoversFrom code records ext (r.onData code seq payload now scan evict) := by
  unfold FecReceiver.onData
  dsimp only
  split
  · exact .nothing hr
  · apply RecoversFrom.pruned
    apply tryBlocks_genuine
    apply genuine_pruneRecent
    split
    · exact hr
    · have hins := genuine_insert_recent hr hrec
      exact ⟨hins.extParity, hins.recent, hins.blocks⟩

-- A parity record fits the block it is filed under, whether it opens it or not.
theorem genuine_addParity (hb : b.Genuine code records) (hp : p.Genuine code records)
    (hbase : b.baseSeq = p.baseSeq) (hk : b.dataShards = p.dataShards)
    (hm : b.parityShards = p.parityShards) (now : ℕ) :
    ({ b with updatedAt := now, parity := b.parity.set p.index (some p.data) } : RecvBlock).Genuine
      code records := by
  refine ⟨hb.block, hb.size, (List.length_set ..).trans hb.length, fun i q hq => ?_⟩
  dsimp only at hq ⊢
  rw [List.getElem?_set] at hq
  split_ifs at hq with hi
  · cases hq
    rw [← hi, hbase, hk, hm]
    exact hp.data
  · exact hb.parity i q hq

theorem genuine_openBlock (hp : p.Genuine code records) (now : ℕ) :
    ({ baseSeq := p.baseSeq, dataShards := p.dataShards, parityShards := p.parityShards,
       shardSize := p.data.length, parity := List.replicate p.parityShards none,
       updatedAt := now } : RecvBlock).Genuine code records := by
  refine ⟨hp.block, hp.length_data, List.length_replicate, fun i q hq => ?_⟩
  dsimp only at hq
  rw [List.getElem?_replicate] at hq
  split_ifs at hq
  cases hq

theorem genuine_insert_block (hr : r.Genuine code records ext) (hb : b.Genuine code records) :
    ({ r with blocks := r.blocks.insert b.baseSeq b } : FecReceiver).Genuine code records ext := by
  refine ⟨hr.extParity, hr.recent, fun base c hc => ?_⟩
  rcases SeqMap.of_lookup_insert hc with ⟨rfl, rfl⟩ | ⟨-, hold⟩
  · exact ⟨rfl, hb⟩
  · exact hr.blocks base c hold

-- The block a parity shard is filed in, unless it contradicts what is there.
def FecReceiver.fileParity (r : FecReceiver) (p : ParityShard) (now : ℕ) : Option RecvBlock :=
  let block := (r.blocks.lookup p.baseSeq).getD
    { baseSeq := p.baseSeq, dataShards := p.dataShards, parityShards := p.parityShards,
      shardSize := p.data.length, parity := List.replicate p.parityShards none, updatedAt := now }
  if block.dataShards ≠ p.dataShards ∨ block.parityShards ≠ p.parityShards ∨
      block.shardSize ≠ p.data.length then none
  else
    some { block with
      updatedAt := now
      parity := if (block.parity.getD p.index none).isNone then
          block.parity.set p.index (some p.data)
        else block.parity }

def FecReceiver.putBlock (r : FecReceiver) (base : ℕ) (block : RecvBlock) : FecReceiver :=
  { r with blocks := r.blocks.insert base block }

theorem onParityFrame_eq {frame : UDPCFrame}
    (hparse : parseFECParityFrameExt frame r.extParity = .ok p) (now : ℕ) (evict : List ℕ) :
    r.onParityFrame code frame now evict =
      match r.fileParity p now with
      | none => ([], r)
      | some block =>
        let tried := (r.putBlock p.baseSeq block).tryRecover code block
        (sortRecovered tried.1, tried.2.pruneBlocks now evict) := by
  unfold FecReceiver.onParityFrame FecReceiver.fileParity
  rw [hparse]
  dsimp only
  split <;> rfl

theorem fileParity_genuine (hr : r.Genuine code records ext)
    (hp : p.Genuine code records) {now : ℕ} {block : RecvBlock}
    (h : r.fileParity p now = some block) :
    block.baseSeq = p.baseSeq ∧ block.Genuine code records := by
  unfold FecReceiver.fileParity at h
  dsimp only at h
  set old := (r.blocks.lookup p.baseSeq).getD _ with hold
  have hgen : old.baseSeq = p.baseSeq ∧ old.Genuine code records := by
    cases hl : r.blocks.lookup p.baseSeq with
    | none =>
        rw [hold, hl, Option.getD_none]
        exact ⟨rfl, genuine_openBlock hp now⟩
    | some b =>
        rw [hold, hl, Option.getD_some]
        exact hr.blocks _ _ hl
  clear_value old
  split at h
  · cases h
  · rename_i hmeta
    obtain ⟨hk, hmeta⟩ := not_or.1 hmeta
    obtain ⟨hm, _⟩ := not_or.1 hmeta
    cases h
    refine ⟨hgen.1, ?_⟩
    split
    · exact genuine_addParity hgen.2 hp hgen.1 (not_not.1 hk) (not_not.1 hm) now
    · exact ⟨hgen.2.block, hgen.2.size, hgen.2.length, hgen.2.parity⟩

theorem onParityFrame_genuine (hr : r.Genuine code records ext) {frame : UDPCFrame}
    (hframe : ∀ p, parseFECParityFrameExt frame ext = .ok p → p.Genuine code records)
    (now : ℕ) (evict : List ℕ) :
    RecoversFrom code records ext (r.onParityFrame code frame now evict) := by
  cases hparse : parseFECParityFrameExt frame r.extParity with
  | error _ =>
      rw [FecReceiver.onParityFrame, hparse]
      exact .nothing hr
  | ok p =>
      rw [onParityFrame_eq hparse]
      split
      · exact .nothing hr
      · rename_i block hblock
        obtain ⟨hbase, hfiled⟩ := fileParity_genuine hr (hframe p (hr.extParity ▸ hparse)) hblock
        apply RecoversFrom.pruned
        apply tryRecover_genuine _ hfiled
        rw [← hbase]
        exact genuine_insert_block hr hfiled

end UdpCustom.Fec
