import UdpCustom.Fec.Theorems

-- What the receiver gives back: which records a try returns and remembers, and
-- when it returns all that were missing.
namespace UdpCustom.Fec

open UdpCustom.Frame

variable {code : ErasureCode UInt8} {records : Records} {ext : Bool} {r : FecReceiver}
  {b : RecvBlock}

-- The records a try returns are new, distinct, and remembered from then on; all
-- others stay as they were.
structure Adds (r : FecReceiver) (result : List SourceShard × FecReceiver) : Prop where
  recent : ∀ seq, seq ∈ result.2.recent ↔ seq ∈ r.recent ∨ seq ∈ result.1.map (·.seq)
  fresh : ∀ src ∈ result.1, src.seq ∉ r.recent
  once : (result.1.map (·.seq)).Nodup

theorem Adds.nothing {r r' : FecReceiver} (h : r'.recent = r.recent) : Adds r ([], r') :=
  ⟨fun seq => by simp [h], nofun, List.nodup_nil⟩

theorem Adds.keeps {result : List SourceShard × FecReceiver} (h : Adds r result)
    {seq : ℕ} (hseq : seq ∈ r.recent) : seq ∈ result.2.recent :=
  (h.recent seq).2 (.inl hseq)

theorem Adds.append {first second : List SourceShard × FecReceiver}
    (h : Adds r first) (h' : Adds first.2 second) : Adds r (first.1 ++ second.1, second.2) := by
  refine ⟨fun seq => ?_, fun src hsrc => ?_, ?_⟩
  · rw [h'.recent, h.recent, List.map_append, List.mem_append, or_assoc]
  · rcases List.mem_append.1 hsrc with hsrc | hsrc
    · exact h.fresh src hsrc
    · exact fun hmem => h'.fresh src hsrc (h.keeps hmem)
  · rw [List.map_append, List.nodup_append]
    refine ⟨h.once, h'.once, fun a ha b hb hab => ?_⟩
    obtain ⟨src, hsrc, rfl⟩ := List.mem_map.1 hb
    exact h'.fresh src hsrc ((h.recent src.seq).2 (.inr (hab ▸ ha)))

-- All records of the block are there.
def FecReceiver.Complete (r : FecReceiver) (base k : ℕ) : Prop :=
  ∀ i < k, base + i ∈ r.recent

theorem rebuild_complete (hb : b.Genuine code records) {missing : List ℕ}
    (hmissing : ∀ i ∈ missing, i < b.dataShards) (hnodup : missing.Nodup)
    (hnew : ∀ i ∈ missing, b.baseSeq + i ∉ r.recent) :
    ∃ out r', FecReceiver.rebuild b (blockShards (blockPayloads records b.baseSeq b.dataShards))
        missing r = (some out, r') ∧ out.map (·.seq) = missing.map (b.baseSeq + ·) ∧
      r'.blocks = r.blocks ∧ Adds r (out, r') := by
  induction missing generalizing r with
  | nil => exact ⟨[], r, rfl, rfl, rfl, .nothing rfl⟩
  | cons i rest ih =>
      obtain ⟨hi, hrest⟩ := List.nodup_cons.1 hnodup
      obtain ⟨payload, hpayload⟩ := Option.isSome_iff_exists.1
        (hb.block.sent i (hmissing i List.mem_cons_self))
      have hback := unshard_block hb (hmissing i List.mem_cons_self) hpayload
      set r₁ : FecReceiver := { r with recent := r.recent.insert (b.baseSeq + i) payload } with hr₁
      have hadd : Adds r ([{ seq := b.baseSeq + i, payload := payload }], r₁) := by
        refine ⟨fun seq => ?_, ?_, List.nodup_singleton _⟩
        · rw [hr₁]
          simp [Finmap.mem_insert, or_comm]
        · intro src hsrc
          rw [List.mem_singleton.1 hsrc]
          exact hnew i List.mem_cons_self
      obtain ⟨out, r', hout, hseqs, hblocks, hadds⟩ := ih
        (fun j hj => hmissing j (List.mem_cons_of_mem _ hj)) hrest (r := r₁) (by
          intro j hj hmem
          rcases (hadd.recent _).1 hmem with hold | hnewer
          · exact hnew j (List.mem_cons_of_mem _ hj) hold
          · have he : b.baseSeq + j = b.baseSeq + i := by simpa using hnewer
            exact hi (Nat.add_left_cancel he ▸ hj))
      refine ⟨{ seq := b.baseSeq + i, payload := payload } :: out, r', ?_, ?_, hblocks, hadd.append hadds⟩
      · rw [FecReceiver.rebuild, hback]
        dsimp only
        rw [← hr₁, hout]
        rfl
      · rw [List.map_cons, List.map_cons, hseqs]

def FecReceiver.missing (r : FecReceiver) (b : RecvBlock) : List ℕ :=
  (List.range b.dataShards).filter fun i => (r.recent.lookup (b.baseSeq + i)).isNone

theorem mem_missing {i : ℕ} :
    i ∈ r.missing b ↔ i < b.dataShards ∧ b.baseSeq + i ∉ r.recent := by
  rw [FecReceiver.missing, List.mem_filter, List.mem_range, Option.isNone_iff_eq_none,
    Finmap.lookup_eq_none]

theorem complete_of_missing (h : r.missing b = []) :
    r.Complete b.baseSeq b.dataShards := by
  intro i hi
  by_contra hno
  have hmem := mem_missing.2 ⟨hi, hno⟩
  rw [h] at hmem
  cases hmem

theorem arrived_add_missing (r : FecReceiver) (b : RecvBlock) :
    (r.arrived b).countP (·.isSome) + (r.missing b).length = b.dataShards := by
  rw [FecReceiver.arrived, FecReceiver.missing, List.countP_map, ← List.countP_eq_length_filter]
  have hsplit := List.length_eq_countP_add_countP (l := List.range b.dataShards)
    fun i => (r.recent.lookup (b.baseSeq + i)).isSome
  rw [List.length_range] at hsplit
  refine Eq.trans (congrArg₂ (· + ·) rfl (List.countP_congr fun i _ => ?_)) hsplit.symm
  cases r.recent.lookup (b.baseSeq + i) <;> simp

-- A record of the block is never too long for it.
theorem arrived_fits (hr : r.Genuine code records ext) (hb : b.Genuine code records) :
    ((r.arrived b).any (·.any fun p => b.shardSize - fecLengthPrefixSize < p.length)) = false := by
  rw [List.any_eq_false]
  intro o ho hlong
  obtain ⟨i, hi, rfl⟩ := List.mem_map.1 ho
  obtain ⟨p, hp, hlong⟩ := (Option.any_eq_true _ _).1 hlong
  have hmem : p ∈ blockPayloads records b.baseSeq b.dataShards :=
    List.mem_map.2 ⟨i, hi, by rw [hr.recent _ _ hp]; rfl⟩
  have hle := le_blockSize hmem
  have hlt := of_decide_eq_true hlong
  rw [hb.size] at hlt
  omega

-- A try at a block: it returns what is missing as soon as there is enough, and
-- forgets the block only when it is complete.
structure Tried (r : FecReceiver) (b : RecvBlock) (result : List SourceShard × FecReceiver) :
    Prop where
  adds : Adds r result
  blocks : result.2.blocks = r.blocks ∨
    (result.2.blocks = r.blocks.erase b.baseSeq ∧ result.2.Complete b.baseSeq b.dataShards)
  enough : b.dataShards ≤ (r.arrived b).countP (·.isSome) + b.parity.countP (·.isSome) →
    result.2.Complete b.baseSeq b.dataShards

theorem tried_tryRecover (hr : r.Genuine code records ext)
    (hb : b.Genuine code records) : Tried r b (r.tryRecover code b) := by
  unfold FecReceiver.tryRecover
  dsimp only
  rw [arrived_fits hr hb, ← FecReceiver.missing, if_neg Bool.false_ne_true]
  split
  · rename_i hnone
    have hcomplete : (r.dropBlock b.baseSeq).Complete b.baseSeq b.dataShards := complete_of_missing hnone
    exact ⟨.nothing rfl, .inr ⟨rfl, hcomplete⟩, fun _ => hcomplete⟩
  · split
    · rename_i hshort
      refine ⟨.nothing rfl, .inl rfl, fun henough => ?_⟩
      have htotal := arrived_add_missing r b
      have hparity := List.countP_le_length (p := fun o : Option Bytes => o.isSome) (l := b.parity)
      have hlength := hb.length
      omega
    · rename_i henough
      rw [if_neg (by rw [hb.block.supported]; exact Bool.noConfusion),
        decode_genuine hr hb (Nat.not_lt.1 (not_or.1 henough).1)]
      dsimp only
      obtain ⟨out, r', hout, hseqs, hblocks, hadds⟩ := rebuild_complete hb (r := r)
        (fun i hi => (mem_missing.1 hi).1) (List.nodup_range.filter _)
        fun i hi => (mem_missing.1 hi).2
      rw [hout]
      have hcomplete : (r'.dropBlock b.baseSeq).Complete b.baseSeq b.dataShards := by
        intro i hi
        refine (hadds.recent _).2 ?_
        by_cases hold : b.baseSeq + i ∈ r.recent
        · exact .inl hold
        · rw [hseqs]
          exact .inr (List.mem_map_of_mem (mem_missing.2 ⟨hi, hold⟩))
      exact ⟨⟨hadds.recent, hadds.fresh, hadds.once⟩,
        .inr ⟨congrArg (Finmap.erase b.baseSeq) hblocks, hcomplete⟩, fun _ => hcomplete⟩

theorem FecReceiver.Complete.mono {r r' : FecReceiver} {base k : ℕ} (h : r.Complete base k)
    (hkeeps : ∀ seq ∈ r.recent, seq ∈ r'.recent) : r'.Complete base k :=
  fun i hi => hkeeps _ (h i hi)

-- The loop over the blocks a record belongs to.
structure TriedAll (r : FecReceiver) (seq : ℕ) (scan : List ℕ)
    (result : List SourceShard × FecReceiver) : Prop where
  adds : Adds r result
  blocks : ∀ base b, r.blocks.lookup base = some b →
    result.2.blocks.lookup base = some b ∨ result.2.Complete base b.dataShards
  older : ∀ base b, result.2.blocks.lookup base = some b → r.blocks.lookup base = some b
  enough : ∀ base b, r.blocks.lookup base = some b → base ∈ scan → b.contains seq = true →
    b.dataShards ≤ (r.arrived b).countP (·.isSome) + b.parity.countP (·.isSome) →
    result.2.Complete base b.dataShards

theorem arrived_mono {result : List SourceShard × FecReceiver} (h : Adds r result) (b : RecvBlock) :
    (r.arrived b).countP (·.isSome) ≤ (result.2.arrived b).countP (·.isSome) := by
  rw [FecReceiver.arrived, FecReceiver.arrived, List.countP_map, List.countP_map]
  refine List.countP_mono_left fun i _ hi => ?_
  exact SeqMap.mem_iff_isSome.1 (h.keeps (SeqMap.mem_iff_isSome.2 hi))

theorem triedAll_tryBlocks (seq : ℕ) (scan : List ℕ) (hr : r.Genuine code records ext) :
    TriedAll r seq scan (FecReceiver.tryBlocks code seq scan r) := by
  induction scan generalizing r with
  | nil => exact ⟨.nothing rfl, fun _ _ hb => .inl hb, fun _ _ hb => hb, fun _ _ _ hmem => nomatch hmem⟩
  | cons base rest ih =>
      unfold FecReceiver.tryBlocks
      split
      · rename_i hnone
        have hrest := ih hr
        refine { hrest with enough := fun base' b hb hmem => ?_ }
        rcases List.mem_cons.1 hmem with rfl | hmem
        · rw [hnone] at hb
          cases hb
        · exact hrest.enough base' b hb hmem
      · rename_i b hb
        have hgenuine := hr.blocks base b hb
        split
        · obtain ⟨hadds, hblocks, hfull⟩ := tried_tryRecover hr hgenuine.2
          have hkept := (tryRecover_genuine hr hgenuine.2).kept
          have hrest := ih hkept
          rw [hgenuine.1] at hblocks hfull
          -- a block other than the one tried stays, and the one tried stays or is complete
          have hstays : ∀ base' b', r.blocks.lookup base' = some b' →
              (r.tryRecover code b).2.blocks.lookup base' = some b' ∨
                (base' = base ∧ (r.tryRecover code b).2.Complete base b.dataShards) := by
            intro base' b' hb'
            rcases hblocks with he | ⟨he, hcomplete⟩
            · rw [he]
              exact .inl hb'
            · by_cases hbase : base' = base
              · exact .inr ⟨hbase, hcomplete⟩
              · rw [he, Finmap.lookup_erase_ne hbase]
                exact .inl hb'
          refine ⟨hadds.append hrest.adds, ?_, ?_, ?_⟩
          · intro base' b' hb'
            rcases hstays base' b' hb' with hsame | ⟨rfl, hcomplete⟩
            · exact hrest.blocks base' b' hsame
            · rw [hb] at hb'
              cases hb'
              exact .inr (hcomplete.mono fun _ => hrest.adds.keeps)
          · intro base' b' hb'
            have hmid := hrest.older base' b' hb'
            rcases hblocks with he | ⟨he, -⟩
            · rwa [he] at hmid
            · rw [he] at hmid
              exact SeqMap.of_lookup_erase hmid
          · intro base' b' hb' hmem hcontains henough
            by_cases hbase : base' = base
            · subst hbase
              rw [hb] at hb'
              cases hb'
              exact (hfull henough).mono fun _ => hrest.adds.keeps
            · have hmem := (List.mem_cons.1 hmem).resolve_left hbase
              rcases hstays base' b' hb' with hsame | ⟨hbase', -⟩
              · refine hrest.enough base' b' hsame hmem hcontains (henough.trans ?_)
                exact Nat.add_le_add_right (arrived_mono hadds b') _
              · exact absurd hbase' hbase
        · rename_i hout
          have hrest := ih hr
          refine { hrest with enough := fun base' b' hb' hmem hcontains => ?_ }
          rcases List.mem_cons.1 hmem with rfl | hmem
          · rw [hb] at hb'
            cases hb'
            exact absurd hcontains hout
          · exact hrest.enough base' b' hb' hmem hcontains

end UdpCustom.Fec
