import UdpCustom.Fec.Recovered
import UdpCustom.Lib.Transition

-- A receiver and everything one sender may hand it: its DATA records and the
-- CMD_FEC records of its blocks, in any order, any number of times, in part.
namespace UdpCustom.Fec

open UdpCustom.Frame Transition

-- One call of `emitBlock`.
structure Emission where
  sender : FecSender
  block : List SourceShard
  loss : Float

def Emission.parity (code : ErasureCode UInt8) (e : Emission) : List ParityShard :=
  (e.sender.emitBlock code e.block e.loss).1

def Emission.base (e : Emission) : ℕ :=
  (e.block.head?.map (·.seq)).getD 0

-- What one sender has sent. A block is emitted once, from records that were sent.
structure Sent (code : ErasureCode UInt8) where
  ext : Bool
  records : Records
  emissions : List Emission
  numbered : ∀ seq, (records seq).isSome = true → 0 < seq ∧ seq < 2 ^ 64
  sources : ∀ e ∈ emissions, ∀ src ∈ e.block, records src.seq = some src.payload
  extParity : ∀ e ∈ emissions, e.sender.extParity = ext
  apart : ∀ e ∈ emissions, ∀ e' ∈ emissions, e.base = e'.base → e = e'

structure Reception where
  receiver : FecReceiver
  -- history: the records and the parity shards that have arrived, and what was
  -- returned as recovered
  arrived : Finset ℕ
  shards : Finset (ℕ × ℕ)
  returned : List SourceShard

inductive Arrival
  | data (seq now : ℕ) (scan evict : List ℕ)
  | parity (p : ParityShard) (header : UDPCFrame) (feedback : Bool) (now : ℕ) (evict : List ℕ)

-- The CMD_FEC record of a parity shard: `applyToFrame`, and the feedback flag of
-- the seal.
def carry (ext : Bool) (p : ParityShard) (header : UDPCFrame) (feedback : Bool) : Option UDPCFrame :=
  (p.applyToFrame { header with cmd := .fec, flags := 0 } ext).map fun frame =>
    { frame with flags := if feedback then frame.flags ||| flagFecFeedback else frame.flags }

variable {code : ErasureCode UInt8}

-- A walk over the map of blocks meets every one of them.
def next (sent : Sent code) (s : Reception) : Arrival → Option Reception
  | .data seq now scan evict =>
    match sent.records seq with
    | none => none
    | some payload =>
      if ∀ base ∈ SeqMap.ascending s.receiver.blocks, base ∈ scan then
        let got := s.receiver.onData code seq payload now scan evict
        some { s with
          receiver := got.2
          arrived := insert seq s.arrived
          returned := s.returned ++ got.1 }
      else none
  | .parity p header feedback now evict =>
    if sent.emissions.any fun e => p ∈ e.parity code then
      match carry sent.ext p header feedback with
      | none => none
      | some frame =>
        let got := s.receiver.onParityFrame code frame now evict
        some { s with
          receiver := got.2
          shards := insert (p.baseSeq, p.index) s.shards
          returned := s.returned ++ got.1 }
    else none

def initial (ext : Bool) : Reception where
  receiver := newFECReceiverExt ext
  arrived := ∅
  shards := ∅
  returned := []

def system (sent : Sent code) : System Reception Arrival where
  init := fun s => s = initial sent.ext
  next := next sent

-- The receiver once a record is in its cache.
def FecReceiver.remember (r : FecReceiver) (seq : ℕ) (payload : Bytes) : FecReceiver :=
  if seq ∈ r.recent then r
  else { r with recent := r.recent.insert seq payload, highest := max r.highest seq }

theorem onData_eq (r : FecReceiver) {seq : ℕ} (hseq : seq ≠ 0) (payload : Bytes) (now : ℕ)
    (scan evict : List ℕ) :
    r.onData code seq payload now scan evict =
      (sortRecovered (FecReceiver.tryBlocks code seq scan (r.remember seq payload).pruneRecent).1,
        (FecReceiver.tryBlocks code seq scan (r.remember seq payload).pruneRecent).2.pruneBlocks now
          evict) :=
  if_neg hseq

-- The step loses neither a record of the block nor the block itself.
def Unpruned (sent : Sent code) (e : Emission) (s : Reception) : Arrival → Prop
  | .data seq now scan evict => ∀ payload ∈ sent.records seq,
    let r := s.receiver.remember seq payload
    let tried := FecReceiver.tryBlocks code seq scan r.pruneRecent
    (∀ src ∈ e.block, src.seq ∈ r.recent → src.seq ∈ r.pruneRecent.recent) ∧
      (e.base ∈ tried.2.blocks → e.base ∈ (tried.2.pruneBlocks now evict).blocks)
  | .parity p _ _ now evict => ∀ block ∈ s.receiver.fileParity p now,
    let tried := (s.receiver.putBlock p.baseSeq block).tryRecover code block
    e.base ∈ tried.2.blocks → e.base ∈ (tried.2.pruneBlocks now evict).blocks

section Emitted

variable {sent : Sent code} {e : Emission} {p : ParityShard}

theorem emitBlock_shape (hp : p ∈ e.parity code) :
    p.baseSeq = e.base ∧ p.dataShards = e.block.length ∧ p.parityShards = (e.parity code).length ∧
      p.index < (e.parity code).length ∧ consecutive e.base e.block = true := by
  unfold Emission.parity FecSender.emitBlock at *
  split at hp
  · cases hp
  · rename_i first rest hblock
    dsimp only at hp ⊢
    split_ifs at hp ⊢ with hbad hnone
    · cases hp
    · cases hp
    · obtain ⟨i, hi, rfl⟩ := List.mem_mapIdx.1 hp
      simp only [not_or, Bool.not_eq_false] at hbad hnone
      have hbase : e.base = first.seq := by
        rw [Emission.base, hblock]
        rfl
      have hlen : (parityShardsOf code first.seq (parityCount (e.sender.blocks + 1) e.block.length
          e.loss e.sender.extParity) e.block).length =
            parityCount (e.sender.blocks + 1) e.block.length e.loss e.sender.extParity := by
        rw [parityShardsOf, List.length_mapIdx, code.length_encode hnone.2 (by simp)]
      rw [hbase]
      refine ⟨rfl, rfl, hlen.symm, ?_, hbad.1⟩
      rwa [parityShardsOf, List.length_mapIdx]

theorem Sent.genuine (he : e ∈ sent.emissions) (hp : p ∈ e.parity code) :
    p.Genuine code sent.records :=
  emitBlock_genuine (sent.sources e he) p hp

-- The record of an emitted shard is read as that shard.
theorem parse_carry (he : e ∈ sent.emissions) (hp : p ∈ e.parity code) {header frame : UDPCFrame}
    {feedback : Bool} (hcarry : carry sent.ext p header feedback = some frame) :
    parseFECParityFrameExt frame sent.ext = .ok p := by
  obtain ⟨f, happly, rfl⟩ := Option.map_eq_some_iff.1 hcarry
  have hgenuine := Sent.genuine he hp
  have hcmd : f.cmd = .fec := by
    obtain ⟨-, ⟨⟩⟩ := Option.ite_none_left_eq_some.1 happly
    rfl
  refine parse_carried happly rfl ?_ hcmd rfl rfl ?_
  · cases feedback
    · exact .inl rfl
    · exact .inr rfl
  · -- the last record of the block was sent
    by_cases hk : p.dataShards = 0
    · unfold ParityShard.applyToFrame at happly
      split at happly
      · cases happly
      · rename_i hbad
        simp [hk] at hbad
    · exact (sent.numbered _ (hgenuine.block.sent (p.dataShards - 1) (by omega))).2

end Emitted

structure Sound (sent : Sent code) (s : Reception) : Prop where
  genuine : s.receiver.Genuine code sent.records sent.ext
  returned : ∀ src ∈ s.returned, sent.records src.seq = some src.payload

inductive Arrives (sent : Sent code) (s : Reception) : Arrival → Reception → Prop
  | data {seq : ℕ} {payload : Bytes} (now : ℕ) {scan : List ℕ} (evict : List ℕ)
      (record : sent.records seq = some payload)
      (walk : ∀ base ∈ SeqMap.ascending s.receiver.blocks, base ∈ scan) :
      Arrives sent s (.data seq now scan evict)
        { s with
          receiver := (s.receiver.onData code seq payload now scan evict).2
          arrived := insert seq s.arrived
          returned := s.returned ++ (s.receiver.onData code seq payload now scan evict).1 }
  | parity {e : Emission} {p : ParityShard} {header frame : UDPCFrame} {feedback : Bool} (now : ℕ)
      (evict : List ℕ) (emitted : e ∈ sent.emissions) (ofBlock : p ∈ e.parity code)
      (carried : carry sent.ext p header feedback = some frame) :
      Arrives sent s (.parity p header feedback now evict)
        { s with
          receiver := (s.receiver.onParityFrame code frame now evict).2
          shards := insert (p.baseSeq, p.index) s.shards
          returned := s.returned ++ (s.receiver.onParityFrame code frame now evict).1 }

theorem arrives_of_next {sent : Sent code} {s s' : Reception} {l : Arrival}
    (hst : next sent s l = some s') : Arrives sent s l s' := by
  cases l with
  | data seq now scan evict =>
      simp only [Fec.next] at hst
      split at hst
      · cases hst
      · rename_i payload hpayload
        obtain ⟨hwalk, ⟨⟩⟩ := Option.ite_none_right_eq_some.1 hst
        exact .data now evict hpayload hwalk
  | parity p header feedback now evict =>
      obtain ⟨hany, hst⟩ := Option.ite_none_right_eq_some.1 hst
      obtain ⟨e, he, hp⟩ := List.any_eq_true.1 hany
      split at hst
      · cases hst
      · rename_i frame hcarry
        cases hst
        exact .parity now evict he (of_decide_eq_true hp) hcarry

theorem Sound.next {sent : Sent code} {s s' : Reception} {l : Arrival} (h : Sound sent s)
    (hst : next sent s l = some s') : Sound sent s' := by
  have hgot : ∀ got : List SourceShard × FecReceiver, RecoversFrom code sent.records sent.ext got →
      got.2.Genuine code sent.records sent.ext ∧
        ∀ src ∈ s.returned ++ got.1, sent.records src.seq = some src.payload := by
    intro got hrecovers
    refine ⟨hrecovers.kept, fun src hsrc => ?_⟩
    rcases List.mem_append.1 hsrc with hold | hnew
    · exact h.returned src hold
    · exact hrecovers.out src hnew
  cases arrives_of_next hst with
  | data now evict hpayload _ =>
      obtain ⟨hgenuine, hreturned⟩ := hgot _ (onData_genuine h.genuine hpayload now _ evict)
      exact ⟨hgenuine, hreturned⟩
  | @parity e p header frame feedback now evict he hp hcarry =>
      have hframe : ∀ q, parseFECParityFrameExt frame sent.ext = .ok q →
          q.Genuine code sent.records := by
        intro q hq
        rw [parse_carry he hp hcarry] at hq
        cases hq
        exact Sent.genuine he hp
      obtain ⟨hgenuine, hreturned⟩ := hgot _ (onParityFrame_genuine h.genuine hframe now evict)
      exact ⟨hgenuine, hreturned⟩

theorem sound_of_reachable {sent : Sent code} {ok : Reception → Arrival → Prop} {s : Reception}
    (h : ReachableBy (system sent) ok s) : Sound sent s := by
  apply h.invariant
  · rintro s rfl
    exact ⟨genuine_newFECReceiverExt code _ _, nofun⟩
  · intro s l s' hsound _ hst
    exact hsound.next hst

-- The distinct shards of a block that have arrived, records and parity.
def Emission.seqs (e : Emission) : Finset ℕ :=
  (e.block.map (·.seq)).toFinset

def Emission.gathered (e : Emission) (s : Reception) : ℕ :=
  (s.arrived ∩ e.seqs).card + (s.shards.filter (·.1 = e.base)).card

def Emission.Held (e : Emission) (r : FecReceiver) : Prop :=
  ∀ src ∈ e.block, src.seq ∈ r.recent

theorem Emission.Held.mono {e : Emission} {r r' : FecReceiver} (h : e.Held r)
    (hkeeps : ∀ src ∈ e.block, src.seq ∈ r.recent → src.seq ∈ r'.recent) : e.Held r' :=
  fun src hsrc => hkeeps src hsrc (h src hsrc)

theorem mem_seqs {e : Emission} {seq : ℕ} : seq ∈ e.seqs ↔ ∃ src ∈ e.block, src.seq = seq := by
  rw [Emission.seqs, List.mem_toFinset, List.mem_map]

section Consecutive

variable {e : Emission} (hcons : consecutive e.base e.block = true)

include hcons

theorem seq_in_block {src : SourceShard} (hsrc : src ∈ e.block) :
    ∃ i < e.block.length, src.seq = e.base + i := by
  obtain ⟨i, hi, rfl⟩ := List.getElem_of_mem hsrc
  exact ⟨i, hi, seq_of_consecutive hcons (List.getElem?_eq_getElem hi)⟩

theorem held_of_complete {r : FecReceiver} (h : r.Complete e.base e.block.length) : e.Held r := by
  intro src hsrc
  obtain ⟨i, hi, hseq⟩ := seq_in_block hcons hsrc
  rw [hseq]
  exact h i hi

end Consecutive

theorem card_le_countP {F : Finset ℕ} {n : ℕ} {p : ℕ → Bool} (h : ∀ i ∈ F, i < n ∧ p i = true) :
    F.card ≤ (List.range n).countP p := by
  rw [List.countP_eq_length_filter]
  refine (Finset.card_le_card fun i hi => ?_).trans (List.toFinset_card_le _)
  rw [List.mem_toFinset, List.mem_filter, List.mem_range]
  exact h i hi

theorem card_le_countP_isSome {F : Finset ℕ} {parity : List (Option Bytes)}
    (h : ∀ i ∈ F, (parity.getD i none).isSome = true) : F.card ≤ parity.countP (·.isSome) := by
  have hlist : parity = (List.range parity.length).map fun i => parity.getD i none := by
    refine List.ext_getElem (by simp) fun i hi _ => ?_
    rw [List.getElem_map, List.getElem_range, List.getD_eq_getElem?_getD,
      List.getElem?_eq_getElem hi, Option.getD_some]
  rw [hlist, List.countP_map]
  refine card_le_countP fun i hi => ⟨?_, h i hi⟩
  by_contra hlong
  have hsome := h i hi
  rw [List.getD_eq_getElem?_getD, List.getElem?_eq_none (Nat.not_lt.1 hlong)] at hsome
  cases hsome

-- What has arrived of a block is at hand when the block is tried.
theorem gathered_le {e : Emission} (hcons : consecutive e.base e.block = true) {s : Reception}
    {r : FecReceiver} {b : RecvBlock} (hbase : b.baseSeq = e.base)
    (hk : b.dataShards = e.block.length) 
    (hrecords : ∀ src ∈ e.block, src.seq ∈ s.arrived → src.seq ∈ r.recent)
    (hshards : ∀ i, (e.base, i) ∈ s.shards → (b.parity.getD i none).isSome = true) :
    e.gathered s ≤ (r.arrived b).countP (·.isSome) + b.parity.countP (·.isSome) := by
  have hdata : (s.arrived ∩ e.seqs).card ≤ (r.arrived b).countP (·.isSome) := by
    have himage : s.arrived ∩ e.seqs = ((Finset.range e.block.length).filter
        fun i => e.base + i ∈ s.arrived ∩ e.seqs).image (e.base + ·) := by
      ext seq
      rw [Finset.mem_image]
      constructor
      · intro hseq
        obtain ⟨src, hsrc, rfl⟩ := mem_seqs.1 (Finset.mem_inter.1 hseq).2
        obtain ⟨i, hi, he⟩ := seq_in_block hcons hsrc
        exact ⟨i, Finset.mem_filter.2 ⟨Finset.mem_range.2 hi, he ▸ hseq⟩, he.symm⟩
      · rintro ⟨i, hi, rfl⟩
        exact (Finset.mem_filter.1 hi).2
    rw [himage, FecReceiver.arrived, List.countP_map]
    refine Finset.card_image_le.trans (card_le_countP fun i hi => ?_)
    obtain ⟨hi, hmem⟩ := Finset.mem_filter.1 hi
    refine ⟨hk ▸ Finset.mem_range.1 hi, ?_⟩
    rw [Function.comp, hbase]
    obtain ⟨hmem, hin⟩ := Finset.mem_inter.1 hmem
    obtain ⟨src, hsrc, hseq⟩ := mem_seqs.1 hin
    exact SeqMap.mem_iff_isSome.1 (hseq ▸ hrecords src hsrc (hseq ▸ hmem))
  have hparity : (s.shards.filter (·.1 = e.base)).card ≤ b.parity.countP (·.isSome) := by
    have himage : (s.shards.filter (·.1 = e.base)).card =
        ((s.shards.filter (·.1 = e.base)).image Prod.snd).card := by
      refine (Finset.card_image_of_injOn fun x hx y hy hxy => ?_).symm
      have hx := (Finset.mem_filter.1 (Finset.mem_coe.1 hx)).2
      have hy := (Finset.mem_filter.1 (Finset.mem_coe.1 hy)).2
      exact Prod.ext (hx.trans hy.symm) hxy
    rw [himage]
    refine card_le_countP_isSome fun i hi => ?_
    obtain ⟨⟨base, j⟩, hmem, rfl⟩ := Finset.mem_image.1 hi
    obtain ⟨hmem, rfl⟩ := Finset.mem_filter.1 hmem
    exact hshards j hmem
  exact Nat.add_le_add hdata hparity

end UdpCustom.Fec
