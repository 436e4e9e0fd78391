import UdpCustom.Fec.Pool.Step
import UdpCustom.Fec.Theorems

-- What a goroutine does with the blocks it detached.
namespace UdpCustom.Fec.Pool

open UdpCustom.Frame UdpCustom.Fec.Formation

variable {m m' : Memory} {s s' : Sender} {others : List ℕ} {loss : Float} {code : ErasureCode UInt8}
  {g : ℕ} {cur : Taken} {rest : List Taken} {place place' : Place} {block : Slice}
  {emitted : List (List SourceShard)} {records : List SourceShard}
  {out : Memory × Sender × Option Place}

def Place.Inside : Place → Prop
  | .count _ | .parity _ _ | .encode _ _ | .send _ _ _ => True
  | .check | .clear | .put => False

-- Everything a step of a goroutine can do.
inductive Emit (code : ErasureCode UInt8) (m : Memory) (s : Sender) (block : Slice) :
    Place → Memory × Sender × Option Place → Prop
  | refused : Emit code m s block .check
      (m, { s with emitted := s.emitted ++ [m.heap.read block] }, some .clear)
  | checked : Emit code m s block .check
      (m, { s with emitted := s.emitted ++ [m.heap.read block] },
        some (.count (shardSize (m.heap.read block))))
  | quits {place : Place} (hplace : place.Inside) : Emit code m s block place (m, s, some .clear)
  | counted {size : ℕ} (hopen : s.closed = false) : Emit code m s block (.count size)
      (m, { s with blocks := s.blocks + 1 }, some (.parity size (s.blocks + 1)))
  | decided {size blockNo k : ℕ} (hk : k ≤ fecParityShardsExtMax) :
      Emit code m s block (.parity size blockNo) (m, s, some (.encode size k))
  | encoded {size k : ℕ} (hsupported : code.supported block.len k = true) :
      Emit code m s block (.encode size k) (m, s, some (.send k 0
        (code.encode block.len k ((m.heap.read block).map fun src => copied size src.payload))))
  | sent {k index : ℕ} {data : Bytes} {left : List Bytes} :
      Emit code m s block (.send k index (data :: left))
        (m, { s with sent := s.sent ++ [⟨baseSeq (m.heap.read block), block.len, k, index, data⟩] },
          some (.send k (index + 1) left))
  | cleared : Emit code m s block .clear (m.clear block, s, some .put)
  | dropped : Emit code m s block .clear (m, s, none)
  | put : Emit code m s block .put (m.put block, s, none)

theorem parityCount_le (blockNo dataShards : ℕ) (loss : Float) (ext : Bool) :
    parityCount blockNo dataShards loss ext ≤ fecParityShardsExtMax := by
  refine (Nat.min_le_right _ _).trans ?_
  cases ext <;> decide

theorem emit_emitStep (code : ErasureCode UInt8) (m : Memory) (s : Sender) (block : Slice) (loss : Float)
    (place : Place) : Emit code m s block place (s.emitStep code m block loss place) := by
  cases place with
  | check =>
      simp only [Sender.emitStep]
      split
      · exact .refused
      · exact .checked
  | count size =>
      simp only [Sender.emitStep]
      split
      · exact .quits trivial
      · rename_i hopen
        exact .counted (by simpa using hopen)
  | parity size blockNo =>
      simp only [Sender.emitStep]
      split
      · exact .quits trivial
      · exact .decided (parityCount_le _ _ _ _)
  | encode size k =>
      simp only [Sender.emitStep]
      split
      · rename_i hsupported
        exact .encoded hsupported
      · exact .quits trivial
  | send k index left =>
      cases left with
      | nil => exact .quits trivial
      | cons data left => exact .sent
  | clear =>
      simp only [Sender.emitStep]
      split
      · exact .cleared
      · exact .dropped
  | put => exact .put

theorem unread_of_ne_put (hplace : place ≠ .put) : Flush.unread ⟨cur :: rest, place⟩ = cur :: rest := by
  unfold Flush.unread
  dsimp only
  split
  · exact absurd rfl hplace
  · rfl

-- A step that writes nothing and goes on with the block.
theorem Own.goOn (hown : Own m s.pending s.flushes others)
    (hg : s.flushes[g]? = some ⟨cur :: rest, place⟩) (hput : place ≠ .put) (place' : Place) :
    Own m s.pending (s.flushes.set g ⟨cur :: rest, place'⟩) others := by
  refine hown.move hg rfl fun t ht => ?_
  rw [unread_of_ne_put hput]
  exact unread_subset ht

-- The goroutine reads its block until it clears it, and nobody reads it after that.
theorem own_emit (hown : Own m s.pending s.flushes others)
    (hg : s.flushes[g]? = some ⟨cur :: rest, place⟩) (hemit : Emit code m s cur.block place out) :
    Own out.1 s.pending (s.flushes.set g (.after cur rest out.2.2)) others ∧
      m.heap.Agree out.1.heap others ∧ out.1.heap.read s.pending = m.heap.read s.pending := by
  have hcur : Sized m.heap cur.block :=
    hown.intact.blocks _ (List.mem_of_getElem? hg) cur List.mem_cons_self
  cases hemit with
  | refused | checked | counted | decided | encoded | sent =>
      exact ⟨hown.goOn hg nofun _, .refl _ _, rfl⟩
  | quits hplace =>
      have hput : place ≠ .put := by
        rintro rfl
        exact hplace
      exact ⟨hown.goOn hg hput _, .refl _ _, rfl⟩
  | cleared =>
      obtain ⟨hclear, hvalid, hag⟩ := (hown.leave hg).clear hcur.valid
      have hback := hclear.resume (Threads.getElem?_set_self hg _) ⟨hcur.pos, hvalid⟩
      rw [List.set_set] at hback
      refine ⟨hback, hag.mono (List.subset_append_right _ _), ?_⟩
      exact (hown.leave hg).intact.read_pending (hag.mono (List.subset_append_left _ _))
  | dropped => exact ⟨(hown.leave hg).forget, .refl _ _, rfl⟩
  | put => exact ⟨(hown.leave hg).put hcur.valid, .refl _ _, rfl⟩

theorem pending_emit (hemit : Emit code m s block place out) :
    out.2.1.pending = s.pending := by
  cases hemit <;> rfl

theorem view_emit (hemit : Emit code m s block place out)
    (hread : out.1.heap.read s.pending = m.heap.read s.pending) :
    out.2.1.view out.1.heap = s.view m.heap ∨
      Formation.next (s.view m.heap) .count = some (out.2.1.view out.1.heap) := by
  cases hemit with
  | refused | checked | quits | decided | encoded | sent | dropped | put => exact .inl rfl
  | counted hopen =>
      refine .inr ?_
      have hnext : Formation.next (s.view m.heap) .count = _ := if_neg (by simp [Sender.view, hopen])
      rw [hnext]
      rfl
  | cleared =>
      refine .inl ?_
      unfold Sender.view
      rw [hread]

theorem Place.Right.mono {more : List (List SourceShard)} (h : place.Right code emitted records)
    (hsub : emitted ⊆ more) : place.Right code more records := by
  cases place with
  | check | clear | put => trivial
  | count | parity | encode | send => exact ⟨hsub h.1, h.2⟩

-- What one goroutine does to the account of the blocks.
theorem Emission.move {f f' : Flush} (he : Emission code s) (hg : s.flushes[g]? = some f)
    (hflushes : s'.flushes = s.flushes.set g f') (hdetached : s'.detached = s.detached)
    (hblocks : (s'.emitted ++ f'.waiting).Perm (s.emitted ++ f.waiting)) (hsub : s.emitted ⊆ s'.emitted)
    (hplace : ∀ t ∈ f'.blocks.head?, f'.place.Right code s'.emitted t.records)
    (hsent : ∀ p ∈ s'.sent, p ∈ s.sent ∨ ∃ block ∈ s'.emitted, FromBlock code block p) :
    Emission code s' where
  blocks := by
    rw [hflushes, hdetached]
    refine List.Perm.trans ?_ he.blocks
    have hnew := (Threads.flatMap_set_perm Flush.waiting hg f').append_left s'.emitted
    have hold := (Threads.flatMap_perm Flush.waiting hg).append_left s.emitted
    rw [← List.append_assoc] at hnew hold
    exact hnew.trans ((hblocks.append_right _).trans hold.symm)
  places := by
    rw [hflushes]
    intro k hk t ht
    rcases Threads.of_mem_set hk with rfl | ⟨j, -, hj⟩
    · exact hplace t ht
    · exact (he.places k (List.mem_of_getElem? hj) t ht).mono hsub
  sent := fun p hp => by
    rcases hsent p hp with hold | hnew
    · obtain ⟨block, hblock, hp⟩ := he.sent p hold
      exact ⟨block, hsub hblock, hp⟩
    · exact hnew

theorem waiting_of_ne_check (hplace : place ≠ .check) (blocks : List Taken) :
    Flush.waiting ⟨blocks, place⟩ = blocks.tail.map (·.records) := by
  unfold Flush.waiting
  dsimp only
  split
  · exact absurd rfl hplace
  · rfl

theorem copied_of_mem {block : List SourceShard} {src : SourceShard} (hsrc : src ∈ block) :
    copied (shardSize block) src.payload = shard (shardSize block) src.payload := by
  have hle : fecLengthPrefixSize + src.payload.length ≤ shardSize block := by
    rw [← blockSize_payloads]
    exact le_blockSize (List.mem_map_of_mem hsrc)
  refine List.take_of_length_le (Nat.le_of_eq ?_)
  exact length_shard hle

theorem fromBlock_of_drop {k index : ℕ} {data : Bytes} {left : List Bytes}
    (hleft : data :: left = (code.encode records.length k
      (records.map fun src => shard (shardSize records) src.payload)).drop index) :
    FromBlock code records ⟨baseSeq records, records.length, k, index, data⟩ := by
  have hget : (code.encode records.length k
      (records.map fun src => shard (shardSize records) src.payload))[index]? = some data := by
    rw [← Nat.add_zero index, ← List.getElem?_drop, ← hleft]
    rfl
  obtain ⟨hlt, hdata⟩ := List.getElem?_eq_some_iff.1 hget
  exact ⟨k, List.mem_mapIdx.2 ⟨index, hlt, by rw [hdata]⟩⟩

-- A block waits until it enters `emitBlock`, and is emitted then.
theorem blocks_emit (rest : List Taken) (hread : place ≠ .put → m.heap.read cur.block = cur.records)
    (hemit : Emit code m s cur.block place out) :
    (out.2.1.emitted ++ (Flush.after cur rest out.2.2).waiting).Perm
      (s.emitted ++ Flush.waiting ⟨cur :: rest, place⟩) := by
  cases hemit with
  | refused | checked =>
      dsimp only
      rw [hread nofun, List.append_assoc]
      exact .refl _
  | quits hplace =>
      have hne : place ≠ .check := by
        rintro rfl
        exact hplace
      rw [waiting_of_ne_check hne]
      exact .refl _
  | counted | decided | encoded | sent | cleared | dropped | put => exact .refl _

theorem emitted_subset (hemit : Emit code m s block place out) :
    s.emitted ⊆ out.2.1.emitted := by
  cases hemit with
  | refused | checked => exact List.subset_append_left _ _
  | quits | counted | decided | encoded | sent | cleared | dropped | put => exact List.Subset.refl _

theorem right_emit (hright : place.Right code s.emitted cur.records)
    (hread : place ≠ .put → m.heap.read cur.block = cur.records)
    (hlen : place ≠ .put → cur.block.len = cur.records.length)
    (hemit : Emit code m s cur.block place out) :
    ∀ place' ∈ out.2.2, place'.Right code out.2.1.emitted cur.records := by
  intro place' hplace'
  cases hemit with
  | refused | quits | cleared =>
      cases hplace'
      trivial
  | checked =>
      cases hplace'
      rw [hread nofun]
      exact ⟨List.mem_append_right _ (List.mem_singleton.2 rfl), rfl⟩
  | counted | decided =>
      cases hplace'
      exact hright
  | encoded =>
      cases hplace'
      refine ⟨hright.1, ?_⟩
      rw [hread nofun, hlen nofun, hright.2, List.drop_zero]
      congr 1
      exact List.map_congr_left fun src hsrc => copied_of_mem hsrc
  | sent =>
      cases hplace'
      refine ⟨hright.1, ?_⟩
      rw [← List.drop_drop, ← hright.2]
      rfl
  | dropped | put => cases hplace'

theorem sent_emit (hright : place.Right code s.emitted cur.records)
    (hread : place ≠ .put → m.heap.read cur.block = cur.records)
    (hlen : place ≠ .put → cur.block.len = cur.records.length)
    (hemit : Emit code m s cur.block place out) :
    ∀ p ∈ out.2.1.sent, p ∈ s.sent ∨ ∃ block ∈ out.2.1.emitted, FromBlock code block p := by
  intro p hp
  cases hemit with
  | refused | checked | quits | counted | decided | encoded | cleared | dropped | put => exact .inl hp
  | sent =>
      rcases List.mem_append.1 hp with hold | hlast
      · exact .inl hold
      · refine .inr ⟨cur.records, hright.1, ?_⟩
        rw [List.mem_singleton.1 hlast, hread nofun, hlen nofun]
        exact fromBlock_of_drop hright.2

theorem emission_emit (he : Emission code s) (hg : s.flushes[g]? = some ⟨cur :: rest, place⟩)
    (hread : place ≠ .put → m.heap.read cur.block = cur.records)
    (hlen : place ≠ .put → cur.block.len = cur.records.length)
    (hemit : Emit code m s cur.block place out) :
    Emission code { out.2.1 with flushes := s.flushes.set g (.after cur rest out.2.2) } := by
  have hright : place.Right code s.emitted cur.records := he.places _ (List.mem_of_getElem? hg) cur rfl
  have hright' := right_emit hright hread hlen hemit
  refine he.move hg rfl ?_ (blocks_emit rest hread hemit) (emitted_subset hemit) (fun t ht => ?_)
    (sent_emit hright hread hlen hemit)
  · cases hemit <;> rfl
  · dsimp only
    generalize out.2.2 = next at ht hright' ⊢
    cases next with
    | none => trivial
    | some place' =>
        cases ht
        exact hright' place' rfl

theorem read_current (hown : Own m s.pending s.flushes others)
    (hg : s.flushes[g]? = some ⟨cur :: rest, place⟩) (hput : place ≠ .put) :
    m.heap.read cur.block = cur.records := by
  apply hown.intact.contents _ (List.mem_of_getElem? hg)
  rw [unread_of_ne_put hput]
  exact List.mem_cons_self

theorem steps_run (hok : Ok code m s others) {out : Memory × Sender}
    (hrun : s.run code m g loss = some out) : Steps code m s others (.run g loss) out.1 out.2 := by
  unfold Sender.run at hrun
  split at hrun
  · rename_i cur rest place hg
    cases hrun
    have hf := List.mem_of_getElem? hg
    have hemit := emit_emitStep code m s cur.block loss place
    have hcur := hok.own.intact.blocks _ hf cur List.mem_cons_self
    have hread := read_current hok.own hg
    have hlen : place ≠ .put → cur.block.len = cur.records.length := by
      intro hput
      rw [← hread hput, Heap.length_read hcur.valid]
    obtain ⟨hown, hag, hpending⟩ := own_emit hok.own hg hemit
    refine ⟨?_, emission_emit hok.emission hg hread hlen hemit, hag, view_emit hemit hpending⟩
    dsimp only
    rw [pending_emit hemit]
    exact hown
  · cases hrun

end UdpCustom.Fec.Pool
