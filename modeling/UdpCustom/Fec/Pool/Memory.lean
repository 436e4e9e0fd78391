import UdpCustom.Fec.Pool
import UdpCustom.Lib.Threads

-- Every array is in the pool or has one holder, who alone writes to it.
namespace UdpCustom.Fec.Pool

variable {h h' : Heap SourceShard} {m : Memory} {pending p : Slice} {flushes : List Flush}
  {others : List ℕ} {blocks rest : List Taken} {cur : Taken} {g : ℕ}

def held (p : Slice) : List ℕ :=
  if p = .none then [] else [p.array]

def Flush.arrays (f : Flush) : List ℕ :=
  f.blocks.map (·.block.array)

-- The blocks the goroutine will still read.
def Flush.unread (f : Flush) : List Taken :=
  match f.place with
  | .put => f.blocks.tail
  | _ => f.blocks

def arraysOf (pending : Slice) (flushes : List Flush) : List ℕ :=
  held pending ++ flushes.flatMap Flush.arrays

structure Sized (h : Heap SourceShard) (p : Slice) : Prop where
  pos : 0 < p.len
  valid : h.Valid p

-- What a sender's slices say is what is in memory.
structure Intact (h : Heap SourceShard) (pending : Slice) (flushes : List Flush) : Prop where
  pending : pending = .none ∨ Sized h pending
  blocks : ∀ f ∈ flushes, ∀ t ∈ f.blocks, Sized h t.block
  contents : ∀ f ∈ flushes, ∀ t ∈ f.unread, h.read t.block = t.records

-- A sender beside the pool and the arrays that others hold.
structure Own (m : Memory) (pending : Slice) (flushes : List Flush) (others : List ℕ) : Prop where
  pool : ∀ p ∈ m.pool, p.len = 0 ∧ m.heap.Valid p
  intact : Intact m.heap pending flushes
  lt : ∀ a ∈ others, a < m.heap.length
  apart : (m.pool.map (·.array) ++ (arraysOf pending flushes ++ others)).Nodup

theorem Sized.ne_none (hp : Sized h p) : p ≠ .none := by
  rintro rfl
  exact Nat.lt_irrefl _ hp.pos

theorem held_none : held .none = [] :=
  if_pos rfl

theorem Sized.held (hp : Sized h p) : held p = [p.array] :=
  if_neg hp.ne_none

theorem Sized.agree {arrays : List ℕ} (hp : Sized h p) (hag : h.Agree h' arrays) (hmem : p.array ∈ arrays) :
    Sized h' p :=
  ⟨hp.pos, hag.valid hmem hp.valid⟩

theorem unread_subset {f : Flush} {t : Taken} (ht : t ∈ f.unread) : t ∈ f.blocks := by
  unfold Flush.unread at ht
  split at ht
  · exact List.mem_of_mem_tail ht
  · exact ht

theorem mem_arraysOf {f : Flush} {t : Taken} (hf : f ∈ flushes) (ht : t ∈ f.blocks) :
    t.block.array ∈ arraysOf pending flushes := by
  apply List.mem_append_right
  exact List.mem_flatMap.2 ⟨f, hf, List.mem_map_of_mem ht⟩

theorem mem_arraysOf_pending (hp : Sized h pending) : pending.array ∈ arraysOf pending flushes := by
  apply List.mem_append_left
  rw [hp.held]
  exact List.mem_singleton.2 rfl

theorem Intact.agree (hs : Intact h pending flushes) (hag : h.Agree h' (arraysOf pending flushes)) :
    Intact h' pending flushes where
  pending := hs.pending.imp_right fun hp => hp.agree hag (mem_arraysOf_pending hp)
  blocks := fun f hf t ht => (hs.blocks f hf t ht).agree hag (mem_arraysOf hf ht)
  contents := fun f hf t ht => by
    rw [hag.read (mem_arraysOf hf (unread_subset ht))]
    exact hs.contents f hf t ht

theorem Intact.read_pending (hs : Intact h pending flushes)
    (hag : h.Agree h' (arraysOf pending flushes)) : h'.read pending = h.read pending := by
  rcases hs.pending with rfl | hp
  · rw [Heap.read_of_len_eq_zero rfl, Heap.read_of_len_eq_zero rfl]
  · exact hag.read (mem_arraysOf_pending hp)

theorem Intact.lt (hs : Intact h pending flushes) : ∀ a ∈ arraysOf pending flushes, a < h.length := by
  intro a ha
  rcases List.mem_append.1 ha with hpending | hblocks
  · rcases hs.pending with rfl | hp
    · rw [held_none] at hpending
      cases hpending
    · rw [hp.held] at hpending
      rw [List.mem_singleton.1 hpending]
      exact hp.valid.array
  · obtain ⟨f, hf, ha⟩ := List.mem_flatMap.1 hblocks
    obtain ⟨t, ht, rfl⟩ := List.mem_map.1 ha
    exact (hs.blocks f hf t ht).valid.array

theorem Intact.length_read (hs : Intact h pending flushes) : (h.read pending).length = pending.len := by
  rcases hs.pending with rfl | hp
  · rw [Heap.read_of_len_eq_zero rfl]
    rfl
  · exact Heap.length_read hp.valid

-- An array in hand is counted with those of the others.
theorem perm_hand {α : Type} (pool own others : List α) (a : α) :
    (pool ++ (own ++ a :: others)).Perm (a :: (pool ++ (own ++ others))) :=
  (List.perm_middle.append_left _).trans List.perm_middle

-- Forgetting an array that nobody holds any more.
theorem Own.forget {a : ℕ} (hown : Own m pending flushes (a :: others)) : Own m pending flushes others where
  pool := hown.pool
  intact := hown.intact
  lt := fun b hb => hown.lt b (List.mem_cons_of_mem _ hb)
  apart := by
    have hsub : others.Sublist (a :: others) := List.sublist_cons_self _ _
    exact hown.apart.sublist ((hsub.append_left _).append_left _)

-- Nobody else has an array that is in hand.
theorem Own.notMem_hand {a : ℕ} (hown : Own m pending flushes (a :: others)) :
    a ∉ m.pool.map (·.array) ++ (arraysOf pending flushes ++ others) :=
  (List.nodup_cons.1 ((perm_hand _ _ _ _).nodup_iff.1 hown.apart)).1

-- Writing to memory that is in hand.
theorem Own.write (hown : Own m pending flushes others)
    (hag : m.heap.Agree h' (m.pool.map (·.array) ++ (arraysOf pending flushes ++ others))) :
    Own { m with heap := h' } pending flushes others where
  pool := fun p hp => by
    obtain ⟨hlen, hvalid⟩ := hown.pool p hp
    refine ⟨hlen, hag.valid (List.mem_append_left _ ?_) hvalid⟩
    exact List.mem_map_of_mem hp
  intact := by
    refine hown.intact.agree ⟨hag.grows, fun a ha => hag.same a ?_⟩
    exact List.mem_append_right _ (List.mem_append_left _ ha)
  lt := fun a ha => (hown.lt a ha).trans_le hag.grows
  apart := hown.apart

theorem Own.all_lt (hown : Own m pending flushes others) :
    ∀ a ∈ m.pool.map (·.array) ++ (arraysOf pending flushes ++ others), a < m.heap.length := by
  intro a ha
  rcases List.mem_append.1 ha with hpool | ha
  · obtain ⟨p, hp, rfl⟩ := List.mem_map.1 hpool
    exact (hown.pool p hp).2.array
  · rcases List.mem_append.1 ha with hown' | hothers
    · exact hown.intact.lt a hown'
    · exact hown.lt a hothers

variable {pending' : Slice} {flushes' : List Flush} {others' : List ℕ}

-- What a sender holds and what is in hand may be exchanged.
theorem Own.handOver (hown : Own m pending flushes others) (hintact : Intact m.heap pending' flushes')
    (hperm : (arraysOf pending flushes ++ others).Perm (arraysOf pending' flushes' ++ others')) :
    Own m pending' flushes' others' where
  pool := hown.pool
  intact := hintact
  lt := fun a ha => by
    apply hown.all_lt
    exact List.mem_append_right _ (hperm.mem_iff.2 (List.mem_append_right _ ha))
  apart := (hperm.append_left _).nodup_iff.1 hown.apart

theorem Own.perm (hown : Own m pending flushes others) (hperm : others.Perm others') :
    Own m pending flushes others' :=
  hown.handOver hown.intact (hperm.append_left _)

theorem arraysOf_pending_perm (hp : Sized h p) (flushes : List Flush) (others : List ℕ) :
    (arraysOf p flushes ++ others).Perm (arraysOf .none flushes ++ p.array :: others) := by
  unfold arraysOf
  rw [hp.held, held_none]
  exact List.perm_middle.symm

-- The open block leaves the sender.
theorem Own.detach (hown : Own m pending flushes others) (hp : Sized m.heap pending) :
    Own m .none flushes (pending.array :: others) := by
  refine hown.handOver ?_ (arraysOf_pending_perm hp _ _)
  exact ⟨.inl rfl, hown.intact.blocks, hown.intact.contents⟩

-- A slice in hand becomes the open block.
theorem Own.keep (hown : Own m .none flushes (p.array :: others)) (hp : Sized m.heap p) :
    Own m p flushes others := by
  refine hown.handOver ?_ (arraysOf_pending_perm hp _ _).symm
  exact ⟨.inr hp, hown.intact.blocks, hown.intact.contents⟩

-- A slice that is cleared, or of which nothing is left, goes to the pool.
theorem Own.put (hown : Own m pending flushes (p.array :: others)) (hp : m.heap.Valid p) :
    Own (m.put p) pending flushes others where
  pool := fun q hq => by
    rcases List.mem_append.1 hq with hold | hnew
    · exact hown.pool q hold
    · rw [List.mem_singleton.1 hnew]
      exact ⟨rfl, hp.array, Nat.zero_le _, hp.cap⟩
  intact := hown.intact
  lt := fun a ha => hown.lt a (List.mem_cons_of_mem _ ha)
  apart := by
    have hperm : (m.pool.map (·.array) ++ (arraysOf pending flushes ++ p.array :: others)).Perm
        (m.pool.map (·.array) ++ (p.array :: (arraysOf pending flushes ++ others))) :=
      List.perm_middle.append_left _
    have hnodup := hperm.nodup_iff.1 hown.apart
    unfold Memory.put
    rw [List.map_append, List.append_assoc]
    exact hnodup

-- The pool gives one of its slices, or a new array.
theorem Own.get (hown : Own m pending flushes others) (pick : ℕ) :
    Own (m.get pick).2 pending flushes ((m.get pick).1.array :: others) ∧ (m.get pick).1.len = 0 ∧
      (m.get pick).2.heap.Valid (m.get pick).1 ∧ m.heap.Agree (m.get pick).2.heap others := by
  unfold Memory.get
  split
  · rename_i p hp
    obtain ⟨hlen, hvalid⟩ := hown.pool p (List.mem_of_getElem? hp)
    refine ⟨⟨fun q hq => hown.pool q (List.mem_of_mem_eraseIdx hq), hown.intact, fun a ha => ?_, ?_⟩,
      hlen, hvalid, .refl _ _⟩
    · rcases List.mem_cons.1 ha with rfl | hold
      · exact hvalid.array
      · exact hown.lt a hold
    · obtain ⟨hlt, rfl⟩ := List.getElem?_eq_some_iff.1 hp
      have hpool : (m.pool.map (·.array)).Perm
          (m.pool[pick].array :: (m.pool.eraseIdx pick).map (·.array)) :=
        (List.getElem_cons_eraseIdx_perm hlt).symm.map _
      have hmove : (m.pool[pick].array :: (m.pool.eraseIdx pick).map (·.array) ++
            (arraysOf pending flushes ++ others)).Perm
          ((m.pool.eraseIdx pick).map (·.array) ++
            (arraysOf pending flushes ++ m.pool[pick].array :: others)) :=
        (perm_hand _ _ _ _).symm
      exact ((hpool.append_right _).trans hmove).nodup_iff.1 hown.apart
  · have hag : ∀ arrays : List ℕ, (∀ a ∈ arrays, a < m.heap.length) →
        m.heap.Agree (m.heap ++ [List.replicate fecDataShardsMax zeroShard]) arrays :=
      fun arrays hlt => Heap.agree_of_grown (List.prefix_append _ _) hlt
    have hnew := hown.write (hag _ hown.all_lt)
    refine ⟨⟨hnew.pool, hnew.intact, fun a ha => ?_, ?_⟩, rfl, ⟨?_, Nat.zero_le _, ?_⟩, hag _ hown.lt⟩
    · rcases List.mem_cons.1 ha with rfl | hold
      · simp
      · exact hnew.lt a hold
    · have hfresh : m.heap.length ∉ m.pool.map (·.array) ++ (arraysOf pending flushes ++ others) :=
        fun hmem => Nat.lt_irrefl _ (hown.all_lt _ hmem)
      exact (perm_hand _ _ _ _).nodup_iff.2 (List.nodup_cons.2 ⟨hfresh, hown.apart⟩)
    · simp
    · rw [Heap.array_concat, List.length_replicate, Nat.zero_add]

theorem Own.clear (hown : Own m pending flushes (p.array :: others)) (hp : m.heap.Valid p) :
    Own (m.clear p) pending flushes (p.array :: others) ∧ (m.clear p).heap.Valid p ∧
      m.heap.Agree (m.clear p).heap (arraysOf pending flushes ++ others) := by
  have hag := Heap.agree_clear (h := m.heap) hown.notMem_hand zeroShard
  have hkept := hown.forget.write hag
  have hlength : m.heap.length ≤ (m.clear p).heap.length := hag.grows
  refine ⟨⟨hkept.pool, hkept.intact, fun a ha => (hown.lt a ha).trans_le hlength, hown.apart⟩,
    hp.clear zeroShard, hag.mono (List.subset_append_right _ _)⟩

-- Appending to a slice in hand writes in place or leaves its array for a new one.
theorem Own.append (hown : Own m pending flushes (p.array :: others)) (hp : m.heap.Valid p)
    (data spare : List SourceShard) :
    Own { m with heap := (m.heap.append p data spare).2 } pending flushes
        ((m.heap.append p data spare).1.array :: others) ∧
      m.heap.Agree (m.heap.append p data spare).2 others := by
  have hag := Heap.agree_append hown.notMem_hand hown.forget.all_lt data spare
  have hkept := hown.forget.write hag
  have hvalid := Heap.valid_append hp data spare
  refine ⟨⟨hkept.pool, hkept.intact, fun a ha => ?_, ?_⟩,
    hag.mono fun a ha => List.mem_append_right _ (List.mem_append_right _ ha)⟩
  · rcases List.mem_cons.1 ha with rfl | hold
    · exact hvalid.array
    · exact hkept.lt a hold
  · rcases Heap.array_append m.heap p data spare with hsame | hnew
    · rw [hsame]
      exact hown.apart
    · rw [hnew]
      refine (perm_hand _ _ _ _).nodup_iff.2 (List.nodup_cons.2 ⟨fun hmem => ?_, hkept.apart⟩)
      exact Nat.lt_irrefl _ (hown.forget.all_lt _ hmem)

-- The open block, or what the pool gives for it, is in hand.
theorem Own.fetch (hown : Own m pending flushes others) (pick : ℕ) :
    Own (m.fetch pending pick).2 .none flushes ((m.fetch pending pick).1.array :: others) ∧
      (m.fetch pending pick).2.heap.Valid (m.fetch pending pick).1 ∧
      (m.fetch pending pick).2.heap.read (m.fetch pending pick).1 = m.heap.read pending ∧
      m.heap.Agree (m.fetch pending pick).2.heap others := by
  unfold Memory.fetch
  split
  · rename_i hnone
    subst hnone
    obtain ⟨hgot, hlen, hvalid, hag⟩ := hown.get pick
    refine ⟨hgot, hvalid, ?_, hag⟩
    rw [Heap.read_of_len_eq_zero hlen, Heap.read_of_len_eq_zero rfl]
  · rename_i hsome
    have hp : Sized m.heap pending := hown.intact.pending.resolve_left hsome
    exact ⟨hown.detach hp, hp.valid, rfl, .refl _ _⟩

-- A block in hand whose records are those it was detached with.
structure Taken.Whole (h : Heap SourceShard) (t : Taken) : Prop where
  sized : Sized h t.block
  read : h.read t.block = t.records

theorem Taken.Whole.agree {arrays : List ℕ} (ht : cur.Whole h) (hag : h.Agree h' arrays)
    (hmem : cur.block.array ∈ arrays) : cur.Whole h' :=
  ⟨ht.sized.agree hag hmem, (hag.read hmem).trans ht.read⟩

theorem arraysOf_launch (pending : Slice) (flushes : List Flush) (f : Flush) :
    arraysOf pending (flushes ++ [f]) = arraysOf pending flushes ++ f.arrays := by
  rw [arraysOf, List.flatMap_append, List.flatMap_singleton, ← List.append_assoc]
  rfl

theorem Own.launch (hown : Own m pending flushes (blocks.map (·.block.array) ++ others))
    (hblocks : ∀ t ∈ blocks, t.Whole m.heap) : Own m pending (flushes ++ [⟨blocks, .check⟩]) others := by
  refine hown.handOver ⟨hown.intact.pending, fun f hf t ht => ?_, fun f hf t ht => ?_⟩ ?_
  · rcases List.mem_append.1 hf with hold | hnew
    · exact hown.intact.blocks f hold t ht
    · rw [List.mem_singleton.1 hnew] at ht
      exact (hblocks t ht).sized
  · rcases List.mem_append.1 hf with hold | hnew
    · exact hown.intact.contents f hold t ht
    · rw [List.mem_singleton.1 hnew] at ht
      exact (hblocks t ht).read
  · rw [arraysOf_launch, List.append_assoc (arraysOf pending flushes)]
    exact .refl _

theorem Intact.set {f : Flush} (hs : Intact h pending flushes) (hblocks : ∀ t ∈ f.blocks, Sized h t.block)
    (hcontents : ∀ t ∈ f.unread, h.read t.block = t.records) : Intact h pending (flushes.set g f) := by
  refine ⟨hs.pending, fun k hk => ?_, fun k hk => ?_⟩
  · rcases Threads.of_mem_set hk with rfl | ⟨j, -, hj⟩
    · exact hblocks
    · exact hs.blocks k (List.mem_of_getElem? hj)
  · rcases Threads.of_mem_set hk with rfl | ⟨j, -, hj⟩
    · exact hcontents
    · exact hs.contents k (List.mem_of_getElem? hj)

-- Only the goroutine that moves holds something else than before.
theorem arraysOf_set_perm {f f' : Flush} (hg : flushes[g]? = some f)
    (hmoved : (f.arrays ++ others).Perm (f'.arrays ++ others')) :
    (arraysOf pending flushes ++ others).Perm (arraysOf pending (flushes.set g f') ++ others') := by
  refine List.perm_iff_count.2 fun a => ?_
  have hold := (Threads.flatMap_perm Flush.arrays hg).count_eq a
  have hnew := (Threads.flatMap_set_perm Flush.arrays hg f').count_eq a
  have hcount := hmoved.count_eq a
  unfold arraysOf
  simp only [List.count_append] at hold hnew hcount ⊢
  omega

-- The goroutine goes on with the same blocks.
theorem Own.move {f f' : Flush} (hown : Own m pending flushes others) (hg : flushes[g]? = some f)
    (hblocks : f'.blocks = f.blocks) (hunread : ∀ t ∈ f'.unread, t ∈ f.unread) :
    Own m pending (flushes.set g f') others := by
  have hf := List.mem_of_getElem? hg
  have hsame : f'.arrays = f.arrays := congrArg (List.map _) hblocks
  refine hown.handOver (hown.intact.set (fun t ht => ?_) fun t ht => ?_)
    (arraysOf_set_perm hg (hsame ▸ .refl _))
  · exact hown.intact.blocks f hf t (hblocks ▸ ht)
  · exact hown.intact.contents f hf t (hunread t ht)

theorem unread_of_mem_rest {place : Place} {t : Taken} (ht : t ∈ rest) :
    t ∈ Flush.unread ⟨cur :: rest, place⟩ := by
  unfold Flush.unread
  dsimp only
  split
  · exact ht
  · exact List.mem_cons_of_mem _ ht

-- The goroutine is through with its block, whose array is in hand now.
theorem Own.leave {place : Place} (hown : Own m pending flushes others)
    (hg : flushes[g]? = some ⟨cur :: rest, place⟩) :
    Own m pending (flushes.set g ⟨rest, .check⟩) (cur.block.array :: others) := by
  have hf := List.mem_of_getElem? hg
  refine hown.handOver (hown.intact.set (fun t ht => ?_) fun t ht => ?_)
    (arraysOf_set_perm hg List.perm_middle.symm)
  · exact hown.intact.blocks _ hf t (List.mem_cons_of_mem _ ht)
  · exact hown.intact.contents _ hf t (unread_of_mem_rest ht)

-- The goroutine has cleared its block and is about to put it back.
theorem Own.resume (hown : Own m pending flushes (cur.block.array :: others))
    (hg : flushes[g]? = some ⟨rest, .check⟩) (hcur : Sized m.heap cur.block) :
    Own m pending (flushes.set g ⟨cur :: rest, .put⟩) others := by
  have hf := List.mem_of_getElem? hg
  refine hown.handOver (hown.intact.set (fun t ht => ?_) fun t ht => ?_)
    (arraysOf_set_perm hg List.perm_middle)
  · rcases List.mem_cons.1 ht with rfl | hrest
    · exact hcur
    · exact hown.intact.blocks _ hf t hrest
  · exact hown.intact.contents _ hf t ht

end UdpCustom.Fec.Pool
