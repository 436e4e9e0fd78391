import UdpCustom.Batch
import UdpCustom.Lib.Bag

namespace UdpCustom.Batch

open UdpCustom.Frame UdpCustom.Path

theorem map_mapIdx {α β γ : Type} (l : List α) (f : ℕ → α → β) (g : β → γ) :
    (l.mapIdx f).map g = l.mapIdx fun i a => g (f i a) := by
  refine (List.mapIdx_eq_iff.2 fun i => ?_).symm
  rw [List.getElem?_map, List.getElem?_mapIdx, Option.map_map]
  rfl

theorem map_fst_mapIdx {α β : Type} (l : List α) (f : ℕ → α → β) :
    (l.mapIdx fun i a => (a, f i a)).map Prod.fst = l := by
  rw [map_mapIdx, List.mapIdx_eq_iff]
  exact fun i => Option.map_id'.symm

section Exactness

variable {δ : Type}

-- The wires an event gives to the kernel: those the batch call counted, and one for an
-- individual send that writes at all.
def Event.handed : Event δ → List (Item δ)
  | .batch items n => items.take n.toNat
  | .single item writes => if writes.isEmpty then [] else [item]
  | .routed item writes => if writes.isEmpty then [] else [item]

-- A wire is written again only after a write that failed.
def Retried (writes : List (Write δ)) : Prop :=
  writes.Pairwise fun w _ => w.verdict ≠ .sent

def Event.Genuine : Event δ → Prop
  | .batch _ _ => True
  | .single item writes => (∀ w ∈ writes, w.item = item) ∧ Retried writes
  | .routed item writes =>
    (∀ w ∈ writes, w.item.dst = item.dst ∧ w.item.wire = item.wire) ∧ Retried writes

structure Exact (items : List (Item δ)) (out : Outcome δ) : Prop where
  returned : out.result ≠ .panicked
  once : (out.log.flatMap Event.handed).Perm items
  genuine : ∀ e ∈ out.log, e.Genuine

theorem sliceFrom_of_nonneg {α : Type} {l : List α} {n : ℤ} (h0 : 0 ≤ n) (hle : n ≤ l.length) :
    sliceFrom l n = some (l.drop n.toNat) :=
  if_pos ⟨h0, hle⟩

theorem sliceFrom_of_neg {α : Type} {l : List α} {n : ℤ} (h : n < 0) : sliceFrom l n = none :=
  if_neg fun hin => absurd hin.1 (Int.not_le.2 h)

-- Individual sends hand over what they are given, except those that never write.
section Sends

variable (event : Item δ → List (Write δ) → Event δ) (sends : List (Item δ × List (Write δ)))
  (hevent : ∀ item writes, (event item writes).handed = if writes.isEmpty then [] else [item])

include hevent

theorem handed_send_sublist (s : Item δ × List (Write δ)) : (event s.1 s.2).handed.Sublist [s.1] := by
  rw [hevent]
  split
  · exact List.nil_sublist _
  · exact .refl _

theorem handed_sends_sublist :
    ((sends.map fun s => event s.1 s.2).flatMap Event.handed).Sublist (sends.map Prod.fst) := by
  rw [List.flatMap_map, List.map_eq_flatMap]
  exact List.Sublist.flatMap_right sends fun s _ => handed_send_sublist event hevent s

theorem handed_sends_eq_iff :
    (sends.map fun s => event s.1 s.2).flatMap Event.handed = sends.map Prod.fst ↔
      ∀ s ∈ sends, s.2 ≠ [] := by
  rw [List.flatMap_map, List.map_eq_flatMap]
  have hwrites : ∀ s : Item δ × List (Write δ), (event s.1 s.2).handed = [s.1] ↔ s.2 ≠ [] := by
    intro s
    rw [hevent]
    split
    · rename_i hnone
      exact iff_of_false (List.cons_ne_nil _ _).symm (not_not.2 (List.isEmpty_iff.1 hnone))
    · rename_i hsome
      exact iff_of_true rfl (mt List.isEmpty_iff.2 hsome)
  constructor
  · intro heq s hs
    exact (hwrites s).1 (Bag.eq_of_flatMap_eq (fun s _ => handed_send_sublist event hevent s) heq s hs)
  · intro hall
    exact List.flatMap_congr fun s hs => (hwrites s).2 (hall s hs)

end Sends

end Exactness

namespace Client

-- The individual send gets as far as a socket.
def Attempt.reaches (a : Attempt) : Bool :=
  !a.closed && (a.first.isSome || (!a.closedAfter && a.reopened && a.retry.isSome))

theorem sendAtPort_writes (a : Attempt) (item : Item ℕ) :
    (∀ w ∈ (sendAtPort a item).1, w.item = item) ∧ Retried (sendAtPort a item).1 ∧
      ((sendAtPort a item).1 ≠ [] ↔ a.reaches = true) := by
  obtain ⟨closed, first, closedAfter, reopened, retry⟩ := a
  unfold sendAtPort Attempt.reaches Retried
  cases closed with
  | true => simp
  | false =>
      rcases first with _ | (_ | _ | _) <;> cases closedAfter <;> cases reopened <;> cases retry <;> simp

theorem genuine_sendAtPort (a : Attempt) (item : Item ℕ) :
    (Event.single item (sendAtPort a item).1).Genuine :=
  ⟨(sendAtPort_writes a item).1, (sendAtPort_writes a item).2.1⟩

section Groups

variable {env : Env} {idx : ℕ} {group : List (Item ℕ)}

theorem accepted_le (env : Env) (idx : ℕ) (group : List (Item ℕ)) :
    env.accepted idx group ≤ group.length := by
  unfold Env.accepted
  split
  · exact (env.count idx group.length).le_len
  · exact Int.natCast_nonneg _

theorem handed_batch (env : Env) (idx : ℕ) (group : List (Item ℕ)) :
    (if env.conn idx then [Event.batch group (env.accepted idx group)] else []).flatMap Event.handed =
      group.take (env.accepted idx group).toNat := by
  unfold Env.accepted
  split
  · exact List.append_nil _
  · exact List.take_zero.symm

-- The individual sends of a group and what they write.
def sendsOf (env : Env) (idx : ℕ) (group : List (Item ℕ)) : List (Item ℕ × List (Write ℕ)) :=
  (group.drop (env.accepted idx group).toNat).mapIdx fun i item =>
    (item, (sendAtPort (env.attempt idx i) item).1)

theorem log_sendGroup (h : 0 ≤ env.accepted idx group) :
    (sendGroup env idx group).1 =
      (if env.conn idx then [.batch group (env.accepted idx group)] else []) ++
        (sendsOf env idx group).map fun s => .single s.1 s.2 := by
  unfold sendGroup
  dsimp only
  rw [sliceFrom_of_nonneg h (accepted_le env idx group)]
  dsimp only
  rw [sendsOf, map_mapIdx, map_mapIdx]

theorem panics_sendGroup_iff : (sendGroup env idx group).2 = none ↔ env.accepted idx group < 0 := by
  unfold sendGroup
  dsimp only
  by_cases h : 0 ≤ env.accepted idx group
  · rw [sliceFrom_of_nonneg h (accepted_le env idx group)]
    exact iff_of_false (Option.some_ne_none _) (Int.not_lt.2 h)
  · rw [sliceFrom_of_neg (Int.not_le.1 h)]
    exact iff_of_true rfl (Int.not_le.1 h)

theorem genuine_sendGroup (env : Env) (idx : ℕ) (group : List (Item ℕ)) :
    ∀ e ∈ (sendGroup env idx group).1, e.Genuine := by
  have hbatch : ∀ n, ∀ e ∈ (if env.conn idx then [Event.batch group n] else []), e.Genuine := by
    intro n e he
    split at he
    · rw [List.mem_singleton.1 he]
      trivial
    · cases he
  intro e he
  by_cases h : 0 ≤ env.accepted idx group
  · rw [log_sendGroup h, List.mem_append] at he
    rcases he with he | he
    · exact hbatch _ e he
    · obtain ⟨s, hs, rfl⟩ := List.mem_map.1 he
      obtain ⟨i, hi, rfl⟩ := List.mem_mapIdx.1 hs
      exact genuine_sendAtPort _ _
  · unfold sendGroup at he
    dsimp only at he
    rw [sliceFrom_of_neg (Int.not_le.1 h)] at he
    exact hbatch _ e he

-- Every wire behind the batch call gets as far as a socket.
def Reached (env : Env) (idx : ℕ) (group : List (Item ℕ)) : Prop :=
  ∀ i, (env.accepted idx group).toNat + i < group.length → (env.attempt idx i).reaches = true

theorem reached_iff : Reached env idx group ↔ ∀ s ∈ sendsOf env idx group, s.2 ≠ [] := by
  constructor
  · intro h s hs
    obtain ⟨i, hi, rfl⟩ := List.mem_mapIdx.1 hs
    rw [List.length_drop] at hi
    exact (sendAtPort_writes _ _).2.2.2 (h i (by omega))
  · intro h i hi
    have hrest : i < (group.drop (env.accepted idx group).toNat).length := by
      rw [List.length_drop]
      omega
    exact (sendAtPort_writes _ _).2.2.1 (h _ (List.mem_mapIdx.2 ⟨i, hrest, rfl⟩))

theorem handed_sendGroup (h : 0 ≤ env.accepted idx group) :
    ((sendGroup env idx group).1.flatMap Event.handed).Sublist group ∧
      ((sendGroup env idx group).1.flatMap Event.handed = group ↔ Reached env idx group) := by
  have hfst : (sendsOf env idx group).map Prod.fst = group.drop (env.accepted idx group).toNat :=
    map_fst_mapIdx _ _
  have hparts := List.take_append_drop (env.accepted idx group).toNat group
  have hhanded : (sendGroup env idx group).1.flatMap Event.handed =
      group.take (env.accepted idx group).toNat ++
        ((sendsOf env idx group).map fun s => Event.single s.1 s.2).flatMap Event.handed := by
    rw [log_sendGroup h, List.flatMap_append, handed_batch]
  have hsub := handed_sends_sublist Event.single (sendsOf env idx group) fun _ _ => rfl
  have hwrites := handed_sends_eq_iff Event.single (sendsOf env idx group) fun _ _ => rfl
  rw [hfst] at hsub hwrites
  rw [hhanded, reached_iff, ← hwrites]
  refine ⟨?_, fun he => ?_, fun he => ?_⟩
  · have happend := hsub.append_left (group.take (env.accepted idx group).toNat)
    rwa [hparts] at happend
  · exact List.append_cancel_left (he.trans hparts.symm)
  · rw [he, hparts]

end Groups

theorem groupsOf_eq (items : List (Item ℕ)) (idx : ℕ) :
    groupsOf items idx = items.filter (·.sock = idx) := by
  have hfold : ∀ groups : ℕ → List (Item ℕ),
      items.foldl (fun groups item => Function.update groups item.sock (groups item.sock ++ [item]))
        groups idx = groups idx ++ items.filter (·.sock = idx) := by
    induction items with
    | nil => exact fun groups => (List.append_nil _).symm
    | cons item items ih =>
        intro groups
        rw [List.foldl_cons, ih, List.filter_cons]
        by_cases hidx : item.sock = idx
        · rw [hidx, Function.update_self, if_pos (decide_eq_true rfl), List.append_assoc,
            List.singleton_append]
        · rw [Function.update_of_ne (Ne.symm hidx), if_neg (mt of_decide_eq_true hidx)]
  exact hfold fun _ => []

variable {env : Env} {groups : ℕ → List (Item ℕ)} {order : List ℕ}

theorem panics_sendGroups_iff :
    (sendGroups env groups order).result ≠ .panicked ↔
      ∀ idx ∈ order, 0 ≤ env.accepted idx (groups idx) := by
  induction order with
  | nil => exact iff_of_true (fun h => by cases h) (List.forall_mem_nil _)
  | cons idx order ih =>
      rw [List.forall_mem_cons, ← ih, ← Int.not_lt, ← panics_sendGroup_iff, sendGroups]
      cases hgroup : sendGroup env idx (groups idx) with
      | mk log err =>
          cases err with
          | none => exact iff_of_false (fun h => h rfl) fun h => h.1 rfl
          | some err =>
              dsimp only
              cases (sendGroups env groups order).result with
              | returned err' => exact iff_of_true (fun h => by cases h) ⟨Option.some_ne_none _, fun h => by cases h⟩
              | panicked => exact iff_of_false (fun h => h rfl) fun h => h.2 rfl

theorem log_sendGroups (h : ∀ idx ∈ order, 0 ≤ env.accepted idx (groups idx)) :
    (sendGroups env groups order).log = order.flatMap fun idx => (sendGroup env idx (groups idx)).1 := by
  induction order with
  | nil => rfl
  | cons idx order ih =>
      obtain ⟨hidx, horder⟩ := List.forall_mem_cons.1 h
      rw [List.flatMap_cons, ← ih horder, sendGroups]
      have hnext := mt panics_sendGroup_iff.1 (Int.not_lt.2 hidx)
      cases hgroup : sendGroup env idx (groups idx) with
      | mk log err =>
          cases err with
          | none => exact absurd (by rw [hgroup]) hnext
          | some err => rfl

-- What the sends of all groups hand over, with none of them panicking.
theorem handed_sendGroups (h : ∀ idx ∈ order, 0 ≤ env.accepted idx (groups idx)) :
    ((sendGroups env groups order).log.flatMap Event.handed).Sublist (order.flatMap groups) ∧
      ((sendGroups env groups order).log.flatMap Event.handed = order.flatMap groups ↔
        ∀ idx ∈ order, Reached env idx (groups idx)) := by
  have hsub : ∀ idx ∈ order, ((sendGroup env idx (groups idx)).1.flatMap Event.handed).Sublist
      (groups idx) := fun idx hidx => (handed_sendGroup (h idx hidx)).1
  rw [log_sendGroups h, List.flatMap_assoc]
  refine ⟨List.Sublist.flatMap_right order hsub, fun heq idx hidx => ?_, fun hall => ?_⟩
  · exact (handed_sendGroup (h idx hidx)).2.1 (Bag.eq_of_flatMap_eq hsub heq idx hidx)
  · exact List.flatMap_congr fun idx hidx => (handed_sendGroup (h idx hidx)).2.2 (hall idx hidx)

theorem genuine_sendGroups : ∀ e ∈ (sendGroups env groups order).log, e.Genuine := by
  induction order with
  | nil => exact List.forall_mem_nil _
  | cons idx order ih =>
      have hgroup := genuine_sendGroup env idx (groups idx)
      rw [sendGroups]
      cases hlog : sendGroup env idx (groups idx) with
      | mk log err =>
          rw [hlog] at hgroup
          cases err with
          | none => exact hgroup
          | some err =>
              intro e he
              exact (List.mem_append.1 he).elim (hgroup e) (ih e)

-- Every wire has a socket, no batch call of a group counts below zero, and every wire
-- it left gets as far as a socket.
def Smooth (env : Env) (items : List (Item ℕ)) : Prop :=
  ∀ idx ∈ items.map Item.sock,
    0 ≤ env.accepted idx (groupsOf items idx) ∧ Reached env idx (groupsOf items idx)

theorem exact_sendGroups_iff {items : List (Item ℕ)} (horder : order.Perm (items.map Item.sock).dedup) :
    Exact items (sendGroups env (groupsOf items) order) ↔ Smooth env items := by
  have hmem : ∀ idx, idx ∈ order ↔ idx ∈ items.map Item.sock := fun idx =>
    horder.mem_iff.trans List.mem_dedup
  have hitems : (order.flatMap (groupsOf items)).Perm items := by
    rw [funext (groupsOf_eq items)]
    refine (Bag.perm_flatMap_filter Item.sock (horder.nodup_iff.2 (List.nodup_dedup _)) ?_).symm
    exact fun item hitem => (hmem _).2 (List.mem_map_of_mem hitem)
  constructor
  · intro hexact
    have hcounts := panics_sendGroups_iff.1 hexact.returned
    obtain ⟨hsub, hall⟩ := handed_sendGroups hcounts
    have heq := hsub.eq_of_length (hexact.once.trans hitems.symm).length_eq
    exact fun idx hidx => ⟨hcounts idx ((hmem idx).2 hidx), hall.1 heq idx ((hmem idx).2 hidx)⟩
  · intro hsmooth
    have hcounts : ∀ idx ∈ order, 0 ≤ env.accepted idx (groupsOf items idx) := fun idx hidx =>
      (hsmooth idx ((hmem idx).1 hidx)).1
    have hall := (handed_sendGroups hcounts).2.2 fun idx hidx => (hsmooth idx ((hmem idx).1 hidx)).2
    exact ⟨panics_sendGroups_iff.2 hcounts, hall ▸ hitems, genuine_sendGroups⟩

-- The batch of the dialer is sent exactly.
def SentExactly (env : Env) (wires : List Bytes) : Prop :=
  ∃ items, assign env.next 0 wires = some items ∧ Exact items (sendBatch env wires)

theorem sentExactly_iff {wires : List Bytes} :
    SentExactly env wires ↔ ∃ items, assign env.next 0 wires = some items ∧ Smooth env items := by
  refine exists_congr fun items => and_congr_right fun hassign => ?_
  unfold sendBatch
  rw [hassign]
  exact exact_sendGroups_iff (env.range _).2

end Client

namespace Session

variable {Addr : Type}

theorem verdicts_retried (v : Verdict) (r : Repair) :
    (pooledVerdicts v r).Pairwise fun w _ => w ≠ .sent := by
  have hnext : ∀ {w : Verdict} {l : List Verdict}, (l.Pairwise fun w _ => w ≠ .sent) →
      (w :: if w = .broken then l else []).Pairwise fun w _ => w ≠ .sent := by
    intro w l hl
    split
    · rename_i hw
      exact List.pairwise_cons.2 ⟨fun _ _ => hw ▸ Verdict.noConfusion, hl⟩
    · exact List.pairwise_singleton _ _
  refine hnext ?_
  induction r with
  | closed => exact .nil
  | rebindFails => exact .nil
  | rebound v => exact List.pairwise_singleton _ _
  | replaced v r ih => exact hnext ih

theorem retried_pooled (item : Item (AddrPort Addr)) (v : Verdict) (r : Repair) :
    Retried ((pooledVerdicts v r).map (Write.mk item)) :=
  List.pairwise_map.2 (verdicts_retried v r)

theorem replyFromOrigPort_writes (bindPort : ℕ) (r : Reply) (origPort : ℕ) (addr : AddrPort Addr)
    (data : Bytes) :
    replyFromOrigPort bindPort r origPort addr data ≠ [] ∧
      (∀ w ∈ replyFromOrigPort bindPort r origPort addr data,
        w.item.dst = addr ∧ w.item.wire = data) ∧
      Retried (replyFromOrigPort bindPort r origPort addr data) := by
  have hmain : Retried [(⟨⟨0, addr, data⟩, r.main⟩ : Write (AddrPort Addr))] :=
    List.pairwise_singleton _ _
  unfold replyFromOrigPort
  dsimp only
  split
  · split
    · simpa using hmain
    · rename_i v rep _
      have hpooled := retried_pooled ⟨origPort, addr, data⟩ v rep
      have hitems : ∀ w ∈ (pooledVerdicts v rep).map (Write.mk ⟨origPort, addr, data⟩),
          w.item.dst = addr ∧ w.item.wire = data := by
        intro w hw
        obtain ⟨u, -, rfl⟩ := List.mem_map.1 hw
        exact ⟨rfl, rfl⟩
      split
      · exact ⟨List.cons_ne_nil _ _, hitems, hpooled⟩
      · rename_i hfailed
        refine ⟨List.append_ne_nil_of_right_ne_nil _ (List.cons_ne_nil _ _), ?_,
          List.pairwise_append.2 ⟨hpooled, hmain, fun w hw _ _ hsent => hfailed ?_⟩⟩
        · intro w hw
          rcases List.mem_append.1 hw with hw | hw
          · exact hitems w hw
          · rw [List.mem_singleton.1 hw]
            exact ⟨rfl, rfl⟩
        · obtain ⟨u, hu, rfl⟩ := List.mem_map.1 hw
          exact hsent ▸ hu
  · simpa using hmain

-- The socket and the address of a batch call, if the session makes one.
def batchRoute (bindPort : ℕ) (paths : Paths Addr) (pool : Bool) : Option (ℕ × AddrPort Addr) :=
  (paths.pathAddrs.lookup paths.lastOrigPort).bind fun pe =>
    if 0 < paths.lastOrigPort ∧ paths.lastOrigPort ≠ bindPort then
      if pool then some (paths.lastOrigPort, pe.addr) else none
    else some (0, pe.addr)

-- Where each wire of the batch is to go.
def targets (bindPort : ℕ) (paths : Paths Addr) (env : Env Addr) (wires : List Bytes) :
    List (Item (AddrPort Addr)) :=
  match batchRoute bindPort paths env.pool with
  | some route => wires.map (Item.mk route.1 route.2)
  | none => wires.mapIdx fun i wire => (env.cold i).item wire

theorem exact_sendFrom_iff {items : List (Item (AddrPort Addr))} {n : ℤ} (hle : n ≤ items.length)
    {single : ℕ → Item (AddrPort Addr) → List (Write (AddrPort Addr))}
    (hsingle : ∀ i, ∀ item ∈ items, single i item ≠ [] ∧ (Event.single item (single i item)).Genuine) :
    Exact items (sendFrom items n single) ↔ 0 ≤ n := by
  unfold sendFrom
  by_cases h : 0 ≤ n
  · rw [sliceFrom_of_nonneg h hle]
    refine iff_of_true ⟨(fun hpanic => by cases hpanic), ?_, ?_⟩ h
    · have hsends := handed_sends_eq_iff Event.single
        ((items.drop n.toNat).mapIdx fun i item => (item, single i item)) fun _ _ => rfl
      rw [map_fst_mapIdx, map_mapIdx] at hsends
      have hrest := hsends.2 fun s hs => by
        obtain ⟨i, hi, rfl⟩ := List.mem_mapIdx.1 hs
        exact (hsingle i _ (List.mem_of_mem_drop (List.getElem_mem hi))).1
      rw [List.flatMap_cons, hrest]
      exact .of_eq (List.take_append_drop _ items)
    · intro e he
      rcases List.mem_cons.1 he with rfl | he
      · trivial
      · obtain ⟨i, hi, rfl⟩ := List.mem_mapIdx.1 he
        exact (hsingle i _ (List.mem_of_mem_drop (List.getElem_mem hi))).2
  · rw [sliceFrom_of_neg (Int.not_le.1 h)]
    exact iff_of_false (fun hexact => hexact.returned rfl) h

-- Without a batch call each wire goes where `sendToSession` sends it.
theorem exact_cold (bindPort : ℕ) (env : Env Addr) (wires : List Bytes) :
    Exact (wires.mapIdx fun i wire => (env.cold i).item wire)
      ⟨wires.mapIdx fun i wire => sendToSession bindPort (env.cold i) wire, .returned none⟩ := by
  refine ⟨(fun hpanic => by cases hpanic), ?_, ?_⟩
  · have hsends := handed_sends_eq_iff Event.routed (wires.mapIdx fun i wire =>
      ((env.cold i).item wire, replyFromOrigPort bindPort (env.cold i).reply
        ((env.cold i).item wire).sock ((env.cold i).item wire).dst wire)) fun _ _ => rfl
    rw [map_mapIdx, map_mapIdx] at hsends
    refine .of_eq (hsends.2 fun s hs => ?_)
    obtain ⟨i, hi, rfl⟩ := List.mem_mapIdx.1 hs
    exact (replyFromOrigPort_writes _ _ _ _ _).1
  · intro e he
    obtain ⟨i, hi, rfl⟩ := List.mem_mapIdx.1 he
    exact (replyFromOrigPort_writes _ _ _ _ _).2

theorem exact_sendToSessionBatch_iff (bindPort : ℕ) (paths : Paths Addr) (env : Env Addr)
    (wires : List Bytes) :
    Exact (targets bindPort paths env wires) (sendToSessionBatch bindPort paths env wires) ↔
      ((batchRoute bindPort paths env.pool).isSome → 0 ≤ (env.count wires.length).n) := by
  have hcold := exact_cold bindPort env wires
  have hle : ∀ sock addr, (env.count wires.length).n ≤
      (wires.map (Item.mk (δ := AddrPort Addr) sock addr)).length := by
    intro sock addr
    rw [List.length_map]
    exact (env.count wires.length).le_len
  unfold sendToSessionBatch targets batchRoute
  dsimp only
  cases hlookup : paths.pathAddrs.lookup paths.lastOrigPort with
  | none => exact iff_of_true hcold fun h => by cases h
  | some pe =>
      dsimp only [Option.bind_some]
      split_ifs with hport hpool
      · refine (exact_sendFrom_iff (hle _ _) fun i item _ => ?_).trans (imp_iff_right rfl).symm
        refine ⟨List.cons_ne_nil _ _, fun w hw => ?_, retried_pooled item _ _⟩
        obtain ⟨v, -, rfl⟩ := List.mem_map.1 hw
        rfl
      · exact iff_of_true hcold fun h => by cases h
      · refine (exact_sendFrom_iff (hle _ _) fun i item hitem => ?_).trans (imp_iff_right rfl).symm
        obtain ⟨wire, -, rfl⟩ := List.mem_map.1 hitem
        refine ⟨List.cons_ne_nil _ _, fun w hw => ?_, List.pairwise_singleton _ _⟩
        exact List.mem_singleton.1 hw ▸ rfl

end Session

-- A batch is sent exactly if and only if no batch call counts below zero, and in the
-- dialer `Next` has a socket for every wire and no individual send is turned away
-- before its first write.
theorem batch_sends_exact_iff {Addr : Type} :
    (∀ (env : Client.Env) (wires : List Bytes), Client.SentExactly env wires ↔
      ∃ items, Client.assign env.next 0 wires = some items ∧ Client.Smooth env items) ∧
    ∀ (bindPort : ℕ) (paths : Paths Addr) (env : Session.Env Addr) (wires : List Bytes),
      Exact (Session.targets bindPort paths env wires)
          (Session.sendToSessionBatch bindPort paths env wires) ↔
        ((Session.batchRoute bindPort paths env.pool).isSome → 0 ≤ (env.count wires.length).n) :=
  ⟨fun _ _ => Client.sentExactly_iff, Session.exact_sendToSessionBatch_iff⟩

-- `sendmmsg` fails on its first message.
def failedCount (len : ℕ) : BatchCount len where
  n := -1
  neg_one_le := Int.le_refl _
  le_len := (Int.negSucc_lt_zero 0).le.trans (Int.natCast_nonneg len)

def failingDialer : Client.Env where
  next := fun _ => some (0, 25000)
  range := fun keys => ⟨keys, .refl keys⟩
  conn := fun _ => true
  count := fun _ => failedCount
  attempt := fun _ _ => ⟨false, some .sent, false, false, none⟩

def failingSession : Session.Env Unit where
  pool := true
  count := failedCount
  pooled := fun _ => (.sent, .closed)
  reply := fun _ => ⟨none, .sent⟩
  cold := fun _ => ⟨newPaths ⟨(), 4000⟩ 0, [], ⟨none, .sent⟩⟩

def onePath : Paths Unit :=
  { newPaths ⟨(), 4000⟩ 25000 with pathAddrs := (∅ : SeqMap (PathEntry Unit)).insert 25000 ⟨⟨(), 4000⟩, 0⟩ }

-- The negative count is sliced with, and neither function survives it.
theorem negative_count_panics :
    (Client.sendBatch failingDialer [[1]]).result = .panicked ∧
    (Session.sendToSessionBatch 36712 onePath failingSession [[1]]).result = .panicked := by
  refine ⟨by decide +kernel, ?_⟩
  have hlookup : onePath.pathAddrs.lookup onePath.lastOrigPort = some ⟨⟨(), 4000⟩, 0⟩ :=
    Finmap.lookup_insert _
  unfold Session.sendToSessionBatch
  dsimp only
  rw [hlookup]
  rfl

end UdpCustom.Batch
