import UdpCustom.Framing.Theorems
import UdpCustom.Lib.Slice

-- The assembler with its buffer in memory: appended to in place or moved by the
-- runtime, cut at the front message by message, dropped or compacted at the end of a
-- call. The messages it returned are arrays of the same memory.
namespace UdpCustom.Framing.Memory

open UdpCustom.Frame

def retainedCap : ℕ := 64 * 1024

structure MessageAssembler where
  heap : Heap UInt8
  buf : Slice
  maxPayload : ℕ
  broken : Bool

def newMessageAssembler (maxPayload : ℕ) : MessageAssembler where
  heap := Heap.init
  buf := .none
  maxPayload := if maxPayload = 0 then maxFramedMessage else maxPayload
  broken := false

def drain (maxPayload : ℕ) :
    ℕ → Heap UInt8 → Slice → List Slice → Except FramingError (List Slice × Slice × Heap UInt8)
  | 0, heap, buf, msgs => .ok (msgs, buf, heap)
  | fuel + 1, heap, buf, msgs =>
    if buf.len < frameHeaderSize then .ok (msgs, buf, heap)
    else
      let n := fieldAt (heap.read buf) 0 frameHeaderSize
      if maxPayload < n then .error (.messageTooLarge n maxPayload)
      else if buf.len < frameHeaderSize + n then .ok (msgs, buf, heap)
      else if 2 ^ 32 ≤ frameHeaderSize + n then .error .sliceBounds
      else
        let msg := heap.clone (((heap.read buf).drop frameHeaderSize).take n)
        drain maxPayload fuel msg.2 (buf.skip (frameHeaderSize + n)) (msgs ++ [msg.1])

-- Reclaim the consumed part of the buffer.
def reclaim (heap : Heap UInt8) (buf : Slice) : Slice × Heap UInt8 :=
  if buf.len = 0 then
    if retainedCap < buf.cap then (.none, heap) else ({ buf with len := 0 }, heap)
  else if retainedCap < buf.cap ∧ buf.len * 4 < buf.cap then heap.clone (heap.read buf)
  else (buf, heap)

def MessageAssembler.feed (a : MessageAssembler) (chunk spare : Bytes) :
    Except FramingError (List Slice) × MessageAssembler :=
  if a.broken then (.error .assemblerBroken, a)
  else
    let held := if chunk.length = 0 then (a.buf, a.heap) else a.heap.append a.buf chunk spare
    match drain a.maxPayload held.1.len held.2 held.1 [] with
    | .error e => (.error e, { a with heap := held.2, buf := .none, broken := true })
    | .ok (msgs, buf, heap) =>
      let kept := reclaim heap buf
      (.ok msgs, { a with heap := kept.2, buf := kept.1 })

def MessageAssembler.pending (a : MessageAssembler) : ℕ :=
  a.buf.len

-- A call: the chunk, and what the runtime puts behind it if it has to move the buffer.
abbrev Call := Bytes × Bytes

def MessageAssembler.feedAll (a : MessageAssembler) :
    List Call → List (Except FramingError (List Slice)) × MessageAssembler
  | [] => ([], a)
  | call :: rest =>
    let fed := a.feed call.1 call.2
    let later := fed.2.feedAll rest
    (fed.1 :: later.1, later.2)

variable {heap : Heap UInt8} {buf : Slice} {msgs : List Slice} {acc : List Bytes}

-- What the loop over slices leaves where the loop over bytes returns `out` and `rest`.
structure Drained (heap : Heap UInt8) (buf : Slice) (msgs : List Slice) (out : List Bytes) (rest : Bytes)
    (result : List Slice × Slice × Heap UInt8) : Prop where
  grown : heap <+: result.2.2
  valid : result.2.2.Valid result.2.1
  sameArray : result.2.1.array = buf.array
  rest : result.2.2.read result.2.1 = rest
  out : result.1.map result.2.2.read = out
  fresh : ∀ t ∈ result.1, t ∈ msgs ∨ heap.length ≤ t.array ∧ t.array < result.2.2.length

theorem Drained.stop (hbuf : heap.Valid buf) (hacc : msgs.map heap.read = acc) :
    Drained heap buf msgs acc (heap.read buf) (msgs, buf, heap) :=
  ⟨List.prefix_rfl, hbuf, rfl, rfl, hacc, fun _ ht => .inl ht⟩

theorem drain_sim (limit fuel : ℕ) (msgs : List Slice) (hbuf : heap.Valid buf)
    (hmsgs : ∀ t ∈ msgs, t.array < heap.length) (hacc : msgs.map heap.read = acc) :
    match Framing.drain limit fuel (heap.read buf) acc with
    | .error e => drain limit fuel heap buf msgs = .error e
    | .ok (out, rest) => ∃ result, drain limit fuel heap buf msgs = .ok result ∧
        Drained heap buf msgs out rest result := by
  induction fuel generalizing heap buf msgs acc with
  | zero => exact ⟨_, rfl, .stop hbuf hacc⟩
  | succ fuel ih =>
      rw [Framing.drain, drain]
      dsimp only
      rw [Heap.length_read hbuf]
      by_cases hshort : buf.len < frameHeaderSize
      · rw [if_pos hshort, if_pos hshort]
        exact ⟨_, rfl, .stop hbuf hacc⟩
      rw [if_neg hshort, if_neg hshort]
      generalize fieldAt (heap.read buf) 0 frameHeaderSize = n
      by_cases hover : limit < n
      · rw [if_pos hover, if_pos hover]
      rw [if_neg hover, if_neg hover]
      by_cases hcut : buf.len < frameHeaderSize + n
      · rw [if_pos hcut, if_pos hcut]
        exact ⟨_, rfl, .stop hbuf hacc⟩
      rw [if_neg hcut, if_neg hcut]
      by_cases hwrap : 2 ^ 32 ≤ frameHeaderSize + n
      · rw [if_pos hwrap, if_pos hwrap]
      rw [if_neg hwrap, if_neg hwrap]
      -- one message moves to an array of its own
      have hgrown := Heap.clone_grown heap (((heap.read buf).drop frameHeaderSize).take n)
      have hread := Heap.read_clone heap (((heap.read buf).drop frameHeaderSize).take n)
      have hnew := Heap.valid_clone heap (((heap.read buf).drop frameHeaderSize).take n)
      have harray : (heap.clone (((heap.read buf).drop frameHeaderSize).take n)).1.array = heap.length := rfl
      generalize heap.clone (((heap.read buf).drop frameHeaderSize).take n) = msg at *
      have hskip := Heap.valid_skip (hbuf.grown hgrown) (Nat.not_lt.1 hcut)
      have hmsgs' : ∀ t ∈ msgs ++ [msg.1], t.array < msg.2.length := by
        intro t ht
        rcases List.mem_append.1 ht with ht | ht
        · exact (hmsgs t ht).trans_le hgrown.length_le
        · rw [List.mem_singleton.1 ht]
          exact hnew.array
      have hacc' : (msgs ++ [msg.1]).map msg.2.read =
          acc ++ [((heap.read buf).drop frameHeaderSize).take n] := by
        rw [List.map_append, List.map_singleton, hread, ← hacc]
        refine congrArg (· ++ _) (List.map_congr_left fun t ht => ?_)
        exact Heap.read_of_grown hgrown (hmsgs t ht)
      have hnext := ih (msgs ++ [msg.1]) hskip hmsgs' hacc'
      rw [Heap.read_skip, Heap.read_of_grown hgrown hbuf.array] at hnext
      split at hnext
      · exact hnext
      · obtain ⟨result, hresult, hdrained⟩ := hnext
        refine ⟨result, hresult, hgrown.trans hdrained.grown, hdrained.valid, hdrained.sameArray,
          hdrained.rest, hdrained.out, fun t ht => ?_⟩
        rcases hdrained.fresh t ht with hold | ⟨hlow, hhigh⟩
        · rcases List.mem_append.1 hold with hold | hold
          · exact .inl hold
          · rw [List.mem_singleton.1 hold, harray]
            exact .inr ⟨Nat.le_refl _, harray ▸ hnew.array.trans_le hdrained.grown.length_le⟩
        · exact .inr ⟨hgrown.length_le.trans hlow, hhigh⟩

-- A slice of an array the assembler will not write to.
structure Apart (heap : Heap UInt8) (buf : Slice) (t : Slice) : Prop where
  array : t.array < heap.length
  buf : t.array ≠ buf.array
  nil : t.array ≠ 0

-- One stage of a call leads from one memory and buffer to the next without touching
-- the slices apart from the buffer.
structure Leads (heap : Heap UInt8) (buf : Slice) (heap' : Heap UInt8) (buf' : Slice) : Prop where
  valid : heap'.Valid buf'
  apart : ∀ t, Apart heap buf t → Apart heap' buf' t ∧ heap'.read t = heap.read t

theorem Leads.trans {heap' heap'' : Heap UInt8} {buf' buf'' : Slice} (h : Leads heap buf heap' buf')
    (h' : Leads heap' buf' heap'' buf'') : Leads heap buf heap'' buf'' where
  valid := h'.valid
  apart := by
    intro t ht
    obtain ⟨ht', hread⟩ := h.apart t ht
    obtain ⟨ht'', hread'⟩ := h'.apart t ht'
    exact ⟨ht'', hread'.trans hread⟩

theorem leads_grown {heap' : Heap UInt8} {buf' : Slice} (hgrown : heap <+: heap') (hvalid : heap'.Valid buf')
    (harray : buf'.array = buf.array ∨ buf'.array = 0 ∨ heap.length ≤ buf'.array) :
    Leads heap buf heap' buf' where
  valid := hvalid
  apart := by
    intro t ht
    refine ⟨⟨ht.array.trans_le hgrown.length_le, fun he => ?_, ht.nil⟩, Heap.read_of_grown hgrown ht.array⟩
    rcases harray with hsame | hzero | hnew
    · exact ht.buf (he.trans hsame)
    · exact ht.nil (he.trans hzero)
    · exact absurd ht.array (Nat.not_lt.2 (he ▸ hnew))

theorem leads_append (hbuf : heap.Valid buf) (chunk spare : Bytes) :
    Leads heap buf (heap.append buf chunk spare).2 (heap.append buf chunk spare).1 where
  valid := Heap.valid_append hbuf chunk spare
  apart := by
    intro t ht
    refine ⟨⟨ht.array.trans_le (Heap.length_append_le _ _ _ _), fun he => ?_, ht.nil⟩,
      Heap.read_append_of_ne ht.array ht.buf chunk spare⟩
    rcases Heap.array_append heap buf chunk spare with hsame | hnew
    · exact ht.buf (he.trans hsame)
    · exact ht.array.ne (he.trans hnew)

theorem reclaim_spec (hbuf : heap.Valid buf) :
    Leads heap buf (reclaim heap buf).2 (reclaim heap buf).1 ∧
      (reclaim heap buf).2.read (reclaim heap buf).1 = heap.read buf := by
  unfold reclaim
  split
  · rename_i hempty
    rw [Heap.read_of_len_eq_zero hempty]
    split
    · have hne : heap ≠ [] := List.ne_nil_of_length_pos (Nat.zero_lt_of_lt hbuf.array)
      exact ⟨leads_grown List.prefix_rfl (Heap.valid_none hne) (.inr (.inl rfl)),
        Heap.read_of_len_eq_zero rfl⟩
    · exact ⟨leads_grown List.prefix_rfl ⟨hbuf.array, Nat.zero_le _, hbuf.cap⟩ (.inl rfl),
        Heap.read_of_len_eq_zero rfl⟩
  · split
    · exact ⟨leads_grown (Heap.clone_grown _ _) (Heap.valid_clone _ _) (.inr (.inr (Nat.le_refl _))),
        Heap.read_clone _ _⟩
    · exact ⟨leads_grown List.prefix_rfl hbuf (.inl rfl), rfl⟩

structure Represents (a : MessageAssembler) (p : Framing.MessageAssembler) : Prop where
  valid : a.heap.Valid a.buf
  bytes : a.heap.read a.buf = p.buf
  maxPayload : a.maxPayload = p.maxPayload
  broken : a.broken = p.broken

-- What a call returned, and where.
def Agrees (a : MessageAssembler) :
    Except FramingError (List Slice) → Except FramingError (List Bytes) → Prop
  | .ok slices, .ok msgs => slices.map a.heap.read = msgs ∧ ∀ t ∈ slices, Apart a.heap a.buf t
  | .error e, .error e' => e = e'
  | _, _ => False

variable {a : MessageAssembler} {p : Framing.MessageAssembler}

theorem leads_held (h : Represents a p) (chunk spare : Bytes) {held : Slice × Heap UInt8}
    (hheld : held = if chunk.length = 0 then (a.buf, a.heap) else a.heap.append a.buf chunk spare) :
    Leads a.heap a.buf held.2 held.1 ∧ held.2.read held.1 = p.buf ++ chunk := by
  split at hheld
  · rename_i hempty
    rw [hheld, List.length_eq_zero_iff.1 hempty, List.append_nil]
    exact ⟨leads_grown List.prefix_rfl h.valid (.inl rfl), h.bytes⟩
  · rw [hheld, Heap.read_append h.valid, h.bytes]
    exact ⟨leads_append h.valid chunk spare, rfl⟩

theorem feed_sim (h : Represents a p) (chunk spare : Bytes) :
    Represents (a.feed chunk spare).2 (p.feed chunk).2 ∧
    Agrees (a.feed chunk spare).2 (a.feed chunk spare).1 (p.feed chunk).1 ∧
    ∀ t, Apart a.heap a.buf t → Apart (a.feed chunk spare).2.heap (a.feed chunk spare).2.buf t ∧
      (a.feed chunk spare).2.heap.read t = a.heap.read t := by
  unfold MessageAssembler.feed Framing.MessageAssembler.feed
  rw [h.broken]
  cases hbroken : p.broken with
  | true => exact ⟨h, rfl, fun t ht => ⟨ht, rfl⟩⟩
  | false =>
      dsimp only
      rw [if_neg Bool.false_ne_true, if_neg Bool.false_ne_true]
      generalize hheld : (if chunk.length = 0 then (a.buf, a.heap)
        else a.heap.append a.buf chunk spare) = held
      obtain ⟨hleads, hread⟩ := leads_held h chunk spare hheld.symm
      have hsim := drain_sim p.maxPayload held.1.len [] hleads.valid (fun _ => nofun) List.map_nil
      rw [← hread, Heap.length_read hleads.valid, h.maxPayload]
      cases hdrain : Framing.drain p.maxPayload held.1.len (held.2.read held.1) [] with
      | error e =>
          rw [hdrain] at hsim
          have hne : held.2 ≠ [] := List.ne_nil_of_length_pos (Nat.zero_lt_of_lt hleads.valid.array)
          have hreset := hleads.trans
            (leads_grown List.prefix_rfl (Heap.valid_none hne) (.inr (.inl rfl)))
          dsimp only at hsim ⊢
          rw [hsim]
          exact ⟨⟨hreset.valid, Heap.read_of_len_eq_zero rfl, rfl, rfl⟩, rfl, hreset.apart⟩
      | ok drained =>
          rw [hdrain] at hsim
          dsimp only at hsim ⊢
          obtain ⟨⟨slices, buf, heap⟩, hresult, hdrained⟩ := hsim
          rw [hresult]
          have hmiddle : Leads held.2 held.1 heap buf :=
            leads_grown hdrained.grown hdrained.valid (.inl hdrained.sameArray)
          obtain ⟨hreclaim, hsame⟩ := reclaim_spec hdrained.valid
          have hall := (hleads.trans hmiddle).trans hreclaim
          -- the new messages are in arrays that were not there before the loop
          have hfresh : ∀ t ∈ slices, Apart heap buf t := by
            intro t ht
            obtain ⟨hlow, hhigh⟩ := (hdrained.fresh t ht).resolve_left nofun
            have hbuf : buf.array < held.2.length := hdrained.sameArray ▸ hleads.valid.array
            exact ⟨hhigh, (hbuf.trans_le hlow).ne', (Nat.zero_lt_of_lt (hbuf.trans_le hlow)).ne'⟩
          refine ⟨⟨hall.valid, hsame.trans hdrained.rest, rfl, rfl⟩, ⟨?_, fun t ht => ?_⟩,
            hall.apart⟩
          · rw [← hdrained.out]
            exact List.map_congr_left fun t ht => (hreclaim.apart t (hfresh t ht)).2
          · exact (hreclaim.apart t (hfresh t ht)).1

theorem represents_new (limit : ℕ) :
    Represents (newMessageAssembler limit) (Framing.newMessageAssembler limit) :=
  ⟨Heap.valid_none (List.cons_ne_nil _ _), Heap.read_of_len_eq_zero rfl, rfl, rfl⟩

theorem feedAll_append (a : MessageAssembler) (calls calls' : List Call) :
    a.feedAll (calls ++ calls') =
      ((a.feedAll calls).1 ++ ((a.feedAll calls).2.feedAll calls').1,
        ((a.feedAll calls).2.feedAll calls').2) := by
  induction calls generalizing a with
  | nil => rfl
  | cons call calls ih =>
      rw [List.cons_append, MessageAssembler.feedAll, MessageAssembler.feedAll, ih]
      rfl

-- Calls leave every slice apart from the buffer as it is.
theorem apart_feedAll (h : Represents a p) (calls : List Call) {t : Slice} (ht : Apart a.heap a.buf t) :
    Apart (a.feedAll calls).2.heap (a.feedAll calls).2.buf t ∧
      (a.feedAll calls).2.heap.read t = a.heap.read t := by
  induction calls generalizing a p with
  | nil => exact ⟨ht, rfl⟩
  | cons call calls ih =>
      obtain ⟨hrep, -, hapart⟩ := feed_sim h call.1 call.2
      obtain ⟨ht', hread⟩ := hapart t ht
      obtain ⟨ht'', hread'⟩ := ih hrep ht'
      exact ⟨ht'', hread'.trans hread⟩

theorem Agrees.of_ok {result : Except FramingError (List Slice)} {msgs : List Bytes}
    (h : Agrees a result (.ok msgs)) :
    ∃ slices, result = .ok slices ∧ slices.map a.heap.read = msgs ∧ ∀ t ∈ slices, Apart a.heap a.buf t := by
  cases result with
  | error e => exact absurd h id
  | ok slices => exact ⟨slices, rfl, h⟩

-- A run over memory returns, at its end, what the run over bytes returned.
theorem feedAll_sim (h : Represents a p) (calls : List Call) :
    Represents (a.feedAll calls).2 (p.feedAll (calls.map (·.1))).2 ∧
    ((∀ r ∈ (p.feedAll (calls.map (·.1))).1, ∃ msgs, r = .ok msgs) →
      ∃ slices : List (List Slice), (a.feedAll calls).1 = slices.map .ok ∧
        (∀ t ∈ slices.flatten, Apart (a.feedAll calls).2.heap (a.feedAll calls).2.buf t) ∧
        slices.flatten.map (a.feedAll calls).2.heap.read =
          returned (p.feedAll (calls.map (·.1))).1) := by
  induction calls generalizing a p with
  | nil => exact ⟨h, fun _ => ⟨[], rfl, fun _ => nofun, rfl⟩⟩
  | cons call calls ih =>
      obtain ⟨hrep, hagrees, -⟩ := feed_sim h call.1 call.2
      obtain ⟨hend, hrest⟩ := ih hrep
      refine ⟨hend, fun hok => ?_⟩
      rw [List.map_cons, Framing.MessageAssembler.feedAll] at hok ⊢
      obtain ⟨msgs, hmsgs⟩ := hok _ List.mem_cons_self
      rw [hmsgs] at hagrees ⊢
      obtain ⟨first, hfirst, hread, hfirstApart⟩ := hagrees.of_ok
      obtain ⟨slices, hslices, hapart, hall⟩ := hrest fun r hr => hok r (List.mem_cons_of_mem _ hr)
      rw [MessageAssembler.feedAll]
      refine ⟨first :: slices, ?_, fun t ht => ?_, ?_⟩
      · dsimp only
        rw [hfirst, hslices, List.map_cons]
      · rcases List.mem_append.1 (List.flatten_cons ▸ ht) with ht | ht
        · exact (apart_feedAll hrep calls (hfirstApart t ht)).1
        · exact hapart t ht
      · dsimp only
        rw [List.flatten_cons, List.map_append, hall, ← hread]
        refine congrArg (· ++ _) (List.map_congr_left fun t ht => ?_)
        exact (apart_feedAll hrep calls (hfirstApart t ht)).2

theorem encodeMessage_of_fits {limit : ℕ} {m : Bytes} (h : Fits limit m) :
    encodeMessage m = .ok (frame m) :=
  if_neg (Nat.not_lt.2 h.2)

theorem batchSize_of_fits {limit : ℕ} {msgs : List Bytes} (hfits : ∀ m ∈ msgs, Fits limit m) (total : ℤ)
    (hsize : total + (frames msgs).length ≤ maxInt) : ∃ size, batchSize total msgs = .ok size := by
  induction msgs generalizing total with
  | nil => exact ⟨total, rfl⟩
  | cons m msgs ih =>
      rw [frames_cons, List.length_append, length_frame] at hsize
      push_cast at hsize
      rw [batchSize, if_neg (Nat.not_lt.2 (hfits m List.mem_cons_self).2), if_neg (by omega)]
      exact ih (fun m hm => hfits m (List.mem_cons_of_mem _ hm)) _ (by omega)

theorem framing_round_trip {limit : ℕ} {msgs : List Bytes} {calls : List Call}
    (hfits : ∀ m ∈ msgs, Fits (newMessageAssembler limit).maxPayload m)
    (hstream : (calls.map (·.1)).flatten = frames msgs) :
    (∀ m ∈ msgs, encodeMessage m = .ok (frame m)) ∧
    ((frames msgs).length ≤ maxInt → encodeMessages msgs = .ok (frames msgs)) ∧
    (∀ early late, calls = early ++ late →
      ∃ slices : List (List Slice), ((newMessageAssembler limit).feedAll early).1 = slices.map .ok ∧
        ∀ more less, late = more ++ less →
          slices.flatten.map ((newMessageAssembler limit).feedAll (early ++ more)).2.heap.read =
            whole msgs (early.map (·.1)).flatten.length) ∧
    whole msgs (calls.map (·.1)).flatten.length = msgs ∧
    ((newMessageAssembler limit).feedAll calls).2.pending = 0 := by
  have hnew := represents_new limit
  refine ⟨fun m hm => encodeMessage_of_fits (hfits m hm), fun hsize => ?_, ?_, ?_, ?_⟩
  · obtain ⟨size, hbatch⟩ := batchSize_of_fits hfits 0 (by rw [zero_add]; exact hsize)
    rw [encodeMessages, hbatch]
  · rintro early late rfl
    rw [List.map_append, List.flatten_append] at hstream
    obtain ⟨hok, hreturned, -⟩ := feedAll_whole (a := Framing.newMessageAssembler limit) rfl rfl hfits
      (hstream ▸ List.prefix_append _ _ : (early.map (·.1)).flatten <+: frames msgs)
    obtain ⟨hrep, hslices⟩ := feedAll_sim hnew early
    obtain ⟨slices, hresults, hapart, hread⟩ := hslices hok
    refine ⟨slices, hresults, fun more less _ => ?_⟩
    rw [← hreturned, ← hread, feedAll_append]
    exact List.map_congr_left fun t ht => (apart_feedAll hrep more (hapart t ht)).2
  · rw [hstream, whole_frames]
  · have hall : (calls.map (·.1)).flatten <+: frames msgs := hstream ▸ List.prefix_rfl
    obtain ⟨-, -, hbuf⟩ := feedAll_whole (a := Framing.newMessageAssembler limit) rfl rfl hfits hall
    rw [hstream, whole_frames, List.append_right_eq_self] at hbuf
    have hrep := (feedAll_sim hnew calls).1
    rw [MessageAssembler.pending, ← Heap.length_read hrep.valid, hrep.bytes, hbuf, List.length_nil]

-- Two messages, the second empty, cut inside a header and inside a body.
def cutCalls : List Call :=
  [([0, 0], []), ([0, 2, 7], []), ([], []), ([8, 0, 0, 0, 0], [])]

theorem cut_messages_returned :
    (cutCalls.map (·.1)).flatten = frames [[7, 8], []] ∧
    whole [[7, 8], []] (cutCalls.map (·.1)).flatten.length = [[7, 8], []] ∧
    ((newMessageAssembler 5).feedAll cutCalls).2.pending = 0 := by
  have hfits : ∀ m ∈ [[7, 8], []], Fits (newMessageAssembler 5).maxPayload m := by
    intro m hm
    rcases List.mem_pair.1 hm with rfl | rfl <;> exact ⟨by decide, by decide⟩
  have hstream : (cutCalls.map (·.1)).flatten = frames [[7, 8], []] := by decide
  obtain ⟨-, -, -, hwhole, hpending⟩ := framing_round_trip hfits hstream
  exact ⟨hstream, hwhole, hpending⟩

end UdpCustom.Framing.Memory
