import UdpCustom.Framing
import Mathlib.Data.List.Infix

namespace UdpCustom.Framing

open UdpCustom.Frame

variable {limit : ℕ} {m buf rest : Bytes} {msgs left : List Bytes} {left' : List Bytes}

-- A message that can be sent to an assembler with this limit.
def Fits (limit : ℕ) (m : Bytes) : Prop :=
  m.length ≤ limit ∧ m.length ≤ maxFramedMessage

@[simp] theorem length_frame (m : Bytes) : (frame m).length = frameHeaderSize + m.length := by
  rw [frame, List.length_append, BigEndian.length_put]

@[simp] theorem frames_nil : frames [] = [] := rfl

@[simp] theorem frames_cons (m : Bytes) (msgs : List Bytes) : frames (m :: msgs) = frame m ++ frames msgs := rfl

theorem frames_append (msgs msgs' : List Bytes) : frames (msgs ++ msgs') = frames msgs ++ frames msgs' := by
  rw [frames, List.map_append, List.flatten_append]
  rfl

theorem fieldAt_header (n : ℕ) (hn : n < 2 ^ 32) (rest : Bytes) :
    fieldAt (BigEndian.put frameHeaderSize n ++ rest) 0 frameHeaderSize = n := by
  rw [fieldAt, List.drop_zero, BigEndian.take_put_append, BigEndian.get_put_of_lt hn]

theorem Fits.lt (h : Fits limit m) : frameHeaderSize + m.length < 2 ^ 32 := by
  have hmax := h.2
  unfold maxFramedMessage at hmax
  unfold frameHeaderSize
  omega

variable {done : List Bytes}

theorem drain_short (h : buf.length < frameHeaderSize) (fuel : ℕ) (acc : List Bytes) :
    drain limit fuel buf acc = .ok (acc, buf) := by
  cases fuel with
  | zero => rfl
  | succ fuel => rw [drain, if_pos h]

theorem drain_over {n : ℕ} (hn : n < 2 ^ 32) (hover : limit < n) (rest : Bytes) (fuel : ℕ)
    (acc : List Bytes) :
    drain limit (fuel + 1) (BigEndian.put frameHeaderSize n ++ rest) acc =
      .error (.messageTooLarge n limit) := by
  have hlong : ¬(BigEndian.put frameHeaderSize n ++ rest).length < frameHeaderSize := by
    rw [List.length_append, BigEndian.length_put]
    omega
  rw [drain, if_neg hlong]
  dsimp only
  rw [fieldAt_header n hn, if_pos hover]

theorem drain_frame (hfits : Fits limit m) (rest : Bytes) (fuel : ℕ) (acc : List Bytes) :
    drain limit (fuel + 1) (frame m ++ rest) acc = drain limit fuel rest (acc ++ [m]) := by
  have hlen : (frame m ++ rest).length = frameHeaderSize + m.length + rest.length := by
    rw [List.length_append, length_frame]
  have hheader : fieldAt (frame m ++ rest) 0 frameHeaderSize = m.length := by
    rw [frame, List.append_assoc]
    have hsmall := hfits.lt
    exact fieldAt_header m.length (by omega) _
  have hbody : ((frame m ++ rest).drop frameHeaderSize).take m.length = m := by
    rw [frame, List.append_assoc, BigEndian.drop_put_append _ _ le_rfl, Nat.sub_self, List.drop_zero,
      List.take_left]
  have hrest : (frame m ++ rest).drop (frameHeaderSize + m.length) = rest :=
    List.drop_left' (length_frame m)
  rw [drain, if_neg (by omega)]
  dsimp only
  rw [hheader, if_neg (Nat.not_lt.2 hfits.1), if_neg (by omega), if_neg (Nat.not_le.2 hfits.lt), hbody,
    hrest]

-- Part of a frame stays in the buffer.
theorem drain_cut (hfits : Fits limit m) (hcut : buf <+: frame m) (hlen : buf.length < (frame m).length)
    (fuel : ℕ) (acc : List Bytes) : drain limit fuel buf acc = .ok (acc, buf) := by
  by_cases hshort : buf.length < frameHeaderSize
  · exact drain_short hshort fuel acc
  · cases fuel with
    | zero => rfl
    | succ fuel =>
        have htake : buf.take frameHeaderSize = BigEndian.put frameHeaderSize m.length := by
          rw [List.prefix_iff_eq_take.1 hcut, List.take_take, Nat.min_eq_left (Nat.not_lt.1 hshort), frame,
            BigEndian.take_put_append]
        have hheader : fieldAt buf 0 frameHeaderSize = m.length := by
          have hsmall : m.length < 2 ^ 32 := by
            have hlt := hfits.lt
            omega
          rw [fieldAt, List.drop_zero, htake, BigEndian.get_put_of_lt hsmall]
        rw [length_frame] at hlen
        rw [drain, if_neg hshort]
        dsimp only
        rw [hheader, if_neg (Nat.not_lt.2 hfits.1), if_pos hlen]

theorem drain_frames (hfits : ∀ m ∈ done, Fits limit m) (fuel : ℕ)
    (hfuel : (frames done ++ rest).length ≤ fuel) (acc : List Bytes) :
    ∃ fuel', rest.length ≤ fuel' ∧
      drain limit fuel (frames done ++ rest) acc = drain limit fuel' rest (acc ++ done) := by
  induction done generalizing fuel acc with
  | nil => exact ⟨fuel, hfuel, by rw [frames_nil, List.nil_append, List.append_nil]⟩
  | cons m done ih =>
      rw [frames_cons, List.append_assoc, List.length_append, length_frame] at hfuel
      have hpos : 0 < frameHeaderSize := by decide
      cases fuel with
      | zero => omega
      | succ fuel =>
          obtain ⟨fuel', hle, heq⟩ := ih (fun m hm => hfits m (List.mem_cons_of_mem _ hm)) fuel
            (by omega) (acc ++ [m])
          refine ⟨fuel', hle, ?_⟩
          rw [frames_cons, List.append_assoc, drain_frame (hfits m List.mem_cons_self), heq,
            List.append_assoc, List.singleton_append]

-- How far a buffer reaches into a stream: over some whole messages, and into the next
-- one or into what follows the last.
structure Reaches (left : List Bytes) (tail buf : Bytes) (done left' : List Bytes) (rest : Bytes) :
    Prop where
  split : left = done ++ left'
  bytes : buf = frames done ++ rest
  stop : left' = [] ∧ rest <+: tail ∨
    ∃ m ms, left' = m :: ms ∧ rest <+: frame m ∧ rest.length < (frame m).length

theorem exists_reaches (left : List Bytes) {tail buf : Bytes} (h : buf <+: frames left ++ tail) :
    ∃ done left' rest, Reaches left tail buf done left' rest := by
  induction left generalizing buf with
  | nil => exact ⟨[], [], buf, rfl, rfl, .inl ⟨rfl, h⟩⟩
  | cons m left ih =>
      rw [frames_cons, List.append_assoc] at h
      by_cases hshort : buf.length < (frame m).length
      · have hcut : buf <+: frame m :=
          List.prefix_of_prefix_length_le h (List.prefix_append _ _) hshort.le
        exact ⟨[], m :: left, buf, rfl, rfl, .inr ⟨m, left, rfl, hcut, hshort⟩⟩
      · obtain ⟨buf', rfl⟩ := List.prefix_of_prefix_length_le (List.prefix_append _ _) h
          (Nat.not_lt.1 hshort)
        obtain ⟨done, left', rest, hreach⟩ := ih ((List.prefix_append_right_inj _).1 h)
        refine ⟨m :: done, left', rest, ?_, ?_, hreach.stop⟩
        · rw [hreach.split, List.cons_append]
        · rw [frames_cons, List.append_assoc, hreach.bytes]

theorem Reaches.drain {tail : Bytes} (h : Reaches left tail buf done left' rest)
    (hfits : ∀ m ∈ left, Fits limit m) (hend : left' = [] → rest.length < frameHeaderSize) :
    drain limit buf.length buf [] = .ok (done, rest) := by
  have hdone : ∀ m ∈ done, Fits limit m := fun m hm => hfits m (h.split ▸ List.mem_append_left _ hm)
  obtain ⟨fuel, -, heq⟩ := drain_frames hdone _ (Nat.le_refl (frames done ++ rest).length) []
  rw [h.bytes, heq, List.nil_append]
  rcases h.stop with ⟨hnil, -⟩ | ⟨m, ms, hcons, hcut, hlen⟩
  · exact drain_short (hend hnil) fuel done
  · refine drain_cut (hfits m ?_) hcut hlen fuel done
    rw [h.split, hcons]
    exact List.mem_append_right _ List.mem_cons_self

theorem Reaches.trans {tail buf' : Bytes} {left' done' left'' : List Bytes} {rest' : Bytes}
    (h : Reaches left tail buf done left' rest) (h' : Reaches left' tail (rest ++ buf') done' left'' rest') :
    Reaches left tail (buf ++ buf') (done ++ done') left'' rest' where
  split := by rw [h.split, h'.split, List.append_assoc]
  bytes := by rw [h.bytes, List.append_assoc, h'.bytes, frames_append, List.append_assoc]
  stop := h'.stop

theorem whole_append (done left' : List Bytes) (n : ℕ) :
    whole (done ++ left') ((frames done).length + n) = done ++ whole left' n := by
  induction done with
  | nil => rw [List.nil_append, frames_nil, List.length_nil, Nat.zero_add, List.nil_append]
  | cons m done ih =>
      rw [List.cons_append, whole, frames_cons, List.length_append, Nat.add_assoc,
        if_pos (Nat.le_add_right _ _), Nat.add_sub_cancel_left, ih, List.cons_append]

theorem Reaches.whole_eq {tail : Bytes} (h : Reaches left tail buf done left' rest) :
    whole left buf.length = done := by
  rw [h.split, h.bytes, List.length_append, whole_append, List.append_right_eq_self]
  rcases h.stop with ⟨rfl, -⟩ | ⟨m, ms, rfl, -, hlen⟩
  · rfl
  · rw [whole, if_neg (Nat.not_le.2 hlen)]

theorem whole_frames (msgs : List Bytes) : whole msgs (frames msgs).length = msgs := by
  have h := whole_append msgs [] 0
  rwa [List.append_nil, Nat.add_zero, whole, List.append_nil] at h

theorem reaches_nothing (left : List Bytes) (tail : Bytes) : Reaches left tail [] [] left [] := by
  refine ⟨rfl, rfl, ?_⟩
  cases left with
  | nil => exact .inl ⟨rfl, List.nil_prefix⟩
  | cons m ms =>
      refine .inr ⟨m, ms, rfl, List.nil_prefix, ?_⟩
      rw [length_frame]
      exact Nat.lt_add_right _ (by decide)

def returned (results : List (Except FramingError (List Bytes))) : List Bytes :=
  results.flatMap fun
    | .ok msgs => msgs
    | .error _ => []

variable {a : MessageAssembler} {chunk : Bytes} {tail : Bytes}

theorem feed_reaches (h : Reaches left tail (a.buf ++ chunk) done left' rest)
    (hopen : a.broken = false) (hfits : ∀ m ∈ left, Fits a.maxPayload m)
    (hend : left' = [] → rest.length < frameHeaderSize) :
    a.feed chunk = (.ok done, { a with buf := rest }) := by
  rw [MessageAssembler.feed, hopen, if_neg Bool.false_ne_true]
  dsimp only
  rw [h.drain hfits hend]

-- As long as no header behind the messages is complete, what was fed so far decides
-- what has been returned and what is held.
theorem feedAll_reaches (chunks : List Bytes) (hopen : a.broken = false)
    (hfits : ∀ m ∈ left, Fits a.maxPayload m) (hstream : a.buf ++ chunks.flatten <+: frames left ++ tail)
    (hshort : (a.buf ++ chunks.flatten).length < (frames left).length + frameHeaderSize)
    (hheld : Reaches left tail a.buf [] left a.buf) :
    ∃ done left' rest, Reaches left tail (a.buf ++ chunks.flatten) done left' rest ∧
      (a.feedAll chunks).2 = { a with buf := rest } ∧
      (∀ r ∈ (a.feedAll chunks).1, ∃ msgs, r = .ok msgs) ∧ returned (a.feedAll chunks).1 = done := by
  induction chunks generalizing a left with
  | nil =>
      rw [List.flatten_nil, List.append_nil]
      exact ⟨[], left, a.buf, hheld, rfl, fun _ => nofun, rfl⟩
  | cons chunk chunks ih =>
      rw [List.flatten_cons, ← List.append_assoc] at hstream hshort ⊢
      obtain ⟨done₁, left₁, rest₁, hreach⟩ := exists_reaches left
        ((List.prefix_append (a.buf ++ chunk) chunks.flatten).trans hstream)
      have hend : left₁ = [] → rest₁.length < frameHeaderSize := by
        rintro rfl
        rw [hreach.bytes, hreach.split, List.append_nil] at hshort
        simp only [List.length_append] at hshort
        omega
      have hfed := feed_reaches hreach hopen hfits hend
      rw [hreach.bytes, hreach.split, frames_append, List.append_assoc, List.append_assoc] at hstream
      have hshort₁ : (rest₁ ++ chunks.flatten).length < (frames left₁).length + frameHeaderSize := by
        rw [hreach.bytes, hreach.split, frames_append] at hshort
        simp only [List.length_append] at hshort ⊢
        omega
      obtain ⟨done₂, left₂, rest₂, hnext, hstate, hok, hreturned⟩ :=
        ih (a := { a with buf := rest₁ }) hopen
          (fun m hm => hfits m (hreach.split ▸ List.mem_append_right _ hm))
          ((List.prefix_append_right_inj _).1 hstream) hshort₁ ⟨rfl, rfl, hreach.stop⟩
      rw [MessageAssembler.feedAll, hfed]
      refine ⟨done₁ ++ done₂, left₂, rest₂, hreach.trans hnext, hstate, fun r hr => ?_, ?_⟩
      · rcases List.mem_cons.1 hr with rfl | hr
        · exact ⟨done₁, rfl⟩
        · exact hok r hr
      · rw [← hreturned]
        rfl

theorem Reaches.complete_iff (h : Reaches left tail buf done left' rest) :
    done = left ↔ (frames left).length ≤ buf.length := by
  rw [h.bytes, List.length_append]
  constructor
  · rintro rfl
    exact Nat.le_add_right _ _
  · intro hle
    rcases h.stop with ⟨rfl, -⟩ | ⟨m, ms, rfl, -, hlen⟩
    · rw [h.split, List.append_nil]
    · rw [h.split, frames_append, frames_cons, List.length_append, List.length_append] at hle
      omega

theorem feedAll_whole {msgs chunks : List Bytes} (hopen : a.broken = false) (hempty : a.buf = [])
    (hfits : ∀ m ∈ msgs, Fits a.maxPayload m) (hstream : chunks.flatten <+: frames msgs) :
    (∀ r ∈ (a.feedAll chunks).1, ∃ msgs, r = .ok msgs) ∧
      returned (a.feedAll chunks).1 = whole msgs chunks.flatten.length ∧
      frames (whole msgs chunks.flatten.length) ++ (a.feedAll chunks).2.buf = chunks.flatten := by
  have hheld : Reaches msgs [] a.buf [] msgs a.buf := by
    rw [hempty]
    exact reaches_nothing msgs []
  have hlen := hstream.length_le
  have hpos : 0 < frameHeaderSize := by decide
  obtain ⟨done, left', rest, hreach, hstate, hok, hreturned⟩ := feedAll_reaches chunks hopen hfits
    (by rw [hempty, List.append_nil]; exact hstream) (by rw [hempty, List.nil_append]; omega) hheld
  rw [hempty, List.nil_append] at hreach
  rw [hreach.whole_eq, hstate]
  exact ⟨hok, hreturned, hreach.bytes.symm⟩

theorem feedAll_append (a : MessageAssembler) (chunks chunks' : List Bytes) :
    a.feedAll (chunks ++ chunks') =
      ((a.feedAll chunks).1 ++ ((a.feedAll chunks).2.feedAll chunks').1,
        ((a.feedAll chunks).2.feedAll chunks').2) := by
  induction chunks generalizing a with
  | nil => rfl
  | cons chunk chunks ih =>
      rw [List.cons_append, MessageAssembler.feedAll, MessageAssembler.feedAll, ih]
      rfl

theorem feedAll_broken (h : a.broken = true) (chunks : List Bytes) :
    a.feedAll chunks = (List.replicate chunks.length (.error .assemblerBroken), a) := by
  induction chunks with
  | nil => rfl
  | cons chunk chunks ih =>
      have hfed : a.feed chunk = (.error .assemblerBroken, a) := if_pos h
      rw [MessageAssembler.feedAll, hfed, ih]
      rfl

theorem returned_append (results results' : List (Except FramingError (List Bytes))) :
    returned (results ++ results') = returned results ++ returned results' :=
  List.flatMap_append

theorem returned_replicate_error (n : ℕ) (e : FramingError) :
    returned (List.replicate n (.error e)) = [] := by
  induction n with
  | zero => rfl
  | succ n ih => exact ih

-- The bad prefix breaks the assembler, and the messages decoded in the same call go
-- with it.
theorem feed_over {bad : ℕ} {further : Bytes} (hopen : a.broken = false)
    (hfits : ∀ m ∈ left, Fits a.maxPayload m) (hbad : a.maxPayload < bad) (hlt : bad < 2 ^ 32)
    (hbuf : a.buf ++ chunk = frames left ++ (BigEndian.put frameHeaderSize bad ++ further)) :
    a.feed chunk =
      (.error (.messageTooLarge bad a.maxPayload), { a with buf := [], broken := true }) := by
  obtain ⟨fuel, hle, heq⟩ := drain_frames hfits _ (Nat.le_refl
    (frames left ++ (BigEndian.put frameHeaderSize bad ++ further)).length) []
  rw [List.length_append, BigEndian.length_put] at hle
  have hpos : frameHeaderSize ≤ fuel := Nat.le_trans (Nat.le_add_right _ _) hle
  obtain ⟨fuel, rfl⟩ := Nat.exists_eq_add_of_le' (Nat.le_trans (by decide : 1 ≤ frameHeaderSize) hpos)
  rw [MessageAssembler.feed, hopen, if_neg Bool.false_ne_true]
  dsimp only
  rw [hbuf, heq, drain_over hlt hbad]

-- The calls that are over before byte `n` of the stream has come.
def callsBefore : ℕ → List Bytes → List Bytes
  | _, [] => []
  | n, chunk :: chunks =>
    if n ≤ chunk.length then [] else chunk :: callsBefore (n - chunk.length) chunks

theorem callsBefore_spec {n : ℕ} (hpos : 0 < n) {chunks : List Bytes} (h : n ≤ chunks.flatten.length) :
    ∃ chunk later, chunks = callsBefore n chunks ++ chunk :: later ∧
      (callsBefore n chunks).flatten.length < n ∧
      n ≤ (callsBefore n chunks).flatten.length + chunk.length := by
  induction chunks generalizing n with
  | nil => exact absurd h (Nat.not_le.2 hpos)
  | cons chunk chunks ih =>
      rw [callsBefore]
      split
      · rename_i hin
        exact ⟨chunk, chunks, rfl, hpos, by rw [List.flatten_nil, List.length_nil, Nat.zero_add]; exact hin⟩
      · rename_i hout
        rw [List.flatten_cons, List.length_append] at h
        obtain ⟨fatal, later, hsplit, hlt, hle⟩ := ih (n := n - chunk.length) (by omega) (by omega)
        refine ⟨fatal, later, ?_, ?_, ?_⟩
        · rw [List.cons_append, ← hsplit]
        · rw [List.flatten_cons, List.length_append]
          omega
        · rw [List.flatten_cons, List.length_append]
          omega

-- The call that completes the bad prefix, after those that did not.
theorem feed_fatal {bad : ℕ} {further fatal : Bytes} {before : List Bytes} (hopen : a.broken = false)
    (hempty : a.buf = []) (hfits : ∀ m ∈ left, Fits a.maxPayload m) (hbad : a.maxPayload < bad)
    (hlt : bad < 2 ^ 32)
    (hstream : before.flatten ++ fatal <+: frames left ++ (BigEndian.put frameHeaderSize bad ++ further))
    (hbefore : before.flatten.length < (frames left).length + frameHeaderSize)
    (hfatal : (frames left).length + frameHeaderSize ≤ before.flatten.length + fatal.length) :
    (a.feedAll before).2.feed fatal =
        (.error (.messageTooLarge bad a.maxPayload), { a with buf := [], broken := true }) ∧
      (∀ r ∈ (a.feedAll before).1, ∃ msgs, r = .ok msgs) ∧
      (returned (a.feedAll before).1 = left ↔ (frames left).length ≤ before.flatten.length) := by
  have hheld : Reaches left (BigEndian.put frameHeaderSize bad ++ further) a.buf [] left a.buf := by
    rw [hempty]
    exact reaches_nothing left _
  obtain ⟨done, left', rest, hreach, hstate, hok, hreturned⟩ := feedAll_reaches before hopen hfits
    (by rw [hempty]; exact (List.prefix_append _ _).trans hstream) (by rw [hempty]; exact hbefore) hheld
  rw [hempty, List.nil_append] at hreach
  have hcomplete := hreach.complete_iff
  obtain ⟨further', hmore⟩ : frames left ++ BigEndian.put frameHeaderSize bad <+: before.flatten ++ fatal := by
    rw [← List.append_assoc] at hstream
    refine List.prefix_of_prefix_length_le (List.prefix_append _ _) hstream ?_
    rw [List.length_append, List.length_append, BigEndian.length_put]
    exact hfatal
  have hbuf : rest ++ fatal = frames left' ++ (BigEndian.put frameHeaderSize bad ++ further') := by
    rw [hreach.split, frames_append, hreach.bytes, List.append_assoc, List.append_assoc, List.append_assoc,
      List.append_cancel_left_eq] at hmore
    exact hmore.symm
  rw [hstate]
  refine ⟨?_, hok, hreturned ▸ hcomplete⟩
  exact feed_over (a := { a with buf := rest }) hopen
    (fun m hm => hfits m (hreach.split ▸ List.mem_append_right _ hm)) hbad hlt hbuf

theorem broken_stream_iff {limit bad : ℕ} {msgs chunks : List Bytes} {further : Bytes}
    (hfits : ∀ m ∈ msgs, Fits (newMessageAssembler limit).maxPayload m)
    (hbad : (newMessageAssembler limit).maxPayload < bad) (hlt : bad < 2 ^ 32)
    (hstream : chunks.flatten = frames msgs ++ (BigEndian.put frameHeaderSize bad ++ further)) :
    (returned ((newMessageAssembler limit).feedAll chunks).1 = msgs ↔
      (frames msgs).length ≤
        (callsBefore ((frames msgs).length + frameHeaderSize) chunks).flatten.length) ∧
    (∃ early later, ((newMessageAssembler limit).feedAll chunks).1 =
        early ++ .error (.messageTooLarge bad (newMessageAssembler limit).maxPayload) ::
          List.replicate later (.error .assemblerBroken) ∧
      ∀ r ∈ early, ∃ msgs, r = .ok msgs) ∧
    (∀ more, (((newMessageAssembler limit).feedAll chunks).2.feedAll more).1 =
      List.replicate more.length (.error .assemblerBroken)) ∧
    ((newMessageAssembler limit).feedAll chunks).2.reset = newMessageAssembler limit := by
  have hlong : (frames msgs).length + frameHeaderSize ≤ chunks.flatten.length := by
    rw [hstream, List.length_append, List.length_append, BigEndian.length_put]
    omega
  obtain ⟨fatal, later, hsplit, hbefore, hfatal⟩ :=
    callsBefore_spec (Nat.lt_add_left _ (by decide)) hlong
  generalize callsBefore ((frames msgs).length + frameHeaderSize) chunks = before at *
  subst hsplit
  have hprefixed : before.flatten ++ fatal <+:
      frames msgs ++ (BigEndian.put frameHeaderSize bad ++ further) := by
    rw [← hstream, List.flatten_append, List.flatten_cons, ← List.append_assoc]
    exact List.prefix_append _ _
  obtain ⟨hfed, hok, hiff⟩ := feed_fatal (a := newMessageAssembler limit) rfl rfl hfits hbad hlt
    hprefixed hbefore hfatal
  have hrun : (newMessageAssembler limit).feedAll (before ++ fatal :: later) =
      (((newMessageAssembler limit).feedAll before).1 ++
          .error (.messageTooLarge bad (newMessageAssembler limit).maxPayload) ::
            List.replicate later.length (.error .assemblerBroken),
        { newMessageAssembler limit with buf := [], broken := true }) := by
    rw [feedAll_append, MessageAssembler.feedAll, hfed]
    dsimp only
    rw [feedAll_broken (a := { newMessageAssembler limit with buf := [], broken := true }) rfl]
  rw [hrun]
  refine ⟨?_, ⟨_, _, rfl, hok⟩, fun more => ?_, rfl⟩
  · rw [returned_append, ← hiff]
    have hnone : returned (.error (.messageTooLarge bad (newMessageAssembler limit).maxPayload) ::
        List.replicate later.length (.error .assemblerBroken)) = [] :=
      returned_replicate_error later.length .assemblerBroken
    rw [hnone, List.append_nil]
  · rw [feedAll_broken rfl]

-- One message of one byte, and a prefix of 6 with a limit of 5.
def cutAtHeader : List Bytes :=
  [frame [1], BigEndian.put frameHeaderSize 6]

def cutNowhere : List Bytes :=
  [frame [1] ++ BigEndian.put frameHeaderSize 6]

theorem message_before_cut_returned :
    returned ((newMessageAssembler 5).feedAll cutAtHeader).1 = [[1]] := by
  have hfits : ∀ m ∈ [[1]], Fits (newMessageAssembler 5).maxPayload m := by
    intro m hm
    cases List.mem_singleton.1 hm
    exact ⟨by decide, by decide⟩
  have hstream : cutAtHeader.flatten = frames [[1]] ++ (BigEndian.put frameHeaderSize 6 ++ []) := by decide
  have hbad : (newMessageAssembler 5).maxPayload < 6 := by decide
  exact (broken_stream_iff hfits hbad (by decide) hstream).1.2 (by decide)

theorem uncut_message_dropped :
    cutNowhere.flatten = cutAtHeader.flatten ∧
      returned ((newMessageAssembler 5).feedAll cutNowhere).1 = [] ∧
      returned ((newMessageAssembler 5).feedAll cutAtHeader).1 = [[1]] := by
  decide

end UdpCustom.Framing
