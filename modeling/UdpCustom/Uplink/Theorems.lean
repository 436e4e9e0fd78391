import Mathlib.Data.List.TakeWhile
import UdpCustom.Uplink

namespace UdpCustom.Uplink

open UdpCustom.Frame UdpCustom.Mtu

-- A flush that reports success has passed on every byte, in order.
theorem sendData_flatten (fec : Bool) (env : ℕ → RecordEnv) (fuel i : ℕ) (payload : Bytes)
    (hfuel : payload.length ≤ fuel) (hok : (sendData fec env fuel i payload).ok = true) :
    (sendData fec env fuel i payload).records.flatten = payload := by
  induction fuel generalizing i payload with
  | zero =>
      have hnil : payload = [] := List.eq_nil_of_length_eq_zero (by omega)
      simp [sendData, hnil]
  | succ fuel ih =>
      unfold sendData at hok ⊢
      split_ifs at hok ⊢ with hnil hsent
      · simp [hnil]
      · have hpos := (maxPayload_bounds fec (env i).cap).1
        have hlen := List.length_pos_iff.2 hnil
        have hrest := ih (i + 1) _ (by simp only [List.length_drop]; omega) hok
        simp only [List.flatten_cons, hrest, List.take_append_drop]

theorem flushUplink_flatten {fec : Bool} {env : ℕ → RecordEnv} {acc : Bytes}
    (hok : (flushUplink fec env acc).ok = true) :
    (flushUplink fec env acc).records.flatten = acc :=
  sendData_flatten fec env acc.length 0 acc le_rfl hok

-- The loop's law: what was read, after what the accumulator already held, is
-- what was sent followed by the bytes gathered since the last flush.
theorem localToRemote_conserves (fec : Bool) (reads : List ReadResult) (acc : Bytes)
    (hstop : (localToRemote fec reads acc).stop = .localEnded) :
    ∃ lost, acc ++ (localToRemote fec reads acc).read =
        (localToRemote fec reads acc).sent.flatten ++ lost ∧
      lost.length = unflushed fec reads acc.length := by
  induction reads generalizing acc with
  | nil => simp [localToRemote] at hstop
  | cons r rest ih =>
      cases r with
      | closed => simp [localToRemote] at hstop
      | ended => exact ⟨acc, by simp [localToRemote], by simp [unflushed]⟩
      | timeout env =>
          simp only [localToRemote, unflushed] at hstop ⊢
          split_ifs at hstop ⊢ with hok
          obtain ⟨lost, hread, hlost⟩ := ih [] hstop
          refine ⟨lost, ?_, hlost⟩
          simp only [Pumped.after, List.nil_append, List.flatten_append,
            flushUplink_flatten hok] at hread ⊢
          rw [hread, List.append_assoc]
      | data available cap env =>
          have hgot : (available.take (bufSize - acc.length)).length =
              min (bufSize - acc.length) available.length := List.length_take
          have hnil : available.take (bufSize - acc.length) = [] ↔
              min (bufSize - acc.length) available.length = 0 := by
            rw [← hgot, List.length_eq_zero_iff]
          simp only [localToRemote, unflushed, List.length_append, hgot, hnil] at hstop ⊢
          split_ifs at hstop ⊢ with hempty hfull hok
          · exact ih acc hstop
          · obtain ⟨lost, hread, hlost⟩ := ih [] hstop
            refine ⟨lost, ?_, hlost⟩
            simp only [Pumped.after, List.nil_append, List.flatten_append,
              flushUplink_flatten hok] at hread ⊢
            rw [hread]
            simp only [List.append_assoc]
          · obtain ⟨lost, hread, hlost⟩ := ih _ hstop
            refine ⟨lost, ?_, by rw [hlost, List.length_append, hgot]⟩
            simp only [Pumped.after, List.nil_append]
            rw [← hread, List.append_assoc]

theorem unflushed_append {fec : Bool} {before : List ReadResult}
    (hbefore : ∀ r ∈ before, r.goesOn = true) (after : List ReadResult) (n : ℕ) :
    unflushed fec (before ++ after) n = unflushed fec after (unflushed fec before n) := by
  induction before generalizing n with
  | nil => rfl
  | cons r before ih =>
      have ih := ih fun r hr => hbefore r (List.mem_cons_of_mem _ hr)
      have hr := hbefore r List.mem_cons_self
      cases r with
      | data available cap env =>
          simp only [List.cons_append, unflushed]
          split_ifs <;> exact ih _
      | timeout env => exact ih 0
      | ended => cases hr
      | closed => cases hr

-- What is not flushed is short of a record, so the next read has room.
theorem unflushed_lt (fec : Bool) (reads : List ReadResult) {n : ℕ} (hn : n < bufSize) :
    unflushed fec reads n < bufSize := by
  induction reads generalizing n with
  | nil => exact hn
  | cons r rest ih =>
      cases r with
      | data available cap env =>
          have hcap := (maxPayload_bounds fec cap).2
          have hbuf : udpcMaxData ≤ bufSize := by decide
          simp only [unflushed]
          split_ifs
          · exact ih hn
          · exact ih (by decide)
          · exact ih (by omega)
      | timeout env => exact ih (by decide)
      | ended => exact hn
      | closed => exact hn

theorem unflushed_reverse (fec : Bool) {newest : List ReadResult}
    (hgoes : ∀ r ∈ newest, r.goesOn = true) :
    unflushed fec newest.reverse 0 = 0 ↔ Settled fec newest := by
  induction newest with
  | nil => exact iff_of_true rfl trivial
  | cons r older ih =>
      have holder : ∀ r ∈ older, r.goesOn = true := fun r hr => hgoes r (List.mem_cons_of_mem _ hr)
      have ih := ih holder
      rw [List.reverse_cons, unflushed_append fun r hr => holder r (List.mem_reverse.1 hr)]
      cases r with
      | timeout env => exact iff_of_true rfl trivial
      | data available cap env =>
          have hroom := unflushed_lt fec older.reverse (n := 0) (by decide)
          simp only [unflushed, Settled]
          by_cases hnil : available = []
          · rw [if_pos hnil, if_pos (by simp [hnil]), ih]
          · have hlen := List.length_pos_iff.2 hnil
            rw [if_neg hnil, if_neg (by omega)]
            split_ifs with hfull
            · exact iff_of_true rfl hfull
            · exact iff_of_false (by omega) hfull
      | ended | closed => exact absurd (hgoes _ List.mem_cons_self) (by decide)

theorem unflushed_takeWhile (fec : Bool) (reads : List ReadResult) (n : ℕ) :
    unflushed fec reads n = unflushed fec (reads.takeWhile (·.goesOn)) n := by
  induction reads generalizing n with
  | nil => rfl
  | cons r rest ih =>
      cases r with
      | data available cap env =>
          simp only [ReadResult.goesOn, List.takeWhile_cons_of_pos, unflushed, ih]
      | timeout env => exact ih 0
      | ended => rfl
      | closed => rfl

-- When the local side ends, every byte read has been passed to `sendRecord`
-- exactly if nothing was gathered since the last flush: the last data was followed
-- by a timeout, or it filled a record.
theorem uplink_conserved_iff (fec : Bool) (reads : List ReadResult)
    (hstop : (localToRemote fec reads []).stop = .localEnded) :
    ((localToRemote fec reads []).sent.flatten = (localToRemote fec reads []).read ↔
      unflushed fec reads 0 = 0) ∧
    (unflushed fec reads 0 = 0 ↔ Settled fec (reads.takeWhile (·.goesOn)).reverse) := by
  obtain ⟨lost, hread, hlost⟩ := localToRemote_conserves fec reads [] hstop
  rw [List.nil_append] at hread
  have hcount : unflushed fec reads 0 = lost.length := hlost.symm
  constructor
  · rw [hread, hcount, List.self_eq_append_right, List.length_eq_zero_iff]
  · have hgoes : ∀ r ∈ (reads.takeWhile (·.goesOn)).reverse, r.goesOn = true := fun r hr =>
      List.mem_takeWhile_imp (List.mem_reverse.1 hr)
    rw [unflushed_takeWhile, ← unflushed_reverse fec hgoes, List.reverse_reverse]

-- A last write followed by a timeout reaches the tunnel whole.
theorem uplink_conserved_after_timeout :
    let reads : List ReadResult := [.data [104, 105] .ceiling fun _ => ⟨.ceiling, true⟩,
      .timeout fun _ => ⟨.ceiling, true⟩, .ended]
    (localToRemote false reads []).sent.flatten = (localToRemote false reads []).read :=
  (uplink_conserved_iff false _ rfl).1.2 ((uplink_conserved_iff false _ rfl).2.2 trivial)

-- A last write followed at once by the end of the stream does not.
theorem uplink_end_of_stream_loses_bytes :
    let reads : List ReadResult := [.data [104, 105] .ceiling fun _ => ⟨.ceiling, true⟩, .ended]
    (localToRemote false reads []).stop = .localEnded ∧
      (localToRemote false reads []).read = [104, 105] ∧
      (localToRemote false reads []).sent = [] ∧
      (localToRemote false reads []).sent.flatten ≠ (localToRemote false reads []).read :=
  ⟨rfl, rfl, rfl, by decide⟩

end UdpCustom.Uplink
