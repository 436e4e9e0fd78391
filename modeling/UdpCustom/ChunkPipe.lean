import UdpCustom.Frame

-- One direction of the in-memory connection between the application and its
-- session.
namespace UdpCustom.ChunkPipe

open UdpCustom.Frame

def chunkPipeBuffer : ℕ := 256 * 1024
def chunkPipeChunk : ℕ := 64 * 1024

-- The loop of `take` over the queued chunks, with room for `n` bytes: what was
-- copied, and what stays queued.
def takeChunks : ℕ → List Bytes → Bytes × List Bytes
  | _, [] => ([], [])
  | n, chunk :: rest =>
    if n = 0 then ([], chunk :: rest)
    else if n < chunk.length then (chunk.take n, chunk.drop n :: rest)
    else
      let more := takeChunks (n - chunk.length) rest
      (chunk ++ more.1, more.2)

-- A read neither drops bytes nor changes their order.
theorem takeChunks_flatten (n : ℕ) (chunks : List Bytes) :
    (takeChunks n chunks).1 ++ (takeChunks n chunks).2.flatten = chunks.flatten := by
  induction chunks generalizing n with
  | nil => rfl
  | cons chunk rest ih =>
      unfold takeChunks
      split
      · rfl
      · split
        · rw [List.flatten_cons, ← List.append_assoc, List.take_append_drop, List.flatten_cons]
        · rw [List.flatten_cons, List.append_assoc, ih]

-- The next chunk alone is read if it is the only one or fills the buffer.
theorem takeChunks_head {n : ℕ} {chunk : Bytes} {rest : List Bytes} (hne : chunk ≠ [])
    (hfits : chunk.length ≤ n) (halone : rest = [] ∨ chunk.length = n) :
    takeChunks n (chunk :: rest) = (chunk, rest) := by
  have hpos : n ≠ 0 := by
    have := List.length_pos_iff.2 hne
    omega
  have hmore : takeChunks (n - chunk.length) rest = ([], rest) := by
    rcases halone with hrest | hfull
    · rw [hrest]
      rfl
    · rw [hfull, Nat.sub_self]
      cases rest with
      | nil => rfl
      | cons _ _ => rfl
  unfold takeChunks
  rw [if_neg hpos, if_neg (Nat.not_lt.2 hfits), hmore]
  dsimp only
  rw [List.append_nil]

structure ChunkDir where
  chunks : List Bytes
  bytes : ℕ
  bytes_eq : bytes = chunks.flatten.length

def ChunkDir.empty : ChunkDir where
  chunks := []
  bytes := 0
  bytes_eq := rfl

-- The first piece of `b` is queued; the rest of it is for the next turn of the
-- loop in `Write`.
def ChunkDir.push (q : ChunkDir) (b : Bytes) : ChunkDir where
  chunks := q.chunks ++ [b.take chunkPipeChunk]
  bytes := q.bytes + (b.take chunkPipeChunk).length
  bytes_eq := by
    rw [List.flatten_append, List.flatten_singleton, List.length_append, q.bytes_eq]

def ChunkDir.take (q : ChunkDir) (n : ℕ) : Bytes × ChunkDir :=
  let taken := takeChunks n q.chunks
  (taken.1,
    { chunks := taken.2
      bytes := q.bytes - taken.1.length
      bytes_eq := by
        rw [q.bytes_eq, ← takeChunks_flatten n q.chunks, List.length_append,
          Nat.add_sub_cancel_left] })

-- A read that returns something found a chunk queued.
theorem exists_chunk {q : ChunkDir} {n : ℕ} (h : (q.take n).1 ≠ []) :
    ∃ chunk rest, q.chunks = chunk :: rest := by
  refine List.exists_cons_of_ne_nil fun hnone => h ?_
  unfold ChunkDir.take
  dsimp only
  rw [hnone]
  rfl

theorem take_head {q : ChunkDir} {n : ℕ} {chunk : Bytes} {rest : List Bytes}
    (hchunks : q.chunks = chunk :: rest) (hne : chunk ≠ []) (hfits : chunk.length ≤ n)
    (halone : rest = [] ∨ chunk.length = n) :
    (q.take n).1 = chunk ∧ (q.take n).2.chunks = rest := by
  unfold ChunkDir.take
  dsimp only
  rw [hchunks, takeChunks_head hne hfits halone]
  exact ⟨rfl, rfl⟩

-- A record is queued in one piece.
theorem chunks_push (q : ChunkDir) {b : Bytes} (hlen : b.length ≤ udpcMaxData) :
    (q.push b).chunks = q.chunks ++ [b] ∧ b.drop chunkPipeChunk = [] := by
  have hpiece : b.length ≤ chunkPipeChunk := hlen.trans (by decide)
  refine ⟨?_, List.drop_eq_nil_of_le hpiece⟩
  calc (q.push b).chunks = q.chunks ++ [b.take chunkPipeChunk] := rfl
    _ = q.chunks ++ [b] := by rw [List.take_of_length_le hpiece]

end UdpCustom.ChunkPipe
