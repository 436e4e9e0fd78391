import Mathlib.Data.List.Basic

-- Objects that are used through calls: two objects agree if some relation between
-- their states gives equal results and is kept by every call.
namespace Calls

variable {σ τ ι ο : Type*}

def results (call : σ → ι → ο × σ) : σ → List ι → List ο
  | _, [] => []
  | s, i :: rest => (call s i).1 :: results call (call s i).2 rest

structure Simulates (R : σ → τ → Prop) (call : σ → ι → ο × σ) (call' : τ → ι → ο × τ) : Prop where
  result : ∀ {s t}, R s t → ∀ i, (call s i).1 = (call' t i).1
  keeps : ∀ {s t}, R s t → ∀ i, R (call s i).2 (call' t i).2

theorem Simulates.results_eq {R : σ → τ → Prop} {call : σ → ι → ο × σ} {call' : τ → ι → ο × τ}
    (h : Simulates R call call') {s : σ} {t : τ} (hst : R s t) (calls : List ι) :
    results call s calls = results call' t calls := by
  induction calls generalizing s t with
  | nil => rfl
  | cons i rest ih => rw [results, results, h.result hst i, ih (h.keeps hst i)]

end Calls
