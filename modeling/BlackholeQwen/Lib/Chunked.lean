import Mathlib.Data.List.Basic

/-!
# Folds over fixed-size chunks

A state advanced chunk by chunk over a list: `run f size xs c n s` runs chunks `c, …, c + n - 1`, where chunk `i` is
`xs[i * size : (i + 1) * size]`, and `fold` runs every whole chunk from the first. A fold can be resumed: running the
first `m` chunks and then the others is running them all (`run_add`), and the chunks run see nothing of the list past
their end (`run_take`).
-/

namespace Lib.Chunked

variable {α σ : Type} (f : Nat → σ → List α → σ) (size : Nat)

/-- Chunk `i` of a list. -/
def chunkAt (xs : List α) (i : Nat) : List α := (xs.drop (i * size)).take size

/-- Run `n` chunks from chunk `c`. -/
def run (xs : List α) : Nat → Nat → σ → σ
  | _, 0, s => s
  | c, n + 1, s => run xs (c + 1) n (f c s (chunkAt size xs c))

/-- Run every whole chunk from the first. -/
def fold (xs : List α) (s : σ) : σ := run f size xs 0 (xs.length / size) s

/-- A run can be interrupted after any chunk. -/
theorem run_add (xs : List α) : ∀ (c m n : Nat) (s : σ),
    run f size xs c (m + n) s = run f size xs (c + m) n (run f size xs c m s)
  | c, 0, n, s => by simp [run]
  | c, m + 1, n, s => by
    rw [Nat.add_right_comm, run, run, run_add xs (c + 1) m n]
    congr 1; omega

/-- One more chunk at the end of a run. -/
theorem run_succ (xs : List α) (c n : Nat) (s : σ) :
    run f size xs c (n + 1) s = f (c + n) (run f size xs c n s) (chunkAt size xs (c + n)) := by
  rw [run_add]; rfl

/-- A chunk that ends within the first `k` elements is a chunk of them. -/
theorem chunkAt_take (xs : List α) {i k : Nat} (h : (i + 1) * size ≤ k) :
    chunkAt size (xs.take k) i = chunkAt size xs i := by
  rw [Nat.succ_mul] at h
  rw [chunkAt, chunkAt, List.drop_take, List.take_take, Nat.min_eq_left (by omega)]

/-- A run that ends within the first `k` elements is a run over them. -/
theorem run_take (xs : List α) {k : Nat} : ∀ (c n : Nat) (s : σ), (c + n) * size ≤ k →
    run f size (xs.take k) c n s = run f size xs c n s
  | _, 0, _, _ => rfl
  | c, n + 1, s, h => by
    have hc : (c + 1) * size ≤ k := Nat.le_trans (Nat.mul_le_mul_right size (by omega)) h
    rw [run, run, chunkAt_take size xs hc]
    exact run_take xs (c + 1) n _ (by rwa [Nat.add_assoc, Nat.add_comm 1])

/-- The fold over the first chunks of a list. -/
theorem fold_take (xs : List α) {m : Nat} (hsize : 0 < size) (h : m * size ≤ xs.length) (s : σ) :
    fold f size (xs.take (m * size)) s = run f size xs 0 m s := by
  have hlen : (xs.take (m * size)).length / size = m := by
    rw [List.length_take, Nat.min_eq_left h, Nat.mul_div_cancel _ hsize]
  rw [fold, hlen, run_take _ _ _ _ _ _ (by simp)]

end Lib.Chunked
