/-!
# A queue fenced by serial numbers

Work is enqueued on an asynchronous queue; a completed fence leaves nothing of it outstanding. A client numbers what it
enqueues with a serial, reads the serial before a fence (`readToken`), and takes the token to the fence (`fence` pays
every token read so far). `Line.Sealed` is what this buys: a paid token that is still the serial says that the queue is
empty (`Sealed.dry`), provided that every enqueue moves the serial (`Sealed.enqueue`). `sent` is everything that the
queue was ever given, in order: only `enqueue` adds to it.
-/

namespace Lib

/-- The queue: the work not yet fenced, all the work it was given, the tokens read, and the tokens read before a
completed fence. -/
structure Line (α : Type) where
  queue : List α
  sent : List α
  read : List Nat
  paid : List Nat
  deriving DecidableEq, Repr

namespace Line

variable {α : Type} {l : Line α} {serial : Nat}

/-- An idle queue. -/
def idle : Line α := ⟨[], [], [], []⟩

/-- Work is enqueued. -/
def enqueue (l : Line α) (xs : List α) : Line α := { l with queue := l.queue ++ xs, sent := l.sent ++ xs }

/-- The queue runs dry without a fence that a token waits for. -/
def drain (l : Line α) : Line α := { l with queue := [] }

/-- The serial is read. -/
def readToken (l : Line α) (serial : Nat) : Line α := { l with read := serial :: l.read }

/-- A fence completes. -/
def fence (l : Line α) : Line α := { l with queue := [], paid := l.read ++ l.paid }

@[simp] theorem enqueue_sent (l : Line α) (xs : List α) : (l.enqueue xs).sent = l.sent ++ xs := rfl
@[simp] theorem drain_sent (l : Line α) : l.drain.sent = l.sent := rfl
@[simp] theorem fence_sent (l : Line α) : l.fence.sent = l.sent := rfl

/-- No token is ahead of the serial, and one that is paid and not behind it was paid with nothing enqueued since. -/
structure Sealed (serial : Nat) (l : Line α) : Prop where
  read : ∀ t ∈ l.read, t ≤ serial
  paid : ∀ t ∈ l.paid, t ≤ serial
  dry : serial ∈ l.paid → l.queue = []

theorem sealed_idle : Sealed serial (idle : Line α) :=
  ⟨fun t h => by simp [idle] at h, fun t h => by simp [idle] at h, fun _ => rfl⟩

/-- The serial moves, past every token. -/
theorem Sealed.next (h : Sealed serial l) : Sealed (serial + 1) l := by
  refine ⟨fun t ht => ?_, fun t ht => ?_, fun ht => ?_⟩
  · have := h.read t ht; omega
  · have := h.paid t ht; omega
  · have := h.paid _ ht; omega

/-- **Work enqueued under a serial past every token pays none of them.** -/
theorem Sealed.enqueue (h : Sealed serial l) (xs : List α) (hpast : serial ∉ l.paid) : Sealed serial (l.enqueue xs) :=
  ⟨h.read, h.paid, fun ht => absurd ht hpast⟩

/-- The serial that has just moved is past every token. -/
theorem Sealed.past (h : Sealed serial l) : serial + 1 ∉ l.paid := by
  intro ht
  have := h.paid _ ht
  omega

theorem Sealed.drain (h : Sealed serial l) : Sealed serial l.drain := ⟨h.read, h.paid, fun _ => rfl⟩

theorem Sealed.readToken (h : Sealed serial l) : Sealed serial (l.readToken serial) := by
  refine ⟨fun t ht => ?_, h.paid, h.dry⟩
  rcases List.mem_cons.mp ht with rfl | ht
  · exact Nat.le_refl _
  · exact h.read t ht

theorem Sealed.fence (h : Sealed serial l) : Sealed serial l.fence := by
  refine ⟨h.read, fun t ht => ?_, fun _ => rfl⟩
  rcases List.mem_append.mp ht with ht | ht
  · exact h.read t ht
  · exact h.paid t ht

end Line

end Lib
