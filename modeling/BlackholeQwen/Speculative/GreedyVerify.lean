import BlackholeQwen.Lib.Call
import BlackholeQwen.Lib.Greedy

/-!
# Greedy prefix selection

`selectPrefix` is `greedy_verify.select_prefix`: target rows consume the already-emitted seed and the proposals, each
predicts its successor. `selectPrefix_ok` says all an accepted call does: the arguments are in range, and the decision
emits what the abstract verification `Lib.Greedy.speculate` emits.
-/

namespace BlackholeQwen.Speculative

open Lib

/-- A token id, as the source carries it: any integer, checked against the vocabulary where it enters. -/
abbrev Token := Int

/-- `type(token) is int and 0 <= token < vocab_size`. -/
def inVocab (vocabSize : Int) (t : Token) : Bool := decide (0 ≤ t ∧ t < vocabSize)

/-- `Decision`. -/
structure Decision where
  emitted : List Token
  accepted : Nat
  stateRows : Nat
  nextInput : Option Token
  finished : Bool
  deriving DecidableEq, Repr

/-- The `for` loop of `select_prefix`: how many proposals were accepted, and whether an end-of-text token among them
returned early. -/
def acceptLoop (eosIds : List Token) : List Token → List Token → Nat → Nat × Bool
  | proposed :: ps, predicted :: ts, accepted =>
    if proposed ≠ predicted then (accepted, false)
    else if proposed ∈ eosIds then (accepted + 1, true)
    else acceptLoop eosIds ps ts (accepted + 1)
  | _, _, accepted => (accepted, false)

/-- `select_prefix`. -/
def selectPrefix (proposals targetArgmax : List Token) (vocabSize : Int) (eosIds : List Token) (maxProposals : Nat) :
    Except PyError Decision :=
  if vocabSize < 1 then .error (.valueError "Expected positive target vocabulary size")
  else if maxProposals ≠ 15 ∧ maxProposals ≠ 31 then
    .error (.valueError "Explicit T16 or T32 proposal capacity required")
  else if maxProposals < proposals.length ∨ targetArgmax.length ≠ proposals.length + 1 then
    .error (.valueError "Expected bounded K proposals and K+1 target prediction rows")
  else if (proposals ++ targetArgmax ++ eosIds).any (fun t => !inVocab vocabSize t) then
    .error (.valueError "Token outside target vocabulary")
  else
    match acceptLoop eosIds proposals targetArgmax 0 with
    | (accepted, true) => .ok ⟨proposals.take accepted, accepted, accepted, none, true⟩
    | (accepted, false) =>
      match targetArgmax[accepted]? with
      | none => .error .indexError
      | some correction =>
        let finished := decide (correction ∈ eosIds)
        .ok ⟨proposals.take accepted ++ [correction], accepted, accepted + 1,
          if finished then none else some correction, finished⟩

/-- The end-of-text test as a predicate. -/
def isEos (eosIds : List Token) (t : Token) : Bool := decide (t ∈ eosIds)

/-! ## The loop -/

/-- The loop accepts at most the proposals. -/
theorem acceptLoop_le (eosIds : List Token) : ∀ (ps ts : List Token) (k : Nat),
    k ≤ (acceptLoop eosIds ps ts k).1 ∧ (acceptLoop eosIds ps ts k).1 ≤ k + ps.length
  | [], _, k => by simp [acceptLoop]
  | _ :: _, [], k => by simp [acceptLoop]
  | p :: ps, t :: ts, k => by
    have ih := acceptLoop_le eosIds ps ts (k + 1)
    simp only [acceptLoop, List.length_cons]
    split_ifs
    · simp
    · simp only; omega
    · omega

/-- The loop starts counting anywhere. -/
theorem acceptLoop_shift (eosIds : List Token) : ∀ (ps ts : List Token) (k : Nat),
    acceptLoop eosIds ps ts (k + 1) = ((acceptLoop eosIds ps ts k).1 + 1, (acceptLoop eosIds ps ts k).2)
  | [], _, k => by simp [acceptLoop]
  | _ :: _, [], k => by simp [acceptLoop]
  | p :: ps, t :: ts, k => by
    simp only [acceptLoop]
    split_ifs
    · rfl
    · rfl
    · exact acceptLoop_shift eosIds ps ts (k + 1)

/-- The decision the loop's answer leads to emits what one abstract verification emits. -/
theorem acceptLoop_speculate (eosIds : List Token) : ∀ (ps ts : List Token), ts.length = ps.length + 1 →
    (acceptLoop eosIds ps ts 0 = ((acceptLoop eosIds ps ts 0).1, true) ∧ 0 < (acceptLoop eosIds ps ts 0).1 ∧
      Greedy.speculate (isEos eosIds) ps ts = (ps.take (acceptLoop eosIds ps ts 0).1, true)) ∨
    ∃ c, acceptLoop eosIds ps ts 0 = ((acceptLoop eosIds ps ts 0).1, false) ∧
      ts[(acceptLoop eosIds ps ts 0).1]? = some c ∧
      Greedy.speculate (isEos eosIds) ps ts = (ps.take (acceptLoop eosIds ps ts 0).1 ++ [c], isEos eosIds c)
  | [], [], h => by simp at h
  | [], t :: ts, h => Or.inr ⟨t, by simp [acceptLoop, Greedy.speculate]⟩
  | _ :: _, [], h => by simp at h
  | p :: ps, t :: ts, h => by
    by_cases hpt : p = t
    · by_cases he : p ∈ eosIds
      · exact Or.inl (by simp [acceptLoop, Greedy.speculate, hpt ▸ he, hpt, isEos])
      · have hloop : acceptLoop eosIds (p :: ps) (t :: ts) 0 =
            ((acceptLoop eosIds ps ts 0).1 + 1, (acceptLoop eosIds ps ts 0).2) := by
          rw [← acceptLoop_shift]
          simp [acceptLoop, hpt, hpt ▸ he]
        have hspec : Greedy.speculate (isEos eosIds) (p :: ps) (t :: ts) =
            (p :: (Greedy.speculate (isEos eosIds) ps ts).1, (Greedy.speculate (isEos eosIds) ps ts).2) := by
          simp [Greedy.speculate, hpt, isEos, hpt ▸ he]
        rw [hloop, hspec]
        rcases acceptLoop_speculate eosIds ps ts (by simpa using h) with ⟨h1, -, h3⟩ | ⟨c, h1, h2, h3⟩
        · exact Or.inl ⟨by rw [h1], Nat.succ_pos _, by simp [h3]⟩
        · exact Or.inr ⟨c, by rw [h1], by simpa using h2, by simp [h3]⟩
    · exact Or.inr ⟨t, by simp [acceptLoop, Greedy.speculate, hpt, isEos]⟩

/-! ## Accepted calls -/

/-- What a returned decision satisfies. -/
structure Selected (proposals targetArgmax : List Token) (vocabSize : Int) (eosIds : List Token) (d : Decision) :
    Prop where
  rows : targetArgmax.length = proposals.length + 1
  /-- Every emitted token is in the vocabulary. -/
  vocab : ∀ t ∈ d.emitted, inVocab vocabSize t
  /-- The emitted tokens and the early stop are the abstract verification's. -/
  speculate : Greedy.speculate (isEos eosIds) proposals targetArgmax = (d.emitted, d.finished)
  /-- The state advances by as many rows as tokens are emitted: the accepted proposals, and the seed's own row when a
  correction follows. -/
  stateRows : d.stateRows = d.emitted.length
  accepted_le : d.accepted ≤ proposals.length
  /-- The next seed is the last emitted token. -/
  nextInput : d.finished = false → d.nextInput = d.emitted.getLast?

/-- Inversion of `selectPrefix`. -/
theorem selectPrefix_ok {proposals targetArgmax eosIds : List Token} {vocabSize : Int} {maxProposals : Nat}
    {d : Decision} (h : selectPrefix proposals targetArgmax vocabSize eosIds maxProposals = .ok d) :
    Selected proposals targetArgmax vocabSize eosIds d := by
  unfold selectPrefix at h
  split_ifs at h with hv hm hl hany
  have hrows : targetArgmax.length = proposals.length + 1 := by omega
  have hall : ∀ t ∈ proposals ++ targetArgmax ++ eosIds, inVocab vocabSize t := fun t ht => by
    by_contra hn
    exact hany (List.any_eq_true.mpr ⟨t, ht, by simpa using hn⟩)
  have hle := (acceptLoop_le eosIds proposals targetArgmax 0).2
  rw [Nat.zero_add] at hle
  rcases acceptLoop_speculate eosIds proposals targetArgmax hrows with ⟨h1, -, h3⟩ | ⟨c, h1, h2, h3⟩
  · rw [h1] at h
    simp only [Except.ok.injEq] at h
    subst h
    refine ⟨hrows, fun t ht => hall t ?_, h3, ?_, hle, fun hf => by cases hf⟩
    · simp [List.mem_of_mem_take ht]
    · simp [hle]
  · rw [h1] at h
    simp only [h2, Except.ok.injEq] at h
    subst h
    refine ⟨hrows, fun t ht => hall t ?_, h3, ?_, hle, ?_⟩
    · rcases List.mem_append.mp ht with ht | ht
      · simp [List.mem_of_mem_take ht]
      · rw [List.mem_singleton] at ht
        simp [ht, List.mem_of_getElem? h2]
    · simp [hle]
    · intro hf
      have hc : c ∉ eosIds := by simpa using hf
      simp [hc]

/-- A decision emits at least one token. -/
theorem Selected.emitted_pos {proposals targetArgmax eosIds : List Token} {vocabSize : Int} {d : Decision}
    (h : Selected proposals targetArgmax vocabSize eosIds d) : 0 < d.emitted.length := by
  have hne : targetArgmax ≠ [] := by rintro rfl; have := h.rows; simp at this
  have := Greedy.length_speculate_pos (isEos eosIds) proposals hne
  rwa [h.speculate] at this

/-- A decision emits at most one token more than the proposals. -/
theorem Selected.emitted_le {proposals targetArgmax eosIds : List Token} {vocabSize : Int} {d : Decision}
    (h : Selected proposals targetArgmax vocabSize eosIds d) : d.emitted.length ≤ proposals.length + 1 := by
  have := Greedy.length_speculate_le (isEos eosIds) proposals targetArgmax
  rwa [h.speculate] at this

example : selectPrefix [5, 7] [5, 9, 3] 10 [9] 15 = .ok ⟨[5, 9], 1, 2, none, true⟩ := by decide

end BlackholeQwen.Speculative
