import BlackholeQwen.Packed.Guard

/-!
# The page binding of a verifier (`scripts/ci/serving_page_binding.py`)

- `VerifierPageBinding`: the blocks bound, and the host page table of the engine. Whether the captured device buffers
  keep their addresses, and whether an upload raises, are outcomes of the call (`RefreshEnv`).
- `refresh`: an append-only allocation that covers the rows is bound, its table padded with the first block.
- `Padded`: a table so padded, over unique blocks; `refresh_ok` says that a refresh that returns keeps it.
-/

namespace BlackholeQwen.Packed

open Lib

/-- The page binding of an engine. -/
structure VerifierPageBinding where
  physicalPages : Nat
  capacity : Nat
  blocks : List Int
  failed : Bool
  idle : Bool
  pages : List Int
  deriving DecidableEq, Repr

/-- The device's answers to a refresh: whether the addresses are as captured, before and after, and the upload's
exception, if any. -/
structure RefreshEnv where
  bound : Bool
  upload : Option PyError
  kept : Bool

/-- A table of `capacity` entries: the blocks, then the first of them again. -/
def padTable (capacity : Nat) (blocks : List Int) : List Int :=
  blocks ++ List.replicate (capacity - blocks.length) (blocks.headD 0)

namespace VerifierPageBinding

/-- `validate_blocks`: unique physical pages, no more than the table holds. -/
def validateBlocks (v : VerifierPageBinding) (blocks : List Int) : Except PyError Unit :=
  raiseIf (blocks = [] ∨ blocks.length > v.capacity ∨ ¬blocks.Nodup ∨
      ¬∀ block ∈ blocks, 0 ≤ block ∧ block < (v.physicalPages : Int))
    (.valueError "Unique bounded scheduler-owned physical pages required")

/-- The checks of `refresh` on its arguments. -/
def refreshGuard (v : VerifierPageBinding) (blocks : List Int) (position rows : Int) : Except PyError Unit := do
  raiseIf (v.failed = true ∨ v.idle = false) (.valueError "Only an idle unpoisoned verifier may bind pages")
  v.validateBlocks blocks
  raiseIf (position < 0 ∨ ¬(rows = 1 ∨ rows = 2 ∨ rows = 4 ∨ rows = 8 ∨ rows = 16) ∨
      (position + rows + 63) / 64 > blocks.length ∨ blocks.take v.blocks.length ≠ v.blocks)
    (.valueError "Append-only allocation must cover every scheduled verifier row")

/-- The binding and its engine failed. -/
def fail (v : VerifierPageBinding) : VerifierPageBinding := { v with failed := true, idle := false }

/-- `refresh`: whether the table changed. -/
def refresh (v : VerifierPageBinding) (blocks : List Int) (position rows : Int) (env : RefreshEnv) :
    Call VerifierPageBinding Bool :=
  Call.attempt (v.refreshGuard blocks position rows) v fun _ =>
  if env.bound = false then Call.throw v.fail (.valueError "Captured page metadata addresses changed")
  else if blocks = v.blocks then Call.ret v false
  else match env.upload with
    | some e => Call.throw v.fail e
    | none =>
      if env.kept = false then Call.throw v.fail (.valueError "Page upload replaced a captured device buffer")
      else Call.ret { v with blocks := blocks, pages := padTable v.capacity blocks } true

/-- A table padded as `refresh` pads it, over blocks that `validate_blocks` takes. -/
structure Padded (v : VerifierPageBinding) : Prop where
  pages : v.pages = padTable v.capacity v.blocks
  nonempty : v.blocks ≠ []
  fits : v.blocks.length ≤ v.capacity
  unique : v.blocks.Nodup
  physical : ∀ block ∈ v.blocks, 0 ≤ block

/-- Blocks that `validate_blocks` takes. -/
theorem validateBlocks_ok {v : VerifierPageBinding} {blocks : List Int} (h : v.validateBlocks blocks = .ok ()) :
    blocks ≠ [] ∧ blocks.length ≤ v.capacity ∧ blocks.Nodup ∧ ∀ block ∈ blocks, 0 ≤ block := by
  unfold validateBlocks at h
  rw [raiseIf_ok] at h
  simp only [not_or, not_not] at h
  obtain ⟨h1, h2, h3, h4⟩ := h
  exact ⟨h1, by omega, h3, fun block hb => (h4 block hb).1⟩

/-- **A refresh that returns binds the blocks, padded**: an append to those bound before that covers the rows. -/
theorem refresh_ok {v : VerifierPageBinding} {blocks : List Int} {position rows : Int} {env : RefreshEnv}
    {changed : Bool} (hp : v.Padded) (h : (v.refresh blocks position rows env).result = .ok changed) :
    (v.refresh blocks position rows env).obj.Padded ∧
      (v.refresh blocks position rows env).obj.capacity = v.capacity ∧
      (v.refresh blocks position rows env).obj.blocks = blocks ∧
      (position + rows + 63) / 64 ≤ blocks.length ∧ ∃ fresh, blocks = v.blocks ++ fresh := by
  unfold refresh at h ⊢
  obtain ⟨⟨⟩, hguard, hc⟩ := Call.of_attempt h
  rw [hc] at h ⊢
  unfold refreshGuard at hguard
  obtain ⟨_, -, hguard⟩ := bind_ok hguard
  obtain ⟨⟨⟩, hvalid, hguard⟩ := bind_ok hguard
  obtain ⟨hne, hfits, hnd, hphys⟩ := validateBlocks_ok hvalid
  rw [raiseIf_ok] at hguard
  simp only [not_or, not_not] at hguard
  obtain ⟨-, -, hcover, happend⟩ := hguard
  have hfresh : blocks = v.blocks ++ blocks.drop v.blocks.length := by
    conv_lhs => rw [← List.take_append_drop v.blocks.length blocks, happend]
  split at h
  · cases h
  rename_i hbound
  rw [if_neg hbound]
  split at h
  · rename_i heq
    rw [if_pos heq]
    exact ⟨hp, rfl, heq.symm, by omega, _, hfresh⟩
  rename_i hneq
  rw [if_neg hneq]
  split at h
  · cases h
  split at h
  · cases h
  rename_i hkept
  rw [if_neg hkept]
  exact ⟨⟨rfl, hne, hfits, hnd, hphys⟩, rfl, rfl, by omega, _, hfresh⟩

end VerifierPageBinding

end BlackholeQwen.Packed
