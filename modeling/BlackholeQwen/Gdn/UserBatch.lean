import BlackholeQwen.Gdn.CoreRanges

/-!
# One launch for the packed users (`gdn_user_batch.py`)

Each user of a packed round runs the three kernels of the recurrence on its own share of the cores (`coreShares`).
`buildProgram` plans an `Entry` for each user and role: the compile-time arguments, the cores, and the runtime arguments
of each core. The per-user build makes a descriptor of each entry; the coalesced one makes one descriptor of each role
if all users compile it alike (`coalescedDescriptors`), over rectangle core ranges.
-/

namespace BlackholeQwen.Gdn

open Lib

def HEADS : Nat := 24

def MAX_USERS : Nat := 4

/-- The roles of the kernels, in the order of the build. -/
inductive Role
  | reader
  | writer
  | compute
  deriving DecidableEq, Repr

def roles : List Role := [.reader, .writer, .compute]

/-- A kernel's configuration descriptor. -/
inductive Config
  | dataMovement (processor noc : String)
  | compute (mathFidelity : String) (fp32DestAccEn mathApproxMode : Bool)
  deriving DecidableEq, Repr

/-- `configs`. -/
def configs : Role → Config
  | .reader => .dataMovement "RISCV_1" "RISCV_1_default"
  | .writer => .dataMovement "RISCV_0" "RISCV_0_default"
  | .compute => .compute "HiFi4" true false

/-- A tensor on a chip: its buffer, and the compile-time arguments of its accessor. -/
structure Tensor where
  bufferAddress : Nat
  accessor : List Nat

/-- The mesh: its shape, and its grid of worker cores. -/
structure Mesh where
  shape : List Nat
  x : Int
  y : Int

/-- A planned kernel of a user. -/
structure Entry where
  role : Role
  compileArgs : List Nat
  cores : List Rect
  runtime : List (Point × List Nat)

/-- `KernelDescriptor`. -/
structure KernelDescriptor where
  kernelSource : String
  coreRanges : List Rect
  compileTimeArgs : List Nat
  config : Config
  runtimeArgs : Dict Point (List Nat)

/-- `CBDescriptor`. -/
structure CBDescriptor where
  totalSize : Nat
  coreRanges : List Rect
  bufferIndex : Nat
  dataFormat : String
  pageSize : Nat

/-- `ProgramDescriptor`. -/
structure ProgramDescriptor where
  kernels : List KernelDescriptor
  cbs : List CBDescriptor

/-! ## Cores -/

/-- `core_shares`. -/
def coreShares (horizontal vertical users workers : Int) : Except PyError (List (List Point)) := do
  raiseIf (¬(1 ≤ users ∧ users ≤ MAX_USERS)) (.valueError "One to 4 packed users per batched GDN launch")
  raiseIf (workers < 1) (.valueError "Positive worker count per user required")
  let total := users * workers
  let few := PyError.valueError ("At least " ++ toString total ++ " worker cores required for " ++ toString users ++
    " packed users")
  raiseIf (horizontal < 1 ∨ vertical < 1 ∨ horizontal * vertical < total) few
  let points := (List.range total.toNat).map fun worker : Nat => ((worker : Int) / vertical, (worker : Int) % vertical)
  raiseIf (∃ point ∈ points, horizontal ≤ point.1) few
  return (List.range users.toNat).map fun index => (points.drop (index * workers.toNat)).take workers.toNat

/-- A `CoreRangeSet` of single cores. -/
def singleCores (points : List Point) : List Rect := points.map fun p => ⟨p.1, p.2, p.1, p.2⟩

/-- `ranges` and `union`: the core ranges of each share, and of all. -/
def coreRanges (coalesce : Bool) (shares : List (List Point)) : Except PyError (List (List Rect) × List Rect) :=
  if coalesce then do
    let ranges ← shares.mapM rectangles
    let union ← rectangles shares.flatten
    return (ranges, union)
  else .ok (shares.map singleCores, singleCores shares.flatten)

/-- `mesh_chips`. -/
def meshChips (mesh : Mesh) : Except PyError Nat :=
  match mesh.shape with
  | [1, 1] => .ok 1
  | [1, 2] => .ok 2
  | _ => .error (.valueError "Expected a 1x2 mesh, or a 1x1 mesh on a single-card rig")

/-! ## Arguments -/

/-- `bits(1e-6)`. -/
def bitsEpsilon : Nat := 0x358637BD

/-- `bits(128 ** -0.5)`. -/
def bitsScale : Nat := 0x3DB504F3

/-- `bits(128e-6)`. -/
def bitsNormEpsilon : Nat := 0x390637BD

/-- `bits(128 ** 0.5)`. -/
def bitsNormScale : Nat := 0x413504F3

/-- `compile_args`. -/
def compileArgs (role : Role) (rows : Nat) : List Nat :=
  match role with
  | .reader => [4, 4, 1, bitsEpsilon, bitsScale, HEADS, 1, 160, 0, 32, 64, 3, 1, 1, 96, 0]
  | .writer => [4, 4, 1, 1, HEADS, rows]
  | .compute => [4, 4, 1, bitsEpsilon, bitsScale, 1, bitsNormEpsilon, bitsNormScale]

/-- `ACCESSORS`. -/
def ACCESSORS : Role → List Nat
  | .reader => [0, 0, 0, 1, 2, 3, 6, 7]
  | .writer => [4, 5]
  | .compute => []

/-- `runtime_args`. -/
def runtimeArgs (role : Role) (head rows : Nat) (addresses : List Nat) : Except PyError (List Nat) := do
  raiseIf (¬head < HEADS) (.valueError "Head index within the 24-head TP2 shard required")
  raiseIf (addresses.length ≠ 8) (.valueError "Eight per-user buffer addresses required")
  return match role with
  | .reader => [head, rows, addresses.getD 0 0, addresses.getD 0 0, addresses.getD 0 0, addresses.getD 1 0,
      addresses.getD 2 0, addresses.getD 3 0, addresses.getD 6 0, addresses.getD 7 0]
  | .writer => [head, rows, addresses.getD 4 0, 2048, addresses.getD 5 0]
  | .compute => [rows]

/-- An index of a list. -/
def item {α : Type} (xs : List α) (i : Nat) : Except PyError α :=
  match xs[i]? with
  | some x => .ok x
  | none => .error .indexError

/-! ## Planning -/

/-- A user of a chip: its tensors' shards, its rows, its share of the cores and their ranges. -/
structure UserShards where
  shards : List (List Tensor)
  rows : Nat
  share : List Point
  cores : List Rect

/-- The entry of a role of a user. -/
def planRole (user : UserShards) (tensors : List Tensor) (role : Role) : Except PyError Entry := do
  let accessors ← (ACCESSORS role).mapM fun index => (item tensors index).map Tensor.accessor
  let runtime ← user.share.zipIdx.mapM fun core =>
    (runtimeArgs role core.2 user.rows (tensors.map Tensor.bufferAddress)).map (Prod.mk core.1)
  return ⟨role, compileArgs role user.rows ++ accessors.flatten, user.cores, runtime⟩

/-- The entries of the users of a chip, the buffers that are private to them, and their norm weights. -/
def planUsers (chip : Nat) : List UserShards → List Nat → List Nat →
    Except PyError (List Entry × List Nat × List Nat)
  | [], priv, weights => .ok ([], priv, weights)
  | user :: users, priv, weights => do
    let tensors ← user.shards.mapM fun value => item value chip
    let addresses := tensors.map Tensor.bufferAddress
    raiseIf (¬addresses.Nodup) (.valueError "One user inputs, initial state and prefix outputs must not alias")
    raiseIf (∃ address ∈ addresses.take 7, address ∈ priv)
      (.valueError "Packed users must not share any buffer but the norm weight")
    let weight ← item addresses 7
    let entries ← roles.mapM (planRole user tensors)
    let rest ← planUsers chip users (priv ++ addresses.take 7) (weights ++ [weight])
    return (entries ++ rest.1, rest.2)

/-- `planned`, of a chip. -/
def planChip (users : List UserShards) (chip : Nat) : Except PyError (List Entry) := do
  let (planned, priv, weights) ← planUsers chip users [] []
  raiseIf (∃ weight ∈ weights, weight ∈ priv)
    (.valueError "The shared norm weight must not alias any packed user buffer")
  return planned

/-! ## Descriptors -/

/-- The descriptor of an entry. -/
def describe (kernels : Role → String) (entry : Entry) : KernelDescriptor :=
  ⟨kernels entry.role, entry.cores, entry.compileArgs, configs entry.role, Dict.ofList entry.runtime⟩

/-- `by_role[role]`. -/
def byRole (planned : List Entry) (role : Role) : List Entry := planned.filter fun entry => entry.role = role

/-- A role that all users compile alike. -/
def compilesAlike (planned : List Entry) (role : Role) : Bool :=
  match byRole planned role with
  | [] => false
  | first :: rest => rest.all fun entry => entry.compileArgs = first.compileArgs

/-- One entry for all users of a role. -/
def mergedEntry (planned : List Entry) (union : List Rect) (role : Role) : Entry :=
  ⟨role, ((byRole planned role).head?.map Entry.compileArgs).getD [], union,
    (byRole planned role).flatMap Entry.runtime⟩

/-- `coalesced_descriptors`. -/
def coalescedDescriptors (kernels : Role → String) (planned : List Entry) (union : List Rect) :
    List KernelDescriptor × Bool :=
  if roles.all (compilesAlike planned) then ((roles.map (mergedEntry planned union)).map (describe kernels), true)
  else (planned.map (describe kernels), false)

/-- `cb_plan(True)`. -/
def cbPlan : Dict Nat Nat × Dict Nat Nat :=
  let io : Dict Nat Nat := .ofList [(0, 4), (1, 4), (2, 4), (3, 1), (4, 1), (5, 16), (18, 16), (19, 8), (27, 2),
    (30, 16)]
  let fp32 : Dict Nat Nat := .ofList [(6, 1), (7, 4), (8, 4), (9, 1), (10, 4), (11, 4), (12, 4), (13, 1), (14, 16),
    (15, 4), (16, 8), (17, 16), (20, 4), (21, 4), (22, 4), (23, 1), (24, 1), (25, 16), (26, 16), (28, 1), (29, 1)]
  (((io.set 2 8).set 27 4).set 30 8, fp32.set 31 4)

/-- `buffers`. -/
def buffers (union : List Rect) : List CBDescriptor :=
  [(cbPlan.1, "bfloat16", 2048), (cbPlan.2, "float32", 4096)].flatMap fun plan =>
    plan.1.items.map fun count => ⟨count.2 * plan.2.2, union, count.1, plan.2.1, plan.2.2⟩

/-- `build_program`, with what it notes of the coalescing. -/
def buildProgram (coalesce : Bool) (mesh : Mesh) (userShards : List (List (List Tensor))) (kernels : Role → String)
    (widths : List Nat) : Except PyError (List ProgramDescriptor × Option String) := do
  raiseIf (userShards.length ≠ widths.length) (.valueError "One token width per packed user required")
  let chips ← meshChips mesh
  let shares ← coreShares mesh.x mesh.y widths.length HEADS
  let (ranges, union) ← coreRanges coalesce shares
  let users := (userShards.zip (widths.zip (shares.zip ranges))).map fun u => UserShards.mk u.1 u.2.1 u.2.2.1 u.2.2.2
  let plans ← (List.range chips).mapM (planChip users)
  let built := plans.map fun planned =>
    if coalesce then coalescedDescriptors kernels planned union else (planned.map (describe kernels), false)
  let note := if built.all Prod.snd then "coalesced" else "coalesce_fallback"
  return (built.map fun descriptors => ⟨descriptors.1, buffers union⟩, if coalesce then some note else none)

/-- What a core gets for a role: kernel sources with compile-time and runtime arguments. -/
def received (kernels : List KernelDescriptor) (role : Role) (core : Point) :
    List (String × List Nat × Option (List Nat)) :=
  (kernels.filter fun d => d.config = configs role ∧ ∃ r ∈ d.coreRanges, core ∈ r.cells).map fun d =>
    (d.kernelSource, d.compileTimeArgs, d.runtimeArgs.get? core)

/-- What a plan gives a core for a role. -/
def assigned (kernels : Role → String) (plan : List (Role × List Nat × List (Point × List Nat))) (role : Role)
    (core : Point) : List (String × List Nat × Option (List Nat)) :=
  (plan.filter fun e => e.1 = role ∧ core ∈ e.2.2.map Prod.fst).map fun e =>
    (kernels role, e.2.1, (Dict.ofList e.2.2).get? core)

end BlackholeQwen.Gdn
