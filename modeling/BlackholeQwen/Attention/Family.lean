import BlackholeQwen.Attention.Bundling

/-!
# The pinned family reader (`extent_attention_replay.py`, `attention_head_fold.py`)

The extent reader bundles its rows as at position 256 and masks them at capacity 256 with the start's low eight bits.
A pinned reader captured for the start's own family bundles at the start and masks at the family's end. From position
128 on and within one family the two agree: the bundles up to the capacity that their signatures name
(`parallelGroups_family`), each task's tile (`maskTiles_family`), and the mask on the family's last 256 columns, before
which the wide mask is zero (`replayMask_family`).
-/

namespace BlackholeQwen.Attention

open Lib

/-! ## Bundles -/

/-- The group with another signature. -/
def relabel (signature : Nat × Nat) (g : Group) : Group := { g with signature }

/-- From position 128 on a native chunk has 256 keys. -/
theorem chunkSignature_family {position : Nat} (h : MIN_LIVE_START ≤ position) :
    chunkSignature position 8 = (K, extent position) := by
  have htiles : 4 ≤ position / 32 := by
    have : MIN_LIVE_START = 128 := rfl
    omega
  have hbits : 3 ≤ bitLength (position / 32 + 1 - 1) := by
    have hlog : 2 ≤ (position / 32).log2 := (Nat.le_log2 (by omega)).mpr htiles
    unfold bitLength
    rw [Nat.add_sub_cancel, if_neg (by omega)]
    omega
  have hpow : 2 ^ 3 ≤ 2 ^ bitLength (position / 32 + 1 - 1) := Nat.pow_le_pow_right (by omega) hbits
  have hchunk : min 8 (2 ^ bitLength (position / 32 + 1 - 1)) * 32 = 256 := by omega
  unfold chunkSignature
  simp only [hchunk]
  have hext : extent position = (position / 256 + 1) * 256 := rfl
  rw [hext, show position + 1 + 256 - 1 = position + 256 by omega, Nat.add_div_right _ (by omega)]

/-- Rows of one workload at two starts are grouped alike. -/
theorem addRow_relabel {start start' maxChunkTiles limit r : Nat} {signature signature' : Nat × Nat}
    {groups : List Group} (h : chunkSignature (start + r) maxChunkTiles = signature)
    (h' : chunkSignature (start' + r) maxChunkTiles = signature') (hall : ∀ g ∈ groups, g.signature = signature') :
    addRow start maxChunkTiles limit (groups.map (relabel signature)) r =
        (addRow start' maxChunkTiles limit groups r).map (relabel signature) ∧
      ∀ g ∈ addRow start' maxChunkTiles limit groups r, g.signature = signature' := by
  unfold addRow
  simp only [h, h', List.getLast?_map]
  cases hl : groups.getLast? with
  | none => exact ⟨rfl, fun g hg => by rw [List.mem_singleton.mp hg]⟩
  | some g =>
    have hg := hall g (List.mem_of_getLast? hl)
    simp only [Option.map_some, hg, relabel, true_and]
    split
    · refine ⟨by simp [List.map_dropLast, relabel], fun g' hg' => ?_⟩
      rcases List.mem_append.mp hg' with hg' | hg'
      · exact hall g' (List.dropLast_subset _ hg')
      · rw [List.mem_singleton.mp hg']
    · refine ⟨by simp [relabel], fun g' hg' => ?_⟩
      rcases List.mem_append.mp hg' with hg' | hg'
      · exact hall g' hg'
      · rw [List.mem_singleton.mp hg']

theorem foldl_addRow_relabel {start start' maxChunkTiles limit : Nat} {signature signature' : Nat × Nat} (rows : Nat)
    (h : ∀ r < rows, chunkSignature (start + r) maxChunkTiles = signature)
    (h' : ∀ r < rows, chunkSignature (start' + r) maxChunkTiles = signature') :
    (List.range rows).foldl (addRow start maxChunkTiles limit) [] =
        ((List.range rows).foldl (addRow start' maxChunkTiles limit) []).map (relabel signature) ∧
      ∀ g ∈ (List.range rows).foldl (addRow start' maxChunkTiles limit) [], g.signature = signature' := by
  induction rows with
  | zero => exact ⟨rfl, fun g hg => by cases hg⟩
  | succ rows ih =>
    obtain ⟨heq, hall⟩ := ih (fun r hr => h r (by omega)) fun r hr => h' r (by omega)
    rw [List.range_succ, List.foldl_append, List.foldl_append, heq]
    exact addRow_relabel (h rows (by omega)) (h' rows (by omega)) hall

/-- Groups of one workload are bundled alike under another. -/
theorem addGroup_relabel {maxBatches : Nat} {signature signature' : Nat × Nat} {bundles : List (List Group)} {g : Group}
    (hall : ∀ b ∈ bundles, ∀ g ∈ b, g.signature = signature') (hg : g.signature = signature') :
    addGroup maxBatches (bundles.map (List.map (relabel signature))) (relabel signature g) =
        (addGroup maxBatches bundles g).map (List.map (relabel signature)) ∧
      ∀ b ∈ addGroup maxBatches bundles g, ∀ g ∈ b, g.signature = signature' := by
  unfold addGroup
  simp only [List.getLast?_map]
  cases hl : bundles.getLast? with
  | none =>
    refine ⟨rfl, fun b hb f hf => ?_⟩
    rw [List.mem_singleton.mp hb] at hf
    rw [List.mem_singleton.mp hf, hg]
  | some bundle =>
    have hbundle := hall bundle (List.mem_of_getLast? hl)
    have hlast : (bundle.map (relabel signature)).head?.map (fun f => (f.rows, f.signature)) =
          some (g.rows, signature) ↔
        bundle.head?.map (fun f => (f.rows, f.signature)) = some (g.rows, g.signature) := by
      cases bundle with
      | nil => simp
      | cons f bundle =>
        have hf := hbundle f List.mem_cons_self
        simp [relabel, hf, hg]
    simp only [Option.map_some, List.length_map, relabel, hlast]
    split
    · refine ⟨by simp [List.map_dropLast, relabel], fun b hb f hf => ?_⟩
      rcases List.mem_append.mp hb with hb | hb
      · exact hall b (List.dropLast_subset _ hb) f hf
      · rw [List.mem_singleton.mp hb] at hf
        rcases List.mem_append.mp hf with hf | hf
        · exact hbundle f hf
        · rw [List.mem_singleton.mp hf, hg]
    · refine ⟨by simp [relabel], fun b hb f hf => ?_⟩
      rcases List.mem_append.mp hb with hb | hb
      · exact hall b hb f hf
      · rw [List.mem_singleton.mp hb] at hf
        rw [List.mem_singleton.mp hf, hg]

theorem foldl_addGroup_relabel {maxBatches : Nat} {signature signature' : Nat × Nat} {groups : List Group}
    (hall : ∀ g ∈ groups, g.signature = signature') :
    (groups.map (relabel signature)).foldl (addGroup maxBatches) [] =
        (groups.foldl (addGroup maxBatches) []).map (List.map (relabel signature)) ∧
      ∀ b ∈ groups.foldl (addGroup maxBatches) [], ∀ g ∈ b, g.signature = signature' := by
  induction groups using List.reverseRecOn with
  | nil => exact ⟨rfl, fun b hb => by cases hb⟩
  | append_singleton groups g ih =>
    obtain ⟨heq, hsame⟩ := ih fun g' hg' => hall g' (List.mem_append_left _ hg')
    rw [List.map_append, List.foldl_append, List.foldl_append, heq]
    exact addGroup_relabel hsame (hall g (by simp))

/-- Within one family the capacity does not change. -/
theorem extent_add {start r : Nat} (h : start % 256 + r < 256) : extent (start + r) = extent start := by
  rw [extent_eq, extent_eq]
  omega

/-- **From position 128 on and within one family the rows are bundled as at position 256.** -/
theorem parallelGroups_family {start rows limit : Nat} (hstart : MIN_LIVE_START ≤ start)
    (hrows : start % 256 + rows ≤ 256) :
    parallelGroups start rows 3 limit =
        (layout rows limit).map (List.map (List.map (relabel (K, extent start)))) ∧
      ∀ bundles, layout rows limit = .ok bundles → ∀ b ∈ bundles, ∀ g ∈ b, g.signature = (K, extent K) := by
  have hsig : ∀ r < rows, chunkSignature (start + r) 8 = (K, extent start) := fun r hr => by
    rw [chunkSignature_family (by omega), extent_add (by omega)]
  have hsig' : ∀ r < rows, chunkSignature (K + r) 8 = (K, extent K) := fun r hr => by
    rw [chunkSignature_family (show 128 ≤ 256 + r by omega), extent_add (show 256 % 256 + r < 256 by omega)]
  obtain ⟨hgroups, hall⟩ := foldl_addRow_relabel rows hsig hsig'
  obtain ⟨hbundles, hsame⟩ := foldl_addGroup_relabel hall
  unfold layout parallelGroups chunkGroups
  rcases raiseIf (¬(1 ≤ 3 ∧ 3 ≤ 3))
    (.valueError "At most three TP2 groups preserve sixteen workers per KV head on110 cores") with e | u
  · exact ⟨rfl, fun bundles h => by cases h⟩
  rcases raiseIf (¬(limit = 4 ∨ limit = 8)) (.valueError "Parallel groups require a four or eight row limit") with e | u
  · exact ⟨rfl, fun bundles h => by cases h⟩
  split
  · exact ⟨rfl, fun bundles h => by cases h⟩
  · refine ⟨?_, fun bundles h => ?_⟩
    · show Except.ok _ = Except.ok _
      rw [hgroups, hbundles]
    · cases h
      exact hsame

/-! ## Masks -/

/-- A task writes in its batch's and head tile's row of pages, in one of the last eight columns of tiles. -/
theorem taskPage_eq {rows capacity task : Nat} :
    taskPage rows capacity task = task / 8 * (capacity / 32) + capacity / 32 - 8 + task % 8 := by
  have hsum : task / (headTiles rows * 8) * headTiles rows + task / 8 % headTiles rows = task / 8 := by
    rw [Nat.mul_comm (headTiles rows) 8, ← Nat.div_div_eq_div_mul, Nat.mul_comm]
    exact Nat.div_add_mod _ _
  rw [taskPage, hsum]

theorem taskPage_div (rows task : Nat) {capacity : Nat} (h : 8 ≤ capacity / 32) :
    taskPage rows capacity task / (capacity / 32) = task / 8 ∧
      taskPage rows capacity task % (capacity / 32) = capacity / 32 - 8 + task % 8 := by
  have hpage : taskPage rows capacity task = capacity / 32 * (task / 8) + (capacity / 32 - 8 + task % 8) := by
    rw [taskPage_eq, Nat.mul_comm]
    omega
  have hlt : capacity / 32 - 8 + task % 8 < capacity / 32 := by omega
  rw [hpage, Nat.mul_add_div (by omega), Nat.div_eq_of_lt hlt, Nat.mul_add_mod, Nat.mod_eq_of_lt hlt]
  exact ⟨Nat.add_zero _, rfl⟩

/-- Different tasks write different pages. -/
theorem taskPage_injective {rows capacity : Nat} (h : 8 ≤ capacity / 32) :
    Function.Injective (taskPage rows capacity) := by
  intro task task' heq
  have h1 := taskPage_div rows task h
  have h2 := taskPage_div rows task' h
  rw [heq] at h1
  omega

/-- The geometry served is a positive number of native chunks. -/
theorem maskGeometry_capacity {word rows batches capacity : Nat} {u : Unit}
    (h : maskGeometry word rows batches capacity = .ok u) : K ≤ capacity ∧ capacity % K = 0 := by
  obtain ⟨_, -, h⟩ := bind_ok h
  obtain ⟨_, -, h⟩ := bind_ok h
  obtain ⟨_, hcap, h⟩ := bind_ok h
  rw [raiseIf_ok] at h
  rw [integer, raiseIf_ok] at hcap
  omega

/-- **The folded mask, word by word**: zero before the last native chunk, and in it the task's tile. -/
theorem replayMask_apply {word rows batches offset capacity : Nat} {mask : Nat → Nat → Nat → Nat}
    (h : replayMaskHost word rows batches offset capacity = .ok mask) {batch head column : Nat}
    (hbatch : batch < batches) (hhead : head < rows * MASK_HEAD_ROWS) (hcolumn : column < capacity) :
    mask batch head column =
      if column < capacity - K then 0
      else taskTile word rows offset capacity
        ((batch * headTiles rows + head / 32) * 8 + (column - (capacity - K)) / 32) (head % 32) (column % 32) := by
  obtain ⟨tiles, htiles, h⟩ := bind_ok h
  obtain ⟨_, hgeom, htiles⟩ := bind_ok htiles
  obtain ⟨hcap, hmod⟩ := maskGeometry_capacity hgeom
  cases htiles
  cases h
  have hK : K = 256 := rfl
  have hmod : capacity % 256 = 0 := hmod
  have hwide : 8 ≤ capacity / 32 := by omega
  have hpages : (List.range (batches * headTiles rows * 8)).map (Prod.fst ∘ fun task =>
      (taskPage rows capacity task, taskTile word rows offset capacity task)) =
      (List.range (batches * headTiles rows * 8)).map (taskPage rows capacity) := rfl
  show (scatter _ _ ((batch * headTiles rows + head / 32) * (capacity / 32) + column / 32) : Tile) (head % 32)
    (column % 32) = _
  have hindex : (batch * headTiles rows + head / 32) * (capacity / 32) + column / 32 =
      capacity / 32 * (batch * headTiles rows + head / 32) + column / 32 := by rw [Nat.mul_comm]
  have hlt : column / 32 < capacity / 32 := by omega
  split
  · rename_i hearly
    rw [scatter_of_not_mem]
    rw [List.map_map, hpages, List.mem_map]
    rintro ⟨task, -, htask⟩
    have hrem := (taskPage_div rows task hwide).2
    rw [htask, hindex, Nat.mul_add_mod, Nat.mod_eq_of_lt hlt] at hrem
    omega
  · rename_i hlast
    have hht : head / 32 < headTiles rows := by unfold headTiles; omega
    generalize htask : (batch * headTiles rows + head / 32) * 8 + (column - (capacity - K)) / 32 = task
    have hmem : task < batches * headTiles rows * 8 := by
      have hle : (batch + 1) * headTiles rows ≤ batches * headTiles rows := Nat.mul_le_mul_right _ hbatch
      rw [Nat.succ_mul] at hle
      omega
    have hpage : taskPage rows capacity task =
        (batch * headTiles rows + head / 32) * (capacity / 32) + column / 32 := by
      rw [taskPage_eq, show task / 8 = batch * headTiles rows + head / 32 by omega]
      omega
    rw [scatter_apply (v := taskTile word rows offset capacity task)]
    · rw [List.map_map, hpages]
      exact List.nodup_range.map (taskPage_injective hwide)
    · exact List.mem_map.mpr ⟨task, List.mem_range.mpr hmem, by rw [hpage]⟩

/-- At the family's capacity with the start, and at capacity 256 with its low bits, a task writes one tile. -/
theorem taskTile_family (start rows offset task : Nat) :
    taskTile (extentValues start).1 rows offset K task = taskTile start rows offset (extent start) task := by
  funext row column
  have hword := word_eq start
  have hext := extent_eq start
  have hK : K = 256 := rfl
  unfold taskTile
  refine if_congr (or_congr Iff.rfl ?_) rfl rfl
  rw [hword, hext, hK]
  omega

/-- A bounded geometry at a word and a capacity that the kernel takes. -/
theorem maskTiles_total {word rows batches capacity : Nat} (offset : Nat) (hword : word < 2 ^ 32)
    (hrows : 1 ≤ rows ∧ rows ≤ 8) (hbatches : 1 ≤ batches ∧ batches ≤ 3) (hcap : 256 ≤ capacity ∧ capacity % 256 = 0) :
    maskTiles word rows batches offset capacity =
      .ok ((List.range (batches * headTiles rows * 8)).map fun task =>
        (taskPage rows capacity task, taskTile word rows offset capacity task)) := by
  have hgeom : maskGeometry word rows batches capacity = .ok () := by
    have hK : K = 256 := rfl
    unfold maskGeometry integer raiseIf
    rw [if_neg (by omega), if_neg (by omega), if_neg (by omega), if_neg (by rw [hK]; omega)]
    rfl
  rw [maskTiles, hgeom]
  rfl

/-- The masks of a bundle at its family's end and at capacity 256 exist and agree. -/
theorem replayMask_family {start rows batches : Nat} (offset : Nat) (hstart : start < 2 ^ 32)
    (hrows : 1 ≤ rows ∧ rows ≤ 8) (hbatches : 1 ≤ batches ∧ batches ≤ 3) :
    ∃ narrow wide, narrowMaskHost (extentValues start).1 rows batches offset = .ok narrow ∧
      replayMaskHost start rows batches offset (extent start) = .ok wide ∧
      ∀ batch < batches, ∀ head < rows * MASK_HEAD_ROWS,
        (∀ column < 256, narrow batch head column = wide batch head (extent start - 256 + column)) ∧
        ∀ column < extent start - 256, wide batch head column = 0 := by
  have hext := extent_eq start
  have hword := word_eq start
  have hK : K = 256 := rfl
  obtain ⟨narrow, hnarrow⟩ : ∃ narrow, narrowMaskHost (extentValues start).1 rows batches offset = .ok narrow :=
    narrowMask_total offset (by omega) hrows hbatches
  obtain ⟨wide, hwide⟩ : ∃ wide, replayMaskHost start rows batches offset (extent start) = .ok wide :=
    ⟨_, by rw [replayMaskHost, maskTiles_total offset hstart hrows hbatches (by omega)]; rfl⟩
  refine ⟨narrow, wide, hnarrow, hwide,
    fun batch hbatch head hhead => ⟨fun column hcolumn => ?_, fun column hcolumn => ?_⟩⟩
  · rw [replayMask_apply hnarrow hbatch hhead hcolumn, replayMask_apply hwide hbatch hhead (by omega),
      if_neg (by omega), if_neg (by omega), taskTile_family, Nat.sub_self, Nat.sub_zero,
      show (extent start - 256 + column - (extent start - K)) = column by omega,
      show (extent start - 256 + column) % 32 = column % 32 by omega]
  · rw [replayMask_apply hwide hbatch hhead (by omega), if_pos (by omega)]

/-- **The extent reader equals the pinned family reader.** From position 128 on and within one family, the two bundle
alike, under the signatures of their own capacities; where the kernel takes the start's word, each bundle's tasks write
the same tiles, and the narrow mask is the wide one's last 256 columns, which is zero before them. -/
theorem family_reader_exact {start rows limit : Nat} (hstart : MIN_LIVE_START ≤ start)
    (hrows : start % 256 + rows ≤ 256) (hlimit : limit = 4 ∨ limit = 8) :
    parallelGroups start rows 3 limit =
        (layout rows limit).map (List.map (List.map (relabel (K, extent start)))) ∧
    ∀ bundles, layout rows limit = .ok bundles → ∀ b ∈ bundles,
      (∀ g ∈ b, g.signature = (K, extent K)) ∧
      (start < 2 ^ 32 →
        (∃ narrow wide,
          maskTiles (extentValues start).1 (bundleRows b) b.length (bundleOffset b) K = .ok narrow ∧
          maskTiles start (bundleRows b) b.length (bundleOffset b) (extent start) = .ok wide ∧
          narrow.map Prod.snd = wide.map Prod.snd) ∧
        ∃ narrow wide,
          narrowMaskHost (extentValues start).1 (bundleRows b) b.length (bundleOffset b) = .ok narrow ∧
          replayMaskHost start (bundleRows b) b.length (bundleOffset b) (extent start) = .ok wide ∧
          ∀ batch < b.length, ∀ head < bundleRows b * MASK_HEAD_ROWS,
            (∀ column < 256, narrow batch head column = wide batch head (extent start - 256 + column)) ∧
            ∀ column < extent start - 256, wide batch head column = 0) := by
  obtain ⟨hbundles, hsignature⟩ := parallelGroups_family hstart hrows
  refine ⟨hbundles, fun bundles hlayout b hb => ⟨hsignature bundles hlayout b hb, fun hword => ?_⟩⟩
  obtain ⟨groups, hgrouped, hbundled⟩ := parallelGroups_ok hlayout
  obtain ⟨f, hf, -⟩ := hbundled.shape b hb
  rw [Option.mem_def] at hf
  have hfb := List.mem_of_head? hf
  have hfg : f ∈ groups := by
    rw [← hbundled.flatten]
    exact List.mem_flatten.mpr ⟨b, hb, hfb⟩
  have hbrows : bundleRows b = f.rows := by rw [bundleRows, hf]; rfl
  have hsmall := hgrouped.small f hfg
  have hpos := hgrouped.pos hfg
  have hbatches : 1 ≤ b.length ∧ b.length ≤ 3 := ⟨List.length_pos_of_mem hfb, hbundled.short b hb⟩
  have hext := extent_eq start
  have hrel := word_eq start
  refine ⟨⟨_, _, maskTiles_total _ (by omega) (by omega) hbatches ⟨le_rfl, rfl⟩,
    maskTiles_total _ hword (by omega) hbatches (by omega), ?_⟩, replayMask_family _ hword (by omega) hbatches⟩
  rw [List.map_map, List.map_map]
  exact List.map_congr_left fun task _ => taskTile_family start _ _ task

/-- A segment of sixteen rows in the family that ends at 1024. -/
theorem family_reader_exact_sample :
    parallelGroups 1000 16 3 8 = (layout 16 8).map (List.map (List.map (relabel (K, extent 1000)))) :=
  (family_reader_exact (by decide) (by decide) (Or.inr rfl)).1

/-- A start of more than 32 bits is bundled, and masked at capacity 256, but the wide mask refuses its word. -/
theorem wide_word_refused :
    MIN_LIVE_START ≤ 2 ^ 32 ∧ 2 ^ 32 % 256 + 8 ≤ 256 ∧ layout 8 8 = .ok [[⟨0, 8, (256, 512)⟩]] ∧
    (∃ narrow, maskTiles (extentValues (2 ^ 32)).1 8 1 0 K = .ok narrow) ∧
    maskTiles (2 ^ 32) 8 1 0 (extent (2 ^ 32)) = .error (.valueError
      "Bounded mask geometry required: word < 2**32, rows <= 8, batches <= 3, capacity % 256 == 0") :=
  ⟨by decide, by decide, by decide, ⟨_, rfl⟩, rfl⟩

end BlackholeQwen.Attention
