import BlackholeQwen.Gdn.UserBatch

/-!
# Coalescing the launch changes no core

- `coreShares_exact`: the users' shares are disjoint, of the requested size and inside the grid.
- `planChip_bare`: what is planned for a user does not depend on how its cores are given.
- `received_planned`: a core gets what is planned for it, if the core ranges cover the planned cores.
- `received_coalesced`: it gets the same if one descriptor of a role holds all users.
- `coalesced_launch`: so the two builds agree on every core.
-/

namespace BlackholeQwen.Gdn

open Lib

/-! ## Shares -/

/-- A list in chunks. -/
theorem flatten_chunks {α : Type} (xs : List α) (size n : Nat) :
    ((List.range n).map fun index => (xs.drop (index * size)).take size).flatten = xs.take (n * size) := by
  induction n with
  | zero => simp
  | succ n ih =>
    rw [List.range_succ, List.map_append, List.flatten_append, ih, Nat.succ_mul, List.take_add]
    simp

/-- Worker positions are distinct. -/
theorem workers_nodup {vertical : Int} (total : Nat) :
    ((List.range total).map fun worker : Nat => ((worker : Int) / vertical, (worker : Int) % vertical)).Nodup := by
  refine List.Nodup.map (fun a b hab => ?_) List.nodup_range
  obtain ⟨hdiv, hmod⟩ := Prod.mk.inj hab
  have ha := Int.mul_ediv_add_emod (a : Int) vertical
  have hb := Int.mul_ediv_add_emod (b : Int) vertical
  rw [hdiv, hmod] at ha
  exact Int.ofNat.inj (ha.symm.trans hb)

/-- **Shares.** They are as many as users, of the requested size, inside the grid, and no core is in two places. -/
theorem coreShares_exact {horizontal vertical users workers : Int} {shares : List (List Point)}
    (h : coreShares horizontal vertical users workers = .ok shares) :
    (shares.length : Int) = users ∧ (∀ share ∈ shares, (share.length : Int) = workers) ∧ 1 ≤ users ∧
      shares.flatten.Nodup ∧
        ∀ share ∈ shares, ∀ p ∈ share, (0 ≤ p.1 ∧ p.1 < horizontal) ∧ 0 ≤ p.2 ∧ p.2 < vertical := by
  unfold coreShares at h
  obtain ⟨_, husers, h⟩ := bind_ok h
  obtain ⟨_, hworkers, h⟩ := bind_ok h
  obtain ⟨_, hgrid, h⟩ := bind_ok h
  obtain ⟨_, hinside, h⟩ := bind_ok h
  have husers := not_not.mp (raiseIf_ok.mp husers)
  have hworkers := raiseIf_ok.mp hworkers
  have hgrid := raiseIf_ok.mp hgrid
  have hinside := raiseIf_ok.mp hinside
  cases h
  have htotal : (users * workers).toNat = users.toNat * workers.toNat := Int.toNat_mul (by omega) (by omega)
  generalize hpoints : ((List.range (users * workers).toNat).map fun worker : Nat =>
    ((worker : Int) / vertical, (worker : Int) % vertical)) = points at *
  have hlength : points.length = users.toNat * workers.toNat := by
    rw [← hpoints, List.length_map, List.length_range, htotal]
  refine ⟨by simp; omega, fun share hshare => ?_, by omega, ?_, fun share hshare p hp => ?_⟩
  · obtain ⟨index, hindex, rfl⟩ := List.mem_map.mp hshare
    have hroom : (index + 1) * workers.toNat ≤ users.toNat * workers.toNat :=
      Nat.mul_le_mul_right _ (List.mem_range.mp hindex)
    rw [Nat.succ_mul] at hroom
    rw [List.length_take, List.length_drop, hlength, Nat.min_eq_left (by omega)]
    omega
  · rw [flatten_chunks, List.take_of_length_le (by omega), ← hpoints]
    exact workers_nodup _
  · obtain ⟨index, -, rfl⟩ := List.mem_map.mp hshare
    have hmem : p ∈ points := List.mem_of_mem_drop (List.mem_of_mem_take hp)
    have hbelow : p.1 < horizontal := by
      by_contra hnot
      exact hinside ⟨p, hmem, by omega⟩
    have hvertical : 1 ≤ vertical := by omega
    rw [← hpoints] at hmem
    obtain ⟨worker, -, rfl⟩ := List.mem_map.mp hmem
    exact ⟨⟨Int.ediv_nonneg (by omega) (by omega), hbelow⟩, Int.emod_nonneg _ (by omega),
      Int.emod_lt_of_pos _ (by omega)⟩

/-! ## Plans -/

/-- The cores of an entry. -/
def Entry.points (entry : Entry) : List Point := entry.runtime.map Prod.fst

/-- What an entry gives its cores. -/
def Entry.bare (entry : Entry) : Role × List Nat × List (Point × List Nat) :=
  (entry.role, entry.compileArgs, entry.runtime)

/-- What a plan needs of a user. -/
def UserShards.bare (user : UserShards) : List (List Tensor) × Nat × List Point := (user.shards, user.rows, user.share)

/-- Core ranges cover these points. -/
def Covers (cores : List Rect) (points : List Point) : Prop := ∀ p, (∃ r ∈ cores, p ∈ r.cells) ↔ p ∈ points

theorem planRole_bare {user user' : UserShards} (h : user.bare = user'.bare) (tensors : List Tensor) (role : Role) :
    (planRole user tensors role).map Entry.bare = (planRole user' tensors role).map Entry.bare := by
  obtain ⟨shards, rows, share, cores⟩ := user
  obtain ⟨shards', rows', share', cores'⟩ := user'
  obtain ⟨rfl, h⟩ := Prod.mk.inj h
  obtain ⟨rfl, rfl⟩ := Prod.mk.inj h
  unfold planRole
  cases (ACCESSORS role).mapM fun index => (item tensors index).map Tensor.accessor with
  | error e => rfl
  | ok accessors =>
    show Except.map _ (List.mapM _ _ >>= _) = Except.map _ (List.mapM _ _ >>= _)
    cases share.zipIdx.mapM fun core =>
      (runtimeArgs role core.2 rows (tensors.map Tensor.bufferAddress)).map (Prod.mk core.1) with
    | error e => rfl
    | ok runtime => rfl

/-- What is planned does not depend on how the cores are given. -/
theorem planUsers_bare (chip : Nat) (users : List UserShards) : ∀ (users' : List UserShards) (priv weights : List Nat),
    users.map UserShards.bare = users'.map UserShards.bare →
      (planUsers chip users priv weights).map (fun r => (r.1.map Entry.bare, r.2)) =
        (planUsers chip users' priv weights).map fun r => (r.1.map Entry.bare, r.2) := by
  induction users with
  | nil =>
    intro users' priv weights h
    obtain rfl := List.map_eq_nil_iff.mp h.symm
    rfl
  | cons user users ih =>
    intro users' priv weights h
    obtain ⟨user', rest, rfl, huser, hrest⟩ := List.map_eq_cons_iff.mp h.symm
    have hshards : user'.shards = user.shards := congrArg Prod.fst huser
    rw [planUsers, planUsers, hshards]
    refine bind_map_self fun tensors => bind_map_self fun _ => bind_map_self fun _ => bind_map_self fun weight => ?_
    refine bind_map_congr (mapM_map_congr roles fun role => planRole_bare huser.symm tensors role)
      fun entries entries' hentries => ?_
    refine bind_map_congr (ih rest _ _ hrest.symm) fun planned planned' hplanned => ?_
    obtain ⟨hbare, hkept⟩ := Prod.mk.inj hplanned
    show Except.ok ((entries ++ planned.1).map Entry.bare, planned.2) =
      Except.ok ((entries' ++ planned'.1).map Entry.bare, planned'.2)
    rw [List.map_append, List.map_append, hentries, hbare, hkept]

/-- **Plans.** What is planned on a chip does not depend on how the cores are given. -/
theorem planChip_bare {users users' : List UserShards} (h : users.map UserShards.bare = users'.map UserShards.bare)
    (chip : Nat) : (planChip users chip).map (List.map Entry.bare) =
      (planChip users' chip).map (List.map Entry.bare) := by
  refine bind_map_congr (planUsers_bare chip users users' [] [] h) fun r r' hr => ?_
  obtain ⟨planned, priv, weights⟩ := r
  obtain ⟨planned', priv', weights'⟩ := r'
  obtain ⟨hbare, hkept⟩ := Prod.mk.inj hr
  obtain ⟨rfl, rfl⟩ := Prod.mk.inj hkept
  exact bind_map_self fun _ => congrArg Except.ok hbare

/-- The role, the cores and the core ranges of an entry. -/
def Entry.outline (entry : Entry) : Role × List Point × List Rect := (entry.role, entry.points, entry.cores)

theorem planRole_outline {user : UserShards} {tensors : List Tensor} {role : Role} {entry : Entry}
    (h : planRole user tensors role = .ok entry) : entry.outline = (role, user.share, user.cores) := by
  unfold planRole at h
  obtain ⟨_, -, h⟩ := bind_ok h
  obtain ⟨runtime, hruntime, h⟩ := bind_ok h
  cases h
  have hpoints : runtime.map Prod.fst = user.share.zipIdx.map Prod.fst := by
    refine mapM_map_eq hruntime fun core _ given hgiven => ?_
    cases hargs : runtimeArgs role core.2 user.rows (tensors.map Tensor.bufferAddress) with
    | error e => rw [hargs] at hgiven; cases hgiven
    | ok args => rw [hargs] at hgiven; cases hgiven; rfl
  rw [List.zipIdx_map_fst] at hpoints
  exact Prod.ext rfl (Prod.ext hpoints rfl)

/-- **Entries.** Each user has one entry of each role, on its own cores. -/
theorem planUsers_outline (chip : Nat) (users : List UserShards) : ∀ {priv weights : List Nat}
    {r : List Entry × List Nat × List Nat}, planUsers chip users priv weights = .ok r →
      r.1.map Entry.outline = users.flatMap fun user => roles.map fun role => (role, user.share, user.cores) := by
  induction users with
  | nil =>
    intro priv weights r h
    cases h
    rfl
  | cons user users ih =>
    intro priv weights r h
    rw [planUsers] at h
    obtain ⟨tensors, -, h⟩ := bind_ok h
    obtain ⟨_, -, h⟩ := bind_ok h
    obtain ⟨_, -, h⟩ := bind_ok h
    obtain ⟨_, -, h⟩ := bind_ok h
    obtain ⟨entries, hentries, h⟩ := bind_ok h
    obtain ⟨rest, hrest, h⟩ := bind_ok h
    cases h
    rw [List.map_append, List.flatMap_cons, ih hrest,
      mapM_map_eq hentries fun role _ entry hentry => planRole_outline hentry]

theorem planChip_outline {chip : Nat} {users : List UserShards} {planned : List Entry}
    (h : planChip users chip = .ok planned) :
    planned.map Entry.outline = users.flatMap fun user => roles.map fun role => (role, user.share, user.cores) := by
  unfold planChip at h
  obtain ⟨⟨entries, priv, weights⟩, hentries, h⟩ := bind_ok h
  obtain ⟨_, -, h⟩ := bind_ok h
  cases h
  exact planUsers_outline chip users hentries

/-- The entries of a role are the users' own. -/
theorem byRole_outline {chip : Nat} {users : List UserShards} {planned : List Entry}
    (h : planChip users chip = .ok planned) (role : Role) :
    (byRole planned role).map Entry.points = users.map UserShards.share ∧
      ∀ entry ∈ planned, ∃ user ∈ users, entry.points = user.share ∧ entry.cores = user.cores := by
  have houtline := planChip_outline h
  constructor
  · have hrole : (byRole planned role).map Entry.points =
        ((planned.map Entry.outline).filter fun o => o.1 = role).map fun o => o.2.1 := by
      rw [byRole, List.filter_map, List.map_map]
      rfl
    have hone : ∀ user : UserShards, ((roles.map fun role => (role, user.share, user.cores)).filter
        fun o => o.1 = role).map (fun o => o.2.1) = [user.share] := fun user => by cases role <;> rfl
    rw [hrole, houtline, List.filter_flatMap, List.map_flatMap, List.map_eq_flatMap]
    exact List.flatMap_congr fun user _ => hone user
  · intro entry hentry
    have hmem : entry.outline ∈ planned.map Entry.outline := List.mem_map_of_mem hentry
    rw [houtline] at hmem
    obtain ⟨user, huser, hmem⟩ := List.mem_flatMap.mp hmem
    obtain ⟨_, -, hsame⟩ := List.mem_map.mp hmem
    obtain ⟨-, hsame⟩ := Prod.mk.inj hsame
    obtain ⟨hpoints, hcores⟩ := Prod.mk.inj hsame
    exact ⟨user, huser, hpoints.symm, hcores.symm⟩

/-! ## What a core gets -/

theorem configs_inj : ∀ {role role' : Role}, configs role = configs role' → role = role' := by
  intro role role' h
  cases role <;> cases role' <;> first | rfl | exact absurd h (by decide)

/-- **A core gets what is planned for it**, if the core ranges cover the planned cores. -/
theorem received_planned {kernels : Role → String} {planned : List Entry}
    (h : ∀ entry ∈ planned, Covers entry.cores entry.points) (role : Role) (core : Point) :
    received (planned.map (describe kernels)) role core = assigned kernels (planned.map Entry.bare) role core := by
  unfold received assigned
  rw [List.filter_map, List.filter_map, List.map_map, List.map_map]
  have hfilter : planned.filter ((fun d => decide (d.config = configs role ∧ ∃ r ∈ d.coreRanges, core ∈ r.cells)) ∘
      describe kernels) =
        planned.filter ((fun e => decide (e.1 = role ∧ core ∈ e.2.2.map Prod.fst)) ∘ Entry.bare) := by
    refine List.filter_congr fun entry hentry => decide_eq_decide.mpr ?_
    exact and_congr ⟨configs_inj, congrArg configs⟩ (h entry hentry core)
  rw [hfilter]
  refine List.map_congr_left fun entry hentry => ?_
  have hrole : entry.role = role := (of_decide_eq_true (List.mem_filter.mp hentry).2).1
  show (kernels entry.role, _, _) = _
  rw [hrole]
  rfl

/-- At most one of the entries of distinct cores has a core. -/
theorem filter_owner {entries : List Entry} (hnd : (entries.flatMap Entry.points).Nodup) {entry : Entry} {core : Point}
    (hentry : entry ∈ entries) (hcore : core ∈ entry.points) :
    entries.filter (fun e => core ∈ e.points) = [entry] := by
  induction entries with
  | nil => cases hentry
  | cons first rest ih =>
    rw [List.flatMap_cons, List.nodup_append'] at hnd
    obtain ⟨-, hrest, hdisjoint⟩ := hnd
    rcases List.mem_cons.mp hentry with rfl | hlater
    · have hnone : rest.filter (fun e => core ∈ e.points) = [] :=
        List.filter_eq_nil_iff.mpr fun e he hin =>
          hdisjoint hcore (List.mem_flatMap.mpr ⟨e, he, of_decide_eq_true hin⟩)
      rw [List.filter_cons_of_pos (by simpa using hcore), hnone]
    · have hnot : core ∉ first.points := fun hfirst =>
        hdisjoint hfirst (List.mem_flatMap.mpr ⟨entry, hlater, hcore⟩)
      rw [List.filter_cons_of_neg (by simpa using hnot), ih hrest hlater]

/-- A core's runtime arguments are those of the one entry that has it. -/
theorem get?_owner {entries : List Entry} (hnd : (entries.flatMap Entry.points).Nodup) {entry : Entry} {core : Point}
    (hentry : entry ∈ entries) (hcore : core ∈ entry.points) :
    (Dict.ofList (entries.flatMap Entry.runtime)).get? core = (Dict.ofList entry.runtime).get? core := by
  have hkeys : ((entries.flatMap Entry.runtime).map Prod.fst).Nodup := by rw [List.map_flatMap]; exact hnd
  have hown : (entry.runtime.map Prod.fst).Nodup := (List.nodup_flatMap.mp hnd).1 entry hentry
  refine Option.ext fun v => ?_
  rw [Dict.get?_ofList hkeys, Dict.get?_ofList hown, List.mem_flatMap]
  constructor
  · rintro ⟨other, hother, hmem⟩
    have hfilter := filter_owner hnd hentry hcore
    have hin : other ∈ entries.filter (fun e => core ∈ e.points) :=
      List.mem_filter.mpr ⟨hother, decide_eq_true (List.mem_map_of_mem (f := Prod.fst) hmem)⟩
    rw [hfilter, List.mem_singleton] at hin
    exact hin ▸ hmem
  · exact fun hmem => ⟨entry, hentry, hmem⟩

/-- A role's assignment, by its entries. -/
theorem assigned_byRole (kernels : Role → String) (planned : List Entry) (role : Role) (core : Point) :
    assigned kernels (planned.map Entry.bare) role core =
      ((byRole planned role).filter fun e => core ∈ e.points).map fun e =>
        (kernels role, e.compileArgs, (Dict.ofList e.runtime).get? core) := by
  unfold assigned byRole
  rw [List.filter_map, List.map_map, List.filter_filter]
  refine congrArg _ (List.filter_congr fun e _ => ?_)
  rw [Bool.and_comm, ← Bool.decide_and]
  rfl

/-- Entries of a role that are alike have the arguments of the first. -/
theorem compilesAlike_args {planned : List Entry} {role : Role} (h : compilesAlike planned role = true) {entry : Entry}
    (hentry : entry ∈ byRole planned role) :
    entry.compileArgs = ((byRole planned role).head?.map Entry.compileArgs).getD [] := by
  unfold compilesAlike at h
  cases hrole : byRole planned role with
  | nil => rw [hrole] at hentry; cases hentry
  | cons first rest =>
    rw [hrole] at hentry h
    rcases List.mem_cons.mp hentry with rfl | hrest
    · rfl
    · exact of_decide_eq_true (List.all_eq_true.mp h entry hrest)

/-- The merged entry gives a core what the role's entries give it. -/
theorem assigned_merged {planned : List Entry} (hnd : ∀ role, ((byRole planned role).flatMap Entry.points).Nodup)
    (halike : ∀ role, compilesAlike planned role = true) (kernels : Role → String) (union : List Rect) (role : Role)
    (core : Point) : assigned kernels ((roles.map (mergedEntry planned union)).map Entry.bare) role core =
      assigned kernels (planned.map Entry.bare) role core := by
  have hmerged : byRole (roles.map (mergedEntry planned union)) role = [mergedEntry planned union role] := by
    cases role <;> rfl
  have hpoints : (mergedEntry planned union role).points = (byRole planned role).flatMap Entry.points :=
    List.map_flatMap
  rw [assigned_byRole, assigned_byRole, hmerged]
  by_cases hcore : core ∈ (mergedEntry planned union role).points
  · obtain ⟨entry, hentry, hin⟩ := List.mem_flatMap.mp (hpoints ▸ hcore)
    have hself : [mergedEntry planned union role].filter (fun e => core ∈ e.points) =
      [mergedEntry planned union role] :=
      List.filter_eq_self.mpr fun e he => List.mem_singleton.mp he ▸ decide_eq_true hcore
    rw [filter_owner (hnd role) hentry hin, hself, List.map_singleton, List.map_singleton,
      compilesAlike_args (halike role) hentry]
    exact congrArg (fun runtime => [(kernels role, _, runtime)]) (get?_owner (hnd role) hentry hin)
  · have hnone : (byRole planned role).filter (fun e => core ∈ e.points) = [] :=
      List.filter_eq_nil_iff.mpr fun e he hin =>
        hcore (hpoints ▸ List.mem_flatMap.mpr ⟨e, he, of_decide_eq_true hin⟩)
    have hself : [mergedEntry planned union role].filter (fun e => core ∈ e.points) = [] :=
      List.filter_eq_nil_iff.mpr fun e he hin => hcore (List.mem_singleton.mp he ▸ of_decide_eq_true hin)
    rw [hnone, hself]

/-- A core is configured at most once for a role. -/
theorem assigned_once {planned : List Entry} {role : Role} (hnd : ((byRole planned role).flatMap Entry.points).Nodup)
    (kernels : Role → String) (core : Point) : (assigned kernels (planned.map Entry.bare) role core).length ≤ 1 := by
  rw [assigned_byRole, List.length_map]
  by_cases hcore : ∃ entry ∈ byRole planned role, core ∈ entry.points
  · obtain ⟨entry, hentry, hin⟩ := hcore
    rw [filter_owner hnd hentry hin]
    exact Nat.le_refl 1
  · rw [List.filter_eq_nil_iff.mpr fun e he hin => hcore ⟨e, he, of_decide_eq_true hin⟩]
    exact Nat.zero_le 1

/-- **Coalesced.** A core gets what is planned for it, whether or not the users of a role share a descriptor. -/
theorem received_coalesced {kernels : Role → String} {planned : List Entry} {union : List Rect}
    (h : ∀ entry ∈ planned, Covers entry.cores entry.points)
    (hnd : ∀ role, ((byRole planned role).flatMap Entry.points).Nodup)
    (hunion : ∀ role, Covers union ((byRole planned role).flatMap Entry.points)) (role : Role) (core : Point) :
    received (coalescedDescriptors kernels planned union).1 role core =
      assigned kernels (planned.map Entry.bare) role core := by
  unfold coalescedDescriptors
  split
  · rename_i hall
    have halike : ∀ role, compilesAlike planned role = true := fun role =>
      List.all_eq_true.mp hall role (by cases role <;> decide)
    rw [← assigned_merged hnd halike kernels union role core]
    refine received_planned (fun entry hentry => ?_) role core
    obtain ⟨role, -, rfl⟩ := List.mem_map.mp hentry
    have hpoints : (mergedEntry planned union role).points = (byRole planned role).flatMap Entry.points :=
      List.map_flatMap
    exact hpoints ▸ hunion role
  · exact received_planned h role core

/-! ## The launch -/

/-- Two builds raise alike, or they configure every core of every chip alike, and at most once for a role. -/
def SameLaunch (x y : Except PyError (List ProgramDescriptor × Option String)) : Prop :=
  (∀ e, x = .error e ↔ y = .error e) ∧ ∀ programs note programs' note', x = .ok (programs, note) →
    y = .ok (programs', note') → programs.length = programs'.length ∧
      ∀ (chip : Nat) (p q : ProgramDescriptor), programs[chip]? = some p → programs'[chip]? = some q →
        ∀ (role : Role) (core : Point), received p.kernels role core = received q.kernels role core ∧
          (received p.kernels role core).length ≤ 1

theorem SameLaunch.error (e : PyError) : SameLaunch (.error e) (.error e) :=
  ⟨fun _ => Iff.rfl, fun _ _ _ _ h => (by cases h)⟩

theorem singleCores_covers (points : List Point) : Covers (singleCores points) points := by
  intro p
  unfold singleCores
  simp only [List.mem_map, exists_exists_and_eq_and, Rect.mem_cells]
  constructor
  · rintro ⟨q, hq, hx, hy⟩
    have hpq : p = q := Prod.ext (by omega) (by omega)
    exact hpq ▸ hq
  · exact fun hp => ⟨p, hp, by omega, by omega⟩

/-- The users of a launch. -/
def usersOf (userShards : List (List (List Tensor))) (widths : List Nat) (shares : List (List Point))
    (ranges : List (List Rect)) : List UserShards :=
  (userShards.zip (widths.zip (shares.zip ranges))).map fun u => UserShards.mk u.1 u.2.1 u.2.2.1 u.2.2.2

section Users

variable {userShards : List (List (List Tensor))} {widths : List Nat} {shares : List (List Point)}
  {ranges : List (List Rect)}

variable (userShards widths) in
theorem usersOf_bare (hranges : ranges.length = shares.length) :
    (usersOf userShards widths shares ranges).map UserShards.bare = userShards.zip (widths.zip shares) := by
  have hfst : (shares.zip ranges).map Prod.fst = shares := List.map_fst_zip (by omega)
  have hzip : userShards.zip (widths.zip shares) =
      (userShards.zip (widths.zip (shares.zip ranges))).map (Prod.map id (Prod.map id Prod.fst)) := by
    conv => lhs; rw [← hfst]
    rw [← List.zip_map_right, ← List.zip_map_right]
  rw [usersOf, List.map_map, hzip]
  rfl

theorem usersOf_share (hshards : userShards.length = shares.length) (hwidths : widths.length = shares.length)
    (hranges : ranges.length = shares.length) :
    (usersOf userShards widths shares ranges).map UserShards.share = shares := by
  have hbare : (usersOf userShards widths shares ranges).map UserShards.share =
      ((usersOf userShards widths shares ranges).map UserShards.bare).map fun b => b.2.2 := by
    rw [List.map_map]
    rfl
  have hsnd : ((userShards.zip (widths.zip shares)).map fun b => b.2.2) =
      ((userShards.zip (widths.zip shares)).map Prod.snd).map Prod.snd := by
    rw [List.map_map]
    rfl
  rw [hbare, usersOf_bare userShards widths hranges, hsnd, List.map_snd_zip (by simp; omega),
    List.map_snd_zip (by omega)]

theorem usersOf_cores {user : UserShards} (h : user ∈ usersOf userShards widths shares ranges) :
    (user.share, user.cores) ∈ shares.zip ranges := by
  obtain ⟨u, hu, rfl⟩ := List.mem_map.mp h
  exact (List.of_mem_zip (List.of_mem_zip hu).2).2

/-- **A chip's plan.** Its entries cover their cores, and those of a role have the shares. -/
theorem planChip_covers (hshards : userShards.length = shares.length) (hwidths : widths.length = shares.length)
    (hranges : ranges.length = shares.length) (hcovers : ∀ p ∈ shares.zip ranges, Covers p.2 p.1) {chip : Nat}
    {planned : List Entry} (h : planChip (usersOf userShards widths shares ranges) chip = .ok planned) :
    (∀ entry ∈ planned, Covers entry.cores entry.points) ∧
      ∀ role, (byRole planned role).flatMap Entry.points = shares.flatten := by
  refine ⟨fun entry hentry => ?_, fun role => ?_⟩
  · obtain ⟨user, huser, hpoints, hcores⟩ := (byRole_outline h .reader).2 entry hentry
    rw [hpoints, hcores]
    exact hcovers _ (usersOf_cores huser)
  · rw [List.flatMap_def, (byRole_outline h role).1, usersOf_share hshards hwidths hranges]

end Users

/-- The descriptors of a chip's plan. -/
def descriptorsOf (coalesce : Bool) (kernels : Role → String) (union : List Rect) (planned : List Entry) :
    List KernelDescriptor × Bool :=
  if coalesce then coalescedDescriptors kernels planned union else (planned.map (describe kernels), false)

/-- A build whose checks pass. -/
theorem buildProgram_eq {coalesce : Bool} {mesh : Mesh} {userShards : List (List (List Tensor))} {widths : List Nat}
    {chips : Nat} {shares : List (List Point)} {ranges : List (List Rect)} {union : List Rect}
    (hlength : userShards.length = widths.length) (hchips : meshChips mesh = .ok chips)
    (hshares : coreShares mesh.x mesh.y widths.length HEADS = .ok shares)
    (hranges : coreRanges coalesce shares = .ok (ranges, union)) (kernels : Role → String) :
    ∃ note : List (List Entry) → Option String, buildProgram coalesce mesh userShards kernels widths =
        ((List.range chips).mapM (planChip (usersOf userShards widths shares ranges))).map fun plans =>
          (plans.map fun planned => ⟨(descriptorsOf coalesce kernels union planned).1, buffers union⟩, note plans) := by
  refine ⟨fun plans => if coalesce then some (if (plans.map (descriptorsOf coalesce kernels union)).all Prod.snd then
    "coalesced" else "coalesce_fallback") else none, ?_⟩
  unfold buildProgram
  rw [raiseIf_bind (not_not.mpr hlength), hchips]
  show (coreShares _ _ _ _ >>= _) = _
  rw [hshares]
  show (coreRanges _ _ >>= _) = _
  rw [hranges]
  show (List.mapM (planChip (usersOf userShards widths shares ranges)) _ >>= _) = _
  cases (List.range chips).mapM (planChip (usersOf userShards widths shares ranges)) with
  | error e => rfl
  | ok plans =>
    show Except.ok (_, _) = Except.ok (_, _)
    rw [List.map_map]
    rfl

/-- The rectangles of disjoint shares cover them. -/
theorem coreRanges_covers {shares : List (List Point)} (hsome : ∀ share ∈ shares, share ≠ []) (hany : shares ≠ [])
    (hnd : shares.flatten.Nodup) (coalesce : Bool) : ∃ ranges union, coreRanges coalesce shares = .ok (ranges, union) ∧
      ranges.length = shares.length ∧ (∀ p ∈ shares.zip ranges, Covers p.2 p.1) ∧ Covers union shares.flatten := by
  cases coalesce with
  | false =>
    refine ⟨_, _, rfl, List.length_map _, fun p hp => ?_, singleCores_covers _⟩
    obtain ⟨u, hu⟩ := List.getElem?_of_mem hp
    obtain ⟨hshare, hrange⟩ := List.getElem?_zip_eq_some.mp hu
    rw [List.getElem?_map, hshare] at hrange
    exact Option.some.inj hrange ▸ singleCores_covers p.1
  | true =>
    have hexact : ∀ share ∈ shares, ∃ merged, rectangles share = .ok merged ∧ Covers merged share := by
      intro share hshare
      obtain ⟨merged, hok, -, hcells⟩ :=
        rectangles_exact (hsome share hshare) ((List.nodup_flatten.mp hnd).1 share hshare)
      exact ⟨merged, hok, hcells⟩
    obtain ⟨ranges, hranges⟩ := mapM_total.mpr fun share hshare => (hexact share hshare).imp fun _ h => h.1
    have hflat : shares.flatten ≠ [] := by
      obtain ⟨share, rest, rfl⟩ := List.exists_cons_of_ne_nil hany
      exact fun hnil => hsome share List.mem_cons_self (List.append_eq_nil_iff.mp hnil).1
    obtain ⟨union, hunion, -, hcells⟩ := rectangles_exact hflat hnd
    obtain ⟨hlength, hget⟩ := mapM_get hranges
    refine ⟨ranges, union, ?_, hlength, fun p hp => ?_, hcells⟩
    · show (shares.mapM rectangles >>= _) = _
      rw [hranges]
      show (rectangles shares.flatten >>= _) = _
      rw [hunion]
      rfl
    · obtain ⟨u, hu⟩ := List.getElem?_of_mem hp
      obtain ⟨hshare, hrange⟩ := List.getElem?_zip_eq_some.mp hu
      obtain ⟨merged, hmerged, hok⟩ := hget u p.1 hshare
      obtain ⟨merged', hok', hcovers⟩ := hexact p.1 (List.mem_of_getElem? hshare)
      obtain rfl := Except.ok.inj (hok.symm.trans hok')
      exact Option.some.inj (hrange.symm.trans hmerged) ▸ hcovers

/-- Two plans that give the cores the same, one coalesced. -/
theorem descriptors_same {planned planned' : List Entry} {union : List Rect} (union' : List Rect) {cores : List Point}
    (hbare : planned.map Entry.bare = planned'.map Entry.bare) (hnd : cores.Nodup) (hunion : Covers union cores)
    (h : (∀ entry ∈ planned, Covers entry.cores entry.points) ∧
      ∀ role, (byRole planned role).flatMap Entry.points = cores)
    (h' : ∀ entry ∈ planned', Covers entry.cores entry.points) (kernels : Role → String) (role : Role) (core : Point) :
    received (descriptorsOf true kernels union planned).1 role core =
        received (descriptorsOf false kernels union' planned').1 role core ∧
      (received (descriptorsOf true kernels union planned).1 role core).length ≤ 1 := by
  have hcoalesced : received (descriptorsOf true kernels union planned).1 role core =
      assigned kernels (planned.map Entry.bare) role core :=
    received_coalesced h.1 (fun role => (h.2 role).symm ▸ hnd) (fun role => (h.2 role).symm ▸ hunion) role core
  have hplain : received (descriptorsOf false kernels union' planned').1 role core =
      assigned kernels (planned'.map Entry.bare) role core := received_planned h' role core
  rw [hcoalesced, hplain, hbare]
  exact ⟨rfl, hbare ▸ assigned_once ((h.2 role).symm ▸ hnd) kernels core⟩

/-- **Launch.** The coalesced build and the per-user one configure every core alike. -/
theorem buildProgram_same (mesh : Mesh) (userShards : List (List (List Tensor))) (kernels : Role → String)
    (widths : List Nat) : SameLaunch (buildProgram true mesh userShards kernels widths)
      (buildProgram false mesh userShards kernels widths) := by
  by_cases hlength : userShards.length = widths.length
  case neg =>
    have hraise : ∀ coalesce, buildProgram coalesce mesh userShards kernels widths =
        .error (.valueError "One token width per packed user required") := fun coalesce => by
      unfold buildProgram raiseIf
      rw [if_pos hlength]
      rfl
    rw [hraise, hraise]
    exact SameLaunch.error _
  cases hchips : meshChips mesh with
  | error e =>
    have hraise : ∀ coalesce, buildProgram coalesce mesh userShards kernels widths = .error e := fun coalesce => by
      unfold buildProgram
      rw [raiseIf_bind (not_not.mpr hlength), hchips]
      rfl
    rw [hraise, hraise]
    exact SameLaunch.error _
  | ok chips =>
    cases hshares : coreShares mesh.x mesh.y widths.length HEADS with
    | error e =>
      have hraise : ∀ coalesce, buildProgram coalesce mesh userShards kernels widths = .error e := fun coalesce => by
        unfold buildProgram
        rw [raiseIf_bind (not_not.mpr hlength), hchips]
        show (coreShares _ _ _ _ >>= _) = _
        rw [hshares]
        rfl
      rw [hraise, hraise]
      exact SameLaunch.error _
    | ok shares =>
      obtain ⟨hcount, hsize, hsome, hnd, -⟩ := coreShares_exact hshares
      have hnonempty : ∀ share ∈ shares, share ≠ [] := by
        rintro share hshare rfl
        exact absurd (hsize [] hshare) (by decide)
      have hany : shares ≠ [] := by
        rintro rfl
        exact absurd hcount (by simp only [List.length_nil]; omega)
      obtain ⟨ranges, union, hranges, hrlength, hcovers, hunion⟩ := coreRanges_covers hnonempty hany hnd true
      obtain ⟨ranges', union', hranges', hrlength', hcovers', -⟩ := coreRanges_covers hnonempty hany hnd false
      obtain ⟨note, hbuild⟩ := buildProgram_eq hlength hchips hshares hranges kernels
      obtain ⟨note', hbuild'⟩ := buildProgram_eq hlength hchips hshares hranges' kernels
      have hwidths : widths.length = shares.length := by omega
      have hplans := mapM_map_congr (List.range chips) (planChip_bare
        ((usersOf_bare userShards widths hrlength).trans (usersOf_bare userShards widths hrlength').symm))
      rw [hbuild, hbuild']
      cases hplanned : (List.range chips).mapM (planChip (usersOf userShards widths shares ranges)) with
      | error e =>
        cases hplanned' : (List.range chips).mapM (planChip (usersOf userShards widths shares ranges')) with
        | error e' =>
          rw [hplanned, hplanned'] at hplans
          cases hplans
          exact SameLaunch.error _
        | ok plans' => rw [hplanned, hplanned'] at hplans; cases hplans
      | ok plans =>
        cases hplanned' : (List.range chips).mapM (planChip (usersOf userShards widths shares ranges')) with
        | error e' => rw [hplanned, hplanned'] at hplans; cases hplans
        | ok plans' =>
          rw [hplanned, hplanned'] at hplans
          have hbare : plans.map (List.map Entry.bare) = plans'.map (List.map Entry.bare) := Except.ok.inj hplans
          refine ⟨fun e => ⟨fun h => (by cases h), fun h => (by cases h)⟩, ?_⟩
          rintro programs note programs' note' hok hok'
          cases hok
          cases hok'
          refine ⟨?_, fun chip p q hp hq role core => ?_⟩
          · rw [List.length_map, List.length_map, ← List.length_map (f := List.map Entry.bare), hbare, List.length_map]
          · rw [List.getElem?_map] at hp hq
            obtain ⟨planned, hget, rfl⟩ := Option.map_eq_some_iff.mp hp
            obtain ⟨planned', hget', rfl⟩ := Option.map_eq_some_iff.mp hq
            obtain ⟨_, -, hplan⟩ := (mem_mapM hplanned).mp (List.mem_of_getElem? hget)
            obtain ⟨_, -, hplan'⟩ := (mem_mapM hplanned').mp (List.mem_of_getElem? hget')
            have hsame : planned.map Entry.bare = planned'.map Entry.bare := by
              have hat := congrArg (·[chip]?) hbare
              simp only [List.getElem?_map, hget, hget', Option.map_some, Option.some.injEq] at hat
              exact hat
            exact descriptors_same union' hsame hnd hunion
              (planChip_covers (hlength.trans hwidths) hwidths hrlength hcovers hplan)
              (planChip_covers (hlength.trans hwidths) hwidths hrlength' hcovers' hplan').1 kernels role core

/-- **Main result.** The shares of admitted users are disjoint, of the requested size and inside the grid; distinct
points are covered exactly by disjoint rectangles; and the coalesced launch gives every core what the per-user one
gives it. -/
theorem coalesced_launch :
    (∀ (horizontal vertical users workers : Int) (shares : List (List Point)),
      coreShares horizontal vertical users workers = .ok shares →
        (shares.length : Int) = users ∧ shares.Pairwise (fun s t => ∀ p ∈ s, p ∉ t) ∧ ∀ share ∈ shares,
          (share.length : Int) = workers ∧ share.Nodup ∧
            ∀ p ∈ share, (0 ≤ p.1 ∧ p.1 < horizontal) ∧ 0 ≤ p.2 ∧ p.2 < vertical) ∧
    (∀ points : List Point, points ≠ [] → points.Nodup → ∃ merged, rectangles points = .ok merged ∧
      merged.Pairwise (fun r s => ∀ p ∈ r.cells, p ∉ s.cells) ∧ ∀ p, (∃ r ∈ merged, p ∈ r.cells) ↔ p ∈ points) ∧
    ∀ (mesh : Mesh) (userShards : List (List (List Tensor))) (kernels : Role → String) (widths : List Nat),
      SameLaunch (buildProgram true mesh userShards kernels widths)
        (buildProgram false mesh userShards kernels widths) := by
  refine ⟨fun horizontal vertical users workers shares h => ?_, fun points => rectangles_exact, buildProgram_same⟩
  obtain ⟨hcount, hsize, -, hnd, hinside⟩ := coreShares_exact h
  obtain ⟨hown, hdisjoint⟩ := List.nodup_flatten.mp hnd
  exact ⟨hcount, hdisjoint.imp fun hd p hs ht => hd hs ht, fun share hshare =>
    ⟨hsize share hshare, hown share hshare, hinside share hshare⟩⟩

/-- The tensors of a user on one chip: its own buffers, and the norm weight that the users share. -/
def sampleTensors (user : Nat) : List (List Tensor) :=
  (List.range 8).map fun index => [⟨if index = 7 then 7 else 100 * user + index, [index]⟩]

def sampleKernels : Role → String
  | .reader => "reader"
  | .writer => "writer"
  | .compute => "compute"

/-- The build of two users with these widths. -/
def sampleBuild (coalesce : Bool) (widths : List Nat) : Except PyError (List ProgramDescriptor × Option String) :=
  buildProgram coalesce ⟨[1, 1], 11, 10⟩ [sampleTensors 1, sampleTensors 2] sampleKernels widths

/-- Two users of one width are coalesced into a kernel of each role, two of different widths are not; either way every
core gets what the per-user build gives it. -/
theorem coalesced_launch_sample :
    ((sampleBuild true [3, 3]).toOption.map fun build => (build.1.map fun p => p.kernels.length, build.2)) =
        some ([3], some "coalesced") ∧
      ((sampleBuild true [3, 2]).toOption.map fun build => (build.1.map fun p => p.kernels.length, build.2)) =
        some ([6], some "coalesce_fallback") ∧
      ((sampleBuild true [3, 3]).toOption.map fun build =>
        build.1.map fun p => (received p.kernels .writer (2, 4)).length) = some [1] ∧
      (∀ widths, SameLaunch (sampleBuild true widths) (sampleBuild false widths)) ∧
      ∃ shares, coreShares 11 10 4 24 = .ok shares ∧ shares.Pairwise fun s t => ∀ p ∈ s, p ∉ t :=
  ⟨by decide +kernel, by decide +kernel, by decide +kernel, fun widths => coalesced_launch.2.2 _ _ _ widths,
    _, rfl, (coalesced_launch.1 11 10 4 24 _ rfl).2.1⟩

/-- The empty set of cores is refused. -/
theorem no_cores_refused : ¬∀ points : List Point, points.Nodup → ∃ merged, rectangles points = .ok merged := by
  intro h
  obtain ⟨merged, hok⟩ := h [] List.nodup_nil
  cases hok

end BlackholeQwen.Gdn
