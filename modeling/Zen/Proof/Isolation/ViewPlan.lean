import Zen.Spec.ViewPlan

/-!
# The view plan touches nothing outside its root

Every directory on the way to a bound path is made first, so the plan stays inside exactly when these
paths do.
-/

namespace Zen.Isolation
open Lib

/-! ## Paths -/

theorem descend_append (depth : Nat) (xs ys : List ByteString) :
    descend depth (xs ++ ys) = (descend depth xs).bind fun depth' => descend depth' ys := by
  induction xs generalizing depth with
  | nil => rfl
  | cons segment xs ih =>
      rw [List.cons_append, descend.eq_def, descend.eq_def depth (segment :: xs)]
      simp only
      split
      · exact ih depth
      · split
        · cases depth with
          | zero => rfl
          | succ depth => exact ih depth
        · exact ih (depth + 1)

theorem Stays.up {path rest : ByteString} (stays : Stays (path ++ slash :: rest)) : Stays path := by
  unfold Stays at stays ⊢
  rw [List.splitOn_eq_splitOnP, List.splitOnP_append_cons _ _ (by decide), descend_append] at stays
  exact Option.isSome_of_isSome_bind stays

theorem Ancestor.inside {above path : ByteString} (lower : Ancestor above path) (proper : above ≠ [])
    (inside : AbsoluteInside path) : AbsoluteInside above := by
  obtain rfl | ⟨below, rfl⟩ := lower
  · exact inside
  · obtain ⟨rest, same, stays⟩ := inside
    cases above with
    | nil => exact absurd rfl proper
    | cons c above =>
        obtain ⟨rfl, rfl⟩ := List.cons.inj same
        exact ⟨above, rfl, stays.up⟩

theorem within_iff {root path : ByteString} (proper : path ≠ []) : Within root (root ++ path) ↔ AbsoluteInside path := by
  constructor
  · rintro (same | ⟨rest, same, stays⟩)
    · exact absurd (List.append_right_eq_self.mp same) proper
    · exact ⟨rest, List.append_cancel_left same, stays⟩
  · rintro ⟨rest, rfl, stays⟩
    exact .inr ⟨rest, rfl, stays⟩

theorem dirnameOf_ne_nil (path : ByteString) : dirnameOf path ≠ [] := by
  unfold dirnameOf
  split
  · decide
  · decide
  · rename_i front longer _
    intro empty
    exact longer (List.reverse_eq_nil_iff.mp empty)

/-! ## Directories -/

theorem mem_mkdirPOps {root abs : ByteString} {op : MountOp} :
    op ∈ mkdirPOps root abs ↔ ∃ path, path ≠ [] ∧ Ancestor path abs ∧ op = { kind := .mkdir, a := root ++ path } := by
  simp only [mkdirPOps, List.mem_map, List.mem_filter, List.mem_range, Bool.or_eq_true, beq_iff_eq]
  constructor
  · rintro ⟨i, ⟨bound, ends⟩, rfl⟩
    refine ⟨abs.take (i + 1), ?_, ?_, rfl⟩
    · intro empty
      rw [List.take_eq_nil_iff] at empty
      grind
    · obtain whole | cut := ends
      · exact .inl (List.take_of_length_le (by omega))
      · obtain ⟨there, value⟩ := List.getElem?_eq_some_iff.mp cut
        refine .inr ⟨abs.drop (i + 2), ?_⟩
        rw [← value, ← List.drop_eq_getElem_cons there, List.take_append_drop]
  · rintro ⟨path, proper, lower, rfl⟩
    have size : path.length - 1 + 1 = path.length := Nat.sub_add_cancel (List.length_pos_iff.mpr proper)
    obtain rfl | ⟨rest, rfl⟩ := lower
    · exact ⟨path.length - 1, ⟨by omega, .inl size⟩, by rw [size, List.take_length]⟩
    · refine ⟨path.length - 1, ⟨by simp; omega, .inr ?_⟩, ?_⟩
      · rw [size, List.getElem?_append_right (Nat.le_refl _), Nat.sub_self]
        rfl
      · rw [size, List.take_left']
        rfl

/-! ## The parts of the plan -/

def viewOpening (root : ByteString) : MountPlan :=
  [{ kind := .makeRPrivate },
    { kind := .mount, a := "tmpfs", b := root, fstype := "tmpfs" },
    { kind := .mkdir, a := root ++ ascii "/oldroot" }]

/-- The directories of the host that the view shows. -/
def boundDirs (isDir : ByteString → Bool) (level : FsAccess) (scopedPath exePath soPath : ByteString) :
    List ByteString :=
  loaderDirs.filter isDir ++ [dirnameOf exePath] ++
    (if soUnderExe (dirnameOf exePath) (dirnameOf soPath) then [] else [dirnameOf soPath]) ++
    if level = .readOnly ∧ scopedPath ≠ [] then [scopedPath] else []

def viewScratch (level : FsAccess) (root : ByteString) : MountPlan :=
  if level = .writeScoped ∨ level = .writeNoExec then
    [{ kind := .mkdir, a := root ++ ascii "/scratch" },
      { kind := .mount, a := "tmpfs", b := root ++ ascii "/scratch", fstype := "tmpfs"
        flags := if level = .writeNoExec then MS_NOEXEC else 0 }]
  else []

def viewRemount (root : ByteString) : MountOp := { kind := .mount, a := root, b := root, flags := MS_REMOUNT ||| MS_RDONLY }

section Plan
variable (isDir : ByteString → Bool) (level : FsAccess) (scopedPath exePath soPath root : ByteString)

def viewBody : MountPlan :=
  viewOpening root ++ (boundDirs isDir level scopedPath exePath soPath).flatMap (bindRoOps root) ++
    viewScratch level root ++ [viewRemount root]

theorem bindRoOps_kind {src : ByteString} {op : MountOp} (h : op ∈ bindRoOps root src) : op.kind ≠ .pivotRoot := by
  simp only [bindRoOps, List.mem_append, mem_mkdirPOps, List.mem_cons, List.not_mem_nil, or_false] at h
  obtain ⟨path, -, -, rfl⟩ | rfl | rfl := h <;> nofun

theorem beforePivot_buildViewPlan :
    beforePivot (buildViewPlan isDir level scopedPath exePath soPath root) =
      viewBody isDir level scopedPath exePath soPath root := by
  have parts : buildViewPlan isDir level scopedPath exePath soPath root =
      viewBody isDir level scopedPath exePath soPath root ++
        { kind := .pivotRoot, a := root, b := root ++ ascii "/oldroot" } ::
          [{ kind := .chdir, a := "/" }, { kind := .umount, a := "/oldroot", flags := MNT_DETACH }] := by
    have so : (if dirnameOf soPath ≠ [] ∧ !soUnderExe (dirnameOf exePath) (dirnameOf soPath) then
        bindRoOps root (dirnameOf soPath) else []) =
        (if soUnderExe (dirnameOf exePath) (dirnameOf soPath) then [] else [dirnameOf soPath]).flatMap
          (bindRoOps root) := by
      cases soUnderExe (dirnameOf exePath) (dirnameOf soPath) <;> simp [dirnameOf_ne_nil]
    have granted : (if level = .readOnly ∧ scopedPath ≠ [] then bindRoOps root scopedPath else []) =
        (if level = .readOnly ∧ scopedPath ≠ [] then [scopedPath] else []).flatMap (bindRoOps root) := by
      split <;> simp
    simp only [buildViewPlan, viewBody, boundDirs, so, granted, List.flatMap_append, List.append_assoc]
    simp [viewOpening, viewScratch, viewRemount]
  have early : ∀ op ∈ viewBody isDir level scopedPath exePath soPath root, op.kind ≠ .pivotRoot := by
    intro op member
    simp only [viewBody, List.mem_append, List.mem_flatMap, List.mem_singleton] at member
    obtain ((opening | ⟨dir, -, bound⟩) | scratch) | rfl := member
    · simp only [viewOpening, List.mem_cons, List.not_mem_nil, or_false] at opening
      obtain rfl | rfl | rfl := opening <;> nofun
    · exact bindRoOps_kind _ bound
    · unfold viewScratch at scratch
      split at scratch
      · simp only [List.mem_cons, List.not_mem_nil, or_false] at scratch
        obtain rfl | rfl := scratch <;> nofun
      · cases scratch
    · nofun
  rw [beforePivot, parts, List.takeWhile_append_of_pos fun op member => bne_iff_ne.mpr (early op member)]
  exact List.append_nil _

end Plan

/-! ## Each bind by itself -/

theorem root_within (root : ByteString) : Within root root := .inl rfl

theorem ancestor_below {root path below : ByteString} (lower : Ancestor below (root ++ path))
    (longer : root.length < below.length) : ∃ above, above ≠ [] ∧ Ancestor above path ∧ below = root ++ above := by
  have front : root <+: below := by
    have whole : below <+: root ++ path := by
      obtain rfl | ⟨rest, same⟩ := lower
      · exact List.prefix_refl _
      · exact ⟨slash :: rest, same.symm⟩
    exact List.prefix_of_prefix_length_le (List.prefix_append root path) whole (Nat.le_of_lt longer)
  obtain ⟨above, rfl⟩ := front
  have proper : above ≠ [] := by
    rintro rfl
    simp at longer
  refine ⟨above, proper, ?_, rfl⟩
  obtain same | ⟨rest, same⟩ := lower
  · exact .inl (List.append_cancel_left same)
  · exact .inr ⟨rest, List.append_cancel_left (same.trans (List.append_assoc _ _ _))⟩

theorem bindRoOps_inside {root src : ByteString} (proper : src ≠ []) :
    (∀ op ∈ bindRoOps root src, ∀ path ∈ op.target?, Within root path) ↔ AbsoluteInside src := by
  constructor
  · intro within
    have member : { kind := .setattrRecRO, b := root ++ src } ∈ bindRoOps root src := by simp [bindRoOps]
    exact (within_iff proper).mp (within _ member _ rfl)
  · intro inside op member path target
    simp only [bindRoOps, List.mem_append, mem_mkdirPOps, List.mem_cons, List.not_mem_nil, or_false] at member
    obtain ⟨above, proper', lower, rfl⟩ | rfl | rfl := member
    all_goals obtain rfl := Option.some.inj target
    · exact (within_iff proper').mpr (lower.inside proper' inside)
    · exact (within_iff proper).mpr inside
    · exact (within_iff proper).mpr inside

theorem hasMountpoint_other {root : ByteString} {before after : MountPlan} {op : MountOp} (other : op.kind ≠ .mount) :
    MountOp.HasMountpoint root before op after := fun mount => absurd mount other

theorem sealedLater_other {before after : MountPlan} {op : MountOp} (other : ¬ op.binds) :
    MountOp.SealedLater before op after := fun binds => absurd binds other

theorem mkdirPOps_kind {root src : ByteString} {op : MountOp} (h : op ∈ mkdirPOps root src) : op.kind ≠ .mount := by
  obtain ⟨path, -, -, rfl⟩ := mem_mkdirPOps.mp h
  nofun

theorem bindRoOps_made (root src : ByteString) : Everywhere (MountOp.HasMountpoint root) (bindRoOps root src) := by
  refine .append (.of_forall fun op member before after => hasMountpoint_other (mkdirPOps_kind member)) ?_
  refine .cons ?_ (.cons nofun .nil)
  intro _ _ below lower longer
  obtain ⟨above, proper, lower', rfl⟩ := ancestor_below lower longer
  exact List.mem_append_left _ (mem_mkdirPOps.mpr ⟨above, proper, lower', rfl⟩)

theorem bindRoOps_readOnly (root src : ByteString) : Everywhere MountOp.SealedLater (bindRoOps root src) := by
  refine .append (.of_forall fun op member before after => sealedLater_other fun binds => mkdirPOps_kind member binds.1) ?_
  exact .cons (fun _ => List.mem_singleton_self _) (.cons (fun binds => nomatch binds.1) .nil)

/-! ## The whole plan -/

theorem hasMountpoint_grow {root : ByteString} (before : MountPlan) (op : MountOp) (after earlier later : MountPlan)
    (h : MountOp.HasMountpoint root before op after) : MountOp.HasMountpoint root (earlier ++ before) op (after ++ later) :=
  fun mount other path lower longer => List.mem_append_right _ (h mount other path lower longer)

theorem sealedLater_grow (before : MountPlan) (op : MountOp) (after earlier later : MountPlan)
    (h : MountOp.SealedLater before op after) : MountOp.SealedLater (earlier ++ before) op (after ++ later) :=
  fun binds => List.mem_append_left _ (h binds)

theorem viewBody_everywhere {P : MountPlan → MountOp → MountPlan → Prop}
    (grow : ∀ before op after earlier later, P before op after → P (earlier ++ before) op (after ++ later))
    {isDir : ByteString → Bool} {level : FsAccess} {scopedPath exePath soPath root : ByteString}
    (opening : Everywhere P (viewOpening root)) (bind : ∀ src, Everywhere P (bindRoOps root src))
    (scratch : Everywhere P (viewScratch level root)) (remount : P [] (viewRemount root) []) :
    Everywhere P (viewBody isDir level scopedPath exePath soPath root) := by
  have binds : ∀ dirs : List ByteString, Everywhere P (dirs.flatMap (bindRoOps root)) := by
    intro dirs
    induction dirs with
    | nil => exact .nil
    | cons dir dirs ih => exact Everywhere.join grow (bind dir) ih
  exact .join grow (.join grow (.join grow opening (binds _)) scratch) (.cons remount .nil)

section Body
variable (isDir : ByteString → Bool) (level : FsAccess) (scopedPath exePath soPath root : ByteString)

theorem viewBody_made :
    Everywhere (MountOp.HasMountpoint root) (viewBody isDir level scopedPath exePath soPath root) := by
  refine viewBody_everywhere hasMountpoint_grow ?_ (bindRoOps_made root) ?_ ?_
  · exact .cons (hasMountpoint_other nofun)
      (.cons (fun _ other => absurd rfl other) (.cons (hasMountpoint_other nofun) .nil))
  · unfold viewScratch
    split
    · refine .cons (hasMountpoint_other nofun) (.cons ?_ .nil)
      intro _ _ below lower longer
      obtain ⟨above, proper, lower', rfl⟩ := ancestor_below lower longer
      obtain rfl | ⟨rest, same⟩ := lower'
      · exact List.mem_singleton_self _
      · -- the only slash of "/scratch" is its first byte
        have later : slash ∉ (ascii "/scratch").tail := by decide
        cases above with
        | nil => exact absurd rfl proper
        | cons c above =>
            rw [same] at later
            exact absurd (by simp) later
    · exact .nil
  · exact fun _ other => absurd rfl other

theorem viewBody_readOnly : Everywhere MountOp.SealedLater (viewBody isDir level scopedPath exePath soPath root) := by
  have plain : (0 : UInt64) &&& MS_BIND = 0 := by decide
  have noExec : MS_NOEXEC &&& MS_BIND = 0 := by decide
  have remount : (MS_REMOUNT ||| MS_RDONLY) &&& MS_BIND = 0 := by decide
  refine viewBody_everywhere sealedLater_grow ?_ (bindRoOps_readOnly root) ?_ ?_
  · exact .cons (sealedLater_other fun binds => nomatch binds.1)
      (.cons (sealedLater_other fun binds => binds.2 plain) (.cons (sealedLater_other fun binds => nomatch binds.1) .nil))
  · unfold viewScratch
    split
    · refine .cons (sealedLater_other fun binds => nomatch binds.1) (.cons (sealedLater_other fun binds => ?_) .nil)
      apply binds.2
      simp only
      split
      · exact noExec
      · exact plain
    · exact .nil
  · exact sealedLater_other fun binds => binds.2 remount

theorem boundDirs_ne_nil {dir : ByteString} (member : dir ∈ boundDirs isDir level scopedPath exePath soPath) :
    dir ≠ [] := by
  simp only [boundDirs, List.mem_append, List.mem_filter, List.mem_singleton] at member
  obtain ((⟨loader, -⟩ | rfl) | so) | granted := member
  · revert dir
    unfold loaderDirs
    decide
  · exact dirnameOf_ne_nil exePath
  · split at so
    · cases so
    · obtain rfl := List.mem_singleton.mp so
      exact dirnameOf_ne_nil soPath
  · split at granted
    · rename_i granted'
      obtain rfl := List.mem_singleton.mp granted
      exact granted'.2
    · cases granted

theorem viewBody_inside :
    (∀ op ∈ viewBody isDir level scopedPath exePath soPath root, ∀ path ∈ op.target?, Within root path) ↔
      ∀ dir ∈ boundDirs isDir level scopedPath exePath soPath, AbsoluteInside dir := by
  have child : ∀ name, AbsoluteInside name → Within root (root ++ name) := by
    rintro name ⟨rest, rfl, stays⟩
    exact .inr ⟨rest, rfl, stays⟩
  constructor
  · intro within dir member
    apply (bindRoOps_inside (boundDirs_ne_nil _ _ _ _ _ member)).mp
    intro op bound
    exact within op (by
      simp only [viewBody, List.mem_append, List.mem_flatMap]
      exact .inl (.inl (.inr ⟨dir, member, bound⟩)))
  · intro inside op member path target
    simp only [viewBody, List.mem_append, List.mem_flatMap, List.mem_singleton] at member
    obtain ((opening | ⟨dir, member, bound⟩) | scratch) | rfl := member
    · simp only [viewOpening, List.mem_cons, List.not_mem_nil, or_false] at opening
      obtain rfl | rfl | rfl := opening
      · cases target
      · obtain rfl := Option.some.inj target
        exact root_within root
      · obtain rfl := Option.some.inj target
        exact child _ ⟨_, rfl, by unfold Stays; decide⟩
    · exact (bindRoOps_inside (boundDirs_ne_nil _ _ _ _ _ member)).mpr (inside dir member) op bound path target
    · unfold viewScratch at scratch
      split at scratch
      · simp only [List.mem_cons, List.not_mem_nil, or_false] at scratch
        obtain rfl | rfl := scratch
        all_goals
          obtain rfl := Option.some.inj target
          exact child _ ⟨_, rfl, by unfold Stays; decide⟩
      · cases scratch
    · obtain rfl := Option.some.inj target
      exact root_within root

theorem loaderDirs_inside {dir : ByteString} (member : dir ∈ loaderDirs) : AbsoluteInside dir := by
  simp only [loaderDirs, List.mem_cons, List.not_mem_nil, or_false] at member
  obtain rfl | rfl | rfl | rfl | rfl := member
  all_goals exact ⟨_, rfl, by unfold Stays; decide⟩

theorem boundDirs_inside :
    (∀ dir ∈ boundDirs isDir level scopedPath exePath soPath, AbsoluteInside dir) ↔
      ViewPaths level scopedPath exePath soPath := by
  simp only [boundDirs, List.mem_append, List.mem_filter, List.mem_singleton]
  constructor
  · intro inside
    refine ⟨inside _ (.inl (.inl (.inr rfl))), ?_, fun readOnly granted => ?_⟩
    · by_cases under : soUnderExe (dirnameOf exePath) (dirnameOf soPath)
      · exact .inl under
      · exact .inr (inside _ (.inl (.inr (by rw [if_neg under]; exact List.mem_singleton_self _))))
    · exact inside _ (.inr (by rw [if_pos ⟨readOnly, granted⟩]; exact List.mem_singleton_self _))
  · rintro paths dir (((⟨loader, -⟩ | rfl) | so) | granted)
    · exact loaderDirs_inside loader
    · exact paths.exe
    · split at so
      · cases so
      · rename_i elsewhere
        obtain rfl := List.mem_singleton.mp so
        exact paths.so.resolve_left elsewhere
    · split at granted
      · rename_i shown
        obtain rfl := List.mem_singleton.mp granted
        exact paths.granted shown.1 shown.2
      · cases granted

/-- The plan stays inside its root, with mountpoints made and binds sealed, exactly for such paths. -/
theorem view_plan_contained : Contained root (buildViewPlan isDir level scopedPath exePath soPath root) ↔
    ViewPaths level scopedPath exePath soPath := by
  rw [← boundDirs_inside isDir, ← viewBody_inside isDir level scopedPath exePath soPath root]
  constructor
  · intro contained
    rw [← beforePivot_buildViewPlan]
    exact contained.inside
  · intro inside
    refine ⟨?_, ?_, ?_⟩
    · rw [beforePivot_buildViewPlan]
      exact inside
    · rw [beforePivot_buildViewPlan]
      exact viewBody_made isDir level scopedPath exePath soPath root
    · rw [beforePivot_buildViewPlan]
      exact viewBody_readOnly isDir level scopedPath exePath soPath root

end Body

/-- A relative path of the host's executable is bound next to the root. -/
theorem relative_exe_escapes : ¬ Contained "/tmp/zen-sb-abc123"
    (buildViewPlan (fun _ => true) .none [] "build/zen-shard-host" "/opt/shards/counter.so" "/tmp/zen-sb-abc123") := by
  intro contained
  have inside := contained.inside
  rw [beforePivot_buildViewPlan, viewBody_inside, boundDirs_inside] at inside
  obtain ⟨rest, same, -⟩ := inside.exe
  cases same

/-! ## Running the plan -/

theorem runMountPlan_planned (takes : MountOp → Bool) (plan : MountPlan) :
    ∀ op ∈ beforePivot (runMountPlan takes plan).1, op ∈ beforePivot plan := by
  induction plan with
  | nil => exact fun op made => made
  | cons first plan ih =>
      intro op made
      rw [runMountPlan] at made
      split at made
      · by_cases early : (first.kind != .pivotRoot) = true
        · simp only [beforePivot, List.takeWhile_cons, early, if_true] at made ⊢
          obtain rfl | later := List.mem_cons.mp made
          · exact List.mem_cons_self
          · exact List.mem_cons_of_mem _ (ih op later)
        · simp only [beforePivot, List.takeWhile_cons, early] at made
          cases made
      · cases made

/-- Whatever call fails, the calls made before the pivot have stayed inside. -/
theorem run_inside (takes : MountOp → Bool) {isDir : ByteString → Bool} {level : FsAccess}
    {scopedPath exePath soPath root : ByteString} (paths : ViewPaths level scopedPath exePath soPath) :
    ∀ op ∈ beforePivot (runMountPlan takes (buildViewPlan isDir level scopedPath exePath soPath root)).1,
      ∀ path ∈ op.target?, Within root path := by
  intro op made path target
  have planned := runMountPlan_planned _ _ op made
  rw [beforePivot_buildViewPlan] at planned
  exact (viewBody_inside isDir level scopedPath exePath soPath root).mpr ((boundDirs_inside _ _ _ _ _).mpr paths)
    op planned path target

end Zen.Isolation
