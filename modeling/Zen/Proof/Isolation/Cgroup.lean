import Zen.Proof.Core.CompatTexts
import Zen.Spec.Cgroup

/-!
# Confirmed limits

The confirmation finds the leaf's name anywhere in the text of /proc, and reads back the limits of the
delegated controllers only.
-/

namespace Zen.Isolation
open Proof JsonReader Spec.Json

/-! ## Reading a limit -/

theorem withSign_decimal (n : Nat) :
    withSign false (decimal n ++ [0x0A]) = if n < 2 ^ 63 then (n : Int) else -2 := by
  obtain ⟨ds, spelled, value⟩ := decimal_digits n
  have digits : (decimal n ++ [0x0A]).takeWhile isDigit = ds.spell := by
    have all : ∀ c ∈ (ds.first :: ds.rest).map digit, isDigit c = true := by
      intro c hc
      obtain ⟨d, -, rfl⟩ := List.mem_map.mp hc
      exact digit_isDigit d
    rw [spelled]
    exact (List.takeWhile_append_of_pos all).trans (List.append_nil _)
  rw [withSign, digits, digitsValue_spell, value]
  rfl

theorem digit_plain (d : Digit) :
    isSpace (digit d) = false ∧ digit d ≠ 0x2D ∧ digit d ≠ 0x2B := by
  revert d
  decide

theorem parseLl_value (n : Nat) : parseLl (Limit.value n).text = if n < 2 ^ 63 then (n : Int) else -2 := by
  obtain ⟨ds, spelled, -⟩ := decimal_digits n
  obtain ⟨visible, unsigned, unsigned'⟩ := digit_plain ds.first
  have front : (decimal n ++ [0x0A]).dropWhile isSpace = decimal n ++ [0x0A] := by
    rw [spelled]
    exact List.dropWhile_cons_of_neg (by simp [visible])
  rw [parseLl, Limit.text, front, ← withSign_decimal, spelled]
  simp only [Digits.spell, List.cons_append]
  split
  · rename_i same
    exact absurd (List.cons.inj same).1 unsigned
  · rename_i same
    exact absurd (List.cons.inj same).1 unsigned'
  · rfl

theorem limit_reads {l : Limit} {c : Int} (least : 0 ≤ c) (read : parseLl l.text = c) :
    l = .value c.toNat := by
  cases l with
  | max =>
      have unlimited : parseLl Limit.max.text = -2 := by decide
      rw [unlimited] at read
      omega
  | value n =>
      rw [parseLl_value] at read
      split at read
      · rw [← read, Int.toNat_natCast]
      · omega

theorem limit_reads_back {c : Int64} (least : 0 ≤ c) : parseLl (Limit.value c.toInt.toNat).text = c.toInt := by
  have least : 0 ≤ c.toInt := Int64.le_iff_toInt_le.mp least
  have most : c.toInt < 2 ^ 63 := Int64.toInt_lt c
  rw [parseLl_value, if_pos (by omega), Int.toNat_of_nonneg least]

/-! ## Confirmation -/

theorem confirm_iff (b : CgroupBase) (files : Files) (name : ByteString) (pid : Pid) (caps : ResourceCaps) :
    cgroupConfirm b files name pid caps = true ↔
      b.base ≠ [] ∧ Mentions name (readText files (procCgroup pid)) ∧
      (b.memory = true → 0 ≤ caps.memoryMax →
        parseLl (readText files (leafPath b name ++ ascii "/memory.max")) = caps.memoryMax.toInt) ∧
      (b.pids = true → 0 ≤ caps.pidsMax →
        parseLl (readText files (leafPath b name ++ ascii "/pids.max")) = caps.pidsMax.toInt) ∧
      (b.cpu = true → 0 < caps.cpuWeight →
        parseLl (readText files (leafPath b name ++ ascii "/cpu.weight")) = caps.cpuWeight.toInt) := by
  simp only [cgroupConfirm, Mentions]
  split
  · rename_i none
    simp [List.isEmpty_iff.mp none]
  · rename_i based
    split
    · rename_i elsewhere
      simp [elsewhere]
    · rename_i mentioned
      simp only [not_not] at mentioned
      simp only [mentioned, List.isEmpty_iff.not.mp based, ne_eq, not_false_eq_true, true_and]
      grind

theorem confirmed_limits {b : CgroupBase} {fs : CgroupFiles} {name : ByteString} {pid : Pid} {caps : ResourceCaps}
    (memory : 0 ≤ caps.memoryMax) (pids : 0 ≤ caps.pidsMax) (h : cgroupConfirm b fs.files name pid caps = true) :
    (b.memory = true → fs.limit (leafPath b name ++ ascii "/memory.max") caps.memoryMax.toInt) ∧
      (b.pids = true → fs.limit (leafPath b name ++ ascii "/pids.max") caps.pidsMax.toInt) := by
  obtain ⟨-, -, readMemory, readPids, -⟩ := (confirm_iff _ _ _ _ _).mp h
  have holds : ∀ file ∈ [ascii "/memory.max", ascii "/pids.max"], ∀ c : Int, 0 ≤ c →
      parseLl (readText fs.files (leafPath b name ++ file)) = c → fs.limit (leafPath b name ++ file) c := by
    intro file known c least read
    cases found : fs.files (leafPath b name ++ file) with
    | none =>
        have missing : parseLl [] = -2 := by decide
        rw [readText, found, Option.getD_none, missing] at read
        omega
    | some text =>
        obtain ⟨l, rfl⟩ := fs.limits _ _ known _ found
        rw [readText, found, Option.getD_some] at read
        rw [CgroupFiles.limit, found, limit_reads least read]
  exact ⟨fun delegated => holds _ (by simp) _ (Int64.le_iff_toInt_le.mp memory) (readMemory delegated memory),
    fun delegated => holds _ (by simp) _ (Int64.le_iff_toInt_le.mp pids) (readPids delegated pids)⟩

theorem caps_resolved (ram : Int64) (limits : ResourceLimits) :
    0 ≤ (capsFor (cgroupDefaultCaps ram) limits).memoryMax ∧
      0 ≤ (capsFor (cgroupDefaultCaps ram) limits).pidsMax := by
  have positive : ∀ {c d : Int64}, 0 ≤ d → 0 ≤ if 0 < c then c else d := by
    intro c d least
    split
    · exact Int64.le_of_lt ‹_›
    · exact least
  refine ⟨positive ?_, positive (show (0 : Int64) ≤ 512 by decide)⟩
  simp only [cgroupDefaultCaps]
  generalize (if 0 < ram then ram / 8 else 512 * 1024 * 1024 : Int64) = mem
  split
  · decide
  · split
    · decide
    · rename_i least
      simp only [Int64.not_lt, Int64.le_iff_toInt_le] at least ⊢
      exact Int.le_trans (by decide) least

/-! ## Files that hold what is read back and no more -/

theorem base_mounted {a : BaseAnswers} (based : (cgroupBase a).base ≠ []) :
    ∃ rel, (cgroupBase a).base = mountPoint ++ rel := by
  unfold cgroupBase at based ⊢
  simp only at based ⊢
  split at based
  · exact absurd rfl based
  · rename_i delegated
    rw [if_neg delegated]
    cases written : a.enabled with
    | none => simp [written] at based
    | some enabled => exact ⟨_, rfl⟩

section Readback
variable (b : CgroupBase) (name : ByteString) (pid : Pid) (text : ByteString) (caps : ResourceCaps)

def readbackFiles : Files := fun path =>
  if path = procCgroup pid then some text
  else if path = leafPath b name ++ ascii "/memory.max" then
    if b.memory then some (Limit.value caps.memoryMax.toInt.toNat).text else none
  else if path = leafPath b name ++ ascii "/pids.max" then
    if b.pids then some (Limit.value caps.pidsMax.toInt.toNat).text else none
  else if path = leafPath b name ++ ascii "/cpu.weight" then
    some (Limit.value caps.cpuWeight.toInt.toNat).text
  else none

theorem readbackFiles_limits (dir file : ByteString) (known : file ∈ [ascii "/memory.max", ascii "/pids.max"])
    (shown : ByteString) (found : readbackFiles b name pid text caps (dir ++ file) = some shown) :
    ∃ l : Limit, shown = l.text := by
  have last : (dir ++ file).getLast? = some 0x78 := by
    rw [List.getLast?_append]
    simp only [List.mem_cons, List.not_mem_nil, or_false] at known
    obtain rfl | rfl := known <;> rfl
  unfold readbackFiles at found
  split at found
  · rename_i same
    rw [same, procCgroup, List.getLast?_append] at last
    cases last
  all_goals grind

def readback : CgroupFiles := ⟨readbackFiles b name pid text caps, readbackFiles_limits b name pid text caps⟩

theorem readback_text : readText (readback b name pid text caps).files (procCgroup pid) = text := by
  simp [readText, readback, readbackFiles]

variable {b name pid text caps} {rel : ByteString} (mounted : b.base = mountPoint ++ rel)
include mounted

theorem leaf_not_proc (file : ByteString) : leafPath b name ++ file ≠ procCgroup pid := by
  intro same
  have second := congrArg (fun path => path[1]?) same
  simp only [leafPath, mounted, List.append_assoc] at second
  cases second

theorem readback_memory : (readback b name pid text caps).files (leafPath b name ++ ascii "/memory.max") =
    if b.memory then some (Limit.value caps.memoryMax.toInt.toNat).text else none := by
  simp [readback, readbackFiles, leaf_not_proc mounted]

theorem readback_pids : (readback b name pid text caps).files (leafPath b name ++ ascii "/pids.max") =
    if b.pids then some (Limit.value caps.pidsMax.toInt.toNat).text else none := by
  have other : ascii "/pids.max" ≠ ascii "/memory.max" := by decide
  simp [readback, readbackFiles, leaf_not_proc mounted, other]

theorem readback_cpu : (readback b name pid text caps).files (leafPath b name ++ ascii "/cpu.weight") =
    some (Limit.value caps.cpuWeight.toInt.toNat).text := by
  have other : ascii "/cpu.weight" ≠ ascii "/memory.max" := by decide
  have other' : ascii "/cpu.weight" ≠ ascii "/pids.max" := by decide
  simp [readback, readbackFiles, leaf_not_proc mounted, other, other']

theorem readback_confirms (mentioned : Mentions name text) :
    cgroupConfirm b (readback b name pid text caps).files name pid caps = true := by
  refine (confirm_iff _ _ _ _ _).mpr ⟨?_, ?_, ?_, ?_, ?_⟩
  · rw [mounted]
    exact List.cons_ne_nil _ _
  · rw [readback_text]
    exact mentioned
  · intro delegated least
    rw [readText, readback_memory mounted, if_pos delegated]
    exact limit_reads_back least
  · intro delegated least
    rw [readText, readback_pids mounted, if_pos delegated]
    exact limit_reads_back least
  · intro _ least
    rw [readText, readback_cpu mounted]
    exact limit_reads_back (Int64.le_of_lt least)

end Readback

/-! ## When a confirmation means that the limits are in force -/

theorem confirmed_limits_in_force (a : BaseAnswers) (counter : Nat) (pid : Pid) (text : ByteString) :
    (∀ (fs : CgroupFiles) (ram : Int64) (limits : ResourceLimits),
      readText fs.files (procCgroup pid) = text → (cgroupBase a).enforceable →
      cgroupConfirm (cgroupBase a) fs.files (shardLeaf counter) pid (capsFor (cgroupDefaultCaps ram) limits) →
      InForce (cgroupBase a) fs (shardLeaf counter) pid (capsFor (cgroupDefaultCaps ram) limits)) ↔
    ((cgroupBase a).enforceable → Mentions (shardLeaf counter) text →
      Resides (cgroupBase a) (shardLeaf counter) text ∧ (cgroupBase a).memory ∧ (cgroupBase a).pids) := by
  constructor
  · intro sound enforceable mentioned
    have based : (cgroupBase a).base ≠ [] := by
      intro none
      simp [CgroupBase.enforceable, none] at enforceable
    obtain ⟨rel, mounted⟩ := base_mounted based
    have inForce := sound (readback (cgroupBase a) (shardLeaf counter) pid text _) 0 {} (readback_text _ _ _ _ _)
      enforceable (readback_confirms mounted mentioned)
    have resides := inForce.pid
    have memory := inForce.memory
    have pids := inForce.pids
    rw [readback_text] at resides
    rw [CgroupFiles.limit, readback_memory mounted] at memory
    rw [CgroupFiles.limit, readback_pids mounted] at pids
    refine ⟨resides, ?_, ?_⟩
    · by_contra undelegated
      simp [undelegated] at memory
    · by_contra undelegated
      simp [undelegated] at pids
  · intro delegated fs ram limits shown enforceable confirmed
    obtain ⟨-, mentioned, -⟩ := (confirm_iff _ _ _ _ _).mp confirmed
    rw [shown] at mentioned
    obtain ⟨resides, memory, pids⟩ := delegated enforceable mentioned
    obtain ⟨leastMemory, leastPids⟩ := caps_resolved ram limits
    obtain ⟨holdsMemory, holdsPids⟩ := confirmed_limits leastMemory leastPids confirmed
    exact ⟨by rw [shown]; exact resides, holdsMemory memory, holdsPids pids⟩

/-- A process in one leaf is confirmed in another whose name its name starts with. -/
theorem other_leaf_is_confirmed :
    let b := cgroupBase ⟨true, "0::/user.slice\n", true, "memory pids cpu\n", some "memory pids cpu\n"⟩
    let caps := capsFor (cgroupDefaultCaps 0) {}
    let fs := readback b (shardLeaf 1) 7 "0::/user.slice/zen-shard-10\n" caps
    b.enforceable ∧ cgroupConfirm b fs.files (shardLeaf 1) 7 caps ∧ ¬ InForce b fs (shardLeaf 1) 7 caps := by
  have mounted : (cgroupBase ⟨true, "0::/user.slice\n", true, "memory pids cpu\n",
      some "memory pids cpu\n"⟩).base = mountPoint ++ ascii "/user.slice" := by decide
  refine ⟨by decide, readback_confirms mounted (by unfold Mentions; decide), ?_⟩
  intro inForce
  have resides := inForce.pid
  rw [readback_text] at resides
  revert resides
  unfold Resides
  decide

/-! ## Leaves as the host makes them -/

theorem resolveResources_enforced {ς : Type} (h : Host ς) (link : Link) (grant : HostGrant) (a : MountAnswers)
    (enforced : resolve h grant.resources.unlimited .resources = some .enforced) :
    (resolveResources grant a).run (h, link) = .ok () ({ h with leafCounter := h.leafCounter + 1 }, { link with
      cgCaps := capsFor a.defaultCaps grant.resources
      cgLeaf := shardLeaf h.leafCounter
      resolutions := link.resolutions ++ [⟨.resources, .enforced, false⟩] }) := by
  simp only [resolveResources, EStateM.run_bind, EStateM.run_get, enforced]
  rfl

theorem splitOnP_parts (p : UInt8 → Bool) (text : ByteString) :
    (∀ line ∈ text.splitOnP p, line <:+: text) ∧ (∀ line ∈ (text.splitOnP p).head?, line <+: text) := by
  induction text with
  | nil => simp [List.splitOnP_nil]
  | cons c text ih =>
      rw [List.splitOnP_cons_eq_if_modifyHead]
      split
      · simp only [List.mem_cons, List.head?_cons, Option.mem_def, Option.some.injEq]
        refine ⟨?_, fun line same => same ▸ List.nil_prefix⟩
        rintro line (rfl | later)
        · exact List.nil_infix
        · exact (ih.1 line later).trans (List.suffix_cons c text).isInfix
      · cases lines : text.splitOnP p with
        | nil => simp
        | cons first lines' =>
            rw [lines] at ih
            have front : c :: first <+: c :: text := List.cons_prefix_cons.mpr ⟨rfl, ih.2 first rfl⟩
            simp only [List.modifyHead_cons, List.mem_cons, List.head?_cons, Option.mem_def, Option.some.injEq]
            refine ⟨?_, fun line same => same ▸ front⟩
            rintro line (rfl | later)
            · exact front.isInfix
            · exact (ih.1 line (List.mem_cons_of_mem _ later)).trans (List.suffix_cons c text).isInfix

theorem cgroupV2Rel_part (text : ByteString) : cgroupV2Rel text <:+: text := by
  unfold cgroupV2Rel
  split
  · rename_i line found
    exact (List.drop_suffix 3 line).isInfix.trans ((splitOnP_parts _ text).1 line (List.mem_of_find?_eq_some found))
  · exact List.nil_infix

theorem mentions_of_resides {b : CgroupBase} {rel name text : ByteString} (mounted : b.base = mountPoint ++ rel)
    (resides : Resides b name text) : Mentions name text := by
  rw [Resides, leafPath, mounted, List.append_assoc, List.append_assoc] at resides
  have same : cgroupV2Rel text = rel ++ (ascii "/" ++ name) := List.append_cancel_left resides
  have last : ascii "/" ++ name <:+ cgroupV2Rel text := same ▸ List.suffix_append _ _
  exact last.isInfix.trans (cgroupV2Rel_part text)

theorem performWrites_done {answer : LeafWrite → Written} {ws : List LeafWrite}
    (done : (performWrites answer ws).1 = true) {w : LeafWrite} (asked : w ∈ ws) (needed : w.needed = true)
    (kept : answer w ≠ .refused) : w ∈ (performWrites answer ws).2 := by
  induction ws with
  | nil => cases asked
  | cons first ws ih =>
      rw [performWrites] at done ⊢
      split at done
      · cases done
      · rename_i opened
        rw [if_neg opened]
        obtain rfl | later := List.mem_cons.mp asked
        · have taken : answer w = .taken := by
            cases answered : answer w with
            | unopened => exact absurd (by simp [needed, answered, Written.good]) opened
            | refused => exact absurd answered kept
            | taken => rfl
          simp [taken]
        · have there := ih done later
          simp only
          split
          · exact List.mem_cons_of_mem _ there
          · exact there

theorem performWrites_good {answer answer' : LeafWrite → Written} (same : ∀ w, (answer w).good = (answer' w).good)
    (ws : List LeafWrite) : (performWrites answer ws).1 = (performWrites answer' ws).1 := by
  induction ws with
  | nil => rfl
  | cons w ws ih =>
      rw [performWrites, performWrites, same w]
      split
      · rfl
      · exact ih

/-- A write that is refused when it is flushed does not show in what the host is told of a new leaf: the
limits that are read back are what tells. -/
theorem refusal_unseen {answer answer' : LeafWrite → Written} (same : ∀ w, (answer w).good = (answer' w).good)
    (b : CgroupBase) (made : Bool) (name : ByteString) (caps : ResourceCaps) :
    (cgroupCreateLeaf b made answer name caps).1 = (cgroupCreateLeaf b made answer' name caps).1 := by
  unfold cgroupCreateLeaf
  split
  · rfl
  · exact performWrites_good same _

/-- A leaf that the host has made is confirmed when the kernel refused nothing and shows what was written. -/
theorem created_leaf_confirms {b : CgroupBase} {rel : ByteString} (mounted : b.base = mountPoint ++ rel)
    {made : Bool} {answer : LeafWrite → Written} {name : ByteString} {caps : ResourceCaps} {files : Files}
    {pid : Pid} (created : (cgroupCreateLeaf b made answer name caps).1 = true)
    (accepted : ∀ w ∈ leafWrites b name caps, answer w ≠ .refused)
    (kept : ∀ w ∈ (cgroupCreateLeaf b made answer name caps).2, w.needed = true →
      files w.path = some (w.data ++ [0x0A]))
    (resides : Resides b name (readText files (procCgroup pid))) :
    cgroupConfirm b files name pid caps = true := by
  have made' : (b.base.isEmpty || !made) ≠ true := by
    intro missing
    rw [cgroupCreateLeaf, if_pos missing] at created
    cases created
  rw [cgroupCreateLeaf, if_neg made'] at created kept
  have reads : ∀ path (c : Int64), 0 ≤ c → ⟨path, signedDecimal c.toInt, true⟩ ∈ leafWrites b name caps →
      parseLl (readText files path) = c.toInt := by
    intro path c least asked
    have shown := kept _ (performWrites_done created asked rfl (accepted _ asked)) rfl
    have least' : 0 ≤ c.toInt := Int64.le_iff_toInt_le.mp least
    rw [signedDecimal, if_neg (Int.not_lt.mpr least'), show c.toInt.natAbs = c.toInt.toNat by omega] at shown
    rw [readText, shown]
    exact limit_reads_back least
  refine (confirm_iff _ _ _ _ _).mpr ⟨?_, mentions_of_resides mounted resides, ?_, ?_, ?_⟩
  · rw [mounted]
    exact List.cons_ne_nil _ _
  · intro delegated least
    exact reads _ _ least (by simp [leafWrites, delegated, least])
  · intro delegated least
    exact reads _ _ least (by simp [leafWrites, delegated, least])
  · intro delegated positive
    exact reads _ _ (Int64.le_of_lt positive) (by simp [leafWrites, delegated, positive])

end Zen.Isolation
