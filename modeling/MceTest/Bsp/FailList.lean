import MceTest.Bsp.Model
import MceTest.Library.Once
import Mathlib.Data.Finset.Card
import Mathlib.Data.Finset.Range

/-! The fail list of the CPU test against the operations that have failed. -/

namespace MceTest.Bsp

open MceTest.Library MceTest.Library.Shell MceTest.Library.Once

def State.failed (s : State) : List Word := (s.outputLog.filter Entry.failed).map Entry.cpu

def State.Failed (s : State) (cpu : Nat) : Prop := Nat.toDigits 10 cpu ∈ s.failed

instance (s : State) : DecidablePred s.Failed := fun _ => inferInstanceAs (Decidable (_ ∈ _))

/-- One line for each CPU that has failed, no others, and the totals to match. -/
structure Accounted (maxCpu : Nat) (s : State) : Prop where
  once : ∀ cpu ≤ maxCpu,
    s.failst.count (cpuLine (Nat.toDigits 10 cpu)) = if s.Failed cpu then 1 else 0
  only : ∀ line ∈ s.failst, ∃ cpu ≤ maxCpu, line = cpuLine (Nat.toDigits 10 cpu)
  fail : s.numFailCpu = ((Finset.range (maxCpu + 1)).filter s.Failed).card
  pass : s.numPassCpu maxCpu = ((Finset.range (maxCpu + 1)).filter (¬ s.Failed ·)).card

structure Operation where
  mode : Mode
  cpu : Word

def Operation.fails (op : Operation) (found : Bool) : Bool :=
  match op.mode with
  | .online => ¬ (op.cpu ≠ [] ∧ found)
  | .offline => op.cpu ≠ [] ∧ found

def operate (answers : Answers) (s : State) (op : Operation) : State :=
  match op.mode with
  | .online => onlineCpu answers op.cpu s
  | .offline => offlineCpu answers op.cpu s

def perCpuOperations (maxCpu rounds : Nat) : List Operation :=
  (List.range rounds).flatMap fun _ =>
    (cpus maxCpu).flatMap fun cpu => [⟨.offline, cpu⟩, ⟨.online, cpu⟩]

def groupRoundOperations (maxCpu : Nat) (random : Fin 32768) : List Operation :=
  let ran := cpuRan maxCpu random
  let others := (cpus maxCpu).filter (differs · ran)
  ⟨.online, ran⟩ :: others.map (Operation.mk .offline) ++ others.map (Operation.mk .online)

def groupCpuOperations (random : Nat → Fin 32768) (maxCpu rounds : Nat) : List Operation :=
  (List.range rounds).flatMap fun j => groupRoundOperations maxCpu (random j)

def operations (random : Nat → Fin 32768) (maxCpu rounds : Nat) : List Operation :=
  perCpuOperations maxCpu rounds ++ groupCpuOperations random maxCpu rounds

/-- The CPUs of the operations that fail, when `n` operations have gone before. -/
def failures (answers : Answers) (n : Nat) (ops : List Operation) : List Word :=
  ((ops.zipIdx n).filter fun p => p.1.fails (answers p.2)).map fun p => p.1.cpu

/-- No CPU fails for the first time after one whose number starts with its number. -/
def Unhidden (failed : List Word) : Prop :=
  ∀ pre cpu post, failed = pre ++ Nat.toDigits 10 cpu :: post →
    ∀ other ∈ pre, Nat.toDigits 10 cpu <+: other → Nat.toDigits 10 cpu ∈ pre

variable {answers : Answers} {random : Nat → Fin 32768} {maxCpu rounds : Nat}

theorem perCpuTest_eq (s : State) :
    perCpuTest answers maxCpu rounds s =
      (perCpuOperations maxCpu rounds).foldl (operate answers) s := by
  rw [perCpuOperations, List.foldl_flatMap]
  simp only [List.foldl_flatMap]
  rfl

theorem foldl_differs (mode : Mode) (ran : Word) (words : List Word) (s : State) :
    words.foldl (fun s cpu => if differs cpu ran then operate answers s ⟨mode, cpu⟩ else s) s =
      ((words.filter (differs · ran)).map (Operation.mk mode)).foldl (operate answers) s := by
  rw [List.foldl_map, List.foldl_filter]

theorem groupCpuTest_eq (s : State) :
    groupCpuTest answers random maxCpu rounds s =
      (groupCpuOperations random maxCpu rounds).foldl (operate answers) s := by
  rw [groupCpuOperations, List.foldl_flatMap, groupCpuTest]
  congr 1
  funext s j
  rw [groupRoundOperations, List.foldl_append, List.foldl_cons, ← foldl_differs, ← foldl_differs]
  rfl

theorem bspTest_eq :
    bspTest answers random maxCpu rounds =
      (operations random maxCpu rounds).foldl (operate answers) {} := by
  rw [bspTest, perCpuTest_eq, groupCpuTest_eq, operations, List.foldl_append]

/-- What the `grep` for a CPU finds. -/
def FoundIn (cpu other : Word) : Prop := cpuLine cpu <:+: cpuLine other

instance : DecidableRel FoundIn := fun _ _ => inferInstanceAs (Decidable (_ <:+: _))

theorem FoundIn.refl (cpu : Word) : FoundIn cpu cpu := List.infix_rfl

theorem FoundIn.trans (a b c : Word) (hab : FoundIn a b) (hbc : FoundIn b c) : FoundIn a c :=
  List.IsInfix.trans hab hbc

theorem foundIn_nil (other : Word) : FoundIn [] other := ⟨[], other, rfl⟩

theorem foundIn_iff {cpu other : Word} (hother : 'C' ∉ other) :
    FoundIn cpu other ↔ cpu <+: other := by
  constructor
  · rintro ⟨pre, post, h⟩
    cases pre with
    | nil =>
      have h' : 'C' :: 'P' :: 'U' :: (cpu ++ post) = 'C' :: 'P' :: 'U' :: other := h
      simp only [List.cons.injEq, true_and] at h'
      exact ⟨post, h'⟩
    | cons c pre =>
      have htail : pre ++ cpuLine cpu ++ post = 'P' :: 'U' :: other := (List.cons.inj h).2
      have hmem : 'C' ∈ pre ++ cpuLine cpu ++ post := by simp [cpuLine]
      rw [htail] at hmem
      simp only [List.mem_cons, hother, or_false] at hmem
      exact absurd hmem (by decide)
  · rintro ⟨post, rfl⟩
    exact ⟨[], post, rfl⟩

def State.Noted (s : State) : Prop := s.failst = (recordAll FoundIn s.failed).map cpuLine

theorem fail_noted {s : State} (h : s.Noted) (mode : Mode) (cpu : Word) :
    (s.fail mode cpu).Noted := by
  have hfailed : (s.fail mode cpu).failed = s.failed ++ [cpu] := by
    simp only [State.failed, State.fail, List.filter_append, List.map_append]
    rfl
  rw [State.Noted, hfailed, recordAll_concat, State.fail, h, record,
    apply_ite (List.map cpuLine), List.map_append]
  simp only [List.any_map, Function.comp_def]
  rfl

theorem ok_noted {s : State} (h : s.Noted) (mode : Mode) (cpu : Word) : (s.ok mode cpu).Noted := by
  have hfailed : (s.ok mode cpu).failed = s.failed := by
    simp only [State.failed, State.ok, List.filter_append, List.map_append]
    exact List.append_nil _
  rw [State.Noted, hfailed]
  exact h

theorem operate_eq (s : State) (op : Operation) :
    operate answers s op =
      if op.fails (answers s.outputLog.length) then s.fail op.mode op.cpu
      else s.ok op.mode op.cpu := by
  rcases op with ⟨mode | mode, cpu⟩
  · simp only [operate, onlineCpu, Operation.fails, State.grepW]
    by_cases h : cpu ≠ [] ∧ answers s.outputLog.length = true <;> simp [h]
  · simp only [operate, offlineCpu, Operation.fails, State.grepW]
    by_cases h : cpu ≠ [] ∧ answers s.outputLog.length = true <;> simp [h]

theorem operate_noted {s : State} (h : s.Noted) (op : Operation) :
    (operate answers s op).Noted := by
  rw [operate_eq]
  split
  · exact fail_noted h op.mode op.cpu
  · exact ok_noted h op.mode op.cpu

theorem noted (answers : Answers) (ops : List Operation) :
    (ops.foldl (operate answers) {}).Noted := by
  induction ops using List.reverseRecOn with
  | nil => rfl
  | append_singleton ops op ih =>
    rw [List.foldl_append]
    exact operate_noted ih op

theorem failures_append (n : Nat) (ops rest : List Operation) :
    failures answers n (ops ++ rest) =
      failures answers n ops ++ failures answers (n + ops.length) rest := by
  rw [failures, List.zipIdx_append, List.filter_append, List.map_append]
  rfl

theorem failed_eq (answers : Answers) (ops : List Operation) :
    (ops.foldl (operate answers) {}).outputLog.length = ops.length ∧
      (ops.foldl (operate answers) {}).failed = failures answers 0 ops := by
  induction ops using List.reverseRecOn with
  | nil => exact ⟨rfl, rfl⟩
  | append_singleton ops op ih =>
    obtain ⟨hlength, hfailed⟩ := ih
    rw [List.foldl_append, List.foldl_cons, List.foldl_nil, operate_eq, hlength, failures_append,
      ← hfailed, Nat.zero_add]
    split
    · rename_i hfails
      constructor
      · simp [State.fail, hlength]
      · simp [State.failed, State.fail, failures, hfails]
    · rename_i hfails
      constructor
      · simp [State.ok, hlength]
      · simp [State.failed, State.ok, failures, hfails]

theorem cpuLine_injective : Function.Injective cpuLine := by
  intro v w h
  simp only [cpuLine, List.cons.injEq, true_and] at h
  exact h

theorem mem_cpus {w : Word} : w ∈ cpus maxCpu ↔ ∃ cpu ≤ maxCpu, w = Nat.toDigits 10 cpu := by
  simp only [cpus, List.mem_map, List.mem_range, Nat.lt_succ_iff, eq_comm]

theorem cpuRan_mem (h : maxCpu ≠ 0) (random : Fin 32768) : cpuRan maxCpu random ∈ cpus maxCpu := by
  rw [cpuRan, if_neg h, mem_cpus]
  have := Nat.mod_lt random.val (Nat.pos_of_ne_zero h)
  exact ⟨random % maxCpu + 1, by omega, rfl⟩

theorem perCpuOperations_cpu {op : Operation} (h : op ∈ perCpuOperations maxCpu rounds) :
    op.cpu ∈ cpus maxCpu := by
  obtain ⟨_, -, h⟩ := List.mem_flatMap.mp h
  obtain ⟨cpu, hcpu, h⟩ := List.mem_flatMap.mp h
  rcases List.mem_pair.mp h with rfl | rfl <;> exact hcpu

theorem groupCpuOperations_cpu {op : Operation}
    (h : op ∈ groupCpuOperations random maxCpu rounds) :
    op.cpu ∈ cpus maxCpu ∨ maxCpu = 0 ∧ op.cpu = [] := by
  obtain ⟨j, -, h⟩ := List.mem_flatMap.mp h
  simp only [groupRoundOperations, List.cons_append, List.mem_cons, List.mem_append, List.mem_map,
    List.mem_filter] at h
  rcases h with rfl | ⟨cpu, ⟨hcpu, -⟩, rfl⟩ | ⟨cpu, ⟨hcpu, -⟩, rfl⟩
  · by_cases hmax : maxCpu = 0
    · exact Or.inr ⟨hmax, if_pos hmax⟩
    · exact Or.inl (cpuRan_mem hmax (random j))
  · exact Or.inl hcpu
  · exact Or.inl hcpu

theorem failures_cpu {n : Nat} {ops : List Operation} {w : Word}
    (h : w ∈ failures answers n ops) : ∃ op ∈ ops, op.cpu = w := by
  obtain ⟨p, hp, rfl⟩ := List.mem_map.mp h
  exact ⟨p.1, (List.mem_zipIdx (List.mem_filter.mp hp).1).2.2 ▸ List.getElem_mem _, rfl⟩

theorem groupCpuOperations_single :
    groupCpuOperations random 0 rounds = List.replicate rounds ⟨.online, []⟩ := by
  have hround (j : Nat) : groupRoundOperations 0 (random j) = [⟨.online, []⟩] := rfl
  simp only [groupCpuOperations, hround]
  induction rounds with
  | zero => rfl
  | succ rounds ih => rw [List.range_succ, List.flatMap_append, ih, List.replicate_succ']; rfl

theorem not_mem_digits (cpu : Nat) : 'C' ∉ Nat.toDigits 10 cpu := fun h =>
  absurd (Numeral.digits_toDigits (by decide) (by decide) cpu 'C' h) (by decide)

theorem failures_mem {w : Word} (h : w ∈ failures answers 0 (operations random maxCpu rounds)) :
    w ∈ cpus maxCpu ∨ maxCpu = 0 ∧ w = [] := by
  obtain ⟨op, hop, rfl⟩ := failures_cpu h
  rcases List.mem_append.mp hop with hop | hop
  · exact Or.inl (perCpuOperations_cpu hop)
  · exact groupCpuOperations_cpu hop

theorem nil_mem_recordAll_iff :
    [] ∈ recordAll FoundIn (failures answers 0 (operations random maxCpu rounds)) ↔
      maxCpu = 0 ∧ rounds ≠ 0 ∧ failures answers 0 (perCpuOperations maxCpu rounds) = [] := by
  rw [mem_recordAll_iff FoundIn.refl FoundIn.trans, operations, failures_append]
  constructor
  · rintro ⟨pre, post, hsplit, hpre⟩
    have hnil : pre = [] := by
      cases pre with
      | nil => rfl
      | cons v pre => exact absurd (foundIn_nil v) (hpre v (.head _))
    subst hnil
    rw [List.nil_append] at hsplit
    have hmem : [] ∈ failures answers 0 (operations random maxCpu rounds) := by
      rw [operations, failures_append, hsplit]
      exact List.mem_cons_self
    have hdigits (h : [] ∈ cpus maxCpu) : False := by
      obtain ⟨cpu, -, hcpu⟩ := mem_cpus.mp h
      exact Nat.toDigits_ne_nil hcpu.symm
    obtain ⟨rfl, -⟩ := (failures_mem hmem).resolve_left hdigits
    refine ⟨rfl, ?_, ?_⟩
    · rintro rfl
      cases hsplit
    · cases hper : failures answers 0 (perCpuOperations 0 rounds) with
      | nil => rfl
      | cons w ws =>
        rw [hper, List.cons_append] at hsplit
        obtain ⟨rfl, -⟩ := List.cons.inj hsplit
        obtain ⟨op, hop, hcpu⟩ := failures_cpu (hper ▸ List.mem_cons_self)
        exact (hdigits (hcpu ▸ perCpuOperations_cpu hop)).elim
  · rintro ⟨rfl, hrounds, hper⟩
    obtain ⟨rounds, rfl⟩ := Nat.exists_eq_succ_of_ne_zero hrounds
    rw [hper, groupCpuOperations_single, List.replicate_succ]
    exact ⟨[], _, rfl, nofun⟩

theorem unhidden_iff {failed : List Word} (hfailed : ∀ w ∈ failed, 'C' ∉ w) :
    Unhidden failed ↔ ∀ cpu, Nat.toDigits 10 cpu ∈ failed →
      Nat.toDigits 10 cpu ∈ recordAll FoundIn failed := by
  have hfound {cpu : Nat} {pre post : List Word} {other : Word}
      (hsplit : failed = pre ++ Nat.toDigits 10 cpu :: post) (hother : other ∈ pre) :
      FoundIn (Nat.toDigits 10 cpu) other ↔ Nat.toDigits 10 cpu <+: other :=
    foundIn_iff (hfailed other (hsplit ▸ List.mem_append_left _ hother))
  constructor
  · intro h cpu hcpu
    rw [mem_recordAll_iff_of_mem FoundIn.refl FoundIn.trans hcpu]
    intro pre post hsplit other hother hin
    exact h pre cpu post hsplit other hother ((hfound hsplit hother).mp hin)
  · intro h pre cpu post hsplit other hother hprefix
    have hcpu : Nat.toDigits 10 cpu ∈ failed :=
      hsplit ▸ List.mem_append_right _ List.mem_cons_self
    exact (mem_recordAll_iff_of_mem FoundIn.refl FoundIn.trans hcpu).mp (h cpu hcpu)
      pre post hsplit other hother ((hfound hsplit hother).mpr hprefix)

theorem accounted_of_recorded {s : State} (hnoted : s.Noted)
    (hall : ∀ cpu, s.Failed cpu → Nat.toDigits 10 cpu ∈ recordAll FoundIn s.failed)
    (honly : ∀ w ∈ recordAll FoundIn s.failed, w ∈ cpus maxCpu) : Accounted maxCpu s := by
  have hnodup := nodup_recordAll FoundIn.refl s.failed
  have hperm : (recordAll FoundIn s.failed).Perm
      (((List.range (maxCpu + 1)).filter s.Failed).map (Nat.toDigits 10)) := by
    refine (List.perm_ext_iff_of_nodup hnodup ?_).mpr fun w => ⟨fun hw => ?_, fun hw => ?_⟩
    · exact (List.nodup_range.filter _).map (Numeral.toDigits_injective (by decide) (by decide))
    · obtain ⟨cpu, hle, rfl⟩ := mem_cpus.mp (honly w hw)
      have hfailed : s.Failed cpu := mem_of_mem_recordAll hw
      exact List.mem_map_of_mem (List.mem_filter.mpr
        ⟨List.mem_range.mpr (Nat.lt_succ_of_le hle), decide_eq_true hfailed⟩)
    · obtain ⟨cpu, hcpu, rfl⟩ := List.mem_map.mp hw
      exact hall cpu (of_decide_eq_true (List.mem_filter.mp hcpu).2)
  have hfail : s.numFailCpu = ((Finset.range (maxCpu + 1)).filter s.Failed).card := by
    have hlines : s.failst.filter (fun line => "CPU".toList <:+: line) = s.failst := by
      rw [List.filter_eq_self, hnoted]
      intro line hline
      obtain ⟨w, -, rfl⟩ := List.mem_map.mp hline
      exact decide_eq_true ⟨[], w, rfl⟩
    rw [State.numFailCpu, hlines, hnoted, List.length_map, hperm.length_eq, List.length_map]
    rfl
  refine ⟨fun cpu _ => ?_, fun line hline => ?_, hfail, ?_⟩
  · rw [hnoted, List.count_map_of_injective _ _ cpuLine_injective, hnodup.count]
    exact if_congr ⟨mem_of_mem_recordAll, hall cpu⟩ rfl rfl
  · rw [hnoted] at hline
    obtain ⟨w, hw, rfl⟩ := List.mem_map.mp hline
    obtain ⟨cpu, hle, rfl⟩ := mem_cpus.mp (honly w hw)
    exact ⟨cpu, hle, rfl⟩
  · have hsum := Finset.card_filter_add_card_filter_not (s := Finset.range (maxCpu + 1)) s.Failed
    rw [Finset.card_range] at hsum
    rw [State.numPassCpu, hfail]
    omega

theorem Accounted.recorded {s : State} (h : Accounted maxCpu s) (hnoted : s.Noted) {cpu : Nat}
    (hle : cpu ≤ maxCpu) (hfailed : s.Failed cpu) :
    Nat.toDigits 10 cpu ∈ recordAll FoundIn s.failed := by
  have honce := h.once cpu hle
  rw [if_pos hfailed, hnoted, List.count_map_of_injective _ _ cpuLine_injective] at honce
  exact List.count_pos_iff.mp (by omega)

theorem Accounted.numbered {s : State} (h : Accounted maxCpu s) (hnoted : s.Noted) :
    [] ∉ recordAll FoundIn s.failed := by
  intro hnil
  obtain ⟨cpu, -, hcpu⟩ := h.only (cpuLine []) (hnoted ▸ List.mem_map_of_mem hnil)
  exact Nat.toDigits_ne_nil (cpuLine_injective hcpu).symm

/-- The accounting is right iff no CPU's first failure is hidden behind a longer number, and,
with a single CPU, something has failed before the group mode. -/
theorem accounted_iff (answers : Answers) (random : Nat → Fin 32768) (maxCpu rounds : Nat) :
    Accounted maxCpu (bspTest answers random maxCpu rounds) ↔
      Unhidden (failures answers 0 (operations random maxCpu rounds)) ∧
        (maxCpu = 0 → rounds = 0 ∨ failures answers 0 (perCpuOperations maxCpu rounds) ≠ []) := by
  have hnoted := noted answers (operations random maxCpu rounds)
  have hfailed := (failed_eq answers (operations random maxCpu rounds)).2
  have hplain : ∀ w ∈ failures answers 0 (operations random maxCpu rounds), 'C' ∉ w := by
    intro w hw
    rcases failures_mem hw with hw | ⟨-, rfl⟩
    · obtain ⟨cpu, -, rfl⟩ := mem_cpus.mp hw
      exact not_mem_digits cpu
    · exact List.not_mem_nil
  rw [bspTest_eq, unhidden_iff hplain]
  constructor
  · intro h
    refine ⟨fun cpu hcpu => ?_, fun hmax => ?_⟩
    · rcases failures_mem hcpu with hmem | ⟨-, hnil⟩
      · obtain ⟨cpu', hle, heq⟩ := mem_cpus.mp hmem
        rw [heq] at hcpu ⊢
        rw [← hfailed] at hcpu ⊢
        exact h.recorded hnoted hle hcpu
      · exact absurd hnil Nat.toDigits_ne_nil
    · by_contra hnone
      rw [not_or, not_not] at hnone
      have hnumbered := h.numbered hnoted
      rw [hfailed] at hnumbered
      exact hnumbered (nil_mem_recordAll_iff.mpr ⟨hmax, hnone.1, hnone.2⟩)
  · rintro ⟨hall, hsingle⟩
    refine accounted_of_recorded hnoted (fun cpu hcpu => ?_) fun w hw => ?_
    · have hcpu : Nat.toDigits 10 cpu ∈ State.failed _ := hcpu
      rw [hfailed] at hcpu ⊢
      exact hall cpu hcpu
    · rw [hfailed] at hw
      rcases failures_mem (mem_of_mem_recordAll hw) with hmem | ⟨-, rfl⟩
      · exact hmem
      · obtain ⟨hmax, hrounds, hper⟩ := nil_mem_recordAll_iff.mp hw
        exact absurd hper ((hsingle hmax).resolve_left hrounds)

/-- Eleven CPUs and one round: CPU 10 cannot be taken offline in the first mode (operation 20),
CPU 1 not in the second (operation 24). -/
def elevenAnswers : Answers := fun n =>
  (n < 22 && n % 2 == 1) || n == 20 || n == 22 || n == 24 || 32 < n

theorem failList_misses_cpu : ¬ Accounted 10 (bspTest elevenAnswers (fun _ => 2) 10 1) := by
  intro h
  have honce := h.once 1 (by decide)
  revert honce
  decide +kernel

end MceTest.Bsp
