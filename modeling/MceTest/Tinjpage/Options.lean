import MceTest.Tinjpage.Model
import MceTest.Library.Slots

/-! `handle_opts` of `tinjpage.c` and the table of cases it adds to. -/

namespace MceTest.Tinjpage

open MceTest.Library MceTest.Library.Shell

inductive Entry
  | builtin (t : Testcase)
  | sniper (name : Word)

inductive Inject
  | madvise | mceInject
  deriving DecidableEq

/-- `cases`, which has three empty entries at its end, and `inject`. -/
structure Globals where
  cases : List (Option Entry)
  inject : Inject := .madvise

def builtins (hps : Bool) : List Entry := (cases hps).map .builtin

def Globals.start (hps : Bool) : Globals where
  cases := Slots.filled (builtins hps) 3

def snipercases₀ : Entry := .sniper "under io dirty".toList

def snipercases₁ : Entry := .sniper "under io clean".toList

/-- How `handle_opts` does not come back: through `usage`, or not as the language defines it. -/
inductive OptFault
  | usage | overrun
  deriving DecidableEq

def handleOpt (g : Globals) (arg : Word) : Except OptFault Globals :=
  if arg = "--sniper".toList then
    let written := do
      let t ← Slots.firstEmpty g.cases
      let table ← Slots.write g.cases t snipercases₀
      Slots.write table (t + 1) snipercases₁
    match written with
    | none => .error .overrun
    | some table => .ok { g with cases := table }
  else if arg = "--mce-inject".toList then .ok { g with inject := .mceInject }
  else .error .usage

/-- The program name is passed over. -/
def handleOpts (hps : Bool) (av : List Word) : Except OptFault Globals :=
  (av.drop 1).foldlM handleOpt (Globals.start hps)

/-- A vector of known options. -/
def KnownOptions (av : List Word) : Prop :=
  ∀ arg ∈ av.drop 1, arg = "--sniper".toList ∨ arg = "--mce-inject".toList

instance (av : List Word) : Decidable (KnownOptions av) := List.decidableBAll _ _

/-- The array as it should be: of its own size, with an empty entry, and with nothing but sniper
cases behind the built-in ones. -/
structure Intact (hps : Bool) (g : Globals) : Prop where
  size : g.cases.length = (Globals.start hps).cases.length
  terminated : none ∈ g.cases
  walked : ∃ snipers, Slots.walk g.cases = some (builtins hps ++ snipers) ∧
    ∀ c ∈ snipers, c = snipercases₀ ∨ c = snipercases₁

def snipers (n : Nat) : List Entry := (List.replicate n [snipercases₀, snipercases₁]).flatten

theorem mem_snipers {n : Nat} {c : Entry} (h : c ∈ snipers n) :
    c = snipercases₀ ∨ c = snipercases₁ := by
  obtain ⟨l, hl, hc⟩ := List.mem_flatten.mp h
  rw [List.eq_of_mem_replicate hl] at hc
  exact List.mem_pair.mp hc

theorem handleOpt_sniper (used : List Entry) (free : Nat) (inject : Inject) :
    handleOpt ⟨Slots.filled used free, inject⟩ "--sniper".toList =
      if free < 2 then .error .overrun
      else .ok ⟨Slots.filled (used ++ [snipercases₀, snipercases₁]) (free - 2), inject⟩ := by
  have hsecond := Slots.write_filled (used ++ [snipercases₀]) (free - 1) snipercases₁
  rw [List.length_append, List.length_singleton, List.append_assoc,
    List.singleton_append] at hsecond
  match free with
  | 0 => simp [handleOpt, Slots.firstEmpty_filled]
  | 1 => simp_all [handleOpt, Slots.firstEmpty_filled, Slots.write_filled]
  | free + 2 => simp_all [handleOpt, Slots.firstEmpty_filled, Slots.write_filled]

theorem handleOpt_mceInject (g : Globals) :
    handleOpt g "--mce-inject".toList = .ok { g with inject := .mceInject } := by
  rw [handleOpt, if_neg (by decide), if_pos rfl]

theorem foldlM_handleOpt {args : List Word}
    (hargs : ∀ arg ∈ args, arg = "--sniper".toList ∨ arg = "--mce-inject".toList)
    (used : List Entry) (free : Nat) (inject : Inject) :
    if 2 * args.count "--sniper".toList ≤ free then
      ∃ inject', args.foldlM handleOpt ⟨Slots.filled used free, inject⟩ =
        .ok ⟨Slots.filled (used ++ snipers (args.count "--sniper".toList))
          (free - 2 * args.count "--sniper".toList), inject'⟩
    else args.foldlM handleOpt ⟨Slots.filled used free, inject⟩ = .error .overrun := by
  induction args generalizing used free inject with
  | nil => exact ⟨inject, by rw [List.count_nil, snipers]; simp; rfl⟩
  | cons arg args ih =>
    have hargs' := fun arg harg => hargs arg (List.mem_cons_of_mem _ harg)
    rcases hargs arg List.mem_cons_self with rfl | rfl
    · rw [List.count_cons_self, List.foldlM_cons, handleOpt_sniper]
      by_cases hfree : free < 2
      · rw [if_pos hfree, if_neg (by omega)]
        rfl
      · have hrest := ih hargs' (used ++ [snipercases₀, snipercases₁]) (free - 2) inject
        rw [if_neg hfree]
        by_cases hcount : 2 * args.count "--sniper".toList ≤ free - 2
        · rw [if_pos hcount] at hrest
          obtain ⟨inject', hrest⟩ := hrest
          rw [if_pos (by omega)]
          refine ⟨inject', hrest.trans ?_⟩
          rw [snipers, snipers, List.replicate_succ, List.flatten_cons, List.append_assoc,
            Nat.mul_add, Nat.add_comm, Nat.sub_sub]
        · rw [if_neg hcount] at hrest
          rw [if_neg (by omega)]
          exact hrest
    · rw [List.count_cons_of_ne (by decide), List.foldlM_cons, handleOpt_mceInject]
      exact ih hargs' used free .mceInject

/-- The table stays intact iff `--sniper` is given at most once. -/
theorem handleOpts_intact_iff (hps : Bool) {av : List Word} (hav : KnownOptions av) :
    (∃ g, handleOpts hps av = .ok g ∧ Intact hps g) ↔
      (av.drop 1).count "--sniper".toList ≤ 1 := by
  have hrun := foldlM_handleOpt hav (builtins hps) 3 .madvise
  by_cases hcount : 2 * (av.drop 1).count "--sniper".toList ≤ 3
  · rw [if_pos hcount] at hrun
    obtain ⟨inject, hrun⟩ := hrun
    refine iff_of_true ⟨_, hrun, ?_, ?_, ?_⟩ (by omega)
    · have hsnipers : (snipers ((av.drop 1).count "--sniper".toList)).length =
          2 * (av.drop 1).count "--sniper".toList := by
        simp [snipers, Nat.mul_comm]
      rw [Globals.start, Slots.length_filled, Slots.length_filled, List.length_append, hsnipers]
      omega
    · exact List.mem_append_right _ (List.mem_replicate.mpr ⟨by omega, rfl⟩)
    · refine ⟨snipers ((av.drop 1).count "--sniper".toList), ?_, fun c hc => mem_snipers hc⟩
      rw [Slots.walk_filled, if_neg (by omega)]
  · rw [if_neg hcount] at hrun
    refine iff_of_false ?_ (by omega)
    rintro ⟨g, hg, -⟩
    cases hrun.symm.trans hg

theorem handleOpts_intact_sniper :
    ∃ g, handleOpts true ["tinjpage".toList, "--mce-inject".toList, "--sniper".toList] = .ok g ∧
      Intact true g :=
  (handleOpts_intact_iff true (by decide)).mpr (by decide)

theorem handleOpts_overrun :
    KnownOptions ["tinjpage".toList, "--sniper".toList, "--sniper".toList] ∧
      ∀ g, handleOpts false ["tinjpage".toList, "--sniper".toList, "--sniper".toList] ≠ .ok g :=
  ⟨by decide, fun g hg => by cases hg⟩

end MceTest.Tinjpage
