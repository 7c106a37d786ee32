import MceTest.Tinjpage.Invariant

/-! The steps of the main program of `tinjpage` keep the invariant. -/

namespace MceTest.Tinjpage

section

variable {cases : List Testcase} {s s' : State} {pr pr' : Proc} {k : Kernel}

structure MainMoved (pr pr' : Proc) (k : Kernel) : Prop where
  main : MainOk pr'
  earlyKill : pr'.earlyKill = pr.earlyKill
  failure : pr'.failure = pr.failure
  running : pr'.ctl ≠ .returned 0
  next : 0 < pr.bumps k ∨ pr'.ctl.gone = true ∨ pr'.ctl.awaited = pr.ctl.awaited

theorem localStep_main (hmain : MainOk pr) (h : pr.localStep k = some pr') :
    MainMoved pr pr' k := by
  have hctl := hmain.ctl
  have hmove {ctl : Ctl} (rc : Int) (hof : ctl.ofMain = true) (hrun : ctl ≠ .returned 0)
      (hnext : 0 < pr.bumps k ∨ ctl.gone = true ∨ ctl.awaited = pr.ctl.awaited) :
      MainMoved pr { pr with recovercount := rc, ctl } k :=
    ⟨⟨hmain.role, hmain.handler, hmain.failed, hof, fun h => absurd h hrun⟩, rfl, rfl, hrun,
      hnext⟩
  unfold Proc.localStep at h
  split at h
  case h_13 hpc =>
    rw [hpc] at hctl
    cases hctl
  case h_14 hpc =>
    rw [hpc] at hctl
    cases hctl
  case h_15 => cases h
  case h_12 hpc =>
    cases h
    exact hmove pr.recovercount rfl (by simp)
      (.inl (by simp [Proc.bumps, hpc]))
  case h_2 hpc | h_10 hpc =>
    cases h
    exact hmove pr.recovercount rfl (by simp) (.inr (.inl rfl))
  case h_4 hpc | h_5 hpc =>
    cases h
    exact hmove 5 rfl (by simp) (.inr (.inr (by rw [hpc]; rfl)))
  all_goals
    rename_i hpc
    cases h
    exact hmove pr.recovercount rfl (by simp) (.inr (.inr (by rw [hpc]; rfl)))

theorem Over.bump {n : Nat} (hn : 0 < n) (pr : Proc) : Over (pr.bump n) :=
  .inl (Nat.lt_of_lt_of_le hn (Nat.le_add_left ..))

theorem siginfo_exited {ctl : Ctl} {status : Nat} (h : ctl.siginfo = some (cldExited, status)) :
    ctl = .exited status := by
  cases ctl with
  | exited => cases h; rfl
  | killed signo dumped => cases dumped <;> cases h
  | _ => cases h

theorem siginfo_over {ctl : Ctl} {info : Nat × Nat} (h : ctl.siginfo = some info) :
    ctl.over = true := by
  cases ctl
  all_goals first
    | rfl
    | cases h

theorem accepted_of_childError {q code status : Nat} (hhandler : pr.handler = true)
    (hinfo : (s.proc q).ctl.siginfo = some (code, status)) (herror : childError pr code = false)
    (hrole : (s.proc q).role = .shared) (hok : ChildOk (s.proc q)) : Accepted (s.proc q) := by
  have hcode : code = cldExited := by
    rw [childError, hhandler] at herror
    simpa using herror
  rw [hcode] at hinfo
  rw [childOk_shared hrole] at hok
  rw [Accepted, hrole]
  exact ⟨hok.exited status (siginfo_exited hinfo), .inr (siginfo_over hinfo)⟩

theorem accepted_of_asExpected {q code status : Nat} {survivable : Bool}
    (hinfo : (s.proc q).ctl.siginfo = some (code, status))
    (hexpected : notAsExpected survivable code status = false)
    (hrole : (s.proc q).role = .suicide survivable) (hok : ChildOk (s.proc q)) :
    Accepted (s.proc q) := by
  rw [childOk_suicide hrole] at hok
  rw [Accepted, hrole]
  cases survivable with
  | true =>
    have hcode : code = cldExited := by simpa [notAsExpected] using hexpected
    rw [hcode] at hinfo
    exact ⟨siginfo_over hinfo, hok.exited rfl status (siginfo_exited hinfo), fun h => by cases h⟩
  | false =>
    have hstatus : status = sigbus := by
      have h : ¬ (code &&& cldKilldump = 0) ∧ status = sigbus := by
        simpa [notAsExpected] using hexpected
      exact h.2
    cases hctl : (s.proc q).ctl with
    | exited st =>
      rw [hctl] at hinfo
      cases hinfo
      exact absurd hstatus (hok.status status hctl)
    | killed signo dumped =>
      rw [hctl] at hinfo
      cases hinfo
      rw [hstatus] at hctl
      exact ⟨rfl, hok.killed rfl dumped hctl, fun _ => ⟨dumped, rfl.trans (by rw [hstatus])⟩⟩
    | _ =>
      rw [hctl] at hinfo
      cases hinfo

theorem mainStep_inv (hs : Inv s) (hpc : (s.proc 0).ctl = .ops []) : Inv (mainStep cases s 0) := by
  have hmain := hs.main
  have halive : (s.proc 0).ctl.over = false := by rw [hpc]; rfl
  have hstay : ∀ ctl : Ctl, ctl.awaited = none → ctl.awaited = (s.proc 0).ctl.awaited :=
    fun ctl h => h.trans (by rw [hpc]; rfl)
  unfold mainStep
  dsimp only
  split
  case h_1 | h_5 =>
    exact hs.main_put rfl rfl hs.phase halive (hmain.goto rfl (by simp)) (Nat.le_refl _)
      (.inr (.inl (hstay _ rfl)))
  case h_2 hphase _ =>
    have hproc : s.proc = Function.update s.proc 0 (s.proc 0) := (Function.update_eq_self ..).symm
    exact hs.main_put hproc rfl (fun _ => hs.phase (by simp [hphase])) halive hmain
      (Nat.le_refl _) (.inr (.inl rfl))
  case h_3 c todo hphase _ =>
    refine hs.main_fork rfl rfl rfl halive (by rw [hpc]; rfl) rfl rfl ?_
    exact ⟨hs.phase (by simp [hphase]), fun _ => .inr ⟨_, rfl⟩, fun _ _ _ => rfl,
      fun _ _ _ => rfl, fun _ h => (by cases h)⟩
  case h_4 =>
    refine hs.main_put rfl rfl (fun h => absurd rfl h) halive ?_ (Nat.le_refl _)
      (.inr (.inl rfl))
    exact ⟨hmain.role, rfl, hmain.failed, hmain.ctl, hmain.returned⟩
  case h_6 =>
    refine hs.main_put rfl rfl hs.phase halive ?_ (Nat.le_refl _) (.inr (.inl (hstay _ rfl)))
    refine ⟨hmain.role, hmain.handler, hmain.failed, rfl, fun h => ?_⟩
    have hrc : (if (s.proc 0).failure > 0 then 1 else 0) = 0 := Ctl.returned.inj h
    split at hrc
    · cases hrc
    · rename_i hzero
      exact Nat.eq_zero_of_not_pos hzero

theorem ownStep_main (hs : Inv s) (h : ownStep cases s 0 k = some s') : Inv s' := by
  have hmain := hs.main
  have hctl := hmain.ctl
  have halive := ownStep_alive h
  unfold ownStep at h
  dsimp only at h
  split at h
  case h_1 hpc =>
    rw [hmain.role] at h
    cases h
    exact mainStep_inv hs hpc
  case h_2 hpc =>
    cases h
    refine hs.main_fork rfl rfl rfl halive (by rw [hpc]; rfl) rfl rfl ?_
    exact ⟨fun _ _ => rfl, fun h => absurd (hmain.handler.symm.trans h) (by simp), trivial⟩
  case h_3 child rest hpc =>
    split at h
    · cases h
      refine hs.main_put rfl rfl hs.phase halive ?_ (Nat.le_refl _)
        (.inr (.inl (by rw [hpc]; rfl)))
      exact ⟨hmain.role, rfl, hmain.failed, rfl, fun h => by cases h⟩
    · cases h
      exact hs.main_put rfl rfl hs.phase halive (hmain.goto rfl (by simp))
        (Nat.le_refl _) (.inr (.inl (by rw [hpc]; rfl)))
  case h_4 child rest hpc =>
    split at h
    · cases h
    · rename_i code status hinfo
      split at h
      · cases h
        refine hs.main_put rfl rfl hs.phase halive ?_ (Nat.le_add_right ..)
          (.inl (.inl (Nat.succ_pos _)))
        exact (hmain.bump 1 (by simp [hpc])).goto rfl (by simp)
      · rename_i herror
        cases h
        refine hs.main_put rfl rfl hs.phase halive (hmain.goto rfl (by simp)) (Nat.le_refl _)
          (.inr (.inr ⟨rfl, fun q role hq hrole hhandler hok => ?_⟩))
        rw [hpc] at hq
        cases hq
        exact accepted_of_childError hmain.handler hinfo (Bool.eq_false_iff.mpr herror) hrole hok
  case h_5 hpc =>
    rw [hpc] at hctl
    cases hctl
  case h_6 child survivable hpc =>
    split at h
    · cases h
    · rename_i code status hinfo
      cases h
      refine hs.main_put rfl rfl hs.phase halive ?_ (Nat.le_add_right ..) ?_
      · exact (hmain.bump _ (by simp [hpc])).goto rfl (by simp)
      · cases hexpected : notAsExpected survivable code status with
        | true => exact .inl (.inl (Nat.succ_pos _))
        | false =>
          refine .inr (.inr ⟨rfl, fun q role hq hrole _ hok => ?_⟩)
          rw [hpc] at hq
          cases hq
          exact accepted_of_asExpected hinfo hexpected hrole hok
  case h_7 =>
    obtain ⟨pr', hstep, rfl⟩ := Option.map_eq_some_iff.mp h
    have hmoved := localStep_main hmain hstep
    refine hs.main_put rfl rfl ?_ halive (hmoved.main.bump _ hmoved.running) ?_ ?_
    · exact fun hphase => hmoved.earlyKill.trans (hs.phase hphase)
    · exact hmoved.failure ▸ Nat.le_add_right ..
    · rcases hmoved.next with hn | hgone | hsame
      · exact .inl (.bump hn pr')
      · exact .inl (.inr hgone)
      · exact .inr (.inl hsame)

theorem signalStep_main {si : Siginfo} {dumped : Bool} (hs : Inv s)
    (hjump : deadJump s (.signal 0 si dumped) = false) (h : signalStep s 0 si dumped = some s') :
    Inv s' := by
  have hmain := hs.main
  obtain ⟨halive, ⟨-, rfl⟩ | ⟨hdefault, -⟩⟩ := signalStep_cases h
  · have hrun : (s.proc 0).ctl ≠ .returned 0 := fun h => by rw [h] at halive; cases halive
    have hcounted : MainOk ((s.proc 0).counted si) := by
      have hbump := hmain.bump (if si.addr then 0 else 1) hrun
      exact ⟨hbump.role, hbump.handler, hbump.failed, hbump.ctl, hbump.returned⟩
    have hle : (s.proc 0).failure ≤ ((s.proc 0).counted si).failure := Nat.le_add_right ..
    rcases sighandler_cases (jump_of_deadJump hjump hmain.handler) with
      ⟨-, heq⟩ | ⟨n, ctl, htarget, heq⟩
    · rw [heq]
      exact hs.main_put rfl rfl hs.phase halive (hcounted.goto rfl (by simp)) hle (.inl (.inr rfl))
    · rw [heq]
      obtain ⟨hof, hlive, hawaited, -⟩ := jump_next htarget
      have hnot : ctl ≠ .returned 0 := fun h => by rw [h] at hlive; cases hlive
      exact hs.main_put rfl rfl hs.phase halive ((hcounted.bump n hrun).goto hof hnot)
        (hle.trans (Nat.le_add_right ..)) (.inr (.inl hawaited))
  · exact absurd (hmain.handler.symm.trans hdefault) (by decide)

theorem killStep_main {dumped : Bool} (hs : Inv s) (h : killStep s 0 dumped = some s') :
    Inv s' := by
  obtain ⟨halive, rfl⟩ := killStep_cases h
  exact hs.main_put rfl rfl hs.phase halive (hs.main.goto rfl (by simp)) (Nat.le_refl _)
    (.inl (.inr rfl))

end

end MceTest.Tinjpage
