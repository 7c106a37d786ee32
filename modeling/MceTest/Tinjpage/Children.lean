import MceTest.Tinjpage.Invariant

/-! The steps of the children of `tinjpage` keep the invariant. -/

namespace MceTest.Tinjpage

section

variable {cases : List Testcase} {s s' : State} {pr pr' : Proc} {k : Kernel} {p : Nat}

theorem Inv.child_move (hs : Inv s) (hpos : 0 < p) (halive : (s.proc p).ctl.over = false)
    (hproc : s'.proc = Function.update s.proc p pr) (hcount : s'.count = s.count)
    (hphase : s'.phase = s.phase) (hrole : pr.role = (s.proc p).role)
    (hhandler : (s.proc p).role = .shared → pr.handler = (s.proc p).handler) (hok : ChildOk pr) :
    Inv s' := by
  have hothers (q : Nat) (hq : q ≠ p) : s'.proc q = s.proc q := by
    rw [hproc, Function.update_of_ne hq]
  refine hs.child_put hpos halive (by rw [hproc, Function.update_self]) (fun q _ => hothers q)
    hphase hrole hhandler hok (fun q hge hlt => by omega) (fun q hq => ?_) hcount.ge
  rw [hothers q]
  · exact hs.unborn q (hcount ▸ hq)
  · rintro rfl
    rw [hs.unborn q (hcount ▸ hq)] at halive
    cases halive

theorem SuicideOk.live {survivable : Bool} (hearly : pr.earlyKill = false)
    (hhandler : pr.handler = false) (hlive : pr.ctl.over = false) : SuicideOk survivable pr where
  earlyKill := hearly
  handler := fun h => absurd (hhandler.symm.trans h) Bool.false_ne_true
  exited := fun _ status h => by rw [h] at hlive; cases hlive
  killed := fun _ dumped h => by rw [h] at hlive; cases hlive
  status := fun status h => by rw [h] at hlive; cases hlive

theorem SuicideOk.default {survivable : Bool} (h : SuicideOk survivable pr)
    (halive : pr.ctl.over = false) (hstarted : ∀ rest, pr.ctl ≠ .starting rest) :
    pr.handler = false := by
  cases hhandler : pr.handler with
  | false => rfl
  | true =>
    rcases h.handler hhandler with hover | ⟨rest, hrest⟩
    · rw [halive] at hover
      cases hover
    · exact absurd hrest (hstarted rest)

theorem SuicideOk.exit {survivable : Bool} (h : SuicideOk survivable pr)
    (hfailed : survivable = true → pr.failed = false) {status : Nat} (hstatus : status ≠ sigbus) :
    SuicideOk survivable (pr.goto (.exited status)) where
  earlyKill := h.earlyKill
  handler := fun _ => .inl rfl
  exited := fun hsurvivable _ _ => hfailed hsurvivable
  killed := fun _ _ h => by cases h
  status := fun _ h => by cases h; exact hstatus

theorem localStep_suicide {survivable : Bool} (hok : SuicideOk survivable pr)
    (hlost : survivable = true → pr.exits k = true → pr.failed = false)
    (h : pr.localStep k = some pr') :
    pr'.role = pr.role ∧ SuicideOk survivable (pr'.bump (pr.bumps k)) := by
  have halive := localStep_alive h
  have hlive (hstarted : ∀ rest, pr.ctl ≠ .starting rest) {ctl : Ctl} (hrun : ctl.over = false)
      (rc : Int) (n : Nat) :
      SuicideOk survivable (({ pr with recovercount := rc, ctl } : Proc).bump n) :=
    .live hok.earlyKill (hok.default halive hstarted) hrun
  unfold Proc.localStep at h
  split at h
  case h_2 fatal _ hpc =>
    cases h
    have hbump : pr.bumps .fails = 0 := by simp [Proc.bumps, hpc]
    have hexits : pr.exits .fails = true := by simp [Proc.exits, hpc]
    rw [hbump, bump_zero]
    exact ⟨rfl, hok.exit (fun h => hlost h hexits) (by cases fatal <;> decide)⟩
  case h_10 hpc =>
    cases h
    have hbump : pr.bumps .einval = 0 := by simp [Proc.bumps, hpc]
    have hexits : pr.exits .einval = true := by simp [Proc.exits, hpc]
    rw [hbump, bump_zero]
    exact ⟨rfl, hok.exit (fun h => hlost h hexits) (by decide)⟩
  case h_13 hpc =>
    cases h
    have hquiet := hok.default halive (by simp [hpc])
    refine ⟨rfl, .live hok.earlyKill ?_ ?_⟩
    · change (pr.handler || pr.earlyKill) = false
      rw [hquiet, hok.earlyKill]
      rfl
    · change (if pr.earlyKill = true then Ctl.getSemaphore else _).over = false
      split <;> rfl
  case h_14 hpc =>
    cases h
    exact ⟨rfl, .live hok.earlyKill rfl rfl⟩
  case h_15 => cases h
  all_goals
    rename_i hpc
    cases h
    exact ⟨rfl, hlive (by simp [hpc]) rfl _ _⟩

theorem ownStep_suicide {survivable : Bool} (hs : Inv s) (hpos : 0 < p)
    (hrole : (s.proc p).role = .suicide survivable) (hok : SuicideOk survivable (s.proc p))
    (hlost : survivable = true → (s.proc p).exits k = true → (s.proc p).failed = false)
    (h : ownStep cases s p k = some s') : Inv s' := by
  have halive := ownStep_alive h
  have hput {pr : Proc} {s' : State} (hproc : s'.proc = Function.update s.proc p pr)
      (hcount : s'.count = s.count) (hphase : s'.phase = s.phase)
      (hrole' : pr.role = (s.proc p).role) (hok : SuicideOk survivable pr) : Inv s' := by
    refine hs.child_move hpos halive hproc hcount hphase hrole' (fun h => ?_) ?_
    · rw [hrole] at h
      cases h
    · exact (childOk_suicide (hrole'.trans hrole)).mpr hok
  unfold ownStep at h
  dsimp only at h
  split at h
  case h_1 hpc =>
    rw [hrole] at h
    cases h
    have hexits : (s.proc p).exits .ok = true := by simp [Proc.exits, hpc]
    exact hput rfl rfl rfl rfl
      (hok.exit (fun h => hlost h hexits) (by cases survivable <;> decide))
  case h_2 rest hpc =>
    cases h
    have hquiet := hok.default halive (by simp [hpc])
    have hlt : p < s.count := by
      by_contra hge
      rw [hs.unborn p (Nat.le_of_not_lt hge)] at halive
      cases halive
    have hforked : (s.fork p (.touching s.count rest) .shared .childTouching).proc p =
        (s.proc p).goto (.touching s.count rest) := by
      rw [fork_proc, Function.update_of_ne hlt.ne, Function.update_self]
    refine hs.child_put hpos halive hforked ?_ rfl rfl (fun _ => rfl) ?_ ?_ ?_ (Nat.le_succ _)
    · intro q hq hne
      rw [fork_proc, Function.update_of_ne hq.ne, Function.update_of_ne hne]
    · rw [childOk_goto_suicide hrole]
      exact .live hok.earlyKill hquiet rfl
    · intro q hge hlt
      have hq : q = s.count := Nat.le_antisymm (Nat.le_of_lt_succ hlt) hge
      rw [hq, fork_proc, Function.update_self]
      exact ⟨rfl, hquiet, fun _ _ => rfl, fun _ => ⟨rfl, hok.earlyKill⟩, trivial⟩
    · intro q hq
      have hq : s.count + 1 ≤ q := hq
      rw [fork_proc, Function.update_of_ne (by omega), Function.update_of_ne (by omega)]
      exact hs.unborn q (by omega)
  case h_3 child rest hpc =>
    have hquiet := hok.default halive (by simp [hpc])
    rw [hok.earlyKill, if_neg Bool.false_ne_true] at h
    cases h
    exact hput rfl rfl rfl rfl (.live hok.earlyKill hquiet rfl)
  case h_4 child rest hpc =>
    have hquiet := hok.default halive (by simp [hpc])
    split at h
    · cases h
    · split at h
      all_goals
        cases h
        exact hput rfl rfl rfl rfl (.live hok.earlyKill hquiet rfl)
  case h_5 hpc =>
    have hquiet := hok.default halive (by simp [hpc])
    split at h
    · cases h
      exact hput rfl rfl rfl rfl (.live hok.earlyKill hquiet rfl)
    · cases h
  case h_6 hpc =>
    have hquiet := hok.default halive (by simp [hpc])
    split at h
    · cases h
    · cases h
      exact hput rfl rfl rfl rfl (.live hok.earlyKill hquiet rfl)
  case h_7 =>
    obtain ⟨pr', hstep, rfl⟩ := Option.map_eq_some_iff.mp h
    obtain ⟨hrole', hok'⟩ := localStep_suicide hok hlost hstep
    exact hput rfl rfl rfl hrole' hok'

theorem SharedOk.live {n : Nat} (hplain : pr.ctl.plain) (hlive : pr.ctl.over = false)
    (hquiet : pr.handler = false → pr.failed = false ∧ pr.earlyKill = false ∧ n = 0) :
    SharedOk (pr.bump n) where
  exited := fun status h => by
    change pr.ctl = _ at h
    rw [h] at hlive
    cases hlive
  quiet := fun h => by
    obtain ⟨hfailed, hearly, rfl⟩ := hquiet h
    rw [bump_zero]
    exact ⟨hfailed, hearly⟩
  plain := hplain

theorem SharedOk.exit (h : SharedOk pr) (hfailed : pr.failed = false) (status : Nat) :
    SharedOk (pr.goto (.exited status)) :=
  ⟨fun _ _ => hfailed, h.quiet, trivial⟩

theorem plain_tail {op : Op} {rest : List Op} (h : Ctl.plain (.ops (op :: rest))) :
    Ctl.plain (.ops rest) :=
  fun mode hmem => h mode (.tail _ hmem)

theorem localStep_shared (hok : SharedOk pr)
    (hexits : pr.exits k = true → pr.failed = false)
    (hbumps : pr.handler = false → pr.bumps k = 0) (h : pr.localStep k = some pr') :
    pr'.role = pr.role ∧ pr'.handler = pr.handler ∧ SharedOk (pr'.bump (pr.bumps k)) := by
  have hplain := hok.plain
  have hlive {ctl : Ctl} (hplain : ctl.plain) (hrun : ctl.over = false) (rc : Int) :
      SharedOk (({ pr with recovercount := rc, ctl } : Proc).bump (pr.bumps k)) :=
    .live hplain hrun fun h => ⟨(hok.quiet h).1, (hok.quiet h).2, hbumps h⟩
  unfold Proc.localStep at h
  split at h
  case h_2 fatal _ hpc =>
    cases h
    have hbump : pr.bumps .fails = 0 := by simp [Proc.bumps, hpc]
    rw [hbump, bump_zero]
    exact ⟨rfl, rfl, hok.exit (hexits (by simp [Proc.exits, hpc])) _⟩
  case h_10 hpc =>
    cases h
    have hbump : pr.bumps .einval = 0 := by simp [Proc.bumps, hpc]
    rw [hbump, bump_zero]
    exact ⟨rfl, rfl, hok.exit (hexits (by simp [Proc.exits, hpc])) _⟩
  case h_13 hpc =>
    cases h
    have hbump : pr.bumps .ok = 0 := by simp [Proc.bumps, hpc]
    have hsame : (pr.handler || pr.earlyKill) = pr.handler := by
      cases hhandler : pr.handler with
      | true => rfl
      | false => rw [(hok.quiet hhandler).2]; rfl
    rw [hbump]
    refine ⟨rfl, hsame, .live ?_ ?_ fun h => ?_⟩
    · change (if pr.earlyKill = true then Ctl.getSemaphore else .ops (testmem .mwrite)).plain
      split
      · exact trivial
      · intro mode
        simp [testmem]
    · change (if pr.earlyKill = true then Ctl.getSemaphore else
        .ops (testmem .mwrite)).over = false
      split <;> rfl
    · have hquiet := hok.quiet (hsame.symm.trans h)
      exact ⟨hquiet.1, hquiet.2, rfl⟩
  case h_14 hpc =>
    rw [hpc] at hplain
    exact hplain.elim
  case h_12 hpc =>
    rw [hpc] at hplain
    exact hplain.elim
  case h_15 => cases h
  case h_8 hpc | h_9 hpc | h_11 hpc =>
    cases h
    rw [hpc] at hplain
    refine ⟨rfl, rfl, hlive ?_ rfl _⟩
    exact hplain
  all_goals
    rename_i hpc
    cases h
    rw [hpc] at hplain
    refine ⟨rfl, rfl, hlive ?_ rfl _⟩
    exact plain_tail hplain

theorem ownStep_shared (hs : Inv s) (hpos : 0 < p) (hrole : (s.proc p).role = .shared)
    (hok : SharedOk (s.proc p)) (hexits : (s.proc p).exits k = true → (s.proc p).failed = false)
    (hbumps : (s.proc p).handler = false → (s.proc p).bumps k = 0)
    (h : ownStep cases s p k = some s') : Inv s' := by
  have hplain := hok.plain
  have halive := ownStep_alive h
  have hput {pr : Proc} {s' : State} (hproc : s'.proc = Function.update s.proc p pr)
      (hcount : s'.count = s.count) (hphase : s'.phase = s.phase)
      (hrole' : pr.role = (s.proc p).role) (hhandler : pr.handler = (s.proc p).handler)
      (hok : SharedOk pr) : Inv s' := by
    refine hs.child_move hpos halive hproc hcount hphase hrole' (fun _ => hhandler) ?_
    exact (childOk_shared (hrole'.trans hrole)).mpr hok
  unfold ownStep at h
  dsimp only at h
  split at h
  case h_1 hpc =>
    rw [hrole] at h
    cases h
    exact hput rfl rfl rfl rfl rfl
      (hok.exit (hexits (by simp [Proc.exits, hpc])) _)
  case h_2 mode rest hpc =>
    rw [hpc] at hplain
    exact absurd (List.mem_cons_self ..) (hplain mode)
  case h_5 hpc =>
    split at h
    · cases h
      refine hput rfl rfl rfl rfl rfl ⟨fun _ h => (by cases h), hok.quiet, ?_⟩
      intro mode
      simp [testmem]
    · cases h
  case h_7 =>
    obtain ⟨pr', hstep, rfl⟩ := Option.map_eq_some_iff.mp h
    obtain ⟨hrole', hhandler, hok'⟩ := localStep_shared hok hexits hbumps hstep
    exact hput rfl rfl rfl hrole' hhandler hok'
  all_goals
    rename_i hpc
    rw [hpc] at hplain
    exact hplain.elim

theorem Inv.childOk (hs : Inv s) (hpos : 0 < p) (halive : (s.proc p).ctl.over = false) :
    ChildOk (s.proc p) := by
  apply hs.children p hpos
  by_contra hge
  rw [hs.unborn p (Nat.le_of_not_lt hge)] at halive
  cases halive

theorem ownStep_child (hs : Inv s) (hpos : 0 < p) (hlost : lost s (.own p k) = false)
    (h : ownStep cases s p k = some s') : Inv s' := by
  have hok := hs.childOk hpos (ownStep_alive h)
  unfold lost at hlost
  dsimp only at hlost
  cases hrole : (s.proc p).role with
  | main => exact absurd hrole hok.not_main
  | suicide survivable =>
    rw [childOk_suicide hrole] at hok
    rw [hrole] at hlost
    refine ownStep_suicide hs hpos hrole hok (fun hsurvivable hexits => ?_) h
    simpa [hsurvivable, hexits] using hlost
  | shared =>
    rw [childOk_shared hrole] at hok
    rw [hrole] at hlost
    obtain ⟨hfailed, hquiet⟩ := Bool.or_eq_false_iff.mp hlost
    refine ownStep_shared hs hpos hrole hok (fun hexits => ?_) (fun hhandler => ?_) h
    · simpa [hexits] using hfailed
    · simpa [hhandler] using hquiet

theorem counted_failed {si : Siginfo} (hone : pr.recovercount = 1) (hhandler : pr.handler = true)
    (hlost : (pr.handler && pr.recovercount = 1 && (pr.failed || !si.addr)) = false) :
    (pr.counted si).failed = false := by
  have hboth : pr.failed = false ∧ si.addr = true := by simpa [hone, hhandler] using hlost
  rw [Proc.counted, if_pos hboth.2, bump_zero]
  exact hboth.1

theorem SuicideOk.signal {survivable : Bool} {si : Siginfo} {dumped : Bool}
    (hok : SuicideOk survivable (s.proc p)) (halive : (s.proc p).ctl.over = false)
    (hhandler : (s.proc p).handler = true)
    (hlost : survivable = true → ((s.proc p).handler && (s.proc p).recovercount = 1 &&
      ((s.proc p).failed || !si.addr)) = false)
    (hjump : deadJump s (.signal p si dumped) = false) :
    SuicideOk survivable ((s.proc p).sighandler si) := by
  rcases sighandler_cases (jump_of_deadJump hjump hhandler) with
    ⟨hone, heq⟩ | ⟨n, ctl, htarget, heq⟩
  · rw [heq]
    exact ⟨hok.earlyKill, fun _ => .inl rfl,
      fun hsurvivable _ _ => counted_failed hone hhandler (hlost hsurvivable),
      fun _ _ h => (by cases h), fun status h => by cases h; decide⟩
  · -- before it takes the default action, the child has nowhere to jump
    rcases hok.handler hhandler with hover | ⟨rest, hrest⟩
    · rw [halive] at hover
      cases hover
    · simp [Proc.jump, hrest] at htarget

theorem SharedOk.signal {si : Siginfo} {dumped : Bool} (hok : SharedOk (s.proc p))
    (hhandler : (s.proc p).handler = true)
    (hlost : ((s.proc p).handler && (s.proc p).recovercount = 1 &&
      ((s.proc p).failed || !si.addr)) = false)
    (hjump : deadJump s (.signal p si dumped) = false) :
    SharedOk ((s.proc p).sighandler si) := by
  have hquiet : ¬ (s.proc p).handler = false := fun h => absurd (hhandler.symm.trans h) (by simp)
  rcases sighandler_cases (jump_of_deadJump hjump hhandler) with
    ⟨hone, heq⟩ | ⟨n, ctl, htarget, heq⟩
  · rw [heq]
    exact ⟨fun _ _ => counted_failed hone hhandler hlost, fun h => absurd h hquiet, trivial⟩
  · rw [heq]
    obtain ⟨-, hlive, -, hplain⟩ := jump_next htarget
    refine ⟨fun status h => ?_, fun h => absurd h hquiet, hplain hok.plain⟩
    have hctl : ctl = .exited status := h
    rw [hctl] at hlive
    cases hlive

theorem sighandler_same (pr : Proc) (si : Siginfo) :
    (pr.sighandler si).role = pr.role ∧ (pr.sighandler si).handler = pr.handler := by
  unfold Proc.sighandler
  dsimp only
  split
  · exact ⟨rfl, rfl⟩
  · split <;> exact ⟨rfl, rfl⟩

theorem signalStep_child {si : Siginfo} {dumped : Bool} (hs : Inv s) (hpos : 0 < p)
    (hlost : lost s (.signal p si dumped) = false)
    (hjump : deadJump s (.signal p si dumped) = false) (h : signalStep s p si dumped = some s') :
    Inv s' := by
  obtain ⟨halive, ⟨hhandler, rfl⟩ | ⟨hdefault, rfl⟩⟩ := signalStep_cases h
  · have hok := hs.childOk hpos halive
    have hsame := sighandler_same (s.proc p) si
    unfold lost at hlost
    dsimp only at hlost
    refine hs.child_move hpos halive rfl rfl rfl hsame.1 (fun _ => hsame.2) ?_
    cases hrole : (s.proc p).role with
    | main => exact absurd hrole hok.not_main
    | suicide survivable =>
      rw [childOk_suicide hrole] at hok
      rw [childOk_suicide (hsame.1.trans hrole)]
      rw [hrole] at hlost
      exact hok.signal halive hhandler (fun h => by simpa [h] using hlost) hjump
    | shared =>
      rw [childOk_shared hrole] at hok
      rw [childOk_shared (hsame.1.trans hrole)]
      rw [hrole] at hlost
      exact hok.signal hhandler hlost hjump
  · have hok := hs.childOk hpos halive
    unfold lost at hlost
    dsimp only at hlost
    refine hs.child_move hpos halive rfl rfl rfl rfl (fun _ => rfl) ?_
    cases hrole : (s.proc p).role with
    | main => exact absurd hrole hok.not_main
    | suicide survivable =>
      rw [childOk_suicide hrole] at hok
      rw [hrole] at hlost
      rw [childOk_goto_suicide hrole]
      refine ⟨hok.earlyKill, fun _ => .inl rfl, fun _ _ h => (by cases h), ?_,
        fun _ h => (by cases h)⟩
      intro hsurvivable _ _
      change (s.proc p).failed = false
      simpa [hsurvivable, hdefault] using hlost
    | shared =>
      rw [childOk_shared hrole] at hok
      rw [childOk_goto_shared hrole]
      exact ⟨fun _ h => (by cases h), hok.quiet, trivial⟩

theorem killStep_child {dumped : Bool} (hs : Inv s) (hpos : 0 < p)
    (h : killStep s p dumped = some s') : Inv s' := by
  obtain ⟨halive, rfl⟩ := killStep_cases h
  have hok := hs.childOk hpos halive
  refine hs.child_move hpos halive rfl rfl rfl rfl (fun _ => rfl) ?_
  cases hrole : (s.proc p).role with
  | main => exact absurd hrole hok.not_main
  | suicide survivable =>
    rw [childOk_suicide hrole] at hok
    rw [childOk_goto_suicide hrole]
    exact ⟨hok.earlyKill, fun _ => .inl rfl, fun _ _ h => (by cases h),
      fun _ _ h => (by cases h), fun _ h => (by cases h)⟩
  | shared =>
    rw [childOk_shared hrole] at hok
    rw [childOk_goto_shared hrole]
    exact ⟨fun _ h => (by cases h), hok.quiet, trivial⟩

end

end MceTest.Tinjpage
