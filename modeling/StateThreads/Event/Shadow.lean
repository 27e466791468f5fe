import StateThreads.System

/-! An event system that keeps a record beside its data takes the same steps as the one
without the record. -/
namespace StateThreads
open LabelledRun

variable {σ τ ω : Type}

/-- The functions of F are those of E on what bare leaves of its state. -/
structure Shadows (F : EventSys τ ω) (E : EventSys σ ω) (bare : τ → σ) : Prop where
  initial : ∀ evt, E.initial evt → ∃ t, F.initial t ∧ bare t = evt
  pollsetAdd : ∀ t pds, E.pollsetAdd (bare t) pds = (F.pollsetAdd t pds).map (Prod.map bare id)
  pollsetDel : ∀ t pds, E.pollsetDel (bare t) pds = bare (F.pollsetDel t pds)
  wait : ∀ t min ioq, E.wait (bare t) min ioq = (F.wait t min ioq).map (Prod.map bare id)
  visit : ∀ t pds, E.visit (bare t) pds = Prod.map bare id (F.visit t pds)
  withdraw : ∀ t pds, E.withdraw (bare t) pds = bare (F.withdraw t pds)
  stay : ∀ t pds, E.stay (bare t) pds = bare (F.stay t pds)
  finish : ∀ t, E.finish (bare t) = bare (F.finish t)
  fdNew : ∀ t fd, E.fdNew (bare t) fd = (F.fdNew t fd).map (Prod.map bare id)
  outside : ∀ t change, E.outside (bare t) change = bare (F.outside t change)

def System.bare (bare : τ → σ) (s : System τ) : System σ := ⟨s.vp, bare s.evt⟩

variable {F : EventSys τ ω} {E : EventSys σ ω} {bare : τ → σ} (shadows : Shadows F E bare)
include shadows

theorem Shadows.dispatchLoop (q : List Tid) (t : τ) (vp : Vp) :
    dispatchLoop E q (bare t) vp = (dispatchLoop F q t vp).map (Prod.map bare id) := by
  induction q generalizing t vp with
  | nil => rfl
  | cons thread q ih =>
    simp only [StateThreads.dispatchLoop, shadows.visit, Prod.map_fst, Prod.map_snd, id]
    split
    · simp only [Option.bind_eq_bind, Option.map_bind, Function.comp_def, shadows.withdraw, ih]
    · rw [shadows.stay, ih]

theorem Shadows.dispatch (t : τ) (vp : Vp) :
    dispatch E (bare t) vp = (dispatch F t vp).map (Prod.map bare id) := by
  simp only [StateThreads.dispatch, shadows.wait, Option.bind_eq_bind, Option.bind_map, Option.map_bind]
  congr 1; funext answer
  obtain ⟨t₁, found⟩ := answer
  cases found with
  | false => rfl
  | true =>
    simp only [Function.comp_apply, Prod.map_fst, Prod.map_snd, id, if_true, shadows.dispatchLoop, Option.bind_map,
      Option.map_bind]
    congr 1; funext walked
    simp [shadows.finish]

theorem Shadows.poll (s : System τ) (pds : List PollFd) (timeout : UTime) :
    stPoll E (s.bare bare) pds timeout = (stPoll F s pds timeout).map (Prod.map (System.bare bare) id) := by
  cases interrupted : (s.vp.thr s.vp.current).flags.interrupt with
  | true =>
    simp only [stPoll, System.bare, interrupted, if_true, Option.map_map, Function.comp_def, Prod.map, id]
  | false =>
    simp only [stPoll, System.bare, interrupted, Bool.false_eq_true, if_false, shadows.pollsetAdd, Option.bind_eq_bind,
      Option.bind_map, Option.map_bind, Function.comp_def]
    congr 1; funext answer
    obtain ⟨t, error⟩ := answer
    cases error with
    | some e => rfl
    | none => simp only [Prod.map, id, Option.map_bind, Function.comp_def, Option.map_some, System.bare]

theorem Shadows.pollResume (s : System τ) :
    stPollResume E (s.bare bare) = (stPollResume F s).map (Prod.map (System.bare bare) id) := by
  cases queued : (s.vp.pollq s.vp.current).onIoq <;>
    simp [stPollResume, System.bare, queued, shadows.pollsetDel, Option.map_bind, Function.comp_def]

theorem Shadows.idleTurn (s : System τ) (now : UTime) (time : Nat) :
    stIdleTurn E (s.bare bare) now time = (stIdleTurn F s now time).map (Prod.map (System.bare bare) id) := by
  simp only [stIdleTurn, System.bare, shadows.dispatch, Option.bind_eq_bind, Option.bind_map, Option.map_bind,
    Function.comp_def, Option.map_some, Prod.map, id]

omit shadows in
theorem System.lift_bare (bare : τ → σ) (s : System τ) (r : Outcome) :
    (s.bare bare).lift r = (s.lift r).map (Prod.map (System.bare bare) id) := by
  simp only [System.lift, Option.map_map, Function.comp_def, Prod.map, id, System.bare]

theorem Shadows.step (s : System τ) (l : Label ω) :
    step E (s.bare bare) l = (step F s l).map (Prod.map (System.bare bare) id) := by
  cases l with
  | call op =>
    cases op with
    | poll pds timeout => exact shadows.poll s pds timeout
    | fdNew fd =>
      simp only [StateThreads.step, call, System.bare, shadows.fdNew, Option.map_map, Function.comp_def, Prod.map, id]
    | condNew | condDestroy | mutexNew | mutexDestroy => rfl
    | _ => exact System.lift_bare bare s _
  | resume =>
    simp only [StateThreads.step, resume, System.bare]
    split
    · rfl
    · exact System.lift_bare bare s _
    · exact shadows.pollResume s
    · exact System.lift_bare bare s _
    · exact System.lift_bare bare s _
    · exact System.lift_bare bare s _
    · exact System.lift_bare bare s _
    · rfl
  | idle now time => exact shadows.idleTurn s now time
  | outside change => simp [StateThreads.step, System.bare, shadows.outside]

theorem Shadows.enabled (s : System τ) (l : Label ω) : enabled E (s.bare bare) l = enabled F s l := by
  cases l with
  | call op =>
    cases op with
    | poll pds timeout =>
      have same : (E.pollsetAdd (bare s.evt) pds).isSome = (F.pollsetAdd s.evt pds).isSome := by
        rw [shadows.pollsetAdd, Option.isSome_map]
      exact congrArg (decide ((s.vp.thr s.vp.current).context = .user) && ·) same
    | fdNew fd =>
      have same : (E.fdNew (bare s.evt) fd).isSome = (F.fdNew s.evt fd).isSome := by
        rw [shadows.fdNew, Option.isSome_map]
      exact congrArg (decide ((s.vp.thr s.vp.current).context = .user) && ·) same
    | _ => rfl
  | resume => rfl
  | idle now time =>
    have same : ∀ min ioq, (E.wait (bare s.evt) min ioq).isSome = (F.wait s.evt min ioq).isSome := by
      intro min ioq
      rw [shadows.wait, Option.isSome_map]
    exact congrArg (decide ((s.vp.thr s.vp.current).context = .idle) && decide (0 < s.vp.activeCount) && ·) (same _ _)
  | outside change => rfl

theorem Shadows.run {hist : List (SysEvent σ ω)} {s : System σ} (run : SysRun E hist s) :
    ∃ hist' t, SysRun F hist' t ∧ t.bare bare = s := by
  induction run with
  | begin started =>
    obtain ⟨initial, vp⟩ := started
    obtain ⟨t, start, same⟩ := shadows.initial _ initial
    exact ⟨[], ⟨_, t⟩, .begin ⟨start, vp⟩, by rw [System.bare, same]⟩
  | @next hist e before fired ih =>
    obtain ⟨hist', t, run, same⟩ := ih
    have step := fired.step
    have ready := fired.enabled
    simp only [machine, ← same, shadows.step, shadows.enabled, Option.map_eq_some_iff] at step ready
    obtain ⟨⟨t', out⟩, done, equal⟩ := step
    exact ⟨_, t', run.next (e := ⟨t, e.label, out, t'⟩) ⟨ready, done⟩, congrArg Prod.fst equal⟩

end StateThreads
