import StateThreads.Contract.Calls

/-! Condition variables over whole runs: what becomes of a signal. -/
namespace StateThreads
open LabelledRun

variable {σ ω : Type}

def Vp.CondWaits (vp : Vp) (c : CondId) (t : Tid) : Prop :=
  t ∈ (vp.cond c).waitQ ∧ (vp.thr t).state = .condWait

/-- The wait of t on c is over and has neither a time-out nor an interrupt to report, but
t has not run yet. -/
def Vp.owed (vp : Vp) (c : CondId) (t : Tid) : Bool :=
  (vp.thr t).context = .cond c none && !(vp.thr t).state.blocked && !(vp.thr t).flags.interrupt &&
    !(vp.thr t).flags.timedout

def owedWaits (vp : Vp) (c : CondId) : List Tid := (vp.cond c).waitQ.filter (vp.owed c)

/-- An interrupt of a thread between the signal that ended its wait on c and its next
turn. -/
def Late (c : CondId) (e : SysEvent σ ω) : Prop :=
  ∃ t, e.label = .call (.threadInterrupt t) ∧ e.pre.vp.owed c t = true

def Label.waitsOn : Label ω → CondId → Bool
  | .call (.condTimedwait d _), c => d = c
  | _, _ => false

def Label.notifies (broadcast : Bool) : Label ω → CondId → Bool
  | .call (.condSignal d), c => d = c && !broadcast
  | .call (.condBroadcast d), c => d = c && broadcast
  | _, _ => false

def waitsReturned (c : CondId) : List (SysEvent σ ω) → Nat
  | [] => 0
  | e :: older => waitsReturned c older +
      if e.out = some (.value 0) ∧ (lastCall (e :: older) e.actor).any (·.label.waitsOn c) = true then 1 else 0

def signalsFound (c : CondId) : List (SysEvent σ ω) → Nat
  | [] => 0
  | e :: older => signalsFound c older +
      if e.label.notifies false c ∧ ∃ t ∈ (e.pre.vp.cond c).waitQ, (e.pre.vp.thr t).state = .condWait then 1 else 0

def broadcastsFound (c : CondId) : List (SysEvent σ ω) → Nat
  | [] => 0
  | e :: older => broadcastsFound c older +
      if e.label.notifies true c then (e.pre.vp.cond c).waitQ.countP fun t => (e.pre.vp.thr t).state = .condWait
      else 0

variable {E : EventSys σ ω} {hist older : List (SysEvent σ ω)} {s : System σ} {e : SysEvent σ ω} {c : CondId}
  {t : Tid}

theorem Vp.owed_iff {vp : Vp} : vp.owed c t = true ↔ (vp.thr t).context = .cond c none ∧
    (vp.thr t).state.blocked = false ∧ (vp.thr t).flags.interrupt = false ∧ (vp.thr t).flags.timedout = false := by
  simp [Vp.owed, and_assoc]

def CondInv (vp : Vp) : Prop :=
  ∀ t c join, (vp.thr t).context = .cond c join → (vp.cond c).termination = join.isSome

theorem Inv.cond_mem {vp : Vp} {r : Option Tid} (inv : Inv vp r) {join : Option Tid}
    (place : (vp.thr t).context = .cond c join) : t ∈ (vp.cond c).waitQ := by
  have count := (inv.views t).cond c
  simp only [Vp.view, place, Context.waitsCond, decide_true, if_true] at count
  exact List.count_pos_iff.mp (by omega)

theorem Inv.cond_allocated {vp : Vp} {r : Option Tid} (inv : Inv vp r) {join : Option Tid}
    (place : (vp.thr t).context = .cond c join) : (vp.cond c).life = .allocated :=
  inv.objects.conds c (List.ne_nil_of_mem (inv.cond_mem place))

theorem CondTouched.termination {vp : Vp} {l : Label ω} {cv : Cond} (touched : CondTouched vp l c cv)
    (born : (vp.cond c).life ≠ .unborn) : cv.termination = (vp.cond c).termination := by
  cases touched with
  | created fresh => exact absurd fresh born
  | _ => rfl

theorem Stepped.condPlace (stepped : Stepped e) {join : Option Tid} (place : (e.post.vp.thr t).context = .cond c join) :
    (e.pre.vp.thr t).context = .cond c join ∨
      t = e.actor ∧ (e.post.vp.thr t).state = .condWait ∧ (e.pre.vp.thr t).flags.interrupt = false ∧
        Parks e.pre.vp e.label .condWait (.cond c join) := by
  by_cases h : t = e.actor
  · subst h
    obtain ⟨th, acted, picked⟩ := stepped.self
    rw [picked.context] at place
    rw [picked.state (by simp)]
    cases acted with
    | @parked state context where_ flag result =>
      simp only at place
      subst place
      have waits : state = .condWait := by
        generalize e.label = l at where_
        cases where_ <;> rfl
      subst waits
      exact .inr ⟨rfl, rfl, flag, where_⟩
    | same | cleared | flagged | idled => exact .inl place
    | rejoined _ before => exact .inl (before.trans place)
    | _ => cases place
  · obtain ⟨th, touched, picked⟩ := stepped.other t h
    rw [picked.context] at place
    obtain same | ⟨-, fresh⟩ := touched.context
    · exact .inl (same ▸ place)
    · rw [fresh] at place
      cases place

theorem Stepped.parks_kind (stepped : Stepped e) (fired : e.Fired (machine E)) {join : Option Tid}
    (parks : Parks e.pre.vp e.label .condWait (.cond c join)) :
    (e.pre.vp.cond c).life = .allocated ∧ (e.pre.vp.cond c).termination = join.isSome := by
  have ok : ∀ op, e.label = .call op → callable E e.pre op = true := fun op cause => SysRun.callable fired cause
  generalize e.label = l at parks ok
  cases parks with
  | cond kind =>
    have ok := ok _ rfl
    simp only [callable, Bool.and_eq_true, decide_eq_true_eq] at ok
    exact ⟨ok.1, kind⟩
  | join joinable => exact stepped.pre.inv.objects.terms _ c joinable

theorem CondInv.step (before : CondInv e.pre.vp) (stepped : Stepped e) (fired : e.Fired (machine E)) :
    CondInv e.post.vp := by
  intro t c join place
  obtain held | ⟨-, -, -, parks⟩ := stepped.condPlace place
  · rw [(stepped.cond c).termination (by simp [stepped.pre.inv.cond_allocated held])]
    exact before t c join held
  · obtain ⟨allocated, kind⟩ := stepped.parks_kind fired parks
    rw [(stepped.cond c).termination (by simp [allocated])]
    exact kind

theorem SysRun.condInv (run : SysRun E hist s) : CondInv s.vp := by
  refine run.induct (P := fun _ s => CondInv s.vp) ?_ ?_
  · intro s started t c join place
    have outside := started.blank.place t
    rw [place] at outside
    cases outside
  · intro hist e before kept fired
    exact kept.step (SysRun.stepped before fired) fired

/- One step and the owed waits. -/

theorem Stepped.notify (stepped : Stepped e) {broadcast : Bool} (notifies : e.label.notifies broadcast c = true) :
    Roused e.pre.vp (signalled e.pre.vp broadcast (e.pre.vp.cond c).waitQ) (fun t => (e.pre.vp.thr t).flags) e.post.vp ∧
      (e.pre.vp.cond c).termination = false ∧ e.label.isCall = true := by
  obtain ⟨vp', switch, post, move, -⟩ := stepped.move
  rw [post]
  generalize e.label = l at notifies move
  generalize e.out = out at move
  cases move with
  | @interrupted op blocks flag => cases op <;> simp [Op.blocks, Label.notifies] at blocks notifies
  | @signals d _ kind roused =>
    simp only [Label.notifies, Bool.and_eq_true, decide_eq_true_eq, Bool.not_eq_true'] at notifies
    obtain ⟨rfl, rfl⟩ := notifies
    exact ⟨roused, kind, rfl⟩
  | @broadcasts d _ kind roused =>
    simp only [Label.notifies, Bool.and_eq_true, decide_eq_true_eq] at notifies
    obtain ⟨rfl, rfl⟩ := notifies
    exact ⟨roused, kind, rfl⟩
  | _ => cases notifies

theorem Inv.waiter_flags {vp : Vp} {r : Option Tid} (inv : Inv vp r) (live : (vp.thr t).context.live = true)
    (blocked : (vp.thr t).state.blocked = true) :
    (vp.thr t).flags.interrupt = false ∧ (vp.thr t).flags.timedout = false := by
  have ok := inv.views t
  refine ⟨ok.interrupt live blocked, ?_⟩
  cases late : (vp.thr t).flags.timedout with
  | false => rfl
  | true =>
    have awake : (vp.thr t).state.blocked = false := (ok.timedout late).2
    rw [blocked] at awake
    cases awake

theorem Stepped.owed_notify (stepped : Stepped e) (inv : CondInv e.pre.vp) {broadcast : Bool}
    (notifies : e.label.notifies broadcast c = true) :
    e.post.vp.owed c t = true ↔
      t ∈ signalled e.pre.vp broadcast (e.pre.vp.cond c).waitQ ∨ e.pre.vp.owed c t = true := by
  obtain ⟨roused, kind, -⟩ := stepped.notify notifies
  rw [Vp.owed_iff, Vp.owed_iff, roused.thr]
  split
  · rename_i reached
    obtain ⟨waits, state⟩ := mem_signalled reached
    obtain ⟨join, place⟩ := stepped.pre.inv.waitQ_context waits
    have own := inv t c join place
    rw [kind] at own
    obtain rfl : join = none := by simpa using own.symm
    have clear := stepped.pre.inv.waiter_flags (t := t) (by rw [place]; rfl) (by rw [state]; rfl)
    simp [reached, place, clear, ThreadState.blocked]
  · rename_i missed
    simp [missed]

theorem Stepped.owed_other (stepped : Stepped e) (inv : CondInv e.pre.vp) (other : t ≠ e.actor)
    (quiet : ∀ broadcast, e.label.notifies broadcast c = false) (onTime : ¬ Late c e) :
    e.post.vp.owed c t = true ↔ e.pre.vp.owed c t = true := by
  obtain ⟨th, touched, picked⟩ := stepped.other t other
  rw [Vp.owed_iff, Vp.owed_iff, picked.context, picked.blocked, picked.flags]
  have ok := stepped.pre.inv.views t
  cases touched with
  | same => rfl
  | flagged cause live awake =>
    refine ⟨fun h => by simp at h, fun h => absurd ⟨t, cause, Vp.owed_iff.mpr h⟩ onTime⟩
  | reaped zombie =>
    have fits := ok.fits
    simp only [Vp.view, zombie] at fits
    cases place : (e.pre.vp.thr t).context <;> simp_all [Context.fits]
  | created cause unborn => simp [unborn]
  | woken live blocked why =>
    refine ⟨fun h => ?_, fun h => by simp [blocked] at h⟩
    exfalso
    obtain ⟨place, -, flag, late⟩ := h
    simp only at place flag late
    cases why with
    | interrupt => simp at flag
    | @signal d join state there cause =>
      rw [place] at there
      cases there
      obtain ⟨cause | cause, -⟩ | ⟨r, -, term⟩ := cause
      · have := quiet false
        simp [cause, Label.notifies] at this
      · have := quiet true
        simp [cause, Label.notifies] at this
      · have own := inv t c none place
        rw [(stepped.pre.inv.objects.terms _ c term).2] at own
        cases own
    | handOver cause there => rw [place] at there; cases there
    | ready cause polls =>
      have there := polls.1
      rw [place] at there
      cases there
    | timer cause on =>
      have fits := ok.fits
      have timed := (ok.timed on).2
      simp only [Vp.view, place] at fits timed
      obtain state | state | state := timed <;> simp_all [Context.fits, Thread.expired]

theorem Stepped.owed_actor (stepped : Stepped e) :
    e.post.vp.owed c e.actor = true ↔ e.label ≠ .resume ∧ e.pre.vp.owed c e.actor = true := by
  obtain ⟨th, acted, picked⟩ := stepped.self
  have called : ∀ op, e.label = .call op → ¬ e.pre.vp.owed c e.actor = true := by
    intro op cause owed
    have user := stepped.user op cause
    rw [(Vp.owed_iff.mp owed).1] at user
    cases user
  rw [Vp.owed_iff, picked.context, picked.blocked, picked.flags]
  unfold SysEvent.actor at called ⊢
  cases acted with
  | same quiet returned call => rw [← Vp.owed_iff]; simp [call]
  | cleared cause => simp [called _ cause, show (e.pre.vp.thr e.pre.vp.current).context = _ from stepped.user _ cause]
  | flagged cause => simp [called _ cause]
  | parked where_ =>
    obtain ⟨op, cause, -⟩ := where_.waitsAt
    have blocked : ∀ {l : Label ω} {state : ThreadState} {context : Context},
        Parks e.pre.vp l state context → state.blocked = true := by
      intro l state context parks
      cases parks with
      | usleep kind => obtain rfl | rfl := kind <;> rfl
      | _ => rfl
    simp [called op cause, blocked where_]
  | died cause => simp [called _ cause]
  | left cause => simp [called _ cause]
  | idled cause place => simp [Vp.owed, place]
  | rejoined cause => simp [cause]
  | began cause | returned cause | ended cause => simp [cause]

theorem mem_owedWaits {vp : Vp} {r : Option Tid} (inv : Inv vp r) : t ∈ owedWaits vp c ↔ vp.owed c t = true := by
  unfold owedWaits
  rw [List.mem_filter]
  exact ⟨fun h => h.2, fun h => ⟨inv.cond_mem (Vp.owed_iff.mp h).1, h⟩⟩

theorem owedWaits_nodup {vp : Vp} {r : Option Tid} (inv : Inv vp r) : (owedWaits vp c).Nodup :=
  (inv.waitQ_nodup c).filter _

theorem Stepped.waitReturns (stepped : Stepped e) (cause : e.label = .resume)
    (place : (e.pre.vp.thr e.actor).context = .cond c none) :
    e.out = some (waitResult (e.pre.vp.thr e.actor).flags) := by
  obtain ⟨vp', switch, post, move, -⟩ := stepped.move
  unfold SysEvent.actor at place ⊢
  rw [cause] at move
  generalize e.out = out at move
  cases move <;> simp_all

theorem Op.waitsAt_cond {timeout : UTime} {context : Context}
    (waits : (Op.condTimedwait c timeout).waitsAt context = true) : context = .cond c none := by
  cases context with
  | cond d join => cases join <;> simp [Op.waitsAt] at waits; rw [waits]
  | _ => simp [Op.waitsAt] at waits

theorem SysRun.zero_iff (run : SysRun E hist e.pre) (fired : e.Fired (machine E)) :
    (e.out = some (.value 0) ∧ (lastCall (e :: hist) e.actor).any (·.label.waitsOn c) = true) ↔
      e.label = .resume ∧ e.pre.vp.owed c e.actor = true := by
  have stepped := SysRun.stepped run fired
  have awake : (e.pre.vp.thr e.actor).state.blocked = false := stepped.pre.inv.current_awake
  constructor
  · rintro ⟨out, waited⟩
    obtain ⟨b, begun, waits⟩ := (Option.any_eq_true _ _).mp waited
    obtain ⟨timeout, label⟩ : ∃ timeout, b.label = .call (.condTimedwait c timeout) := by
      generalize b.label = l at waits
      cases l with
      | call op => cases op <;> simp [Label.waitsOn] at waits; subst waits; exact ⟨_, rfl⟩
      | _ => simp [Label.waitsOn] at waits
    have done : Completes hist e (.condTimedwait c timeout) (.value 0) b := ⟨out, begun, label⟩
    obtain ⟨cause, -⟩ | ⟨cause, place, -⟩ := done.cases run fired
    · obtain ⟨vp', switch, post, move, -⟩ := stepped.move
      rw [cause, out] at move
      cases move
    · have here := Op.waitsAt_cond place
      refine ⟨cause, Vp.owed_iff.mpr ⟨here, awake, ?_⟩⟩
      have zero := stepped.waitReturns cause here
      rw [out] at zero
      have zero := Option.some.inj zero
      unfold waitResult at zero
      split at zero
      · cases zero
      · split at zero
        · cases zero
        · simp_all
  · rintro ⟨cause, owed⟩
    obtain ⟨here, -, flag, late⟩ := Vp.owed_iff.mp owed
    refine ⟨by rw [stepped.waitReturns cause here]; simp [waitResult, flag, late], ?_⟩
    obtain ⟨b, op, begun, label, place⟩ := run.inside e.actor (by rw [here]; rfl) (by rw [here]; simp)
    rw [lastCall_quiet (by rw [cause]; rfl), begun, Option.any_some, label]
    rw [here] at place
    cases op <;> simp_all [Op.waitsAt, Label.waitsOn]

theorem signalled_length (vp : Vp) (q : List Tid) :
    (signalled vp false q).length = if ∃ t ∈ q, (vp.thr t).state = .condWait then 1 else 0 := by
  unfold signalled
  simp only [Bool.false_eq_true, if_false, List.length_take]
  split
  · rename_i found
    obtain ⟨t, member, state⟩ := found
    have waits : t ∈ q.filter fun t => (vp.thr t).state = .condWait := by simp [member, state]
    have positive := List.length_pos_of_mem waits
    omega
  · rename_i none
    have empty : (q.filter fun t => (vp.thr t).state = .condWait) = [] := by
      simpa using none
    simp [empty]

theorem signalled_nodup (vp : Vp) (broadcast : Bool) {q : List Tid} (distinct : q.Nodup) :
    (signalled vp broadcast q).Nodup := by
  unfold signalled
  split
  · exact distinct.filter _
  · exact (distinct.filter _).sublist (List.take_sublist ..)

theorem Stepped.owed_count_notify (stepped : Stepped e) (inv : CondInv e.pre.vp) {broadcast : Bool}
    (notifies : e.label.notifies broadcast c = true) :
    (owedWaits e.post.vp c).length =
      (owedWaits e.pre.vp c).length + (signalled e.pre.vp broadcast (e.pre.vp.cond c).waitQ).length := by
  have distinct := signalled_nodup e.pre.vp broadcast (stepped.pre.inv.waitQ_nodup c)
  have apart : ∀ t ∈ owedWaits e.pre.vp c, t ∉ signalled e.pre.vp broadcast (e.pre.vp.cond c).waitQ := by
    intro t owed reached
    have awake := (Vp.owed_iff.mp ((mem_owedWaits stepped.pre.inv).mp owed)).2.1
    rw [(mem_signalled reached).2] at awake
    cases awake
  have both : (owedWaits e.pre.vp c ++ signalled e.pre.vp broadcast (e.pre.vp.cond c).waitQ).Nodup :=
    List.nodup_append'.mpr ⟨owedWaits_nodup stepped.pre.inv, distinct, apart⟩
  have perm := (List.perm_ext_iff_of_nodup (owedWaits_nodup (c := c) stepped.post.inv) both).mpr fun t => by
    rw [mem_owedWaits stepped.post.inv, stepped.owed_notify inv notifies, List.mem_append,
      mem_owedWaits stepped.pre.inv, or_comm]
  rw [perm.length_eq, List.length_append]

theorem Stepped.owed_count_quiet (stepped : Stepped e) (inv : CondInv e.pre.vp)
    (quiet : ∀ broadcast, e.label.notifies broadcast c = false) (onTime : ¬ Late c e) :
    ((e.label = .resume ∧ e.pre.vp.owed c e.actor = true) ∧
      (owedWaits e.post.vp c).length + 1 = (owedWaits e.pre.vp c).length) ∨
    (¬ (e.label = .resume ∧ e.pre.vp.owed c e.actor = true) ∧
      (owedWaits e.post.vp c).length = (owedWaits e.pre.vp c).length) := by
  have before := owedWaits_nodup (c := c) stepped.pre.inv
  have after := owedWaits_nodup (c := c) stepped.post.inv
  have same : ∀ t, t ≠ e.actor → (t ∈ owedWaits e.post.vp c ↔ t ∈ owedWaits e.pre.vp c) := fun t other => by
    rw [mem_owedWaits stepped.post.inv, mem_owedWaits stepped.pre.inv]
    exact stepped.owed_other inv other quiet onTime
  by_cases returns : e.label = .resume ∧ e.pre.vp.owed c e.actor = true
  · have gone : e.actor ∉ owedWaits e.post.vp c := by
      rw [mem_owedWaits stepped.post.inv, stepped.owed_actor]
      exact fun h => h.1 returns.1
    have perm := (List.perm_ext_iff_of_nodup before (List.nodup_cons.mpr ⟨gone, after⟩)).mpr fun t => by
      by_cases h : t = e.actor
      · subst h
        simp [mem_owedWaits stepped.pre.inv, returns.2]
      · simp [h, same t h]
    exact .inl ⟨returns, by rw [perm.length_eq, List.length_cons]⟩
  · have perm := (List.perm_ext_iff_of_nodup after before).mpr fun t => by
      by_cases h : t = e.actor
      · subst h
        rw [mem_owedWaits stepped.post.inv, mem_owedWaits stepped.pre.inv, stepped.owed_actor]
        exact ⟨fun h => h.2, fun h => ⟨fun cause => returns ⟨cause, h⟩, h⟩⟩
      · exact same t h
    exact .inr ⟨returns, perm.length_eq⟩

theorem Label.notifies_once {l : Label ω} {broadcast : Bool} (notifies : l.notifies broadcast c = true) :
    l.notifies (!broadcast) c = false ∧ l.isCall = true := by
  cases l with
  | call op => cases op <;> cases broadcast <;> simp_all [Label.notifies, Label.isCall]
  | _ => simp [Label.notifies] at notifies

theorem SysRun.owed_count (run : SysRun E hist s) (onTime : ∀ e ∈ hist, ¬ Late c e) :
    waitsReturned c hist + (owedWaits s.vp c).length = signalsFound c hist + broadcastsFound c hist := by
  refine run.induct (P := fun hist s => (∀ e ∈ hist, ¬ Late c e) →
    waitsReturned c hist + (owedWaits s.vp c).length = signalsFound c hist + broadcastsFound c hist) ?_ ?_ onTime
  · intro s started _
    simp [waitsReturned, signalsFound, broadcastsFound, owedWaits, started.blank.cond]
  · intro hist e before kept fired onTime
    have stepped := SysRun.stepped before fired
    have inv := SysRun.condInv before
    have known := kept fun e' h => onTime e' (List.mem_cons_of_mem _ h)
    have zero := SysRun.zero_iff (c := c) before fired
    unfold waitsReturned signalsFound broadcastsFound
    by_cases signals : e.label.notifies false c = true
    · obtain ⟨alone, call⟩ := Label.notifies_once signals
      have notResume : e.label ≠ .resume := fun h => by simp [h, Label.isCall] at call
      have count := stepped.owed_count_notify inv signals
      rw [signalled_length] at count
      have alone : ¬ e.label.notifies true c = true := by simpa using alone
      rw [if_neg fun h => notResume (zero.mp h).1]
      simp only [signals, alone, true_and, if_false, Bool.false_eq_true]
      omega
    · by_cases broadcasts : e.label.notifies true c = true
      · obtain ⟨-, call⟩ := Label.notifies_once broadcasts
        have notResume : e.label ≠ .resume := fun h => by simp [h, Label.isCall] at call
        have count := stepped.owed_count_notify inv broadcasts
        simp only [signalled, if_true, ← List.countP_eq_length_filter] at count
        rw [if_neg fun h => notResume (zero.mp h).1, if_neg fun h => signals h.1, if_pos broadcasts]
        omega
      · have quiet : ∀ broadcast, e.label.notifies broadcast c = false := fun b => by cases b <;> simp_all
        obtain ⟨returns, count⟩ | ⟨stays, count⟩ :=
          stepped.owed_count_quiet inv quiet (onTime e (List.mem_cons_self ..))
        · rw [if_pos (zero.mpr returns), if_neg fun h => signals h.1, if_neg broadcasts]
          omega
        · rw [if_neg fun h => stays (zero.mp h), if_neg fun h => signals h.1, if_neg broadcasts]
          omega

/- The wait that a signal ends. -/

theorem Stepped.owed_stays (stepped : Stepped e) (onTime : ¬ Late c e) (owed : e.pre.vp.owed c t = true)
    (waits : ¬ (t = e.actor ∧ e.label = .resume)) : e.post.vp.owed c t = true ∧ ¬ e.Acts t := by
  obtain ⟨place, awake, flag, late⟩ := Vp.owed_iff.mp owed
  have fits := (stepped.pre.inv.views t).fits
  have state : (e.pre.vp.thr t).state = .runnable ∨ (e.pre.vp.thr t).state = .running := by
    simp only [Vp.view, place] at fits
    cases state : (e.pre.vp.thr t).state <;> simp_all [Context.fits, ThreadState.blocked]
  obtain ⟨context, after, same | ⟨cause, -⟩⟩ := stepped.stays state (by rw [place]; rfl) fun h cause => waits ⟨h, cause⟩
  · refine ⟨Vp.owed_iff.mpr ⟨context.trans place, ?_, by rw [same]; exact flag, by rw [same]; exact late⟩, ?_⟩
    · obtain h | h := after <;> rw [h] <;> rfl
    · rintro ⟨rfl, call | cause⟩
      · cases label : e.label with
        | call op =>
          have user := stepped.user op label
          rw [place] at user
          cases user
        | _ => simp [label, Label.isCall] at call
      · exact waits ⟨rfl, cause⟩
  · exact absurd ⟨t, cause, owed⟩ onTime

theorem SysRun.owed_returns {newer : List (SysEvent σ ω)} (run : SysRun E (newer ++ e :: older) s)
    (onTime : ∀ n ∈ newer, ¬ Late c n) (owed : e.post.vp.owed c t = true) :
    (s.vp.owed c t = true ∧ ∀ n ∈ newer, ¬ SysEvent.Acts n t) ∨
      ∃ later n between, newer = later ++ n :: between ∧ (∀ n' ∈ between, ¬ SysEvent.Acts n' t) ∧
        n.actor = t ∧ n.label = .resume ∧ n.out = some (.value 0) := by
  induction newer generalizing s with
  | nil => cases run; exact .inl ⟨owed, by simp⟩
  | cons n newer ih =>
    cases run with
    | next before fired =>
      obtain ⟨still, idle⟩ | ⟨later, n', between, rfl, rest⟩ :=
        ih before fun m hm => onTime m (List.mem_cons_of_mem _ hm)
      · by_cases resumes : t = SysEvent.actor n ∧ n.label = .resume
        · obtain ⟨rfl, cause⟩ := resumes
          have zero := (SysRun.zero_iff before fired).mpr ⟨cause, still⟩
          exact .inr ⟨[], n, newer, rfl, idle, rfl, cause, zero.1⟩
        · obtain ⟨owed, quiet⟩ :=
            (SysRun.stepped before fired).owed_stays (onTime n (List.mem_cons_self ..)) still resumes
          refine .inl ⟨owed, fun m hm => ?_⟩
          obtain rfl | hm := List.mem_cons.mp hm
          · exact quiet
          · exact idle m hm
      · exact .inr ⟨n :: later, n', between, rfl, rest⟩

/-- No signal on c is lost, at the end of a run. A wait that is over but has not returned
yet is counted apart. -/
structure SignalsKept (c : CondId) (hist : List (SysEvent σ ω)) (s : System σ) : Prop where
  returns : ∀ newer e older, hist = newer ++ e :: older → e.label = .call (.condSignal c) →
    (∃ t, e.pre.vp.CondWaits c t) →
    ∃ u b timeout, e.pre.vp.CondWaits c u ∧ (e.post.vp.thr u).state = .runnable ∧
      (∀ v, v ≠ u → e.post.vp.thr v = e.pre.vp.thr v) ∧
      lastCall older u = some b ∧ b.label = .call (.condTimedwait c timeout) ∧
      ((s.vp.owed c u = true ∧ ∀ n ∈ newer, ¬ SysEvent.Acts n u) ∨
        ∃ later n between, newer = later ++ n :: between ∧ (∀ n' ∈ between, ¬ SysEvent.Acts n' u) ∧
          n.actor = u ∧ Completes (between ++ e :: older) n (.condTimedwait c timeout) (.value 0) b)
  count : waitsReturned c hist + (owedWaits s.vp c).length = signalsFound c hist + broadcastsFound c hist

theorem Stepped.signal (stepped : Stepped e) (cause : e.label = .call (.condSignal c))
    (some_ : ∃ t, e.pre.vp.CondWaits c t) :
    ∃ u, e.pre.vp.CondWaits c u ∧ (e.post.vp.thr u).state = .runnable ∧
      (∀ v, v ≠ u → e.post.vp.thr v = e.pre.vp.thr v) ∧
      u ∈ signalled e.pre.vp false (e.pre.vp.cond c).waitQ := by
  have notifies : e.label.notifies false c = true := by simp [cause, Label.notifies]
  obtain ⟨roused, -⟩ := stepped.notify notifies
  have one : (signalled e.pre.vp false (e.pre.vp.cond c).waitQ).length = 1 := by
    rw [signalled_length, if_pos]
    obtain ⟨t, waits, state⟩ := some_
    exact ⟨t, waits, state⟩
  obtain ⟨u, only⟩ := List.length_eq_one_iff.mp one
  rw [only] at roused
  have reached : u ∈ signalled e.pre.vp false (e.pre.vp.cond c).waitQ := by simp [only]
  refine ⟨u, mem_signalled reached, ?_, fun v other => ?_, reached⟩
  · rw [roused.thr, if_pos (by simp)]
  · rw [roused.thr, if_neg (by simpa using other)]

/-- No signal is lost in a run in which no thread is interrupted after a signal has ended
its wait and before it runs. -/
theorem signals_kept (E : EventSys σ ω) (c : CondId) (hist : List (SysEvent σ ω)) (s : System σ)
    (run : SysRun E hist s) (onTime : ∀ e ∈ hist, ¬ Late c e) : SignalsKept c hist s where
  returns newer e older split cause waiting := by
    subst split
    obtain ⟨before, fired, -⟩ := Run.split run
    have stepped := SysRun.stepped before fired
    have inv := SysRun.condInv before
    obtain ⟨u, waits, runnable, others, reached⟩ := stepped.signal cause waiting
    obtain ⟨join, place⟩ := stepped.pre.inv.waitQ_context waits.1
    have notifies : e.label.notifies false c = true := by simp [cause, Label.notifies]
    have kind := inv u c join place
    rw [(stepped.notify notifies).2.1] at kind
    obtain rfl : join = none := by simpa using kind.symm
    obtain ⟨b, op, begun, label, at_c⟩ := SysRun.inside before u (by rw [place]; rfl) (by rw [place]; simp)
    obtain ⟨timeout, rfl⟩ : ∃ timeout, op = .condTimedwait c timeout := by
      rw [place] at at_c
      cases op <;> simp [Op.waitsAt] at at_c
      rw [at_c]
      exact ⟨_, rfl⟩
    refine ⟨u, b, timeout, waits, runnable, others, begun, label, ?_⟩
    have owed := (stepped.owed_notify (t := u) inv notifies).mpr (.inl reached)
    obtain still | ⟨later, n, between, rfl, idle, rfl, resumes, zero⟩ :=
      SysRun.owed_returns run (fun n hn => onTime n (List.mem_append_left _ hn)) owed
    · exact .inl still
    · refine .inr ⟨later, n, between, rfl, idle, rfl, zero, ?_, label⟩
      have other : SysEvent.actor n ≠ e.actor := by
        intro same
        have awake : (e.pre.vp.thr e.actor).state = .running := stepped.pre.inv.running.2
        rw [← same, waits.2] at awake
        cases awake
      rw [lastCall_quiet (by rw [resumes]; rfl), lastCall_append idle, lastCall_other other, begun]
  count := run.owed_count onTime

def Label.interrupts : Label ω → Bool
  | .call (.threadInterrupt _) => true
  | _ => false

/-- Threads 2 and 3 wait on a variable and two signals reach them. -/
theorem signals_kept_two_waiters :
    ∃ hist s, SysRun (Poll.eventSys Poll.silent) hist s ∧ (∀ e ∈ hist, ¬ Late 0 e) ∧
      (waitsReturned 0 hist = 1 ∧ owedWaits s.vp 0 = [3] ∧ signalsFound 0 hist = 2) ∧ SignalsKept 0 hist s := by
  obtain ⟨hist, s, run, seen⟩ := Run.found (M := machine (Poll.eventSys Poll.silent))
    [.call (.condNew (some 0)), .call (.threadCreate (some 2) false none), .call (.threadCreate (some 3) false none),
      .call (.usleep 500), .resume, .call (.condTimedwait 0 utimeNoTimeout), .resume,
      .call (.condTimedwait 0 utimeNoTimeout), .idle 1000 0, .resume, .call (.condSignal 0), .call (.condSignal 0),
      .call (.usleep 500), .resume]
    Poll.started_ok
    (p := fun hist s => decide (waitsReturned 0 hist = 1 ∧ owedWaits s.vp 0 = [3] ∧ signalsFound 0 hist = 2) &&
      hist.all fun e => !e.label.interrupts)
    (by decide +kernel)
  obtain ⟨counts, quiet⟩ := Bool.and_eq_true _ _ ▸ seen
  have onTime : ∀ e ∈ hist, ¬ Late 0 e := by
    rintro e member ⟨t, cause, -⟩
    have none := List.all_eq_true.mp quiet e member
    simp [cause, Label.interrupts] at none
  exact ⟨hist, s, run, onTime, of_decide_eq_true counts, signals_kept _ 0 hist s run onTime⟩

/-- Threads 2 and 3 wait on a variable; thread 1 signals it and then interrupts thread 2,
which the signal has made runnable. Thread 2 reports EINTR, so the signal is gone, and
thread 3 is still in COND_WAIT. -/
theorem signal_lost_to_interrupt :
    ∃ hist s, SysRun (Poll.eventSys Poll.silent) hist s ∧
      hist.head?.map (fun e => (e.pre.vp.current, e.out)) = some (2, some (.fail .eintr)) ∧
      signalsFound 0 hist = 1 ∧ broadcastsFound 0 hist = 0 ∧ waitsReturned 0 hist = 0 ∧ owedWaits s.vp 0 = [] ∧
      s.vp.CondWaits 0 3 ∧ ¬ SignalsKept 0 hist s := by
  obtain ⟨hist, s, run, seen⟩ := Run.found (M := machine (Poll.eventSys Poll.silent))
    [.call (.condNew (some 0)), .call (.threadCreate (some 2) false none), .call (.threadCreate (some 3) false none),
      .call (.usleep 500), .resume, .call (.condTimedwait 0 utimeNoTimeout), .resume,
      .call (.condTimedwait 0 utimeNoTimeout), .idle 1000 0, .resume, .call (.condSignal 0),
      .call (.threadInterrupt 2), .call (.usleep 500), .resume]
    Poll.started_ok
    (p := fun hist s => decide (hist.head?.map (fun e => (e.pre.vp.current, e.out)) = some (2, some (.fail .eintr)) ∧
      signalsFound 0 hist = 1 ∧ broadcastsFound 0 hist = 0 ∧ waitsReturned 0 hist = 0 ∧ owedWaits s.vp 0 = [] ∧
      3 ∈ (s.vp.cond 0).waitQ ∧ (s.vp.thr 3).state = .condWait))
    (by decide +kernel)
  obtain ⟨last, found, none, returned, owed, waits⟩ := of_decide_eq_true seen
  refine ⟨hist, s, run, last, found, none, returned, owed, waits, fun kept => ?_⟩
  have count := kept.count
  rw [found, none, returned, owed] at count
  cases count

end StateThreads
