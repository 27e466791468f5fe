import StateThreads.Event.Accounts
import StateThreads.Lib.PartialMap

/-! The epoll set in the kernel and the masks in the table. Registration is changed only
where a mask changes, and for a descriptor that has fired only at the end of dispatch. -/
namespace StateThreads.Epoll
open PartialMap

variable {κ ω : Type}

/-- What is relied on of epoll, where reg says what is registered in a set and closes
which descriptors a change from outside closes. An ADD may fail, but with EEXIST only for
a registered descriptor; epoll_wait reports registered descriptors. -/
structure EpollSet (K : Kernel κ ω) (created : κ → Int → Prop) (reg : κ → Int → Int → Option (BitVec 32))
    (closes : κ → ω → Int → Prop) : Prop where
  created : ∀ k epfd fd, created k epfd → reg k epfd fd = none
  add : ∀ k epfd fd events, reg k epfd fd = none →
    ((K.epollCtl k epfd .add fd events).2 = none ∧
      reg (K.epollCtl k epfd .add fd events).1 epfd = Function.update (reg k epfd) fd (some events)) ∨
    ((K.epollCtl k epfd .add fd events).2 ≠ none ∧ (K.epollCtl k epfd .add fd events).2 ≠ some .eexist ∧
      reg (K.epollCtl k epfd .add fd events).1 epfd = reg k epfd)
  mod : ∀ k epfd fd events, reg k epfd fd ≠ none → (K.epollCtl k epfd .mod fd events).2 = none ∧
    reg (K.epollCtl k epfd .mod fd events).1 epfd = Function.update (reg k epfd) fd (some events)
  del : ∀ k epfd fd events, reg k epfd fd ≠ none → (K.epollCtl k epfd .del fd events).2 = none ∧
    reg (K.epollCtl k epfd .del fd events).1 epfd = Function.update (reg k epfd) fd none
  absent : ∀ k epfd op fd events, op ≠ .add → reg k epfd fd = none → (K.epollCtl k epfd op fd events).2 ≠ none ∧
    reg (K.epollCtl k epfd op fd events).1 epfd = reg k epfd
  wait : ∀ k epfd size timeout, reg (K.epollWait k epfd size timeout).1 epfd = reg k epfd ∧
    ∀ e ∈ (K.epollWait k epfd size timeout).2, reg k epfd e.1 ≠ none
  realloc : ∀ k n, reg (K.realloc k n).1 = reg k
  closed : ∀ k change epfd fd, closes k change fd → reg (K.outside k change) epfd fd = none
  kept : ∀ k change epfd fd, ¬ closes k change fd → reg (K.outside k change) epfd fd = reg k epfd fd

/-- What should be registered for a mask. -/
def wanted (mask : BitVec 32) : Option (BitVec 32) := if mask = 0 then none else some mask

theorem wanted_zero : wanted 0 = none := rfl

theorem wanted_ne_zero {mask : BitVec 32} (some_ : mask ≠ 0) : wanted mask = some mask := if_neg some_

/-- An observation that holds from the start of a set on until an ADD meets EEXIST. -/
structure Unspoilt (K : Kernel κ ω) (created : κ → Int → Prop) (clean : κ → Prop) : Prop where
  created : ∀ k epfd, created k epfd → clean k
  ctl : ∀ k epfd op fd events, clean k → ¬ (op = .add ∧ (K.epollCtl k epfd op fd events).2 = some .eexist) →
    clean (K.epollCtl k epfd op fd events).1
  wait : ∀ k epfd size timeout, clean k → clean (K.epollWait k epfd size timeout).1
  realloc : ∀ k n, clean k → clean (K.realloc k n).1
  outside : ∀ k change, clean k → clean (K.outside k change)

/-- The set follows the masks, except for descriptors that have fired, and for one whose
registration was refused. -/
structure Mirror (reg : κ → Int → Int → Option (BitVec 32)) (clean : κ → Prop) (refused : Option Int) (s : State κ) :
    Prop where
  exact_ : ∀ fd, (s.data.fdData fd).revents = 0 → refused ≠ some fd →
    reg s.kern s.data.epfd fd = wanted (s.data.mask fd)
  fired : ∀ fd, (s.data.fdData fd).revents ≠ 0 → reg s.kern s.data.epfd fd ≠ none
  refused : ∀ fd, refused = some fd → (s.data.fdData fd).revents = 0 ∧ reg s.kern s.data.epfd fd = none
  number : Sized (reg s.kern s.data.epfd) s.data.evtlistCnt
  clean : clean s.kern

variable {K : Kernel κ ω} {created : κ → Int → Prop} {reg : κ → Int → Int → Option (BitVec 32)}
  {closes : κ → ω → Int → Prop} {clean : κ → Prop}

theorem Mirror.same {refused : Option Int} {s s' : State κ} (kept : Mirror reg clean refused s)
    (data : s'.data.fdData = s.data.fdData) (epfd : s'.data.epfd = s.data.epfd)
    (count : s'.data.evtlistCnt = s.data.evtlistCnt) (table : reg s'.kern s.data.epfd = reg s.kern s.data.epfd)
    (unspoilt : clean s'.kern) : Mirror reg clean refused s' := by
  obtain ⟨exact_, fired, away, number, -⟩ := kept
  constructor
  · intro fd quiet other
    rw [epfd, table, Data.mask, data]
    exact exact_ fd (by rwa [data] at quiet) other
  · intro fd marked
    rw [epfd, table]
    exact fired fd (by rwa [data] at marked)
  · intro fd here
    rw [epfd, table, data]
    exact away fd here
  · rw [epfd, table, count]
    exact number
  · exact unspoilt

theorem Mirror.changed {refused refused' : Option Int} {s s' : State κ} (kept : Mirror reg clean refused s)
    (fd : Int) {v : Option (BitVec 32)} (epfd : s'.data.epfd = s.data.epfd)
    (others : ∀ x, x ≠ fd → s'.data.fdData x = s.data.fdData x)
    (table : reg s'.kern s.data.epfd = Function.update (reg s.kern s.data.epfd) fd v)
    (away : ∀ x, x ≠ fd → (refused' = some x ↔ refused = some x))
    (exact_ : (s'.data.fdData fd).revents = 0 → refused' ≠ some fd → v = wanted (s'.data.mask fd))
    (fired : (s'.data.fdData fd).revents ≠ 0 → v ≠ none)
    (refuses : refused' = some fd → (s'.data.fdData fd).revents = 0 ∧ v = none)
    (count : s'.data.evtlistCnt = s.data.evtlistCnt + (if v = none then 0 else 1) -
      (if reg s.kern s.data.epfd fd = none then 0 else 1))
    (unspoilt : clean s'.kern) : Mirror reg clean refused' s' := by
  have elsewhere : ∀ x, x ≠ fd → reg s'.kern s'.data.epfd x = reg s.kern s.data.epfd x := by
    intro x other
    rw [epfd, table, Function.update_of_ne other]
  have here : reg s'.kern s'.data.epfd fd = v := by rw [epfd, table, Function.update_self]
  constructor
  · intro x quiet far
    by_cases h : x = fd
    · subst h; rw [here]; exact exact_ quiet far
    · rw [elsewhere x h, Data.mask, others x h]
      rw [others x h] at quiet
      exact kept.exact_ x quiet fun same => far ((away x h).mpr same)
  · intro x marked
    by_cases h : x = fd
    · subst h; rw [here]; exact fired marked
    · rw [elsewhere x h]
      rw [others x h] at marked
      exact kept.fired x marked
  · intro x same
    by_cases h : x = fd
    · subst h; rw [here]; exact refuses same
    · rw [elsewhere x h, others x h]
      exact kept.refused x ((away x h).mp same)
  · rw [epfd, table, count]
    exact kept.number.update fd v
  · exact unspoilt

theorem Data.moved_other (d : Data) (pd : PollFd) (by_ : Int) {fd : Int} (other : fd ≠ pd.fd) :
    (d.moved pd by_).fdData fd = d.fdData fd := by
  simp [Data.moved, Data.setFd, other]

section
variable (sem : EpollSet K created reg closes) (watch : Unspoilt K created clean)
include sem watch

/-- A new mask is told to the kernel. A refused descriptor is not in the set, so that the
call fails and changes nothing. -/
theorem Mirror.mod {refused : Option Int} {s s' : State κ} {fd : Int} (kept : Mirror reg clean refused s)
    (epfd : s'.data.epfd = s.data.epfd) (others : ∀ x, x ≠ fd → s'.data.fdData x = s.data.fdData x)
    (quiet : (s'.data.fdData fd).revents = 0) (left : s'.data.mask fd ≠ 0)
    (there : refused = some fd ∨ reg s.kern s.data.epfd fd ≠ none)
    (kern : s'.kern = (K.epollCtl s.kern s.data.epfd .mod fd (s'.data.mask fd)).1)
    (count : s'.data.evtlistCnt = s.data.evtlistCnt) : Mirror reg clean refused s' := by
  have unspoilt : clean s'.kern := by
    rw [kern]
    exact watch.ctl _ _ _ _ _ kept.clean (by simp)
  have silent : (s'.data.fdData fd).revents ≠ 0 → ∀ v : Option (BitVec 32), v ≠ none := fun marked => absurd quiet marked
  obtain here | there := there
  · have gone := (kept.refused fd here).2
    obtain ⟨-, table⟩ := sem.absent s.kern s.data.epfd .mod fd (s'.data.mask fd) (by simp) gone
    refine kept.changed fd (v := none) epfd others ?_ (fun _ _ => Iff.rfl) ?_ (fun marked => silent marked _) ?_ ?_ unspoilt
    · rw [kern, Function.update_eq_self_iff.mpr gone.symm]
      exact table
    · intro _ other
      exact absurd here other
    · intro _
      exact ⟨quiet, rfl⟩
    · simp [count, gone]
  · obtain ⟨-, table⟩ := sem.mod s.kern s.data.epfd fd (s'.data.mask fd) there
    refine kept.changed fd epfd others (by rw [kern]; exact table) (fun _ _ => Iff.rfl) ?_ (fun marked => silent marked _)
      ?_ ?_ unspoilt
    · intro _ _
      exact (wanted_ne_zero left).symm
    · intro here
      exact absurd (kept.refused fd here).2 there
    · simp [count, there]

theorem Mirror.del {refused : Option Int} {s s' : State κ} {fd : Int} (kept : Mirror reg clean refused s)
    (epfd : s'.data.epfd = s.data.epfd) (others : ∀ x, x ≠ fd → s'.data.fdData x = s.data.fdData x)
    (quiet : (s'.data.fdData fd).revents = 0) (left : s'.data.mask fd = 0)
    (kern : s'.kern = (K.epollCtl s.kern s.data.epfd .del fd 0).1)
    (count : s'.data.evtlistCnt = if (K.epollCtl s.kern s.data.epfd .del fd 0).2 = none then
      s.data.evtlistCnt - 1 else s.data.evtlistCnt) : Mirror reg clean refused s' := by
  have unspoilt : clean s'.kern := by
    rw [kern]
    exact watch.ctl _ _ _ _ _ kept.clean (by simp)
  have told : reg s'.kern s.data.epfd = Function.update (reg s.kern s.data.epfd) fd none ∧
      s'.data.evtlistCnt = s.data.evtlistCnt + 0 - (if reg s.kern s.data.epfd fd = none then 0 else 1) := by
    by_cases gone : reg s.kern s.data.epfd fd = none
    · obtain ⟨failed, table⟩ := sem.absent s.kern s.data.epfd .del fd 0 (by simp) gone
      rw [kern, Function.update_eq_self_iff.mpr gone.symm, if_pos gone, count, if_neg failed]
      exact ⟨table, by simp⟩
    · obtain ⟨ok, table⟩ := sem.del s.kern s.data.epfd fd 0 gone
      rw [kern, if_neg gone, count, if_pos ok]
      exact ⟨table, by simp⟩
  refine kept.changed fd epfd others told.1 (fun _ _ => Iff.rfl) ?_ ?_ ?_ (by simpa using told.2) unspoilt
  · intro _ _
    rw [left]
    rfl
  · intro marked
    exact absurd quiet marked
  · intro _
    exact ⟨quiet, rfl⟩

theorem Mirror.add {s s' : State κ} {fd : Int} (kept : Mirror reg clean none s)
    (epfd : s'.data.epfd = s.data.epfd) (others : ∀ x, x ≠ fd → s'.data.fdData x = s.data.fdData x)
    (left : s'.data.mask fd ≠ 0) (gone : reg s.kern s.data.epfd fd = none)
    (kern : s'.kern = (K.epollCtl s.kern s.data.epfd .add fd (s'.data.mask fd)).1)
    (ok : (K.epollCtl s.kern s.data.epfd .add fd (s'.data.mask fd)).2 = none)
    (count : s'.data.evtlistCnt = s.data.evtlistCnt + 1) : Mirror reg clean none s' := by
  obtain ⟨-, table⟩ | ⟨failed, -⟩ := sem.add s.kern s.data.epfd fd (s'.data.mask fd) gone
  · refine kept.changed fd epfd others (by rw [kern]; exact table) (fun _ _ => Iff.rfl) ?_ (by simp) (by simp) ?_ ?_
    · intro _ _
      exact (wanted_ne_zero left).symm
    · simp [count, gone]
    · rw [kern]
      exact watch.ctl _ _ _ _ _ kept.clean (by simp [ok])
  · exact absurd ok failed

theorem Mirror.refuse {s s' : State κ} {fd : Int} (kept : Mirror reg clean none s)
    (epfd : s'.data.epfd = s.data.epfd) (others : ∀ x, x ≠ fd → s'.data.fdData x = s.data.fdData x)
    (quiet : (s'.data.fdData fd).revents = 0) (gone : reg s.kern s.data.epfd fd = none)
    (kern : s'.kern = (K.epollCtl s.kern s.data.epfd .add fd (s'.data.mask fd)).1)
    (failed : (K.epollCtl s.kern s.data.epfd .add fd (s'.data.mask fd)).2 ≠ none)
    (count : s'.data.evtlistCnt = s.data.evtlistCnt) : Mirror reg clean (some fd) s' := by
  obtain ⟨ok, -⟩ | ⟨-, new, table⟩ := sem.add s.kern s.data.epfd fd (s'.data.mask fd) gone
  · exact absurd ok failed
  · refine kept.changed fd (v := none) epfd others ?_ ?_ ?_ ?_ (fun _ => ⟨quiet, rfl⟩) ?_ ?_
    · rw [kern, Function.update_eq_self_iff.mpr gone.symm]
      exact table
    · intro x far
      simp [far.symm]
    · intro _ same
      exact absurd rfl same
    · intro marked
      exact absurd quiet marked
    · simp [count, gone]
    · rw [kern]
      exact watch.ctl _ _ _ _ _ kept.clean (by simp [new])

theorem Mirror.delOne {refused : Option Int} {s : State κ} {pd : PollFd} (kept : Mirror reg clean refused s)
    (held : s.data.mask pd.fd ≠ 0) : Mirror reg clean refused (delOne K s pd) := by
  have others := fun x (h : x ≠ pd.fd) => s.data.moved_other pd (-1) h
  have revents : ((s.data.moved pd (-1)).fdData pd.fd).revents = (s.data.fdData pd.fd).revents := by
    rw [Data.moved_self]
    rfl
  obtain ⟨quiet, same⟩ | ⟨-, silent, left, same⟩ | ⟨-, silent, left, same⟩ := delOne_cases (K := K) s pd
  · rw [same]
    refine kept.changed pd.fd rfl others (Function.update_eq_self _ _).symm (fun _ _ => Iff.rfl) ?_ ?_ ?_ ?_ kept.clean
    · intro silent other
      rw [revents] at silent
      obtain mask | marked := quiet
      · exact (kept.exact_ _ silent other).trans (congrArg wanted mask.symm)
      · exact absurd silent marked
    · intro marked
      exact kept.fired _ (revents ▸ marked)
    · intro here
      rw [revents]
      exact kept.refused _ here
    · simp [Data.moved, Data.setFd]
  · have there : refused = some pd.fd ∨ reg s.kern s.data.epfd pd.fd ≠ none := by
      by_cases here : refused = some pd.fd
      · exact .inl here
      · rw [kept.exact_ _ silent here, wanted_ne_zero held]
        simp
    rw [same]
    exact kept.mod sem watch rfl others (revents.trans silent) left there rfl rfl
  · rw [same]
    exact kept.del sem watch rfl others (revents.trans silent) left rfl rfl

theorem Mirror.pollsetDel {refused : Option Int} {s : State κ} {pds ps : List PollFd}
    (kept : Mirror reg clean refused s) (counted : Counted s.data (pds ++ ps)) :
    Mirror reg clean refused (pollsetDel K s pds) := by
  unfold Epoll.pollsetDel
  induction pds generalizing s with
  | nil => exact kept
  | cons pd pds ih =>
    have held : s.data.mask pd.fd ≠ 0 := by
      intro empty
      exact (counted.mask_eq_zero pd.fd).mp empty pd (by simp) rfl
    obtain ⟨less, size, -⟩ := delOne_data (K := K) s pd
    have rest : Counted s.data ([pd] ++ (pds ++ ps)) := counted
    exact ih (kept.delOne sem watch held) (rest.less less size)

theorem Mirror.addOne {s s' : State κ} {pd : PollFd} {error : Option AddError} (kept : Mirror reg clean none s)
    (quiet : ∀ fd, (s.data.fdData fd).revents = 0) (held : s'.data.mask pd.fd ≠ 0)
    (run : addOne K s pd = some (s', error)) :
    (error = none → Mirror reg clean none s') ∧ (error ≠ none → s.data.mask pd.fd = 0 ∧ Mirror reg clean (some pd.fd) s') := by
  have others := fun x (h : x ≠ pd.fd) => s.data.moved_other pd 1 h
  have silent : ((s.data.moved pd 1).fdData pd.fd).revents = 0 := by
    rw [Data.moved_self]
    exact quiet pd.fd
  have before := kept.exact_ pd.fd (quiet pd.fd) (by simp)
  -- a reallocation of the event list after the call says nothing to the set
  have settled : ∀ kern : κ, s'.kern = kern ∨ (∃ n, s'.kern = (K.realloc kern n).1) →
      Mirror reg clean none ⟨s'.data, kern⟩ → Mirror reg clean none s' := by
    rintro kern (same | ⟨n, same⟩) told
    · exact told.same rfl rfl rfl (by rw [same]) (by rw [same]; exact told.clean)
    · exact told.same rfl rfl rfl (by rw [same]; exact congrFun (sem.realloc kern n) _)
        (by rw [same]; exact watch.realloc kern n told.clean)
  obtain ⟨same, rfl, rfl⟩ | ⟨-, op, which, told⟩ := addOne_cases run
  · refine ⟨fun _ => ?_, by simp⟩
    refine kept.changed pd.fd rfl others (Function.update_eq_self _ _).symm (fun _ _ => Iff.rfl) ?_ ?_ (by simp) ?_ kept.clean
    · intro _ _
      exact before.trans (congrArg wanted same.symm)
    · intro marked
      exact absurd silent marked
    · simp [Data.moved, Data.setFd]
  · by_cases new : s.data.mask pd.fd = 0
    · obtain rfl : op = .add := by simpa [new] using which
      rw [new, wanted_zero] at before
      obtain ⟨failed, rfl, -, rfl⟩ | ⟨answer, rfl, size, data, kern⟩ := told
      · refine ⟨fun none => absurd none failed, fun _ => ⟨new, ?_⟩⟩
        exact kept.refuse sem watch rfl others silent before rfl failed rfl
      · have ok : (K.epollCtl s.kern s.data.epfd .add pd.fd ((s.data.moved pd 1).mask pd.fd)).2 = none := by
          obtain ⟨ok, -⟩ | ⟨failed, fresh, -⟩ := sem.add s.kern s.data.epfd pd.fd ((s.data.moved pd 1).mask pd.fd) before
          · exact ok
          · obtain ok | ⟨-, exists_⟩ := answer
            · exact absurd ok failed
            · exact absurd exists_ fresh
        refine ⟨fun _ => settled _ kern ?_, by simp⟩
        rw [data] at held ⊢
        exact kept.add sem watch rfl others held before rfl ok rfl
    · obtain rfl : op = .mod := by rw [which, if_pos new]
      have there : reg s.kern s.data.epfd pd.fd ≠ none := by rw [before, wanted_ne_zero new]; simp
      obtain ⟨failed, -⟩ | ⟨-, rfl, size, data, kern⟩ := told
      · exact absurd (sem.mod s.kern s.data.epfd pd.fd _ there).1 failed
      · refine ⟨fun _ => settled _ kern ?_, by simp⟩
        rw [data] at held ⊢
        exact kept.mod sem watch rfl others silent held (.inr there) rfl rfl

theorem Mirror.addLoop {pds ps : List PollFd} {i : Nat} {s s' : State κ} {stop : Option (AddError × Nat)}
    (kept : Mirror reg clean none s) (quiet : ∀ fd, (s.data.fdData fd).revents = 0) (counted : Counted s.data ps)
    (valid : ∀ pd ∈ pds, Valid pd ∧ pd.fd < s.data.fdDataSize) (run : addLoop K pds i s = some (s', stop)) :
    (stop = none → Mirror reg clean none s') ∧
      (stop ≠ none → ∃ fd, Mirror reg clean (some fd) s' ∧ ∀ pd ∈ ps, pd.fd ≠ fd) := by
  induction pds generalizing i s ps with
  | nil =>
    cases run
    exact ⟨fun _ => kept, by simp⟩
  | cons pd pds ih =>
    simp only [Epoll.addLoop, Option.bind_eq_bind, Option.bind_eq_some_iff] at run
    obtain ⟨⟨s₁, error⟩, one, run⟩ := run
    obtain ⟨counts, size, -⟩ := addOne_data one
    have counted₁ : Counted s₁.data (ps ++ [pd]) := by
      refine counted.more counts (le_of_eq size.symm) fun p member => ?_
      rw [size]
      exact valid p (List.mem_cons.mpr (.inl (List.mem_singleton.mp member)))
    have held : s₁.data.mask pd.fd ≠ 0 := by
      intro empty
      exact (counted₁.mask_eq_zero pd.fd).mp empty pd (by simp) rfl
    obtain ⟨added, refused⟩ := kept.addOne sem watch quiet held one
    cases error with
    | some e =>
      cases run
      obtain ⟨empty, mirror⟩ := refused (by simp)
      exact ⟨by simp, fun _ => ⟨pd.fd, mirror, (counted.mask_eq_zero pd.fd).mp empty⟩⟩
    | none =>
      have quiet₁ : ∀ fd, (s₁.data.fdData fd).revents = 0 := by
        intro fd
        rw [counts]
        exact quiet fd
      obtain ⟨done, stopped⟩ := ih (added rfl) quiet₁ counted₁
        (fun p member => by rw [size]; exact valid p (List.mem_cons_of_mem _ member)) run
      refine ⟨done, fun some_ => ?_⟩
      obtain ⟨fd, mirror, unnamed⟩ := stopped some_
      exact ⟨fd, mirror, fun p member => unnamed p (List.mem_append_left _ member)⟩

omit sem watch in
theorem Mirror.forget {s : State κ} {fd : Int} (kept : Mirror reg clean (some fd) s)
    (empty : s.data.mask fd = 0) : Mirror reg clean none s where
  exact_ x quiet _ := by
    by_cases h : x = fd
    · subst h
      rw [(kept.refused x rfl).2, empty]
      rfl
    · exact kept.exact_ x quiet (by simpa using Ne.symm h)
  fired := kept.fired
  refused := by simp
  number := kept.number
  clean := kept.clean

theorem Mirror.grown {s s' : State κ} (kept : Mirror reg clean none s) (grown : Grown K s s') :
    Mirror reg clean none s' := by
  obtain ⟨table, unspoilt⟩ := grown.kern (fun k => reg k = reg s.kern ∧ clean k)
    (fun k n same => ⟨(sem.realloc k n).trans same.1, watch.realloc k n same.2⟩) ⟨rfl, kept.clean⟩
  exact kept.same grown.fdData (by rw [grown.rest]) (by rw [grown.rest]) (by rw [table]) unspoilt

theorem Mirror.pollsetAdd {s s' : State κ} {pds ps : List PollFd} {error : Option AddError}
    (kept : Mirror reg clean none s) (account : Accounts s ps) (run : pollsetAdd K s pds = some (s', error)) :
    Mirror reg clean none s' := by
  obtain ⟨counted, quiet⟩ := account
  simp only [Epoll.pollsetAdd, Option.bind_eq_bind, Option.bind_eq_some_iff] at run
  obtain ⟨⟨s₁, rejected⟩, checked, run⟩ := run
  obtain ⟨grown, valid⟩ := checkLoop_spec (counted.blank quiet) checked
  have kept₁ := kept.grown sem watch grown
  have counted₁ := counted.grown grown.fdData grown.size
  have quiet₁ : ∀ fd, (s₁.data.fdData fd).revents = 0 := by
    rw [grown.fdData]
    exact quiet
  cases rejected with
  | some e => cases run; exact kept₁
  | none =>
    simp only [Option.bind_eq_some_iff] at run
    obtain ⟨⟨s₂, stop⟩, added, run⟩ := run
    obtain ⟨done, stopped⟩ := kept₁.addLoop sem watch quiet₁ counted₁ (valid rfl) added
    obtain ⟨n, taken, counts, size, -⟩ := addLoop_data added
    cases stop with
    | none => cases run; exact done rfl
    | some at_ =>
      obtain ⟨e, i⟩ := at_
      obtain ⟨none, -⟩ | ⟨e', j, same, rfl⟩ := taken
      · cases none
      · cases same
        cases run
        rw [Nat.zero_add]
        obtain ⟨fd, mirror, unnamed⟩ := stopped (by simp)
        have counted₂ : Counted s₂.data (pds.take (j + 1) ++ ps) := by
          refine (counted₁.more counts (le_of_eq size.symm) fun pd member => ?_).asks
            (List.perm_append_comm.map _)
          rw [size]
          exact valid rfl pd (List.mem_of_mem_take member)
        obtain ⟨less, size', -⟩ := pollsetDel_data (K := K) s₂ (pds.take (j + 1))
        have counted₃ := counted₂.less less size'
        exact (mirror.pollsetDel sem watch counted₂).forget ((counted₃.mask_eq_zero fd).mpr unnamed)

/- Dispatch. -/

omit sem watch in
theorem FdData.events_quiet {x y : FdData} (same : x.quiet = y.quiet) : x.events = y.events := by
  have events : ∀ z : FdData, z.events = z.quiet.events := fun _ => rfl
  rw [events x, events y, same]

theorem Mirror.waited {s s' : State κ} {found : Bool} {timeout : Int} (kept : Mirror reg clean none s)
    (quiet : ∀ fd, (s.data.fdData fd).revents = 0) (run : epollWait K s timeout = (s', found)) :
    Mirror reg clean none s' := by
  obtain ⟨table, registered⟩ := sem.wait s.kern s.data.epfd s.data.evtlistSize timeout
  have unspoilt := watch.wait s.kern s.data.epfd s.data.evtlistSize timeout kept.clean
  unfold Epoll.epollWait at run
  generalize K.epollWait s.kern s.data.epfd s.data.evtlistSize timeout = answer at run table registered unspoilt
  obtain ⟨kern, events⟩ := answer
  obtain ⟨rfl, -⟩ := Prod.mk.inj run
  obtain ⟨counts, others, rest⟩ := marks_data events { s.data with evtlist := events }
  have masks : ∀ fd, (events.foldl mark { s.data with evtlist := events }).mask fd = s.data.mask fd := fun fd =>
    FdData.events_quiet (counts fd)
  have epfd : (events.foldl mark { s.data with evtlist := events }).epfd = s.data.epfd := by rw [rest]
  have count : (events.foldl mark { s.data with evtlist := events }).evtlistCnt = s.data.evtlistCnt := by rw [rest]
  constructor
  · intro fd _ _
    simp only [epfd, masks, table]
    exact kept.exact_ fd (quiet fd) (by simp)
  · intro fd marked
    simp only [epfd, table]
    by_cases reported : fd ∈ events.map Prod.fst
    · obtain ⟨e, member, rfl⟩ := List.mem_map.mp reported
      exact registered e member
    · rw [others fd reported] at marked
      exact absurd (quiet fd) marked
  · simp
  · simp only [epfd, count, table]
    exact kept.number
  · exact unspoilt

theorem Mirror.settle {s : State κ} (kept : Mirror reg clean none s) (e : Int × BitVec 32) :
    Mirror reg clean none (settle K s e) := by
  have others : ∀ x, x ≠ e.1 → (s.data.setFd e.1 (s.data.fdData e.1).quiet).fdData x = s.data.fdData x := by
    intro x other
    simp [Data.setFd, other]
  have here : (s.data.setFd e.1 (s.data.fdData e.1).quiet).fdData e.1 = (s.data.fdData e.1).quiet := by simp [Data.setFd]
  have mask : (s.data.setFd e.1 (s.data.fdData e.1).quiet).mask e.1 = s.data.mask e.1 := by
    rw [Data.mask, here]
    rfl
  have quiet : ((s.data.setFd e.1 (s.data.fdData e.1).quiet).fdData e.1).revents = 0 := by rw [here]; rfl
  obtain ⟨left, same⟩ | ⟨left, same⟩ := settle_cases (K := K) s e
  · have there : reg s.kern s.data.epfd e.1 ≠ none := by
      by_cases marked : (s.data.fdData e.1).revents = 0
      · rw [kept.exact_ _ marked (by simp), wanted_ne_zero left]
        simp
      · exact kept.fired _ marked
    rw [same]
    exact kept.mod sem watch rfl others quiet (by rw [mask]; exact left) (.inr there) (by rw [mask]) rfl
  · rw [same]
    exact kept.del sem watch rfl others quiet (mask.trans left) rfl rfl

theorem Mirror.finish {s : State κ} (kept : Mirror reg clean none s) : Mirror reg clean none (finish K s) := by
  unfold Epoll.finish
  generalize s.data.evtlist = events
  induction events generalizing s with
  | nil => exact kept
  | cons e events ih => exact ih (kept.settle sem watch e)

theorem Mirror.outside {s : State κ} {ps : List PollFd} (kept : Mirror reg clean none s)
    (account : Accounts s ps) (change : ω) (open_ : ∀ pd ∈ ps, ¬ closes s.kern change pd.fd) :
    Mirror reg clean none ⟨s.data, K.outside s.kern change⟩ := by
  have table : reg (K.outside s.kern change) s.data.epfd = reg s.kern s.data.epfd := by
    funext fd
    by_cases closed : closes s.kern change fd
    · have empty : s.data.mask fd = 0 := by
        apply (account.1.mask_eq_zero fd).mpr
        rintro pd member rfl
        exact open_ pd member closed
      rw [sem.closed _ _ _ _ closed, kept.exact_ fd (account.2 fd) (by simp), empty]
      rfl
    · exact sem.kept _ _ _ _ closed
  exact kept.same rfl rfl rfl table (watch.outside _ change kept.clean)

end

/-- The steps of a run of one process in which no descriptor is closed while a pollq on
io_q names it. -/
def Undisturbed (K : Kernel κ ω) (closes : κ → ω → Int → Prop) (s : System (State κ)) (l : Label ω) : Prop :=
  NoFork K s l ∧ ∀ change, l = .outside change → ∀ pd ∈ polled s.vp, ¬ closes s.evt.kern change pd.fd

theorem eventSys_mirrored (sem : EpollSet K created reg closes) (watch : Unspoilt K created clean) :
    Bookkeeping (eventSys K created) (Undisturbed K closes) (fun s ps => Accounts s ps ∧ Mirror reg clean none s)
      (fun s ps => Walking s ps ∧ Mirror reg clean none s) := by
  have book := eventSys_accounts K created
  exact {
    asks := fun _ _ _ same kept => ⟨book.asks _ _ _ same kept.1, kept.2⟩
    walkAsks := fun _ _ _ same kept => ⟨book.walkAsks _ _ _ same kept.1, kept.2⟩
    initial := by
      intro evt start
      refine ⟨book.initial evt start, ?_⟩
      obtain ⟨fdlim, epfd, empty, data⟩ := start
      rw [← show evt.data.epfd = epfd from by rw [data]; rfl] at empty
      have blank := fun fd => sem.created _ _ fd empty
      constructor
      · intro fd _ _
        rw [blank, data]
        simp [Data.mask, init, FdData.events, wanted]
      · intro fd marked
        rw [data] at marked
        exact absurd rfl marked
      · simp
      · rw [show evt.data.evtlistCnt = 0 from by rw [data]; rfl]
        exact .empty blank
      · exact watch.created _ _ empty
    added := fun _ _ _ _ kept run => ⟨book.added _ _ _ _ kept.1 run, kept.2.pollsetAdd sem watch kept.1 run⟩
    refused := fun _ _ _ _ _ kept run => ⟨book.refused _ _ _ _ _ kept.1 run, kept.2.pollsetAdd sem watch kept.1 run⟩
    deleted := fun _ _ _ kept => ⟨book.deleted _ _ _ kept.1, kept.2.pollsetDel sem watch kept.1.1⟩
    waited := by
      intro s now time min ioq evt' found fair kept run
      have account := book.waited s now time min ioq evt' found fair.1 kept.1 run
      rw [show (eventSys K created).wait = wait K from rfl, wait_same (fair.1 now time rfl)] at run
      have mirror := kept.2.waited sem watch kept.1.2 (Option.some.inj run)
      cases found with
      | true => exact ⟨account, mirror⟩
      | false => exact ⟨account, mirror⟩
    visited := fun _ _ _ kept =>
      ⟨⟨(book.visited _ _ _ kept.1).1, kept.2⟩, (book.visited _ _ _ kept.1).2⟩
    withdrawn := fun _ _ _ kept => ⟨book.withdrawn _ _ _ kept.1, kept.2.pollsetDel sem watch kept.1.1⟩
    stayed := fun _ _ _ kept => kept
    finished := fun _ _ kept => ⟨book.finished _ _ kept.1, kept.2.finish sem watch⟩
    fdNew := by
      intro evt evt' ps fd error kept run
      refine ⟨book.fdNew _ _ _ _ _ kept.1 run, ?_⟩
      simp only [eventSys, fdNew] at run
      split at run
      · simp only [Option.map_eq_some_iff] at run
        obtain ⟨⟨s₁, ok⟩, expanded, same⟩ := run
        cases same
        exact kept.2.grown sem watch (fdDataExpand_spec (kept.1.1.blank kept.1.2) expanded).1
      · cases run
        exact kept.2
    outside := fun s change fair kept =>
      ⟨book.outside s change fair.1 kept.1, kept.2.outside sem watch kept.1 change (fair.2 change rfl)⟩ }

end StateThreads.Epoll
