import StateThreads.Lib.Tally
import StateThreads.Server.Threads

/-! The example server keeps its threads in balance: the counts are those of the threads, the
limits hold, and there are spare threads as long as the limits allow. -/
namespace StateThreads.Server
open LabelledRun Counting

abbrev Role := Option (Nat × Work)

def waits (i : Nat) : Role → Bool
  | some (j, .fresh) | some (j, .accept) => i = j
  | _ => false

def works (i : Nat) : Role → Bool
  | some (j, .session) => i = j
  | _ => false

@[simp] theorem waits_fresh (i j : Nat) : waits i (some (j, .fresh)) = decide (i = j) := rfl

@[simp] theorem waits_accept (i j : Nat) : waits i (some (j, .accept)) = decide (i = j) := rfl

@[simp] theorem waits_session (i j : Nat) : waits i (some (j, .session)) = false := rfl

@[simp] theorem waits_none (i : Nat) : waits i none = false := rfl

@[simp] theorem works_fresh (i j : Nat) : works i (some (j, .fresh)) = false := rfl

@[simp] theorem works_accept (i j : Nat) : works i (some (j, .accept)) = false := rfl

@[simp] theorem works_session (i j : Nat) : works i (some (j, .session)) = decide (i = j) := rfl

@[simp] theorem works_none (i : Nat) : works i none = false := rfl

section
variable {roles : Tid → Role} {f : Role → Bool} {n : Int} {t : Tid} {role : Role}

theorem tally_same (tally : Tally (fun u => f (roles u)) n) (same : f role = f (roles t)) :
    Tally (fun u => f (Function.update roles t role u)) n := by
  refine tally.same fun u => ?_
  by_cases it : u = t
  · simp [it, same]
  · simp [it]

theorem tally_join (tally : Tally (fun u => f (roles u)) n) (before : f (roles t) = false) (after : f role = true) :
    Tally (fun u => f (Function.update roles t role u)) (n + 1) :=
  tally.add before (by simpa using after) fun u other => by simp [other]

theorem tally_leave (tally : Tally (fun u => f (roles u)) n) (before : f (roles t) = true) (after : f role = false) :
    Tally (fun u => f (Function.update roles t role u)) (n - 1) :=
  tally.remove before (by simpa using after) fun u other => by simp [other]

end

structure Counted (lim : Limits) (lucky : Prop) (i : Nat) (roles : Tid → Role) (wait busy : Int) : Prop where
  waiting : Tally (fun t => waits i (roles t)) wait
  working : Tally (fun t => works i (roles t)) busy
  total : wait + busy ≤ lim.maxThreads
  enough : lucky → lim.minWaitThreads ≤ wait ∨ wait + busy = lim.maxThreads

/-- The threads of the socket i. Lucky is a server that could always create a thread. -/
structure Balanced (lim : Limits) (lucky : Prop) (s : Workers) (i : Nat) : Prop where
  counted : Counted lim lucky i s.role (s.waitThreads i) (s.busyThreads i)
  spare : s.waitThreads i ≤ lim.maxWaitThreads

namespace Counted
variable {lim : Limits} {lucky lucky' : Prop} {i : Nat} {roles : Tid → Role} {wait busy : Int} {t u : Tid}

theorem luck_weakened (counted : Counted lim lucky i roles wait busy) (weaker : lucky' → lucky) :
    Counted lim lucky' i roles wait busy :=
  ⟨counted.waiting, counted.working, counted.total, fun ok => counted.enough (weaker ok)⟩

theorem loop_counted (counted : Counted lim lucky i roles wait busy)
    (mine : roles t = some (i, .fresh) ∨ roles t = some (i, .accept)) :
    Counted lim lucky i (Function.update roles t (some (i, .accept))) wait busy where
  waiting := tally_same counted.waiting (by obtain mine | mine := mine <;> simp [mine])
  working := tally_same counted.working (by obtain mine | mine := mine <;> simp [mine])
  total := counted.total
  enough := counted.enough

theorem return_counted (counted : Counted lim lucky i roles wait busy) (mine : roles t = some (i, .accept))
    (many : lim.maxWaitThreads < wait) : Counted lim lucky i (Function.update roles t none) (wait - 1) busy where
  waiting := tally_leave counted.waiting (by simp [mine]) rfl
  working := tally_same counted.working (by simp [mine])
  total := by
    have total := counted.total
    omega
  enough := by
    have limits := lim.spare
    exact fun _ => .inl (by omega)

theorem session_counted (counted : Counted lim lucky i roles wait busy) (mine : roles t = some (i, .accept))
    (rest : lucky' → lim.minWaitThreads ≤ wait - 1 ∨ wait + busy = lim.maxThreads) :
    Counted lim lucky' i (Function.update roles t (some (i, .session))) (wait - 1) (busy + 1) where
  waiting := tally_leave counted.waiting (by simp [mine]) rfl
  working := tally_join counted.working (by simp [mine]) (by simp)
  total := by
    have total := counted.total
    omega
  enough := by
    intro ok
    obtain few | all := rest ok
    · exact .inl few
    · exact .inr (by omega)

theorem spare_counted (counted : Counted lim lucky i roles wait busy) (new : roles u = none)
    (below : wait + busy < lim.maxThreads) (enough : lucky' → lim.minWaitThreads ≤ wait + 1) :
    Counted lim lucky' i (Function.update roles u (some (i, .fresh))) (wait + 1) busy where
  waiting := tally_join counted.waiting (by simp [new]) (by simp)
  working := tally_same counted.working (by simp [new])
  total := by omega
  enough := fun ok => .inl (enough ok)

theorem finish_counted (counted : Counted lim lucky i roles wait busy) (mine : roles t = some (i, .session)) :
    Counted lim lucky i (Function.update roles t (some (i, .accept))) (wait + 1) (busy - 1) where
  waiting := tally_join counted.waiting (by simp [mine]) (by simp)
  working := tally_leave counted.working (by simp [mine]) rfl
  total := by
    have total := counted.total
    omega
  enough := by
    intro ok
    obtain few | all := counted.enough ok
    · exact .inl (by omega)
    · exact .inr (by omega)

end Counted

section
variable {lim : Limits} {lucky lucky' : Prop} {s : Workers} {i j n : Nat} {t : Tid}

theorem loop_balanced (counted : Counted lim lucky i (Function.update s.role t (some (i, .accept))) (s.waitThreads i)
    (s.busyThreads i)) (near : s.waitThreads i ≤ lim.maxWaitThreads + 1) :
    Balanced lim lucky (loop lim s t i).1 i := by
  unfold loop
  split
  · rename_i few
    exact ⟨counted, few⟩
  · rename_i many
    have left := counted.return_counted (t := t) (by simp) (by omega)
    rw [Function.update_idem] at left
    have wait : ((s.addWait i (-1)).set t none).waitThreads i = s.waitThreads i - 1 := by
      rw [Workers.set_wait, Workers.addWait_wait, if_pos rfl]
      omega
    constructor
    case counted =>
      rw [wait]
      exact left
    case spare =>
      rw [wait]
      omega

theorem serve_balanced (balanced : Balanced lim lucky s i) (mine : s.role t = some (i, .accept)) {created : Option Tid}
    (new : ∀ u, created = some u → s.role u = none)
    (weaker : lucky' → lucky ∧ (serve lim s t i created).2 ≠ .failed) :
    Balanced lim lucky' (serve lim s t i created).1 i := by
  obtain ⟨counted, spare⟩ := balanced
  have old := counted.enough
  have total := counted.total
  have served : Counted lim False i (Function.update s.role t (some (i, .session))) (s.waitThreads i - 1)
      (s.busyThreads i + 1) := counted.session_counted mine (by simp)
  unfold serve at weaker ⊢
  simp only [Workers.totalThreads, Workers.set_wait, Workers.set_busy, Workers.addWait_wait, Workers.addBusy_wait,
    Workers.addWait_busy, Workers.addBusy_busy, if_true, Int.add_neg_one] at weaker ⊢
  by_cases low : s.waitThreads i - 1 < lim.minWaitThreads ∧ s.waitThreads i - 1 + (s.busyThreads i + 1) < lim.maxThreads
  · rw [if_pos low] at weaker ⊢
    cases created with
    | none =>
      have failed : lucky' → False := fun ok => (weaker ok).2 rfl
      exact ⟨by simpa [Int.add_neg_one] using served.luck_weakened failed, by simp; omega⟩
    | some u =>
      have other : u ≠ t := by
        rintro rfl
        simp [mine] at new
      have enough : lucky' → lim.minWaitThreads ≤ s.waitThreads i - 1 + 1 := by
        intro ok
        obtain few | all := old (weaker ok).1 <;> omega
      have spawned := served.spare_counted (u := u) (by simp [other, new]) low.2 enough
      exact ⟨by simpa using spawned, by simp; omega⟩
  · rw [if_neg low] at weaker ⊢
    have rest : lucky' → lim.minWaitThreads ≤ s.waitThreads i - 1 ∨ s.waitThreads i + s.busyThreads i = lim.maxThreads := by
      intro ok
      obtain few | all := old (weaker ok).1 <;> omega
    exact ⟨by simpa [Int.add_neg_one] using counted.session_counted mine rest, by simp; omega⟩

theorem finish_balanced (balanced : Balanced lim lucky s i) (mine : s.role t = some (i, .session)) (served : Bool) :
    Balanced lim lucky (loop lim (finish s i served) t i).1 i := by
  obtain ⟨counted, spare⟩ := balanced
  have role : (finish s i served).role = s.role := by cases served <;> rfl
  have wait : (finish s i served).waitThreads i = s.waitThreads i + 1 := by cases served <;> simp [finish]
  have busy : (finish s i served).busyThreads i = s.busyThreads i - 1 := by
    cases served <;> simp [finish, Int.add_neg_one]
  apply loop_balanced
  · rw [role, wait, busy]
    exact counted.finish_counted mine
  · omega

structure Elsewhere (j : Nat) (s s' : Workers) : Prop where
  wait : s'.waitThreads j = s.waitThreads j
  busy : s'.busyThreads j = s.busyThreads j
  waits : ∀ u, waits j (s'.role u) = waits j (s.role u)
  works : ∀ u, works j (s'.role u) = works j (s.role u)

def at_ (i : Nat) : Role → Bool
  | some (j, _) => j = i
  | none => true

theorem at_elsewhere {role : Role} (here : at_ i role = true) (other : j ≠ i) :
    waits j role = false ∧ works j role = false := by
  cases role with
  | none => exact ⟨rfl, rfl⟩
  | some r =>
    obtain ⟨k, w⟩ := r
    obtain rfl : k = i := by simpa [at_] using here
    cases w <;> simp [other]

theorem Elsewhere.set {s s' : Workers} (elsewhere : Elsewhere j s s') (other : j ≠ i) {role : Role}
    (before : at_ i (s'.role t) = true) (after : at_ i role = true) : Elsewhere j s (s'.set t role) := by
  obtain ⟨notWaits, notWorks⟩ := at_elsewhere before other
  obtain ⟨notWaits', notWorks'⟩ := at_elsewhere after other
  refine ⟨elsewhere.wait, elsewhere.busy, fun u => ?_, fun u => ?_⟩
  · by_cases it : u = t
    · simp [it, notWaits', ← elsewhere.waits t, notWaits]
    · simpa [it] using elsewhere.waits u
  · by_cases it : u = t
    · simp [it, notWorks', ← elsewhere.works t, notWorks]
    · simpa [it] using elsewhere.works u

theorem Balanced.elsewhere {s s' : Workers} (balanced : Balanced lim lucky s j) (elsewhere : Elsewhere j s s')
    (weaker : lucky' → lucky) : Balanced lim lucky' s' j := by
  obtain ⟨⟨waiting, working, total, enough⟩, spare⟩ := balanced
  obtain ⟨wait, busy, waits_, works_⟩ := elsewhere
  constructor
  case counted =>
    rw [wait, busy]
    exact ⟨waiting.same waits_, working.same works_, total, fun ok => enough (weaker ok)⟩
  case spare =>
    rw [wait]
    exact spare

theorem Elsewhere.refl (j : Nat) (s : Workers) : Elsewhere j s s := ⟨rfl, rfl, fun _ => rfl, fun _ => rfl⟩

theorem Elsewhere.count {s s' s'' : Workers} (elsewhere : Elsewhere j s s') (role : s''.role = s'.role)
    (wait : s''.waitThreads j = s'.waitThreads j) (busy : s''.busyThreads j = s'.busyThreads j) : Elsewhere j s s'' := by
  refine ⟨wait.trans elsewhere.wait, busy.trans elsewhere.busy, fun u => ?_, fun u => ?_⟩
  · rw [role]
    exact elsewhere.waits u
  · rw [role]
    exact elsewhere.works u

theorem loop_elsewhere {s s' : Workers} (elsewhere : Elsewhere j s s') (other : j ≠ i)
    (mine : at_ i (s'.role t) = true) : Elsewhere j s (loop lim s' t i).1 := by
  unfold loop
  split
  · exact elsewhere.set other mine (by simp [at_])
  · have fewer : Elsewhere j s (s'.addWait i (-1)) := elsewhere.count rfl (by simp [other]) rfl
    exact fewer.set other mine rfl

theorem serve_elsewhere (other : j ≠ i) (mine : s.role t = some (i, .accept)) {created : Option Tid}
    (new : ∀ u, created = some u → s.role u = none) : Elsewhere j s (serve lim s t i created).1 := by
  have counts : Elsewhere j s ((s.addWait i (-1)).addBusy i 1) :=
    (Elsewhere.refl j s).count rfl (by simp [other]) (by simp [other])
  have busy : Elsewhere j s (((s.addWait i (-1)).addBusy i 1).set t (some (i, .session))) :=
    counts.set other (by simp [mine, at_]) (by simp [at_])
  cases created with
  | none =>
    simp only [serve]
    split <;> exact busy
  | some u =>
    simp only [serve]
    split
    · have here : u ≠ t := by
        rintro rfl
        simp [mine] at new
      have fresh : Elsewhere j s ((((s.addWait i (-1)).addBusy i 1).set t (some (i, .session))).set u (some (i, .fresh))) :=
        busy.set other (by simp [here, new, at_]) (by simp [at_])
      exact fresh.count rfl (by simp [other]) rfl
    · exact busy

theorem finish_elsewhere (other : j ≠ i) (served : Bool) : Elsewhere j s (finish s i served) := by
  cases served <;> exact (Elsewhere.refl j s).count rfl (by simp [finish, other]) (by simp [finish, other])

theorem handleConnections_balanced {s' : Workers} {label : WorkLabel} {out : WorkOut}
    (balanced : ∀ j, j < n → Balanced lim lucky s j) (enabled : workEnabled s label = true)
    (step : handleConnections lim s label = some (s', out)) (weaker : lucky' → lucky ∧ out ≠ .failed) (j : Nat)
    (listens : j < n) : Balanced lim lucky' s' j := by
  have counted := (balanced j listens).counted
  have near : s.waitThreads j ≤ lim.maxWaitThreads + 1 := by
    have spare := (balanced j listens).spare
    omega
  cases label with
  | begin t =>
    simp only [handleConnections] at step
    split at step
    · rename_i i mine
      obtain rfl : (loop lim s t i).1 = s' := by rw [Option.some.inj step]
      by_cases other : j ≠ i
      · exact (balanced j listens).elsewhere
          (loop_elsewhere (.refl j s) other (by simp [mine, at_])) fun ok => (weaker ok).1
      · obtain rfl := not_not.mp other
        exact loop_balanced ((counted.loop_counted (.inl mine)).luck_weakened fun ok => (weaker ok).1) near
    · cases step
  | accept t accepted created =>
    simp only [handleConnections] at step
    split at step
    · rename_i i mine
      have new : ∀ u, created = some u → s.role u = none := by
        rintro u rfl
        simpa [workEnabled] using enabled
      cases accepted with
      | true =>
        simp only [if_true, Option.some.injEq] at step
        have out_ : (serve lim s t i created).2 = out := by rw [step]
        obtain rfl : (serve lim s t i created).1 = s' := by rw [step]
        rw [← out_] at weaker
        by_cases other : j ≠ i
        · exact (balanced j listens).elsewhere (serve_elsewhere other mine new) fun ok => (weaker ok).1
        · obtain rfl := not_not.mp other
          exact serve_balanced (balanced j listens) mine new weaker
      | false =>
        simp only [Bool.false_eq_true, if_false, Option.some.injEq] at step
        obtain rfl : (loop lim s t i).1 = s' := by rw [step]
        by_cases other : j ≠ i
        · exact (balanced j listens).elsewhere
            (loop_elsewhere (.refl j s) other (by simp [mine, at_])) fun ok => (weaker ok).1
        · obtain rfl := not_not.mp other
          exact loop_balanced ((counted.loop_counted (.inr mine)).luck_weakened fun ok => (weaker ok).1) near
    · cases step
  | session t served =>
    simp only [handleConnections] at step
    split at step
    · rename_i i mine
      obtain rfl : (loop lim (finish s i served) t i).1 = s' := by rw [Option.some.inj step]
      by_cases other : j ≠ i
      · have role : (finish s i served).role t = some (i, .session) := by cases served <;> exact mine
        exact (balanced j listens).elsewhere
          (loop_elsewhere (finish_elsewhere other served) other (by simp [role, at_])) fun ok => (weaker ok).1
      · obtain rfl := not_not.mp other
        exact (finish_balanced (balanced j listens) mine served).elsewhere (.refl j _) fun ok => (weaker ok).1
    · cases step

end

/- The start. -/

structure Begun (i n : Nat) (lucky : Prop) (s s' : Workers) : Prop where
  waiting : Tally (fun t => waits i (s'.role t)) (s'.waitThreads i)
  working : Tally (fun t => works i (s'.role t)) (s'.busyThreads i)
  busy : s'.busyThreads i = s.busyThreads i
  most : s'.waitThreads i ≤ s.waitThreads i + n
  all : lucky → s'.waitThreads i = s.waitThreads i + n
  elsewhere : ∀ j, j ≠ i → Elsewhere j s s'

theorem Elsewhere.trans {j : Nat} {s s' s'' : Workers} (first : Elsewhere j s s') (second : Elsewhere j s' s'') :
    Elsewhere j s s'' :=
  ⟨second.wait.trans first.wait, second.busy.trans first.busy, fun u => (second.waits u).trans (first.waits u),
    fun u => (second.works u).trans (first.works u)⟩

theorem startSocket_begun {i : Nat} {created : List (Option Tid)} {s : Workers}
    (waiting : Tally (fun t => waits i (s.role t)) (s.waitThreads i))
    (working : Tally (fun t => works i (s.role t)) (s.busyThreads i)) (new : ∀ t, some t ∈ created → s.role t = none)
    (distinct : (created.filterMap id).Nodup) :
    Begun i created.length (none ∉ created) s (startSocket i created s) ∧
      ∀ t, some t ∉ created → (startSocket i created s).role t = s.role t := by
  induction created generalizing s with
  | nil => exact ⟨⟨waiting, working, rfl, by simp [startSocket], by simp [startSocket], fun j _ => .refl j s⟩, fun _ _ => rfl⟩
  | cons answer created ih =>
    cases answer with
    | none =>
      obtain ⟨⟨waiting', working', busy, most, all, elsewhere⟩, roles⟩ :=
        ih waiting working (fun t mem => new t (List.mem_cons_of_mem _ mem)) distinct
      simp only [startSocket]
      refine ⟨⟨waiting', working', busy, ?_, by simp, elsewhere⟩, fun t out => roles t fun mem => out (.tail _ mem)⟩
      rw [List.length_cons]
      omega
    | some t =>
      have fresh := new t (List.mem_cons_self ..)
      have once : t ∉ created.filterMap id ∧ (created.filterMap id).Nodup := by simpa using distinct
      have unlike : some t ∉ created := fun mem => once.1 (List.mem_filterMap.mpr ⟨_, mem, rfl⟩)
      have waits_ : Tally (fun u => waits i (((s.set t (some (i, .fresh))).addWait i 1).role u))
          (((s.set t (some (i, .fresh))).addWait i 1).waitThreads i) := by
        simpa using tally_join waiting (t := t) (by simp [fresh]) (by simp)
      have works_ : Tally (fun u => works i (((s.set t (some (i, .fresh))).addWait i 1).role u))
          (((s.set t (some (i, .fresh))).addWait i 1).busyThreads i) := by
        simpa using tally_same working (t := t) (by simp [fresh])
      have others : ∀ u, some u ∈ created → ((s.set t (some (i, .fresh))).addWait i 1).role u = none := by
        intro u mem
        have other : u ≠ t := by
          rintro rfl
          exact unlike mem
        simpa [other] using new u (List.mem_cons_of_mem _ mem)
      obtain ⟨⟨waiting', working', busy, most, all, elsewhere⟩, roles⟩ := ih waits_ works_ others once.2
      simp only [startSocket]
      refine ⟨⟨waiting', working', busy, ?_, fun ok => ?_, fun j other => ?_⟩, fun u out => ?_⟩
      · rw [List.length_cons]
        simp at most
        omega
      · rw [List.length_cons, all fun mem => ok (.tail _ mem)]
        simp
        omega
      · have set : Elsewhere j s (s.set t (some (i, .fresh))) :=
          (Elsewhere.refl j s).set other (by simp [fresh, at_]) (by simp [at_])
        have counted : Elsewhere j s ((s.set t (some (i, .fresh))).addWait i 1) := set.count rfl (by simp [other]) rfl
        exact counted.trans (elsewhere j other)
      · have other : u ≠ t := by
          rintro rfl
          exact out (List.mem_cons_self ..)
        rw [roles u fun mem => out (.tail _ mem)]
        simp [other]

def AllCreated (created : List (List (Option Tid))) : Prop := ∀ answers ∈ created, none ∉ answers

theorem startThreads_balanced {lim : Limits} {i : Nat} {created : List (List (Option Tid))} {s s' : Workers}
    (calls : ∀ answers ∈ created, answers.length = lim.maxWaitThreads) (distinct : (created.flatten.filterMap id).Nodup)
    (new : ∀ t, some t ∈ created.flatten → s.role t = none)
    (later : ∀ k, i ≤ k → ∀ t, waits k (s.role t) = false ∧ works k (s.role t) = false)
    (start : startThreads i created s = some s') :
    (∀ j, j < i → Elsewhere j s s') ∧
      ∀ j, i ≤ j → j < i + created.length → Balanced lim (AllCreated created) s' j := by
  induction created generalizing i s with
  | nil =>
    cases start
    exact ⟨fun j _ => .refl j _, fun j low high => by simp at high; omega⟩
  | cons answers created ih =>
    obtain ⟨s₁, zeroed, start⟩ : ∃ s₁, s₁ = s.zero i ∧ startThreads (i + 1) created (startSocket i answers s₁) = some s' := by
      refine ⟨s.zero i, rfl, ?_⟩
      simp only [startThreads] at start
      split at start
      · cases start
      · exact start
    have role : s₁.role = s.role := by rw [zeroed]; rfl
    have wait : s₁.waitThreads i = 0 := by simp [zeroed, Workers.zero]
    have busy : s₁.busyThreads i = 0 := by simp [zeroed, Workers.zero]
    have zero : ∀ j, j ≠ i → Elsewhere j s s₁ := fun j other =>
      (Elsewhere.refl j s).count role (by simp [zeroed, Workers.zero, other]) (by simp [zeroed, Workers.zero, other])
    have waiting : Tally (fun t => waits i (s₁.role t)) (s₁.waitThreads i) := by
      rw [wait, role]
      exact .empty fun t => (later i (le_refl i) t).1
    have working : Tally (fun t => works i (s₁.role t)) (s₁.busyThreads i) := by
      rw [busy, role]
      exact .empty fun t => (later i (le_refl i) t).2
    have parts : (answers.filterMap id).Nodup ∧ (created.flatten.filterMap id).Nodup ∧
        (answers.filterMap id).Disjoint (created.flatten.filterMap id) := by
      rw [List.flatten_cons, List.filterMap_append, List.nodup_append'] at distinct
      exact distinct
    obtain ⟨begun, roles⟩ := startSocket_begun waiting working
      (fun t mem => by rw [role]; exact new t (by simp [mem])) parts.1
    have apart : ∀ t, some t ∈ created.flatten → some t ∉ answers := fun t mem mine =>
      parts.2.2 (List.mem_filterMap.mpr ⟨_, mine, rfl⟩) (List.mem_filterMap.mpr ⟨_, mem, rfl⟩)
    obtain ⟨before, after⟩ := ih (fun a mem => calls a (.tail _ mem)) parts.2.1
      (fun t mem => by rw [roles t (apart t mem), role]; exact new t (by simp [mem]))
      (fun k high t => by
        have other : k ≠ i := by omega
        have same := begun.elsewhere k other
        rw [same.waits, same.works, role]
        exact later k (by omega) t) start
    refine ⟨fun j low => ?_, fun j low high => ?_⟩
    · have other : j ≠ i := by omega
      exact ((zero j other).trans (begun.elsewhere j other)).trans (before j (by omega))
    · by_cases here : j = i
      · subst here
        have count := calls answers (List.mem_cons_self ..)
        have limits := lim.spare
        have pool := lim.pool
        have most := begun.most
        have idle := begun.busy
        rw [wait, count] at most
        rw [busy] at idle
        have balanced : Balanced lim (none ∉ answers) (startSocket j answers s₁) j := by
          refine ⟨⟨begun.waiting, begun.working, by omega, fun ok => .inl ?_⟩, by omega⟩
          rw [begun.all ok, wait, count]
          omega
        exact balanced.elsewhere (before j (by omega)) fun ok => ok answers (List.mem_cons_self ..)
      · have rest := after j (by omega) (by rw [List.length_cons] at high; omega)
        exact rest.elsewhere (.refl j s') fun ok a mem => ok a (.tail _ mem)

theorem work_balanced {lim : Limits} {created : List (List (Option Tid))} {hist : List WorkEvent} {s : Workers}
    (run : WorkRun lim created hist s) (i : Nat) (listens : i < created.length) :
    Balanced lim (AllCreated created ∧ ∀ e ∈ hist, e.out ≠ .failed) s i := by
  induction run generalizing i with
  | begin starts =>
    obtain ⟨-, balanced⟩ := startThreads_balanced starts.calls starts.fresh (fun _ _ => rfl) (fun _ _ _ => ⟨rfl, rfl⟩)
      starts.start
    exact (balanced i (Nat.zero_le i) (by omega)).elsewhere (.refl i _) fun ok => ok.1
  | @next hist e before fired ih =>
    refine handleConnections_balanced ih fired.enabled fired.step (fun ok => ⟨⟨ok.1, fun o mem => ?_⟩, ?_⟩) i listens
    · exact ok.2 o (.tail _ mem)
    · exact ok.2 e (List.mem_cons_self ..)

/-- In every state of a server process that has started its threads, under the limits made
from any configuration, each socket is counted right and kept within the limits; and unless a
thread could not be created, there are enough threads waiting, or as many as there may be. -/
theorem server_balanced (c : Config) (created : List (List (Option Tid))) (hist : List WorkEvent) (s : Workers)
    (run : WorkRun (setThreadThrottling c) created hist s) (i : Nat) (listens : i < created.length) :
    Tally (fun t => waits i (s.role t)) (s.waitThreads i) ∧ Tally (fun t => works i (s.role t)) (s.busyThreads i) ∧
      s.waitThreads i ≤ (setThreadThrottling c).maxWaitThreads ∧
      s.totalThreads i ≤ (setThreadThrottling c).maxThreads ∧
      (AllCreated created → (∀ e ∈ hist, e.out ≠ .failed) →
        (setThreadThrottling c).minWaitThreads ≤ s.waitThreads i ∨
          s.totalThreads i = (setThreadThrottling c).maxThreads) := by
  obtain ⟨⟨waiting, working, total, enough⟩, spare⟩ := work_balanced run i listens
  exact ⟨waiting, working, spare, total, fun all lucky => enough ⟨all, lucky⟩⟩

/-- Two processes with one socket, and two to three threads for it in each. -/
def twoProcesses : Config := ⟨2, 1, 1024, 4, 6, by decide, by decide⟩

/-- Threads 1 and 2 get a connection, and 3 is created as a spare one; a fourth there may not
be. When 1 and 2 are done the last of them leaves. -/
theorem server_balanced_grown_and_shrunk : ∃ hist s,
    WorkRun (setThreadThrottling twoProcesses) [[some 1, some 2]] hist s ∧
    (s.waitThreads 0 = 2 ∧ s.busyThreads 0 = 0 ∧ s.rqstCount 0 = 1 ∧ s.role 2 = none) ∧
    Tally (fun t => waits 0 (s.role t)) (s.waitThreads 0) ∧ Tally (fun t => works 0 (s.role t)) (s.busyThreads 0) ∧
      s.waitThreads 0 ≤ (setThreadThrottling twoProcesses).maxWaitThreads ∧
      s.totalThreads 0 ≤ (setThreadThrottling twoProcesses).maxThreads ∧
      (AllCreated [[some 1, some 2]] → (∀ e ∈ hist, e.out ≠ .failed) →
        (setThreadThrottling twoProcesses).minWaitThreads ≤ s.waitThreads 0 ∨
          s.totalThreads 0 = (setThreadThrottling twoProcesses).maxThreads) := by
  have starts : Starts (setThreadThrottling twoProcesses) [[some 1, some 2]]
      ((startThreads 0 [[some 1, some 2]] .boot).getD .boot) := ⟨by decide, by decide, rfl⟩
  obtain ⟨hist, s, run, seen⟩ := Run.found (M := workMachine (setThreadThrottling twoProcesses))
    [.begin 1, .begin 2, .accept 1 true (some 3), .begin 3, .accept 2 true none, .session 1 true, .session 2 false] starts
    (p := fun _ s => decide (s.waitThreads 0 = 2 ∧ s.busyThreads 0 = 0 ∧ s.rqstCount 0 = 1 ∧ s.role 2 = none))
    (by decide +kernel)
  exact ⟨hist, s, run, of_decide_eq_true seen, server_balanced _ _ hist s run 0 (by decide)⟩

end StateThreads.Server
