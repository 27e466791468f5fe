import Mathlib.Data.List.Nodup
import StateThreads.Server.Watchdog

/-! The watchdog's array and the processes that it has started. -/
namespace StateThreads.Server
open LabelledRun

def Watchdog.index (w : Watchdog) (pid : Pid) : Option Nat := (w.child pid).map Child.myIndex

/-- Each child is in the array at its own index, and whatever pid is there is that of a
child, or of the one that wait has just returned. -/
structure Table (count : Nat) (pids : Nat → Pid) (index : Pid → Option Nat) (reaped : Option Pid) : Prop where
  listed : ∀ pid i, index pid = some i → 0 < pid ∧ i < count ∧ pids i = pid
  slot : ∀ i, i < count → 0 < pids i → index (pids i) = some i ∨ reaped = some (pids i)
  gone : ∀ pid, reaped = some pid → index pid = none ∧ 0 < pid ∧ ∃ i, i < count ∧ pids i = pid
  distinct : ∀ i j, i < count → j < count → 0 < pids i → pids i = pids j → i = j

structure Tended (w : Watchdog) : Prop where
  room : w.vpCount ≤ w.allocated
  table : Table w.vpCount w.vpPids w.index w.reaped

namespace Table
variable {count : Nat} {pids : Nat → Pid} {index : Pid → Option Nat} {pid q : Pid} {i : Nat}

theorem child_reaped (table : Table count pids index none) (mine : index pid = some i) :
    Table count pids (Function.update index pid none) (some pid) where
  listed p k there := by
    by_cases it : p = pid
    · simp [it] at there
    · exact table.listed p k (by simpa [it] using there)
  slot k inside positive := by
    by_cases it : pids k = pid
    · exact .inr (by rw [it])
    · obtain there | ⟨⟨⟩⟩ := table.slot k inside positive
      exact .inl (by simpa [it] using there)
  gone p same := by
    cases same
    obtain ⟨positive, inside, here⟩ := table.listed pid i mine
    exact ⟨by simp, positive, i, inside, here⟩
  distinct := table.distinct

theorem slot_vacated (table : Table count pids index (some pid)) (inside : i < count) (here : pids i = pid) :
    Table count (Function.update pids i (-1)) index none := by
  obtain ⟨none_, positive, -⟩ := table.gone pid rfl
  constructor
  case listed =>
    intro p k there
    obtain ⟨some_, low, at_⟩ := table.listed p k there
    have other : k ≠ i := by
      rintro rfl
      rw [← at_, here, none_] at there
      cases there
    exact ⟨some_, low, by simpa [other] using at_⟩
  case slot =>
    intro k low some_
    have other : k ≠ i := by
      rintro rfl
      simp at some_
    simp only [Function.update_of_ne other] at some_ ⊢
    obtain there | same := table.slot k low some_
    · exact .inl there
    · rw [← here] at same
      exact absurd (table.distinct i k inside low (here ▸ positive) (Option.some.inj same)).symm other
  case gone =>
    intro p same
    cases same
  case distinct =>
    intro j k low low' some_ same
    have other : j ≠ i := by
      rintro rfl
      simp at some_
    have other' : k ≠ i := by
      rintro rfl
      rw [same] at some_
      simp at some_
    simp only [Function.update_of_ne other, Function.update_of_ne other'] at some_ same
    exact table.distinct j k low low' some_ same

theorem slot_filled (table : Table count pids index none) (inside : i < count) (empty : pids i ≤ 0) (positive : 0 < q)
    (fresh : index q = none) : Table count (Function.update pids i q) (Function.update index q (some i)) none := by
  have unlike : ∀ k, k < count → pids k ≠ q := by
    intro k low same
    obtain there | ⟨⟨⟩⟩ := table.slot k low (same ▸ positive)
    rw [same, fresh] at there
    cases there
  constructor
  case listed =>
    intro p k there
    by_cases it : p = q
    · subst it
      obtain rfl : i = k := by simpa using there
      exact ⟨positive, inside, by simp⟩
    · obtain ⟨some_, low, at_⟩ := table.listed p k (by simpa [it] using there)
      have other : k ≠ i := by
        rintro rfl
        rw [← at_] at some_
        exact absurd some_ (Int.not_lt.mpr empty)
      exact ⟨some_, low, by simpa [other] using at_⟩
  case slot =>
    intro k low some_
    by_cases it : k = i
    · subst it
      simp
    · simp only [Function.update_of_ne it] at some_ ⊢
      obtain there | ⟨⟨⟩⟩ := table.slot k low some_
      exact .inl (by simpa [unlike k low] using there)
  case gone =>
    intro p same
    cases same
  case distinct =>
    intro j k low low' some_ same
    by_cases it : j = i
    · subst it
      by_contra other
      simp only [Function.update_self, Function.update_of_ne (Ne.symm other)] at same
      exact unlike k low' same.symm
    · by_cases it' : k = i
      · subst it'
        simp only [Function.update_self, Function.update_of_ne it] at same
        exact absurd same (unlike j low)
      · simp only [Function.update_of_ne it, Function.update_of_ne it'] at some_ same
        exact table.distinct j k low low' some_ same

theorem table_shortened (table : Table count pids index none) (fewer : i ≤ count) (rest : ∀ k, i ≤ k → pids k ≤ 0) :
    Table i pids index none where
  listed p k there := by
    obtain ⟨some_, low, at_⟩ := table.listed p k there
    refine ⟨some_, ?_, at_⟩
    by_contra high
    rw [← at_] at some_
    exact absurd some_ (Int.not_lt.mpr (rest k (by omega)))
  slot k low some_ := table.slot k (by omega) some_
  gone p same := by cases same
  distinct j k low low' := table.distinct j k (by omega) (by omega)

end Table

def Watchdog.placed (w : Watchdog) (i : Nat) (pid : Pid) : Watchdog :=
  { w.forked i pid with vpPids := Function.update w.vpPids i pid }

theorem Watchdog.index_placed (w : Watchdog) (i : Nat) (pid : Pid) :
    (w.placed i pid).index = Function.update w.index pid (some i) := by
  funext p
  by_cases it : p = pid <;> simp [Watchdog.index, Watchdog.placed, Watchdog.forked, it]

namespace Tended
variable {w w' : Watchdog} {pid : Pid}

theorem find_reaped (tended : Tended w) (reaped : w.reaped = some pid) : w.find pid < w.vpCount ∧ w.vpPids (w.find pid) = pid := by
  obtain ⟨-, -, i, inside, here⟩ := tended.table.gone pid reaped
  have some_ : ((List.range w.vpCount).find? fun i => w.vpPids i = pid).isSome = true := by
    rw [List.find?_isSome]
    exact ⟨i, List.mem_range.mpr inside, by simp [here]⟩
  obtain ⟨k, found⟩ := Option.isSome_iff_exists.mp some_
  rw [Watchdog.find, found]
  exact ⟨List.mem_range.mp (List.mem_of_find?_eq_some found), by simpa using List.find?_some found⟩

theorem fork_tended (tended : Tended w) (reaped : w.reaped = some pid) {answer : Option Pid}
    (new : ∀ p, answer = some p → 0 < p ∧ w.child p = none) :
    ∃ w', watchdogStep w (.fork answer) = some (w', .replaced (w.find pid) answer) ∧ Tended w' := by
  obtain ⟨inside, here⟩ := tended.find_reaped reaped
  have table := tended.table
  rw [reaped] at table
  have vacant := table.slot_vacated inside here
  have room : w.find pid < w.allocated := Nat.lt_of_lt_of_le inside tended.room
  cases answer with
  | none =>
    refine ⟨{ w with reaped := none, vpPids := Function.update w.vpPids (w.find pid) (-1) }, ?_, tended.room, vacant⟩
    simp [watchdogStep, reaped, Watchdog.store, room]
  | some p =>
    obtain ⟨positive, none_⟩ := new p rfl
    have filled := vacant.slot_filled (q := p) inside (by simp) positive (by simp [Watchdog.index, none_])
    rw [Function.update_idem] at filled
    refine ⟨({ w with reaped := none } : Watchdog).placed (w.find pid) p, ?_, tended.room, ?_⟩
    · simp [watchdogStep, reaped, Watchdog.store, Watchdog.forked, Watchdog.placed, room]
    · rw [Watchdog.index_placed]
      exact filled

theorem step_tended (tended : Tended w) {label : DogLabel} (enabled : watchdogEnabled w label = true) :
    ∃ w' out, watchdogStep w label = some (w', out) ∧ Tended w' := by
  cases label with
  | exit pid =>
    refine ⟨_, _, rfl, tended.room, ?_⟩
    have same : ({ w with child := Function.update w.child pid ((w.child pid).map ({ · with ended := true })) } :
        Watchdog).index = w.index := by
      funext p
      by_cases it : p = pid
      · subst it
        cases c : w.child p <;> simp [Watchdog.index, c]
      · simp [Watchdog.index, it]
    rw [same]
    exact tended.table
  | wait pid =>
    simp only [watchdogEnabled, Bool.and_eq_true, Option.isNone_iff_eq_none] at enabled
    obtain ⟨c, child, -⟩ := (Option.any_eq_true _ _).mp enabled.2
    have table := tended.table
    rw [enabled.1.2] at table
    refine ⟨_, _, rfl, tended.room, ?_⟩
    have same : ({ w with child := Function.update w.child pid none, reaped := some pid } : Watchdog).index =
        Function.update w.index pid none := by
      funext p
      by_cases it : p = pid <;> simp [Watchdog.index, it]
    rw [same]
    exact table.child_reaped (i := c.myIndex) (by simp [Watchdog.index, child])
  | noChild => exact ⟨_, _, rfl, tended.room, tended.table⟩
  | fork answer =>
    simp only [watchdogEnabled, Bool.and_eq_true] at enabled
    obtain ⟨pid, reaped⟩ := Option.isSome_iff_exists.mp enabled.1.2
    have new : ∀ p, answer = some p → 0 < p ∧ w.child p = none := by
      rintro p rfl
      simpa using enabled.2
    obtain ⟨w', taken, after⟩ := tended.fork_tended reaped new
    exact ⟨w', _, taken, after⟩
  | signal term => exact ⟨_, _, rfl, tended.room, tended.table⟩

end Tended

theorem startProcesses_tended {i : Nat} {forks : List (Option Pid)} {w w' : Watchdog} (tended : Tended w)
    (reaped : w.reaped = none) (inside : i + forks.length = w.vpCount) (empty : ∀ k, i ≤ k → w.vpPids k ≤ 0)
    (positive : ∀ pid, some pid ∈ forks → 0 < pid) (distinct : (forks.filterMap id).Nodup)
    (fresh : ∀ pid, some pid ∈ forks → w.index pid = none) (start : startProcesses i forks w = some w') : Tended w' := by
  induction forks generalizing i w with
  | nil =>
    cases start
    exact tended
  | cons answer forks ih =>
    rw [List.length_cons] at inside
    cases answer with
    | none =>
      simp only [startProcesses] at start
      split at start
      · cases start
      · cases start
        have table := tended.table
        rw [reaped] at table
        have short := table.table_shortened (i := i) (by omega) empty
        rw [← reaped] at short
        exact ⟨Nat.le_trans (by omega : i ≤ w.vpCount) tended.room, short⟩
    | some pid =>
      have room : i < w.allocated := Nat.lt_of_lt_of_le (by omega) tended.room
      have stored : (w.forked i pid).store i pid = some (w.placed i pid) := if_pos room
      simp only [startProcesses, stored, Option.bind_eq_bind, Option.bind_some] at start
      have table := tended.table
      rw [reaped] at table
      have filled := table.slot_filled (q := pid) (i := i) (by omega) (empty i (Nat.le_refl i)) (positive pid (by simp))
        (fresh pid (by simp))
      rw [← reaped, ← w.index_placed] at filled
      have once : pid ∉ forks.filterMap id ∧ (forks.filterMap id).Nodup := by simpa using distinct
      have tended' : Tended (w.placed i pid) := ⟨tended.room, filled⟩
      have inside' : i + 1 + forks.length = w.vpCount := by omega
      refine ih tended' reaped inside' (fun k high => ?_) (fun p mem => positive p (.tail _ mem)) once.2
        (fun p mem => ?_) start
      · have other : k ≠ i := by omega
        simpa [Watchdog.placed, other] using empty k (by omega)
      · have other : p ≠ pid := by
          rintro rfl
          exact once.1 (List.mem_filterMap.mpr ⟨_, mem, rfl⟩)
        rw [w.index_placed, Function.update_of_ne other]
        exact fresh p (.tail _ mem)

theorem DogStarted.tended {w : Watchdog} (started : DogStarted w) : Tended w := by
  obtain ⟨vpCount, forks, calls, positive, distinct, start⟩ := started
  have table : Table vpCount (fun _ => 0) (Watchdog.boot vpCount).index none :=
    ⟨by simp [Watchdog.index, Watchdog.boot], by simp, by simp, by simp⟩
  have boot : Tended (.boot vpCount) := ⟨Nat.le_refl vpCount, table⟩
  exact startProcesses_tended boot rfl (by simpa [Watchdog.boot] using calls) (fun _ _ => Int.le_refl 0) positive distinct
    (fun _ _ => rfl) start

theorem watchdog_run_tended {hist : List DogEvent} {w : Watchdog} (run : DogRun hist w) : Tended w := by
  induction run with
  | begin started => exact started.tended
  | next before fired ih =>
    obtain ⟨w', out, taken, after⟩ := ih.step_tended fired.enabled
    have step := fired.step
    simp only [watchdogMachine] at step
    rw [taken] at step
    obtain ⟨rfl, -⟩ := Prod.mk.inj (Option.some.inj step)
    exact after

theorem Tended.forwards {w : Watchdog} (tended : Tended w) (pid : Pid) :
    pid ∈ w.forwards ↔ (w.child pid).isSome = true ∨ w.reaped = some pid := by
  have table := tended.table
  simp only [Watchdog.forwards, List.mem_filter, List.mem_map, List.mem_range, decide_eq_true_eq]
  constructor
  · rintro ⟨⟨i, inside, rfl⟩, positive⟩
    obtain there | same := table.slot i inside positive
    · obtain ⟨c, child, -⟩ := Option.map_eq_some_iff.mp there
      exact .inl (by simp [child])
    · exact .inr same
  · rintro (some_ | same)
    · obtain ⟨c, child⟩ := Option.isSome_iff_exists.mp some_
      obtain ⟨positive, inside, here⟩ := table.listed pid c.myIndex (by simp [Watchdog.index, child])
      exact ⟨⟨_, inside, here⟩, positive⟩
    · obtain ⟨-, positive, i, inside, here⟩ := table.gone pid same
      exact ⟨⟨i, inside, here⟩, positive⟩

theorem Tended.forwards_once {w : Watchdog} (tended : Tended w) : w.forwards.Nodup := by
  rw [Watchdog.forwards, List.filter_map]
  refine List.Nodup.map_on (fun i mine j yours same => ?_) (List.nodup_range.filter _)
  simp only [List.mem_filter, List.mem_range, Function.comp, decide_eq_true_eq] at mine yours
  exact tended.table.distinct i j mine.1 yours.1 mine.2 same

/-- In every state of the watchdog each step it may take is taken, so it never writes outside
its array; no two of its children have the same index; the place of a child that has ended is
found, is no other child's, and goes to the process forked for it; and a signal is sent once to
each child, besides which only the process that wait has just returned is sent it. -/
theorem watchdog_replaces {hist : List DogEvent} {w : Watchdog} (run : DogRun hist w) :
    (∀ label, watchdogEnabled w label = true → (watchdogStep w label).isSome = true) ∧
      (∀ p q c d, w.child p = some c → w.child q = some d → c.myIndex = d.myIndex → p = q) ∧
      (∀ pid, w.reaped = some pid → w.find pid < w.vpCount ∧ w.vpPids (w.find pid) = pid ∧
        (∀ p c, w.child p = some c → c.myIndex ≠ w.find pid) ∧
        ∀ p w' out, watchdogEnabled w (.fork (some p)) = true → watchdogStep w (.fork (some p)) = some (w', out) →
          w'.child p = some ⟨w.find pid, false⟩) ∧
      w.forwards.Nodup ∧ ∀ pid, pid ∈ w.forwards ↔ (w.child pid).isSome = true ∨ w.reaped = some pid := by
  have tended := watchdog_run_tended run
  have table := tended.table
  have listed : ∀ p c, w.child p = some c → w.vpPids c.myIndex = p := fun p c child =>
    (table.listed p c.myIndex (by simp [Watchdog.index, child])).2.2
  refine ⟨fun label enabled => ?_, fun p q c d mine yours same => ?_, fun pid reaped => ?_, tended.forwards_once,
    tended.forwards⟩
  · obtain ⟨w', out, taken, -⟩ := tended.step_tended enabled
    simp [taken]
  · rw [← listed p c mine, ← listed q d yours, same]
  · obtain ⟨inside, here⟩ := tended.find_reaped reaped
    refine ⟨inside, here, fun p c child same => ?_, fun p w' out enabled taken => ?_⟩
    · obtain rfl : pid = p := by rw [← here, ← same, listed p c child]
      have none_ := (table.gone pid reaped).1
      simp [Watchdog.index, child] at none_
    · have room : w.find pid < w.allocated := Nat.lt_of_lt_of_le inside tended.room
      simp only [watchdogStep, reaped, Watchdog.store, Watchdog.forked, room, if_true, Option.bind_eq_bind,
        Option.bind_some, Option.some.injEq, Prod.mk.injEq] at taken
      rw [← taken.1]
      simp

/-- Of three processes the second ends and is replaced by one with the same pid; then the
third does, and a signal comes before another is forked. -/
theorem watchdog_replaces_twice : ∃ hist w, DogRun hist w ∧
    (w.forwards = [11, 12, 13] ∧ w.reaped = some 13 ∧ w.child 12 = some ⟨1, false⟩) ∧
    (∀ label, watchdogEnabled w label = true → (watchdogStep w label).isSome = true) ∧
      (∀ p q c d, w.child p = some c → w.child q = some d → c.myIndex = d.myIndex → p = q) ∧
      (∀ pid, w.reaped = some pid → w.find pid < w.vpCount ∧ w.vpPids (w.find pid) = pid ∧
        (∀ p c, w.child p = some c → c.myIndex ≠ w.find pid) ∧
        ∀ p w' out, watchdogEnabled w (.fork (some p)) = true → watchdogStep w (.fork (some p)) = some (w', out) →
          w'.child p = some ⟨w.find pid, false⟩) ∧
      w.forwards.Nodup ∧ ∀ pid, pid ∈ w.forwards ↔ (w.child pid).isSome = true ∨ w.reaped = some pid := by
  have started : DogStarted ((startProcesses 0 [some 11, some 12, some 13, none] (.boot 4)).getD (.boot 4)) :=
    ⟨4, [some 11, some 12, some 13, none], rfl, by simp, by decide, rfl⟩
  obtain ⟨hist, w, run, seen⟩ := Run.found (M := watchdogMachine)
    [.exit 12, .wait 12, .fork (some 12), .exit 13, .wait 13, .signal false] started
    (p := fun _ w => decide (w.forwards = [11, 12, 13] ∧ w.reaped = some 13 ∧ w.child 12 = some ⟨1, false⟩))
    (by decide +kernel)
  exact ⟨hist, w, run, of_decide_eq_true seen, watchdog_replaces run⟩

end StateThreads.Server
