import StateThreads.Heap.Soundness

/-! Whole histories of the timeout heap. -/
namespace StateThreads
open PointerTree HeapTree

inductive HeapOp where
  | add (thread : Tid) (lastClock timeout : UTime)
  | del (thread : Tid)
deriving DecidableEq, Repr

def heapStep (q : SleepQ) : HeapOp → Option SleepQ
  | .add thread lastClock timeout => stAddSleepQ q lastClock thread timeout
  | .del thread => stDelSleepQ q thread

def heapRun (q : SleepQ) : List HeapOp → Option SleepQ
  | [] => some q
  | op :: ops => (heapStep q op).bind (fun q => heapRun q ops)

/- The specification side: the threads added and not yet deleted, the calls that
respect the source's use of the heap, and the due time each thread last asked
for. None of these looks at a pointer. -/

def membersAfter (ms : List Tid) : HeapOp → List Tid
  | .add thread _ _ => thread :: ms
  | .del thread => ms.erase thread

def members (ms : List Tid) : List HeapOp → List Tid
  | [] => ms
  | op :: ops => members (membersAfter ms op) ops

def allowed (ms : List Tid) : List HeapOp → Bool
  | [] => true
  | .add thread c t :: ops => !ms.contains thread && allowed (membersAfter ms (.add thread c t)) ops
  | .del thread :: ops => ms.contains thread && allowed (membersAfter ms (.del thread)) ops

def dueAfter (due : Tid → UTime) : List HeapOp → Tid → UTime
  | [] => due
  | .add thread lastClock timeout :: ops => dueAfter (Function.update due thread (lastClock + timeout)) ops
  | .del _ :: ops => dueAfter due ops

theorem heapStep_keeps {q : SleepQ} {tr : BinaryTree Tid} {ms : List Tid} (rep : q.Represents tr)
    (same : (elems tr).Perm ms) (op : HeapOp) (ops : List HeapOp) (ok : allowed ms (op :: ops) = true) :
    ∃ q' tr', heapStep q op = some q' ∧ q'.Represents tr' ∧ (elems tr').Perm (membersAfter ms op) ∧
      allowed (membersAfter ms op) ops = true ∧ dueAfter q.due (op :: ops) = dueAfter q'.due ops := by
  cases op with
  | add thread lastClock timeout =>
    simp only [allowed, Bool.and_eq_true, Bool.not_eq_true', List.contains_eq_mem, decide_eq_false_iff_not] at ok
    have fresh : thread ∉ elems tr := fun h => ok.1 (same.mem_iff.mp h)
    obtain ⟨q', tr', run, rep', perm, due, -⟩ := stAddSleepQ_spec rep fresh lastClock timeout
    exact ⟨q', tr', run, rep', perm.trans (same.cons thread), ok.2, by rw [dueAfter, due]⟩
  | del thread =>
    simp only [allowed, Bool.and_eq_true, List.contains_eq_mem, decide_eq_true_eq] at ok
    have member : thread ∈ elems tr := same.mem_iff.mpr ok.1
    obtain ⟨q', tr', run, rep', perm, due, -⟩ := stDelSleepQ_spec rep member
    have left : (elems tr').Perm (ms.erase thread) := by
      have h := (perm.trans same).erase thread
      rwa [List.erase_cons_head] at h
    exact ⟨q', tr', run, rep', left, ok.2, by rw [dueAfter, due]⟩

theorem heapRun_represents {q : SleepQ} {tr : BinaryTree Tid} {ms : List Tid} (rep : q.Represents tr)
    (same : (elems tr).Perm ms) (ops : List HeapOp) (ok : allowed ms ops = true) :
    ∃ q' tr', heapRun q ops = some q' ∧ q'.Represents tr' ∧ (elems tr').Perm (members ms ops) ∧
      q'.due = dueAfter q.due ops := by
  induction ops generalizing q tr ms with
  | nil => exact ⟨q, tr, rfl, rep, same, rfl⟩
  | cons op ops ih =>
    obtain ⟨q₁, tr₁, run₁, rep₁, same₁, ok₁, due₁⟩ := heapStep_keeps rep same op ops ok
    obtain ⟨q', tr', run, rep', same', due⟩ := ih rep₁ same₁ ok₁
    exact ⟨q', tr', by simp only [heapRun, run₁, Option.bind_some, run], rep', same', due.trans due₁.symm⟩

theorem empty_represents {q : SleepQ} (root : q.link .root = none) (size : q.sleepqSize = 0) :
    q.Represents .nil :=
  ⟨root, List.nodup_nil, size.symm, by simp [Filled, size], trivial, trivial⟩

/-- From an empty heap, with anything in the fields of threads outside it, every
allowed history runs without touching a null pointer and ends in the complete
tree of exactly the threads added and not yet deleted. -/
theorem timeout_heap_history (q : SleepQ) (root : q.link .root = none) (size : q.sleepqSize = 0)
    (ops : List HeapOp) (ok : allowed [] ops = true) :
    ∃ q' tr, heapRun q ops = some q' ∧ Holds q'.link .root tr ∧
      (elems tr).Nodup ∧ (elems tr).Perm (members [] ops) ∧ tr.numNodes = q'.sleepqSize ∧
      Filled q'.sleepqSize 1 tr ∧ Indexed q'.heapIndex 1 tr ∧ ChildrenLater q'.due tr ∧
      ∀ t, q'.due t = dueAfter q.due ops t := by
  obtain ⟨q', tr, run, rep, same, due⟩ := heapRun_represents (empty_represents root size) (by simp) ops ok
  exact ⟨q', tr, run, rep.held, rep.distinct, same, (elems_length tr).symm.trans rep.count, rep.filled,
    rep.indexed, rep.ordered.childrenLater, fun t => congrFun due t⟩

/-- Six insertions and a deletion at position 4: the last leaf is younger than the node
at position 2 and displaces it on the way. -/
theorem timeout_heap_history_displacing_deletion :
    ∃ q' tr, heapRun ⟨fun _ => none, fun _ => 0, fun _ => 0, fun _ => false, 0⟩
        [.add 1 0 10, .add 2 0 50, .add 3 0 20, .add 4 0 60, .add 5 0 70, .add 6 0 30, .del 4] = some q' ∧
      Holds q'.link .root tr ∧ (elems tr).Nodup ∧
      (elems tr).Perm (members [] [.add 1 0 10, .add 2 0 50, .add 3 0 20, .add 4 0 60, .add 5 0 70, .add 6 0 30,
        .del 4]) ∧ tr.numNodes = q'.sleepqSize ∧
      Filled q'.sleepqSize 1 tr ∧ Indexed q'.heapIndex 1 tr ∧ ChildrenLater q'.due tr ∧
      ∀ t, q'.due t = dueAfter (fun _ => 0) [.add 1 0 10, .add 2 0 50, .add 3 0 20, .add 4 0 60, .add 5 0 70,
        .add 6 0 30, .del 4] t :=
  timeout_heap_history ⟨fun _ => none, fun _ => 0, fun _ => 0, fun _ => false, 0⟩ rfl rfl _ (by decide)

end StateThreads
