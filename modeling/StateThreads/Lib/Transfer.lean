/-! Moving a list to a device that takes as much at a time as it likes. A transfer asks the
device again and again; when it has taken only a part, or is not ready, the transfer waits
until it is. The answers of the device and of the waits are given as lists, and a transfer
that has used them up has not ended yet. -/
namespace Transfer

universe u v w z

/-- How the device answers; of a count it takes what it was offered. -/
inductive Answer (ε : Type v) where
  | count (n : Nat)
  | notReady
  | failed (e : ε)
deriving DecidableEq, Repr

inductive Event (α : Type u) where
  | call (offered moved : List α)
  | wait
deriving DecidableEq, Repr

inductive Status (β : Type w) where
  | returned (b : β)
  | pending
  | fault
deriving DecidableEq, Repr

structure Run (α : Type u) (β : Type w) where
  trace : List (Event α)
  status : Status β
deriving DecidableEq, Repr

variable {α : Type u} {ε : Type v} {β : Type w} {γ : Type z}

def Event.moved : Event α → List α
  | .call _ moved => moved
  | .wait => []

def moved (trace : List (Event α)) : List α := trace.flatMap Event.moved

def Status.map (f : β → γ) : Status β → Status γ
  | .returned b => .returned (f b)
  | .pending => .pending
  | .fault => .fault

theorem Status.returned_of_map {f : β → γ} {status : Status β} {c : γ} (ended : status.map f = .returned c) :
    ∃ b, status = .returned b ∧ f b = c := by
  cases status with
  | returned b =>
    cases ended
    exact ⟨b, rfl, rfl⟩
  | pending => cases ended
  | fault => cases ended

theorem Status.fault_of_map {f : β → γ} {status : Status β} (fault : status.map f = .fault) : status = .fault := by
  cases status with
  | returned b => cases fault
  | pending => cases fault
  | fault => rfl

namespace Run

def after (e : Event α) (r : Run α β) : Run α β := ⟨e :: r.trace, r.status⟩

def finish (b : β) : Run α β := ⟨[], .returned b⟩

def pending : Run α β := ⟨[], .pending⟩

def fault : Run α β := ⟨[], .fault⟩

def map (f : β → γ) (r : Run α β) : Run α γ := ⟨r.trace, r.status.map f⟩

def moved (r : Run α β) : List α := Transfer.moved r.trace

theorem map_congr {f g : β → γ} {r : Run α β} (same : ∀ b, r.status = .returned b → f b = g b) : r.map f = r.map g := by
  obtain ⟨trace, status⟩ := r
  cases status with
  | returned b => simp only [map, Status.map, same b rfl]
  | pending => rfl
  | fault => rfl

theorem map_map {δ : Type v} (f : β → γ) (g : γ → δ) (r : Run α β) : (r.map f).map g = r.map fun b => g (f b) := by
  obtain ⟨trace, status⟩ := r
  cases status <;> rfl

@[simp] theorem map_after (f : β → γ) (e : Event α) (r : Run α β) : (r.after e).map f = (r.map f).after e := rfl

@[simp] theorem map_finish (f : β → γ) (b : β) : (finish b : Run α β).map f = finish (f b) := rfl

@[simp] theorem map_pending (f : β → γ) : (pending : Run α β).map f = pending := rfl

@[simp] theorem map_fault (f : β → γ) : (fault : Run α β).map f = fault := rfl

@[simp] theorem moved_after (e : Event α) (r : Run α β) : (r.after e).moved = e.moved ++ r.moved := rfl

@[simp] theorem moved_finish (b : β) : (finish b : Run α β).moved = [] := rfl

@[simp] theorem moved_pending : (pending : Run α β).moved = [] := rfl

@[simp] theorem status_after (e : Event α) (r : Run α β) : (r.after e).status = r.status := rfl

@[simp] theorem trace_after (e : Event α) (r : Run α β) : (r.after e).trace = e :: r.trace := rfl

@[simp] theorem moved_map (f : β → γ) (r : Run α β) : (r.map f).moved = r.moved := rfl

end Run

@[simp] theorem Event.moved_call (offered taken : List α) : (Event.call offered taken).moved = taken := rfl

@[simp] theorem Event.moved_wait : (Event.wait : Event α).moved = [] := rfl

/-- One wait. It fails with an error, or the transfer goes on with the answers that are
left. -/
def await (polls : List (Option ε)) (fails : ε → Run α β) (next : List (Option ε) → Run α β) : Run α β :=
  match polls with
  | [] => Run.pending.after .wait
  | none :: polls => (next polls).after .wait
  | some e :: _ => (fails e).after .wait

theorem map_await (f : β → γ) (polls : List (Option ε)) (fails : ε → Run α β) (next : List (Option ε) → Run α β) :
    (await polls fails next).map f = await polls (fun e => (fails e).map f) fun polls => (next polls).map f := by
  cases polls with
  | nil => rfl
  | cons p polls => cases p <;> rfl

theorem await_congr {polls : List (Option ε)} {fails fails' : ε → Run α β} {next next' : List (Option ε) → Run α β}
    (same : ∀ e, fails e = fails' e) (same' : ∀ polls, next polls = next' polls) :
    await polls fails next = await polls fails' next' := by
  rw [funext same, funext same']

theorem await_cases {P : Run α β → Prop} (polls : List (Option ε)) {fails : ε → Run α β}
    {next : List (Option ε) → Run α β} (pending : P (Run.pending.after .wait)) (failed : ∀ e, P ((fails e).after .wait))
    (ready : ∀ polls, P ((next polls).after .wait)) : P (await polls fails next) := by
  cases polls with
  | nil => exact pending
  | cons p polls =>
    cases p with
    | none => exact ready polls
    | some e => exact failed e

def Run.Returns (P : β → Prop) (r : Run α β) : Prop := ∀ b, r.status = .returned b → P b

section
variable {P : β → Prop}

theorem Run.Returns.after {e : Event α} {r : Run α β} (returns : r.Returns P) : (r.after e).Returns P := returns

theorem Run.Returns.finish {b : β} (holds : P b) : (finish b : Run α β).Returns P := by
  intro c ended
  cases ended
  exact holds

theorem Run.Returns.pending : (pending : Run α β).Returns P := by
  intro b ended
  cases ended

theorem Run.Returns.fault : (fault : Run α β).Returns P := by
  intro b ended
  cases ended

theorem Run.Returns.map {f : γ → β} {r : Run α γ} (holds : ∀ c, P (f c)) : (r.map f).Returns P := by
  intro b ended
  obtain ⟨c, -, same⟩ := Status.returned_of_map ended
  rw [← same]
  exact holds c

theorem Run.Returns.await {polls : List (Option ε)} {fails : ε → Run α β} {next : List (Option ε) → Run α β}
    (failed : ∀ e, (fails e).Returns P) (ready : ∀ polls, (next polls).Returns P) :
    (Transfer.await polls fails next).Returns P := by
  apply await_cases
  · exact Run.Returns.pending.after
  · exact fun e => (failed e).after
  · exact fun polls => (ready polls).after

end

structure Drained (eof : Bool) (todo : List α) (r : Run α (Option ε × List α)) : Prop where
  front : r.moved <+: todo
  safe : r.status ≠ .fault
  left : ∀ e rest, r.status = .returned (e, rest) → r.moved ++ rest = todo
  ends : ∀ rest, r.status = .returned (none, rest) → rest = [] ∨ eof = true
  fails : ∀ e rest, r.status = .returned (some e, rest) → rest ≠ []

variable {eof : Bool}

theorem Drained.after {todo taken rest : List α} {e : Event α} {r : Run α (Option ε × List α)}
    (moves : e.moved = taken) (split : taken ++ rest = todo) (drained : Drained eof rest r) :
    Drained eof todo (r.after e) where
  front := by
    rw [Run.moved_after, moves, ← split]
    exact List.prefix_append_right_inj _ |>.mpr drained.front
  safe := drained.safe
  left error left ended := by
    rw [Run.moved_after, moves, List.append_assoc, drained.left error left ended, split]
  ends := drained.ends
  fails := drained.fails

theorem Drained.finish {todo : List α} {error : Option ε} (ends : error = none → todo = [] ∨ eof = true)
    (fails : error ≠ none → todo ≠ []) : Drained eof todo (.finish (error, todo)) where
  front := List.nil_prefix
  safe := by simp [Run.finish]
  left e rest ended := by
    cases ended
    rfl
  ends rest ended := by
    cases ended
    exact ends rfl
  fails e rest ended := by
    cases ended
    exact fails (by simp)

theorem Drained.pending {todo : List α} : Drained eof todo (.pending : Run α (Option ε × List α)) where
  front := List.nil_prefix
  safe := by simp [Run.pending]
  left _ _ ended := by cases ended
  ends _ ended := by cases ended
  fails _ _ ended := by cases ended

theorem Drained.await {todo : List α} (some_ : todo ≠ []) (polls : List (Option ε))
    {next : List (Option ε) → Run α (Option ε × List α)} (drained : ∀ polls, Drained eof todo (next polls)) :
    Drained eof todo (await polls (fun e => .finish (some e, todo)) next) := by
  apply await_cases
  · exact Drained.pending.after rfl rfl
  · intro e
    exact (Drained.finish (by simp) fun _ => some_).after rfl rfl
  · intro polls
    exact (drained polls).after rfl rfl

section
variable [DecidableEq ε] (again : ε) (eof)

/-- The whole transfer of todo. An error again is no failure; the transfer ends when nothing
is left, and if eof is set also when the device takes nothing. The result is the error, if
there was one, and what is left. -/
def drain : List (Answer ε) → List (Option ε) → List α → Run α (Option ε × List α)
  | _, _, [] => .finish (none, [])
  | [], _, _ :: _ => .pending
  | .failed e :: calls, polls, todo =>
    (if e = again then drain calls polls todo else .finish (some e, todo)).after (.call todo [])
  | .notReady :: calls, polls, todo =>
    (await polls (fun e => .finish (some e, todo)) fun polls => drain calls polls todo).after (.call todo [])
  | .count n :: calls, polls, todo =>
    (if todo.drop n = [] then .finish (none, [])
    else if eof ∧ n = 0 then .finish (none, todo)
    else await polls (fun e => .finish (some e, todo.drop n)) fun polls => drain calls polls (todo.drop n)).after
      (.call todo (todo.take n))

@[simp] theorem drain_nil (calls : List (Answer ε)) (polls : List (Option ε)) :
    drain eof again calls polls ([] : List α) = .finish (none, []) := by
  cases calls <;> rfl

variable {again eof} {todo : List α} (some_ : todo ≠ []) (calls : List (Answer ε)) (polls : List (Option ε))

include some_ in
theorem drain_start : drain eof again [] polls todo = .pending := by
  obtain ⟨a, rest, rfl⟩ := List.exists_cons_of_ne_nil some_
  rfl

include some_ in
theorem drain_failed (e : ε) : drain eof again (.failed e :: calls) polls todo =
    (if e = again then drain eof again calls polls todo else .finish (some e, todo)).after (.call todo []) := by
  obtain ⟨a, rest, rfl⟩ := List.exists_cons_of_ne_nil some_
  rfl

include some_ in
theorem drain_notReady : drain eof again (.notReady :: calls) polls todo =
    (await polls (fun e => .finish (some e, todo)) fun polls => drain eof again calls polls todo).after
      (.call todo []) := by
  obtain ⟨a, rest, rfl⟩ := List.exists_cons_of_ne_nil some_
  rfl

include some_ in
theorem drain_count (n : Nat) : drain eof again (.count n :: calls) polls todo =
    (if todo.drop n = [] then .finish (none, [])
    else if eof ∧ n = 0 then .finish (none, todo)
    else await polls (fun e => .finish (some e, todo.drop n)) fun polls =>
      drain eof again calls polls (todo.drop n)).after (.call todo (todo.take n)) := by
  obtain ⟨a, rest, rfl⟩ := List.exists_cons_of_ne_nil some_
  rfl

theorem drain_drained (todo : List α) : Drained eof todo (drain eof again calls polls todo) := by
  induction calls generalizing polls todo with
  | nil =>
    cases todo with
    | nil => exact .finish (fun _ => .inl rfl) (by simp)
    | cons a todo => exact .pending
  | cons c calls ih =>
    by_cases none_ : todo = []
    · rw [none_, drain_nil]
      exact .finish (fun _ => .inl rfl) (by simp)
    cases c with
    | failed e =>
      rw [drain_failed none_]
      refine Drained.after rfl (List.nil_append todo) ?_
      split
      · exact ih polls todo
      · exact .finish (by simp) fun _ => none_
    | notReady =>
      rw [drain_notReady none_]
      exact Drained.after rfl (List.nil_append todo) (.await none_ polls fun polls => ih polls todo)
    | count n =>
      rw [drain_count none_]
      refine Drained.after rfl (List.take_append_drop n todo) ?_
      split
      · rename_i all
        rw [all]
        exact .finish (fun _ => .inl rfl) (by simp)
      · rename_i left
        split
        · rename_i ended
          rw [ended.2, List.drop_zero]
          exact .finish (fun _ => .inr ended.1) (by simp)
        · exact .await left polls fun polls => ih polls _

end

def Prompt (todo : List α) (r : Run α (Option ε × List α)) : Prop :=
  ∀ front e back, r.trace = front ++ e :: back → moved (front ++ [e]) = todo →
    back = [] ∧ r.status = .returned (none, [])

theorem Prompt.after {todo taken rest : List α} {e : Event α} {r : Run α (Option ε × List α)} (moves : e.moved = taken)
    (split : taken ++ rest = todo) (all : rest = [] → r = .finish (none, [])) (more : rest ≠ [] → Prompt rest r) :
    Prompt todo (r.after e) := by
  intro front last back trace whole
  cases front with
  | nil =>
    cases trace
    have taken_ : e.moved = todo := by simpa [moved] using whole
    have none_ : rest = [] := by
      rw [moves, ← split] at taken_
      exact List.self_eq_append_right.mp taken_
    rw [Run.status_after, all none_]
    exact ⟨rfl, rfl⟩
  | cons first front =>
    rw [Run.trace_after, List.cons_append, List.cons.injEq] at trace
    obtain ⟨first_, later⟩ := trace
    have rest_ : moved (front ++ [last]) = rest := by
      rw [← first_, List.cons_append, ← split] at whole
      have head : moved (e :: (front ++ [last])) = taken ++ moved (front ++ [last]) := by
        rw [← moves]
        rfl
      rw [head] at whole
      exact List.append_cancel_left whole
    by_cases none_ : rest = []
    · rw [all none_] at later
      simp [Run.finish] at later
    · exact more none_ front last back later rest_

theorem Prompt.finish {todo : List α} {b : Option ε × List α} : Prompt todo (.finish b) := by
  intro front e back trace
  simp [Run.finish] at trace

theorem Prompt.pending {todo : List α} : Prompt todo (.pending : Run α (Option ε × List α)) := by
  intro front e back trace
  simp [Run.pending] at trace

theorem Prompt.await {todo : List α} (some_ : todo ≠ []) {polls : List (Option ε)} {fails : ε → Option ε × List α}
    {next : List (Option ε) → Run α (Option ε × List α)} (prompt : ∀ polls, Prompt todo (next polls)) :
    Prompt todo (await polls (fun e => .finish (fails e)) next) := by
  apply await_cases
  · exact .after rfl (List.nil_append todo) (fun none_ => absurd none_ some_) fun _ => .pending
  · intro e
    exact .after rfl (List.nil_append todo) (fun none_ => absurd none_ some_) fun _ => .finish
  · intro polls
    exact .after rfl (List.nil_append todo) (fun none_ => absurd none_ some_) fun _ => prompt polls

theorem drain_prompt [DecidableEq ε] {again : ε} (calls : List (Answer ε)) (polls : List (Option ε)) (todo : List α) :
    Prompt todo (drain eof again calls polls todo) := by
  induction calls generalizing polls todo with
  | nil =>
    cases todo with
    | nil => exact .finish
    | cons a todo => exact .pending
  | cons c calls ih =>
    by_cases none_ : todo = []
    · rw [none_, drain_nil]
      exact .finish
    cases c with
    | failed e =>
      rw [drain_failed none_]
      refine .after rfl (List.nil_append todo) (fun none' => absurd none' none_) fun _ => ?_
      split
      · exact ih polls todo
      · exact .finish
    | notReady =>
      rw [drain_notReady none_]
      exact .after rfl (List.nil_append todo) (fun none' => absurd none' none_) fun _ => .await none_ fun polls => ih polls todo
    | count n =>
      rw [drain_count none_]
      refine .after rfl (List.take_append_drop n todo) (fun all => if_pos all) fun left => ?_
      rw [if_neg left]
      split
      · exact .finish
      · exact .await left fun polls => ih polls _

/-- W does what the transfer D of todo does, with a result that says only whether all was
moved, or it gives up while some of todo is left. -/
inductive Follows (todo : List α) (all fails : β) (D : Run α (Option ε × List α)) (W : Run α β) : Prop
  | same (run : W = D.map fun x => if x.1.isNone then all else fails) : Follows todo all fails D W
  | short (rest : List α) (some_ : rest ≠ []) (left : W.moved ++ rest = todo) (status : W.status = .returned fails) :
      Follows todo all fails D W

theorem Follows.after {todo taken rest : List α} {all fails : β} {e : Event α} {D : Run α (Option ε × List α)}
    {W : Run α β} (moves : e.moved = taken) (split : taken ++ rest = todo) (follows : Follows rest all fails D W) :
    Follows todo all fails (D.after e) (W.after e) := by
  cases follows with
  | same run =>
    rw [run]
    exact .same rfl
  | short left some_ whole status =>
    refine .short left some_ ?_ status
    rw [Run.moved_after, moves, List.append_assoc, whole, split]

theorem Follows.finish {todo : List α} {all fails : β} {b : Option ε × List α} {c : β}
    (same : c = if b.1.isNone then all else fails) : Follows todo all fails (.finish b) (.finish c) := by
  rw [same]
  exact .same rfl

theorem Follows.pending {todo : List α} {all fails : β} :
    Follows todo all fails (.pending : Run α (Option ε × List α)) .pending := .same rfl

theorem Follows.await {todo : List α} {all fails : β} (polls : List (Option ε))
    {next : List (Option ε) → Run α (Option ε × List α)} {next' : List (Option ε) → Run α β}
    (follows : ∀ polls, Follows todo all fails (next polls) (next' polls)) :
    Follows todo all fails (await polls (fun e => .finish (some e, todo)) next)
      (await polls (fun _ => .finish fails) next') := by
  cases polls with
  | nil => exact .after rfl (List.nil_append todo) .pending
  | cons p polls =>
    cases p with
    | none => exact .after rfl (List.nil_append todo) (follows polls)
    | some e => exact .after rfl (List.nil_append todo) (.finish rfl)

end Transfer
