/-! Runs of a labelled machine with output. A run keeps its history, newest event
first, so that a property may speak of what happened since some earlier step. -/
namespace LabelledRun

universe u v w

structure Machine (S : Type u) (L : Type v) (O : Type w) where
  enabled : S → L → Bool
  step : S → L → Option (S × O)

structure Event (S : Type u) (L : Type v) (O : Type w) where
  pre : S
  label : L
  out : O
  post : S

variable {S : Type u} {L : Type v} {O : Type w}

structure Event.Fired (M : Machine S L O) (e : Event S L O) : Prop where
  enabled : M.enabled e.pre e.label = true
  step : M.step e.pre e.label = some (e.post, e.out)

inductive Run (M : Machine S L O) (start : S → Prop) : List (Event S L O) → S → Prop
  | begin {s : S} : start s → Run M start [] s
  | next {hist : List (Event S L O)} {e : Event S L O} :
      Run M start hist e.pre → e.Fired M → Run M start (e :: hist) e.post

variable {M : Machine S L O} {start : S → Prop}

/-- A property of history and state that holds at the start and is kept by every
step holds throughout. -/
theorem Run.induct {P : List (Event S L O) → S → Prop} (initial : ∀ s, start s → P [] s)
    (kept : ∀ hist e, Run M start hist e.pre → P hist e.pre → e.Fired M → P (e :: hist) e.post)
    {hist : List (Event S L O)} {s : S} (run : Run M start hist s) : P hist s := by
  induction run with
  | begin h => exact initial _ h
  | next before fired ih => exact kept _ _ before ih fired

theorem Run.weaken {start' : S → Prop} (weaker : ∀ s, start s → start' s) {hist : List (Event S L O)} {s : S}
    (run : Run M start hist s) : Run M start' hist s := by
  induction run with
  | begin started => exact .begin (weaker _ started)
  | next before fired ih => exact ih.next fired

theorem Run.split {newer : List (Event S L O)} {e : Event S L O} {older : List (Event S L O)} {s : S}
    (run : Run M start (newer ++ e :: older) s) :
    Run M start older e.pre ∧ e.Fired M ∧ Run M start (e :: older) e.post := by
  generalize whole : newer ++ e :: older = hist at run
  induction run generalizing newer with
  | begin _ => simp at whole
  | next before fired ih =>
    cases newer with
    | nil =>
      obtain ⟨rfl, rfl⟩ := List.cons.inj whole
      exact ⟨before, fired, before.next fired⟩
    | cons _ newer => exact ih (List.cons.inj whole).2

/-- Whatever holds after the event e and is kept by the events of newer still
holds at the end. -/
theorem Run.carry {P : S → Prop} {newer : List (Event S L O)} {e : Event S L O}
    {older : List (Event S L O)} {s : S} (run : Run M start (newer ++ e :: older) s) (after : P e.post)
    (kept : ∀ n ∈ newer, ∀ hist, Run M start hist n.pre → P n.pre → n.Fired M → P n.post) : P s := by
  induction newer generalizing s with
  | nil => cases run; exact after
  | cons n newer ih =>
    cases run with
    | next before fired =>
      apply kept n (List.mem_cons_self ..) _ before _ fired
      exact ih before fun m hm => kept m (List.mem_cons_of_mem _ hm)

def Machine.exec (M : Machine S L O) : List L → List (Event S L O) → S → Option (List (Event S L O) × S)
  | [], hist, s => some (hist, s)
  | l :: ls, hist, s =>
    if M.enabled s l then
      (M.step s l).bind fun r => M.exec ls (⟨s, l, r.2, r.1⟩ :: hist) r.1
    else none

theorem Run.exec {ls : List L} {hist hist' : List (Event S L O)} {s s' : S} (run : Run M start hist s)
    (done : M.exec ls hist s = some (hist', s')) : Run M start hist' s' := by
  induction ls generalizing hist s with
  | nil =>
    obtain ⟨rfl, rfl⟩ := Prod.mk.inj (Option.some.inj done)
    exact run
  | cons l ls ih =>
    rw [Machine.exec] at done
    split at done
    · rename_i ok
      obtain ⟨⟨next, out⟩, taken, rest⟩ := Option.bind_eq_some_iff.mp done
      exact ih (Run.next (e := ⟨s, l, out, next⟩) run ⟨ok, taken⟩) rest
    · cases done

theorem Run.found (ls : List L) {s : S} (initial : start s) {p : List (Event S L O) → S → Bool}
    (seen : ((M.exec ls [] s).any fun r => p r.1 r.2) = true) :
    ∃ hist s', Run M start hist s' ∧ p hist s' = true := by
  obtain ⟨⟨hist, s'⟩, done, ok⟩ := (Option.any_eq_true _ _).mp seen
  exact ⟨hist, s', (Run.begin initial).exec done, ok⟩

/- Waiting. -/

open scoped List

/-- The number of latest steps through which p has held. -/
def lasting (p : S → Bool) (hist : List (Event S L O)) : Nat := (hist.takeWhile fun e => p e.post).length

theorem lasting_cons (p : S → Bool) (e : Event S L O) (hist : List (Event S L O)) :
    lasting p (e :: hist) = if p e.post then lasting p hist + 1 else 0 := by
  unfold lasting
  rw [List.takeWhile_cons]
  cases p e.post <;> simp

theorem Run.lasting_zero {p : S → Bool} {hist : List (Event S L O)} {s : S} (run : Run M start hist s)
    (no : p s = false) : lasting p hist = 0 := by
  cases run with
  | begin _ => rfl
  | next before fired => simp [lasting_cons, no]

theorem Run.lasting_pos {p : S → Bool} {hist : List (Event S L O)} {s : S} (run : Run M start hist s)
    (initial : ∀ s, start s → p s = false) (holds : p s = true) : 0 < lasting p hist := by
  cases run with
  | begin started => simp [initial _ started] at holds
  | next before fired => simp [lasting_cons, holds]

/-- A queue that loses members anywhere, and is joined at its end by one who was not
waiting, is in the order of waiting. -/
theorem Run.fifo {ι : Type u} (queue : S → List ι) (waits : ι → S → Bool)
    (initial : ∀ s, start s → queue s = [] ∧ ∀ i, waits i s = false)
    (member : ∀ s, ∀ i ∈ queue s, waits i s = true)
    (kept : ∀ hist, ∀ e : Event S L O, Run M start hist e.pre → e.Fired M → queue e.post <+ queue e.pre ∨
      ∃ q i, q <+ queue e.pre ∧ queue e.post = q ++ [i] ∧ waits i e.pre = false)
    {hist : List (Event S L O)} {s : S} (run : Run M start hist s) :
    (queue s).Pairwise fun i j => lasting (waits j) hist < lasting (waits i) hist := by
  induction run with
  | begin started => simp [(initial _ started).1]
  | @next hist e before fired ih =>
    have longer : ∀ i ∈ queue e.post, lasting (waits i) (e :: hist) = lasting (waits i) hist + 1 := fun i queued => by
      simp [lasting_cons, member _ i queued]
    have shifted : ∀ q, q <+ queue e.pre → (∀ i ∈ q, i ∈ queue e.post) →
        q.Pairwise fun i j => lasting (waits j) (e :: hist) < lasting (waits i) (e :: hist) := by
      intro q fewer still
      refine (ih.sublist fewer).imp_of_mem fun hi hj order => ?_
      rw [longer _ (still _ hi), longer _ (still _ hj)]
      omega
    obtain fewer | ⟨q, i, fewer, joined, fresh⟩ := kept hist e before fired
    · exact shifted _ fewer fun _ h => h
    · have still : ∀ j ∈ q, j ∈ queue e.post := fun j hj => by simp [joined, hj]
      -- whoever stays has waited for two steps at least, the one who joined for this one only
      have last : lasting (waits i) (e :: hist) = 1 := by
        rw [longer i (by simp [joined]), before.lasting_zero fresh]
      rw [joined, List.pairwise_append]
      refine ⟨shifted q fewer still, List.pairwise_singleton .., fun j hj k hk => ?_⟩
      obtain rfl := List.mem_singleton.mp hk
      have waited := before.lasting_pos (fun s started => (initial s started).2 j) (member _ j (fewer.subset hj))
      rw [last, longer j (still j hj)]
      omega

end LabelledRun
