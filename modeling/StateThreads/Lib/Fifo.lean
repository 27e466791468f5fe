import StateThreads.Lib.Run

/-! First come, first served. A step of a machine lets some join a queue at its end, and may
then serve the one in front. -/
namespace LabelledRun

universe u v w z

variable {S : Type u} {L : Type v} {O : Type w} {ι : Type z}

def served (serves : Event S L O → Option ι) (hist : List (Event S L O)) : List ι := (hist.filterMap serves).reverse

/-- Nobody leaves the queue but to be served. -/
def Queues (M : Machine S L O) (start : S → Prop) (queue : S → List ι) (serves : Event S L O → Option ι) : Prop :=
  ∀ hist e, Run M start hist e.pre → e.Fired M → ∃ joined, queue e.pre ++ joined = (serves e).toList ++ queue e.post

theorem served_cons (serves : Event S L O → Option ι) (e : Event S L O) (hist : List (Event S L O)) :
    served serves (e :: hist) = served serves hist ++ (serves e).toList := by
  unfold served
  cases one : serves e with
  | none => rw [List.filterMap_cons_none one, Option.toList_none, List.append_nil]
  | some i => rw [List.filterMap_cons_some one, List.reverse_cons, Option.toList_some]

variable {M : Machine S L O} {start : S → Prop} {queue : S → List ι} {serves : Event S L O → Option ι}

theorem Run.first_come (queues : Queues M start queue serves) {newer older : List (Event S L O)} {e : Event S L O} {s : S}
    (run : Run M start (newer ++ e :: older) s) : queue e.post <+: served serves newer ++ queue s := by
  induction newer generalizing s with
  | nil =>
    cases run
    exact List.prefix_rfl
  | cons n newer ih =>
    cases run with
    | next before fired =>
      obtain ⟨later, waiting⟩ := ih before
      obtain ⟨joined, step⟩ := queues _ n before fired
      refine ⟨later ++ joined, ?_⟩
      rw [← List.append_assoc, waiting, List.append_assoc, step, served_cons, List.append_assoc]

end LabelledRun
