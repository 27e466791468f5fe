import StateThreads.Lib.Run

/-! Refinement of one labelled machine by another. Each step of the concrete machine is a
step of the abstract one with the same output; its label may depend on the whole event. -/
namespace LabelledRun

universe u v w u' v'

variable {S : Type u} {L : Type v} {O : Type w} {T : Type u'} {L' : Type v'}

structure Simulation (M : Machine S L O) (start : S → Prop) (N : Machine T L' O) (start' : T → Prop)
    (label : Event S L O → L') (related : S → T → Prop) : Prop where
  initial : ∀ s, start s → ∃ t, start' t ∧ related s t
  step : ∀ e t, e.Fired M → related e.pre t →
    ∃ t', N.enabled t (label e) = true ∧ N.step t (label e) = some (t', e.out) ∧ related e.post t'

/-- Every run is one of the abstract machine, with the same outputs. -/
theorem Simulation.run {M : Machine S L O} {start : S → Prop} {N : Machine T L' O} {start' : T → Prop}
    {label : Event S L O → L'} {related : S → T → Prop} (sim : Simulation M start N start' label related)
    {hist : List (Event S L O)} {s : S} (run : Run M start hist s) :
    ∃ hist' t, Run N start' hist' t ∧ related s t ∧ hist'.map (·.label) = hist.map label ∧
      hist'.map (·.out) = hist.map (·.out) := by
  induction run with
  | begin started =>
    obtain ⟨t, started', rel⟩ := sim.initial _ started
    exact ⟨[], t, .begin started', rel, rfl, rfl⟩
  | @next hist e before fired ih =>
    obtain ⟨hist', t, run', rel, labels, outs⟩ := ih
    obtain ⟨t', enabled, step, rel'⟩ := sim.step e t fired rel
    refine ⟨⟨t, label e, e.out, t'⟩ :: hist', t', run'.next ⟨enabled, step⟩, rel', ?_, ?_⟩
    · simp [labels]
    · simp [outs]

end LabelledRun
