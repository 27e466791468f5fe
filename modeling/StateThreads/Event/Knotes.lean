import StateThreads.Event.Accounts
import StateThreads.Event.Kqueue

/-! The reference counts of the kqueue event system and the changes it asks the kernel
for. A knote that is counted is waiting on the addlist, or it was handed to the kernel and
has not fired since. -/
namespace StateThreads.Kqueue

def tally (ps : List PollFd) (k : Knote) : Int := (ps.flatMap knotes).count k

theorem tally_append (ps qs : List PollFd) (k : Knote) : tally (ps ++ qs) k = tally ps k + tally qs k := by
  simp [tally, List.count_append]

theorem tally_pos_iff {ps : List PollFd} {k : Knote} : 0 < tally ps k ↔ ∃ pd ∈ ps, k ∈ knotes pd := by
  simp [tally, List.count_pos_iff]

theorem tally_nonneg (ps : List PollFd) (k : Knote) : 0 ≤ tally ps k := by
  simp [tally]

def asked (a : Int × BitVec 16) : List Knote := knotes ⟨a.1, a.2, 0⟩

theorem knotes_ident {pd : PollFd} {k : Knote} (member : k ∈ knotes pd) : k.ident = pd.fd := by
  unfold knotes at member
  split at member <;> split at member <;> simp at member
  · obtain rfl | rfl := member <;> rfl
  · rw [member]
  · rw [member]

theorem tally_asks {ps qs : List PollFd} (same : SameAsks ps qs) (k : Knote) : tally ps k = tally qs k := by
  have flat : ∀ l : List PollFd, l.flatMap knotes = (l.map PollFd.ask).flatMap asked := by
    intro l
    rw [List.flatMap_map]
    rfl
  rw [tally, tally, flat, flat, (List.Perm.flatMap_right asked same).count_eq]

structure Valid (pd : PollFd) : Prop where
  fd : 0 ≤ pd.fd
  some_ : pd.events ≠ 0
  known : pd.events &&& ~~~(pollIn ||| pollOut) = 0

theorem Valid.ask {pd qd : PollFd} (valid : Valid pd) (same : pd.ask = qd.ask) : Valid qd := by
  obtain ⟨fd, events⟩ := Prod.mk.inj same
  exact ⟨fd ▸ valid.fd, events ▸ valid.some_, events ▸ valid.known⟩

variable {κ ω : Type} {K : Kernel κ ω}

def Memory (K : Kernel κ ω) : Prop := ∀ kern n, (K.realloc kern n).2 = true

def Data.Blank (d : Data) : Prop :=
  0 ≤ d.fdDataSize ∧ (∀ k, d.fdDataSize ≤ k.ident → d.refCnt k = 0) ∧ ∀ fd, d.fdDataSize ≤ fd → d.revents fd = 0

structure Grown (K : Kernel κ ω) (s s' : State κ) : Prop where
  rest : s'.data = { s.data with
    fdDataSize := s'.data.fdDataSize, addlistSize := s'.data.addlistSize, evtlistSize := s'.data.evtlistSize }
  size : s.data.fdDataSize ≤ s'.data.fdDataSize
  wide : Memory K → s.data.addlistSize ≤ s.data.evtlistSize → s'.data.addlistSize ≤ s'.data.evtlistSize
  room : s.data.addlistSize ≤ s'.data.addlistSize
  kern : ∀ P : κ → Prop, (∀ k n, P k → P (K.realloc k n).1) → P s.kern → P s'.kern

theorem Grown.refl (s : State κ) : Grown K s s := ⟨rfl, le_refl _, fun _ h => h, le_refl _, fun _ _ h => h⟩

theorem Grown.trans {s s' s'' : State κ} (first : Grown K s s') (second : Grown K s' s'') : Grown K s s'' where
  rest := by rw [second.rest, first.rest]
  size := first.size.trans second.size
  wide memory h := second.wide memory (first.wide memory h)
  room := first.room.trans second.room
  kern P kept h := second.kern P kept (first.kern P kept h)

theorem Grown.blank {s s' : State κ} (grown : Grown K s s') (blank : s.data.Blank) : s'.data.Blank := by
  obtain ⟨size, counts, marks⟩ := blank
  refine ⟨size.trans grown.size, ?_⟩
  rw [grown.rest]
  exact ⟨fun k beyond => counts k (grown.size.trans beyond), fun fd beyond => marks fd (grown.size.trans beyond)⟩

theorem fdDataExpand_spec {s s' : State κ} {maxfd : Int} {ok : Bool} (blank : s.data.Blank)
    (run : fdDataExpand K s maxfd = some (s', ok)) :
    Grown K s s' ∧ (ok = true → maxfd < s'.data.fdDataSize) ∧ (Memory K → ok = true) := by
  obtain ⟨size, counts, marks⟩ := blank
  simp only [fdDataExpand, Option.bind_eq_bind, Option.bind_eq_some_iff] at run
  obtain ⟨n, doubled, run⟩ := run
  obtain ⟨above, larger⟩ := Epoll.doubled_spec doubled size
  split at run
  · cases run
    have same : (fun k : Knote => if s.data.fdDataSize ≤ k.ident ∧ k.ident < n then 0 else s.data.refCnt k) =
        s.data.refCnt := by
      funext k
      split
      · rename_i new
        exact (counts k new.1).symm
      · rfl
    have same' : (fun fd => if s.data.fdDataSize ≤ fd ∧ fd < n then 0 else s.data.revents fd) = s.data.revents := by
      funext fd
      split
      · rename_i new
        exact (marks fd new.1).symm
      · rfl
    refine ⟨⟨?_, larger, fun _ h => h, le_refl _, fun P kept h => kept _ _ h⟩, fun _ => above, fun _ => rfl⟩
    simp only [same, same']
  · rename_i failed
    cases run
    exact ⟨⟨rfl, le_refl _, fun _ h => h, le_refl _, fun P kept h => kept _ _ h⟩, by simp,
      fun memory => absurd (memory _ _) failed⟩

theorem addlistExpand_spec {s s' : State κ} {avail : Int} {ok : Bool} (size : 0 ≤ s.data.addlistSize)
    (run : addlistExpand K s avail = some (s', ok)) : Grown K s s' ∧
      (ok = true → avail + s.data.addlist.length ≤ s'.data.addlistSize) ∧ (Memory K → ok = true) := by
  simp only [addlistExpand, Option.bind_eq_bind, Option.bind_eq_some_iff] at run
  obtain ⟨n, doubled, run⟩ := run
  obtain ⟨above, larger⟩ := Epoll.doubled_spec doubled size
  split at run
  · cases run
    refine ⟨⟨rfl, le_refl _, fun memory _ => ?_, larger, fun P kept h => kept _ _ (kept _ _ h)⟩, fun _ => ?_, fun _ => rfl⟩
    · show n ≤ if (K.realloc (K.realloc s.kern n).1 n).2 then n else s.data.evtlistSize
      rw [if_pos (memory _ _)]
    · have room : avail + s.data.addlist.length ≤ n := by omega
      exact room
  · rename_i failed
    cases run
    exact ⟨⟨rfl, le_refl _, fun _ h => h, le_refl _, fun P kept h => kept _ _ h⟩, by simp,
      fun memory => absurd (memory _ _) failed⟩

theorem checkLoop_spec {pds : List PollFd} {s s' : State κ} {error : Option AddError} (blank : s.data.Blank)
    (run : checkLoop K pds s = some (s', error)) : Grown K s s' ∧
      (error = none → ∀ pd ∈ pds, Valid pd ∧ pd.fd < s'.data.fdDataSize) ∧
      (Memory K → (∀ pd ∈ pds, Valid pd) → error = none) := by
  induction pds generalizing s with
  | nil =>
    cases run
    exact ⟨.refl _, by simp, fun _ _ => rfl⟩
  | cons pd pds ih =>
    rw [checkLoop] at run
    split at run
    · rename_i wrong
      cases run
      refine ⟨.refl _, by simp, fun _ valid => ?_⟩
      obtain ⟨fd, some_, known⟩ := valid pd (List.mem_cons_self ..)
      obtain h | h | h := wrong
      · exact absurd fd (by omega)
      · exact absurd h some_
      · exact absurd known h
    · rename_i right
      have valid : Valid pd := by
        simp only [not_or, Int.not_lt, ne_eq, not_not] at right
        exact ⟨right.1, right.2.1, right.2.2⟩
      have rest : ∀ {s₁ : State κ}, Grown K s s₁ → pd.fd < s₁.data.fdDataSize →
          checkLoop K pds s₁ = some (s', error) → Grown K s s' ∧
            (error = none → ∀ p ∈ pd :: pds, Valid p ∧ p.fd < s'.data.fdDataSize) ∧
            (Memory K → (∀ p ∈ pd :: pds, Valid p) → error = none) := by
        intro s₁ grew below run
        obtain ⟨later, checked, passes⟩ := ih (grew.blank blank) run
        refine ⟨grew.trans later, fun none p member => ?_, fun memory all => ?_⟩
        · obtain rfl | member := List.mem_cons.mp member
          · exact ⟨valid, lt_of_lt_of_le below later.size⟩
          · exact checked none p member
        · exact passes memory fun p member => all p (List.mem_cons_of_mem _ member)
      split at run
      · simp only [Option.bind_eq_bind, Option.bind_eq_some_iff] at run
        obtain ⟨⟨s₁, ok⟩, expanded, run⟩ := run
        obtain ⟨grew, above, granted⟩ := fdDataExpand_spec blank expanded
        cases ok with
        | true => exact rest grew (above rfl) run
        | false =>
          cases run
          exact ⟨grew, by simp, fun memory _ => absurd (granted memory) (by simp)⟩
      · exact rest (.refl _) (by omega) run

theorem reserve_spec {s s' : State κ} {npds : Nat} {ok : Bool} (size : 0 ≤ s.data.addlistSize)
    (run : reserve K s npds = some (s', ok)) : Grown K s s' ∧
      (ok = true → 2 * npds + s.data.addlist.length ≤ s'.data.addlistSize) ∧ (Memory K → ok = true) := by
  unfold reserve at run
  split at run
  · cases run
  · split at run
    · exact addlistExpand_spec size run
    · cases run
      exact ⟨.refl _, fun _ => by omega, fun _ => rfl⟩

/- Adding. -/

structure Added (d : Data) (ks : List Knote) (d' : Data) : Prop where
  rest : d' = { d with refCnt := d'.refCnt, addlist := d'.addlist }
  counts : ∀ k, d'.refCnt k = d.refCnt k + ks.count k
  listed : ∀ c ∈ d'.addlist, c ∈ d.addlist ∨ c.action = .add
  kept : ∀ c ∈ d.addlist, c ∈ d'.addlist
  fresh : ∀ k, d.refCnt k = 0 → k ∈ ks → ⟨k, .add⟩ ∈ d'.addlist
  room : d.addlist.length ≤ d.addlistSize → d'.addlist.length ≤ d.addlistSize

theorem Added.nil (d : Data) : Added d [] d :=
  ⟨rfl, by simp, fun _ => .inl, fun _ => id, by simp, id⟩

theorem addlistAdd_eq {d d' : Data} {kev : Change} (run : addlistAdd d kev = some d') :
    d' = { d with addlist := d.addlist ++ [kev] } ∧ (d.addlist.length : Int) + 1 ≤ d.addlistSize := by
  unfold addlistAdd at run
  split at run
  · cases run
    exact ⟨rfl, by omega⟩
  · cases run

theorem addKnote_added {d d' : Data} {k : Knote} (run : addKnote d k = some d') : Added d [k] d' := by
  have counts : ∀ j, Function.update d.refCnt k (d.refCnt k + 1) j = d.refCnt j + ([k].count j : Nat) := by
    intro j
    by_cases h : j = k
    · subst h; simp
    · simp [h, Ne.symm h]
  simp only [addKnote] at run
  split at run
  · obtain ⟨rfl, fits⟩ := addlistAdd_eq run
    refine ⟨rfl, counts, ?_, ?_, ?_, fun _ => by simpa using fits⟩
    · intro c member
      obtain old | new := List.mem_append.mp member
      · exact .inl old
      · right
        rw [List.mem_singleton.mp new]
    · intro c member
      exact List.mem_append_left _ member
    · intro j _ member
      rw [List.mem_singleton.mp member]
      simp
  · rename_i shared
    cases run
    refine ⟨rfl, counts, fun c member => .inl member, fun c member => member, ?_, id⟩
    intro j zero member
    rw [List.mem_singleton.mp member] at zero
    exact absurd zero shared

theorem Added.cons {d d₁ d' : Data} {k : Knote} {ks : List Knote} (first : Added d [k] d₁)
    (later : Added d₁ ks d') : Added d (k :: ks) d' where
  rest := by rw [later.rest, first.rest]
  counts j := by
    rw [later.counts, first.counts, List.count_cons, List.count_cons, List.count_nil]
    push_cast
    omega
  listed c member := by
    obtain old | new := later.listed c member
    · exact first.listed c old
    · exact .inr new
  kept c member := later.kept c (first.kept c member)
  fresh j zero member := by
    by_cases here : j = k
    · subst here
      exact later.kept _ (first.fresh j zero (List.mem_singleton_self j))
    · have there : j ∈ ks := by simpa [here] using member
      apply later.fresh j _ there
      rw [first.counts, zero]
      simp [Ne.symm here]
  room fits := by
    have same : d₁.addlistSize = d.addlistSize := by rw [first.rest]
    rw [← same] at fits ⊢
    apply later.room
    rw [same] at fits ⊢
    exact first.room fits

theorem addLoop_added {d d' : Data} {ks : List Knote} (run : ks.foldlM addKnote d = some d') : Added d ks d' := by
  induction ks generalizing d with
  | nil =>
    cases run
    exact .nil _
  | cons k ks ih =>
    simp only [List.foldlM_cons, Option.bind_eq_bind, Option.bind_eq_some_iff] at run
    obtain ⟨d₁, one, run⟩ := run
    exact (addKnote_added one).cons (ih run)

theorem knotes_length (pds : List PollFd) : (pds.flatMap knotes).length ≤ 2 * pds.length := by
  induction pds with
  | nil => simp
  | cons pd pds ih =>
    have two : (knotes pd).length ≤ 2 := by
      unfold knotes
      split <;> split <;> simp
    simp only [List.flatMap_cons, List.length_append, List.length_cons]
    omega

/-- With room for ks the assertion of addlist_add does not fail. -/
theorem addLoop_fits {d : Data} {ks : List Knote} (room : d.addlist.length + ks.length ≤ d.addlistSize) :
    ∃ d', ks.foldlM addKnote d = some d' := by
  induction ks generalizing d with
  | nil => exact ⟨d, rfl⟩
  | cons k ks ih =>
    simp only [List.length_cons] at room
    have one : ∃ d₁, addKnote d k = some d₁ ∧ d₁.addlistSize = d.addlistSize ∧
        d₁.addlist.length ≤ d.addlist.length + 1 := by
      simp only [addKnote, addlistAdd]
      by_cases zero : d.refCnt k = 0
      · rw [if_pos zero, if_pos (by push_cast at room; omega)]
        exact ⟨_, rfl, rfl, by simp⟩
      · rw [if_neg zero]
        exact ⟨_, rfl, rfl, by simp⟩
    obtain ⟨d₁, run, same, longer⟩ := one
    obtain ⟨d', later⟩ := ih (d := d₁) (by rw [same]; push_cast at room; omega)
    exact ⟨d', by simp [List.foldlM_cons, run, later]⟩

end StateThreads.Kqueue
