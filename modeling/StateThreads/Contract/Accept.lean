import Mathlib.Data.List.Perm.Basic
import StateThreads.Io.Accept
import StateThreads.Lib.Sole

/-! Serialized accept: the byte in the pipe is a lock that is never lost while no process
ends inside it, and every connection is in one place. -/
namespace StateThreads.Serialized
open LabelledRun Token

def Phase.token : Phase → Option UInt8
  | .locked c | .unlock c _ | .unlockPoll c _ => some c
  | .dead last => last.token
  | _ => none

def Accepted.hand : Accepted → Option Connection
  | .connection osfd => some osfd
  | _ => none

/-- The descriptor that a thread has from accept and nobody else knows of. -/
def Phase.hand : Phase → Option Connection
  | .unlock _ osfd | .unlockPoll _ osfd => osfd.hand
  | .wrap osfd => some osfd
  | .dead last => last.hand
  | _ => none

def Phase.plain : Phase → Bool
  | .accept => true
  | .poll p => !p
  | _ => false

def Phase.stuck : Phase → Bool
  | .unlockPoll _ _ | .aborted => true
  | .dead last => last.stuck
  | _ => false

def Out.taken : Out → Option Connection
  | .accepted osfd => some osfd
  | _ => none

/-- The connection that the library is done with, or never gets. -/
def Out.settled : Out → Option Connection
  | .newfd osfd | .null _ (some osfd) | .dropped osfd => some osfd
  | _ => none

structure Out.Quiet (out : Out) : Prop where
  taken : out.taken = none
  settled : out.settled = none

inductive Effect (s : Listener) : Listener → Out → Prop
  | serialize (before : s.auxData = false) : Effect s { s with auxData := true, pipe := [space] } (.status 0)
  | stay {out : Out} (quiet : out.Quiet) : Effect s s out
  | move {t : Tid} {phase : Phase} {out : Out} (quiet : out.Quiet) (token : phase.token = (s.phase t).token)
      (hand : phase.hand = (s.phase t).hand) (plain : phase.plain = true → (s.phase t).plain = true ∨ s.auxData = false)
      (stuck : phase.stuck = true → (s.phase t).stuck = true ∨ s.room ≤ s.pipe.length ∧ (s.phase t).token.isSome) :
      Effect s (s.move t phase) out
  | take {t : Tid} {c : UInt8} {pipe : List UInt8} (free : (s.phase t).token = none) (hand : (s.phase t).hand = none)
      (byte : s.pipe = c :: pipe) : Effect s ({ s with pipe := pipe }.move t (.locked c)) .void
  | give {t : Tid} {c : UInt8} {phase : Phase} {out : Out} (quiet : out.Quiet) (holds : (s.phase t).token = some c)
      (token : phase.token = none) (hand : phase.hand = (s.phase t).hand) (plain : phase.plain = false)
      (stuck : phase.stuck = false) : Effect s ({ s with pipe := s.pipe ++ [c] }.move t phase) out
  | accept {t : Tid} {osfd : Connection} {backlog : List Connection} {phase : Phase}
      (first : s.backlog = osfd :: backlog) (token : phase.token = (s.phase t).token) (free : (s.phase t).hand = none)
      (hand : phase.hand = some osfd) (plain : phase.plain = false) (stuck : phase.stuck = false) :
      Effect s ({ s with backlog := backlog }.move t phase) (.accepted osfd)
  | settle {t : Tid} {osfd : Connection} {out : Out} (wrap : s.phase t = .wrap osfd) (taken : out.taken = none)
      (settled : out.settled = some osfd) : Effect s (s.move t .outside) out
  | arrive : Effect s { s with backlog := s.backlog ++ [s.arrived], arrived := s.arrived + 1 } .void
  | drop {i : Nat} {osfd : Connection} (there : s.backlog[i]? = some osfd) :
      Effect s { s with backlog := s.backlog.eraseIdx i } (.dropped osfd)
  | lose {t : Tid} (stuck : (s.phase t).stuck = true) : Effect s (s.move t .aborted) .void

theorem Out.quiet_void : Out.void.Quiet := ⟨rfl, rfl⟩

theorem Out.quiet_null (e : Errno) : (Out.null e none).Quiet := ⟨rfl, rfl⟩

@[simp] theorem again_token (p : Bool) : (again p).token = none := by cases p <;> rfl

@[simp] theorem again_hand (p : Bool) : (again p).hand = none := by cases p <;> rfl

@[simp] theorem again_plain (p : Bool) : (again p).plain = !p := by cases p <;> rfl

@[simp] theorem again_stuck (p : Bool) : (again p).stuck = false := by cases p <;> rfl

theorem proceed_spec (p : Bool) (osfd : Accepted) : (proceed p osfd).2.Quiet ∧ (proceed p osfd).1.token = none ∧
    (proceed p osfd).1.hand = osfd.hand ∧ ((proceed p osfd).1.plain = true → p = false) ∧
    (proceed p osfd).1.stuck = false := by
  cases osfd with
  | connection osfd => exact ⟨Out.quiet_void, rfl, rfl, by simp [proceed, Phase.plain], rfl⟩
  | notReady => exact ⟨Out.quiet_void, rfl, rfl, by simp [proceed, Phase.plain], rfl⟩
  | failed e =>
    rw [proceed]
    split
    · exact ⟨Out.quiet_void, by simp, by simp [Accepted.hand], by simp, by simp⟩
    · exact ⟨Out.quiet_null e, rfl, rfl, by simp [Phase.plain], rfl⟩

theorem accept_cases (s : Listener) (error : Option Errno) :
    (∃ osfd backlog, s.backlog = osfd :: backlog ∧ accept s error = (.connection osfd, backlog)) ∨
      ∃ osfd, osfd.hand = none ∧ accept s error = (osfd, s.backlog) := by
  cases error with
  | some e => exact .inr ⟨.failed e, rfl, rfl⟩
  | none =>
    rw [accept]
    split
    · rename_i none_
      exact .inr ⟨.notReady, rfl, by rw [none_]⟩
    · rename_i osfd backlog waiting
      exact .inl ⟨osfd, backlog, waiting, rfl⟩

theorem Accepted.out_none {osfd : Accepted} (free : osfd.hand = none) (out : Out) : osfd.out out = out := by
  cases osfd with
  | connection osfd => cases free
  | notReady => rfl
  | failed e => rfl

section
variable {s s' : Listener} {t : Tid} {error : Option Errno} {out : Out}

theorem Effect.pass {before phase : Phase} (at_ : s.phase t = before) (quiet : out.Quiet)
    (same : phase.token = before.token ∧ phase.hand = before.hand) (new : phase.plain = false ∧ phase.stuck = false) :
    Effect s (s.move t phase) out := by
  subst at_
  exact .move quiet same.1 same.2 (by simp [new.1]) (by simp [new.2])

theorem accept_effect {f : Accepted → Phase × Out} (free : (s.phase t).hand = none)
    (token : ∀ osfd, (f osfd).1.token = (s.phase t).token) (hand : ∀ osfd, (f osfd).1.hand = osfd.hand)
    (plain : ∀ osfd, (f osfd).1.plain = true → osfd.hand = none ∧ (s.phase t).plain = true)
    (stuck : ∀ osfd, (f osfd).1.stuck = false) (quiet : ∀ osfd, (f osfd).2.Quiet) :
    Effect s ({ s with backlog := (accept s error).2 }.move t (f (accept s error).1).1)
      ((accept s error).1.out (f (accept s error).1).2) := by
  obtain ⟨osfd, backlog, waiting, answer⟩ | ⟨osfd, none_, answer⟩ := accept_cases s error
  · rw [answer]
    refine .accept waiting (token _) free (hand _) ?_ (stuck _)
    by_contra yes
    cases (plain _ (by simpa using yes)).1
  · rw [answer, Accepted.out_none none_]
    exact .move (quiet osfd) (token osfd) ((hand osfd).trans (none_.trans free.symm)) (fun yes => .inl (plain osfd yes).2)
      fun yes => absurd yes (by simp [stuck osfd])

theorem call_effect (called : call s t error = some (s', out)) : Effect s s' out := by
  unfold call at called
  split at called
  next phase =>
    cases called
    apply accept_effect (f := proceed false)
    · simp [phase, Phase.hand]
    · intro osfd
      rw [phase, (proceed_spec false osfd).2.1]
      rfl
    · exact fun osfd => (proceed_spec false osfd).2.2.1
    · intro osfd yes
      refine ⟨?_, by simp [phase, Phase.plain]⟩
      cases osfd with
      | connection osfd => cases yes
      | notReady => rfl
      | failed e => rfl
    · exact fun osfd => (proceed_spec false osfd).2.2.2.2
    · exact fun osfd => (proceed_spec false osfd).1
  next phase =>
    split at called
    next pipe e =>
      split at called
      · cases called
        exact .stay Out.quiet_void
      · cases called
        exact .pass phase (Out.quiet_null e) ⟨rfl, rfl⟩ ⟨rfl, rfl⟩
    next none_ =>
      cases called
      exact .pass phase Out.quiet_void ⟨rfl, rfl⟩ ⟨rfl, rfl⟩
    next c pipe byte =>
      cases called
      exact .take (by simp [phase, Phase.token]) (by simp [phase, Phase.hand]) byte
  next c phase =>
    cases called
    apply accept_effect (f := fun osfd => (.unlock c osfd, .void))
    · simp [phase, Phase.hand]
    · simp [phase, Phase.token]
    · simp [Phase.hand]
    · simp [Phase.plain]
    · simp [Phase.stuck]
    · exact fun osfd => Out.quiet_void
  next c osfd phase =>
    cases error with
    | some e =>
      dsimp only at called
      split at called
      · cases called
        exact .stay Out.quiet_void
      · cases called
    | none =>
      dsimp only at called
      obtain ⟨quiet, token, hand, plain, stuck⟩ := proceed_spec true osfd
      split at called
      · cases called
        exact .give quiet (by simp [phase, Phase.token]) token (by simp [phase, Phase.hand, hand])
          (by simpa using plain) stuck
      · rename_i full
        cases called
        exact .move Out.quiet_void (by simp [phase, Phase.token]) (by simp [phase, Phase.hand]) (by simp [Phase.plain])
          fun _ => .inr ⟨by omega, by simp [phase, Phase.token]⟩
  next => cases called

theorem polled_effect (called : polled s t error = some (s', out)) : Effect s s' out := by
  unfold polled at called
  split at called
  next phase =>
    cases called
    exact .pass phase Out.quiet_void ⟨rfl, rfl⟩ ⟨rfl, rfl⟩
  next e phase =>
    cases called
    exact .pass phase (Out.quiet_null e) ⟨rfl, rfl⟩ ⟨rfl, rfl⟩
  next c osfd phase =>
    cases called
    exact .pass phase Out.quiet_void ⟨rfl, rfl⟩ ⟨rfl, rfl⟩
  next c osfd e phase =>
    cases called
    exact .lose (by simp [phase, Phase.stuck])
  next p phase =>
    cases called
    exact .move Out.quiet_void (by simp [phase, Phase.token]) (by simp [phase, Phase.hand])
      (by rw [again_plain, phase]; exact .inl) (by simp)
  next p e phase =>
    cases called
    exact .pass phase (Out.quiet_null e) ⟨rfl, rfl⟩ ⟨rfl, rfl⟩
  next => cases called

theorem made_effect (called : made s t error = some (s', out)) : Effect s s' out := by
  unfold made at called
  split at called
  next osfd phase =>
    cases called
    exact .settle phase rfl rfl
  next osfd e phase =>
    cases called
    exact .settle phase rfl rfl
  next => cases called

end

theorem listenerStep_effect {s s' : Listener} {label : Label} {out : Out} (step : listenerStep s label = some (s', out)) :
    Effect s s' out := by
  cases label with
  | serializeAccept ok =>
    simp only [listenerStep, stNetfdSerializeAccept, Option.some.injEq] at step
    split at step
    · cases step
      exact .stay ⟨rfl, rfl⟩
    · rename_i new
      cases step
      exact .serialize (by simp_all)
  | enter t =>
    simp only [listenerStep] at step
    split at step
    · rename_i phase
      cases step
      exact .move Out.quiet_void (by simp [phase, Phase.token]) (by simp [phase, Phase.hand])
        (fun plain => .inr (by simpa using plain)) (by simp)
    · cases step
  | call t error => exact call_effect step
  | polled t error => exact polled_effect step
  | made t error => exact made_effect step
  | exit t =>
    simp only [listenerStep] at step
    split at step
    · cases step
      exact .move Out.quiet_void rfl rfl (by simp [Phase.plain]) fun stuck => .inl stuck
    · cases step
  | arrive =>
    cases step
    exact .arrive
  | drop i =>
    obtain ⟨osfd, there, same⟩ := Option.map_eq_some_iff.mp step
    cases same
    exact .drop there

/- The lock. -/

def Listener.holds (s : Listener) (t : Tid) : Bool := (s.phase t).token.isSome

theorem holds_move (s : Listener) (t : Tid) (phase : Phase) :
    (s.move t phase).holds = Function.update s.holds t phase.token.isSome := by
  funext u
  by_cases same : u = t
  · simp [same, Listener.holds, Listener.move]
  · simp [Listener.holds, Listener.move, Function.update_of_ne same]

theorem forall_move {P : Phase → Prop} {s : Listener} (all : ∀ u, P (s.phase u)) {t : Tid} {phase : Phase}
    (new : P phase) (u : Tid) : P ((s.move t phase).phase u) := by
  by_cases same : u = t
  · simpa [same, Listener.move] using new
  · simpa [Listener.move, Function.update_of_ne same] using all u

def IsSpace (phase : Phase) : Prop := ∀ c, phase.token = some c → c = space

/-- Before the accept is serialized there is no byte, and then there is one: in the pipe, or
with a thread that can write it back at once. -/
structure Guarded (s : Listener) : Prop where
  before : s.auxData = false → s.pipe = [] ∧ ∀ t, s.holds t = false
  sole : s.auxData = true → Sole s.pipe.length s.holds
  pipe : ∀ c ∈ s.pipe, c = space
  bytes : ∀ t, IsSpace (s.phase t)
  free : ∀ t, (s.phase t).stuck = false
  room : 0 < s.room

theorem Guarded.gap {s : Listener} (guarded : Guarded s) {t : Tid} (mine : s.holds t = true) : s.pipe = [] := by
  cases aux : s.auxData with
  | false => exact (guarded.before aux).1
  | true => exact List.eq_nil_of_length_eq_zero ((guarded.sole aux).empty mine)

theorem Guarded.serialized {s : Listener} (guarded : Guarded s) {t : Tid} (mine : s.holds t = true) :
    s.auxData = true := by
  by_contra plain
  have none_ := (guarded.before (by simpa using plain)).2 t
  simp [mine] at none_

theorem Guarded.pass {s : Listener} (guarded : Guarded s) {t : Tid} {phase : Phase}
    (token : phase.token = (s.phase t).token) (stuck : phase.stuck = false) : Guarded (s.move t phase) := by
  have same : (s.move t phase).holds = s.holds := by
    rw [holds_move, token]
    exact Function.update_eq_self t s.holds
  constructor
  case before => exact fun aux => ⟨(guarded.before aux).1, fun u => by rw [same]; exact (guarded.before aux).2 u⟩
  case sole =>
    intro aux
    rw [same]
    exact guarded.sole aux
  case pipe => exact guarded.pipe
  case bytes => exact forall_move guarded.bytes fun c byte => guarded.bytes t c (token ▸ byte)
  case free => exact forall_move (P := fun phase => phase.stuck = false) guarded.free stuck
  case room => exact guarded.room

theorem Guarded.effect {s s' : Listener} {out : Out} (guarded : Guarded s) (effect : Effect s s' out) : Guarded s' := by
  cases effect with
  | serialize before =>
    have none_ := (guarded.before before).2
    exact ⟨by simp, fun _ => Sole.placed none_, by simp, guarded.bytes, guarded.free, guarded.room⟩
  | stay quiet => exact guarded
  | move quiet token hand plain stuck =>
    apply guarded.pass token
    by_contra yes
    obtain already | ⟨full, mine⟩ := stuck (by simpa using yes)
    · simp [guarded.free] at already
    · have room := guarded.room
      rw [guarded.gap mine, List.length_nil] at full
      omega
  | @take t c pipe free hand byte =>
    have aux : s.auxData = true := by
      by_contra plain
      simp [(guarded.before (by simpa using plain)).1] at byte
    have sole := guarded.sole aux
    rw [byte, List.length_cons] at sole
    constructor
    case before => exact fun plain => absurd plain (by simp [Listener.move, aux])
    case sole =>
      rw [holds_move]
      exact fun _ => sole.take t
    case pipe => exact fun d mem => guarded.pipe d (by rw [byte]; exact List.mem_cons_of_mem c mem)
    case bytes =>
      refine forall_move (s := { s with pipe := pipe }) guarded.bytes fun d same => ?_
      cases same
      exact guarded.pipe c (by simp [byte])
    case free => exact forall_move (P := fun phase => phase.stuck = false) (s := { s with pipe := pipe }) guarded.free rfl
    case room => exact guarded.room
  | @give t c phase out quiet mine token hand plain stuck =>
    have mine' : s.holds t = true := by simp [Listener.holds, mine]
    have aux := guarded.serialized mine'
    constructor
    case before => exact fun plain => absurd plain (by simp [Listener.move, aux])
    case sole =>
      have put : Sole (s.pipe ++ [c]).length (Function.update s.holds t false) := by
        simpa using (guarded.sole aux).put mine'
      rw [holds_move, token]
      exact fun _ => put
    case pipe =>
      intro d mem
      obtain old | new := List.mem_append.mp mem
      · exact guarded.pipe d old
      · rw [List.mem_singleton.mp new]
        exact guarded.bytes t c mine
    case bytes =>
      exact forall_move (s := { s with pipe := s.pipe ++ [c] }) guarded.bytes fun d same => by simp [token] at same
    case free =>
      exact forall_move (P := fun phase => phase.stuck = false) (s := { s with pipe := s.pipe ++ [c] }) guarded.free stuck
    case room => exact guarded.room
  | accept first token free hand plain stuck =>
    have passed := guarded.pass token stuck
    exact ⟨passed.before, passed.sole, passed.pipe, passed.bytes, passed.free, passed.room⟩
  | settle wrap taken settled => exact guarded.pass (by simp [wrap, Phase.token]) rfl
  | arrive => exact ⟨guarded.before, guarded.sole, guarded.pipe, guarded.bytes, guarded.free, guarded.room⟩
  | drop there => exact ⟨guarded.before, guarded.sole, guarded.pipe, guarded.bytes, guarded.free, guarded.room⟩
  | lose stuck => simp [guarded.free] at stuck

theorem Started.guarded {s : Listener} (started : Started s) : Guarded s where
  before _ := ⟨started.empty, fun t => by simp [Listener.holds, started.outside t, Phase.token]⟩
  sole aux := by simp [started.plain] at aux
  pipe c mem := by simp [started.empty] at mem
  bytes t c byte := by simp [started.outside t, Phase.token] at byte
  free t := by rw [started.outside t]; rfl
  room := started.room

theorem listener_guarded {hist : List ListenerEvent} {s : Listener} (run : ListenerRun hist s) : Guarded s := by
  induction run with
  | begin started => exact started.guarded
  | next before fired ih => exact ih.effect (listenerStep_effect fired.step)

/-- The lock lies in the pipe, or one thread has it. -/
def OneToken (s : Listener) : Prop :=
  s.pipe = [space] ∧ (∀ t, (s.phase t).token = none) ∨
    s.pipe = [] ∧ ∃ t, (s.phase t).token = some space ∧ ∀ u, u ≠ t → (s.phase u).token = none

theorem not_holds {s : Listener} {t : Tid} (none_ : s.holds t = false) : (s.phase t).token = none := by
  simpa [Listener.holds] using none_

theorem Guarded.oneToken {s : Listener} (guarded : Guarded s) (aux : s.auxData = true) : OneToken s := by
  obtain ⟨one, none_⟩ | ⟨zero, t, mine, only⟩ := guarded.sole aux
  · obtain ⟨c, byte⟩ := List.length_eq_one_iff.mp one
    refine .inl ⟨?_, fun t => not_holds (none_ t)⟩
    rw [byte, guarded.pipe c (by simp [byte])]
  · obtain ⟨c, byte⟩ := Option.isSome_iff_exists.mp mine
    refine .inr ⟨List.eq_nil_of_length_eq_zero zero, t, ?_, fun u other => ?_⟩
    · rw [byte, guarded.bytes t c byte]
    · apply not_holds
      by_contra yours
      exact other (only u (by simpa using yours))

def Phase.inAccept : Phase → Bool
  | .accept | .locked _ => true
  | _ => false

theorem inAccept_token {phase : Phase} (inside : phase.inAccept = true) (serialized : phase.plain = false) :
    phase.token.isSome = true := by
  cases phase <;> simp_all [Phase.inAccept, Phase.plain, Phase.token]

theorem plain_effect {s s' : Listener} {out : Out} (effect : Effect s s' out)
    (serialized : s.auxData = true ∧ ∀ t, (s.phase t).plain = false) :
    s'.auxData = true ∧ ∀ t, (s'.phase t).plain = false := by
  obtain ⟨aux, none_⟩ := serialized
  cases effect with
  | serialize before => simp [aux] at before
  | stay quiet => exact ⟨aux, none_⟩
  | move quiet token hand plain stuck =>
    refine ⟨aux, forall_move (P := fun phase => phase.plain = false) none_ ?_⟩
    by_contra yes
    obtain already | not_yet := plain (by simpa using yes)
    · simp [none_] at already
    · simp [aux] at not_yet
  | @take t c pipe free hand byte =>
    exact ⟨aux, forall_move (P := fun phase => phase.plain = false) (s := { s with pipe := pipe }) none_ rfl⟩
  | @give t c phase out quiet mine token hand plain stuck =>
    exact ⟨aux, forall_move (P := fun phase => phase.plain = false) (s := { s with pipe := s.pipe ++ [c] }) none_ plain⟩
  | @accept t osfd backlog phase first token free hand plain stuck =>
    exact ⟨aux, forall_move (P := fun phase => phase.plain = false) (s := { s with backlog := backlog }) none_ plain⟩
  | settle wrap taken settled => exact ⟨aux, forall_move (P := fun phase => phase.plain = false) none_ rfl⟩
  | arrive => exact ⟨aux, none_⟩
  | drop there => exact ⟨aux, none_⟩
  | lose stuck => exact ⟨aux, forall_move (P := fun phase => phase.plain = false) none_ rfl⟩

def Phase.idle : Phase → Bool
  | .outside => true
  | .dead last => last.idle
  | _ => false

theorem idle_plain {phase : Phase} (idle : phase.idle = true) : phase.plain = false := by
  cases phase <;> simp_all [Phase.idle, Phase.plain]

theorem idle_still {s : Listener} {t : Tid} (idle : (s.phase t).idle = true) (error : Option Errno) :
    call s t error = none ∧ polled s t error = none ∧ made s t error = none := by
  cases phase : s.phase t with
  | outside => simp [call, polled, made, phase]
  | dead last => simp [call, polled, made, phase]
  | _ => simp [phase, Phase.idle] at idle

theorem idle_step {s s' : Listener} {label : Label} {out : Out} (step : listenerStep s label = some (s', out))
    (nobody : ∀ t, label ≠ .enter t) (idle : ∀ t, (s.phase t).idle = true) (t : Tid) : (s'.phase t).idle = true := by
  cases label with
  | serializeAccept ok =>
    simp only [listenerStep, stNetfdSerializeAccept, Option.some.injEq] at step
    split at step <;> cases step <;> exact idle t
  | enter u => exact absurd rfl (nobody u)
  | call u error => simp [listenerStep, (idle_still (idle u) error).1] at step
  | polled u error => simp [listenerStep, (idle_still (idle u) error).2.1] at step
  | made u error => simp [listenerStep, (idle_still (idle u) error).2.2] at step
  | exit u =>
    simp only [listenerStep] at step
    split at step
    · cases step
      have gone : (Phase.dead (s.phase u)).idle = true := idle u
      exact forall_move (P := fun phase => phase.idle = true) idle gone t
    · cases step
  | arrive =>
    cases step
    exact idle t
  | drop i =>
    obtain ⟨osfd, there, same⟩ := Option.map_eq_some_iff.mp step
    cases same
    exact idle t

theorem idle_run {hist : List ListenerEvent} {s : Listener} (run : ListenerRun hist s)
    (nobody : ∀ e ∈ hist, ∀ t, e.label ≠ .enter t) (t : Tid) : (s.phase t).idle = true := by
  induction run generalizing t with
  | begin started => simp [started.outside t, Phase.idle]
  | @next hist e before fired ih =>
    exact idle_step fired.step (nobody e (by simp)) (ih fun o old => nobody o (List.mem_cons_of_mem e old)) t

theorem serialized_run {newer older : List ListenerEvent} {e : ListenerEvent} {s : Listener}
    (run : ListenerRun (newer ++ e :: older) s) (made : e.label = .serializeAccept true)
    (first : ∀ o ∈ older, ∀ t, o.label ≠ .enter t) : s.auxData = true ∧ ∀ t, (s.phase t).plain = false := by
  obtain ⟨before, fired, -⟩ := run.split
  apply run.carry (P := fun s => s.auxData = true ∧ ∀ t, (s.phase t).plain = false)
  · have idle := idle_run before first
    have step := fired.step
    simp only [made, listenerMachine, listenerStep, stNetfdSerializeAccept, Option.some.injEq] at step
    split at step
    · rename_i already
      rw [← (Prod.mk.inj step).1]
      exact ⟨by simpa using already, fun t => idle_plain (idle t)⟩
    · rw [← (Prod.mk.inj step).1]
      exact ⟨rfl, fun t => idle_plain (idle t)⟩
  · exact fun n _ hist _ serialized step => plain_effect (listenerStep_effect step.step) serialized

/-- In a run where st_netfd_serialize_accept comes before any st_accept, the lock is in one
place; two threads are never in accept together; the lock that lies in the pipe is obtained
at once; and it is given back at once, so that no assertion on the pipe fails. -/
theorem serialized_accept_exclusive {newer older : List ListenerEvent} {e : ListenerEvent} {s : Listener}
    (run : ListenerRun (newer ++ e :: older) s) (made : e.label = .serializeAccept true)
    (first : ∀ o ∈ older, ∀ t, o.label ≠ .enter t) :
    OneToken s ∧
      (∀ t u, (s.phase t).inAccept = true → (s.phase u).inAccept = true → t = u) ∧
      (∀ t, s.phase t = .lock → (∀ u, (s.phase u).token = none) →
        ∃ s', listenerStep s (.call t none) = some (s', .void) ∧ s'.phase t = .locked space) ∧
      (∀ t c osfd, s.phase t = .unlock c osfd →
        ∃ s' out, listenerStep s (.call t none) = some (s', out) ∧ s'.pipe = [space] ∧ ∀ u, (s'.phase u).token = none) ∧
      ∀ t, (s.phase t).stuck = false := by
  obtain ⟨aux, serialized⟩ := serialized_run run made first
  have guarded := listener_guarded run
  have one := guarded.oneToken aux
  refine ⟨one, fun t u mine yours => ?_, fun t phase none_ => ?_, fun t c osfd phase => ?_, guarded.free⟩
  · exact (guarded.sole aux).unique (inAccept_token mine (serialized t)) (inAccept_token yours (serialized u))
  · obtain ⟨pipe, -⟩ | ⟨-, u, byte, -⟩ := one
    · exact ⟨{ s with pipe := [] }.move t (.locked space), by simp [listenerStep, call, phase, pipe],
        by simp [Listener.move]⟩
    · simp [none_ u] at byte
  · have mine : (s.phase t).token = some c := by simp [phase, Phase.token]
    have empty := guarded.gap (t := t) (by simp [Listener.holds, mine])
    have room := guarded.room
    refine ⟨{ s with pipe := s.pipe ++ [c] }.move t (proceed true osfd).1, (proceed true osfd).2, ?_, ?_, ?_⟩
    · simp [listenerStep, call, phase, empty, room]
    · simp [Listener.move, empty, guarded.bytes t c mine]
    · obtain ⟨-, none_⟩ | ⟨-, u, byte, only⟩ := one
      · simp [none_ t] at mine
      · have same : t = u := by
          by_contra other
          simp [only t other] at mine
        intro v
        by_cases it : v = t
        · simp [it, Listener.move, (proceed_spec true osfd).2.1]
        · simpa [Listener.move, Function.update_of_ne it] using only v (same ▸ it)

def fresh : Listener := ⟨false, [], 512, [], 0, fun _ => .outside⟩

theorem fresh_started : Started fresh := ⟨rfl, rfl, by simp [fresh], rfl, rfl, fun _ => rfl⟩

/-- Threads 1 and 2 accept, and 1 comes first; then a signal comes before it has given the
lock back. -/
def contended : List Label :=
  [.serializeAccept true, .enter 1, .enter 2, .arrive, .arrive, .call 1 none, .call 2 none, .call 1 none,
    .call 1 (some .eintr)]

theorem serialized_accept_exclusive_contended : ∃ hist s, ListenerRun hist s ∧
    (s.phase 1 = .unlock space (.connection 0) ∧ s.phase 2 = .lockPoll) ∧ OneToken s ∧
      (∀ t u, (s.phase t).inAccept = true → (s.phase u).inAccept = true → t = u) ∧
      (∀ t, s.phase t = .lock → (∀ u, (s.phase u).token = none) →
        ∃ s', listenerStep s (.call t none) = some (s', .void) ∧ s'.phase t = .locked space) ∧
      (∀ t c osfd, s.phase t = .unlock c osfd →
        ∃ s' out, listenerStep s (.call t none) = some (s', out) ∧ s'.pipe = [space] ∧ ∀ u, (s'.phase u).token = none) ∧
      ∀ t, (s.phase t).stuck = false := by
  obtain ⟨hist, s, run, seen⟩ := Run.found (M := listenerMachine) contended fresh_started
    (p := fun hist s => decide (s.phase 1 = .unlock space (.connection 0) ∧ s.phase 2 = .lockPoll ∧
      hist.getLast?.map (·.label) = some (.serializeAccept true))) (by decide +kernel)
  obtain ⟨one, two, oldest⟩ := of_decide_eq_true seen
  obtain ⟨e, last, label⟩ := Option.map_eq_some_iff.mp oldest
  obtain ⟨newer, rfl⟩ := List.getLast?_eq_some_iff.mp last
  exact ⟨_, s, run, ⟨one, two⟩, serialized_accept_exclusive run label (by simp)⟩

/- The connections. -/

def takenBy (hist : List ListenerEvent) : List Connection := hist.reverse.filterMap (·.out.taken)

def settledBy (hist : List ListenerEvent) : List Connection := hist.filterMap (·.out.settled)

theorem takenBy_cons (hist : List ListenerEvent) (e : ListenerEvent) :
    takenBy (e :: hist) = takenBy hist ++ e.out.taken.toList := by
  cases taken : e.out.taken <;> simp [takenBy, taken]

def located (hist : List ListenerEvent) (backlog : List Connection) (osfd : Connection) : Nat :=
  (settledBy hist).count osfd + backlog.count osfd

theorem located_none {hist : List ListenerEvent} {e : ListenerEvent} (none_ : e.out.settled = none)
    (backlog : List Connection) (osfd : Connection) : located (e :: hist) backlog osfd = located hist backlog osfd := by
  simp [located, settledBy, none_]

theorem located_some {hist : List ListenerEvent} {e : ListenerEvent} {done : Connection}
    (some_ : e.out.settled = some done) (backlog : List Connection) (osfd : Connection) :
    located (e :: hist) backlog osfd = located hist backlog osfd + if done = osfd then 1 else 0 := by
  by_cases same : done = osfd
  · simp [located, settledBy, some_, same]
    omega
  · simp [located, settledBy, some_, same]

def hasIn (phases : Tid → Phase) (osfd : Connection) (t : Tid) : Bool := (phases t).hand == some osfd

theorem hasIn_update (phases : Tid → Phase) (osfd : Connection) (t : Tid) (phase : Phase) :
    hasIn (Function.update phases t phase) osfd = Function.update (hasIn phases osfd) t (phase.hand == some osfd) := by
  funext u
  by_cases same : u = t
  · simp [same, hasIn]
  · simp [hasIn, Function.update_of_ne same]

def InPlace (arrived osfd n : Nat) (has : Tid → Bool) : Prop :=
  osfd < arrived ∧ Sole n has ∨ arrived ≤ osfd ∧ n = 0 ∧ ∀ t, has t = false

section
variable {arrived osfd n : Nat} {has : Tid → Bool} {t : Tid}

theorem InPlace.take (place : InPlace arrived osfd (n + 1) has) (t : Tid) :
    InPlace arrived osfd n (Function.update has t true) := by
  obtain ⟨old, sole⟩ | ⟨-, none_, -⟩ := place
  · exact .inl ⟨old, sole.take t⟩
  · omega

theorem InPlace.put (place : InPlace arrived osfd n has) (mine : has t = true) :
    InPlace arrived osfd (n + 1) (Function.update has t false) := by
  obtain ⟨old, sole⟩ | ⟨-, -, nobody⟩ := place
  · exact .inl ⟨old, sole.put mine⟩
  · simp [nobody t] at mine

theorem InPlace.keep (place : InPlace arrived osfd n has) {b : Bool} (same : b = has t) :
    InPlace arrived osfd n (Function.update has t b) := by
  rw [same, Function.update_eq_self]
  exact place

theorem InPlace.arrive (place : InPlace arrived osfd n has) :
    InPlace (arrived + 1) osfd (n + if arrived = osfd then 1 else 0) has := by
  obtain ⟨old, sole⟩ | ⟨new, none_, nobody⟩ := place
  · rw [if_neg (by omega)]
    exact .inl ⟨by omega, sole⟩
  · split
    · rw [none_]
      exact .inl ⟨by omega, Sole.placed nobody⟩
    · exact .inr ⟨by omega, none_, nobody⟩

end

/-- Connections are accepted in the order of their arrival, and each is in its place. -/
structure Accounted (hist : List ListenerEvent) (backlog : List Connection) (arrived : Nat) (phases : Tid → Phase) :
    Prop where
  place : ∀ osfd, InPlace arrived osfd (located hist backlog osfd) (hasIn phases osfd)
  order : (takenBy hist ++ backlog).Pairwise (· < ·)
  bound : ∀ osfd ∈ takenBy hist ++ backlog, osfd < arrived

namespace Accounted
variable {hist : List ListenerEvent} {backlog : List Connection} {arrived : Nat} {phases : Tid → Phase}
  {e : ListenerEvent} {t : Tid} {phase : Phase} {osfd : Connection}

theorem quiet_accounted (accounted : Accounted hist backlog arrived phases) (quiet : e.out.Quiet) :
    Accounted (e :: hist) backlog arrived phases where
  place osfd := by
    rw [located_none quiet.settled]
    exact accounted.place osfd
  order := by simpa [takenBy_cons, quiet.taken] using accounted.order
  bound := by simpa [takenBy_cons, quiet.taken] using accounted.bound

theorem pass_accounted (accounted : Accounted hist backlog arrived phases) (hand : phase.hand = (phases t).hand) :
    Accounted hist backlog arrived (Function.update phases t phase) where
  place osfd := by
    rw [hasIn_update]
    exact (accounted.place osfd).keep (by rw [hand, hasIn])
  order := accounted.order
  bound := accounted.bound

theorem accept_accounted (accounted : Accounted hist (osfd :: backlog) arrived phases) (taken : e.out = .accepted osfd)
    (free : (phases t).hand = none) (hand : phase.hand = some osfd) :
    Accounted (e :: hist) backlog arrived (Function.update phases t phase) where
  place other := by
    have old := accounted.place other
    rw [located_none (by rw [taken]; rfl), hasIn_update, hand]
    by_cases same : osfd = other
    · have count : located hist (osfd :: backlog) other = located hist backlog other + 1 := by
        simp [located, same]
        omega
      rw [count] at old
      simpa [same] using old.take t
    · have count : located hist (osfd :: backlog) other = located hist backlog other := by simp [located, same]
      rw [count] at old
      exact old.keep (by simp [same, hasIn, free])
  order := by simpa [takenBy_cons, taken, Out.taken] using accounted.order
  bound := by simpa [takenBy_cons, taken, Out.taken] using accounted.bound

theorem settle_accounted (accounted : Accounted hist backlog arrived phases) (taken : e.out.taken = none)
    (settled : e.out.settled = some osfd) (mine : (phases t).hand = some osfd) (free : phase.hand = none) :
    Accounted (e :: hist) backlog arrived (Function.update phases t phase) where
  place other := by
    have old := accounted.place other
    rw [located_some settled, hasIn_update, free]
    by_cases same : osfd = other
    · rw [if_pos same]
      exact old.put (by simp [hasIn, mine, same])
    · rw [if_neg same]
      exact old.keep (by simp [hasIn, mine, same])
  order := by simpa [takenBy_cons, taken] using accounted.order
  bound := by simpa [takenBy_cons, taken] using accounted.bound

theorem arrive_accounted (accounted : Accounted hist backlog arrived phases) :
    Accounted hist (backlog ++ [arrived]) (arrived + 1) phases where
  place osfd := by
    have count : located hist (backlog ++ [arrived]) osfd =
        located hist backlog osfd + if arrived = osfd then 1 else 0 := by
      simp [located, List.count_append, List.count_singleton]
      omega
    rw [count]
    exact (accounted.place osfd).arrive
  order := by
    rw [← List.append_assoc, List.pairwise_append]
    refine ⟨accounted.order, List.pairwise_singleton .., fun osfd old last new => ?_⟩
    rw [List.mem_singleton.mp new]
    exact accounted.bound osfd old
  bound := by
    rw [← List.append_assoc]
    intro osfd mem
    obtain old | new := List.mem_append.mp mem
    · exact Nat.lt_succ_of_lt (accounted.bound osfd old)
    · rw [List.mem_singleton.mp new]
      exact Nat.lt_succ_self arrived

theorem drop_accounted (accounted : Accounted hist backlog arrived phases) {i : Nat} (there : backlog[i]? = some osfd)
    (dropped : e.out = .dropped osfd) : Accounted (e :: hist) (backlog.eraseIdx i) arrived phases := by
  obtain ⟨inside, same⟩ := List.getElem?_eq_some_iff.mp there
  have perm := List.getElem_cons_eraseIdx_perm inside
  rw [same] at perm
  have fewer : (takenBy hist ++ backlog.eraseIdx i).Sublist (takenBy hist ++ backlog) :=
    (List.eraseIdx_sublist backlog i).append_left _
  constructor
  case place =>
    intro other
    have count : located (e :: hist) (backlog.eraseIdx i) other = located hist backlog other := by
      rw [located_some (by rw [dropped]; rfl), located, located, ← perm.count_eq other, List.count_cons]
      simp only [beq_iff_eq]
      omega
    rw [count]
    exact accounted.place other
  case order => simpa [takenBy_cons, dropped, Out.taken] using accounted.order.sublist fewer
  case bound => simpa [takenBy_cons, dropped, Out.taken] using fun osfd mem => accounted.bound osfd (fewer.subset mem)

end Accounted

theorem listener_accounted {hist : List ListenerEvent} {s : Listener} (run : ListenerRun hist s) :
    Accounted hist s.backlog s.arrived s.phase := by
  induction run with
  | @begin s started =>
    rw [started.backlog, started.arrived]
    refine ⟨fun osfd => .inr ⟨Nat.zero_le osfd, rfl, fun t => ?_⟩, List.Pairwise.nil, by simp [takenBy]⟩
    simp [hasIn, started.outside t, Phase.hand]
  | @next hist e before fired ih =>
    have guarded := listener_guarded before
    obtain ⟨pre, label, out, post⟩ := e
    have effect : Effect pre post out := listenerStep_effect fired.step
    cases effect with
    | serialize first => exact ih.quiet_accounted ⟨rfl, rfl⟩
    | stay quiet => exact ih.quiet_accounted quiet
    | move quiet token hand plain stuck => exact (ih.pass_accounted hand).quiet_accounted quiet
    | @take t c pipe free hand byte =>
      have same : (Phase.locked c).hand = (pre.phase t).hand := hand.symm
      exact (ih.pass_accounted same).quiet_accounted Out.quiet_void
    | give quiet mine token hand plain stuck => exact (ih.pass_accounted hand).quiet_accounted quiet
    | accept waiting token free hand plain stuck => exact (waiting ▸ ih).accept_accounted rfl free hand
    | settle wrap taken settled => exact ih.settle_accounted taken settled (by simp [wrap, Phase.hand]) rfl
    | arrive => exact ih.arrive_accounted.quiet_accounted Out.quiet_void
    | drop there => exact ih.drop_accounted there rfl
    | lose stuck => simp [guarded.free] at stuck

/-- In every run accept takes the connections in the order in which they arrived. Each that
has arrived waits in the socket, or was returned, closed or dropped once, or else is with one
thread only. -/
theorem serialized_accept_delivery {hist : List ListenerEvent} {s : Listener} (run : ListenerRun hist s) :
    (takenBy hist ++ s.backlog).Pairwise (· < ·) ∧ ∀ osfd, osfd < s.arrived →
      (settledBy hist ++ s.backlog).count osfd = 1 ∧ (∀ t, (s.phase t).hand ≠ some osfd) ∨
        osfd ∉ settledBy hist ++ s.backlog ∧
          ∃ t, (s.phase t).hand = some osfd ∧ ∀ u, (s.phase u).hand = some osfd → u = t := by
  have accounted := listener_accounted run
  refine ⟨accounted.order, fun osfd old => ?_⟩
  have count : (settledBy hist ++ s.backlog).count osfd = located hist s.backlog osfd := List.count_append
  obtain ⟨-, sole⟩ | ⟨new, -⟩ := accounted.place osfd
  · obtain ⟨one, nobody⟩ | ⟨zero, t, mine, only⟩ := sole
    · exact .inl ⟨count.trans one, fun t => by simpa [hasIn] using nobody t⟩
    · refine .inr ⟨List.count_eq_zero.mp (count.trans zero), t, by simpa [hasIn] using mine, fun u yours => ?_⟩
      exact only u (by simpa [hasIn] using yours)
  · omega

/-- After the run above thread 1 returns with the first connection and 2 accepts the other,
for which there is no object. -/
theorem serialized_accept_delivery_contended : ∃ hist s, ListenerRun hist s ∧
    (settledBy hist = [1, 0] ∧ takenBy hist = [0, 1] ∧ s.arrived = 3) ∧
    (takenBy hist ++ s.backlog).Pairwise (· < ·) ∧ ∀ osfd, osfd < s.arrived →
      (settledBy hist ++ s.backlog).count osfd = 1 ∧ (∀ t, (s.phase t).hand ≠ some osfd) ∨
        osfd ∉ settledBy hist ++ s.backlog ∧
          ∃ t, (s.phase t).hand = some osfd ∧ ∀ u, (s.phase u).hand = some osfd → u = t := by
  obtain ⟨hist, s, run, seen⟩ := Run.found (M := listenerMachine)
    (contended ++ [.call 1 none, .polled 2 none, .made 1 none, .arrive, .call 2 none, .call 2 none, .call 2 none,
      .made 2 (some .enomem)]) fresh_started
    (p := fun hist s => decide (settledBy hist = [1, 0] ∧ takenBy hist = [0, 1] ∧ s.arrived = 3)) (by decide +kernel)
  exact ⟨hist, s, run, of_decide_eq_true seen, serialized_accept_delivery run⟩

end StateThreads.Serialized
