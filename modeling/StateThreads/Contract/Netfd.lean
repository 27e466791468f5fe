import Mathlib.Data.List.Perm.Basic
import Mathlib.Tactic.Convert
import StateThreads.Io.Netfd

/-! Recycling of descriptor objects: what is on the free list, what an opened object holds,
and which destructors are called. -/
namespace StateThreads
open LabelledRun

/- What callers do to an object. -/

inductive Use where
  | bind (value destructor : Option Nat)
  | free
deriving DecidableEq, Repr

def Use.leaves : Use → Private
  | .bind value destructor => (value, destructor)
  | .free => (none, none)

def current : List Use → Private
  | [] => (none, none)
  | u :: _ => u.leaves

/-- The value whose period ends with a use, and the destructor last registered with it. -/
def Use.ends (held : Private) (u : Use) : Option (Nat × Option Nat) :=
  held.1.bind fun value => if u.leaves.1 = some value then none else some (value, held.2)

/-- The periods, newest first, that have ended: in each a value other than NULL was bound. -/
def periods : List Use → List (Nat × Option Nat)
  | [] => []
  | u :: older => (u.ends (current older)).toList ++ periods older

def callOf (period : Nat × Option Nat) : Option (Nat × Nat) := period.2.map (Prod.mk period.1)

def due (uses : List Use) : List (Nat × Nat) := (periods uses).filterMap callOf

/-- The use that a call makes of an object. To free an object twice is none. -/
def NetfdSystem.use (s : NetfdSystem) : NetfdLabel → Option (NetfdId × Use)
  | .setspecific fd value destructor => some (fd, .bind value destructor)
  | .free fd => if (s.netfds.obj fd).inuse then some (fd, .free) else none
  | .close fd fdClose _ => if fdClose && (s.netfds.obj fd).inuse then some (fd, .free) else none
  | _ => none

def NetfdOut.destroys : NetfdOut → Option (NetfdId × Nat × Nat)
  | .destroy fd value destructor => some (fd, value, destructor)
  | _ => none

def ofObject {α : Type} (fd : NetfdId) (x : NetfdId × α) : Option α := if x.1 = fd then some x.2 else none

def uses (fd : NetfdId) (hist : List NetfdEvent) : List Use :=
  hist.filterMap fun e => (e.pre.use e.label).bind (ofObject fd)

def destroyed (fd : NetfdId) (hist : List NetfdEvent) : List (Nat × Nat) :=
  hist.filterMap fun e => e.out.destroys.bind (ofObject fd)

def NetfdSystem.freeing (s : NetfdSystem) (fd : NetfdId) : Bool :=
  s.pending.any fun
    | .free fd' _ => fd' = fd
    | .set _ _ _ => false

def NetfdSystem.setting (s : NetfdSystem) (fd : NetfdId) : Bool :=
  s.pending.any fun
    | .free _ _ => false
    | .set fd' _ _ => fd' = fd

structure Recycles (hist : List NetfdEvent) (s : NetfdSystem) : Prop where
  listed : ∃ free, Lifo.Listed (fun fd => (s.netfds.obj fd).next) s.netfds.freelist free ∧ free.Nodup ∧
    ∀ fd, fd ∈ free ↔ fd ∈ s.netfds.made ∧ (s.netfds.obj fd).inuse = false ∧ s.freeing fd = false
  unused : ∀ l s' fd, netfdEnabled s l = true → netfdStep s l = some (s', .object (some fd)) →
    (fd ∈ s.netfds.made → (s.netfds.obj fd).inuse = false) ∧ s.freeing fd = false ∧ s.setting fd = false
  blank : ∀ l s' fd, netfdEnabled s l = true → netfdStep s l = some (s', .object (some fd)) →
    (s'.netfds.obj fd).privateData = none ∧ (s'.netfds.obj fd).destructor = none ∧ (s'.netfds.obj fd).auxData = none
  destroyed : ∀ fd, destroyed fd hist = due (uses fd hist)

/-- Private data is set on objects in use, and while a call that sets it waits for the
destructor of the old value, the object is neither freed nor set again. -/
def NetfdSystem.careful (s : NetfdSystem) : NetfdLabel → Bool
  | .setspecific fd _ _ => (s.netfds.obj fd).inuse && !s.setting fd
  | .free fd => !s.setting fd
  | .close fd fdClose _ => !(fdClose && s.setting fd)
  | _ => true

/- The state of the objects, given what the callers bound. -/

section
variable {s : Netfds} {fd fd' : NetfdId} {f : Netfd → Netfd}

@[simp] theorem Netfds.modify_self : (s.modify fd f).obj fd = f (s.obj fd) := Function.update_self ..

theorem Netfds.modify_ne (other : fd' ≠ fd) : (s.modify fd f).obj fd' = s.obj fd' := Function.update_of_ne other ..

theorem Netfds.modify_same (same : f (s.obj fd) = s.obj fd) : s.modify fd f = s := by
  rw [Netfds.modify, same, Function.update_eq_self]

@[simp] theorem Netfds.modify_made : (s.modify fd f).made = s.made := rfl

theorem listed_away {n n' : Netfds} {p : Option NetfdId} {free : List NetfdId}
    (listed : Lifo.Listed (fun x => (n.obj x).next) p free) (absent : fd ∉ free)
    (obj : ∀ x, x ≠ fd → n'.obj x = n.obj x) : Lifo.Listed (fun x => (n'.obj x).next) p free := by
  refine listed.frame fun x mem => ?_
  rw [obj x (ne_of_mem_of_not_mem mem absent)]

end

def Rest.fd : Rest → NetfdId
  | .free fd _ => fd
  | .set fd _ _ => fd

def Rest.leaves : Rest → Private
  | .free _ _ => (none, none)
  | .set _ value destructor => (value, destructor)

def Rest.inuse : Rest → Bool
  | .free _ _ => false
  | .set _ _ _ => true

def Netfd.held (o : Netfd) : Private := (o.privateData, o.destructor)

def NetfdSystem.quiet (s : NetfdSystem) (fd : NetfdId) : Prop := fd ∉ s.pending.map Rest.fd

theorem NetfdSystem.quiet.away {s : NetfdSystem} {fd : NetfdId} (still : s.quiet fd) {r : Rest} (mem : r ∈ s.pending) :
    r.fd ≠ fd := fun here => still (List.mem_map.mpr ⟨r, mem, here⟩)

structure NetfdFits (cur : NetfdId → Private) (s : NetfdSystem) (free : List NetfdId) (fd : NetfdId) : Prop where
  member : fd ∈ free ↔ fd ∈ s.netfds.made ∧ (s.netfds.obj fd).inuse = false ∧ s.quiet fd
  waits : ∀ r ∈ s.pending, r.fd = fd → fd ∈ s.netfds.made ∧ (s.netfds.obj fd).inuse = r.inuse ∧ cur fd = r.leaves
  held : fd ∈ s.netfds.made → s.quiet fd → (s.netfds.obj fd).held = cur fd
  idle : fd ∈ s.netfds.made → (s.netfds.obj fd).inuse = false → cur fd = (none, none)
  aux : fd ∈ s.netfds.made → (s.netfds.obj fd).auxData = none
  unmade : fd ∉ s.netfds.made → cur fd = (none, none)

structure NetfdInv (cur : NetfdId → Private) (s : NetfdSystem) (free : List NetfdId) : Prop where
  listed : Lifo.Listed (fun fd => (s.netfds.obj fd).next) s.netfds.freelist free
  apart : (s.pending.map Rest.fd).Nodup
  fits : ∀ fd, NetfdFits cur s free fd

section
variable {cur cur' : NetfdId → Private} {n n' : Netfds} {pending pending' : List Rest} {free free' : List NetfdId}
  {fd x : NetfdId}

theorem NetfdFits.frame (fits : NetfdFits cur ⟨n, pending⟩ free x) (obj : n'.obj x = n.obj x) (made : x ∈ n'.made ↔ x ∈ n.made)
    (waits : ∀ r, r.fd = x → (r ∈ pending' ↔ r ∈ pending)) (listed : x ∈ free' ↔ x ∈ free) (bound : cur' x = cur x) :
    NetfdFits cur' ⟨n', pending'⟩ free' x := by
  have quiet : NetfdSystem.quiet ⟨n', pending'⟩ x ↔ NetfdSystem.quiet ⟨n, pending⟩ x := by
    simp only [NetfdSystem.quiet, List.mem_map, not_exists, not_and]
    exact forall_congr' fun r => ⟨fun none mem here => none ((waits r here).mpr mem) here,
      fun none mem here => none ((waits r here).mp mem) here⟩
  constructor
  case member =>
    rw [listed, fits.member, quiet]
    dsimp only
    rw [made, obj]
  case waits =>
    intro r mem here
    dsimp only
    rw [made, obj, bound]
    exact fits.waits r ((waits r here).mp mem) here
  case held =>
    intro new still
    dsimp only
    rw [obj, bound]
    exact fits.held (made.mp new) (quiet.mp still)
  case idle =>
    intro new off
    rw [bound]
    exact fits.idle (made.mp new) (obj ▸ off)
  case aux =>
    intro new
    dsimp only
    rw [obj]
    exact fits.aux (made.mp new)
  case unmade =>
    intro old
    rw [bound]
    exact fits.unmade fun new => old (made.mpr new)

theorem NetfdFits.unlisted (fits : NetfdFits cur ⟨n, pending⟩ free fd) (used : (n.obj fd).inuse = true) : fd ∉ free := by
  intro listed
  obtain ⟨-, off, -⟩ := fits.member.mp listed
  rw [used] at off
  cases off

theorem NetfdInv.perm (inv : NetfdInv cur ⟨n, pending⟩ free) (same : pending.Perm pending') :
    NetfdInv cur ⟨n, pending'⟩ free where
  listed := inv.listed
  apart := (same.map Rest.fd).nodup_iff.mp inv.apart
  fits x := (inv.fits x).frame rfl Iff.rfl (fun _ _ => same.mem_iff.symm) Iff.rfl rfl

theorem NetfdInv.change (inv : NetfdInv cur ⟨n, pending⟩ free) (fd : NetfdId)
    (listed : Lifo.Listed (fun x => (n'.obj x).next) n'.freelist free') (apart : (pending'.map Rest.fd).Nodup)
    (here : NetfdFits cur' ⟨n', pending'⟩ free' fd)
    (others : ∀ x, x ≠ fd → n'.obj x = n.obj x ∧ (x ∈ n'.made ↔ x ∈ n.made) ∧ (x ∈ free' ↔ x ∈ free) ∧ cur' x = cur x)
    (calls : ∀ r, r.fd ≠ fd → (r ∈ pending' ↔ r ∈ pending)) : NetfdInv cur' ⟨n', pending'⟩ free' := by
  refine ⟨listed, apart, fun x => ?_⟩
  by_cases same : x = fd
  · subst same
    exact here
  · obtain ⟨obj, made, mem, bound⟩ := others x same
    exact (inv.fits x).frame obj made (fun r at_ => calls r (at_ ▸ same)) mem bound

theorem pending_ne {r r' : Rest} (other : r'.fd ≠ r.fd) : r' ∈ r :: pending ↔ r' ∈ pending := by
  have distinct : r' ≠ r := fun same => other (same ▸ rfl)
  rw [List.mem_cons, or_iff_right distinct]

theorem NetfdInv.beginFree (inv : NetfdInv cur ⟨n, pending⟩ free) (made : fd ∈ n.made) (used : (n.obj fd).inuse = true)
    (still : NetfdSystem.quiet ⟨n, pending⟩ fd) (freer : Freer) :
    NetfdInv (Function.update cur fd (none, none))
      ⟨n.modify fd fun o => { o with inuse := false }, .free fd freer :: pending⟩ free := by
  have absent : fd ∉ free := (inv.fits fd).unlisted used
  have obj := fun x (other : x ≠ fd) => n.modify_ne (f := fun o => { o with inuse := false }) other
  refine inv.change fd (listed_away inv.listed absent obj) (List.nodup_cons.mpr ⟨still, inv.apart⟩) ?_
    (fun x other => ⟨obj x other, Iff.rfl, Iff.rfl, Function.update_of_ne other ..⟩) fun r other => pending_ne other
  constructor
  case member => simp [absent, NetfdSystem.quiet, Rest.fd]
  case waits =>
    intro r mem here
    rcases List.mem_cons.mp mem with rfl | mem
    · simp [made, Rest.inuse, Rest.leaves]
    · exact absurd here (still.away mem)
  case held => simp [NetfdSystem.quiet, Rest.fd]
  case idle => simp
  case aux => simpa using (inv.fits fd).aux
  case unmade => simp

theorem NetfdInv.endFree {freer : Freer} (inv : NetfdInv cur ⟨n, .free fd freer :: pending⟩ free) :
    NetfdInv cur ⟨linkFree n fd, pending⟩ (fd :: free) := by
  obtain ⟨made, off, bound⟩ := (inv.fits fd).waits _ List.mem_cons_self rfl
  obtain ⟨still, apart⟩ := List.nodup_cons.mp inv.apart
  have quiet : NetfdSystem.quiet ⟨linkFree n fd, pending⟩ fd := still
  have absent : fd ∉ free := fun listed => by
    simpa [NetfdSystem.quiet, Rest.fd] using ((inv.fits fd).member.mp listed).2.2
  have obj : ∀ x, x ≠ fd → (linkFree n fd).obj x = n.obj x := fun x other => Function.update_of_ne other ..
  have listed : Lifo.Listed (fun x => ((linkFree n fd).obj x).next) (linkFree n fd).freelist (fd :: free) := by
    have next : ((linkFree n fd).obj fd).next = n.freelist := by simp [linkFree]
    refine ⟨rfl, ?_⟩
    dsimp only
    rw [next]
    exact listed_away inv.listed absent obj
  refine inv.change fd listed apart ?_
    (fun x other => ⟨obj x other, Iff.rfl, List.mem_cons.trans (or_iff_right other), rfl⟩)
    fun r other => (pending_ne other).symm
  constructor
  case member => simpa [linkFree, made, Rest.inuse] using ⟨off, still⟩
  case waits => exact fun r mem here => absurd here (quiet.away mem)
  case held =>
    intro _ _
    rw [bound]
    simp [linkFree, Netfd.held, Rest.leaves]
  case idle => exact fun _ _ => bound
  case aux => simpa [linkFree] using (inv.fits fd).aux
  case unmade => exact (inv.fits fd).unmade

theorem NetfdInv.beginSet (inv : NetfdInv cur ⟨n, pending⟩ free) (made : fd ∈ n.made) (used : (n.obj fd).inuse = true)
    (still : NetfdSystem.quiet ⟨n, pending⟩ fd) (value destructor : Option Nat) :
    NetfdInv (Function.update cur fd (value, destructor)) ⟨n, .set fd value destructor :: pending⟩ free := by
  have absent : fd ∉ free := (inv.fits fd).unlisted used
  refine inv.change fd inv.listed (List.nodup_cons.mpr ⟨still, inv.apart⟩) ?_
    (fun x other => ⟨rfl, Iff.rfl, Iff.rfl, Function.update_of_ne other ..⟩) fun r other => pending_ne other
  constructor
  case member => simp [absent, used]
  case waits =>
    intro r mem here
    rcases List.mem_cons.mp mem with rfl | mem
    · simp [made, used, Rest.inuse, Rest.leaves]
    · exact absurd here (still.away mem)
  case held => simp [NetfdSystem.quiet, Rest.fd]
  case idle => simp [used]
  case aux => exact (inv.fits fd).aux
  case unmade => exact fun old => absurd made old

theorem NetfdInv.endSet {value destructor : Option Nat} (inv : NetfdInv cur ⟨n, .set fd value destructor :: pending⟩ free) :
    NetfdInv cur ⟨storeSpecific n fd value destructor, pending⟩ free := by
  obtain ⟨made, on, bound⟩ := (inv.fits fd).waits _ List.mem_cons_self rfl
  obtain ⟨still, apart⟩ := List.nodup_cons.mp inv.apart
  have quiet : NetfdSystem.quiet ⟨n, pending⟩ fd := still
  have used : (n.obj fd).inuse = true := on
  have absent : fd ∉ free := (inv.fits fd).unlisted used
  have obj : ∀ x, x ≠ fd → (storeSpecific n fd value destructor).obj x = n.obj x := fun x other => Netfds.modify_ne other
  refine inv.change fd (listed_away inv.listed absent obj) apart ?_
    (fun x other => ⟨obj x other, Iff.rfl, Iff.rfl, rfl⟩) fun r other => (pending_ne other).symm
  constructor
  case member => simp [absent, storeSpecific, used]
  case waits => exact fun r mem here => absurd here (quiet.away mem)
  case held =>
    intro _ _
    rw [bound]
    simp [storeSpecific, Netfd.held, Rest.leaves]
  case idle => simp [storeSpecific, used]
  case aux => simpa [storeSpecific] using (inv.fits fd).aux
  case unmade => exact (inv.fits fd).unmade

structure Obtained (cur : NetfdId → Private) (n : Netfds) (pending : List Rest) (fd : NetfdId) (n' : Netfds) : Prop where
  inv : ∃ free, NetfdInv cur ⟨n', pending⟩ free
  made : fd ∈ n'.made
  used : (n'.obj fd).inuse = true
  unused : fd ∈ n.made → (n.obj fd).inuse = false
  still : NetfdSystem.quiet ⟨n, pending⟩ fd
  blank : cur fd = (none, none)

theorem NetfdInv.take (inv : NetfdInv cur ⟨n, pending⟩ free) {object : Option NetfdId}
    (fresh : ∀ o, object = some o → o ∉ n.made) (taken : takeNetfd n object = some (n', fd)) (osfd : Int) :
    Obtained cur n pending fd (n'.modify fd fun o => { o with osfd := osfd, inuse := true, next := none }) := by
  generalize opened : (n'.modify fd fun o => { o with osfd := osfd, inuse := true, next := none }) = n''
  unfold takeNetfd at taken
  split at taken
  case h_1 head first =>
    obtain ⟨rfl, rfl⟩ := Prod.mk.inj (Option.some.inj taken)
    have obj : ∀ x, x ≠ head → n''.obj x = n.obj x := fun x other => opened ▸ Netfds.modify_ne other
    cases free with
    | nil => cases first.symm.trans inv.listed
    | cons fd' free =>
      have nodup : (fd' :: free).Nodup := inv.listed.nodup
      obtain ⟨here, listed⟩ := inv.listed
      obtain rfl : head = fd' := Option.some.inj (first.symm.trans here)
      obtain ⟨absent, -⟩ := List.nodup_cons.mp nodup
      obtain ⟨made, off, still⟩ := (inv.fits head).member.mp List.mem_cons_self
      subst opened
      refine ⟨⟨free, inv.change head (listed_away listed absent obj) inv.apart ?_
        (fun x other => ⟨obj x other, Iff.rfl, (List.mem_cons.trans (or_iff_right other)).symm, rfl⟩)
        fun _ _ => Iff.rfl⟩, made, by simp, fun _ => off, still, (inv.fits head).idle made off⟩
      constructor
      case member => simp [absent]
      case waits => exact fun r mem here => absurd here (still.away mem)
      case held =>
        intro _ _
        simpa [Netfd.held] using (inv.fits head).held made still
      case idle => simp
      case aux => simpa using (inv.fits head).aux
      case unmade => exact (inv.fits head).unmade
  case h_2 empty =>
    obtain ⟨fd', given, made⟩ := Option.map_eq_some_iff.mp taken
    obtain ⟨rfl, rfl⟩ := Prod.mk.inj made
    have new : fd' ∉ n.made := fresh fd' given
    have still : NetfdSystem.quiet ⟨n, pending⟩ fd' := by
      intro waits
      obtain ⟨r, mem, here⟩ := List.mem_map.mp waits
      exact new ((inv.fits fd').waits r mem here).1
    have absent : fd' ∉ free := fun listed => new ((inv.fits fd').member.mp listed).1
    have blank : cur fd' = (none, none) := (inv.fits fd').unmade new
    have obj : ∀ x, x ≠ fd' → n''.obj x = n.obj x := fun x other =>
      opened ▸ (Netfds.modify_ne other).trans (Function.update_of_ne other ..)
    subst opened
    refine ⟨⟨free, inv.change fd' (listed_away inv.listed absent obj) inv.apart ?_
      (fun x other => ⟨obj x other, List.mem_cons.trans (or_iff_right other), Iff.rfl, rfl⟩)
      fun _ _ => Iff.rfl⟩, List.mem_cons_self, by simp, fun old => absurd old new, still, blank⟩
    constructor
    case member => simp [absent]
    case waits => exact fun r mem here => absurd here (still.away mem)
    case held => simp [Netfd.held, blank]
    case idle => simp
    case aux => simp
    case unmade => exact fun _ => blank

end

/- One step. -/

structure Moved (cur : NetfdId → Private) (use : Option (NetfdId × Use)) (r : NetfdSystem × NetfdOut) : Prop where
  inv : ∃ free, NetfdInv (use.elim cur fun u => Function.update cur u.1 u.2.leaves) r.1 free
  calls : r.2.destroys = use.bind fun u => ((u.2.ends (cur u.1)).bind callOf).map (Prod.mk u.1)

section
variable {cur : NetfdId → Private} {n : Netfds} {pending : List Rest} {free : List NetfdId} {fd : NetfdId}

theorem Freer.out_destroys (freer : Freer) (closed : Int) : (freer.out closed).destroys = none := by
  cases freer <;> rfl

theorem stNetfdFree_eq (used : (n.obj fd).inuse = true) (aux : (n.obj fd).auxData = none) (freer : Freer) (closed : Int) :
    stNetfdFree n fd freer closed =
      match (n.obj fd).privateData, (n.obj fd).destructor with
      | some value, some destructor =>
        ⟨n.modify fd fun o => { o with inuse := false }, .destroy fd value destructor, some (.free fd freer)⟩
      | _, _ => ⟨linkFree (n.modify fd fun o => { o with inuse := false }) fd, freer.out closed, none⟩ := by
  cases data : (n.obj fd).privateData <;> cases registered : (n.obj fd).destructor <;>
    simp [stNetfdFree, used, aux, data, registered]

theorem stNetfdFree_moved (inv : NetfdInv cur ⟨n, pending⟩ free) (made : fd ∈ n.made) (used : (n.obj fd).inuse = true)
    (still : NetfdSystem.quiet ⟨n, pending⟩ fd) (freer : Freer) (closed : Int) :
    Moved cur (some (fd, .free)) ((stNetfdFree n fd freer closed).system pending) := by
  have started := inv.beginFree made used still freer
  have held : (n.obj fd).held = cur fd := (inv.fits fd).held made still
  rw [stNetfdFree_eq used ((inv.fits fd).aux made)]
  split
  case h_1 value destructor data registered =>
    refine ⟨⟨free, started⟩, ?_⟩
    simp [Progress.system, NetfdOut.destroys, ← held, Netfd.held, data, registered, Use.ends, Use.leaves, callOf]
  case h_2 unset =>
    refine ⟨⟨fd :: free, started.endFree⟩, ?_⟩
    rw [Progress.system, Freer.out_destroys]
    cases data : (n.obj fd).privateData with
    | none => simp [← held, Netfd.held, data, Use.ends]
    | some value =>
      cases registered : (n.obj fd).destructor with
      | none => simp [← held, Netfd.held, data, registered, Use.ends, Use.leaves, callOf]
      | some destructor => exact absurd registered (unset value destructor data)

theorem stNetfdSetspecific_moved (inv : NetfdInv cur ⟨n, pending⟩ free) (made : fd ∈ n.made)
    (used : (n.obj fd).inuse = true) (still : NetfdSystem.quiet ⟨n, pending⟩ fd) (value destructor : Option Nat) :
    Moved cur (some (fd, .bind value destructor)) ((stNetfdSetspecific n fd value destructor).system pending) := by
  have started := inv.beginSet made used still value destructor
  have held : (n.obj fd).held = cur fd := (inv.fits fd).held made still
  unfold stNetfdSetspecific
  split
  case isTrue different =>
    split
    case h_1 old destroy data registered =>
      refine ⟨⟨free, started⟩, ?_⟩
      rw [data] at different
      simp [Progress.system, NetfdOut.destroys, ← held, Netfd.held, data, registered, Use.ends, Use.leaves, different, callOf]
    case h_2 unset =>
      refine ⟨⟨free, started.endSet⟩, ?_⟩
      cases data : (n.obj fd).privateData with
      | none => simp [Progress.system, NetfdOut.destroys, ← held, Netfd.held, data, Use.ends]
      | some old =>
        cases registered : (n.obj fd).destructor with
        | none =>
          rw [data] at different
          simp [Progress.system, NetfdOut.destroys, ← held, Netfd.held, data, registered, Use.ends, Use.leaves, different,
            callOf]
        | some destroy => exact absurd registered (unset old destroy data)
  case isFalse same =>
    rw [ne_eq, not_not] at same
    refine ⟨⟨free, started.endSet⟩, ?_⟩
    cases data : (n.obj fd).privateData <;>
      simp [Progress.system, NetfdOut.destroys, ← held, Netfd.held, data, Use.ends, Use.leaves, same]

theorem Moved.unused {r : NetfdSystem × NetfdOut} (moved : Moved cur (some (fd, .free)) r) (blank : cur fd = (none, none)) :
    Moved cur none r := by
  obtain ⟨⟨free, inv⟩, calls⟩ := moved
  constructor
  case inv =>
    have same : Function.update cur fd Use.free.leaves = cur := by
      rw [Use.leaves, ← blank]
      exact Function.update_eq_self fd cur
    exact ⟨free, same ▸ inv⟩
  case calls =>
    rw [calls]
    simp [blank, Use.ends]

theorem stNetfdNew_cases (n : Netfds) (osfd : Int) (nonblock isSocket : Bool) (answers : NewAnswers) :
    stNetfdNew n osfd nonblock isSocket answers = ⟨n, .object none, none⟩ ∨
      ∃ n' n'' fd, takeNetfd n answers.object = some (n', fd) ∧
        n'' = n'.modify fd (fun o => { o with osfd := osfd, inuse := true, next := none }) ∧
        (stNetfdNew n osfd nonblock isSocket answers = ⟨n'', .object (some fd), none⟩ ∨
          stNetfdNew n osfd nonblock isSocket answers = stNetfdFree n'' fd .new 0) := by
  unfold stNetfdNew
  split
  · exact .inl rfl
  · split
    · exact .inl rfl
    · rename_i n' fd taken
      refine .inr ⟨n', _, fd, taken, rfl, ?_⟩
      dsimp only
      split_ifs <;> simp

theorem stNetfdNew_moved (inv : NetfdInv cur ⟨n, pending⟩ free) {answers : NewAnswers}
    (fresh : ∀ o, answers.object = some o → o ∉ n.made) (osfd : Int) (nonblock isSocket : Bool) :
    Moved cur none ((stNetfdNew n osfd nonblock isSocket answers).system pending) := by
  rcases stNetfdNew_cases n osfd nonblock isSocket answers with run | ⟨n', n'', fd, taken, rfl, run | run⟩
  · rw [run]
    exact ⟨⟨free, inv⟩, rfl⟩
  · rw [run]
    exact ⟨(inv.take fresh taken osfd).inv, rfl⟩
  · rw [run]
    have got := inv.take fresh taken osfd
    obtain ⟨free', inv'⟩ := got.inv
    exact (stNetfdFree_moved inv' got.made got.used got.still .new 0).unused got.blank

theorem stNetfdFree_object (s : Netfds) (fd : NetfdId) (freer : Freer) (closed : Int) (fd' : NetfdId) :
    (stNetfdFree s fd freer closed).out ≠ .object (some fd') := by
  have out : freer.out closed ≠ .object (some fd') := by cases freer <;> simp [Freer.out]
  unfold stNetfdFree
  split
  · exact out
  · dsimp only
    split
    · simp
    · exact out

theorem stNetfdNew_object (inv : NetfdInv cur ⟨n, pending⟩ free) {answers : NewAnswers}
    (fresh : ∀ o, answers.object = some o → o ∉ n.made) {osfd : Int} {nonblock isSocket : Bool}
    (opened : (stNetfdNew n osfd nonblock isSocket answers).out = .object (some fd)) :
    Obtained cur n pending fd (stNetfdNew n osfd nonblock isSocket answers).netfds := by
  rcases stNetfdNew_cases n osfd nonblock isSocket answers with run | ⟨n', n'', fd', taken, rfl, run | run⟩
  · rw [run] at opened
    cases opened
  · rw [run] at opened ⊢
    cases opened
    exact inv.take fresh taken osfd
  · rw [run] at opened
    exact absurd opened (stNetfdFree_object _ _ _ _ fd)

theorem NetfdInv.quiet_used (inv : NetfdInv cur ⟨n, pending⟩ free) (used : (n.obj fd).inuse = true)
    (unset : NetfdSystem.setting ⟨n, pending⟩ fd = false) : NetfdSystem.quiet ⟨n, pending⟩ fd := by
  intro waits
  obtain ⟨r, mem, here⟩ := List.mem_map.mp waits
  obtain ⟨-, on, -⟩ := (inv.fits fd).waits r mem here
  rw [used] at on
  cases r with
  | free fd' freer => cases on
  | set fd' value destructor =>
    have set := List.any_eq_false.mp unset _ mem
    exact set (decide_eq_true here)

theorem NetfdInv.freed (inv : NetfdInv cur ⟨n, pending⟩ free) (made : fd ∈ n.made)
    (unset : NetfdSystem.setting ⟨n, pending⟩ fd = false) (freer : Freer) (closed : Int) :
    Moved cur (if (n.obj fd).inuse then some (fd, .free) else none) ((stNetfdFree n fd freer closed).system pending) := by
  cases used : (n.obj fd).inuse with
  | false =>
    rw [stNetfdFree, if_pos used]
    exact ⟨⟨free, inv⟩, freer.out_destroys closed⟩
  | true => exact stNetfdFree_moved inv made used (inv.quiet_used used unset) freer closed

theorem quiet_settled (still : NetfdSystem.quiet ⟨n, pending⟩ fd) :
    NetfdSystem.freeing ⟨n, pending⟩ fd = false ∧ NetfdSystem.setting ⟨n, pending⟩ fd = false := by
  constructor
  · refine List.any_eq_false.mpr fun r mem => ?_
    cases r with
    | free fd' freer => simpa [Rest.fd] using still.away mem
    | set fd' value destructor => simp
  · refine List.any_eq_false.mpr fun r mem => ?_
    cases r with
    | free fd' freer => simp
    | set fd' value destructor => simpa [Rest.fd] using still.away mem

theorem NetfdInv.quiet_idle (inv : NetfdInv cur ⟨n, pending⟩ free) (off : (n.obj fd).inuse = false)
    (unfreed : NetfdSystem.freeing ⟨n, pending⟩ fd = false) : NetfdSystem.quiet ⟨n, pending⟩ fd := by
  intro waits
  obtain ⟨r, mem, here⟩ := List.mem_map.mp waits
  obtain ⟨-, on, -⟩ := (inv.fits fd).waits r mem here
  rw [off] at on
  cases r with
  | free fd' freer =>
    have freed := List.any_eq_false.mp unfreed _ mem
    exact freed (decide_eq_true here)
  | set fd' value destructor => cases on

theorem NetfdInv.resume (inv : NetfdInv cur ⟨n, pending⟩ free) {i : Nat} {rest : Rest} (waits : pending[i]? = some rest)
    (closed : Int) : Moved cur none ((rest.resume n closed).system (pending.eraseIdx i)) := by
  obtain ⟨bound, rfl⟩ := List.getElem?_eq_some_iff.mp waits
  have first := inv.perm (List.getElem_cons_eraseIdx_perm bound).symm
  cases call : pending[i] with
  | free fd freer =>
    rw [call] at first
    refine ⟨⟨fd :: free, first.endFree⟩, ?_⟩
    exact freer.out_destroys closed
  | set fd value destructor =>
    rw [call] at first
    exact ⟨⟨free, first.endSet⟩, rfl⟩

end

/- Runs. -/

section
variable {cur : NetfdId → Private} {s : NetfdSystem} {free : List NetfdId} {l : NetfdLabel} {r : NetfdSystem × NetfdOut}

theorem fresh_of_enabled {s : NetfdSystem} {answers : NewAnswers}
    (enabled : (answers.object.all fun fd => decide (fd ∉ s.netfds.made)) = true) :
    ∀ o, answers.object = some o → o ∉ s.netfds.made := by
  intro o given
  rw [given] at enabled
  simpa using enabled

theorem netfdStep_moved (inv : NetfdInv cur s free) (enabled : netfdEnabled s l = true) (careful : s.careful l = true)
    (step : netfdStep s l = some r) : Moved cur (s.use l) r := by
  obtain ⟨n, pending⟩ := s
  cases l with
  | «open» osfd answers =>
    cases step
    exact stNetfdNew_moved inv (fresh_of_enabled enabled) osfd true false
  | openSocket osfd answers =>
    cases step
    exact stNetfdNew_moved inv (fresh_of_enabled enabled) osfd true true
  | accepted osfd inherited answers =>
    cases step
    exact stNetfdNew_moved inv (fresh_of_enabled enabled) osfd (!inherited) true
  | free fd =>
    have made : fd ∈ n.made := of_decide_eq_true enabled
    have unset : NetfdSystem.setting ⟨n, pending⟩ fd = false := by simpa [NetfdSystem.careful] using careful
    cases step
    exact inv.freed made unset .user 0
  | close fd fdClose closed =>
    have made : fd ∈ n.made := of_decide_eq_true enabled
    cases step
    cases fdClose with
    | false => exact ⟨⟨free, inv⟩, rfl⟩
    | true =>
      have unset : NetfdSystem.setting ⟨n, pending⟩ fd = false := by simpa [NetfdSystem.careful] using careful
      exact inv.freed made unset .close closed
  | setspecific fd value destructor =>
    have made : fd ∈ n.made := of_decide_eq_true enabled
    obtain ⟨used, unset⟩ : (n.obj fd).inuse = true ∧ NetfdSystem.setting ⟨n, pending⟩ fd = false := by
      simpa [NetfdSystem.careful] using careful
    cases step
    exact stNetfdSetspecific_moved inv made used (inv.quiet_used used unset) value destructor
  | serializeAccept fd =>
    have made : fd ∈ n.made := of_decide_eq_true enabled
    have same : n.modify fd (fun o => { o with auxData := none }) = n := n.modify_same ((inv.fits fd).aux made ▸ rfl)
    cases step
    rw [stNetfdSerializeAccept, same]
    exact ⟨⟨free, inv⟩, rfl⟩
  | «return» i closed =>
    obtain ⟨rest, waits, rfl⟩ := Option.map_eq_some_iff.mp step
    exact inv.resume waits closed

theorem stNetfdSetspecific_object (n : Netfds) (fd : NetfdId) (value destructor : Option Nat) (fd' : NetfdId) :
    (stNetfdSetspecific n fd value destructor).out ≠ .object (some fd') := by
  unfold stNetfdSetspecific
  split
  · split <;> simp
  · simp

theorem NetfdInv.object (inv : NetfdInv cur s free) (enabled : netfdEnabled s l = true) {s' : NetfdSystem} {fd : NetfdId}
    (step : netfdStep s l = some (s', .object (some fd))) : Obtained cur s.netfds s.pending fd s'.netfds := by
  have out : ∀ p : Progress, some (p.system s.pending) = some (s', .object (some fd)) →
      p.netfds = s'.netfds ∧ p.out = .object (some fd) := by
    intro p same
    obtain ⟨rfl, opened⟩ := Prod.mk.inj (Option.some.inj same)
    exact ⟨rfl, opened⟩
  cases l with
  | «open» osfd answers =>
    obtain ⟨netfds, opened⟩ := out _ step
    exact netfds ▸ stNetfdNew_object inv (fresh_of_enabled enabled) opened
  | openSocket osfd answers =>
    obtain ⟨netfds, opened⟩ := out _ step
    exact netfds ▸ stNetfdNew_object inv (fresh_of_enabled enabled) opened
  | accepted osfd inherited answers =>
    obtain ⟨netfds, opened⟩ := out _ step
    exact netfds ▸ stNetfdNew_object inv (fresh_of_enabled enabled) opened
  | free fd' => exact absurd (out _ step).2 (stNetfdFree_object _ _ _ _ fd)
  | close fd' fdClose closed =>
    obtain ⟨-, opened⟩ := out _ step
    unfold stNetfdClose at opened
    split at opened
    · cases opened
    · exact absurd opened (stNetfdFree_object _ _ _ _ fd)
  | setspecific fd' value destructor => exact absurd (out _ step).2 (stNetfdSetspecific_object _ _ _ _ fd)
  | serializeAccept fd' => cases (out _ step).2
  | «return» i closed =>
    obtain ⟨rest, -, returned⟩ := Option.map_eq_some_iff.mp step
    obtain ⟨-, opened⟩ := Prod.mk.inj returned
    cases rest with
    | free fd' freer => cases freer <;> cases opened
    | set fd' value destructor => cases opened

end

section
variable {fd : NetfdId} {e : NetfdEvent} {hist : List NetfdEvent} {s : NetfdSystem}

theorem uses_none (use : e.pre.use e.label = none) : uses fd (e :: hist) = uses fd hist := by
  simp [uses, use]

theorem uses_self {u : Use} (use : e.pre.use e.label = some (fd, u)) : uses fd (e :: hist) = u :: uses fd hist := by
  simp [uses, use, ofObject]

theorem uses_ne {u : NetfdId × Use} (use : e.pre.use e.label = some u) (other : fd ≠ u.1) :
    uses fd (e :: hist) = uses fd hist := by
  simp [uses, use, ofObject, other.symm]

theorem due_cons (u : Use) (older : List Use) :
    due (u :: older) = ((u.ends (current older)).bind callOf).toList ++ due older := by
  rw [due, periods, List.filterMap_append]
  cases u.ends (current older) with
  | none => rfl
  | some period => cases call : callOf period <;> simp [call, due]

theorem destroyed_cons : destroyed fd (e :: hist) = (e.out.destroys.bind (ofObject fd)).toList ++ destroyed fd hist := by
  rw [destroyed, List.filterMap_cons]
  cases e.out.destroys.bind (ofObject fd) <;> rfl

theorem Moved.bound (moved : Moved (fun fd => current (uses fd hist)) (e.pre.use e.label) (e.post, e.out)) :
    ∃ free, NetfdInv (fun fd => current (uses fd (e :: hist))) e.post free := by
  obtain ⟨free, inv⟩ := moved.inv
  refine ⟨free, ?_⟩
  convert inv using 1
  funext fd
  cases use : e.pre.use e.label with
  | none => rw [uses_none use, Option.elim_none]
  | some u =>
    obtain ⟨fd', u⟩ := u
    rw [Option.elim_some]
    by_cases here : fd = fd'
    · subst here
      rw [uses_self use, Function.update_self, current]
    · rw [uses_ne use here, Function.update_of_ne here]

theorem Moved.called (moved : Moved (fun fd => current (uses fd hist)) (e.pre.use e.label) (e.post, e.out))
    (calls : destroyed fd hist = due (uses fd hist)) : destroyed fd (e :: hist) = due (uses fd (e :: hist)) := by
  have call : e.out.destroys = _ := moved.calls
  rw [destroyed_cons, calls, call]
  cases use : e.pre.use e.label with
  | none => rw [uses_none use, Option.bind_none, Option.bind_none, Option.toList_none, List.nil_append]
  | some u =>
    obtain ⟨fd', u⟩ := u
    rw [Option.bind_some, Option.bind_map]
    by_cases here : fd = fd'
    · subst here
      rw [uses_self use, due_cons]
      simp [Function.comp_def, ofObject]
    · rw [uses_ne use here]
      simp [Function.comp_def, ofObject, Ne.symm here]

theorem NetfdRun.inv (run : NetfdRun hist s) (careful : ∀ e ∈ hist, e.pre.careful e.label = true) :
    (∃ free, NetfdInv (fun fd => current (uses fd hist)) s free) ∧ ∀ fd, destroyed fd hist = due (uses fd hist) := by
  induction run with
  | begin started =>
    subst started
    refine ⟨⟨[], rfl, List.nodup_nil, fun fd => ?_⟩, fun fd => rfl⟩
    constructor <;> simp [Netfds.boot, uses, current]
  | @next hist e before fired ih =>
    obtain ⟨⟨free, inv⟩, calls⟩ := ih fun e' mem => careful e' (List.mem_cons_of_mem e mem)
    have moved := netfdStep_moved inv fired.enabled (careful e List.mem_cons_self) fired.step
    exact ⟨moved.bound, fun fd => moved.called (calls fd)⟩

/-- Every run in which private data is set with care. -/
theorem netfd_recycling (run : NetfdRun hist s) (careful : ∀ e ∈ hist, e.pre.careful e.label = true) : Recycles hist s := by
  obtain ⟨⟨free, inv⟩, calls⟩ := NetfdRun.inv run careful
  constructor
  case listed =>
    refine ⟨free, inv.listed, inv.listed.nodup, fun fd => ?_⟩
    rw [(inv.fits fd).member]
    exact and_congr_right fun _ => and_congr_right fun off =>
      ⟨fun still => (quiet_settled still).1, fun unfreed => inv.quiet_idle off unfreed⟩
  case unused =>
    intro l s' fd enabled step
    have got := inv.object enabled step
    exact ⟨got.unused, quiet_settled got.still⟩
  case blank =>
    intro l s' fd enabled step
    have got := inv.object enabled step
    obtain ⟨free', inv'⟩ := got.inv
    have held := ((inv'.fits fd).held got.made got.still).trans got.blank
    exact ⟨congrArg Prod.fst held, congrArg Prod.snd held, (inv'.fits fd).aux got.made⟩
  case destroyed => exact calls

end

/-- The opening of object 1 fails first. The destructor of object 0, registered anew with the
same value, frees object 0 again, frees object 1 and opens a new one. -/
theorem netfd_recycling_nested :
    ∃ hist s, NetfdRun hist s ∧
      (destroyed 0 hist = [(10, 102)] ∧ destroyed 1 hist = [(11, 101)] ∧ s.netfds.freelist = some 0 ∧
        s.netfds.made = [2, 1, 0] ∧ (s.netfds.obj 1).inuse = true) ∧ Recycles hist s := by
  obtain ⟨hist, s, run, seen⟩ := Run.found (M := netfdMachine)
    [.open 3 ⟨true, some 0, false, true, true⟩, .open 4 ⟨true, some 1, false, false, true⟩,
      .openSocket 4 ⟨true, none, true, true, true⟩, .setspecific 0 (some 10) (some 100),
      .setspecific 0 (some 10) (some 102), .setspecific 1 (some 11) (some 101), .free 0, .free 0, .close 1 true 0,
      .open 5 ⟨true, some 2, false, true, true⟩, .return 0 0, .open 6 ⟨true, none, false, true, true⟩, .return 0 0]
    netfdStarted_boot
    (p := fun hist s => decide ((destroyed 0 hist = [(10, 102)] ∧ destroyed 1 hist = [(11, 101)] ∧
      s.netfds.freelist = some 0 ∧ s.netfds.made = [2, 1, 0] ∧ (s.netfds.obj 1).inuse = true) ∧
      ∀ e ∈ hist, e.pre.careful e.label = true))
    (by decide +kernel)
  obtain ⟨facts, careful⟩ := of_decide_eq_true seen
  exact ⟨hist, s, run, facts, netfd_recycling run careful⟩

/-- Private data is set on objects in use and not by destructors, a destructor frees other
objects than the one whose value it destroys, and calls end in the order of their nesting. -/
def NetfdSystem.orderly (s : NetfdSystem) : NetfdLabel → Bool
  | .setspecific fd _ _ => (s.netfds.obj fd).inuse && s.pending.isEmpty
  | .free fd | .close fd _ _ => s.pending.head?.all fun r => r.fd ≠ fd
  | .return i _ => i = 0
  | _ => true

/-- The old value of object 0 has a destructor that frees object 1, and that of the value of
object 1 frees object 0: the old value is destroyed twice, and the new one is left to whoever
opens object 0 next. -/
theorem setspecific_frees_object :
    ∃ hist s, NetfdRun hist s ∧ (∀ e ∈ hist, e.pre.orderly e.label = true) ∧
      uses 0 hist = [.free, .bind (some 12) (some 100), .bind (some 10) (some 100)] ∧
      destroyed 0 hist = [(10, 100), (10, 100)] ∧
      (hist.head?.map Event.out = some (.object (some 0)) ∧ (s.netfds.obj 0).privateData = some 12) ∧
      ¬ Recycles hist s := by
  obtain ⟨hist, s, run, seen⟩ := Run.found (M := netfdMachine)
    [.open 3 ⟨true, some 0, false, true, true⟩, .open 4 ⟨true, some 1, false, true, true⟩,
      .setspecific 0 (some 10) (some 100), .setspecific 1 (some 11) (some 101),
      .setspecific 0 (some 12) (some 100), .free 1, .free 0, .return 0 0, .return 0 0, .return 0 0,
      .open 5 ⟨true, none, false, true, true⟩, .open 6 ⟨true, none, false, true, true⟩]
    netfdStarted_boot
    (p := fun hist s => decide ((∀ e ∈ hist, e.pre.orderly e.label = true) ∧
      uses 0 hist = [.free, .bind (some 12) (some 100), .bind (some 10) (some 100)] ∧
      destroyed 0 hist = [(10, 100), (10, 100)] ∧
      (hist.head?.map Event.out = some (.object (some 0)) ∧ (s.netfds.obj 0).privateData = some 12)))
    (by decide +kernel)
  obtain ⟨orderly, used, twice, left⟩ := of_decide_eq_true seen
  refine ⟨hist, s, run, orderly, used, twice, left, fun recycles => ?_⟩
  have once := recycles.destroyed 0
  rw [twice, used] at once
  revert once
  decide

end StateThreads
