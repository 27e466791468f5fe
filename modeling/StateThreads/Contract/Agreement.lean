import StateThreads.Event.Notify
import StateThreads.Event.Select
import StateThreads.Event.Slices
import StateThreads.Contract.Interest

/-! The three event systems agree on what a dispatch does. -/
namespace StateThreads
open LabelledRun

inductive Built {σ ω : Type} (E : EventSys σ ω) : List (List PollFd) → σ → Prop
  | start {evt : σ} : E.initial evt → Built E [] evt
  | add {ioq : List (List PollFd)} {evt evt' : σ} {pds : List PollFd} :
      Built E ioq evt → E.pollsetAdd evt pds = some (evt', none) → Built E (ioq ++ [pds]) evt'

def build {σ ω : Type} (E : EventSys σ ω) (evt : σ) : List (List PollFd) → Option σ
  | [] => some evt
  | pds :: ioq =>
    match E.pollsetAdd evt pds with
    | some (evt, none) => build E evt ioq
    | _ => none

theorem Built.found {σ ω : Type} {E : EventSys σ ω} (ioq : List (List PollFd)) (evt : σ) (initial : E.initial evt)
    {p : σ → Bool} (seen : ((build E evt ioq).any p) = true) : ∃ evt', Built E ioq evt' ∧ p evt' = true := by
  have more : ∀ (ioq done : List (List PollFd)) (evt evt' : σ), Built E done evt → build E evt ioq = some evt' →
      Built E (done ++ ioq) evt' := by
    intro ioq
    induction ioq with
    | nil =>
      intro done evt evt' built run
      cases run
      simpa using built
    | cons pds ioq ih =>
      intro done evt evt' built run
      rw [build] at run
      split at run
      · rename_i evt₁ added
        have next := ih (done ++ [pds]) evt₁ evt' (.add built added) run
        simpa using next
      · cases run
  obtain ⟨evt', run, ok⟩ := (Option.any_eq_true _ _).mp seen
  exact ⟨evt', more ioq [] evt evt' (.start initial) run, ok⟩

structure Allowed (pd : PollFd) : Prop extends Epoll.Valid pd where
  low : pd.fd < Select.fdSetSize

/- Bits. -/

theorem and_twoPow_ne_zero {w : Nat} (x : BitVec w) (i : Nat) (inside : i < w) :
    x &&& BitVec.twoPow w i ≠ 0 ↔ x.getLsbD i = true := by
  rw [BitVec.and_twoPow]
  have some_ : BitVec.twoPow w i ≠ 0#w := by
    intro empty
    have bit := congrArg (fun y => BitVec.getLsbD y i) empty
    simp [inside] at bit
  cases bit : x.getLsbD i <;> simp [some_]

theorem Epoll.Valid.and_bits {pd : PollFd} (valid : Epoll.Valid pd) (b : BitVec 16) : pd.events &&& b =
    (if pd.reads = true ∧ b &&& pollIn ≠ 0 then pollIn else 0) |||
      (if pd.writes = true ∧ b &&& pollOut ≠ 0 then pollOut else 0) |||
      (if pd.excepts = true ∧ b &&& pollPri ≠ 0 then pollPri else 0) := by
  have all : ∀ n m : Fin 8, BitVec.ofNat 16 n &&& BitVec.ofNat 16 m =
      (if BitVec.ofNat 16 n &&& pollIn ≠ 0 ∧ BitVec.ofNat 16 m &&& pollIn ≠ 0 then pollIn else 0) |||
        (if BitVec.ofNat 16 n &&& pollOut ≠ 0 ∧ BitVec.ofNat 16 m &&& pollOut ≠ 0 then pollOut else 0) |||
        (if BitVec.ofNat 16 n &&& pollPri ≠ 0 ∧ BitVec.ofNat 16 m &&& pollPri ≠ 0 then pollPri else 0) := by decide
  have within : ∀ kind : BitVec 16, kind = 7#16 &&& kind → b &&& kind = b &&& 7#16 &&& kind := by
    intro kind part
    rw [BitVec.and_assoc, ← part]
  have masked : pd.events &&& b = pd.events &&& (b &&& 7#16) := by
    rw [BitVec.and_comm b, ← BitVec.and_assoc, ← valid.low]
  have this := all ⟨pd.events.toNat, low_toNat_lt valid.low⟩ ⟨(b &&& 7#16).toNat, low_toNat_lt rfl⟩
  simp only [BitVec.ofNat_toNat, BitVec.setWidth_eq] at this
  rw [masked, this, within pollIn rfl, within pollOut rfl, within pollPri rfl]
  simp only [PollFd.reads, PollFd.writes, PollFd.excepts, decide_eq_true_eq]

theorem answer_any (ready : Int → BitVec 16) (pds : List PollFd) :
    ((pds.map (PollFd.answer ready)).any fun pd => pd.revents ≠ 0) = wakes ready pds := by
  simp only [wakes, List.any_map]
  rfl

theorem answer_asks (ready : Int → BitVec 16) (pds : List PollFd) :
    (pds.map (PollFd.answer ready)).map PollFd.ask = pds.map PollFd.ask := by
  simp only [List.map_map]
  rfl

variable {κ ω : Type} {ready : Int → BitVec 16}

namespace Select

def Hit (ready : Int → BitVec 16) (n : Int) (r w e : FdSet) : Prop :=
  ∃ fd, 0 ≤ fd ∧ fd < n ∧ (r fd = true ∧ ready fd &&& pollIn ≠ 0 ∨ w fd = true ∧ ready fd &&& pollOut ≠ 0 ∨
    e fd = true ∧ ready fd &&& pollPri ≠ 0)

/-- select reports exactly what is asked for and ready, of the descriptors below its first
argument. -/
structure Exact (K : Kernel κ ω) (ready : Int → BitVec 16) : Prop where
  found : ∀ k n r w e limit, Hit ready n r w e → ∃ r' w' e', (K.select k n r w e limit).2 = .ready r' w' e' ∧
    ∀ fd, 0 ≤ fd → fd < n → r' fd = (r fd && ready fd &&& pollIn ≠ 0) ∧ w' fd = (w fd && ready fd &&& pollOut ≠ 0) ∧
      e' fd = (e fd && ready fd &&& pollPri ≠ 0)
  none : ∀ k n r w e limit, ¬ Hit ready n r w e → (K.select k n r w e limit).2 = .timeout

structure Covers (s : State κ) (pd : PollFd) : Prop where
  reads : pd.reads = true → s.readSet pd.fd = true
  writes : pd.writes = true → s.writeSet pd.fd = true
  excepts : pd.excepts = true → s.excepSet pd.fd = true
  max : pd.fd ≤ s.maxfd

theorem include_mono {wanted : Bool} {fd x : Int} {set : FdSet} {cnt : Int → Int} (held : set x = true) :
    (include_ wanted fd set cnt).1 x = true := by
  unfold include_
  split
  · by_cases h : x = fd
    · subst h; simp
    · simpa [h] using held
  · exact held

theorem include_self {fd : Int} {set : FdSet} {cnt : Int → Int} : (include_ true fd set cnt).1 fd = true := by
  simp [include_]

theorem Covers.addOne {s : State κ} {pd : PollFd} (covers : Covers s pd) (p : PollFd) : Covers (addOne s p) pd where
  reads h := include_mono (covers.reads h)
  writes h := include_mono (covers.writes h)
  excepts h := include_mono (covers.excepts h)
  max := by
    have := covers.max
    simp only [Select.addOne]
    split <;> omega

theorem Covers.self (s : State κ) (pd : PollFd) : Covers (Select.addOne s pd) pd where
  reads h := by simp only [Select.addOne, h]; exact include_self
  writes h := by simp only [Select.addOne, h]; exact include_self
  excepts h := by simp only [Select.addOne, h]; exact include_self
  max := by
    simp only [Select.addOne]
    split <;> omega

theorem covers_add {pds : List PollFd} {s : State κ} {pd : PollFd} (h : Covers s pd ∨ pd ∈ pds) :
    Covers (pds.foldl Select.addOne s) pd := by
  induction pds generalizing s with
  | nil =>
    obtain covers | member := h
    · exact covers
    · cases member
  | cons p pds ih =>
    apply ih
    obtain covers | member := h
    · exact .inl (covers.addOne p)
    · obtain rfl | member := List.mem_cons.mp member
      · exact .inl (.self s pd)
      · exact .inr member

theorem built_covers {K : Kernel κ ω} {ioq : List (List PollFd)} {s : State κ} (built : Built (eventSys K) ioq s) :
    ∀ pd ∈ ioq.flatten, Covers s pd := by
  induction built with
  | start => simp
  | add before added ih =>
    simp only [eventSys, pollsetAdd] at added
    split at added
    · cases added
    · cases added
      intro pd member
      simp only [List.flatten_append, List.flatten_cons, List.flatten_nil, List.append_nil, List.mem_append] at member
      exact covers_add (member.imp_left (ih pd))

def At (ready : Int → BitVec 16) (s : State κ) (rest : List (List PollFd)) : Prop :=
  ∃ r w e, s.walk = .ready r w e ∧ ∀ pds ∈ rest, ∀ pd ∈ pds, Select.ready r w e pd = pd.events &&& ready pd.fd

theorem pollsetDel_walk (s : State κ) (pds : List PollFd) : (pollsetDel s pds).walk = s.walk := by
  unfold pollsetDel
  induction pds generalizing s with
  | nil => rfl
  | cons pd pds ih => exact ih (delOne s pd)

theorem stay_walk (s : State κ) (pds : List PollFd) : (stay s pds).walk = s.walk := by
  unfold stay
  split <;> rfl

theorem At.visit {K : Kernel κ ω} {s : State κ} {pds : List PollFd} {rest : List (List PollFd)}
    (at_ : At ready s (pds :: rest)) : (visit K s pds).2.1 = pds.map (PollFd.answer ready) := by
  obtain ⟨r, w, e, walk, exact_⟩ := at_
  simp only [Select.visit, walk]
  apply List.map_congr_left
  intro pd member
  rw [exact_ pds (List.mem_cons_self ..) pd member]
  rfl

theorem eventSys_reports (K : Kernel κ ω) : Reports (eventSys K) ready (At ready) where
  asks evt pds rest at_ := by
    rw [show ((eventSys K).visit evt pds).2.1 = _ from at_.visit, answer_asks]
  notify evt pds rest at_ := by
    rw [← answer_any, ← at_.visit (K := K)]
    rfl
  told evt pds rest at_ _ := by
    refine ⟨at_.visit, ?_⟩
    obtain ⟨r, w, e, walk, exact_⟩ := at_
    exact ⟨r, w, e, (pollsetDel_walk _ _).trans walk, fun p member => exact_ p (List.mem_cons_of_mem _ member)⟩
  stays evt pds rest at_ _ := by
    obtain ⟨r, w, e, walk, exact_⟩ := at_
    exact ⟨r, w, e, (stay_walk _ _).trans walk, fun p member => exact_ p (List.mem_cons_of_mem _ member)⟩

theorem wait_answers {K : Kernel κ ω} (exactly : Exact K ready) {ioq : List (List PollFd)} {s : State κ}
    (built : Built (eventSys K) ioq s) (allowed : ∀ pds ∈ ioq, ∀ pd ∈ pds, StateThreads.Allowed pd) (min : Option UTime) :
    ∃ s' found, (eventSys K).wait s min ioq = some (s', found) ∧
      if found then At ready s' ioq else ∀ pds ∈ ioq, wakes ready pds = false := by
  have covers : ∀ pds ∈ ioq, ∀ pd ∈ pds, Covers s pd := fun pds there pd member =>
    built_covers built pd (List.mem_flatten.mpr ⟨pds, there, member⟩)
  refine ⟨_, _, rfl, ?_⟩
  by_cases hit : Hit ready (s.maxfd + 1) s.readSet s.writeSet s.excepSet
  · obtain ⟨r, w, e, answer, exact_⟩ := exactly.found s.kern _ _ _ _ (timeval min) hit
    simp only [answer, if_true]
    refine ⟨r, w, e, rfl, fun pds there pd member => ?_⟩
    have valid := allowed pds there pd member
    obtain ⟨reads, writes, excepts, max⟩ := covers pds there pd member
    obtain ⟨same, same', same''⟩ := exact_ pd.fd valid.fd (by omega)
    rw [valid.and_bits, Select.ready, same, same', same'']
    congr 1
    · congr 1
      · cases h : pd.reads <;> simp [h, reads]
      · cases h : pd.writes <;> simp [h, writes]
    · cases h : pd.excepts <;> simp [h, excepts]
  · simp only [exactly.none s.kern _ _ _ _ (timeval min) hit]
    intro pds there
    apply List.any_eq_false.mpr
    intro pd member
    have valid := allowed pds there pd member
    obtain ⟨reads, writes, excepts, max⟩ := covers pds there pd member
    have none : ∀ p : Prop, (p → Hit ready (s.maxfd + 1) s.readSet s.writeSet s.excepSet) → ¬ p := fun p h hp => hit (h hp)
    rw [valid.and_bits, if_neg, if_neg, if_neg]
    · decide
    · exact none _ fun h => ⟨pd.fd, valid.fd, by omega, .inr (.inr ⟨excepts h.1, h.2⟩)⟩
    · exact none _ fun h => ⟨pd.fd, valid.fd, by omega, .inr (.inl ⟨writes h.1, h.2⟩)⟩
    · exact none _ fun h => ⟨pd.fd, valid.fd, by omega, .inl ⟨reads h.1, h.2⟩⟩

end Select

namespace Poll

/-- poll reports exactly what is asked for and ready in the entries, and the array for them
can be allocated: with the ten entries that dispatch leaves free, its size is an int. -/
structure Exact (K : Kernel κ ω) (ready : Int → BitVec 16) (entries : List PollFd) : Prop where
  poll : ∀ k timeout, (K.poll k entries timeout).2 =
    (((entries.countP fun pd => pd.events &&& ready pd.fd ≠ 0 : Nat) : Int), entries.map fun pd => pd.events &&& ready pd.fd)
  malloc : ∀ k n, (K.malloc k n).2 = true
  size : IsInt (entries.length + 10)

theorem built_accounts {K : Kernel κ ω} {ioq : List (List PollFd)} {s : State κ} (built : Built (eventSys K) ioq s) :
    Accounts s ioq.flatten := by
  have keeping := eventSys_keeps K
  induction built with
  | start initial => exact keeping.initial _ initial
  | add before added ih =>
    simp only [List.flatten_append, List.flatten_cons, List.flatten_nil, List.append_nil]
    exact keeping.added _ _ _ _ ih added

theorem Exact.reserves {K : Kernel κ ω} {entries : List PollFd} (exactly : Exact K ready entries) (s : State κ) :
    ∃ s₁, reserve K s = some s₁ := by
  unfold reserve
  split
  · dsimp only
    rw [exactly.malloc, if_pos rfl]
    exact ⟨_, rfl⟩
  · exact ⟨s, rfl⟩

theorem returned_answers (ready : Int → BitVec 16) (l : List PollFd) :
    returned l (l.map fun pd => pd.events &&& ready pd.fd) = l.map (PollFd.answer ready) := by
  induction l with
  | nil => rfl
  | cons pd l ih => simpa [returned, PollFd.answer] using ih

def At (ready : Int → BitVec 16) (s : State κ) (rest : List (List PollFd)) : Prop :=
  ∃ junk, s.pollfds.drop s.cursor = rest.flatten.map (PollFd.answer ready) ++ junk

theorem At.slice {s : State κ} {pds : List PollFd} {rest : List (List PollFd)} (at_ : At ready s (pds :: rest)) :
    (s.pollfds.drop s.cursor).take pds.length = pds.map (PollFd.answer ready) ∧
      ∃ junk, s.pollfds.drop (s.cursor + pds.length) = rest.flatten.map (PollFd.answer ready) ++ junk := by
  obtain ⟨junk, same⟩ := at_
  rw [List.flatten_cons, List.map_append, List.append_assoc] at same
  have length : pds.length = (pds.map (PollFd.answer ready)).length := by simp
  refine ⟨?_, junk, ?_⟩
  · rw [same, length, List.take_left]
  · rw [← List.drop_drop, same, length, List.drop_left]

theorem At.notify {s : State κ} {pds : List PollFd} {rest : List (List PollFd)} (at_ : At ready s (pds :: rest)) :
    (visit s pds).2.2 = wakes ready pds := by
  rw [← answer_any, ← at_.slice.1]
  rfl

theorem eventSys_reports (K : Kernel κ ω) : Reports (eventSys K) ready (At ready) where
  asks evt pds rest at_ := by
    simp only [eventSys, visit]
    split
    · rw [at_.slice.1, answer_asks]
    · rfl
  notify evt pds rest at_ := at_.notify
  told evt pds rest at_ wake := by
    refine ⟨?_, at_.slice.2⟩
    have notify := at_.notify
    rw [wake] at notify
    simp only [visit] at notify
    simp only [eventSys, visit, notify, if_true]
    exact at_.slice.1
  stays evt pds rest at_ _ := at_.slice.2

theorem wait_answers {K : Kernel κ ω} {ioq : List (List PollFd)} (exactly : Exact K ready ioq.flatten) {s : State κ}
    (built : Built (eventSys K) ioq s) (min : Option UTime) :
    ∃ s' found, (eventSys K).wait s min ioq = some (s', found) ∧
      if found then At ready s' ioq else ∀ pds ∈ ioq, wakes ready pds = false := by
  have accounts := built_accounts built
  have size := exactly.size
  have count : s.fdcnt = ioq.flatten.length := accounts.count_iff.mpr (by unfold IsInt at size ⊢; omega)
  obtain ⟨s₁, reserved⟩ := exactly.reserves s
  have fits : (ioq.flatten.length : Int) ≤ s₁.pollfdsSize := by
    rw [(reserve_room reserved).2, ← count, room_iff accounts.int, count]
    exact fun _ => size
  obtain ⟨kern, nfd, revents, asked, run⟩ := wait_spec count reserved fits min
  have answer := exactly.poll s₁.kern (msTimeout min)
  rw [asked] at answer
  obtain ⟨rfl, rfl⟩ := Prod.mk.inj answer
  rw [returned_answers] at run
  refine ⟨_, _, run, ?_⟩
  split
  · exact ⟨_, rfl⟩
  · rename_i quiet
    intro pds there
    apply List.any_eq_false.mpr
    intro pd member hit
    apply quiet
    have some_ := List.countP_pos_iff (p := fun pd : PollFd => decide (pd.events &&& ready pd.fd ≠ 0)).mpr
      ⟨pd, List.mem_flatten.mpr ⟨pds, there, member⟩, hit⟩
    exact decide_eq_true (Int.natCast_pos.mpr some_)

end Poll

namespace Epoll

def reported (reg : κ → Int → Int → Option (BitVec 32)) (ready : Int → BitVec 16) (k : κ) (epfd fd : Int) : BitVec 32 :=
  (reg k epfd fd).getD 0 &&& (ready fd).setWidth 32

/-- The event list has room for every descriptor with something to report. -/
def Fits (reg : κ → Int → Int → Option (BitVec 32)) (ready : Int → BitVec 16) (k : κ) (epfd size : Int) : Prop :=
  ∀ hits : Finset Int, (∀ fd ∈ hits, reported reg ready k epfd fd ≠ 0) → (hits.card : Int) ≤ size

/-- epoll_wait reports exactly what is registered and ready, when it fits. -/
def Exact (K : Kernel κ ω) (reg : κ → Int → Int → Option (BitVec 32)) (ready : Int → BitVec 16) : Prop :=
  ∀ k epfd size timeout, Fits reg ready k epfd size →
    ∀ e, e ∈ (K.epollWait k epfd size timeout).2 ↔ e.2 = reported reg ready k epfd e.1 ∧ e.2 ≠ 0

variable {K : Kernel κ ω} {created : κ → Int → Prop} {reg : κ → Int → Int → Option (BitVec 32)}
  {closes : κ → ω → Int → Prop}

theorem unspoilt_true : Unspoilt K created fun _ => True := ⟨by simp, by simp, by simp, by simp, by simp⟩

theorem built_mirrored (sem : EpollSet K created reg closes) {ioq : List (List PollFd)} {s : State κ}
    (built : Built (eventSys K created) ioq s) : Accounts s ioq.flatten ∧ Mirror reg (fun _ => True) none s := by
  have book := eventSys_mirrored sem unspoilt_true
  induction built with
  | start initial => exact book.initial _ initial
  | add before added ih =>
    simp only [List.flatten_append, List.flatten_cons, List.flatten_nil, List.append_nil]
    exact book.added _ _ _ _ ih added

theorem marks_revents {F : Int → BitVec 32} (events : List (Int × BitVec 32))
    (told : ∀ e ∈ events, e.2 = F e.1 ∧ e.2 &&& (epollErr ||| epollHup) = 0) (d : Data) (fd : Int) :
    ((events.foldl mark d).fdData fd).revents =
      if fd ∈ events.map Prod.fst then F fd else (d.fdData fd).revents := by
  induction events generalizing d with
  | nil => simp
  | cons e events ih =>
    obtain ⟨value, plain⟩ := told e (List.mem_cons_self ..)
    rw [List.foldl_cons, ih fun e' member => told e' (List.mem_cons_of_mem _ member)]
    by_cases here : fd = e.1
    · subst here
      rw [value] at plain
      simp [mark, Data.setFd, value, show F e.1 &&& (epollErr ||| epollHup) = 0#32 from plain]
    · simp [mark, Data.setFd, here]

def At (ready : Int → BitVec 16) (all : List PollFd) (s : State κ) (rest : List (List PollFd)) : Prop :=
  (∀ fd, (s.data.fdData fd).revents = requested all fd &&& (ready fd).setWidth 32) ∧
    ∀ pds ∈ rest, ∀ pd ∈ pds, pd ∈ all

theorem and_setWidth_ne_zero (r : BitVec 16) (i : Nat) (inside : i < 16) :
    BitVec.twoPow 32 i &&& r.setWidth 32 ≠ 0 ↔ r &&& BitVec.twoPow 16 i ≠ 0 := by
  rw [BitVec.and_comm, and_twoPow_ne_zero _ _ (by omega), and_twoPow_ne_zero _ _ inside, BitVec.getLsbD_setWidth]
  simp [show i < 32 by omega]

theorem requested_kinds {all : List PollFd} (valid : ∀ pd ∈ all, Valid pd) (fd : Int) :
    requested all fd &&& epollIn = (if tally PollFd.reads all fd ≠ 0 then epollIn else 0) ∧
      requested all fd &&& epollOut = (if tally PollFd.writes all fd ≠ 0 then epollOut else 0) ∧
      requested all fd &&& epollPri = (if tally PollFd.excepts all fd ≠ 0 then epollPri else 0) ∧
      requested all fd &&& epollErr = 0 ∧ requested all fd &&& epollHup = 0 := by
  rw [requested_eq valid]
  by_cases a : tally PollFd.reads all fd = 0 <;> by_cases b : tally PollFd.writes all fd = 0 <;>
    by_cases c : tally PollFd.excepts all fd = 0 <;>
    simp only [a, b, c, ne_eq, not_true_eq_false, not_false_eq_true, if_true, if_false] <;> decide

theorem result_requested (ready : Int → BitVec 16) {all : List PollFd} (valid : ∀ pd ∈ all, Valid pd) {pd : PollFd}
    (member : pd ∈ all) :
    result (requested all pd.fd &&& (ready pd.fd).setWidth 32) pd = pd.events &&& ready pd.fd := by
  have asked : ∀ kind : PollFd → Bool, kind pd = true → tally kind all pd.fd ≠ 0 := by
    intro kind asks
    have := tally_pos_iff.mpr ⟨pd, member, rfl, asks⟩
    omega
  obtain ⟨ins, outs, pris, errs, hups⟩ := requested_kinds valid pd.fd
  generalize requested all pd.fd = m at ins outs pris errs hups ⊢
  have swap : ∀ bit : BitVec 32, m &&& (ready pd.fd).setWidth 32 &&& bit = (m &&& bit) &&& (ready pd.fd).setWidth 32 := by
    intro bit
    ac_rfl
  have bit : ∀ (kind : PollFd → Bool) (i : Nat), i < 16 →
      m &&& BitVec.twoPow 32 i = (if tally kind all pd.fd ≠ 0 then BitVec.twoPow 32 i else 0) →
      (kind pd = true ∧ m &&& (ready pd.fd).setWidth 32 &&& BitVec.twoPow 32 i ≠ 0 ↔
        kind pd = true ∧ ready pd.fd &&& BitVec.twoPow 16 i ≠ 0) := by
    intro kind i inside masked
    refine and_congr_right fun asks => ?_
    rw [swap, masked, if_pos (asked kind asks), and_setWidth_ne_zero _ _ inside]
  rw [(valid pd member).and_bits, result, swap epollErr, swap epollHup, errs, hups]
  have read : pd.reads = true ∧ m &&& (ready pd.fd).setWidth 32 &&& epollIn ≠ 0 ↔
      pd.reads = true ∧ ready pd.fd &&& pollIn ≠ 0 := bit PollFd.reads 0 (by omega) ins
  have write : pd.writes = true ∧ m &&& (ready pd.fd).setWidth 32 &&& epollOut ≠ 0 ↔
      pd.writes = true ∧ ready pd.fd &&& pollOut ≠ 0 := bit PollFd.writes 2 (by omega) outs
  have except : pd.excepts = true ∧ m &&& (ready pd.fd).setWidth 32 &&& epollPri ≠ 0 ↔
      pd.excepts = true ∧ ready pd.fd &&& pollPri ≠ 0 := bit PollFd.excepts 1 (by omega) pris
  simp only [read, write, except]
  simp

theorem At.look {all : List PollFd} (valid : ∀ pd ∈ all, Valid pd) {s : State κ} {rest : List (List PollFd)}
    (at_ : At ready all s rest) {pd : PollFd} (member : pd ∈ all) : look s.data pd = pd.answer ready := by
  have bits := result_requested ready valid member
  rw [← at_.1] at bits
  unfold Epoll.look PollFd.answer
  split
  · rename_i none
    rw [none] at bits
    rw [← bits]
    simp [result]
  · rw [bits]

theorem At.visit {all : List PollFd} (valid : ∀ pd ∈ all, Valid pd) {s : State κ} {pds : List PollFd}
    {rest : List (List PollFd)} (at_ : At ready all s (pds :: rest)) :
    (visit s pds).2.1 = pds.map (PollFd.answer ready) := by
  apply List.map_congr_left
  intro pd member
  exact at_.look valid (at_.2 pds (List.mem_cons_self ..) pd member)

theorem eventSys_reports (K : Kernel κ ω) (created : κ → Int → Prop) {all : List PollFd} (valid : ∀ pd ∈ all, Valid pd) :
    Reports (eventSys K created) ready (At ready all) where
  asks evt pds rest at_ := by
    rw [show ((eventSys K created).visit evt pds).2.1 = _ from at_.visit valid, answer_asks]
  notify evt pds rest at_ := by
    rw [← answer_any, ← at_.visit valid]
    rfl
  told evt pds rest at_ _ := by
    refine ⟨at_.visit valid, fun fd => ?_, fun p member => at_.2 p (List.mem_cons_of_mem _ member)⟩
    obtain ⟨less, -, -⟩ := pollsetDel_data (K := K) evt (pds.map (PollFd.answer ready))
    exact (congrArg FdData.revents (less fd)).trans (at_.1 fd)
  stays evt pds rest at_ _ := ⟨at_.1, fun p member => at_.2 p (List.mem_cons_of_mem _ member)⟩

theorem wait_answers (sem : EpollSet K created reg closes) (exactly : Exact K reg ready) {ioq : List (List PollFd)}
    {s : State κ} (built : Built (eventSys K created) ioq s) (noFork : s.data.pid = K.getpid s.kern)
    (fits : Fits reg ready s.kern s.data.epfd s.data.evtlistSize) (min : Option UTime) :
    ∃ s' found, (eventSys K created).wait s min ioq = some (s', found) ∧
      if found then At ready ioq.flatten s' ioq else ∀ pds ∈ ioq, wakes ready pds = false := by
  obtain ⟨⟨counted, quiet⟩, mirror⟩ := built_mirrored sem built
  have told : ∀ fd, reported reg ready s.kern s.data.epfd fd = requested ioq.flatten fd &&& (ready fd).setWidth 32 := by
    intro fd
    rw [reported, mirror.exact_ fd (quiet fd) (by simp), counted.mask_requested]
    unfold wanted
    split
    · rename_i none
      rw [none]
      rfl
    · rfl
  have valid : ∀ pd ∈ ioq.flatten, Valid pd := fun pd member => (counted.inside pd member).1
  have listed := exactly s.kern s.data.epfd s.data.evtlistSize (msTimeout min) fits
  rw [show (eventSys K created).wait s min ioq = wait K s min ioq from rfl, wait_same noFork, epollWait]
  generalize K.epollWait s.kern s.data.epfd s.data.evtlistSize (msTimeout min) = answer at listed
  obtain ⟨kern, events⟩ := answer
  simp only [told] at listed
  refine ⟨_, _, rfl, ?_⟩
  have missing : ∀ fd, fd ∉ events.map Prod.fst → requested ioq.flatten fd &&& (ready fd).setWidth 32 = 0 := by
    intro fd away
    by_contra some_
    exact away (List.mem_map.mpr ⟨(fd, _), (listed (fd, _)).mpr ⟨rfl, some_⟩, rfl⟩)
  split
  · refine ⟨fun fd => ?_, fun pds there pd member => List.mem_flatten.mpr ⟨pds, there, member⟩⟩
    rw [marks_revents events (F := fun fd => requested ioq.flatten fd &&& (ready fd).setWidth 32)]
    · split
      · rfl
      · rename_i away
        rw [missing fd away]
        exact quiet fd
    · intro e member
      obtain ⟨value, -⟩ := (listed e).mp member
      obtain ⟨-, -, -, errs, hups⟩ := requested_kinds valid e.1
      refine ⟨value, ?_⟩
      rw [value, BitVec.and_assoc, BitVec.and_comm ((ready e.1).setWidth 32), ← BitVec.and_assoc,
        BitVec.and_or_distrib_left, errs, hups]
      simp
  · rename_i none
    obtain rfl : events = [] := by simpa using none
    intro pds there
    apply List.any_eq_false.mpr
    intro pd member
    rw [← result_requested _ valid (List.mem_flatten.mpr ⟨pds, there, member⟩), missing pd.fd (by simp)]
    simp [result]

end Epoll

/-- After one dispatch of each event system the virtual processors are the same, but for
the results of pollqs that stay on io_q, and each is as it should be. -/
theorem dispatch_agreement {κS κP κE ωS ωP ωE : Type} (ready : Int → BitVec 16)
    (KS : Select.Kernel κS ωS) (exactS : Select.Exact KS ready) (KP : Poll.Kernel κP ωP)
    (KE : Epoll.Kernel κE ωE) (created : κE → Int → Prop) (reg : κE → Int → Int → Option (BitVec 32))
    (closes : κE → ωE → Int → Prop) (sem : Epoll.EpollSet KE created reg closes) (exactE : Epoll.Exact KE reg ready)
    (vp : Vp) (settled : Settled vp) (idle : (vp.thr vp.current).context = .idle)
    (ioq : List (List PollFd)) (queue : ioq = vp.ioQ.map fun t => (vp.pollq t).pds)
    (allowed : ∀ pds ∈ ioq, ∀ pd ∈ pds, Allowed pd) (exactP : Poll.Exact KP ready ioq.flatten)
    (evtS : Select.State κS) (builtS : Built (Select.eventSys KS) ioq evtS)
    (evtP : Poll.State κP) (builtP : Built (Poll.eventSys KP) ioq evtP)
    (evtE : Epoll.State κE) (builtE : Built (Epoll.eventSys KE created) ioq evtE)
    (noFork : evtE.data.pid = KE.getpid evtE.kern)
    (fits : Epoll.Fits reg ready evtE.kern evtE.data.epfd evtE.data.evtlistSize) :
    ∃ evtS' vpS evtP' vpP evtE' vpE, dispatch (Select.eventSys KS) evtS vp = some (evtS', vpS) ∧
      dispatch (Poll.eventSys KP) evtP vp = some (evtP', vpP) ∧
      dispatch (Epoll.eventSys KE created) evtE vp = some (evtE', vpE) ∧
      Notified ready vp vpS ∧ Notified ready vp vpP ∧ Notified ready vp vpE ∧
      (vpS = { vpP with pollq := vpS.pollq } ∧ ∀ t ∈ vp.hits ready vp.ioQ, vpS.pollq t = vpP.pollq t) ∧
      (vpP = { vpE with pollq := vpP.pollq } ∧ ∀ t ∈ vp.hits ready vp.ioQ, vpP.pollq t = vpE.pollq t) := by
  subst queue
  obtain ⟨s₁, found₁, wait₁, answer₁⟩ := Select.wait_answers exactS builtS allowed (minTimeout vp)
  obtain ⟨s₂, found₂, wait₂, answer₂⟩ := Poll.wait_answers exactP builtP (minTimeout vp)
  obtain ⟨s₃, found₃, wait₃, answer₃⟩ := Epoll.wait_answers sem exactE builtE noFork fits (minTimeout vp)
  have valid : ∀ pd ∈ (vp.ioQ.map fun t => (vp.pollq t).pds).flatten, Epoll.Valid pd := by
    intro pd member
    obtain ⟨pds, there, member⟩ := List.mem_flatten.mp member
    exact (allowed pds there pd member).toValid
  obtain ⟨evtS', vpS, runS, doneS⟩ := dispatch_notified (Select.eventSys_reports KS) settled idle wait₁ answer₁
  obtain ⟨evtP', vpP, runP, doneP⟩ := dispatch_notified (Poll.eventSys_reports KP) settled idle wait₂ answer₂
  obtain ⟨evtE', vpE, runE, doneE⟩ := dispatch_notified (Epoll.eventSys_reports KE created valid) settled idle wait₃ answer₃
  exact ⟨evtS', vpS, evtP', vpP, evtE', vpE, runS, runP, runE, doneS, doneP, doneE, doneS.unique doneP,
    doneP.unique doneE⟩

def fiveSix (fd : Int) : BitVec 16 := if fd = 5 then pollIn else if fd = 6 then pollOut else 0

theorem fiveSix_only {fd : Int} (some_ : fiveSix fd ≠ 0) : fd = 5 ∨ fd = 6 := by
  unfold fiveSix at some_
  by_contra other
  simp only [not_or] at other
  simp [other] at some_

def Select.fiveSix : Select.Kernel Unit Unit where
  select _ n r w e _ :=
    if [5, 6].any fun fd => fd < n && (r fd && StateThreads.fiveSix fd &&& pollIn ≠ 0 ||
        w fd && StateThreads.fiveSix fd &&& pollOut ≠ 0 || e fd && StateThreads.fiveSix fd &&& pollPri ≠ 0) then
      ((), .ready (fun fd => r fd && StateThreads.fiveSix fd &&& pollIn ≠ 0)
        (fun fd => w fd && StateThreads.fiveSix fd &&& pollOut ≠ 0)
        (fun fd => e fd && StateThreads.fiveSix fd &&& pollPri ≠ 0))
    else ((), .timeout)
  fcntl _ _ := false
  outside _ _ := ()

theorem Select.fiveSix_exact : Select.Exact Select.fiveSix StateThreads.fiveSix where
  found k n r w e limit hit := by
    obtain ⟨fd, -, below, wanted⟩ := hit
    have some_ : StateThreads.fiveSix fd ≠ 0 := by
      intro empty
      simp [empty] at wanted
    refine ⟨_, _, _, ?_, fun _ _ _ => ⟨rfl, rfl, rfl⟩⟩
    simp only [Select.fiveSix]
    rw [if_pos]
    apply List.any_eq_true.mpr
    refine ⟨fd, by simpa using fiveSix_only some_, ?_⟩
    simpa [below, or_assoc] using wanted
  none k n r w e limit missing := by
    simp only [Select.fiveSix]
    rw [if_neg]
    intro hit
    obtain ⟨fd, member, wanted⟩ := List.any_eq_true.mp hit
    simp only [Bool.and_eq_true, decide_eq_true_eq, Bool.or_eq_true, or_assoc] at wanted
    refine missing ⟨fd, ?_, wanted.1, wanted.2⟩
    simp only [List.mem_cons, List.not_mem_nil, or_false] at member
    omega

def Poll.fiveSix : Poll.Kernel Unit Unit where
  poll _ asked _ := ((), (asked.countP fun pd => pd.events &&& StateThreads.fiveSix pd.fd ≠ 0 : Nat),
    asked.map fun pd => pd.events &&& StateThreads.fiveSix pd.fd)
  malloc _ _ := ((), true)
  outside _ _ := ()

theorem Poll.fiveSix_exact {entries : List PollFd} (size : IsInt (entries.length + 10)) :
    Poll.Exact Poll.fiveSix StateThreads.fiveSix entries := ⟨fun _ _ => rfl, fun _ _ => rfl, size⟩

def Epoll.fiveSix : Epoll.Kernel Epoll.Scripted (List (Int × BitVec 32)) :=
  { Epoll.scripted with
    epollWait := fun k epfd _ _ => (k, [5, 6].filterMap fun fd =>
      let bits := Epoll.reported (fun k _ fd => k.registered fd) StateThreads.fiveSix k epfd fd
      if bits ≠ 0 then some (fd, bits) else none) }

theorem Epoll.reported_fiveSix {k : Epoll.Scripted} {epfd fd : Int}
    (some_ : Epoll.reported (fun k _ fd => k.registered fd) StateThreads.fiveSix k epfd fd ≠ 0) : fd = 5 ∨ fd = 6 := by
  apply fiveSix_only
  intro empty
  simp [Epoll.reported, empty] at some_

theorem Epoll.fiveSix_exact : Epoll.Exact Epoll.fiveSix (fun k _ fd => k.registered fd) StateThreads.fiveSix := by
  intro k epfd size timeout _ e
  simp only [Epoll.fiveSix, List.mem_filterMap]
  constructor
  · rintro ⟨fd, -, same⟩
    split at same
    · rename_i some_
      cases same
      exact ⟨rfl, some_⟩
    · cases same
  · rintro ⟨value, some_⟩
    rw [value] at some_
    refine ⟨e.1, by simpa using Epoll.reported_fiveSix some_, ?_⟩
    rw [if_pos some_, ← value]

theorem Epoll.fiveSix_set : Epoll.EpollSet Epoll.fiveSix Epoll.startsEmpty (fun k _ fd => k.registered fd)
    (fun _ _ _ => False) :=
  { Epoll.scripted_set with
    wait := by
      intro k epfd size timeout
      refine ⟨rfl, fun e member gone => ?_⟩
      obtain ⟨fd, -, same⟩ := List.mem_filterMap.mp member
      simp only at same gone
      split at same
      · rename_i some_
        cases same
        simp [Epoll.reported, gone] at some_
      · cases same }

/-- Threads 2, 3 and 4 share descriptors 5 and 6; threads 2 and 4 are woken. -/
theorem dispatch_agreement_shared_descriptors :
    ∃ vp evtS evtP evtE, vp.ioQ = [2, 3, 4] ∧ ∃ evtS' vpS evtP' vpP evtE' vpE,
      dispatch (Select.eventSys Select.fiveSix) evtS vp = some (evtS', vpS) ∧
      dispatch (Poll.eventSys Poll.fiveSix) evtP vp = some (evtP', vpP) ∧
      dispatch (Epoll.eventSys Epoll.fiveSix Epoll.startsEmpty) evtE vp = some (evtE', vpE) ∧
      vpS.runQ = [2, 4] ∧ vpP.runQ = [2, 4] ∧ vpE.runQ = [2, 4] ∧ vpS.ioQ = [3] ∧ vpP.ioQ = [3] ∧ vpE.ioQ = [3] := by
  obtain ⟨hist, s, run, seen⟩ := Run.found (M := machine (Poll.eventSys Poll.silent))
    [.call (.threadCreate (some 2) false none), .call (.threadCreate (some 3) false none),
      .call (.threadCreate (some 4) false none), .call (.usleep 9000), .resume,
      .call (.poll [⟨5, pollIn, 0⟩, ⟨6, pollIn, 0⟩] 900), .resume, .call (.poll [⟨5, pollOut, 0⟩] 900), .resume,
      .call (.poll [⟨6, pollOut, 0⟩, ⟨6, pollIn ||| pollOut, 0⟩] 700)]
    Poll.started_ok
    (p := fun _ s => decide ((s.vp.thr s.vp.current).context = .idle ∧ s.vp.ioQ = [2, 3, 4] ∧ s.vp.runQ = [] ∧
      (s.vp.ioQ.map fun t => (s.vp.pollq t).pds) = [[⟨5, pollIn, 0⟩, ⟨6, pollIn, 0⟩], [⟨5, pollOut, 0⟩],
        [⟨6, pollOut, 0⟩, ⟨6, pollIn ||| pollOut, 0⟩]] ∧ s.vp.hits fiveSix s.vp.ioQ = [2, 4]))
    (by decide +kernel)
  obtain ⟨idle, queue, empty, entries, hits⟩ := of_decide_eq_true seen
  have allowed : ∀ pds ∈ [[⟨5, pollIn, 0⟩, ⟨6, pollIn, 0⟩], [⟨5, pollOut, 0⟩],
      [⟨6, pollOut, 0⟩, ⟨6, pollIn ||| pollOut, 0⟩]], ∀ pd ∈ pds, Allowed pd := by
    have checks : ∀ pds ∈ ([[⟨5, pollIn, 0⟩, ⟨6, pollIn, 0⟩], [⟨5, pollOut, 0⟩],
        [⟨6, pollOut, 0⟩, ⟨6, pollIn ||| pollOut, 0⟩]] : List (List PollFd)), ∀ pd ∈ pds,
        0 ≤ pd.fd ∧ pd.events ≠ 0 ∧ pd.events &&& ~~~(pollIn ||| pollOut ||| pollPri) = 0 ∧
          pd.fd < Select.fdSetSize := by decide
    intro pds there pd member
    obtain ⟨fd, some_, known, low⟩ := checks pds there pd member
    exact ⟨⟨fd, some_, known⟩, low⟩
  obtain ⟨evtS, builtS, -⟩ := Built.found (E := Select.eventSys Select.fiveSix)
    [[⟨5, pollIn, 0⟩, ⟨6, pollIn, 0⟩], [⟨5, pollOut, 0⟩], [⟨6, pollOut, 0⟩, ⟨6, pollIn ||| pollOut, 0⟩]]
    (Select.init ()) rfl (p := fun _ => true) (by decide +kernel)
  obtain ⟨evtP, builtP, -⟩ := Built.found (E := Poll.eventSys Poll.fiveSix)
    [[⟨5, pollIn, 0⟩, ⟨6, pollIn, 0⟩], [⟨5, pollOut, 0⟩], [⟨6, pollOut, 0⟩, ⟨6, pollIn ||| pollOut, 0⟩]]
    ⟨[], 64, 0, 0, ()⟩ ⟨rfl, rfl, rfl⟩ (p := fun _ => true) (by decide +kernel)
  obtain ⟨evtE, builtE, ok⟩ := Built.found (E := Epoll.eventSys Epoll.fiveSix Epoll.startsEmpty)
    [[⟨5, pollIn, 0⟩, ⟨6, pollIn, 0⟩], [⟨5, pollOut, 0⟩], [⟨6, pollOut, 0⟩, ⟨6, pollIn ||| pollOut, 0⟩]]
    Epoll.started.evt ⟨64, 4, fun _ => rfl, rfl⟩
    (p := fun evt => decide (evt.data.pid = 1 ∧ evt.data.evtlistSize = 64)) (by decide +kernel)
  obtain ⟨pid, size⟩ := of_decide_eq_true ok
  have fits : Epoll.Fits (fun k _ fd => k.registered fd) fiveSix evtE.kern evtE.data.epfd evtE.data.evtlistSize := by
    intro few reported
    have part : few ⊆ {5, 6} := by
      intro fd member
      simpa using Epoll.reported_fiveSix (reported fd member)
    have bound := Finset.card_le_card part
    have two : ({5, 6} : Finset Int).card = 2 := rfl
    omega
  obtain ⟨evtS', vpS, evtP', vpP, evtE', vpE, runS, runP, runE, doneS, doneP, doneE, -⟩ :=
    dispatch_agreement fiveSix _ Select.fiveSix_exact _ _ _ _ _ Epoll.fiveSix_set Epoll.fiveSix_exact
      s.vp (SysRun.settled run) idle _ entries.symm allowed (Poll.fiveSix_exact (by decide)) evtS builtS evtP builtP evtE builtE pid fits
  have queues : ∀ vp', Notified fiveSix s.vp vp' → vp'.runQ = [2, 4] ∧ vp'.ioQ = [3] := by
    intro vp' done
    rw [done.dispatched.runQ, done.answered.ioQ, hits, empty, queue]
    exact ⟨rfl, rfl⟩
  exact ⟨s.vp, evtS, evtP, evtE, queue, evtS', vpS, evtP', vpP, evtE', vpE, runS, runP, runE, (queues _ doneS).1,
    (queues _ doneP).1, (queues _ doneE).1, (queues _ doneS).2, (queues _ doneP).2, (queues _ doneE).2⟩

end StateThreads
