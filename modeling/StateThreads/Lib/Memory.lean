import Mathlib.Algebra.Group.Nat.Defs

/-! Memory as a function from addresses of w bits to bytes. A word of w bits is kept in w/8
bytes, the lowest first, and addresses wrap around. -/
namespace ByteMemory

abbrev Mem (w : Nat) := BitVec w → BitVec 8

variable {w : Nat}

def load (m : Mem w) (a : BitVec w) : BitVec w :=
  (BitVec.iunfoldr (fun i (u : Unit) => (u, (m (a + BitVec.ofNat w (i / 8))).getLsbD (i % 8))) ()).2

def store (m : Mem w) (a x : BitVec w) : Mem w := fun b =>
  if (b - a).toNat < w / 8 then x.extractLsb' (8 * (b - a).toNat) 8 else m b

def Within (a : BitVec w) (n : Nat) (b : BitVec w) : Prop := (b - a).toNat < n

instance Within.decidable (a : BitVec w) (n : Nat) (b : BitVec w) : Decidable (Within a n b) :=
  inferInstanceAs (Decidable (_ < _))

/-- No byte of the n from a on is one of the k from b on. -/
def Apart (a : BitVec w) (n : Nat) (b : BitVec w) (k : Nat) : Prop := n ≤ (b - a).toNat ∧ k ≤ (a - b).toNat

instance Apart.decidable (a : BitVec w) (n : Nat) (b : BitVec w) (k : Nat) : Decidable (Apart a n b k) :=
  inferInstanceAs (Decidable (_ ∧ _))

def SameBytes (a : BitVec w) (n : Nat) (m m' : Mem w) : Prop := ∀ b, Within a n b → m' b = m b

theorem getLsbD_load (m : Mem w) (a : BitVec w) {i : Nat} (inside : i < w) :
    (load m a).getLsbD i = (m (a + BitVec.ofNat w (i / 8))).getLsbD (i % 8) :=
  BitVec.iunfoldr_getLsbD (f := fun i (u : Unit) => (u, (m (a + BitVec.ofNat w (i / 8))).getLsbD (i % 8)))
    (fun _ => ()) ⟨i, inside⟩ fun _ => rfl

theorem offset_sub (a : BitVec w) (k : Nat) : a + BitVec.ofNat w k - a = BitVec.ofNat w k := by
  rw [BitVec.add_comm, BitVec.add_sub_cancel]

theorem offset_toNat {k : Nat} (small : k < w) : (BitVec.ofNat w k).toNat = k := by
  rw [BitVec.toNat_ofNat]
  exact Nat.mod_eq_of_lt (Nat.lt_trans small Nat.lt_two_pow_self)

section
variable (whole : w % 8 = 0)
include whole

theorem byte_lt {i : Nat} (inside : i < w) : i / 8 < w / 8 := by omega

theorem load_congr {m m' : Mem w} {a : BitVec w} (same : SameBytes a (w / 8) m m') : load m' a = load m a := by
  apply BitVec.eq_of_getLsbD_eq
  intro i inside
  rw [getLsbD_load _ _ inside, getLsbD_load _ _ inside, same]
  rw [Within, offset_sub, offset_toNat (by omega)]
  exact byte_lt whole inside

@[simp] theorem load_store_same (m : Mem w) (a x : BitVec w) : load (store m a x) a = x := by
  apply BitVec.eq_of_getLsbD_eq
  intro i inside
  have byte := byte_lt whole inside
  rw [getLsbD_load _ _ inside]
  simp only [store, offset_sub]
  rw [offset_toNat (by omega), if_pos byte, BitVec.getLsbD_extractLsb']
  have place : 8 * (i / 8) + i % 8 = i := by omega
  have low : i % 8 < 8 := by omega
  simp [place, low]

end

theorem store_other {m : Mem w} {a b : BitVec w} (x : BitVec w) (away : w / 8 ≤ (b - a).toNat) : store m a x b = m b := by
  rw [store, if_neg (by omega)]

theorem Apart.outside {a b c : BitVec w} {n k : Nat} (apart : Apart a n b k) (inside : Within b k c) :
    n ≤ (c - a).toNat := by
  obtain ⟨first, second⟩ := apart
  unfold Within at inside
  have sum : (b - a).toNat + (c - b).toNat < 2 ^ w := by
    have wrap : (a - b).toNat + (b - a).toNat = 2 ^ w ∨ (b - a).toNat = 0 ∧ (a - b).toNat = 0 := by
      have ha := a.isLt
      have hb := b.isLt
      rw [BitVec.toNat_sub, BitVec.toNat_sub]
      by_cases same : a.toNat = b.toNat
      · right
        rw [same, Nat.sub_add_cancel (by omega), Nat.mod_self]
        exact ⟨rfl, rfl⟩
      · by_cases less : a.toNat < b.toNat
        · left
          rw [Nat.mod_eq_of_lt (by omega), show 2 ^ w - a.toNat + b.toNat = 2 ^ w + (b.toNat - a.toNat) by omega,
            Nat.add_mod_left, Nat.mod_eq_of_lt (by omega)]
          omega
        · left
          rw [show 2 ^ w - b.toNat + a.toNat = 2 ^ w + (a.toNat - b.toNat) by omega, Nat.add_mod_left,
            Nat.mod_eq_of_lt (by omega : a.toNat - b.toNat < 2 ^ w), Nat.mod_eq_of_lt (by omega)]
          omega
    omega
  have path : c - a = (b - a) + (c - b) := by grind
  rw [path, BitVec.toNat_add, Nat.mod_eq_of_lt sum]
  omega

theorem store_apart {m : Mem w} {a b : BitVec w} {k : Nat} (x : BitVec w) (apart : Apart a (w / 8) b k) :
    SameBytes b k m (store m a x) := fun _ inside => store_other x (apart.outside inside)

theorem load_store_apart (whole : w % 8 = 0) {m : Mem w} {a b : BitVec w} (x : BitVec w)
    (apart : Apart a (w / 8) b (w / 8)) : load (store m a x) b = load m b :=
  load_congr whole (store_apart x apart)

theorem Apart.symm {a b : BitVec w} {n k : Nat} (apart : Apart a n b k) : Apart b k a n := ⟨apart.2, apart.1⟩

theorem SameBytes.trans {a : BitVec w} {n : Nat} {m m' m'' : Mem w} (first : SameBytes a n m m')
    (second : SameBytes a n m' m'') : SameBytes a n m m'' := fun b inside => (second b inside).trans (first b inside)

theorem offset_apart (a : BitVec w) {i j n k : Nat} (order : i + n ≤ j) (fits : j + k ≤ 2 ^ w) (some_ : 0 < n) (more : 0 < k) :
    Apart (a + BitVec.ofNat w i) n (a + BitVec.ofNat w j) k := by
  have up : a + BitVec.ofNat w j - (a + BitVec.ofNat w i) = BitVec.ofNat w (j - i) := by
    have sum : BitVec.ofNat w j = BitVec.ofNat w i + BitVec.ofNat w (j - i) := by
      rw [← BitVec.ofNat_add]
      congr 1
      omega
    rw [sum]
    grind
  have down : a + BitVec.ofNat w i - (a + BitVec.ofNat w j) = -BitVec.ofNat w (j - i) := by
    rw [← up]
    grind
  have value : (BitVec.ofNat w (j - i)).toNat = j - i := by
    rw [BitVec.toNat_ofNat, Nat.mod_eq_of_lt (by omega)]
  refine ⟨by rw [up, value]; omega, ?_⟩
  rw [down, BitVec.toNat_neg, value, Nat.mod_eq_of_lt (by omega)]
  omega

/- Several stores. -/

def storeAll (m : Mem w) (l : List (BitVec w × BitVec w)) : Mem w := l.foldl (fun m p => store m p.1 p.2) m

theorem storeAll_cons (m : Mem w) (p : BitVec w × BitVec w) (l : List (BitVec w × BitVec w)) :
    storeAll m (p :: l) = storeAll (store m p.1 p.2) l := rfl

theorem storeAll_apart {m : Mem w} {l : List (BitVec w × BitVec w)} {b : BitVec w} {k : Nat}
    (apart : ∀ p ∈ l, Apart p.1 (w / 8) b k) : SameBytes b k m (storeAll m l) := by
  induction l generalizing m with
  | nil => exact fun _ _ => rfl
  | cons p l ih =>
    have later := ih (m := store m p.1 p.2) fun q member => apart q (List.mem_cons_of_mem _ member)
    exact (store_apart p.2 (apart p (List.mem_cons_self ..))).trans later

theorem load_storeAll (whole : w % 8 = 0) {m : Mem w} {l : List (BitVec w × BitVec w)}
    (distinct : l.Pairwise fun p q => Apart p.1 (w / 8) q.1 (w / 8)) {p : BitVec w × BitVec w} (member : p ∈ l) :
    load (storeAll m l) p.1 = p.2 := by
  induction l generalizing m with
  | nil => cases member
  | cons q l ih =>
    obtain ⟨first, distinct⟩ := List.pairwise_cons.mp distinct
    rw [storeAll_cons]
    obtain rfl | later := List.mem_cons.mp member
    · rw [load_congr whole (storeAll_apart fun r there => (first r there).symm), load_store_same whole]
    · exact ih distinct later

theorem offsets_apart (a : BitVec w) (some_ : 0 < w / 8) {l : List (Nat × BitVec w)}
    (gaps : (l.map Prod.fst).Pairwise fun i j => i + w / 8 ≤ j ∨ j + w / 8 ≤ i)
    (fits : ∀ p ∈ l, p.1 + w / 8 ≤ 2 ^ w) :
    (l.map fun p => (a + BitVec.ofNat w p.1, p.2)).Pairwise fun p q => Apart p.1 (w / 8) q.1 (w / 8) := by
  rw [List.pairwise_map] at gaps ⊢
  refine gaps.imp_of_mem fun {p q} hp hq order => ?_
  obtain below | above := order
  · exact offset_apart a below (fits q hq) some_ some_
  · exact (offset_apart a above (fits p hp) some_ some_).symm

theorem Apart.part {a b : BitVec w} {n k i l : Nat} (apart : Apart a n b k) (inside : i + l ≤ n) (some_ : 0 < l) :
    Apart (a + BitVec.ofNat w i) l b k := by
  obtain ⟨first, second⟩ := apart
  have large := (b - a).isLt
  have small : (BitVec.ofNat w i).toNat = i := by
    rw [BitVec.toNat_ofNat, Nat.mod_eq_of_lt (by omega)]
  have up : b - (a + BitVec.ofNat w i) = (b - a) - BitVec.ofNat w i := by grind
  have down : a + BitVec.ofNat w i - b = (a - b) + BitVec.ofNat w i := by grind
  have wrap : (a - b).toNat = 2 ^ w - (b - a).toNat := by
    have flip : a - b = -(b - a) := by grind
    rw [flip, BitVec.toNat_neg, Nat.mod_eq_of_lt (by omega)]
  constructor
  · rw [up, BitVec.toNat_sub, small, show 2 ^ w - i + (b - a).toNat = 2 ^ w + ((b - a).toNat - i) by omega,
      Nat.add_mod_left, Nat.mod_eq_of_lt (by omega)]
    omega
  · rw [down, BitVec.toNat_add, small, Nat.mod_eq_of_lt (by omega)]
    omega

end ByteMemory
