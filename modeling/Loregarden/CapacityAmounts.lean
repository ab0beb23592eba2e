import Mathlib.Algebra.Order.Ring.Rat

/-! # Amounts of capacity

A price is cpus and memory (`Weights`); what is booked against a pool is a price and a number of
lease slots (`Booking`). Both add, subtract and compare dimension by dimension, so one equation or
one bound between them says the same of each dimension at once. Cpus are exact rationals. -/

namespace Loregarden.Capacity

@[ext] structure Weights where
  cpus : Rat
  memoryMb : Int
  deriving DecidableEq

namespace Weights

instance : Zero Weights := ⟨⟨0, 0⟩⟩
instance : Add Weights := ⟨fun a b => ⟨a.cpus + b.cpus, a.memoryMb + b.memoryMb⟩⟩
instance : Neg Weights := ⟨fun a => ⟨-a.cpus, -a.memoryMb⟩⟩
instance : Sub Weights := ⟨fun a b => ⟨a.cpus - b.cpus, a.memoryMb - b.memoryMb⟩⟩
instance : LE Weights := ⟨fun a b => a.cpus ≤ b.cpus ∧ a.memoryMb ≤ b.memoryMb⟩

@[simp] theorem zero_cpus : (0 : Weights).cpus = 0 := rfl
@[simp] theorem zero_memoryMb : (0 : Weights).memoryMb = 0 := rfl
@[simp] theorem add_cpus (a b : Weights) : (a + b).cpus = a.cpus + b.cpus := rfl
@[simp] theorem add_memoryMb (a b : Weights) : (a + b).memoryMb = a.memoryMb + b.memoryMb := rfl
@[simp] theorem neg_cpus (a : Weights) : (-a).cpus = -a.cpus := rfl
@[simp] theorem neg_memoryMb (a : Weights) : (-a).memoryMb = -a.memoryMb := rfl
@[simp] theorem sub_cpus (a b : Weights) : (a - b).cpus = a.cpus - b.cpus := rfl
@[simp] theorem sub_memoryMb (a b : Weights) : (a - b).memoryMb = a.memoryMb - b.memoryMb := rfl

theorem le_iff {a b : Weights} : a ≤ b ↔ a.cpus ≤ b.cpus ∧ a.memoryMb ≤ b.memoryMb := Iff.rfl

instance : DecidableLE Weights := fun a b =>
  inferInstanceAs (Decidable (a.cpus ≤ b.cpus ∧ a.memoryMb ≤ b.memoryMb))

instance : AddCommGroup Weights where
  add_assoc a b c := by ext <;> simp [add_assoc]
  zero_add a := by ext <;> simp
  add_zero a := by ext <;> simp
  add_comm a b := by ext <;> simp [add_comm]
  neg_add_cancel a := by ext <;> simp
  sub_eq_add_neg a b := by ext <;> simp [sub_eq_add_neg]
  nsmul := nsmulRec
  zsmul := zsmulRec

instance : PartialOrder Weights where
  le_refl a := ⟨le_refl _, le_refl _⟩
  le_trans a b c hab hbc := ⟨hab.1.trans hbc.1, hab.2.trans hbc.2⟩
  le_antisymm a b hab hba := Weights.ext (le_antisymm hab.1 hba.1) (le_antisymm hab.2 hba.2)

instance : IsOrderedAddMonoid Weights where
  add_le_add_left _ _ hab c := ⟨add_le_add_left hab.1 c.cpus, add_le_add_left hab.2 c.memoryMb⟩

end Weights

/-- What a lease is charged against each pool it touches. -/
@[ext] structure Booking where
  cpus : Rat
  memoryMb : Int
  count : Int
  deriving DecidableEq

namespace Booking

def of (w : Weights) (count : Int) : Booking := ⟨w.cpus, w.memoryMb, count⟩

@[simp] theorem of_cpus (w : Weights) (n : Int) : (of w n).cpus = w.cpus := rfl
@[simp] theorem of_memoryMb (w : Weights) (n : Int) : (of w n).memoryMb = w.memoryMb := rfl
@[simp] theorem of_count (w : Weights) (n : Int) : (of w n).count = n := rfl

instance : Zero Booking := ⟨⟨0, 0, 0⟩⟩
instance : Add Booking := ⟨fun a b => ⟨a.cpus + b.cpus, a.memoryMb + b.memoryMb, a.count + b.count⟩⟩
instance : Neg Booking := ⟨fun a => ⟨-a.cpus, -a.memoryMb, -a.count⟩⟩
instance : Sub Booking := ⟨fun a b => ⟨a.cpus - b.cpus, a.memoryMb - b.memoryMb, a.count - b.count⟩⟩
instance : LE Booking := ⟨fun a b => a.cpus ≤ b.cpus ∧ a.memoryMb ≤ b.memoryMb ∧ a.count ≤ b.count⟩

@[simp] theorem zero_cpus : (0 : Booking).cpus = 0 := rfl
@[simp] theorem zero_memoryMb : (0 : Booking).memoryMb = 0 := rfl
@[simp] theorem zero_count : (0 : Booking).count = 0 := rfl
@[simp] theorem add_cpus (a b : Booking) : (a + b).cpus = a.cpus + b.cpus := rfl
@[simp] theorem add_memoryMb (a b : Booking) : (a + b).memoryMb = a.memoryMb + b.memoryMb := rfl
@[simp] theorem add_count (a b : Booking) : (a + b).count = a.count + b.count := rfl
@[simp] theorem neg_cpus (a : Booking) : (-a).cpus = -a.cpus := rfl
@[simp] theorem neg_memoryMb (a : Booking) : (-a).memoryMb = -a.memoryMb := rfl
@[simp] theorem neg_count (a : Booking) : (-a).count = -a.count := rfl
@[simp] theorem sub_cpus (a b : Booking) : (a - b).cpus = a.cpus - b.cpus := rfl
@[simp] theorem sub_memoryMb (a b : Booking) : (a - b).memoryMb = a.memoryMb - b.memoryMb := rfl
@[simp] theorem sub_count (a b : Booking) : (a - b).count = a.count - b.count := rfl

theorem le_iff {a b : Booking} :
    a ≤ b ↔ a.cpus ≤ b.cpus ∧ a.memoryMb ≤ b.memoryMb ∧ a.count ≤ b.count := Iff.rfl

instance : DecidableLE Booking := fun a b =>
  inferInstanceAs (Decidable (a.cpus ≤ b.cpus ∧ a.memoryMb ≤ b.memoryMb ∧ a.count ≤ b.count))

instance : AddCommGroup Booking where
  add_assoc a b c := by ext <;> simp [add_assoc]
  zero_add a := by ext <;> simp
  add_zero a := by ext <;> simp
  add_comm a b := by ext <;> simp [add_comm]
  neg_add_cancel a := by ext <;> simp
  sub_eq_add_neg a b := by ext <;> simp [sub_eq_add_neg]
  nsmul := nsmulRec
  zsmul := zsmulRec

instance : PartialOrder Booking where
  le_refl a := ⟨le_refl _, le_refl _, le_refl _⟩
  le_trans a b c hab hbc := ⟨hab.1.trans hbc.1, hab.2.1.trans hbc.2.1, hab.2.2.trans hbc.2.2⟩
  le_antisymm a b hab hba :=
    Booking.ext (le_antisymm hab.1 hba.1) (le_antisymm hab.2.1 hba.2.1)
      (le_antisymm hab.2.2 hba.2.2)

instance : IsOrderedAddMonoid Booking where
  add_le_add_left _ _ hab c :=
    ⟨add_le_add_left hab.1 c.cpus, add_le_add_left hab.2.1 c.memoryMb,
      add_le_add_left hab.2.2 c.count⟩

end Booking

/-- `_at_least_zero`: `MAX(expression, 0)`, in each dimension. -/
def Booking.atLeastZero (b : Booking) : Booking := ⟨max b.cpus 0, max b.memoryMb 0, max b.count 0⟩

def Weights.atLeastZero (w : Weights) : Weights := ⟨max w.cpus 0, max w.memoryMb 0⟩

theorem Booking.atLeastZero_eq {b : Booking} (h : 0 ≤ b) : b.atLeastZero = b := by
  obtain ⟨h1, h2, h3⟩ := Booking.le_iff.mp h
  ext
  · exact max_eq_left h1
  · exact max_eq_left h2
  · exact max_eq_left h3

theorem Weights.atLeastZero_eq {w : Weights} (h : 0 ≤ w) : w.atLeastZero = w := by
  obtain ⟨h1, h2⟩ := Weights.le_iff.mp h
  ext
  · exact max_eq_left h1
  · exact max_eq_left h2

end Loregarden.Capacity
