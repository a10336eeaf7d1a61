import Mathlib.Algebra.Group.Nat.Defs
import ArielOS.Fault

namespace ArielOS

abbrev ThreadFlags := BitVec 16

/-- Possible waiting modes for thread flags. -/
inductive WaitMode
  | any (mask : ThreadFlags)
  | all (mask : ThreadFlags)
  deriving DecidableEq, Repr

inductive ThreadState
  | invalid
  | running
  | parked
  | lockBlocked
  | flagBlocked (mode : WaitMode)
  | channelRxBlocked (ptr : Nat)
  | channelTxBlocked (ptr : Nat)
  | waitQueueBlocked
  deriving DecidableEq, Repr

/-- Affinity mask that defines on what cores a thread can be scheduled. -/
structure CoreAffinity where
  mask : BitVec 8
  deriving DecidableEq, Repr

namespace CoreAffinity

def noAffinity (cores : Nat) : CoreAffinity := ⟨BitVec.ofNat 8 (2 ^ cores - 1)⟩

def one (core : Nat) : CoreAffinity := ⟨1#8 <<< core⟩

def contains (affinity : CoreAffinity) (core : Nat) : Bool :=
  affinity.mask &&& (1#8 <<< core) != 0

theorem contains_eq (affinity : CoreAffinity) (core : Nat) :
    affinity.contains core = affinity.mask.getLsbD core := by
  rw [contains, Bool.eq_iff_iff, bne_iff_ne, ne_eq, BitVec.eq_of_getLsbD_eq_iff]
  simp only [BitVec.getLsbD_and, BitVec.getLsbD_shiftLeft, BitVec.getLsbD_one]
  apply Iff.intro
  · intro overlap
    by_contra absent
    apply overlap
    intro i bound
    by_cases same : i = core
    · subst same
      simp [absent]
    · simp
      omega
  · intro present all
    have bound : core < 8 := by
      by_contra outside
      simp [BitVec.getLsbD_of_ge _ _ (Nat.not_lt.mp outside)] at present
    have clear := all core bound
    rw [present] at clear
    simp [bound] at clear

theorem noAffinity_contains {cores core : Nat} (small : cores ≤ 8) (bound : core < cores) :
    (noAffinity cores).contains core = true := by
  rw [contains_eq, noAffinity, BitVec.getLsbD_ofNat, Nat.testBit_two_pow_sub_one]
  simp
  omega

end CoreAffinity

/-- Main struct for holding thread data, without the saved registers. -/
structure Thread where
  state : ThreadState
  prio : Nat
  tid : Nat
  flags : ThreadFlags
  coreAffinity : CoreAffinity
  deadline : Option Nat
  stackLowest : Nat
  stackHighest : Nat

/-- An empty thread object, for a configuration with this number of cores. -/
def Thread.default (cores : Nat) : Thread where
  state := .invalid
  prio := 0
  tid := 0
  flags := 0
  coreAffinity := .noAffinity cores
  deadline := none
  stackLowest := 0
  stackHighest := 0

end ArielOS
