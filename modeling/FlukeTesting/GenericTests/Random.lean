import FlukeTesting.Lib.Congruential
import Mathlib.Algebra.Field.ZMod
import Mathlib.Data.List.Iterate
import Mathlib.Data.List.Perm.Basic
import Mathlib.Tactic.NormNum.Prime

/-!
# The data of the compression tests

`random.c` fills the file that `gzip-test` compresses and `gunzip-test` expands. Its numbers are
those of a linear congruential generator modulo a prime, with a factor of full order.
-/

namespace FlukeTesting.GenericTests

/-- The modulus of `simple_random`. -/
def modulus : ℕ := 32749

/-- `simple_random`, where `unsigned long` has so many bits. -/
def simpleRandom (bits r : ℕ) : ℕ := (r * 32719 + 3) % 2 ^ bits % modulus

/-- `SAMPLES`. -/
def samples : ℕ := 1024 * 1024

/-- The conversion to `uint32_t`. -/
def toUint32 (r : ℕ) : ℕ := r % 2 ^ 32

/-- The numbers that `main` writes, in eight buffers, from `r = 1` on. -/
def output (bits : ℕ) : List ℕ :=
  (List.iterate (simpleRandom bits) (simpleRandom bits 1) (8 * samples)).map toUint32

/-- The modulus is a prime. -/
theorem prime_modulus : modulus.Prime := by norm_num [modulus]

instance : Fact modulus.Prime := ⟨prime_modulus⟩

/-- Numbers are below the modulus. -/
theorem simpleRandom_lt (bits r : ℕ) : simpleRandom bits r < modulus :=
  Nat.mod_lt _ prime_modulus.pos

/-- The buffer has room for every number. -/
theorem output_eq (bits : ℕ) :
    output bits = List.iterate (simpleRandom bits) (simpleRandom bits 1) (8 * samples) := by
  have hsmall (r n x : ℕ) (hr : r < modulus) (hx : x ∈ List.iterate (simpleRandom bits) r n) :
      x < modulus := by
    induction n generalizing r with
    | zero => exact absurd hx List.not_mem_nil
    | succ n ih =>
      rcases List.mem_cons.mp hx with rfl | hx
      · exact hr
      · exact ih (simpleRandom bits r) (simpleRandom_lt bits r) hx
  rw [output]
  conv_rhs => rw [← List.map_id (List.iterate _ _ _)]
  apply List.map_congr_left
  intro x hx
  have hlt := hsmall _ _ x (simpleRandom_lt bits 1) hx
  exact Nat.mod_eq_of_lt (hlt.trans (by decide))

/-- A step does not overflow. -/
theorem simpleRandom_eq {bits r : ℕ} (hbits : 30 ≤ bits) (hr : r < modulus) :
    simpleRandom bits r = (r * 32719 + 3) % modulus := by
  have hsize : 2 ^ 30 ≤ 2 ^ bits := Nat.pow_le_pow_right (by decide) hbits
  have hlt : r * 32719 + 3 < 2 ^ bits := by
    unfold modulus at hr
    omega
  rw [simpleRandom, Nat.mod_eq_of_lt hlt]

/-- A step is one of the generator modulo the modulus. -/
theorem cast_simpleRandom {bits r : ℕ} (hbits : 30 ≤ bits) (hr : r < modulus) :
    (simpleRandom bits r : ZMod modulus) = Congruential.next 32719 3 (r : ZMod modulus) := by
  rw [simpleRandom_eq hbits hr, ZMod.natCast_mod]
  push_cast
  rfl

/-- All steps are. -/
theorem cast_iterate {bits r : ℕ} (hbits : 30 ≤ bits) (hr : r < modulus) (n : ℕ) :
    ((simpleRandom bits)^[n] r < modulus) ∧
      (((simpleRandom bits)^[n] r : ℕ) : ZMod modulus) =
        (Congruential.next 32719 3)^[n] (r : ZMod modulus) := by
  induction n with
  | zero => exact ⟨hr, rfl⟩
  | succ n ih =>
    rw [Function.iterate_succ_apply', Function.iterate_succ_apply', cast_simpleRandom hbits ih.1,
      ih.2]
    exact ⟨simpleRandom_lt _ _, rfl⟩

/-- A power of the factor, as a number. -/
theorem factor_pow_eq_one_iff (n : ℕ) :
    (32719 : ZMod modulus) ^ n = 1 ↔ 32719 ^ n % modulus = 1 := by
  have hcast : (32719 : ZMod modulus) ^ n = ((32719 ^ n : ℕ) : ZMod modulus) := by
    push_cast
    rfl
  have hone : (1 : ZMod modulus) = ((1 : ℕ) : ZMod modulus) := Nat.cast_one.symm
  rw [hcast, hone, ZMod.natCast_eq_natCast_iff']
  exact Iff.rfl

/-- The factor has full order. -/
theorem orderOf_factor : orderOf (32719 : ZMod modulus) = modulus - 1 := by
  apply orderOf_eq_of_pow_and_pow_div_prime (by decide)
  · rw [factor_pow_eq_one_iff]
    decide +kernel
  · intro p hp hdvd
    have hfactors : modulus - 1 = 2 * 2 * 3 * 2729 := rfl
    rw [hfactors, hp.dvd_mul, hp.dvd_mul, hp.dvd_mul,
      Nat.prime_dvd_prime_iff_eq hp Nat.prime_two, Nat.prime_dvd_prime_iff_eq hp Nat.prime_three,
      Nat.prime_dvd_prime_iff_eq hp (by norm_num : Nat.Prime 2729)] at hdvd
    rw [ne_eq, factor_pow_eq_one_iff]
    obtain ((rfl | rfl) | rfl) | rfl := hdvd <;> decide +kernel

/-- The number that a step does not change. -/
def stuck : ℕ := 27467

/-- It is the fixed point of the generator. -/
theorem cast_stuck : (stuck : ZMod modulus) = Congruential.fixed 32719 3 := by
  have hne : (1 - 32719 : ZMod modulus) ≠ 0 := by decide +kernel
  rw [Congruential.fixed, eq_div_iff hne]
  decide +kernel

/-- Numbers below the modulus are determined by their class. -/
theorem eq_of_cast {m n : ℕ} (hm : m < modulus) (hn : n < modulus)
    (h : (m : ZMod modulus) = (n : ZMod modulus)) : m = n := by
  rw [ZMod.natCast_eq_natCast_iff'] at h
  rwa [Nat.mod_eq_of_lt hm, Nat.mod_eq_of_lt hn] at h

/-- The factor does not keep every number. -/
theorem factor_ne_one : (32719 : ZMod modulus) ≠ 1 := by decide +kernel

/-- The factor is not zero. -/
theorem factor_ne_zero : (32719 : ZMod modulus) ≠ 0 := by decide +kernel

/-- A number that is not the stuck one is not the fixed point. -/
theorem cast_ne_fixed {r : ℕ} (hr : r < modulus) (hstuck : r ≠ stuck) :
    (r : ZMod modulus) ≠ Congruential.fixed 32719 3 := by
  rw [← cast_stuck]
  exact fun h => hstuck (eq_of_cast hr (by decide) h)

/-- The stuck number is not reached from elsewhere. -/
theorem iterate_ne_stuck {bits r : ℕ} (hbits : 30 ≤ bits) (hr : r < modulus) (hstuck : r ≠ stuck)
    (n : ℕ) : (simpleRandom bits)^[n] r ≠ stuck := by
  intro h
  have hcast := (cast_iterate hbits hr n).2
  rw [h, cast_stuck] at hcast
  exact Congruential.iterate_ne_fixed factor_ne_one factor_ne_zero (cast_ne_fixed hr hstuck) n
    hcast.symm

/-- From a number that is not the stuck one, a period has every other number once. -/
theorem iterate_perm {bits r : ℕ} (hbits : 30 ≤ bits) (hr : r < modulus) (hstuck : r ≠ stuck) :
    (List.iterate (simpleRandom bits) r (modulus - 1)).Perm ((List.range modulus).erase stuck) := by
  have hfixed := cast_ne_fixed hr hstuck
  have hnodup : (List.iterate (simpleRandom bits) r (modulus - 1)).Nodup := by
    rw [← List.range_map_iterate]
    refine List.Nodup.map_on (fun m hm n hn heq => ?_) List.nodup_range
    refine Congruential.iterate_injOn factor_ne_one hfixed ?_ ?_ ?_
    · rw [orderOf_factor]
      exact List.mem_range.mp hm
    · rw [orderOf_factor]
      exact List.mem_range.mp hn
    · dsimp only
      rw [← (cast_iterate hbits hr m).2, ← (cast_iterate hbits hr n).2, heq]
  rw [List.perm_ext_iff_of_nodup hnodup (List.nodup_range.erase stuck)]
  intro x
  rw [List.nodup_range.mem_erase_iff, List.mem_range, ← List.range_map_iterate, List.mem_map]
  constructor
  · rintro ⟨n, -, rfl⟩
    exact ⟨iterate_ne_stuck hbits hr hstuck n, (cast_iterate hbits hr n).1⟩
  · rintro ⟨hne, hlt⟩
    obtain ⟨n, hn, hreach⟩ := Congruential.exists_iterate factor_ne_one factor_ne_zero
      (by rw [orderOf_factor, ZMod.card]) hfixed (cast_ne_fixed hlt hne)
    rw [orderOf_factor] at hn
    obtain ⟨hlt', hcast⟩ := cast_iterate hbits hr n
    exact ⟨n, List.mem_range.mpr hn, eq_of_cast hlt' hlt (hcast.trans hreach)⟩

/-- Wherever a period of the file begins, every number below the modulus is in it once, but the one
that a step does not change is not. -/
theorem output_period {bits k : ℕ} (hbits : 30 ≤ bits) (hk : k + (modulus - 1) ≤ 8 * samples) :
    (((output bits).drop k).take (modulus - 1)).Perm ((List.range modulus).erase stuck) := by
  have hone : 1 < modulus := prime_modulus.one_lt
  have hfirst : simpleRandom bits 1 ≠ stuck := by
    rw [simpleRandom_eq hbits hone]
    decide
  have hlength : (List.iterate (simpleRandom bits) (simpleRandom bits 1) k).length = k :=
    List.length_iterate _ _ _
  obtain ⟨rest, hrest⟩ := Nat.exists_eq_add_of_le ((Nat.le_add_right k _).trans hk)
  have hroom : modulus - 1 ≤ rest := by omega
  rw [output_eq, hrest, List.iterate_add, List.drop_left' hlength, List.take_iterate,
    min_eq_left hroom]
  exact iterate_perm hbits (cast_iterate hbits (simpleRandom_lt bits 1) k).1
    (iterate_ne_stuck hbits (simpleRandom_lt bits 1) hfirst k)

/-- With 64 bits, from the beginning of the file on. -/
theorem output_period_start : 30 ≤ 64 ∧ 0 + (modulus - 1) ≤ 8 * samples ∧
    (((output 64).drop 0).take (modulus - 1)).Perm ((List.range modulus).erase stuck) :=
  ⟨by decide, by decide, output_period (by decide) (by decide)⟩

end FlukeTesting.GenericTests
