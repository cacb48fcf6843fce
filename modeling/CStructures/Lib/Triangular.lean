import Mathlib.Data.Finset.Card
import Mathlib.Data.Finset.Image
import Mathlib.Data.Nat.ModEq
import Mathlib.Data.Nat.Prime.Basic
import Mathlib.Algebra.Order.Group.Nat
import Mathlib.Tactic.Ring

/-!
# Triangular probing

The `n`-th position of a probe sequence that adds 1, 2, 3, … is the start plus the `n`-th
triangular number, modulo the size of the table. `coverage m` counts the positions visited
in a table of size `m`: all of them when `m` is a power of two, fewer when a factor 3 comes
in.
-/

namespace CStructures.Lib

/-- `1 + 2 + ⋯ + n` -/
def triangular : Nat → Nat
  | 0 => 0
  | n + 1 => triangular n + (n + 1)

lemma two_mul_triangular (n : Nat) : 2 * triangular n = n * (n + 1) := by
  induction n with
  | zero => rfl
  | succ n ih =>
    rw [triangular, Nat.mul_add, ih]
    ring

/-- The number of distinct positions among the first `m` probes modulo `m`. -/
def coverage (m : Nat) : Nat := ((Finset.range m).image fun n => triangular n % m).card

/-- The probes from any start reach as many positions as those from zero. -/
lemma card_probes (m start : Nat) :
    ((Finset.range m).image fun n => (start + triangular n) % m).card = coverage m := by
  have himage : ((Finset.range m).image fun n => (start + triangular n) % m) =
      ((Finset.range m).image fun n => triangular n % m).image fun p => (start + p) % m := by
    rw [Finset.image_image]
    apply Finset.image_congr
    intro n _
    simp only [Function.comp_apply, Nat.add_mod_mod]
  rw [himage, coverage]
  apply Finset.card_image_of_injOn
  intro p hp q hq hpq
  obtain ⟨i, _, rfl⟩ := Finset.mem_image.mp (Finset.mem_coe.mp hp)
  obtain ⟨j, _, rfl⟩ := Finset.mem_image.mp (Finset.mem_coe.mp hq)
  have hmod : triangular i % m ≡ triangular j % m [MOD m] := Nat.ModEq.add_left_cancel' start hpq
  rwa [Nat.ModEq, Nat.mod_mod, Nat.mod_mod] at hmod

/-- Fewer occupied positions than probes leave one probe on a free position. -/
theorem exists_probe_not_mem {m : Nat} (start : Nat) {occupied : Finset Nat}
    (h : occupied.card < coverage m) : ∃ n < m, (start + triangular n) % m ∉ occupied := by
  by_contra hall
  simp only [not_exists, not_and, not_not] at hall
  have hsub : ((Finset.range m).image fun n => (start + triangular n) % m) ⊆ occupied := by
    intro p hp
    obtain ⟨n, hn, rfl⟩ := Finset.mem_image.mp hp
    exact hall n (Finset.mem_range.mp hn)
  have hcard := Finset.card_le_card hsub
  rw [card_probes] at hcard
  omega

/-- Full coverage means that the probes visit every position once. -/
theorem bijOn_probes {m : Nat} (h : coverage m = m) (start : Nat) :
    Set.BijOn (fun n => (start + triangular n) % m) (Finset.range m) (Finset.range m) := by
  have hmaps : Set.MapsTo (fun n => (start + triangular n) % m) (Finset.range m) (Finset.range m) := by
    intro n hn
    have hlt := Finset.mem_range.mp (Finset.mem_coe.mp hn)
    exact Finset.mem_coe.mpr (Finset.mem_range.mpr (Nat.mod_lt _ (by omega)))
  have hinj : Set.InjOn (fun n => (start + triangular n) % m) (Finset.range m) := by
    rw [← Finset.card_image_iff, card_probes, h, Finset.card_range]
  exact ⟨hmaps, hinj, Finset.surjOn_of_injOn_of_card_le _ hmaps hinj le_rfl⟩

/-- Modulo a power of two the first probes are all different. -/
theorem coverage_two_pow (a : Nat) : coverage (2 ^ a) = 2 ^ a := by
  have hinj : Set.InjOn (fun n => triangular n % 2 ^ a) (Finset.range (2 ^ a)) := by
    intro i hi j hj hij
    rw [Finset.coe_range, Set.mem_Iio] at hi hj
    wlog hle : i ≤ j generalizing i j
    · exact (this hj hi hij.symm (by omega)).symm
    obtain ⟨d, rfl⟩ := Nat.exists_eq_add_of_le hle
    have hdvd : 2 ^ a ∣ triangular (i + d) - triangular i :=
      (Nat.modEq_iff_dvd' (by
        have hi2 := two_mul_triangular i
        have hj2 := two_mul_triangular (i + d)
        have := Nat.mul_le_mul hle (Nat.succ_le_succ hle)
        simp only [Nat.succ_eq_add_one] at this
        omega)).mp hij
    have hprod : 2 ^ (a + 1) ∣ d * (2 * i + d + 1) := by
      have h2 : d * (2 * i + d + 1) = 2 * (triangular (i + d) - triangular i) := by
        have hi2 := two_mul_triangular i
        have hj2 := two_mul_triangular (i + d)
        have hexp : (i + d) * (i + d + 1) = i * (i + 1) + d * (2 * i + d + 1) := by ring
        omega
      rw [h2, Nat.pow_succ, Nat.mul_comm]
      exact Nat.mul_dvd_mul_left 2 hdvd
    rcases Nat.even_or_odd d with heven | hodd
    · have hcop : Nat.Coprime (2 ^ (a + 1)) (2 * i + d + 1) := by
        apply Nat.Coprime.pow_left
        rw [Nat.coprime_two_left]
        obtain ⟨c, rfl⟩ := heven
        exact ⟨i + c, by ring⟩
      have hd : 2 ^ (a + 1) ∣ d := hcop.dvd_of_dvd_mul_right hprod
      have hpow : 2 ^ a < 2 ^ (a + 1) := Nat.pow_lt_pow_right (by omega) (by omega)
      have hzero := Nat.eq_zero_of_dvd_of_lt hd (by omega)
      omega
    · have hcop : Nat.Coprime (2 ^ (a + 1)) d := Nat.Coprime.pow_left _ (Nat.coprime_two_left.mpr hodd)
      have hd : 2 ^ (a + 1) ∣ 2 * i + d + 1 := hcop.dvd_of_dvd_mul_left hprod
      have hpow : 2 ^ (a + 1) = 2 * 2 ^ a := by rw [Nat.pow_succ, Nat.mul_comm]
      have hle' := Nat.le_of_dvd (by omega) hd
      omega
  rw [coverage, Finset.card_image_of_injOn hinj, Finset.card_range]

/-- A table of three times the size has a position that only its own probes tell from the
start. -/
lemma exists_probe_multiple {m : Nat} (hm : 0 < m) :
    ∃ n < 3 * m, triangular n % m = 0 ∧ triangular n % (3 * m) ≠ 0 := by
  have hmul : ∀ c, c % 3 ≠ 0 → m * c % (3 * m) ≠ 0 := by
    intro c hc
    rw [Nat.mul_comm 3 m, Nat.mul_mod_mul_left]
    exact Nat.mul_ne_zero (by omega) hc
  by_cases h : (2 * m - 1) % 3 = 0
  · have htri : triangular (2 * m) = m * (2 * m + 1) := by
      have h2 := two_mul_triangular (2 * m)
      have : 2 * m * (2 * m + 1) = 2 * (m * (2 * m + 1)) := by ring
      omega
    exact ⟨2 * m, by omega, by rw [htri, Nat.mul_mod_right], by rw [htri]; exact hmul _ (by omega)⟩
  · have htri : triangular (2 * m - 1) = m * (2 * m - 1) := by
      have h2 := two_mul_triangular (2 * m - 1)
      have hs : 2 * m - 1 + 1 = 2 * m := by omega
      rw [hs] at h2
      have : (2 * m - 1) * (2 * m) = 2 * (m * (2 * m - 1)) := by ring
      omega
    exact ⟨2 * m - 1, by omega, by rw [htri, Nat.mul_mod_right], by rw [htri]; exact hmul _ h⟩

/-- A larger table is covered by more probes. -/
theorem coverage_lt_coverage_three_mul {m : Nat} (hm : 0 < m) : coverage m < coverage (3 * m) := by
  obtain ⟨n, hn, hnm, hn3⟩ := exists_probe_multiple hm
  set probes := (Finset.range (3 * m)).image fun i => triangular i % (3 * m) with hprobes
  have hmem : triangular n % (3 * m) ∈ probes :=
    Finset.mem_image.mpr ⟨n, Finset.mem_range.mpr hn, rfl⟩
  have hsub : ((Finset.range m).image fun i => triangular i % m) ⊆
      (probes.erase (triangular n % (3 * m))).image fun p => p % m := by
    intro p hp
    obtain ⟨i, hi, rfl⟩ := Finset.mem_image.mp hp
    rw [Finset.mem_range] at hi
    rw [Finset.mem_image]
    by_cases hin : triangular i % (3 * m) = triangular n % (3 * m)
    · refine ⟨0, Finset.mem_erase.mpr ⟨Ne.symm hn3, ?_⟩, ?_⟩
      · exact Finset.mem_image.mpr ⟨0, Finset.mem_range.mpr (by omega), by simp [triangular]⟩
      · rw [Nat.zero_mod, ← Nat.mod_mod_of_dvd (triangular i) (Dvd.intro_left 3 rfl), hin,
          Nat.mod_mod_of_dvd _ (Dvd.intro_left 3 rfl), hnm]
    · refine ⟨triangular i % (3 * m), Finset.mem_erase.mpr ⟨hin, ?_⟩,
        Nat.mod_mod_of_dvd _ (Dvd.intro_left 3 rfl)⟩
      exact Finset.mem_image.mpr ⟨i, Finset.mem_range.mpr (by omega), rfl⟩
  calc coverage m ≤ ((probes.erase (triangular n % (3 * m))).image fun p => p % m).card :=
        Finset.card_le_card hsub
    _ ≤ (probes.erase (triangular n % (3 * m))).card := Finset.card_image_le
    _ < probes.card := Finset.card_erase_lt_of_mem hmem

/-! ### A factor of three

A triangular number is never 2 modulo 3, and those that are 0 or 1 modulo 3 fall on all
such positions of a table of size `3 * 2 ^ a`.
-/

lemma triangular_mod_three (n : Nat) : triangular n % 3 = if n % 3 = 1 then 1 else 0 := by
  have h2 := congrArg (· % 3) (two_mul_triangular n)
  simp only [Nat.mul_mod n (n + 1)] at h2
  have hs : (n + 1) % 3 = (n % 3 + 1) % 3 := by omega
  rw [hs] at h2
  obtain h | h | h : n % 3 = 0 ∨ n % 3 = 1 ∨ n % 3 = 2 := by omega
  · rw [h] at h2
    rw [if_neg (by omega)]
    omega
  · rw [h] at h2
    rw [if_pos h]
    omega
  · rw [h] at h2
    rw [if_neg (by omega)]
    omega

lemma triangular_reflect {m i n : Nat} (h : n + i + 1 = 2 * m) :
    triangular n ≡ triangular i [MOD m] := by
  have hn := two_mul_triangular n
  have hi := two_mul_triangular i
  have hsum : triangular n + m * i = triangular i + m * n := by
    have h1 : n * (n + 1) + 2 * m * i = i * (i + 1) + 2 * m * n := by
      rw [← h]
      ring
    have h2 : 2 * m * i = 2 * (m * i) := by ring
    have h3 : 2 * m * n = 2 * (m * n) := by ring
    omega
  have hmod := congrArg (· % m) hsum
  simpa only [Nat.ModEq, Nat.add_mul_mod_self_left] using hmod

lemma triangular_add_period (m i j : Nat) :
    triangular (i + 2 * m * j) ≡ triangular i [MOD m] := by
  have hn := two_mul_triangular (i + 2 * m * j)
  have hi := two_mul_triangular i
  have hsum : triangular (i + 2 * m * j) = triangular i + m * (j * (2 * i + 1 + 2 * m * j)) := by
    have h1 : (i + 2 * m * j) * (i + 2 * m * j + 1) =
        i * (i + 1) + 2 * (m * (j * (2 * i + 1 + 2 * m * j))) := by ring
    omega
  rw [hsum, Nat.ModEq, Nat.add_mul_mod_self_left]

lemma coverage_three_mul_le (m : Nat) : coverage (3 * m) ≤ 2 * m := by
  have hmap : ∀ p ∈ (Finset.range (3 * m)).image (fun n => triangular n % (3 * m)),
      p - p / 3 ∈ Finset.range (2 * m) := by
    intro p hp
    obtain ⟨n, hn, rfl⟩ := Finset.mem_image.mp hp
    have hlt : triangular n % (3 * m) < 3 * m := Nat.mod_lt _ (by rw [Finset.mem_range] at hn; omega)
    have h3 := triangular_mod_three n
    rw [← Nat.mod_mod_of_dvd (triangular n) (Dvd.intro m rfl : 3 ∣ 3 * m)] at h3
    rw [Finset.mem_range]
    split_ifs at h3 <;> omega
  have hinj : Set.InjOn (fun p => p - p / 3)
      ((Finset.range (3 * m)).image fun n => triangular n % (3 * m)) := by
    intro p hp q hq hpq
    obtain ⟨i, _, rfl⟩ := Finset.mem_image.mp (Finset.mem_coe.mp hp)
    obtain ⟨j, _, rfl⟩ := Finset.mem_image.mp (Finset.mem_coe.mp hq)
    have hi := triangular_mod_three i
    have hj := triangular_mod_three j
    rw [← Nat.mod_mod_of_dvd (triangular i) (Dvd.intro m rfl : 3 ∣ 3 * m)] at hi
    rw [← Nat.mod_mod_of_dvd (triangular j) (Dvd.intro m rfl : 3 ∣ 3 * m)] at hj
    dsimp only at hpq
    split_ifs at hi hj <;> omega
  have hcard := Finset.card_le_card_of_injOn _ hmap hinj
  rwa [Finset.card_range] at hcard

lemma exists_triangular_two_pow (a p : Nat) : ∃ i < 2 ^ a, triangular i ≡ p [MOD 2 ^ a] := by
  have hp : p % 2 ^ a ∈ Finset.range (2 ^ a) := Finset.mem_range.mpr (Nat.mod_lt _ (Nat.two_pow_pos a))
  obtain ⟨i, hi, hip⟩ := (bijOn_probes (coverage_two_pow a) 0).surjOn (Finset.mem_coe.mpr hp)
  dsimp only at hip
  rw [Nat.zero_add] at hip
  exact ⟨i, Finset.mem_range.mp (Finset.mem_coe.mp hi), hip⟩

/-- A probe finds every position that is not 2 modulo 3. -/
lemma exists_probe_three_mul_two_pow (a : Nat) {p : Nat} (hp : p % 3 ≠ 2) :
    ∃ n < 3 * 2 ^ a, triangular n ≡ p [MOD 3 * 2 ^ a] := by
  obtain ⟨i, hi, hip⟩ := exists_triangular_two_pow a p
  have hcop : Nat.Coprime 3 (2 ^ a) := Nat.Coprime.pow_right a (by decide)
  have hpow : 2 ^ a % 3 ≠ 0 := by
    intro h0
    have hdvd := Nat.Coprime.eq_one_of_dvd hcop (Nat.dvd_of_mod_eq_zero h0)
    omega
  obtain ⟨j, hj, hj3⟩ : ∃ j < 3, (i + 2 * 2 ^ a * j) % 3 = p % 3 := by
    have hb : 2 ^ a % 3 = 1 ∨ 2 ^ a % 3 = 2 := by omega
    have hi : i % 3 = 0 ∨ i % 3 = 1 ∨ i % 3 = 2 := by omega
    have hp : p % 3 = 0 ∨ p % 3 = 1 := by omega
    rcases hb with hb | hb <;> rcases hi with hi | hi | hi <;> rcases hp with hp | hp <;>
      first
        | exact ⟨0, by omega, by omega⟩
        | exact ⟨1, by omega, by omega⟩
        | exact ⟨2, by omega, by omega⟩
  have hmod : triangular (i + 2 * 2 ^ a * j) ≡ p [MOD 3 * 2 ^ a] := by
    refine (Nat.modEq_and_modEq_iff_modEq_mul hcop).mp ⟨?_, (triangular_add_period _ i j).trans hip⟩
    rw [Nat.ModEq, triangular_mod_three, hj3]
    split_ifs <;> omega
  have hlt : i + 2 * 2 ^ a * j < 5 * 2 ^ a := by
    have := Nat.mul_le_mul_left (2 * 2 ^ a) (Nat.le_of_lt_succ hj)
    omega
  by_cases hn : i + 2 * 2 ^ a * j < 3 * 2 ^ a
  · exact ⟨_, hn, hmod⟩
  · refine ⟨2 * (3 * 2 ^ a) - 1 - (i + 2 * 2 ^ a * j), by omega, (triangular_reflect ?_).trans hmod⟩
    omega

theorem coverage_three_mul_two_pow (a : Nat) : coverage (3 * 2 ^ a) = 2 * 2 ^ a := by
  apply le_antisymm (coverage_three_mul_le _)
  have hmap : ∀ q ∈ Finset.range (2 * 2 ^ a), 3 * (q / 2) + q % 2 ∈
      (Finset.range (3 * 2 ^ a)).image fun n => triangular n % (3 * 2 ^ a) := by
    intro q hq
    rw [Finset.mem_range] at hq
    obtain ⟨n, hn, hnq⟩ := exists_probe_three_mul_two_pow a (p := 3 * (q / 2) + q % 2) (by omega)
    refine Finset.mem_image.mpr ⟨n, Finset.mem_range.mpr hn, ?_⟩
    rw [hnq, Nat.mod_eq_of_lt (by omega)]
  have hinj : Set.InjOn (fun q => 3 * (q / 2) + q % 2) (Finset.range (2 * 2 ^ a)) := by
    intro p _ q _ hpq
    dsimp only at hpq
    omega
  have hcard := Finset.card_le_card_of_injOn _ hmap hinj
  rwa [Finset.card_range] at hcard

end CStructures.Lib
